import PqcContiki.CleanFailures

/-!
The secrets of the root. Between events a session has keys only once it has agreed on them, and
the ciphertext buffers are wiped.
-/
namespace PqcContiki

open TxQueue Relation Runs

variable {P : Platform} {me : SessionRef} {clk : Clock} {rnd : Entropy} {conn : UdpConn}
  {dest : IpAddr} {h : FragmentHeader} {payload : Bytes} {ctx : FragmentRxCtx} {f f' f'' : Fsm}
  {s s' : Session}

namespace Session

theorem Keyless.confined (h : s.Keyless) : s.Confined := fun _ => h

theorem Keyless.of_core {c : SessionCore} (h : s.Keyless) (hc : s'.core = c)
    (hss : c.ss = s.ss) (hkey : c.aesKey = s.aesKey) : s'.Keyless :=
  ⟨(congrArg SessionCore.ss hc).trans (hss.trans h.1),
    (congrArg SessionCore.aesKey hc).trans (hkey.trans h.2)⟩

/-- A move that keeps the state and the keys. -/
theorem Confined.of_core {c : SessionCore} (h : s.Confined) (hc : s'.core = c)
    (hstate : c.state = s.state) (hss : c.ss = s.ss) (hkey : c.aesKey = s.aesKey) :
    s'.Confined := by
  intro hs
  have hstate' : s'.state = s.state := (congrArg SessionCore.state hc).trans hstate
  rw [hstate'] at hs
  exact (h hs).of_core hc hss hkey

theorem Confined.of_skips (h : s.Confined) (hs : Skips s s') : s'.Confined := by
  obtain ⟨n, hn⟩ := hs
  exact h.of_core hn rfl rfl rfl

theorem confined_of_state (h : s.state = .established ∨ s.state = .waitAck) : s.Confined := by
  rintro (hs | hs | hs | hs) <;> simp [hs] at h

theorem confined_fresh {role : SessionRole} {nodeId : UInt16} (h : s.core = .fresh role nodeId) :
    s.Confined :=
  Keyless.confined ⟨congrArg SessionCore.ss h, congrArg SessionCore.aesKey h⟩

end Session

theorem Incomplete.confined (hi : Incomplete me h payload f f') (hc : f.s.Confined) :
    f'.s.Confined := by
  cases hi with
  | quiet hs _ | stored hs _ _ _ _ _ => exact hc.of_skips hs
  | refused _ _ => exact hc
  | resent hs _ _ => exact hc.of_core hs rfl rfl rfl

/-- A retry that fails keeps the keys of a session that waits, and any other keeps its state. -/
theorem Retried.secrets (hr : Retried f f') :
    (f.s.waitingResponse = true ∧ f'.s.state = .failed ∧ f'.s.ss = f.s.ss ∧
      f'.s.aesKey = f.s.aesKey ∧ f'.hs.rootCt = f.hs.rootCt ∧
      f'.hs.nodeCt = if f.s.role = .node then zeroCt else f.hs.nodeCt) ∨
    (f'.s.state = f.s.state ∧ f'.s.ss = f.s.ss ∧ f'.s.aesKey = f.s.aesKey ∧
      f'.hs.rootCt = f.hs.rootCt ∧ f'.hs.nodeCt = f.hs.nodeCt) := by
  have hcore : ∀ {s : Session} {c : SessionCore}, s.core = c → c.state = f.s.state →
      c.ss = f.s.ss → c.aesKey = f.s.aesKey →
      s.state = f.s.state ∧ s.ss = f.s.ss ∧ s.aesKey = f.s.aesKey := by
    rintro s c rfl hstate hss hkey
    exact ⟨hstate, hss, hkey⟩
  cases hr with
  | failed hw hs hct _ _ =>
    exact Or.inl ⟨hw, congrArg SessionCore.state hs, congrArg SessionCore.ss hs,
      congrArg SessionCore.aesKey hs, rfl, hct⟩
  | waited hs _ =>
    obtain ⟨hstate, hss, hkey⟩ := hcore hs rfl rfl rfl
    exact Or.inr ⟨hstate, hss, hkey, rfl, rfl⟩
  | asked _ hs _ _ _ _ =>
    obtain ⟨hstate, hss, hkey⟩ := hcore hs rfl rfl rfl
    exact Or.inr ⟨hstate, hss, hkey, rfl, rfl⟩
  | resent _ hs _ _ =>
    rcases hs with hs | hs
    · obtain ⟨hstate, hss, hkey⟩ := hcore hs rfl rfl rfl
      exact Or.inr ⟨hstate, hss, hkey, rfl, rfl⟩
    · obtain ⟨hstate, hss, hkey⟩ := hcore hs rfl rfl rfl
      exact Or.inr ⟨hstate, hss, hkey, rfl, rfl⟩
  | stray _ _ _ => exact Or.inr ⟨rfl, rfl, rfl, rfl, rfl⟩

namespace Root

variable {r r' : Root} {past : List Root} {data : Option Bytes}

/-- No secret outlives its use at the root. -/
structure Clean (r : Root) : Prop where
  sessions : ∀ i, (r.sessions i).Confined
  rootCt : r.hs.rootCt = zeroCt
  nodeCt : r.hs.nodeCt = zeroCt

theorem confined_update {i : Fin sessionMaxNodes} (h : ∀ j, (r.sessions j).Confined)
    (hs : s.Confined) (j : Fin sessionMaxNodes) :
    (Function.update r.sessions i s j).Confined := by
  by_cases hj : j = i
  · subst hj
    simpa using hs
  · simpa [Function.update_of_ne hj] using h j

theorem started_confined {hs : HsStatics} (hst : Started hs f f') (hk : f.s.Keyless) :
    f'.s.Confined := by
  apply Session.Keyless.confined
  cases hst with
  | refused hs =>
    rcases hs with hs | hs
    · exact hk.of_core hs rfl rfl
    · exact hk.of_core hs rfl rfl
  | failed hs _ | sent hs _ => exact hk.of_core hs rfl rfl

/-- Acting on a ciphertext leaves keys only in an established session. -/
theorem ctComplete_clean (hdec : P.MasksFailure) {msgId : UInt8} {slots : Slots}
    (hc : CtComplete P msgId ctx slots f f') (hk : f.s.Keyless) (hroot : f.hs.rootCt = zeroCt) :
    f'.s.Confined ∧ f'.hs.rootCt = zeroCt ∧ f'.hs.nodeCt = f.hs.nodeCt := by
  cases hc with
  | rejected hs hct =>
    refine ⟨(hk.of_core hs rfl rfl).confined, ?_, rfl⟩
    rcases hct with hct | hct
    · exact hct.trans hroot
    · exact hct
  | @failed s ss _ hd hs =>
    have hss : ss = Buffer.zero _ := by
      simp only [Platform.cryptoWorkerDecapsulate, Prod.mk.injEq, beq_eq_false_iff_ne] at hd
      exact hd.2 ▸ hdec _ _ hd.1
    refine ⟨Session.Keyless.confined ?_, rfl, rfl⟩
    exact ⟨(congrArg SessionCore.ss hs).trans hss, (congrArg SessionCore.aesKey hs).trans hk.2⟩
  | established _ _ _ hs _ =>
    obtain ⟨n, hn⟩ := hs
    exact ⟨Session.confined_of_state (Or.inl (congrArg SessionCore.state hn)), rfl, rfl⟩

theorem handled_clean (hdec : P.MasksFailure) (hh : Handled P me rnd h payload f f')
    (hrole : f.s.role = .root) (hc : f.s.Confined) (hroot : f.hs.rootCt = zeroCt) :
    f'.s.Confined ∧ f'.hs.rootCt = zeroCt ∧ f'.hs.nodeCt = f.hs.nodeCt := by
  cases hh with
  | incomplete hi =>
    have hconf := hi.confined hc
    cases hi <;> exact ⟨hconf, hroot, rfl⟩
  | confirmed _ _ _ hs _ _ => exact ⟨hc.of_skips hs, hroot, rfl⟩
  | ct _ hw _ _ hct => exact ctComplete_clean hdec hct (hc (by simp [hw])) hroot
  | pk hr _ _ _ _ | ack hr _ _ _ _ _ _ => cases hrole.symm.trans hr

theorem initKeypair_buffers (P : Platform) (rnd : Entropy) (hs : HsStatics) :
    (hs.hsFsmRootInitKeypair P rnd).2.rootCt = hs.rootCt ∧
      (hs.hsFsmRootInitKeypair P rnd).2.nodeCt = hs.nodeCt := by
  unfold HsStatics.hsFsmRootInitKeypair
  split <;> exact ⟨rfl, rfl⟩

theorem clean_act (hdec : P.MasksFailure) (hsound : Sound r) (hc : Clean r)
    (ha : Act P rnd data r r') : Clean r' := by
  cases ha with
  | touch hal =>
    refine ⟨fun i => ?_, hal.hs ▸ hc.rootCt, hal.hs ▸ hc.nodeCt⟩
    exact (hc.sessions i).of_core (hal.cores i) rfl rfl rfl
  | create _ _ _ =>
    exact ⟨confined_update hc.sessions (Session.confined_fresh (Session.core_sessionInit ..)),
      hc.rootCt, hc.nodeCt⟩
  | @reset i _ _ =>
    exact ⟨confined_update (r := { r with tx := _ }) hc.sessions
      (Session.confined_fresh (r.sessions i).core_sessionReset), hc.rootCt, hc.nodeCt⟩
  | @start i slots f _ hidle _ hst =>
    have hk : (r.sessions i).Keyless := hc.sessions i (Or.inl hidle)
    have hbuf := initKeypair_buffers P rnd (r.hs.setSlots slots)
    refine ⟨confined_update hc.sessions (started_confined hst hk), ?_, ?_⟩
    · rw [putFsm_hs, hst.statics]
      exact hbuf.1.trans hc.rootCt
    · rw [putFsm_hs, hst.statics]
      exact hbuf.2.trans hc.nodeCt
  | @ctStart i _ _ _ hw hs =>
    have hk : (r.sessions i).Keyless := hc.sessions i (Or.inr (Or.inr (Or.inl hw)))
    exact ⟨confined_update (r := { r with tx := _ }) hc.sessions (hk.of_core hs rfl rfl).confined,
      hc.rootCt, hc.nodeCt⟩
  | collect _ => exact ⟨hc.sessions, hc.rootCt, hc.nodeCt⟩
  | @fragment i _ _ _ _ _ hu _ hh =>
    obtain ⟨hconf, hroot, hnode⟩ := handled_clean hdec hh (hsound.sessions i hu).1
      (hc.sessions i) hc.rootCt
    exact ⟨confined_update hc.sessions hconf, hroot, hnode.trans hc.nodeCt⟩
  | @retry i f hu hr =>
    obtain ⟨hrole, hcoh⟩ := hsound.sessions i hu
    rcases hr.secrets with ⟨hw, -, hss, hkey, hroot, hnode⟩ | ⟨hstate, hss, hkey, hroot, hnode⟩
    · have hwait : (r.sessions i).state = .waitCt := by
        rcases hcoh.isWaiting hw with ⟨-, hs, -⟩ | ⟨hr, -⟩ | ⟨hr, -⟩
        · exact hs
        · cases hrole.symm.trans hr
        · cases hrole.symm.trans hr
      have hk : (r.sessions i).Keyless := hc.sessions i (Or.inr (Or.inr (Or.inl hwait)))
      refine ⟨confined_update hc.sessions ?_, hroot.trans hc.rootCt, ?_⟩
      · exact Session.Keyless.confined ⟨hss.trans hk.1, hkey.trans hk.2⟩
      · rw [putFsm_hs, hnode, if_neg (by simp [hrole])]
        exact hc.nodeCt
    · exact ⟨confined_update hc.sessions ((hc.sessions i).of_core rfl hstate hss hkey),
        hroot.trans hc.rootCt, hnode.trans hc.nodeCt⟩
  | transmit => exact ⟨hc.sessions, hc.rootCt, hc.nodeCt⟩

theorem clean_acts (hdec : P.MasksFailure) (hsound : Sound r) (hc : Clean r)
    (ha : Acts P rnd data r r') : Clean r' := by
  induction ha with
  | refl => exact hc
  | tail hacts hlast ih => exact clean_act hdec (sound_acts hsound hacts) ih hlast

theorem clean_boot (P : Platform) (rnd : Entropy) : Clean (boot P rnd) := by
  have hbuf := initKeypair_buffers P rnd HsStatics.zero
  unfold boot
  dsimp only
  split
  · exact ⟨fun _ => Session.Keyless.confined ⟨rfl, rfl⟩, hbuf.1, hbuf.2⟩
  · exact ⟨fun _ => Session.Keyless.confined ⟨rfl, rfl⟩, hbuf.1, hbuf.2⟩

theorem Reaches.clean (hdec : P.MasksFailure) (h : Reaches P past r) : Clean r := by
  apply h.invariant (I := fun _ r => Clean r)
  · rintro r ⟨rnd, rfl⟩
    exact clean_boot P rnd
  · rintro past r e r' hr hc rfl
    obtain ⟨rnd, ha⟩ := handle_acts (P := P) (Reaches.sound hr).rooted e
    exact clean_acts hdec (Reaches.sound hr) hc ha

end Root

end PqcContiki
