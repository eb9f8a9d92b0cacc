import PqcContiki.DeviceScripts
import PqcContiki.Library.Runs

/-! The session state machine of the root after every event. -/
namespace PqcContiki

open TxQueue Relation Runs

variable {P : Platform} {me : SessionRef} {rnd : Entropy} {data : Option Bytes}
  {h : FragmentHeader} {payload : Bytes} {f f' : Fsm} {s s' : Session}

theorem Skips.coherent (hs : Skips s s') (hc : s.core.Coherent) : s'.core.Coherent := by
  obtain ⟨n, hn⟩ := hs
  rw [hn]
  exact hc.skipTo n

theorem Handled.coherent (hh : Handled P me rnd h payload f f') (hc : f.s.core.Coherent) :
    f'.s.core.Coherent := by
  cases hh with
  | incomplete hi =>
    cases hi with
    | quiet hs _ | stored hs _ _ _ _ _ => exact hs.coherent hc
    | refused _ _ => exact hc
    | resent hs _ _ => exact hs ▸ hc
  | confirmed _ _ _ hs _ _ => exact hs.coherent hc
  | ct _ _ _ _ hct =>
    cases hct with
    | rejected hs _ | failed _ _ hs => exact hs ▸ SessionCore.coherent_fail _
    | established _ _ _ hs _ =>
      obtain ⟨n, hn⟩ := hs
      exact hn ▸ (SessionCore.coherent_establish _).skipTo n
  | pk hrole hstate _ _ hpk =>
    have hest : f.s.core.established = false :=
      hc.not_established (by simp [hstate])
    cases hpk with
    | rejected _ hs | failed _ _ hs _ => exact hs ▸ SessionCore.coherent_fail _
    | sent _ _ hs _ =>
      rw [hs]
      apply SessionCore.coherent_await
      · exact Or.inr (Or.inr ⟨hrole, rfl, rfl⟩)
      · exact hest
      · exact Nat.zero_le _
  | ack _ _ _ _ _ _ hs => exact hs ▸ SessionCore.coherent_establish _

/-- A session that fits together never reaches the last branch of `hs_fsm_retry`. -/
theorem Retried.coherent (hr : Retried f f') (hc : f.s.core.Coherent) :
    f'.s.core.Coherent ∧ f'.obs = f.obs := by
  cases hr with
  | waited hs _ => exact ⟨hs ▸ hc, rfl⟩
  | failed _ hs _ _ _ => exact ⟨hs ▸ SessionCore.coherent_fail _, rfl⟩
  | asked hd hs _ _ _ _ => exact ⟨hs ▸ (hc.skipTo _).retried hd.1 hd.2, rfl⟩
  | resent hd hs _ _ =>
    rcases hs with hs | hs
    · exact ⟨hs ▸ hc, rfl⟩
    · exact ⟨hs ▸ hc.retried hd.1 hd.2, rfl⟩
  | stray hw _ hn => exact absurd (hc.isWaiting hw) hn

theorem Started.coherent {hs : HsStatics} (hst : Started hs f f') (hc : f.s.core.Coherent)
    (hrole : f.s.role = .root) (hidle : f.s.state = .idle) : f'.s.core.Coherent := by
  have hest : f.s.core.established = false :=
    hc.not_established (by simp [hidle])
  cases hst with
  | refused hs =>
    rcases hs with hs | hs
    · exact hs ▸ hc
    · exact hs ▸ SessionCore.coherent_fail _
  | failed hs _ => exact hs ▸ SessionCore.coherent_fail _
  | sent hs _ =>
    rw [hs]
    apply SessionCore.coherent_await
    · exact Or.inl ⟨hrole, rfl, Or.inl rfl⟩
    · exact hest
    · exact hc.budget

theorem Started.obs {hs : HsStatics} (hst : Started hs f f') : f'.obs = f.obs := by
  cases hst <;> rfl

/-- The log has no trace of the last branch of `hs_fsm_retry`. -/
def NoStray (obs : List Observation) : Prop := ∀ nodeId, .retryWithoutPending nodeId ∉ obs

theorem AckSent.noStray {nodeId : UInt16} {msgId confirmedMsgId : UInt8} {ss : SharedSecret}
    {tx tx' : TxQueue} {obs obs' : List Observation}
    (ha : AckSent nodeId msgId confirmedMsgId ss tx tx' obs obs') (hn : NoStray obs) :
    NoStray obs' := by
  rcases ha with ⟨-, rfl⟩ | ⟨-, rfl⟩
  · exact hn
  · intro id hmem
    simp only [List.mem_cons, reduceCtorEq, false_or] at hmem
    exact hn id hmem

theorem Handled.noStray (hh : Handled P me rnd h payload f f') (hn : NoStray f.obs) :
    NoStray f'.obs := by
  cases hh with
  | incomplete hi => cases hi <;> exact hn
  | confirmed _ _ _ _ _ ha => exact ha.noStray hn
  | ct _ _ _ _ hct =>
    cases hct with
    | rejected _ _ => exact hn
    | failed _ _ _ => simpa [NoStray] using hn
    | established _ _ _ _ ha => exact ha.noStray (by simpa [NoStray] using hn)
  | pk _ _ _ _ hpk =>
    cases hpk with
    | rejected _ _ => exact hn
    | failed _ _ _ _ | sent _ _ _ _ => simpa [NoStray] using hn
  | ack _ _ _ _ _ _ _ => exact hn

namespace Root

variable {r r' : Root} {i : Fin sessionMaxNodes}

/-- A session of the root that fits together. -/
def Fits (s : Session) : Prop := s.used = true → s.role = .root ∧ s.core.Coherent

structure Sound (r : Root) : Prop where
  sessions : ∀ i, Fits (r.sessions i)
  log : NoStray r.obs

theorem Sound.rooted (h : Sound r) : Rooted r := fun i hi => (h.sessions i hi).1

theorem fits_of_core (hc : s'.core = s.core) (h : Fits s) : Fits s' := by
  intro hu
  have hused : s.used = true := (congrArg SessionCore.used hc).symm.trans hu
  exact ⟨(congrArg SessionCore.role hc).trans (h hused).1, hc ▸ (h hused).2⟩

theorem fits_of_identity (hid : s'.core.identity = s.core.identity) (hu : s.used = true)
    (h : Fits s) (hc : s.core.Coherent → s'.core.Coherent) : Fits s' := by
  intro _
  have hrole : s'.role = s.role := congrArg (fun x => x.2.2) hid
  exact ⟨hrole.trans (h hu).1, hc (h hu).2⟩

theorem fits_update (h : ∀ j, Fits (r.sessions j)) (hs : Fits s) (j : Fin sessionMaxNodes) :
    Fits (Function.update r.sessions i s j) := by
  by_cases hj : j = i
  · subst hj
    simpa using hs
  · simpa [Function.update_of_ne hj] using h j

theorem fits_fresh {s : Session} {nodeId : UInt16} (h : s.core = .fresh .root nodeId) : Fits s := by
  intro _
  exact ⟨congrArg SessionCore.role h, h ▸ SessionCore.coherent_fresh _ _⟩

theorem sound_act (h : Sound r) (ha : Act P rnd data r r') : Sound r' := by
  cases ha with
  | touch hal => exact ⟨fun i => fits_of_core (hal.cores i) (h.sessions i), hal.obs ▸ h.log⟩
  | create _ _ _ => exact ⟨fits_update h.sessions (fits_fresh (Session.core_sessionInit ..)), h.log⟩
  | reset hu _ =>
    have hfresh := (r.sessions _).core_sessionReset.trans
      (congrArg (SessionCore.fresh · _) (h.sessions _ hu).1)
    exact ⟨fits_update (r := { r with tx := _ }) h.sessions (fits_fresh hfresh), h.log⟩
  | start hu hidle _ hst =>
    have hf := h.sessions _ hu
    refine ⟨fits_update h.sessions ?_, ?_⟩
    · exact fits_of_identity hst.identity hu (h.sessions _)
        fun hc => hst.coherent hc hf.1 hidle
    · simpa [hst.obs] using h.log
  | ctStart hu hw hs =>
    refine ⟨fits_update (r := { r with tx := _ }) h.sessions ?_, h.log⟩
    have hf := h.sessions _ hu
    refine fits_of_identity (by rw [hs]; rfl) hu (h.sessions _) fun hc => ?_
    rw [hs]
    exact SessionCore.coherent_await (Or.inl ⟨hf.1, rfl, Or.inr rfl⟩)
      (hc.not_established (by simp [hw])) hc.budget _
  | collect _ => exact ⟨h.sessions, h.log⟩
  | fragment _ _ hu _ hh =>
    exact ⟨fits_update h.sessions (fits_of_identity hh.identity hu (h.sessions _) hh.coherent),
      hh.noStray h.log⟩
  | retry hu hr =>
    have hc := hr.coherent (h.sessions _ hu).2
    exact ⟨fits_update h.sessions (fits_of_identity hr.identity hu (h.sessions _) fun _ => hc.1),
      by simpa [hc.2] using h.log⟩
  | transmit => exact ⟨h.sessions, h.log⟩

theorem sound_acts (h : Sound r) (ha : Acts P rnd data r r') : Sound r' := by
  induction ha with
  | refl => exact h
  | tail _ hlast ih => exact sound_act ih hlast

theorem sound_boot (P : Platform) (rnd : Entropy) : Sound (boot P rnd) := by
  have hboot : ∀ i, (boot P rnd).sessions i = Session.zero := by
    intro i
    unfold boot
    dsimp only
    split <;> rfl
  have hobs : (boot P rnd).obs = [] := by
    unfold boot
    dsimp only
    split <;> rfl
  refine ⟨?_, ?_⟩
  · intro i hi
    simp [hboot] at hi
  · simp [NoStray, hobs]

theorem sound_handle (h : Sound r) (e : Event) : Sound (r.handle P e) := by
  obtain ⟨rnd, ha⟩ := handle_acts (P := P) h.rooted e
  exact sound_acts h ha

/-- `server_main` on arbitrary packets, clock readings and randomness. -/
abbrev Reaches (P : Platform) : List Root → Root → Prop :=
  Run (fun r => ∃ rnd, r = boot P rnd) (fun r e r' => r' = r.handle P e)

theorem Reaches.sound {past : List Root} (h : Reaches P past r) : Sound r := by
  apply h.invariant (I := fun _ r => Sound r)
  · rintro r ⟨rnd, rfl⟩
    exact sound_boot P rnd
  · rintro past r e r' - hr rfl
    exact sound_handle hr e

theorem reaches_follow (es : List Event) : ∃ past, Reaches .demo past (follow es) :=
  Run.foldl (.start ⟨0, rfl⟩) es fun _ _ _ => rfl

end Root

end PqcContiki
