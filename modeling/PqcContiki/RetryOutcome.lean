import PqcContiki.HandshakeOutcome

/-! What one call of `hs_fsm_retry` or of `hs_fsm_start` can do. -/
namespace PqcContiki

open TxQueue

variable {P : Platform} {me : SessionRef} {clk : Clock} {rnd : Entropy} {dst : UdpSendCtx}
  {f g : Fsm}

/-- A packet of the given type about the given node. -/
def IsKind (msgType : UInt8) (nodeId : UInt16) (p : Bytes) : Prop :=
  byteAt p pqcHdrMsgType = msgType ∧ pqcHeaderGetNodeId p = nodeId

theorem IsFragmentOf.isKind {m : Message} {msgType msgId : UInt8} {nodeId : UInt16} {p : Bytes}
    (h : IsFragmentOf m msgType nodeId msgId p) : IsKind msgType nodeId p := by
  obtain ⟨flags, i, -, rfl⟩ := h
  exact ⟨rfl, pqcHeaderGetNodeId_write⟩

theorem IsNack.isKind {nodeId : UInt16} {p : Bytes} (h : IsNack nodeId p) :
    IsKind pqcMsgNack nodeId p := by
  obtain ⟨m, msgId, h⟩ := h
  exact h.isKind

/-- What a retry sends again: the pending message, or the node's request for the key. -/
def IsRepeated (f : Fsm) (p : Bytes) : Prop :=
  IsPendingFragment f p ∨ (f.s.role = .node ∧ IsKind pqcMsgGetpk f.s.nodeId p)

/-- The budget allows one more retry of what the session waits for. -/
def Due (s : Session) : Prop :=
  s.waitingResponse = true ∧ s.retryCount < sessionMaxRetries

/-- Everything a retry can do. -/
inductive Retried (f : Fsm) : Fsm → Prop
  | waited {s : Session} {slots : Slots} :
      s.core = f.s.core → Collected f.hs.rxSlots slots →
      Retried f ⟨s, f.hs.setSlots slots, f.tx, f.obs⟩
  | failed {s : Session} {slots : Slots} {tx : TxQueue} {ct : Ciphertext} {n : UInt8} :
      f.s.waitingResponse = true → s.core = (f.s.core.skipTo n).fail →
      ct = (if f.s.role = .node then zeroCt else f.hs.nodeCt) →
      Collected f.hs.rxSlots slots → Adds (IsNack f.s.nodeId) f.tx tx →
      Retried f ⟨s, (f.hs.setSlots slots).setNodeCt ct, tx, f.obs⟩
  /-- The root asks for the rest of a ciphertext and keeps what it has of it. -/
  | asked {s : Session} {slots : Slots} {tx : TxQueue} {i : Fin hsRxSlotCount} {slot : RxSlot}
      {n : UInt8} :
      Due f.s → s.core = (f.s.core.skipTo n).retried → Collected f.hs.rxSlots slots →
      (slots i).active = true → Renewed (slots i) slot → Adds (IsNack f.s.nodeId) f.tx tx →
      Retried f ⟨s, f.hs.setSlots (Function.update slots i slot), tx, f.obs⟩
  | resent {s : Session} {slots : Slots} {tx : TxQueue} :
      Due f.s → s.core = f.s.core ∨ s.core = f.s.core.retried →
      Collected f.hs.rxSlots slots → Adds (IsRepeated f) f.tx tx →
      Retried f ⟨s, f.hs.setSlots slots, tx, f.obs⟩
  /-- The last branch: the session waits, but not for anything it could send. -/
  | stray {slots : Slots} :
      f.s.waitingResponse = true → Collected f.hs.rxSlots slots →
      ¬ SessionCore.Awaits f.s.role f.s.state f.s.pendingMsgType →
      Retried f ⟨f.s, f.hs.setSlots slots, f.tx, .retryWithoutPending f.s.nodeId :: f.obs⟩

/-- The root's retry while a ciphertext arrives either asks for the rest or fails. -/
theorem retryCtReceive_cases (hdue : Due f.s) (hrole : f.s.role = .root) :
    Retried f (f.retryCtReceive P me clk dst).2 := by
  have hfail : ∀ s tx (n : UInt8), s.core = f.s.core.skipTo n → Adds (IsNack f.s.nodeId) f.tx tx →
      Retried f ((Fsm.setFailed P (clk 8) ⟨s, f.hs, tx, f.obs⟩).rxSlotRelease me) := by
    intro s tx n hs htx
    rw [Fsm.rxSlotRelease_eq]
    simp only [Fsm.setFailed, Fsm.mapS]
    rw [← (f.hs.setSlots (released me f.hs.rxSlots)).setNodeCt_self]
    exact .failed hdue.1 (n := n) (by simp [hs]) (by simp [hrole]) (collected_released me _) htx
  have hfail₀ := hfail f.s f.tx f.s.nextMsgId rfl .refl
  unfold Fsm.retryCtReceive
  cases hfind : f.hs.rxSlotFind me with
  | none => exact hfail₀
  | some i =>
    dsimp only
    split
    · obtain ⟨s, tx, hnack, ⟨n, hn⟩, hadds⟩ := sendNack_cases dst i f
      simp only [hnack]
      split
      · have htouch : f.hs.rxSlotTouch (clk 4) me =
            f.hs.setSlot i { f.hs.rxSlots i with startedAt := clk 4 } := by
          simp only [HsStatics.rxSlotTouch, hfind]
        obtain ⟨s', slot, hnote, hcore, hnew⟩ := rxSlotNoteNack_cases P me (clk 5) i
          (f.sendNack dst i).1 (Fsm.mk s (f.hs.rxSlotTouch (clk 4) me) tx f.obs)
        simp only [Fsm.mapHs, hnote]
        rw [htouch] at hnew ⊢
        have hset : (f.hs.setSlot i { f.hs.rxSlots i with startedAt := clk 4 }).setSlot i slot =
            f.hs.setSlots (Function.update f.hs.rxSlots i slot) := by
          simp [HsStatics.setSlot, HsStatics.setSlots]
        simp only [Fsm.mapS, hset]
        have hnew' : Renewed (f.hs.rxSlots i) slot := by
          simp only [HsStatics.setSlot_rxSlots, Function.update_self] at hnew
          exact ⟨hnew.active, hnew.owner, hnew.ctx⟩
        have hactive : (f.hs.rxSlots i).active = true := by
          have howns := (rxSlotFind_some hfind).1
          simp only [HsStatics.owns, Bool.and_eq_true] at howns
          exact howns.1
        refine .asked hdue (n := n) ?_ (Collected.refl _) hactive hnew' hadds
        simp [Session.hsMarkRxRetry, hcore, hn]
      · exact hfail s tx n hn hadds
    · exact hfail₀

theorem Retried.rebase {slots : Slots} {f' : Fsm} (hcol : Collected f.hs.rxSlots slots)
    (h : Retried ⟨f.s, f.hs.setSlots slots, f.tx, f.obs⟩ f') : Retried f f' := by
  cases h with
  | waited hs hc => exact .waited hs (hcol.trans hc)
  | failed hw hs hct hc ha => exact .failed hw hs hct (hcol.trans hc) ha
  | asked hd hs hc hact hnew ha => exact .asked hd hs (hcol.trans hc) hact hnew ha
  | resent hd hs hc ha => exact .resent hd hs (hcol.trans hc) ha
  | stray hw hc hn => exact .stray hw (hcol.trans hc) hn

theorem retryTransfer_cases (hdue : Due f.s) (m : Message) {msgType : UInt8}
    (hm : ∀ p, IsFragmentOf m msgType f.s.nodeId f.s.pendingMsgId p → IsRepeated f p) :
    Retried f (f.retryTransfer P clk dst m.data msgType).2 := by
  unfold Fsm.retryTransfer
  split
  · exact .waited (by simp) (Collected.refl _)
  · obtain ⟨tx, htx, hadds⟩ := fragmentTx_cases dst m msgType f.s.pendingMsgId pqcFlagRetry f
    simp only [htx]
    split
    · exact .resent hdue (Or.inr (by simp [Session.hsMarkRetryForTransfer])) (Collected.refl _)
        (hadds.mono hm)
    · exact .resent hdue (Or.inl rfl) (Collected.refl _) (hadds.mono hm)

theorem sendGetpkRetry_cases (dst : UdpSendCtx) (hrole : f.s.role = .node) :
    ∃ tx, (f.sendGetpkRetry dst).2 = f.setTx tx ∧ Adds (IsRepeated f) f.tx tx := by
  refine ⟨_, rfl, queueSend_adds dst ?_ f.tx⟩
  have hid : pqcHeaderGetNodeId (pqcHeaderWrite pqcMsgGetpk f.s.nodeId f.s.pendingMsgId 0 1 0
      pqcFlagRetry ++ []) = f.s.nodeId := pqcHeaderGetNodeId_write
  exact Or.inr ⟨hrole, rfl, hid⟩

theorem retryPending_cases (hdue : Due f.s) : Retried f (f.retryPending P me clk dst).2 := by
  unfold Fsm.retryPending
  simp only [Session.sessionIsNode, Session.sessionIsRoot, beq_iff_eq, Fsm.rxSlotRelease_eq]
  split
  · rename_i hct
    exact retryCtReceive_cases hdue hct.1
  · rename_i hct
    have hcol := collected_released me f.hs.rxSlots
    apply Retried.rebase hcol
    generalize hg : Fsm.mk f.s (f.hs.setSlots (released me f.hs.rxSlots)) f.tx f.obs = g
    have hs : g.s = f.s := by rw [← hg]
    have hhs : g.hs = f.hs.setSlots (released me f.hs.rxSlots) := by rw [← hg]
    simp only [← hs, ← hhs] at hdue hct ⊢
    split
    · rename_i hget
      obtain ⟨tx, htx, hadds⟩ := sendGetpkRetry_cases dst hget.1
      simp only [htx]
      split
      · exact .resent hdue (Or.inr (by simp [Session.hsMarkRetryForTransfer])) (Collected.refl _)
          hadds
      · exact .resent hdue (Or.inl rfl) (Collected.refl _) hadds
    · rename_i hget
      split
      · rename_i hpk
        split
        · have hfail : (g.s.sessionSetFailed P (clk 3)).core =
              (g.s.core.skipTo g.s.nextMsgId).fail := Session.core_sessionSetFailed ..
          simp only [Fsm.setFailed, Fsm.mapS]
          rw [← g.hs.setNodeCt_self]
          exact .failed hdue.1 hfail (by simp [hpk.1]) (Collected.refl _) .refl
        · exact retryTransfer_cases hdue (pkMessage g.hs.rootPk)
            fun p hp => Or.inl (Or.inl ⟨hpk.1, hpk.2, hp⟩)
      · rename_i hpk
        split
        · rename_i hnode
          exact retryTransfer_cases hdue (ctMessage g.hs.nodeCt)
            fun p hp => Or.inl (Or.inr ⟨hnode.1, hnode.2, hp⟩)
        · rename_i hnode
          refine .stray hdue.1 (Collected.refl _) ?_
          rintro (⟨hr, -, ht | ht⟩ | ⟨hr, -, ht⟩ | ⟨hr, -, ht⟩)
          · exact hpk ⟨hr, ht⟩
          · exact hct ⟨hr, ht⟩
          · exact hget ⟨hr, ht⟩
          · exact hnode ⟨hr, ht⟩

theorem hsFsmRetry_cases (P : Platform) (me : SessionRef) (clk : Clock) (dst : UdpSendCtx)
    (f : Fsm) : Retried f (f.hsFsmRetry P me clk dst).2 := by
  obtain ⟨slots, hgc, hcol⟩ := rxSlotsGc_eq P (clk 0) f.hs
  simp only [Fsm.hsFsmRetry, Fsm.rxSlotsGc, Fsm.mapHs, hgc]
  apply Retried.rebase hcol
  split
  · exact .waited rfl (Collected.refl _)
  · rename_i hdue
    have hwait : f.s.waitingResponse = true := by
      simp only [Session.sessionRetryDue, Bool.not_eq_true', Bool.not_eq_false,
        Bool.and_eq_true] at hdue
      exact hdue.1
    split
    · exact .waited (by simp) (Collected.refl _)
    · split
      · have hfail : ∀ ct, ct = (if f.s.role = .node then zeroCt else f.hs.nodeCt) →
            Retried ⟨f.s, f.hs.setSlots slots, f.tx, f.obs⟩
              ⟨f.s.sessionSetFailed P (clk 3), (f.hs.setSlots (released me slots)).setNodeCt ct,
                f.tx, f.obs⟩ := by
          intro ct hct
          refine .failed hwait (n := f.s.nextMsgId) ?_ hct (collected_released me _) .refl
          rw [Session.core_sessionSetFailed]
          rfl
        simp only [Fsm.rxSlotRelease_eq, Fsm.setFailed, Fsm.mapS, Session.sessionIsNode,
          Session.sessionSetFailed_role, beq_iff_eq]
        split
        · exact hfail zeroCt (by simp [*])
        · exact hfail f.hs.nodeCt (by simp [*])
      · rename_i hcan
        exact retryPending_cases ⟨hwait, by simpa [Session.sessionCanRetry] using hcan⟩

theorem Retried.identity {f' : Fsm} (h : Retried f f') :
    f'.s.core.identity = f.s.core.identity := by
  cases h with
  | waited hs _ | failed _ hs _ _ _ | asked _ hs _ _ _ _ => simp [hs]
  | resent _ hs _ _ => rcases hs with hs | hs <;> simp [hs]
  | stray _ _ _ => rfl

/-- Everything `hs_fsm_start` can do at the root. `hs` are the statics once there is a key pair,
or once there was no way to make one. -/
inductive Started (hs : HsStatics) (f : Fsm) : Fsm → Prop
  | refused {s : Session} :
      s.core = f.s.core ∨ s.core = f.s.core.fail → Started hs f ⟨s, hs, f.tx, f.obs⟩
  | failed {s : Session} {tx : TxQueue} {n : UInt8} :
      s.core = (f.s.core.skipTo n).fail →
      Adds (IsFragmentOf (pkMessage hs.rootPk) pqcMsgPk f.s.nodeId f.s.nextMsgId) f.tx tx →
      Started hs f ⟨s, hs, tx, f.obs⟩
  | sent {s : Session} {tx : TxQueue} :
      s.core = (f.s.core.skipTo (f.s.nextMsgId + 1)).await .waitCt pqcMsgPk f.s.nextMsgId →
      Adds (IsFragmentOf (pkMessage hs.rootPk) pqcMsgPk f.s.nodeId f.s.nextMsgId) f.tx tx →
      Started hs f ⟨s, hs, tx, f.obs⟩

theorem Started.identity {hs : HsStatics} {f' : Fsm} (h : Started hs f f') :
    f'.s.core.identity = f.s.core.identity := by
  cases h with
  | refused hs => rcases hs with hs | hs <;> simp [hs]
  | failed hs _ | sent hs _ => simp [hs]

theorem sendPk_cases {s : Session} {hs : HsStatics} (hcore : s.core = f.s.core) :
    Started hs f (Fsm.sendPk P clk dst ⟨s, hs, f.tx, f.obs⟩).2 := by
  have hid : s.nodeId = f.s.nodeId := congrArg SessionCore.nodeId hcore
  have hnext : s.nextMsgId = f.s.nextMsgId := congrArg SessionCore.nextMsgId hcore
  unfold Fsm.sendPk
  dsimp only
  set g := Fsm.mapS _ _ with hg
  have hgcore : g.s.core = (f.s.core.skipTo (f.s.nextMsgId + 1)).await .waitCt pqcMsgPk
      f.s.nextMsgId := by
    simp [hg, hcore, hnext]
  obtain ⟨tx, htx, hadds⟩ := fragmentTx_cases dst (pkMessage hs.rootPk) pqcMsgPk s.nextMsgId
    pqcFlagNone g
  change (g.fragmentTx dst hs.rootPk.toList _ _ _).2 = _ at htx
  have hgid : g.s.nodeId = f.s.nodeId := congrArg SessionCore.nodeId hgcore
  rw [hgid, hnext] at hadds
  rw [htx]
  split
  · refine .failed (n := f.s.nextMsgId + 1) ?_ hadds
    simp [Fsm.setTx, hgcore]
  · refine .sent ?_ hadds
    simp [Fsm.setTx, hgcore]

/-- `hs_fsm_start` at the root, up to the point where it sends the key: without a key pair it
fails, without room it leaves the session alone. -/
theorem hsFsmStart_root (P : Platform) (clk : Clock) (rnd : Entropy) (dst : UdpSendCtx)
    (hrole : f.s.role = .root) :
    ∃ slots, Collected f.hs.rxSlots slots ∧ f.hs.rxSlotsGc P (clk 0) = f.hs.setSlots slots ∧
      let keypair := (f.hs.setSlots slots).hsFsmRootInitKeypair P rnd
      ((keypair.1 = false ∧ ∃ s, s.core = f.s.core.fail ∧
          f.hsFsmStart P clk rnd dst = (false, ⟨s, keypair.2, f.tx, f.obs⟩)) ∨
        (keypair.1 = true ∧ ∃ s, s.core = f.s.core ∧
          f.hsFsmStart P clk rnd dst =
            if f.txHasRoomFor cwHqcPublicKeyLen then
              Fsm.sendPk P clk dst ⟨s, keypair.2, f.tx, f.obs⟩
            else (false, ⟨s, keypair.2, f.tx, f.obs⟩))) := by
  obtain ⟨slots, hgc, hcol⟩ := rxSlotsGc_eq P (clk 0) f.hs
  refine ⟨slots, hcol, hgc, ?_⟩
  simp only [Fsm.hsFsmStart, Fsm.rxSlotsGc, Fsm.mapHs, hgc, hrole, Fsm.mapS]
  rcases hk : (f.hs.setSlots slots).hsFsmRootInitKeypair P rnd with ⟨ok, hs⟩
  cases ok
  · exact Or.inl ⟨rfl, _, by simp, rfl⟩
  · refine Or.inr ⟨rfl, ?_⟩
    generalize ite ((f.hs.setSlots slots).rootHasKeypair = true) 0 (clk 2) = keypairStartedAt
    generalize hs : ite (keypairStartedAt ≠ 0) _ _ = s
    have hcore : s.core = f.s.core := by
      rw [← hs]
      split <;> rfl
    refine ⟨s, hcore, ?_⟩
    have hroom : ∀ s hs, Fsm.txHasRoomFor cwHqcPublicKeyLen ⟨s, hs, f.tx, f.obs⟩ =
        f.txHasRoomFor cwHqcPublicKeyLen := fun _ _ => rfl
    rw [hroom]
    cases f.txHasRoomFor cwHqcPublicKeyLen <;> rfl

theorem hsFsmStart_cases (P : Platform) (clk : Clock) (rnd : Entropy) (dst : UdpSendCtx)
    (hrole : f.s.role = .root) :
    ∃ slots, Collected f.hs.rxSlots slots ∧
      Started ((f.hs.setSlots slots).hsFsmRootInitKeypair P rnd).2 f
        (f.hsFsmStart P clk rnd dst).2 := by
  obtain ⟨slots, hcol, -, ⟨-, s, hcore, hres⟩ | ⟨-, s, hcore, hres⟩⟩ :=
    hsFsmStart_root P clk rnd dst hrole
  · rw [hres]
    exact ⟨slots, hcol, .refused (Or.inr hcore)⟩
  · rw [hres]
    refine ⟨slots, hcol, ?_⟩
    split
    · exact sendPk_cases hcore
    · exact .refused (Or.inl hcore)

theorem Started.statics {hs : HsStatics} {f' : Fsm} (hst : Started hs f f') : f'.hs = hs := by
  cases hst <;> rfl

end PqcContiki
