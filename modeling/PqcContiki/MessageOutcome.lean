import PqcContiki.HandshakeEffects

/-! What a complete message can do to a session, by its type. -/
namespace PqcContiki

open TxQueue

variable {P : Platform} {me : SessionRef} {clk : Clock} {rnd : Entropy} {dst : UdpSendCtx}
  {h : FragmentHeader} {payload : Bytes} {ctx : FragmentRxCtx} {f g : Fsm}

/-- The fragment went into place `i`, whose context is now `ctx`. -/
def Fills (me : SessionRef) (h : FragmentHeader) (payload : Bytes) (slots : Slots)
    (i : Fin hsRxSlotCount) (ctx : FragmentRxCtx) : Prop :=
  ∃ slot, Acquired me slots i slot ∧
    fragmentRxAdd slot.ctx h.msgType h.nodeId h.msgId h.fragIdx h.totalFrags payload = (true, ctx)

/-- Nothing changed but the next message id and what is counted. -/
def Skips (s s' : Session) : Prop := ∃ n, s'.core = s.core.skipTo n

theorem Skips.refl (s : Session) : Skips s s := ⟨_, rfl⟩

/-- What a fragment can do without completing a message. -/
inductive Incomplete (me : SessionRef) (h : FragmentHeader) (payload : Bytes) (f : Fsm) : Fsm → Prop
  /-- The fragment was dropped, or it completed a message that nobody waits for. -/
  | quiet {s : Session} {slots : Slots} :
      Skips f.s s → Collected f.hs.rxSlots slots →
      Incomplete me h payload f ⟨s, f.hs.setSlots slots, f.tx, f.obs⟩
  /-- A slot was found, but its context refused the fragment. -/
  | refused {slots : Slots} {i : Fin hsRxSlotCount} {slot : RxSlot} :
      Collected f.hs.rxSlots slots → Acquired me slots i slot →
      Incomplete me h payload f ⟨f.s, f.hs.setSlots (Function.update slots i slot), f.tx, f.obs⟩
  /-- The fragment was kept and a NACK may have been sent. -/
  | stored {s : Session} {slots : Slots} {tx : TxQueue} {i : Fin hsRxSlotCount} {slot : RxSlot} :
      Skips f.s s → Collected f.hs.rxSlots slots → Fills me h payload slots i slot.ctx →
      fragmentRxComplete slot.ctx = false → HsStatics.owns me slot = true →
      Adds (IsNack f.s.nodeId) f.tx tx →
      Incomplete me h payload f ⟨s, f.hs.setSlots (Function.update slots i slot), tx, f.obs⟩
  /-- A NACK was answered. -/
  | resent {s : Session} {slots : Slots} {tx : TxQueue} :
      s.core = f.s.core → Collected f.hs.rxSlots slots → Adds (IsPendingFragment f) f.tx tx →
      Incomplete me h payload f ⟨s, f.hs.setSlots slots, tx, f.obs⟩

theorem rxSlotNoteNack_cases (P : Platform) (me : SessionRef) (now : ℕ) (i : Fin hsRxSlotCount)
    (missingCount : ℕ) (f : Fsm) :
    ∃ s slot, f.rxSlotNoteNack P now me i missingCount = ⟨s, f.hs.setSlot i slot, f.tx, f.obs⟩ ∧
      s.core = f.s.core ∧ Renewed (f.hs.rxSlots i) slot := by
  unfold Fsm.rxSlotNoteNack
  dsimp only
  split
  · exact ⟨f.s, f.hs.rxSlots i, by simp [HsStatics.setSlot, Function.update_eq_self], rfl,
      Renewed.refl _⟩
  · exact ⟨_, _, rfl, rfl, rfl, rfl, rfl⟩

theorem requestMissing_cases (P : Platform) (me : SessionRef) (clk : Clock) (dst : UdpSendCtx)
    (i : Fin hsRxSlotCount) (fragIdx : ℕ) (f : Fsm) :
    ∃ s tx slot, f.requestMissing P me clk dst i fragIdx = ⟨s, f.hs.setSlot i slot, tx, f.obs⟩ ∧
      Skips f.s s ∧ Adds (IsNack f.s.nodeId) f.tx tx ∧ Renewed (f.hs.rxSlots i) slot := by
  unfold Fsm.requestMissing
  split
  · obtain ⟨s, tx, hnack, ⟨n, hn⟩, hadds⟩ := sendNack_cases dst i f
    obtain ⟨s', slot, hnote, hcore, hnew⟩ := rxSlotNoteNack_cases P me (clk 4) i
      (f.sendNack dst i).1 (f.sendNack dst i).2
    simp only [hnack] at hnote hcore hnew
    simp only [hnack, hnote]
    exact ⟨s', tx, slot, rfl, ⟨n, hcore.trans hn⟩, hadds, hnew⟩
  · refine ⟨f.s, f.tx, f.hs.rxSlots i, ?_, Skips.refl _, .refl, Renewed.refl _⟩
    simp [HsStatics.setSlot, Function.update_eq_self]

/-- The root acted on a complete ciphertext `ctx`, in slots it has given back. -/
inductive CtComplete (P : Platform) (msgId : UInt8) (ctx : FragmentRxCtx) (slots : Slots)
    (f : Fsm) : Fsm → Prop
  | rejected {s : Session} {ct : Ciphertext} :
      s.core = f.s.core.fail → ct = f.hs.rootCt ∨ ct = zeroCt →
      CtComplete P msgId ctx slots f ⟨s, (f.hs.setSlots slots).setRootCt ct, f.tx, f.obs⟩
  | failed {s : Session} {ss : SharedSecret} :
      fragmentRxLen ctx = cwHqcCiphertextLen →
      P.cryptoWorkerDecapsulate f.hs.rootSk (rxArray _ ctx) = (false, ss) →
      s.core = (f.s.core.setKeys ss f.s.aesKey).fail →
      CtComplete P msgId ctx slots f ⟨s, (f.hs.setSlots slots).setRootCt zeroCt, f.tx,
        .decapsulate f.s.nodeId (rxArray _ ctx) false ss :: f.obs⟩
  | established {s : Session} {ss : SharedSecret} {tx : TxQueue} {obs : List Observation} :
      fragmentRxLen ctx = cwHqcCiphertextLen → f.hs.rootHasKeypair = true →
      P.cryptoWorkerDecapsulate f.hs.rootSk (rxArray _ ctx) = (true, ss) →
      (∃ n, s.core = (f.s.core.setKeys ss (P.cryptoWorkerDeriveAesKey ss)).establish.skipTo n) →
      AckSent f.s.nodeId f.s.nextMsgId msgId ss f.tx tx
        (.decapsulate f.s.nodeId (rxArray _ ctx) true ss :: f.obs) obs →
      CtComplete P msgId ctx slots f ⟨s, (f.hs.setSlots slots).setRootCt zeroCt, tx, obs⟩

theorem decapsulateCt_cases {s : Session} {slots : Slots} (hcore : s.core = f.s.core)
    (hkey : f.hs.rootHasKeypair = true) (msgId : UInt8)
    (hlen : fragmentRxLen ctx = cwHqcCiphertextLen) :
    CtComplete P msgId ctx slots f (Fsm.decapsulateCt P clk dst msgId
      ⟨s, (f.hs.setSlots slots).setRootCt (rxArray _ ctx), f.tx, f.obs⟩).2 := by
  have hid : s.nodeId = f.s.nodeId := congrArg SessionCore.nodeId hcore
  have hnext : s.nextMsgId = f.s.nextMsgId := congrArg SessionCore.nextMsgId hcore
  have haes : s.aesKey = f.s.aesKey := congrArg SessionCore.aesKey hcore
  unfold Fsm.decapsulateCt
  simp only [HsStatics.setRootCt_rootSk, HsStatics.setSlots_rootSk, HsStatics.setRootCt_rootCt]
  rcases hd : P.cryptoWorkerDecapsulate f.hs.rootSk (rxArray _ ctx) with ⟨ok, ss⟩
  cases ok
  · simp only [Bool.not_false, if_true, Fsm.setFailed, Fsm.zeroRootCt, Fsm.mapS, Fsm.mapHs,
      Fsm.observe, HsStatics.setRootCt_setRootCt, hid]
    exact .failed hlen hd (by simp [hcore, haes])
  · simp only [Bool.not_true, Bool.false_eq_true, if_false, Fsm.zeroRootCt, Fsm.mapS, Fsm.mapHs,
      Fsm.observe, HsStatics.setRootCt_setRootCt, hid]
    generalize hg : (Fsm.mk _ _ _ _) = g
    obtain ⟨s', tx, obs, hack, ⟨n, hn⟩, hsent⟩ := sendAck_cases dst msgId g
    rw [hack]
    subst hg
    refine .established hlen hkey hd ⟨n, hn.trans ?_⟩ ?_
    · simp [hcore]
    · simpa [hid, hnext] using hsent

/-- The start of the handler changes no more than metrics and slots. -/
theorem CtComplete.rebase {msgId : UInt8} {slots slots' : Slots} {s : Session} {f' : Fsm}
    (hs : s.core = f.s.core)
    (h : CtComplete P msgId ctx slots ⟨s, f.hs.setSlots slots', f.tx, f.obs⟩ f') :
    CtComplete P msgId ctx slots f f' := by
  have hid : s.nodeId = f.s.nodeId := congrArg SessionCore.nodeId hs
  have hnext : s.nextMsgId = f.s.nextMsgId := congrArg SessionCore.nextMsgId hs
  have hkey : s.aesKey = f.s.aesKey := congrArg SessionCore.aesKey hs
  cases h with
  | rejected hc hct =>
    rw [hs] at hc
    exact .rejected hc hct
  | failed hlen hd hc =>
    rw [hs] at hc
    simp only [hkey, hid] at hc ⊢
    exact .failed hlen hd hc
  | established hlen hk hd hc hack =>
    rw [hs] at hc
    simp only [hid, hnext] at hack
    exact .established hlen hk hd hc hack

theorem completeCt_cases (P : Platform) (me : SessionRef) (clk : Clock) (dst : UdpSendCtx)
    (hstate : f.s.state = .waitCt) (msgId : UInt8) (ctx : FragmentRxCtx) :
    CtComplete P msgId ctx (released me f.hs.rxSlots) f
      (f.completeCt P me clk dst msgId ctx).2 := by
  unfold Fsm.completeCt
  simp only [Fsm.rxSlotRelease_eq, Fsm.setFailed, Fsm.mapS, Fsm.mapHs, Fsm.zeroRootCt]
  split
  · rw [← (f.hs.setSlots _).setRootCt_self]
    exact .rejected (by simp) (Or.inl rfl)
  · rename_i hlen
    have hlen : fragmentRxLen ctx = cwHqcCiphertextLen := not_not.mp hlen
    have hcore := f.s.core_mapMetrics (.noteCtRx P (clk 3) (clk 4))
    generalize f.s.mapMetrics (.noteCtRx P (clk 3) (clk 4)) = s at hcore ⊢
    have hst : s.state = .waitCt := (congrArg SessionCore.state hcore).trans hstate
    have hest : s.sessionIsEstablished = false := by simp [Session.sessionIsEstablished, hst]
    rw [if_neg (by simp [hest]), if_neg (by simp [hst])]
    simp only [HsStatics.slots_setRootCt, HsStatics.setRootCt_setSlots,
      HsStatics.setRootCt_rootHasKeypair, HsStatics.setSlots_rootHasKeypair,
      HsStatics.setRootCt_setRootCt]
    split
    · exact .rejected (by simp [hcore]) (Or.inr rfl)
    · rename_i hkey
      exact decapsulateCt_cases hcore (by simpa using hkey) msgId hlen

/-- The node acted on a complete key `ctx`, in slots it has given back. -/
inductive PkComplete (P : Platform) (rnd : Entropy) (ctx : FragmentRxCtx) (slots : Slots)
    (f : Fsm) : Fsm → Prop
  | rejected {s : Session} :
      fragmentRxLen ctx ≠ cwHqcPublicKeyLen → s.core = f.s.core.fail →
      PkComplete P rnd ctx slots f ⟨s, f.hs.setSlots slots, f.tx, f.obs⟩
  /-- The encapsulation failed, or its ciphertext could not be queued. -/
  | failed {s : Session} {ok : Bool} {ct ct' : Ciphertext} {ss : SharedSecret} {key : AesKey}
      {n : UInt8} {tx : TxQueue} :
      fragmentRxLen ctx = cwHqcPublicKeyLen →
      P.cryptoWorkerEncapsulate rnd (rxArray _ ctx) = (ok, ct, ss) →
      s.core = ((f.s.core.setKeys ss key).skipTo n).fail →
      Adds (IsFragmentOf (ctMessage ct) pqcMsgCt f.s.nodeId f.s.nextMsgId) f.tx tx →
      (ok = false → tx = f.tx) →
      PkComplete P rnd ctx slots f ⟨s, (f.hs.setSlots slots).setNodeCt ct', tx,
        .encapsulate f.s.nodeId (rxArray _ ctx) ok ct ss :: f.obs⟩
  | sent {s : Session} {ct : Ciphertext} {ss : SharedSecret} {tx : TxQueue} :
      fragmentRxLen ctx = cwHqcPublicKeyLen →
      P.cryptoWorkerEncapsulate rnd (rxArray _ ctx) = (true, ct, ss) →
      s.core = (((f.s.core.setKeys ss (P.cryptoWorkerDeriveAesKey ss)).clearPending).skipTo
        (f.s.nextMsgId + 1)).await .waitAck pqcMsgCt f.s.nextMsgId →
      Adds (IsFragmentOf (ctMessage ct) pqcMsgCt f.s.nodeId f.s.nextMsgId) f.tx tx →
      PkComplete P rnd ctx slots f ⟨s, (f.hs.setSlots slots).setNodeCt ct, tx,
        .encapsulate f.s.nodeId (rxArray _ ctx) true ct ss :: f.obs⟩

/-- Whether or not all fragments could be queued, the node has used up a message id. -/
theorem sendCt_cases (P : Platform) (clk : Clock) (dst : UdpSendCtx) (f : Fsm) :
    ∃ tx, Adds (IsFragmentOf (ctMessage f.hs.nodeCt) pqcMsgCt f.s.nodeId f.s.nextMsgId) f.tx tx ∧
      ((∃ s, (f.sendCt P clk dst).2 = ⟨s, f.hs.setNodeCt zeroCt, tx, f.obs⟩ ∧
          s.core = (f.s.core.skipTo (f.s.nextMsgId + 1)).fail) ∨
        ∃ s, (f.sendCt P clk dst).2 = ⟨s, f.hs, tx, f.obs⟩ ∧
          s.core = (f.s.core.clearPending.skipTo (f.s.nextMsgId + 1)).await .waitAck pqcMsgCt
            f.s.nextMsgId) := by
  unfold Fsm.sendCt
  dsimp only
  set g := f.mapS _ with hg
  have hcore : g.s.core = (f.s.core.clearPending.skipTo (f.s.nextMsgId + 1)).await .waitAck pqcMsgCt
      f.s.nextMsgId := by
    simp [hg]
  obtain ⟨tx, htx, hadds⟩ := fragmentTx_cases dst (ctMessage f.hs.nodeCt) pqcMsgCt f.s.nextMsgId
    pqcFlagNone g
  change (g.fragmentTx dst f.hs.nodeCt.toList _ _ _).2 = _ at htx
  refine ⟨tx, hadds, ?_⟩
  rw [htx]
  split
  · exact Or.inl ⟨_, rfl, by simp [Fsm.setTx, Fsm.zeroNodeCt, hcore]⟩
  · exact Or.inr ⟨_, rfl, by simp [Fsm.setTx, hcore]⟩

theorem completePk_cases (P : Platform) (me : SessionRef) (clk : Clock) (rnd : Entropy)
    (dst : UdpSendCtx) (ctx : FragmentRxCtx) (f : Fsm) :
    PkComplete P rnd ctx (released me f.hs.rxSlots) f (f.completePk P me clk rnd dst ctx).2 := by
  unfold Fsm.completePk
  split
  · rename_i hlen
    simp only [Fsm.rxSlotRelease_eq, Fsm.setFailed, Fsm.mapS]
    exact .rejected hlen (by simp)
  · rename_i hlen
    have hlen : fragmentRxLen ctx = cwHqcPublicKeyLen := not_not.mp hlen
    have hcore := f.s.core_mapMetrics (.notePkRx P (clk 3) (clk 4))
    simp only [Fsm.rxSlotRelease_eq, Fsm.setFailed, Fsm.mapS, Fsm.mapHs, Fsm.observe,
      Fsm.zeroNodeCt, HsStatics.slots_setNodeCt, HsStatics.setNodeCt_setSlots,
      HsStatics.setNodeCt_setNodeCt]
    generalize f.s.mapMetrics (.notePkRx P (clk 3) (clk 4)) = s at hcore ⊢
    have hid : s.nodeId = f.s.nodeId := congrArg SessionCore.nodeId hcore
    rw [hid]
    rcases henc : P.cryptoWorkerEncapsulate rnd (rxArray _ ctx) with ⟨ok, ct, ss⟩
    cases ok
    · have hfail : ((s.setSs ss).sessionSetFailed P (clk 6)).core =
          ((f.s.core.setKeys ss s.aesKey).skipTo f.s.nextMsgId).fail := by
        rw [Session.core_sessionSetFailed, Session.core_setSs, hcore]
        rfl
      exact .failed hlen henc hfail .refl fun _ => rfl
    · simp only [Bool.not_true, Bool.false_eq_true, if_false, Session.setSs_ss]
      have hkeys : (((s.setSs ss).mapMetrics (.noteEncaps (P.clockSub (clk 7) (clk 5)))).setAesKey
          (P.cryptoWorkerDeriveAesKey ss)).core =
          f.s.core.setKeys ss (P.cryptoWorkerDeriveAesKey ss) := by
        simp [hcore]
      generalize ((s.setSs ss).mapMetrics (.noteEncaps (P.clockSub (clk 7) (clk 5)))).setAesKey
        (P.cryptoWorkerDeriveAesKey ss) = s at hkeys ⊢
      have hid : s.nodeId = f.s.nodeId := congrArg SessionCore.nodeId hkeys
      have hnext : s.nextMsgId = f.s.nextMsgId := congrArg SessionCore.nextMsgId hkeys
      split
      · have hfail : (s.sessionSetFailed P (clk 8)).core =
            ((f.s.core.setKeys ss (P.cryptoWorkerDeriveAesKey ss)).skipTo f.s.nextMsgId).fail := by
          rw [Session.core_sessionSetFailed, hkeys]
          rfl
        exact .failed hlen henc hfail .refl fun _ => rfl
      · generalize hg : (Fsm.mk _ _ _ _) = g
        obtain ⟨tx, hadds, hres⟩ := sendCt_cases P clk dst g
        subst hg
        simp only [hid, hnext, hkeys, HsStatics.setNodeCt_nodeCt, HsStatics.setNodeCt_setNodeCt]
          at hadds hres
        rcases hres with ⟨s', hs', hfail⟩ | ⟨s', hs', hsent⟩
        · rw [hs']
          exact .failed hlen henc hfail hadds fun hok => by cases hok
        · rw [hs']
          exact .sent hlen henc hsent hadds

/-- The node acted on a complete acknowledgement. -/
inductive AckComplete (ctx : FragmentRxCtx) (slots : Slots) (f : Fsm) : Fsm → Prop
  | ignored : AckComplete ctx slots f ⟨f.s, f.hs.setSlots slots, f.tx, f.obs⟩
  | established {s : Session} :
      fragmentRxLen ctx = 1 → ctx.buffer 0 = f.s.pendingMsgId → s.core = f.s.core.establish →
      AckComplete ctx slots f ⟨s, (f.hs.setSlots slots).setNodeCt zeroCt, f.tx, f.obs⟩

theorem completeAck_cases (P : Platform) (me : SessionRef) (clk : Clock) (ctx : FragmentRxCtx)
    (f : Fsm) :
    AckComplete ctx (released me f.hs.rxSlots) f (f.completeAck P me clk ctx).2 := by
  unfold Fsm.completeAck
  split
  · rw [Fsm.rxSlotRelease_eq]
    exact .ignored
  · rename_i hack
    push Not at hack
    simp only [Fsm.rxSlotRelease_eq, Fsm.mapS, Fsm.mapHs, Fsm.zeroNodeCt,
      HsStatics.slots_setNodeCt, HsStatics.setNodeCt_setSlots]
    exact .established hack.1 hack.2 (by simp)

theorem PkComplete.rebase {slots slots' : Slots} {s : Session} {f' : Fsm} (hs : s.core = f.s.core)
    (h : PkComplete P rnd ctx slots ⟨s, f.hs.setSlots slots', f.tx, f.obs⟩ f') :
    PkComplete P rnd ctx slots f f' := by
  have hid : s.nodeId = f.s.nodeId := congrArg SessionCore.nodeId hs
  have hnext : s.nextMsgId = f.s.nextMsgId := congrArg SessionCore.nextMsgId hs
  cases h with
  | rejected hlen hc =>
    rw [hs] at hc
    exact .rejected hlen hc
  | failed hlen henc hc hadds hno =>
    rw [hs] at hc
    simp only [hid, hnext] at hadds ⊢
    exact .failed hlen henc hc hadds hno
  | sent hlen henc hc hadds =>
    simp only [hs, hid, hnext] at hc hadds ⊢
    exact .sent hlen henc hc hadds

end PqcContiki
