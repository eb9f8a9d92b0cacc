import PqcContiki.RetryOutcome
import PqcContiki.NackRecovery

/-!
Sends of more than one packet. Each looks for room first, so it queues all of its packets or none,
and the branches behind a refusal in the middle of a message are dead.
-/
namespace PqcContiki

open TxQueue

variable {P : Platform} {me : SessionRef} {clk : Clock} {rnd : Entropy} {conn : UdpConn}
  {dest : IpAddr} {f : Fsm} {q q' : TxQueue} {ps : List Bytes}

/-- The packets `fragment_tx` makes of a message. -/
def Message.packets (m : Message) (msgType : UInt8) (nodeId : UInt16) (msgId flags : UInt8) :
    List Bytes :=
  (List.range m.count).map (m.packet msgType nodeId msgId flags)

/-- The queue gained exactly the packets `ps`, for one destination. -/
def Queued (conn : UdpConn) (dest : IpAddr) (ps : List Bytes) (q q' : TxQueue) : Prop :=
  q'.contents = (ps.map fun p => (⟨some conn, p, dest⟩ : Datagram)) + q.contents

/-- A send that reports success queued all of `ps`, or the queue is untouched. -/
def AllOrNothing (conn : UdpConn) (dest : IpAddr) (ps : List Bytes) (q : TxQueue)
    (r : Bool × TxQueue) : Prop :=
  (r.1 = true ∧ Queued conn dest ps q r.2) ∨ r.2 = q

theorem Message.length_packets (m : Message) (msgType : UInt8) (nodeId : UInt16)
    (msgId flags : UInt8) :
    (m.packets msgType nodeId msgId flags).length = fragmentTxCount m.data.length := by
  simp [Message.packets, Message.count]

theorem Message.packets_sendable (m : Message) (msgType : UInt8) (nodeId : UInt16)
    (msgId flags : UInt8) : ∀ p ∈ m.packets msgType nodeId msgId flags, Sendable p := by
  intro p hp
  obtain ⟨i, -, rfl⟩ := List.mem_map.mp hp
  exact m.packet_sendable msgType nodeId msgId flags i

theorem txHasRoomFor_iff {len : ℕ} : f.txHasRoomFor len = true ↔
    fragmentTxCount len ≠ 0 ∧ fragmentTxCount len ≤ f.tx.pqcTxFreeSlots := by
  rw [Fsm.txHasRoomFor, Bool.and_eq_true, bne_iff_ne, decide_eq_true_eq, ge_iff_le]

/-- With room for a message `fragment_tx` does not fail. -/
theorem fragmentTx_room (conn : UdpConn) (dest : IpAddr) (m : Message) (msgType msgId flags : UInt8)
    (hq : f.tx.WellFormed) (hroom : f.txHasRoomFor m.data.length = true) :
    ∃ q, f.fragmentTx ⟨some conn, some dest⟩ m.data msgType msgId flags = (true, f.setTx q) ∧
      Queued conn dest (m.packets msgType f.s.nodeId msgId flags) f.tx q := by
  have hfree := (txHasRoomFor_iff.mp hroom).2
  have hle := hq.count_le
  simp only [pqcTxFreeSlots] at hfree
  have hlen := m.length_packets msgType f.s.nodeId msgId flags
  obtain ⟨q, hsend, -, hcont⟩ := sendAll_queueSend conn dest
    (m.packets_sendable msgType f.s.nodeId msgId flags) hq (by omega)
  refine ⟨q, ?_, hcont⟩
  rw [Fsm.fragmentTx, fragmentTx_eq]
  exact congrArg (fun r => (r.1, f.setTx r.2)) hsend

section Sends

theorem sendAck_atomic (hq : f.tx.WellFormed) (confirmedMsgId : UInt8) :
    let r := f.sendAck ⟨some conn, some dest⟩ confirmedMsgId
    (f.txHasRoomFor 1 = true → r.1 = true) ∧
    AllOrNothing conn dest ((ackMessage confirmedMsgId).packets pqcMsgAck f.s.nodeId f.s.nextMsgId
      pqcFlagNone) f.tx (r.1, r.2.tx) := by
  unfold Fsm.sendAck
  split
  · rename_i hroom
    exact ⟨fun h => absurd h (by simpa using hroom), Or.inr rfl⟩
  · rename_i hroom
    have hroom : f.txHasRoomFor 1 = true := by simpa using hroom
    obtain ⟨q, hsend, hqueued⟩ := fragmentTx_room
      (f := f.mapS fun s => s.takeMsgId.mapMetrics .noteAckTx) conn dest
      (ackMessage confirmedMsgId) pqcMsgAck f.s.nextMsgId pqcFlagNone hq hroom
    change Fsm.fragmentTx _ [confirmedMsgId] _ _ _ _ = _ at hsend
    simp only [hsend, if_true]
    exact ⟨fun _ => trivial, Or.inl ⟨rfl, hqueued⟩⟩

theorem sendPk_atomic (P : Platform) (clk : Clock) (conn : UdpConn) (dest : IpAddr)
    (hq : f.tx.WellFormed) (hroom : f.txHasRoomFor cwHqcPublicKeyLen = true) :
    let r := f.sendPk P clk ⟨some conn, some dest⟩
    r.1 = true ∧ r.2.hs = f.hs ∧ Queued conn dest
      ((pkMessage f.hs.rootPk).packets pqcMsgPk f.s.nodeId f.s.nextMsgId pqcFlagNone) f.tx
      r.2.tx := by
  unfold Fsm.sendPk
  dsimp only
  set g := f.mapS _ with hg
  have hlen : (pkMessage f.hs.rootPk).data.length = cwHqcPublicKeyLen := Buffer.length_toList _
  obtain ⟨q, hsend, hqueued⟩ := fragmentTx_room (f := g) conn dest (pkMessage f.hs.rootPk) pqcMsgPk
    f.s.nextMsgId pqcFlagNone hq (by rw [hlen]; exact hroom)
  change g.fragmentTx _ f.hs.rootPk.toList _ _ _ = _ at hsend
  simp only [hsend, Bool.not_true, Bool.false_eq_true, if_false]
  exact ⟨trivial, rfl, hqueued⟩

theorem sendCt_atomic (P : Platform) (clk : Clock) (conn : UdpConn) (dest : IpAddr)
    (hq : f.tx.WellFormed) (hroom : f.txHasRoomFor cwHqcCiphertextLen = true) :
    let r := f.sendCt P clk ⟨some conn, some dest⟩
    r.1 = true ∧ Queued conn dest
      ((ctMessage f.hs.nodeCt).packets pqcMsgCt f.s.nodeId f.s.nextMsgId pqcFlagNone) f.tx
      r.2.tx := by
  unfold Fsm.sendCt
  dsimp only
  set g := f.mapS _ with hg
  have hlen : (ctMessage f.hs.nodeCt).data.length = cwHqcCiphertextLen := Buffer.length_toList _
  obtain ⟨q, hsend, hqueued⟩ := fragmentTx_room (f := g) conn dest (ctMessage f.hs.nodeCt) pqcMsgCt
    f.s.nextMsgId pqcFlagNone hq (by rw [hlen]; exact hroom)
  change g.fragmentTx _ f.hs.nodeCt.toList _ _ _ = _ at hsend
  simp only [hsend, Bool.not_true, Bool.false_eq_true, if_false]
  exact ⟨trivial, hqueued⟩

theorem retryTransfer_atomic (P : Platform) (clk : Clock) (conn : UdpConn) (dest : IpAddr)
    (hq : f.tx.WellFormed) (m : Message) (msgType : UInt8) :
    let r := f.retryTransfer P clk ⟨some conn, some dest⟩ m.data msgType
    r.1 = true ∧ AllOrNothing conn dest
      (m.packets msgType f.s.nodeId f.s.pendingMsgId pqcFlagRetry) f.tx (r.1, r.2.tx) := by
  unfold Fsm.retryTransfer
  split
  · exact ⟨rfl, Or.inr rfl⟩
  · rename_i hroom
    obtain ⟨q, hsend, hqueued⟩ := fragmentTx_room conn dest m msgType f.s.pendingMsgId pqcFlagRetry
      hq (by simpa using hroom)
    simp only [hsend, if_true]
    exact ⟨trivial, Or.inl ⟨rfl, hqueued⟩⟩

/-- A NACK that lists anything lists at most sixteen fragments. -/
theorem pqcNackBuildFromRx_count {rx : FragmentRxCtx} {nack : PqcNack}
    (h : (pqcNackBuildFromRx rx nack pqcNackMaxMissing).1 ≠ 0) :
    (pqcNackBuildFromRx rx nack pqcNackMaxMissing).2.missingCount =
        (pqcNackBuildFromRx rx nack pqcNackMaxMissing).1 ∧
      (pqcNackBuildFromRx rx nack pqcNackMaxMissing).1 ≤ pqcNackMaxMissing := by
  unfold pqcNackBuildFromRx at h ⊢
  split
  · rename_i hidle
    rw [if_pos hidle] at h
    exact absurd rfl h
  · dsimp only
    rw [if_neg (by decide)]
    generalize ite (rx.totalFrags > fragMaxFrags) _ _ = limit
    have hspec := (pqcNackScan_spec rx pqcNackMaxMissing limit rx.msgType rx.msgId
      rx.totalFrags).1
    refine ⟨rfl, ?_⟩
    rw [← length_indices, hspec]
    exact List.length_take_le _ _

theorem encode_of_count {nack : PqcNack} (h0 : nack.missingCount ≠ 0)
    (hle : nack.missingCount ≤ pqcNackMaxMissing) :
    ∃ m : Message, pqcNackEncode nack pqcNackMaxPayloadLen = some m.data ∧ m.count = 1 := by
  simp only [pqcNackMaxMissing] at hle
  have hlen : ([nack.missingMsgType, nack.missingMsgId, UInt8.ofNat nack.totalFrags,
      UInt8.ofNat nack.missingCount] ++ nack.indices.map UInt8.ofNat).length =
      4 + nack.missingCount := by
    simp [length_indices]
    omega
  refine ⟨⟨_, by rw [hlen]; omega, by rw [hlen]; simp only [fragMaxMessageLen]; omega⟩, ?_, ?_⟩
  · simp only [pqcNackEncode, pqcNackMaxPayloadLen, pqcNackFixedLen, pqcNackMaxMissing]
    rw [if_neg (by omega), if_neg (by omega)]
  · rw [Message.count_eq, hlen]
    omega

/-- The NACK for slot `i`, before it is encoded. -/
def Fsm.nackFor (f : Fsm) (i : Fin hsRxSlotCount) : ℕ × PqcNack :=
  pqcNackBuildFromRx (f.hs.rxSlots i).ctx (pqcNackInit 0 0 0) pqcNackMaxMissing

theorem sendNack_silent {dst : UdpSendCtx} {i : Fin hsRxSlotCount}
    (h : (f.nackFor i).1 = 0 ∨ f.tx.pqcTxFreeSlots = 0) : f.sendNack dst i = (0, f) := by
  unfold Fsm.sendNack
  dsimp only
  split
  · rfl
  · rename_i hbuilt
    have hfree := h.resolve_left hbuilt
    obtain ⟨hcount, hle⟩ := pqcNackBuildFromRx_count hbuilt
    obtain ⟨m, hm, hone⟩ := encode_of_count (hcount ▸ hbuilt) (hcount ▸ hle)
    rw [hm]
    dsimp only
    rw [if_pos]
    have hno : ¬ f.txHasRoomFor m.data.length = true := by
      intro hroom
      have hfit := txHasRoomFor_iff.mp hroom
      simp only [Message.count] at hone
      omega
    simpa using hno

theorem sendNack_room {i : Fin hsRxSlotCount} (hq : f.tx.WellFormed) (hn : (f.nackFor i).1 ≠ 0)
    (hfree : f.tx.pqcTxFreeSlots ≠ 0) (conn : UdpConn) (dest : IpAddr) :
    ∃ m : Message, ∃ q, m.count = 1 ∧
      f.sendNack ⟨some conn, some dest⟩ i = ((f.nackFor i).1,
        (f.mapS fun s => s.takeMsgId.mapMetrics .noteNackTx).setTx q) ∧
      Queued conn dest (m.packets pqcMsgNack f.s.nodeId f.s.nextMsgId pqcFlagNone) f.tx q := by
  obtain ⟨hcount, hle⟩ := pqcNackBuildFromRx_count hn
  obtain ⟨m, hm, hone⟩ := encode_of_count (hcount ▸ hn) (hcount ▸ hle)
  have hroom : f.txHasRoomFor m.data.length = true := by
    apply txHasRoomFor_iff.mpr
    simp only [Message.count] at hone
    omega
  obtain ⟨q, hsend, hqueued⟩ := fragmentTx_room
    (f := f.mapS fun s => s.takeMsgId.mapMetrics .noteNackTx) conn dest m pqcMsgNack f.s.nextMsgId
    pqcFlagNone hq hroom
  refine ⟨m, q, hone, ?_, hqueued⟩
  unfold Fsm.nackFor at hn
  unfold Fsm.sendNack
  simp only [if_neg hn, hm, hroom, hsend]
  simp [hcount, Fsm.nackFor]

/-- The indices of a NACK that was decoded lie within its message. -/
theorem decode_index_lt {payload : Bytes} {nack : PqcNack} (h : pqcNackDecode payload = some nack) :
    ∀ i ∈ nack.indices, i < nack.totalFrags := by
  unfold pqcNackDecode at h
  split at h
  · cases h
  · dsimp only at h
    split at h
    · cases h
    · split at h
      · cases h
      · rename_i hany
        obtain rfl := Option.some.inj h
        intro i hi
        obtain ⟨k, hk, rfl⟩ := List.mem_map.mp hi
        have hk := List.mem_range.mp hk
        dsimp only at hk ⊢
        rw [if_pos hk]
        simp only [List.any_eq_true, List.mem_range, decide_eq_true_eq, not_exists, not_and,
          not_le] at hany
        exact hany k hk

/-- A NACK about another message than the pending one. -/
def Unanswerable (f : Fsm) (nack : PqcNack) : Prop :=
  nack.missingMsgId ≠ f.s.pendingMsgId ∨ nack.missingMsgType ≠ f.s.pendingMsgType ∨
    ∀ data, f.nackSource = some data →
      fragmentTxCount data.length = 0 ∨ nack.totalFrags ≠ fragmentTxCount data.length

/-- A NACK is answered in full, or put off, or it is about another message. -/
theorem retransmit_atomic (hq : f.tx.WellFormed) {nack : PqcNack}
    (hidx : ∀ i ∈ nack.indices, i < nack.totalFrags) (now : ℕ) :
    let r := f.retransmitNackFragments P now ⟨some conn, some dest⟩ nack
    (r.2.tx = f.tx ∧ (r.1 = false → Unanswerable f nack)) ∨
      (r.1 = true ∧ ∃ ps : List Bytes, ps.length = nack.missingCount ∧
        (∀ p ∈ ps, IsPendingFragment f p) ∧ Queued conn dest ps f.tx r.2.tx) := by
  unfold Fsm.retransmitNackFragments
  dsimp only
  set g := f.mapS (Session.mapMetrics .noteNackRx) with hg
  split
  · rename_i hkey
    exact Or.inl ⟨rfl, fun _ => hkey.elim Or.inl (fun h => Or.inr (Or.inl h))⟩
  · rename_i hkey
    push Not at hkey
    cases hsrc : g.nackSource with
    | none =>
      refine Or.inl ⟨rfl, fun _ => Or.inr (Or.inr ?_)⟩
      intro data hdata
      cases hsrc.symm.trans hdata
    | some data =>
      obtain ⟨m, rfl, hm⟩ := nackSource_cases hsrc
      have hcount : fragmentTxCount m.data.length = m.count := rfl
      dsimp only
      rw [hcount]
      split
      · rename_i htotal
        refine Or.inl ⟨rfl, fun _ => Or.inr (Or.inr ?_)⟩
        intro data hdata
        obtain rfl := Option.some.inj (hsrc.symm.trans hdata)
        exact htotal
      · rename_i htotal
        push Not at htotal
        split
        · exact Or.inl ⟨rfl, fun h => absurd h (by simp)⟩
        · rename_i hfree
          have hslices := sendSlices_eq m nack.missingMsgType g.s.nodeId nack.missingMsgId
            pqcFlagRetry (queueSend ⟨some conn, some dest⟩)
            (fun i hi => htotal.2 ▸ hidx i hi) g.tx
          have hsendable : ∀ p ∈ nack.indices.map (m.packet nack.missingMsgType g.s.nodeId
              nack.missingMsgId pqcFlagRetry), Sendable p := by
            intro p hp
            obtain ⟨i, -, rfl⟩ := List.mem_map.mp hp
            exact m.packet_sendable _ _ _ _ i
          have hle := hq.count_le
          simp only [pqcTxFreeSlots, hg, Fsm.mapS_tx] at hfree
          obtain ⟨q, hsend, -, hcont⟩ := sendAll_queueSend conn dest hsendable hq
            (by rw [List.length_map, length_indices]; omega)
          rw [hslices]
          simp only [hg, Fsm.mapS_tx] at hsend ⊢
          rw [hsend]
          refine Or.inr ⟨rfl, _, ?_, ?_, hcont⟩
          · rw [List.length_map, length_indices]
          · intro p hp
            obtain ⟨i, hi, rfl⟩ := List.mem_map.mp hp
            exact hm _ ⟨_, i, htotal.2 ▸ hidx i hi, by rw [hkey.1, hkey.2]⟩

theorem hsFsmStart_atomic (hq : f.tx.WellFormed) (hrole : f.s.role = .root) :
    let r := f.hsFsmStart P clk rnd ⟨some conn, some dest⟩
    AllOrNothing conn dest ((pkMessage r.2.hs.rootPk).packets pqcMsgPk f.s.nodeId f.s.nextMsgId
      pqcFlagNone) f.tx (r.1, r.2.tx) := by
  obtain ⟨slots, -, -, ⟨-, s, -, hres⟩ | ⟨-, s, hcore, hres⟩⟩ :=
    hsFsmStart_root P clk rnd ⟨some conn, some dest⟩ hrole
  · rw [hres]
    exact Or.inr rfl
  · rw [hres]
    have hid : s.nodeId = f.s.nodeId := congrArg SessionCore.nodeId hcore
    have hnext : s.nextMsgId = f.s.nextMsgId := congrArg SessionCore.nextMsgId hcore
    generalize ((f.hs.setSlots slots).hsFsmRootInitKeypair P rnd).2 = hs
    split
    · rename_i hroom
      obtain ⟨hok, hstatics, hqueued⟩ := sendPk_atomic (f := ⟨s, hs, f.tx, f.obs⟩) P clk conn dest
        hq hroom
      simp only [hid, hnext] at hqueued
      dsimp only
      rw [hstatics]
      exact Or.inl ⟨hok, hqueued⟩
    · exact Or.inr rfl

theorem hsFsmRootInitKeypair_setSlots (P : Platform) (rnd : Entropy) (hs : HsStatics)
    (slots : Slots) :
    ((hs.setSlots slots).hsFsmRootInitKeypair P rnd).1 = (hs.hsFsmRootInitKeypair P rnd).1 := by
  unfold HsStatics.hsFsmRootInitKeypair
  simp only [HsStatics.setSlots_rootHasKeypair]
  split <;> rfl

/-- Without room for the key the session is left alone. -/
theorem hsFsmStart_noRoom (clk : Clock) (hrole : f.s.role = .root)
    (hkey : (f.hs.hsFsmRootInitKeypair P rnd).1 = true)
    (hroom : f.txHasRoomFor cwHqcPublicKeyLen = false) (dst : UdpSendCtx) :
    let r := f.hsFsmStart P clk rnd dst
    r.1 = false ∧ r.2.s.core = f.s.core ∧ r.2.tx = f.tx := by
  obtain ⟨slots, -, -, ⟨hno, -⟩ | ⟨-, s, hcore, hres⟩⟩ := hsFsmStart_root P clk rnd dst hrole
  · rw [hsFsmRootInitKeypair_setSlots, hkey] at hno
    cases hno
  · rw [hres, if_neg (by simp [hroom])]
    exact ⟨rfl, hcore, rfl⟩

theorem completePk_atomic (hq : f.tx.WellFormed) (ctx : FragmentRxCtx) :
    let r := f.completePk P me clk rnd ⟨some conn, some dest⟩ ctx
    AllOrNothing conn dest
      ((ctMessage (P.cryptoWorkerEncapsulate rnd (rxArray _ ctx)).2.1).packets pqcMsgCt f.s.nodeId
        f.s.nextMsgId pqcFlagNone) f.tx (r.1, r.2.tx) := by
  unfold Fsm.completePk
  split
  · exact Or.inr rfl
  · dsimp only
    split
    · exact Or.inr rfl
    · generalize hg : Fsm.rxSlotRelease me _ = g
      have htx : g.tx = f.tx := by rw [← hg]; rfl
      have hid : g.s.nodeId = f.s.nodeId := by rw [← hg]; rfl
      have hnext : g.s.nextMsgId = f.s.nextMsgId := by rw [← hg]; rfl
      have hct : g.hs.nodeCt = (P.cryptoWorkerEncapsulate rnd (rxArray _ ctx)).2.1 := by
        rw [← hg, Fsm.rxSlotRelease_eq]
        rfl
      clear hg
      split
      · exact Or.inr htx
      · rename_i hroom
        have hsent := sendCt_atomic (f := g) P clk conn dest (htx ▸ hq) (by simpa using hroom)
        rw [hid, hnext, hct, htx] at hsent
        exact Or.inl hsent

theorem retryPending_atomic (hq : f.tx.WellFormed) (m : Message) (msgType : UInt8)
    (hm : (f.s.role = .root ∧ f.s.pendingMsgType = pqcMsgPk ∧ msgType = pqcMsgPk ∧
        m = pkMessage f.hs.rootPk) ∨
      (f.s.role = .node ∧ f.s.pendingMsgType = pqcMsgCt ∧ msgType = pqcMsgCt ∧
        m = ctMessage f.hs.nodeCt)) :
    let r := f.hsFsmRetry P me clk ⟨some conn, some dest⟩
    AllOrNothing conn dest (m.packets msgType f.s.nodeId f.s.pendingMsgId pqcFlagRetry) f.tx
      (r.1, r.2.tx) := by
  unfold Fsm.hsFsmRetry
  dsimp only
  set g := f.rxSlotsGc P (clk 0) with hg
  split
  · exact Or.inr rfl
  · split
    · exact Or.inr rfl
    · split
      · exact Or.inr (by split <;> rfl)
      · unfold Fsm.retryPending
        have hs : (g.rxSlotRelease me).s = f.s := rfl
        have hhs : (g.rxSlotRelease me).hs.rootPk = f.hs.rootPk ∧
            (g.rxSlotRelease me).hs.nodeCt = f.hs.nodeCt := by
          rw [Fsm.rxSlotRelease_eq]
          exact ⟨rfl, rfl⟩
        have hs' : g.s = f.s := rfl
        simp only [Session.sessionIsNode, Session.sessionIsRoot, beq_iff_eq, hs, hs']
        have htransfer := retryTransfer_atomic (f := g.rxSlotRelease me) P clk conn dest hq m
          msgType
        rcases hm with ⟨hrole, hpend, rfl, rfl⟩ | ⟨hrole, hpend, rfl, rfl⟩
        · have hct : ¬ f.s.pendingMsgType = pqcMsgCt := by
            rw [hpend]
            decide
          rw [if_neg (fun h => hct h.2), if_neg (by simp [hrole]), if_pos ⟨hrole, hpend⟩]
          split
          · exact Or.inr rfl
          · rw [hhs.1]
            exact htransfer.2
        · have hget : ¬ f.s.pendingMsgType = pqcMsgGetpk := by
            rw [hpend]
            decide
          rw [if_neg (by simp [hrole]), if_neg (fun h => hget h.2), if_neg (by simp [hrole]),
            if_pos ⟨hrole, hpend⟩, hhs.2]
          exact htransfer.2

end Sends

/-- All sends of more than one step, from state `f` and with context `⟨conn, dest⟩`. -/
structure CompositeSends (P : Platform) (me : SessionRef) (clk : Clock) (rnd : Entropy)
    (conn : UdpConn) (dest : IpAddr) (f : Fsm) : Prop where
  /-- The key in `hs_fsm_start`. -/
  start : f.s.role = .root →
    let r := f.hsFsmStart P clk rnd ⟨some conn, some dest⟩
    AllOrNothing conn dest ((pkMessage r.2.hs.rootPk).packets pqcMsgPk f.s.nodeId f.s.nextMsgId
      pqcFlagNone) f.tx (r.1, r.2.tx)
  startRefused : f.s.role = .root → f.s.state = .idle → f.s.core.Coherent →
    (f.hs.hsFsmRootInitKeypair P rnd).1 = true → f.txHasRoomFor cwHqcPublicKeyLen = false →
    let r := f.hsFsmStart P clk rnd ⟨some conn, some dest⟩
    r.1 = false ∧ r.2.s.state = .idle ∧ r.2.s.waitingResponse = false ∧
      r.2.s.pendingMsgType = 0 ∧ r.2.s.pendingMsgId = 0 ∧ r.2.tx = f.tx
  keyNotRefused : f.txHasRoomFor cwHqcPublicKeyLen = true →
    (f.sendPk P clk ⟨some conn, some dest⟩).1 = true
  /-- The ciphertext after a complete key. -/
  ciphertext : ∀ ctx,
    let r := f.completePk P me clk rnd ⟨some conn, some dest⟩ ctx
    AllOrNothing conn dest
      ((ctMessage (P.cryptoWorkerEncapsulate rnd (rxArray _ ctx)).2.1).packets pqcMsgCt f.s.nodeId
        f.s.nextMsgId pqcFlagNone) f.tx (r.1, r.2.tx)
  ciphertextNotRefused : f.txHasRoomFor cwHqcCiphertextLen = true →
    (f.sendCt P clk ⟨some conn, some dest⟩).1 = true
  /-- The key and the ciphertext once more, in `hs_fsm_retry`. -/
  retryKey : f.s.role = .root → f.s.pendingMsgType = pqcMsgPk →
    let r := f.hsFsmRetry P me clk ⟨some conn, some dest⟩
    AllOrNothing conn dest ((pkMessage f.hs.rootPk).packets pqcMsgPk f.s.nodeId f.s.pendingMsgId
      pqcFlagRetry) f.tx (r.1, r.2.tx)
  retryCiphertext : f.s.role = .node → f.s.pendingMsgType = pqcMsgCt →
    let r := f.hsFsmRetry P me clk ⟨some conn, some dest⟩
    AllOrNothing conn dest ((ctMessage f.hs.nodeCt).packets pqcMsgCt f.s.nodeId f.s.pendingMsgId
      pqcFlagRetry) f.tx (r.1, r.2.tx)
  retryNotRefused : ∀ (m : Message) (msgType : UInt8),
    (f.retryTransfer P clk ⟨some conn, some dest⟩ m.data msgType).1 = true
  ack : ∀ confirmedMsgId,
    let r := f.sendAck ⟨some conn, some dest⟩ confirmedMsgId
    (f.txHasRoomFor 1 = true → r.1 = true) ∧
      AllOrNothing conn dest ((ackMessage confirmedMsgId).packets pqcMsgAck f.s.nodeId
        f.s.nextMsgId pqcFlagNone) f.tx (r.1, r.2.tx)
  nack : ∀ i,
    let r := f.sendNack ⟨some conn, some dest⟩ i
    ((f.nackFor i).1 ≠ 0 → f.tx.pqcTxFreeSlots ≠ 0 → r.1 ≠ 0) ∧
      ∃ m : Message, m.count = 1 ∧ AllOrNothing conn dest
        (m.packets pqcMsgNack f.s.nodeId f.s.nextMsgId pqcFlagNone) f.tx
        (decide (r.1 ≠ 0), r.2.tx)
  /-- The answer to a NACK, whoever sent it. -/
  resend : ∀ payload nack now, pqcNackDecode payload = some nack →
    let r := f.retransmitNackFragments P now ⟨some conn, some dest⟩ nack
    (r.2.tx = f.tx ∧ (r.1 = false → Unanswerable f nack)) ∨
      (r.1 = true ∧ ∃ ps : List Bytes, ps.length = nack.missingCount ∧
        (∀ p ∈ ps, IsPendingFragment f p) ∧ Queued conn dest ps f.tx r.2.tx)

theorem compositeSends_of_wellFormed (P : Platform) (me : SessionRef) (clk : Clock) (rnd : Entropy)
    (conn : UdpConn) (dest : IpAddr) (hq : f.tx.WellFormed) :
    CompositeSends P me clk rnd conn dest f where
  start := hsFsmStart_atomic hq
  startRefused := by
    intro hrole hidle hcoherent hkey hroom
    obtain ⟨hno, hcore, htx⟩ := hsFsmStart_noRoom clk hrole hkey hroom ⟨some conn, some dest⟩
    have hrest : f.s.waitingResponse = false ∧ f.s.pendingMsgType = 0 ∧ f.s.pendingMsgId = 0 := by
      rcases hcoherent.pending with ⟨-, hw, ht, hi, -⟩ | ⟨haw, -⟩
      · exact ⟨hw, ht, hi⟩
      · simp [SessionCore.Awaits, hidle] at haw
    exact ⟨hno, (congrArg SessionCore.state hcore).trans hidle,
      (congrArg SessionCore.waitingResponse hcore).trans hrest.1,
      (congrArg SessionCore.pendingMsgType hcore).trans hrest.2.1,
      (congrArg SessionCore.pendingMsgId hcore).trans hrest.2.2, htx⟩
  keyNotRefused := fun hroom => (sendPk_atomic P clk conn dest hq hroom).1
  ciphertext := completePk_atomic hq
  ciphertextNotRefused := fun hroom => (sendCt_atomic P clk conn dest hq hroom).1
  retryKey := fun hrole hpend =>
    retryPending_atomic hq _ _ (Or.inl ⟨hrole, hpend, rfl, rfl⟩)
  retryCiphertext := fun hrole hpend =>
    retryPending_atomic hq _ _ (Or.inr ⟨hrole, hpend, rfl, rfl⟩)
  retryNotRefused := fun m msgType => (retryTransfer_atomic P clk conn dest hq m msgType).1
  ack := sendAck_atomic hq
  nack := by
    intro i
    by_cases hsilent : (f.nackFor i).1 = 0 ∨ f.tx.pqcTxFreeSlots = 0
    · rw [sendNack_silent hsilent]
      refine ⟨fun hn hfree => absurd hsilent (by tauto), ackMessage 0, ackMessage_count 0, ?_⟩
      exact Or.inr rfl
    · push Not at hsilent
      obtain ⟨m, q, hone, hsend, hqueued⟩ := sendNack_room hq hsilent.1 hsilent.2 conn dest
      rw [hsend]
      exact ⟨fun _ _ => hsilent.1, m, hone, Or.inl ⟨by simpa using hsilent.1, hqueued⟩⟩
  resend := fun payload nack now hdec => retransmit_atomic hq (decode_index_lt hdec) now

/-- Every composite send queues all of its packets or none, from every state the queue can be in. -/
theorem composite_sends_atomic (P : Platform) (me : SessionRef) (clk : Clock) (rnd : Entropy)
    (conn : UdpConn) (dest : IpAddr) (calls : List Call) (f : Fsm) :
    CompositeSends P me clk rnd conn dest (f.setTx (Ledger.run calls).queue) :=
  compositeSends_of_wellFormed P me clk rnd conn dest (Ledger.balanced_run calls).wellFormed

end PqcContiki
