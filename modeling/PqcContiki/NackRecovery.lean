import PqcContiki.NackAnswers

/-!
Recovery of a message by NACKs: the receiver lists what it misses, the sender repeats it, and
round by round the message becomes complete.
-/
namespace PqcContiki

variable {m : Message} {ctx : FragmentRxCtx} {msgType msgId flags : UInt8} {nodeId : UInt16}

namespace Fsm

/-- A session that reassembles into slot `i`, with room for one packet. -/
structure Receives (nodeId : UInt16) (ctx : FragmentRxCtx) (i : Fin hsRxSlotCount) (f : Fsm) :
    Prop where
  nodeId : f.s.nodeId = nodeId
  ctx : (f.hs.rxSlots i).ctx = ctx
  queue : f.tx.WellFormed
  room : 0 < f.tx.pqcTxFreeSlots

/-- A session that waits for an answer to message `m`, the key at the root or the ciphertext at
the node, with room for `n` packets. -/
structure Offers (m : Message) (msgType : UInt8) (nodeId : UInt16) (msgId : UInt8) (n : ℕ)
    (f : Fsm) : Prop where
  nodeId : f.s.nodeId = nodeId
  pendingMsgType : f.s.pendingMsgType = msgType
  pendingMsgId : f.s.pendingMsgId = msgId
  source : (f.s.role = .root ∧ msgType = pqcMsgPk ∧ f.hs.rootPk.toList = m.data) ∨
    (f.s.role = .node ∧ msgType = pqcMsgCt ∧ f.hs.nodeCt.toList = m.data)
  queue : f.tx.WellFormed
  room : n ≤ f.tx.pqcTxFreeSlots

variable {f : Fsm} {n : ℕ}

theorem Offers.nackSource (h : f.Offers m msgType nodeId msgId n) :
    f.nackSource = some m.data := by
  rcases h.source with ⟨hr, ht, hd⟩ | ⟨hr, ht, hd⟩
  · simp [Fsm.nackSource, Session.sessionIsRoot, hr, h.pendingMsgType, ht, hd]
  · simp [Fsm.nackSource, Session.sessionIsRoot, Session.sessionIsNode, hr, h.pendingMsgType, ht,
      hd]

theorem Offers.rxSlotsGc (h : f.Offers m msgType nodeId msgId n) (P : Platform) (now : ℕ) :
    (f.rxSlotsGc P now).Offers m msgType nodeId msgId n :=
  ⟨h.nodeId, h.pendingMsgType, h.pendingMsgId, h.source, h.queue, h.room⟩

/-- An incomplete context gives one NACK packet, which lists its first missing fragments. -/
theorem Receives.sendNack {i : Fin hsRxSlotCount} (h : f.Receives nodeId ctx i)
    (hheld : Held m msgType nodeId msgId ctx) (hne : ctx.missing m.count ≠ []) (conn : UdpConn)
    (dest : IpAddr) :
    ∃ (nack : PqcNack) (henc : nack.Encodable), Lists m msgType msgId ctx nack ∧
      (f.sendNack ⟨some conn, some dest⟩ i).1 = nack.missingCount ∧
      (f.sendNack ⟨some conn, some dest⟩ i).2.hs = f.hs ∧
      sendAll (queueSend ⟨some conn, some dest⟩)
        [(nackMessage henc).packet pqcMsgNack nodeId f.s.nextMsgId pqcFlagNone 0] f.tx =
        (true, (f.sendNack ⟨some conn, some dest⟩ i).2.tx) := by
  obtain ⟨nack, hb, henc, hlists⟩ := hheld.nack hne
  have hone := nackMessage_count henc
  have hcpos := henc.count_pos
  have hfree := h.room
  have hroom : f.txHasRoomFor (nackMessage henc).data.length = true := by
    simp only [Message.count] at hone
    simp only [txHasRoomFor, hone]
    simpa [Nat.one_le_iff_ne_zero, Nat.pos_iff_ne_zero] using hfree
  have hsendable : ∀ p ∈ [(nackMessage henc).packet pqcMsgNack nodeId f.s.nextMsgId pqcFlagNone 0],
      TxQueue.Sendable p := by
    simpa using Message.packet_sendable _ _ _ _ _ _
  obtain ⟨q, hsend, -⟩ := sendAll_queueSend conn dest hsendable h.queue
    (by
      simp only [TxQueue.pqcTxFreeSlots] at hfree
      simp only [List.length_cons, List.length_nil]
      omega)
  have htx : PqcContiki.fragmentTx (nackMessage henc).data pqcMsgNack f.s.nodeId f.s.nextMsgId
      pqcFlagNone (queueSend ⟨some conn, some dest⟩) f.tx = (true, q) := by
    rw [fragmentTx_eq, hone, h.nodeId, ← hsend]
    rfl
  refine ⟨nack, henc, hlists, ?_⟩
  rw [hsend]
  simp only [Fsm.sendNack, h.ctx, hb, encode_eq_nackMessage henc]
  rw [if_neg (by omega)]
  simp [hroom, Fsm.fragmentTx, htx]

end Fsm

/-- Two transmissions of a fragment differ in the flags byte at most. -/
theorem packet_set_flags (m : Message) (msgType : UInt8) (nodeId : UInt16)
    (msgId flags flags' : UInt8) (i : ℕ) :
    (m.packet msgType nodeId msgId flags i).set pqcHdrFlags flags' =
      m.packet msgType nodeId msgId flags' i := by
  have hflags : pqcHdrFlags < pqcHeaderLen := by decide
  rw [Message.packet, Message.packet, List.set_append_left _ _ hflags]
  rfl

/-- Data that splits into fragments is a message. -/
theorem message_of_fragmentTxCount {data : Bytes} (h : 0 < fragmentTxCount data.length) :
    ∃ m : Message, m.data = data := by
  have hpos : 0 < data.length := by
    by_contra hzero
    simp [fragmentTxCount, Nat.eq_zero_of_not_pos hzero] at h
  refine ⟨⟨data, hpos, ?_⟩, rfl⟩
  simp only [fragmentTxCount, fragMaxPayloadLen, fragMaxFrags, fragMaxMessageLen] at h ⊢
  split at h
  · omega
  · split at h <;> omega

/-- A retransmitted slice is the fragment of that index as `fragment_tx` sends it, but for the
flags. -/
theorem retransmitted_slice {σ : Type*} (data : Bytes) (msgType : UInt8) (nodeId : UInt16)
    (msgId flags flags' : UInt8) (sendFn : Bytes → σ → Bool × σ) (user : σ) (i : ℕ)
    (hi : i < fragmentTxCount data.length) :
    ∃ sent p, sent.length = fragmentTxCount data.length ∧ sent[i]? = some p ∧
      fragmentTx data msgType nodeId msgId flags record [] = (true, sent) ∧
      sendFragmentSlice data msgType nodeId msgId i (fragmentTxCount data.length) flags' record
        [] = (true, [p.set pqcHdrFlags flags']) ∧
      i * fragMaxPayloadLen < data.length ∧
      fragmentTx data msgType nodeId msgId flags sendFn user = sendAll sendFn sent user ∧
      sendFragmentSlice data msgType nodeId msgId i (fragmentTxCount data.length) flags' sendFn
        user = sendFn (p.set pqcHdrFlags flags') user := by
  obtain ⟨m, rfl⟩ := message_of_fragmentTxCount (Nat.zero_lt_of_lt hi)
  change i < m.count at hi
  have hcount := m.count_eq
  refine ⟨(List.range m.count).map (m.packet msgType nodeId msgId flags),
    m.packet msgType nodeId msgId flags i, ?_, ?_, ?_, ?_, ?_, ?_, ?_⟩
  · rw [List.length_map, List.length_range]
    rfl
  · rw [List.getElem?_map, List.getElem?_range hi]
    rfl
  · rw [fragmentTx_eq, sendAll_record, List.nil_append]
  · rw [packet_set_flags]
    exact sendFragmentSlice_eq m msgType nodeId msgId flags' hi record []
  · simp only [fragMaxPayloadLen]
    omega
  · exact fragmentTx_eq m msgType nodeId msgId flags sendFn user
  · rw [packet_set_flags]
    exact sendFragmentSlice_eq m msgType nodeId msgId flags' hi sendFn user

/-- The second fragment of 65 bytes carries a single one. -/
theorem retransmitted_slice_single_byte :
    sendFragmentSlice (List.replicate 65 7) pqcMsgCt 1 0 1 2 pqcFlagRetry record [] =
      (true, [[1, 2, 0, 1, 0, 1, 2, 1, 1, 0, 7]]) ∧
    ∃ sent p, fragmentTx (List.replicate 65 7) pqcMsgCt 1 0 pqcFlagNone record [] =
        (true, sent) ∧ sent[1]? = some p ∧
      sendFragmentSlice (List.replicate 65 7) pqcMsgCt 1 0 1 2 pqcFlagRetry record [] =
        (true, [p.set pqcHdrFlags pqcFlagRetry]) := by
  obtain ⟨sent, p, -, hp, hsent, hslice, -⟩ := retransmitted_slice (List.replicate 65 7) pqcMsgCt 1
    0 pqcFlagNone pqcFlagRetry record [] 1 (by decide)
  exact ⟨rfl, sent, p, hsent, hp, hslice⟩

end PqcContiki
