import PqcContiki.Sending

/-! What is sent in answer to a NACK, and the NACK of a reassembly context. -/
namespace PqcContiki

variable {m : Message} {ctx : FragmentRxCtx} {msgType msgId flags : UInt8} {nodeId : UInt16}

/-- A context of message `m` under its key. -/
structure Held (m : Message) (msgType : UInt8) (nodeId : UInt16) (msgId : UInt8)
    (ctx : FragmentRxCtx) : Prop where
  holds : Reassembling m ctx
  key : ctx.Matches msgType nodeId msgId m.count

theorem Held.receive {i : ℕ} (h : Held m msgType nodeId msgId ctx) (hi : i < m.count) :
    (Arrival.packet (m.packet msgType nodeId msgId flags i)).receive ctx =
      (true, ctx.store i (m.payload i)) := by
  have hclaim : ctx.claim msgType nodeId msgId m.count = ctx := by
    simp [FragmentRxCtx.claim, h.holds.active]
  rw [receive_packet hi (fun _ => h.key), hclaim]

theorem Held.store {i : ℕ} (h : Held m msgType nodeId msgId ctx) (hi : i < m.count) :
    Held m msgType nodeId msgId (ctx.store i (m.payload i)) :=
  ⟨h.holds.store hi, store_matches h.key _⟩

/-- Fragments of the message fed one after another are all accepted and all kept. -/
theorem Held.receiveAll (flags : UInt8) {is : List ℕ} (h : Held m msgType nodeId msgId ctx)
    (his : ∀ i ∈ is, i < m.count) :
    let ctx' := receiveAll ctx ((is.map (m.packet msgType nodeId msgId flags)).map .packet)
    Held m msgType nodeId msgId ctx' ∧
      ∀ j, ctx'.bitmap j = true ↔ ctx.bitmap j = true ∨ j ∈ is := by
  induction is generalizing ctx with
  | nil => exact ⟨h, by simp [PqcContiki.receiveAll]⟩
  | cons i is ih =>
    have hi := his i (by simp)
    obtain ⟨hheld, hbits⟩ := ih (h.store hi) (fun j hj => his j (by simp [hj]))
    simp only [List.map_cons, PqcContiki.receiveAll, List.foldl_cons, h.receive hi]
      at hheld hbits ⊢
    refine ⟨hheld, ?_⟩
    intro j
    rw [hbits, Reassembling.store_bitmap, List.mem_cons, or_assoc]

theorem Held.complete_iff (h : Held m msgType nodeId msgId ctx) :
    fragmentRxComplete ctx = true ↔ ctx.missing m.count = [] := by
  rw [h.holds.complete_iff]
  simp only [FragmentRxCtx.missing, List.filter_eq_nil_iff, List.mem_range]
  simp

/-- `nack` asks for the first missing fragments of `ctx`. -/
structure Lists (m : Message) (msgType msgId : UInt8) (ctx : FragmentRxCtx) (nack : PqcNack) :
    Prop where
  msgType : nack.missingMsgType = msgType
  msgId : nack.missingMsgId = msgId
  total : nack.totalFrags = m.count
  indices : nack.indices = (ctx.missing m.count).take pqcNackMaxMissing

theorem Lists.count {nack : PqcNack} (h : Lists m msgType msgId ctx nack) :
    nack.missingCount = min pqcNackMaxMissing (ctx.missing m.count).length := by
  rw [← length_indices, h.indices, List.length_take]

theorem Held.nack (h : Held m msgType nodeId msgId ctx) (hne : ctx.missing m.count ≠ []) :
    ∃ nack : PqcNack,
      pqcNackBuildFromRx ctx (pqcNackInit 0 0 0) pqcNackMaxMissing = (nack.missingCount, nack) ∧
        nack.Encodable ∧ Lists m msgType msgId ctx nack := by
  obtain ⟨ht, -, hid, htot⟩ := h.key
  have hpos := m.count_pos
  have hle := m.count_le
  have henc := pqcNackBuildFromRx_encodable (pqcNackInit 0 0 0) pqcNackMaxMissing h.holds.active
    (by omega) (htot ▸ hle) (htot ▸ hne)
  obtain ⟨hidx, hcnt, hty, hmid, htt⟩ := pqcNackBuildFromRx_spec (pqcNackInit 0 0 0)
    pqcNackMaxMissing h.holds.active (by omega) (htot ▸ hle)
  generalize pqcNackBuildFromRx ctx (pqcNackInit 0 0 0) pqcNackMaxMissing = built at *
  obtain ⟨count, nack⟩ := built
  dsimp only at hidx hcnt hty hmid htt
  rw [htot] at hidx htt
  have hlists : Lists m msgType msgId ctx nack := ⟨hty.trans ht, hmid.trans hid, htt, hidx⟩
  exact ⟨nack, by rw [hcnt], henc, hlists⟩

/-- The payload of a NACK, as a message of its own. -/
def nackMessage {nack : PqcNack} (h : nack.Encodable) : Message where
  data := [nack.missingMsgType, nack.missingMsgId, UInt8.ofNat nack.totalFrags,
    UInt8.ofNat nack.missingCount] ++ nack.indices.map UInt8.ofNat
  length_pos := by simp
  length_le := by
    have := h.count_le
    simp only [List.length_append, List.length_cons, List.length_nil, List.length_map,
      length_indices, pqcNackMaxMissing, fragMaxMessageLen] at this ⊢
    omega

theorem nackMessage_count {nack : PqcNack} (h : nack.Encodable) : (nackMessage h).count = 1 := by
  have hle := h.count_le
  rw [Message.count_eq]
  simp only [nackMessage, List.length_append, List.length_cons, List.length_nil, List.length_map,
    length_indices, pqcNackMaxMissing] at hle ⊢
  omega

theorem encode_eq_nackMessage {nack : PqcNack} (h : nack.Encodable) :
    pqcNackEncode nack pqcNackMaxPayloadLen = some (nackMessage h).data :=
  pqcNackEncode_eq h

/-- The decoder recovers what a NACK lists. -/
theorem Lists.decode {nack : PqcNack} (h : Lists m msgType msgId ctx nack)
    (henc : nack.Encodable) :
    ∃ nack', pqcNackDecode (nackMessage henc).data = some nack' ∧
      Lists m msgType msgId ctx nack' := by
  refine ⟨_, pqcNackDecode_encode henc, h.msgType, h.msgId, h.total, ?_⟩
  rw [← h.indices]
  apply List.map_congr_left
  intro k hk
  simp [List.mem_range.mp hk]

end PqcContiki
