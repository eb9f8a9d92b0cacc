import PqcContiki.Reassembly

/-! Every delivery of a message's fragments, in any order and with any repetition. -/
namespace PqcContiki

/-- A `send_fn` that keeps what it is handed. -/
def record (p : Bytes) (sent : List Bytes) : Bool × List Bytes := (true, sent ++ [p])

theorem sendAll_record (ps sent : List Bytes) : sendAll record ps sent = (true, sent ++ ps) := by
  induction ps generalizing sent with
  | nil => simp [sendAll]
  | cons p ps ih => simp [sendAll, record, ih]

/-- Walking through the data, the loop writes what each pass finds at its own offset. -/
theorem fragmentTxPackets_eq (data : Bytes) (msgType : UInt8) (nodeId : UInt16)
    (msgId flags : UInt8) (totalFrags i n : ℕ) :
    fragmentTxPackets data.length msgType nodeId msgId flags totalFrags i n
        (data.drop (i * fragMaxPayloadLen)) =
      (List.range' i n).map (fragmentTxPacket data msgType nodeId msgId flags totalFrags) := by
  induction n generalizing i with
  | zero => rfl
  | succ n ih =>
    have hnext : (data.drop (i * fragMaxPayloadLen)).drop fragMaxPayloadLen =
        data.drop ((i + 1) * fragMaxPayloadLen) := by
      rw [List.drop_drop, Nat.succ_mul]
    rw [fragmentTxPackets, hnext, ih, List.range'_succ, List.map_cons]
    rfl

/-- `fragment_tx` on a sendable message is `send_fn` on its packets, in order. -/
theorem fragmentTx_eq {σ : Type*} (m : Message) (msgType : UInt8) (nodeId : UInt16)
    (msgId flags : UInt8) (sendFn : Bytes → σ → Bool × σ) (user : σ) :
    fragmentTx m.data msgType nodeId msgId flags sendFn user =
      sendAll sendFn ((List.range m.count).map (m.packet msgType nodeId msgId flags)) user := by
  have hp : 0 < fragmentTxCount m.data.length := m.count_pos
  have hl := m.length_pos
  have hfun : fragmentTxPacket m.data msgType nodeId msgId flags m.count =
      m.packet msgType nodeId msgId flags := by
    funext i
    exact m.fragmentTxPacket_eq msgType nodeId msgId flags i
  have hwalk := fragmentTxPackets_eq m.data msgType nodeId msgId flags m.count 0 m.count
  rw [Nat.zero_mul, List.drop_zero, ← List.range_eq_range', hfun] at hwalk
  rw [fragmentTx, if_neg (by omega), if_neg (by omega), ← hwalk]
  rfl

/-- What reaches a reassembly context: a datagram, or a fragment with arbitrary fields. -/
inductive Arrival where
  | packet (p : Bytes)
  | fragment (msgType : UInt8) (nodeId : UInt16) (msgId : UInt8) (fragIdx totalFrags : ℕ)
      (data : Bytes)

/-- A datagram is parsed first and its payload taken behind the header. -/
def Arrival.receive (ctx : FragmentRxCtx) : Arrival → Bool × FragmentRxCtx
  | .packet p =>
    match parseFragmentHeader p with
    | none => (false, ctx)
    | some hdr =>
      fragmentRxAdd ctx hdr.msgType hdr.nodeId hdr.msgId hdr.fragIdx hdr.totalFrags
        (hdr.payload p)
  | .fragment msgType nodeId msgId fragIdx totalFrags data =>
    fragmentRxAdd ctx msgType nodeId msgId fragIdx totalFrags data

def receiveAll (ctx : FragmentRxCtx) (xs : List Arrival) : FragmentRxCtx :=
  xs.foldl (fun ctx a => (a.receive ctx).2) ctx

/-- A fragment of some other message than the one with these fields. -/
def Arrival.Foreign (msgType : UInt8) (nodeId : UInt16) (msgId : UInt8) (totalFrags : ℕ) :
    Arrival → Prop
  | .packet _ => False
  | .fragment msgType' nodeId' msgId' _ totalFrags' _ =>
    msgType' ≠ msgType ∨ nodeId' ≠ nodeId ∨ msgId' ≠ msgId ∨ totalFrags' ≠ totalFrags

section Deliveries

variable {m : Message} {msgType msgId flags : UInt8} {nodeId : UInt16} {ctx : FragmentRxCtx}
  {i j : ℕ} {a : Arrival} {seen : List Arrival}

theorem packet_injective (hi : i < m.count) (hj : j < m.count)
    (h : m.packet msgType nodeId msgId flags i = m.packet msgType nodeId msgId flags j) :
    i = j := by
  have hp : parseFragmentHeader (m.packet msgType nodeId msgId flags i) = _ := m.parse_packet hi
  rw [h, m.parse_packet hj] at hp
  simpa using congrArg FragmentHeader.fragIdx (Option.some.inj hp).symm

/-- A context free for the message, or already its own, accepts each of its packets. -/
theorem receive_packet (hi : i < m.count)
    (hk : ctx.active = true → ctx.Matches msgType nodeId msgId m.count) :
    (Arrival.packet (m.packet msgType nodeId msgId flags i)).receive ctx =
      (true, (ctx.claim msgType nodeId msgId m.count).store i (m.payload i)) := by
  simp only [Arrival.receive, m.parse_packet hi]
  rw [Message.payload_packet _ rfl, fragmentRxAdd, if_neg (by simpa using m.inBounds hi),
    if_neg (by tauto)]

theorem receive_foreign (hactive : ctx.active = true)
    (hk : ctx.Matches msgType nodeId msgId m.count)
    (hf : a.Foreign msgType nodeId msgId m.count) : a.receive ctx = (false, ctx) := by
  cases a with
  | packet p => exact hf.elim
  | fragment msgType' nodeId' msgId' fragIdx totalFrags' data =>
    have hne : ¬ ctx.Matches msgType' nodeId' msgId' totalFrags' := by
      rintro ⟨h1, h2, h3, h4⟩
      obtain ⟨k1, k2, k3, k4⟩ := hk
      rcases hf with hf | hf | hf | hf
      · exact hf (h1.symm.trans k1)
      · exact hf (h2.symm.trans k2)
      · exact hf (h3.symm.trans k3)
      · exact hf (h4.symm.trans k4)
    simp [Arrival.receive, fragmentRxAdd, hactive, hne]

/-- The context after the arrivals `seen`: it holds exactly the packets that occurred. -/
structure Received (m : Message) (msgType : UInt8) (nodeId : UInt16) (msgId flags : UInt8)
    (seen : List Arrival) (ctx : FragmentRxCtx) : Prop where
  holds : Reassembling m ctx
  key : ctx.Matches msgType nodeId msgId m.count
  bits : ∀ i < m.count, ctx.bitmap i = true ↔
    Arrival.packet (m.packet msgType nodeId msgId flags i) ∈ seen

theorem store_matches (h : ctx.Matches msgType nodeId msgId m.count) (data : Bytes) :
    (ctx.store i data).Matches msgType nodeId msgId m.count := by
  unfold FragmentRxCtx.store
  split <;> exact h

theorem mem_append_packet (hi : i < m.count) (hj : j < m.count) :
    Arrival.packet (m.packet msgType nodeId msgId flags j) ∈
        seen ++ [.packet (m.packet msgType nodeId msgId flags i)] ↔
      Arrival.packet (m.packet msgType nodeId msgId flags j) ∈ seen ∨ j = i := by
  constructor
  · intro h
    rcases List.mem_append.mp h with h | h
    · exact Or.inl h
    · rw [List.mem_singleton] at h
      exact Or.inr (packet_injective hj hi (Arrival.packet.inj h))
  · rintro (h | rfl)
    · exact List.mem_append_left _ h
    · simp

theorem received_first (hi : i < m.count) :
    Received m msgType nodeId msgId flags [.packet (m.packet msgType nodeId msgId flags i)]
      ((Arrival.packet (m.packet msgType nodeId msgId flags i)).receive fragmentRxInit).2 := by
  rw [receive_packet hi (by simp [fragmentRxInit])]
  refine ⟨(Reassembling.claim_init m msgType nodeId msgId).store hi, ?_, ?_⟩
  · exact store_matches (by simp [FragmentRxCtx.claim, fragmentRxInit, FragmentRxCtx.Matches]) _
  · intro j hj
    have hm : Arrival.packet (m.packet msgType nodeId msgId flags j) ∈
        [] ++ [.packet (m.packet msgType nodeId msgId flags i)] ↔ _ := mem_append_packet hi hj
    rw [Reassembling.store_bitmap]
    simpa [FragmentRxCtx.claim, fragmentRxInit] using hm.symm

theorem received_packet (h : Received m msgType nodeId msgId flags seen ctx) (hi : i < m.count) :
    Received m msgType nodeId msgId flags
      (seen ++ [.packet (m.packet msgType nodeId msgId flags i)])
      ((Arrival.packet (m.packet msgType nodeId msgId flags i)).receive ctx).2 := by
  have hclaim : ctx.claim msgType nodeId msgId m.count = ctx := by
    simp [FragmentRxCtx.claim, h.holds.active]
  rw [receive_packet hi (fun _ => h.key), hclaim]
  refine ⟨h.holds.store hi, store_matches h.key _, ?_⟩
  intro j hj
  rw [Reassembling.store_bitmap, mem_append_packet hi hj, h.bits j hj]

theorem received_foreign (h : Received m msgType nodeId msgId flags seen ctx)
    (hf : a.Foreign msgType nodeId msgId m.count) :
    Received m msgType nodeId msgId flags (seen ++ [a]) (a.receive ctx).2 := by
  rw [receive_foreign h.holds.active h.key hf]
  refine ⟨h.holds, h.key, ?_⟩
  intro j hj
  rw [h.bits j hj]
  cases a with
  | packet p => exact hf.elim
  | fragment => simp

/-- An arrival of the message or of a foreign one. -/
def Admissible (m : Message) (msgType : UInt8) (nodeId : UInt16) (msgId flags : UInt8)
    (a : Arrival) : Prop :=
  (∃ i < m.count, a = .packet (m.packet msgType nodeId msgId flags i)) ∨
    a.Foreign msgType nodeId msgId m.count

theorem received_all {xs : List Arrival}
    (h : Received m msgType nodeId msgId flags seen ctx)
    (hx : ∀ a ∈ xs, Admissible m msgType nodeId msgId flags a) :
    Received m msgType nodeId msgId flags (seen ++ xs) (receiveAll ctx xs) := by
  induction xs generalizing seen ctx with
  | nil => simpa [receiveAll] using h
  | cons a xs ih =>
    have hstep : Received m msgType nodeId msgId flags (seen ++ [a]) (a.receive ctx).2 := by
      rcases hx a (by simp) with ⟨i, hi, rfl⟩ | hf
      · exact received_packet h hi
      · exact received_foreign h hf
    simpa [receiveAll] using ih hstep (fun b hb => hx b (by simp [hb]))

end Deliveries

/-- The bytes a complete context hands out are those of the message. -/
theorem complete_bytes {m : Message} {ctx : FragmentRxCtx} (h : Reassembling m ctx)
    (hc : fragmentRxComplete ctx = true) :
    (List.range m.data.length).map ctx.buffer = m.data := by
  apply List.ext_getElem
  · simp
  · intro k hk hk'
    have hd := List.getD_eq_getElem m.data 0 hk'
    simpa using (h.byte_of_complete hc hk').trans hd

theorem fragmentation_round_trip (data : Bytes) (hpos : 1 ≤ data.length)
    (hle : data.length ≤ fragMaxMessageLen) (msgType : UInt8) (nodeId : UInt16)
    (msgId flags : UInt8) :
    let sent := (fragmentTx data msgType nodeId msgId flags record []).2
    (∀ i (h : i < sent.length), parseFragmentHeader sent[i] =
      some ⟨msgType, nodeId, msgId, i, sent.length, min 64 (data.length - i * 64)⟩) ∧
    ∀ first ∈ sent, ∀ xs : List Arrival,
      (∀ a ∈ xs, (∃ p ∈ sent, a = .packet p) ∨
        a.Foreign msgType nodeId msgId sent.length) →
      let seen := .packet first :: xs
      let ctx := receiveAll fragmentRxInit seen
      ((Arrival.packet first).receive fragmentRxInit).1 = true ∧
      (∀ p ∈ sent, ((Arrival.packet p).receive ctx).1 = true) ∧
      (∀ a : Arrival, a.Foreign msgType nodeId msgId sent.length →
        a.receive ctx = (false, ctx)) ∧
      (fragmentRxComplete ctx = true ↔ ∀ p ∈ sent, .packet p ∈ seen) ∧
      (fragmentRxComplete ctx = true → fragmentRxLen ctx = data.length ∧
        ∃ buffer, fragmentRxData ctx = some buffer ∧
          (List.range data.length).map buffer = data) := by
  let m : Message := ⟨data, hpos, hle⟩
  have hsent : (fragmentTx data msgType nodeId msgId flags record []).2 =
      (List.range m.count).map (m.packet msgType nodeId msgId flags) := by
    rw [show data = m.data from rfl, fragmentTx_eq, sendAll_record]
    rfl
  simp only [hsent, List.length_map, List.length_range, List.getElem_map, List.getElem_range]
  refine ⟨?_, ?_⟩
  · intro i hi
    rw [m.parse_packet hi, m.payload_length]
  · intro first hfirst xs hxs
    obtain ⟨i, hi, rfl⟩ := List.mem_map.mp hfirst
    have hi := List.mem_range.mp hi
    have hadm : ∀ a ∈ xs, Admissible m msgType nodeId msgId flags a := by
      intro a ha
      rcases hxs a ha with ⟨p, hp, rfl⟩ | hf
      · obtain ⟨j, hj, rfl⟩ := List.mem_map.mp hp
        exact Or.inl ⟨j, List.mem_range.mp hj, rfl⟩
      · exact Or.inr hf
    have hfirst : Received m msgType nodeId msgId flags _ _ := received_first hi
    have hr := received_all hfirst hadm
    have hmem : ∀ P : Bytes → Prop,
        (∀ p ∈ (List.range m.count).map (m.packet msgType nodeId msgId flags), P p) ↔
          ∀ j < m.count, P (m.packet msgType nodeId msgId flags j) := by
      intro P
      simp
    simp only [List.singleton_append] at hr
    refine ⟨?_, ?_, ?_, ?_, ?_⟩
    · rw [receive_packet hi (by simp [fragmentRxInit])]
    · rw [hmem]
      intro j hj
      exact congrArg Prod.fst (receive_packet hj (fun _ => hr.key))
    · intro a ha
      exact receive_foreign hr.holds.active hr.key ha
    · rw [hmem]
      refine hr.holds.complete_iff.trans ⟨?_, ?_⟩
      · intro hall j hj
        exact (hr.bits j hj).mp (hall j hj)
      · intro hall j hj
        exact (hr.bits j hj).mpr (hall j hj)
    · intro hc
      exact ⟨hr.holds.len_of_complete hc, _, if_pos hc, complete_bytes hr.holds hc⟩

/-- The two fragments of a 65-byte message, the one-byte fragment first. -/
theorem fragmentation_round_trip_reversed :
    let data : Bytes := List.replicate 65 7
    let sent := (fragmentTx data pqcMsgCt 5 0 pqcFlagNone record []).2
    let ctx := receiveAll fragmentRxInit [.packet (sent.getD 1 []), .packet (sent.getD 0 [])]
    fragmentRxComplete ctx = true ∧ fragmentRxLen ctx = 65 ∧
      ∃ buffer, fragmentRxData ctx = some buffer ∧ (List.range 65).map buffer = data := by
  intro data sent ctx
  have htwo : sent = [sent.getD 0 [], sent.getD 1 []] := by decide
  have h := (fragmentation_round_trip data (by decide) (by decide) pqcMsgCt 5 0 pqcFlagNone).2
    (sent.getD 1 []) (by decide) [.packet (sent.getD 0 [])]
    (by
      intro a ha
      refine Or.inl ⟨sent.getD 0 [], by decide, ?_⟩
      simpa using ha)
  have hc : fragmentRxComplete ctx = true := by
    refine h.2.2.2.1.mpr ?_
    intro p hp
    change p ∈ sent at hp
    rw [htwo] at hp
    simp only [List.mem_cons, List.not_mem_nil, or_false] at hp
    rcases hp with rfl | rfl <;> simp
  exact ⟨hc, h.2.2.2.2 hc⟩

end PqcContiki
