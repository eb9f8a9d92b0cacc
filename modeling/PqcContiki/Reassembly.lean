import PqcContiki.Fragmentation

/-!
What a reassembly context knows of a message: `Reassembling m ctx` ties the
bitmap, both counters and the buffer to the fragments of `m` received so far.
-/
namespace PqcContiki

open Memory

/-- A message `fragment_tx` can carry. -/
structure Message where
  data : Bytes
  length_pos : 0 < data.length
  length_le : data.length ≤ fragMaxMessageLen

namespace Message

variable {m : Message} {i k : ℕ}

/-- The number of fragments of a message. -/
def count (m : Message) : ℕ := fragmentTxCount m.data.length

/-- The bytes fragment `i` carries. -/
def payload (m : Message) (i : ℕ) : Bytes :=
  (m.data.drop (i * fragMaxPayloadLen)).take fragMaxPayloadLen

/-- Fragment `i` of a message as both senders frame it. -/
def packet (m : Message) (msgType : UInt8) (nodeId : UInt16) (msgId flags : UInt8) (i : ℕ) :
    Bytes :=
  pqcHeaderWrite msgType nodeId msgId i m.count (m.payload i).length flags ++ m.payload i

theorem count_eq (m : Message) : m.count = (m.data.length + 63) / 64 := by
  have h0 := m.length_pos
  have h1 := m.length_le
  simp only [count, fragmentTxCount, fragMaxPayloadLen, fragMaxFrags, fragMaxMessageLen] at h1 ⊢
  rw [if_neg (by omega), if_neg (by omega)]
  omega

theorem count_pos (m : Message) : 0 < m.count := by
  have h0 := m.length_pos
  rw [count_eq]
  omega

theorem count_le (m : Message) : m.count ≤ fragMaxFrags := by
  have h1 := m.length_le
  rw [count_eq]
  simp only [fragMaxFrags, fragMaxMessageLen, fragMaxPayloadLen] at h1 ⊢
  omega

theorem payload_length (m : Message) (i : ℕ) :
    (m.payload i).length = min 64 (m.data.length - i * 64) := by
  simp [payload, fragMaxPayloadLen]

theorem payload_length_le (m : Message) (i : ℕ) : (m.payload i).length ≤ fragMaxPayloadLen := by
  rw [payload_length]
  exact Nat.min_le_left _ _

theorem payload_getElem (h : k < (m.payload i).length) :
    (m.payload i)[k] = m.data.getD (i * 64 + k) 0 := by
  have hk := h
  rw [payload_length] at hk
  simp only [payload, List.getElem_take, List.getElem_drop, fragMaxPayloadLen]
  rw [List.getD_eq_getElem _ _ (by omega)]

/-- A fragment below the count lies inside the receiver's buffer. -/
theorem inBounds (hi : i < m.count) :
    FragmentInBounds i m.count (m.payload i).length := by
  have h1 := m.length_le
  have hlen := m.payload_length i
  have hc := m.count_eq
  refine ⟨by omega, hi, m.count_le, m.payload_length_le i, ?_⟩
  simp only [fragMaxPayloadLen, fragMaxMessageLen] at h1 ⊢
  omega

theorem fragmentTxPacket_eq (m : Message) (msgType : UInt8) (nodeId : UInt16)
    (msgId flags : UInt8) (i : ℕ) :
    fragmentTxPacket m.data msgType nodeId msgId flags m.count i =
      m.packet msgType nodeId msgId flags i := by
  have hlen := m.payload_length i
  simp only [fragmentTxPacket, packet, fragMaxPayloadLen] at hlen ⊢
  have hfl : (if m.data.length - i * 64 > 64 then 64 else m.data.length - i * 64) =
      (m.payload i).length := by
    split <;> omega
  have htake : (m.data.drop (i * 64)).take (m.payload i).length = m.payload i := by
    rw [hlen, payload, fragMaxPayloadLen]
    apply List.ext_getElem <;> simp
  rw [hfl, htake]

/-- A message of the code's maximal size loses nothing in the header: every field comes back. -/
theorem parse_packet {msgType msgId flags : UInt8} {nodeId : UInt16} (hi : i < m.count) :
    parseFragmentHeader (m.packet msgType nodeId msgId flags i) =
      some ⟨msgType, nodeId, msgId, i, m.count, (m.payload i).length⟩ := by
  have hc := m.count_le
  have hp := m.payload_length_le i
  simp only [fragMaxFrags, fragMaxMessageLen, fragMaxPayloadLen] at hc hp
  have hidx : (UInt8.ofNat i).toNat = i := by simp; omega
  have htot : (UInt8.ofNat m.count).toNat = m.count := by simp; omega
  have hpay : (UInt8.ofNat (m.payload i).length).toNat = (m.payload i).length := by simp; omega
  simp only [parseFragmentHeader, packet, byteAt_version_write, byteAt_msgType_write,
    byteAt_msgId_write, byteAt_fragIdx_write, byteAt_totalFrags_write, byteAt_payloadLen_write,
    pqcHeaderGetNodeId_write, List.length_append, pqcHeaderWrite_length, hidx, htot, hpay,
    fragHeaderLen, pqcHeaderLen, fragMaxFrags, fragMaxMessageLen, fragMaxPayloadLen]
  rw [if_neg (by simp), if_neg (by omega), if_pos (by omega)]

theorem payload_packet {msgType msgId flags : UInt8} {nodeId : UInt16} (hdr : FragmentHeader)
    (hlen : hdr.fragLen = (m.payload i).length) :
    hdr.payload (m.packet msgType nodeId msgId flags i) = m.payload i := by
  rw [FragmentHeader.payload, packet, hlen,
    List.drop_left' (show (pqcHeaderWrite _ _ _ _ _ _ _).length = fragHeaderLen from rfl),
    List.take_length]

theorem valid_packet {msgType msgId flags : UInt8} {nodeId : UInt16} :
    pqcHeaderValid (m.packet msgType nodeId msgId flags i) = true :=
  pqcHeaderValid_write rfl

end Message

/-- The bytes of a message that the first `n` fragments carry. -/
theorem sum_payload_length (m : Message) (n : ℕ) :
    ∑ i ∈ Finset.range n, (m.payload i).length = min m.data.length (n * 64) := by
  induction n with
  | zero => simp
  | succ n ih =>
    rw [Finset.sum_range_succ, ih, m.payload_length]
    omega

/-- `ctx` is an active context of message `m`: it holds a set of its fragments and no more. -/
structure Reassembling (m : Message) (ctx : FragmentRxCtx) : Prop where
  active : ctx.active = true
  total : ctx.totalFrags = m.count
  bound : ∀ i, ctx.bitmap i = true → i < m.count
  frags : ctx.receivedFrags = population ctx.bitmap m.count
  len : ctx.receivedLen =
    ∑ i ∈ (Finset.range m.count).filter (fun i => ctx.bitmap i = true), (m.payload i).length
  bytes : ∀ i k, ctx.bitmap i = true → i * 64 ≤ k → k < i * 64 + (m.payload i).length →
    ctx.buffer k = m.data.getD k 0

namespace Reassembling

variable {m : Message} {ctx : FragmentRxCtx} {i : ℕ}

/-- Any set of fragments carries at most the whole message, so the length never wraps. -/
theorem sum_filter_le (m : Message) (bits : ℕ → Bool) :
    ∑ i ∈ (Finset.range m.count).filter (fun i => bits i = true), (m.payload i).length ≤
      fragMaxMessageLen := by
  have h := Finset.sum_le_sum_of_subset (f := fun i => (m.payload i).length)
    (Finset.filter_subset (fun i => bits i = true) (Finset.range m.count))
  have hall := sum_payload_length m m.count
  have hle := m.length_le
  omega

/-- A claimed zero context holds the empty set of fragments. -/
theorem claim_init (m : Message) (msgType : UInt8) (nodeId : UInt16) (msgId : UInt8) :
    Reassembling m (fragmentRxInit.claim msgType nodeId msgId m.count) := by
  constructor <;> simp [FragmentRxCtx.claim, fragmentRxInit, population_false]

/-- Storing fragment `i` of the message adds index `i` to the set that is held. -/
theorem store (h : Reassembling m ctx) (hi : i < m.count) :
    Reassembling m (ctx.store i (m.payload i)) := by
  by_cases hb : ctx.bitmap i = true
  · simpa [FragmentRxCtx.store, hb] using h
  have hb : ctx.bitmap i = false := by simpa using hb
  have hpop := population_update hi hb
  have hcount := m.count_le
  have hple := population_le (Function.update ctx.bitmap i true) m.count
  have hset : _ = insert i ((Finset.range m.count).filter (fun j => ctx.bitmap j = true)) :=
    filter_update_true hi
  have hsum := sum_filter_le m (Function.update ctx.bitmap i true)
  simp only [fragMaxFrags, fragMaxMessageLen, fragMaxPayloadLen] at hcount hsum
  rw [hset, Finset.sum_insert (by simp [hb])] at hsum
  constructor
  case active => simpa [FragmentRxCtx.store, hb] using h.active
  case total => simpa [FragmentRxCtx.store, hb] using h.total
  case bound =>
    intro j hj
    by_cases hji : j = i
    · exact hji ▸ hi
    · simp only [FragmentRxCtx.store, hb, Bool.false_eq_true, if_false,
        Function.update_of_ne hji] at hj
      exact h.bound j hj
  case frags =>
    simp only [FragmentRxCtx.store, hb, Bool.false_eq_true, if_false, h.frags, hpop]
    omega
  case len =>
    simp only [FragmentRxCtx.store, hb, Bool.false_eq_true, if_false, h.len, hset]
    rw [Finset.sum_insert (by simp [hb])]
    omega
  case bytes =>
    intro j k hj hlo hhi
    simp only [FragmentRxCtx.store, hb, Bool.false_eq_true, if_false, fragMaxPayloadLen] at hj ⊢
    by_cases hji : j = i
    · subst j
      rw [blit_inside hlo hhi, Message.payload_getElem, Nat.add_sub_cancel' hlo]
    · have hlj := m.payload_length_le j
      have hli := m.payload_length_le i
      simp only [fragMaxPayloadLen] at hlj hli
      -- two different blocks of 64 bytes do not meet
      rw [blit_outside (by omega)]
      exact h.bytes j k (by simpa [Function.update_of_ne hji] using hj) hlo hhi

theorem store_bitmap (ctx : FragmentRxCtx) (i : ℕ) (data : Bytes) (j : ℕ) :
    (ctx.store i data).bitmap j = true ↔ ctx.bitmap j = true ∨ j = i := by
  unfold FragmentRxCtx.store
  split
  · rename_i hb
    constructor
    · exact Or.inl
    · rintro (hj | rfl)
      · exact hj
      · exact hb
  · by_cases hji : j = i
    · simp [hji]
    · simp [hji]

theorem complete_iff (h : Reassembling m ctx) :
    fragmentRxComplete ctx = true ↔ ∀ i < m.count, ctx.bitmap i = true := by
  simp only [fragmentRxComplete, h.active, Bool.true_and, beq_iff_eq, h.total, h.frags]
  exact population_eq_iff

/-- A complete context counts the length of the whole message. -/
theorem len_of_complete (h : Reassembling m ctx) (hc : fragmentRxComplete ctx = true) :
    fragmentRxLen ctx = m.data.length := by
  have hall := h.complete_iff.mp hc
  have hcount := m.count_eq
  simp only [fragmentRxLen, hc, if_true, h.len]
  rw [Finset.filter_true_of_mem (fun i hi => hall i (Finset.mem_range.mp hi)),
    sum_payload_length]
  omega

/-- A complete context holds every byte of the message. -/
theorem byte_of_complete (h : Reassembling m ctx) (hc : fragmentRxComplete ctx = true)
    {k : ℕ} (hk : k < m.data.length) : ctx.buffer k = m.data.getD k 0 := by
  have hall := h.complete_iff.mp hc
  have hcount := m.count_eq
  have hlen := m.payload_length (k / 64)
  exact h.bytes (k / 64) k (hall _ (by omega)) (by omega) (by omega)

end Reassembling

end PqcContiki
