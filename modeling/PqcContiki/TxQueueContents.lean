import PqcContiki.TxQueue
import PqcContiki.Library.Pool

/-!
The queue as a multiset of datagrams: free slots and the selection of the next packet.
`WellFormed` is what every call keeps.
-/
namespace PqcContiki

namespace TxEntry

def datagram (e : TxEntry) : Datagram := ⟨e.udpConn, e.data, e.dest⟩

/-- An active entry agrees with the header of the packet it carries. -/
structure WellFormed (e : TxEntry) : Prop where
  conn : e.udpConn.isSome = true
  nodeId : e.nodeId = pqcHeaderGetNodeId e.data
  priority : e.priority = pqcTxPriorityForMsg (byteAt e.data pqcHdrMsgType)
  header : pqcHeaderValid e.data = true
  length : e.data.length ≤ pqcTxMaxPacketLen

end TxEntry

theorem pqcTxPriorityForMsg_le (msgType : UInt8) :
    pqcTxPriorityForMsg msgType ≤ pqcTxPriorityLow := by
  unfold pqcTxPriorityForMsg
  split_ifs <;> decide

theorem length_of_pqcHeaderValid {data : Bytes} (h : pqcHeaderValid data = true) :
    pqcHeaderLen ≤ data.length := by
  simp only [pqcHeaderValid, Bool.and_eq_true, decide_eq_true_eq] at h
  exact h.1.1

namespace TxQueue

variable {q : TxQueue} {idx : Fin pqcTxQueueSize}

/-- The datagram waiting in a slot. -/
def slots (q : TxQueue) (i : Fin pqcTxQueueSize) : Option Datagram :=
  if (q.txQueue i).active then some (q.txQueue i).datagram else none

def contents (q : TxQueue) : Multiset Datagram := Pool.contents q.slots

structure WellFormed (q : TxQueue) : Prop where
  count : q.txCount = q.contents.card
  tail : q.txTail < pqcTxQueueSize
  entry : ∀ i, (q.txQueue i).active = true → (q.txQueue i).WellFormed

theorem slots_of_active (h : (q.txQueue idx).active = true) :
    q.slots idx = some (q.txQueue idx).datagram := by
  simp [slots, h]

theorem slots_of_inactive (h : (q.txQueue idx).active = false) : q.slots idx = none := by
  simp [slots, h]

theorem active_of_slots {d : Datagram} (h : q.slots idx = some d) :
    (q.txQueue idx).active = true ∧ d = (q.txQueue idx).datagram := by
  unfold slots at h
  split at h
  · exact ⟨‹_›, (Option.some.inj h).symm⟩
  · simp at h

theorem slots_update (q : TxQueue) (idx : Fin pqcTxQueueSize) (e : TxEntry) (tail count : ℕ)
    (last : UInt16) :
    slots ⟨Function.update q.txQueue idx e, tail, count, last⟩ =
      Function.update q.slots idx (if e.active then some e.datagram else none) := by
  funext i
  by_cases hi : i = idx
  · subst i
    simp [slots]
  · simp [slots, hi]

theorem contents_init : contents pqcTxInit = 0 :=
  Pool.contents_empty (fun _ => slots_of_inactive rfl)

theorem wellFormed_init : WellFormed pqcTxInit where
  count := by rw [contents_init]; rfl
  tail := by decide
  entry := by
    intro i hi
    simp [pqcTxInit, TxEntry.zero] at hi

theorem WellFormed.count_le (h : q.WellFormed) : q.txCount ≤ pqcTxQueueSize := by
  rw [h.count, contents, Pool.card_contents]
  exact (Finset.card_le_univ _).trans_eq (Fintype.card_fin _)

theorem slotAfterTail_surjective (q : TxQueue) (i : Fin pqcTxQueueSize) :
    ∃ c < pqcTxQueueSize, q.slotAfterTail c = i := by
  have hi := i.isLt
  refine ⟨(i.val + (pqcTxQueueSize - q.txTail % pqcTxQueueSize)) % pqcTxQueueSize,
    Nat.mod_lt _ (by decide), ?_⟩
  apply Fin.ext
  simp only [slotAfterTail, pqcTxQueueSize] at hi ⊢
  omega

theorem inactive_of_findFreeSlot (h : q.pqcTxFindFreeSlot = some idx) :
    (q.txQueue idx).active = false := by
  simpa using List.find?_some h

theorem active_of_findFreeSlot_none (h : q.pqcTxFindFreeSlot = none) (i : Fin pqcTxQueueSize) :
    (q.txQueue i).active = true := by
  obtain ⟨c, hc, rfl⟩ := q.slotAfterTail_surjective i
  have hall := List.find?_eq_none.mp h (q.slotAfterTail c)
    (List.mem_map.mpr ⟨c, List.mem_range.mpr hc, rfl⟩)
  simpa using hall

/-- A well-formed queue that counts fewer than 96 packets has a free slot. -/
theorem findFreeSlot_isSome (h : q.WellFormed) (hc : q.txCount < pqcTxQueueSize) :
    ∃ idx, q.pqcTxFindFreeSlot = some idx := by
  cases hf : q.pqcTxFindFreeSlot with
  | some idx => exact ⟨idx, rfl⟩
  | none =>
    have hlt : (Pool.contents q.slots).card < Fintype.card (Fin pqcTxQueueSize) := by
      rw [Fintype.card_fin, ← contents, ← h.count]
      exact hc
    obtain ⟨i, hi⟩ := Pool.card_contents_lt_iff.mp hlt
    rw [slots_of_active (active_of_findFreeSlot_none hf i)] at hi
    cases hi

theorem contents_put (data : Bytes) (conn : UdpConn) (dest : IpAddr)
    (h : (q.txQueue idx).active = false) :
    (q.pqcTxPut idx data conn dest).contents = ⟨some conn, data, dest⟩ ::ₘ q.contents := by
  rw [contents, pqcTxPut, slots_update]
  exact Pool.contents_fill (slots_of_inactive h)

theorem wellFormed_put {data : Bytes} (conn : UdpConn) (dest : IpAddr) (h : q.WellFormed)
    (hidx : (q.txQueue idx).active = false) (hv : pqcHeaderValid data = true)
    (hlen : data.length ≤ pqcTxMaxPacketLen) : (q.pqcTxPut idx data conn dest).WellFormed where
  count := by
    rw [contents_put data conn dest hidx, Multiset.card_cons, ← h.count]
    rfl
  tail := Nat.mod_lt _ (by decide)
  entry := by
    intro i hi
    by_cases hne : i = idx
    · subst i
      simp only [pqcTxPut, Function.update_self]
      exact ⟨rfl, rfl, rfl, hv, hlen⟩
    · simp only [pqcTxPut, Function.update_of_ne hne] at hi ⊢
      exact h.entry i hi

/-- A packet and a send context none of whose pointers is null, within the queue's limits. -/
def Sendable (data : Bytes) : Prop :=
  data.length ≤ pqcTxMaxPacketLen ∧ pqcHeaderValid data = true

theorem pqcUdpSendFragment_eq {data : Bytes} (conn : UdpConn) (dest : IpAddr)
    (hs : Sendable data) (h : q.WellFormed) (hc : q.txCount < pqcTxQueueSize) :
    ∃ idx, (q.txQueue idx).active = false ∧
      q.pqcUdpSendFragment (some data) (some ⟨some conn, some dest⟩) =
        (true, q.pqcTxPut idx data conn dest) := by
  have h10 := length_of_pqcHeaderValid hs.2
  have hlen := hs.1
  obtain ⟨idx, hf⟩ := findFreeSlot_isSome h hc
  refine ⟨idx, inactive_of_findFreeSlot hf, ?_⟩
  simp only [pqcUdpSendFragment, hf, hs.2]
  rw [if_neg]
  simp only [pqcTxMaxPacketLen, pqcHeaderLen, not_true_eq_false, or_false] at h10 hlen ⊢
  omega

/-- Every call of `pqc_udp_send_fragment` refuses or stores exactly its packet. -/
theorem pqcUdpSendFragment_cases (q : TxQueue) (data : Option Bytes)
    (user : Option UdpSendCtx) :
    q.pqcUdpSendFragment data user = (false, q) ∨
      ∃ p conn dest idx, data = some p ∧ user = some ⟨some conn, some dest⟩ ∧ Sendable p ∧
        q.txCount < pqcTxQueueSize ∧ q.pqcTxFindFreeSlot = some idx ∧
        q.pqcUdpSendFragment data user = (true, q.pqcTxPut idx p conn dest) := by
  unfold pqcUdpSendFragment
  split
  · rename_i p conn dest
    split
    · exact Or.inl rfl
    · rename_i hok
      push Not at hok
      cases hf : q.pqcTxFindFreeSlot with
      | none => exact Or.inl rfl
      | some idx =>
        exact Or.inr ⟨p, conn, dest, idx, rfl, rfl, ⟨hok.2.1, hok.2.2.2⟩, hok.2.2.1, rfl, rfl⟩
  · exact Or.inl rfl

/-- The scan returns a slot of the class, or the candidate it was given. -/
theorem scanClass_some {priority : ℕ} {is : List (Fin pqcTxQueueSize)}
    {first : Option (Fin pqcTxQueueSize)} (h : q.pqcTxScanClass priority is first = some idx) :
    ((q.txQueue idx).active = true ∧ (q.txQueue idx).priority = priority) ∨
      first = some idx := by
  induction is generalizing first with
  | nil => exact Or.inr h
  | cons i is ih =>
    simp only [pqcTxScanClass] at h
    split at h
    · exact ih h
    · rename_i hc
      have hclass : (q.txQueue i).active = true ∧ (q.txQueue i).priority = priority := by
        simpa using hc
      split at h
      · exact Or.inl (Option.some.inj h ▸ hclass)
      · rcases ih h with hidx | hfirst
        · exact Or.inl hidx
        · cases first with
          | none => exact Or.inl (Option.some.inj hfirst ▸ hclass)
          | some j => exact Or.inr hfirst

theorem scanClass_none {priority : ℕ} {is : List (Fin pqcTxQueueSize)}
    {first : Option (Fin pqcTxQueueSize)} (h : q.pqcTxScanClass priority is first = none) :
    first = none ∧ ∀ i ∈ is, (q.txQueue i).active = true → (q.txQueue i).priority ≠ priority := by
  induction is generalizing first with
  | nil => exact ⟨h, by simp⟩
  | cons i is ih =>
    simp only [pqcTxScanClass] at h
    split at h
    · rename_i hc
      obtain ⟨hf, hall⟩ := ih h
      refine ⟨hf, ?_⟩
      intro j hj ha
      rcases List.mem_cons.mp hj with rfl | hj
      · simpa [ha] using hc
      · exact hall j hj ha
    · split at h
      · cases h
      · have hor := (ih h).1
        cases first <;> simp at hor

theorem active_of_selectSlot (h : q.pqcTxSelectSlot = some idx) :
    (q.txQueue idx).active = true := by
  obtain ⟨priority, -, hs⟩ := List.exists_of_findSome?_eq_some h
  rcases scanClass_some hs with hidx | hfirst
  · exact hidx.1
  · cases hfirst

theorem selectSlot_isSome (h : q.WellFormed) (hc : q.txCount ≠ 0) :
    ∃ idx, q.pqcTxSelectSlot = some idx := by
  cases hs : q.pqcTxSelectSlot with
  | some idx => exact ⟨idx, rfl⟩
  | none =>
    exfalso
    apply hc
    have hnone : ∀ i, q.slots i = none := by
      intro i
      by_contra hi
      obtain ⟨d, hd⟩ := Option.ne_none_iff_exists'.mp hi
      have ha := (active_of_slots hd).1
      have hp := (h.entry i ha).priority
      have hle := pqcTxPriorityForMsg_le (byteAt (q.txQueue i).data pqcHdrMsgType)
      have hclass : ∀ p ∈ [pqcTxPriorityHigh, pqcTxPriorityNormal, pqcTxPriorityLow],
          (q.txQueue i).priority ≠ p := by
        intro p hpm
        exact (scanClass_none (List.findSome?_eq_none_iff.mp hs p hpm)).2 i (by simp) ha
      simp only [List.mem_cons, List.not_mem_nil, or_false, forall_eq_or_imp, forall_eq,
        pqcTxPriorityHigh, pqcTxPriorityNormal, pqcTxPriorityLow] at hclass hle
      omega
    rw [h.count, contents, Pool.contents_empty hnone]
    rfl

/-- A non-empty well-formed queue sends one packet and keeps all the others. -/
theorem pqcTxProcess_eq (h : q.WellFormed) (hc : q.txCount ≠ 0) :
    ∃ d q', q.pqcTxProcess = (true, some d, q') ∧ q.contents = d ::ₘ q'.contents ∧
      q'.WellFormed := by
  obtain ⟨idx, hs⟩ := selectSlot_isSome h hc
  have ha := active_of_selectSlot hs
  have hconn := (h.entry idx ha).conn
  let q' : TxQueue :=
    { q with
      txLastNodeId := (q.txQueue idx).nodeId
      txQueue := Function.update q.txQueue idx TxEntry.zero
      txCount := q.txCount - 1 }
  have hcont : q.contents = (q.txQueue idx).datagram ::ₘ q'.contents := by
    rw [contents, contents, slots_update]
    exact Pool.contents_clear (slots_of_active ha)
  refine ⟨(q.txQueue idx).datagram, q', ?_, hcont, ?_⟩
  · simp only [pqcTxProcess, if_neg hc, hs, ha, hconn]
    rfl
  · refine ⟨?_, h.tail, ?_⟩
    · have hcard := congrArg Multiset.card hcont
      rw [Multiset.card_cons, ← h.count] at hcard
      change q.txCount - 1 = _
      omega
    · intro i hi
      by_cases hne : i = idx
      · subst i
        simp [q', TxEntry.zero] at hi
      · simp only [q', Function.update_of_ne hne] at hi ⊢
        exact h.entry i hi

theorem pqcTxProcess_idle (hc : q.txCount = 0) : q.pqcTxProcess = (false, none, q) := by
  simp [pqcTxProcess, hc]

end TxQueue

end PqcContiki
