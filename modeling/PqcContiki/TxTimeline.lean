import PqcContiki.TxQueueSafety
import PqcContiki.Library.Runs

/-! The TX queue on a timeline: when each packet was accepted, and which one is selected. -/
namespace PqcContiki.TxQueue

open Runs

variable {q : TxQueue} {idx i j : Fin pqcTxQueueSize}

/-- Two entries compete: they are for the same node and in the same class. -/
def Rivals (e e' : TxEntry) : Prop := e.nodeId = e'.nodeId ∧ e.priority = e'.priority

/-- A candidate kept from before is served if the slot served is for the node served last. -/
theorem scanClass_first {priority : ℕ} {is : List (Fin pqcTxQueueSize)}
    {first : Option (Fin pqcTxQueueSize)} (h : q.pqcTxScanClass priority is first = some idx)
    (hlast : (q.txQueue idx).nodeId = q.txLastNodeId) (hfirst : first.isSome = true) :
    first = some idx := by
  induction is generalizing first with
  | nil => exact h
  | cons i is ih =>
    simp only [pqcTxScanClass] at h
    split at h
    · exact ih h hfirst
    · split at h
      · rename_i hne
        obtain rfl := Option.some.inj h
        exact absurd hlast hne
      · obtain ⟨f, rfl⟩ := Option.isSome_iff_exists.mp hfirst
        exact ih h rfl

/-- Among its rivals the scan returns the first. -/
theorem scanClass_lowest {priority : ℕ} {is : List (Fin pqcTxQueueSize)}
    {first : Option (Fin pqcTxQueueSize)} (h : q.pqcTxScanClass priority is first = some idx)
    (hsorted : is.Pairwise (· < ·)) (hbefore : ∀ f ∈ first, ∀ j ∈ is, f < j) :
    ∀ j ∈ is, (q.txQueue j).active = true → (q.txQueue j).priority = priority →
      (q.txQueue j).nodeId = (q.txQueue idx).nodeId → idx ≤ j := by
  induction is generalizing first with
  | nil => simp
  | cons i is ih =>
    obtain ⟨hi, hsorted⟩ := List.pairwise_cons.mp hsorted
    have htail : ∀ f ∈ first, ∀ j ∈ is, f < j := fun f hf j hj => hbefore f hf j (by simp [hj])
    simp only [pqcTxScanClass] at h
    intro j hj ha hp hn
    split at h
    · rename_i hskip
      rcases List.mem_cons.mp hj with rfl | hj
      · simp [ha, hp] at hskip
      · exact ih h hsorted htail j hj ha hp hn
    · split at h
      · obtain rfl := Option.some.inj h
        rcases List.mem_cons.mp hj with rfl | hj
        · exact le_rfl
        · exact (hi j hj).le
      · rename_i hsame
        have hor : ∀ f ∈ first.or (some i), (∀ j ∈ is, f < j) ∧ f ≤ i := by
          intro f hf
          cases first with
          | none =>
            obtain rfl : i = f := by simpa using hf
            exact ⟨hi, le_rfl⟩
          | some g =>
            obtain rfl : g = f := by simpa using hf
            exact ⟨htail g rfl, (hbefore g rfl i (by simp)).le⟩
        rcases List.mem_cons.mp hj with rfl | hj
        · -- `idx` is for the node served last, so it is the candidate that was kept
          have hlast : (q.txQueue idx).nodeId = q.txLastNodeId := by
            rw [← hn]
            exact not_not.mp hsame
          have hkept := scanClass_first h hlast (by cases first <;> rfl)
          exact (hor idx hkept).2
        · exact ih h hsorted (fun f hf => (hor f hf).1) j hj ha hp hn

/-- The slot that is served is the lowest of its node and class. -/
theorem selectSlot_lowest (h : q.pqcTxSelectSlot = some idx) (ha : (q.txQueue j).active = true)
    (hr : Rivals (q.txQueue j) (q.txQueue idx)) : idx ≤ j := by
  obtain ⟨priority, -, hs⟩ := List.exists_of_findSome?_eq_some h
  rcases scanClass_some hs with hidx | hfirst
  · exact scanClass_lowest hs (List.pairwise_lt_finRange _) (by simp) j (by simp) ha
      (hr.2.trans hidx.2) hr.1
  · cases hfirst

/-- A packet that left: its node, its class, and its number in the order of acceptance. -/
structure Departure where
  nodeId : UInt16
  priority : ℕ
  number : ℕ

/-- The queue with the number of each waiting packet, and the packets that left, newest first. -/
structure Timeline where
  queue : TxQueue
  number : Fin pqcTxQueueSize → ℕ
  next : ℕ
  left : List Departure

namespace Timeline

def init : Timeline := ⟨pqcTxInit, fun _ => 0, 0, []⟩

def call (t : Timeline) : Call → Timeline
  | .send data user =>
    let r := t.queue.pqcUdpSendFragment data user
    match r.1, t.queue.pqcTxFindFreeSlot with
    | true, some idx => ⟨r.2, Function.update t.number idx t.next, t.next + 1, t.left⟩
    | _, _ => { t with queue := r.2 }
  | .process =>
    let r := t.queue.pqcTxProcess
    match r.1, t.queue.pqcTxSelectSlot with
    | true, some idx =>
      { t with
        queue := r.2.2
        left := ⟨(t.queue.txQueue idx).nodeId, (t.queue.txQueue idx).priority, t.number idx⟩ ::
          t.left }
    | _, _ => { t with queue := r.2.2 }
  | .drop nodeId msgType msgId => { t with queue := (t.queue.pqcTxDrop nodeId msgType msgId).2 }
  | .dropNode nodeId => { t with queue := (t.queue.pqcTxDropNode nodeId).2 }

/-- Packets of one node and one class left in the order in which they were accepted. -/
def InOrder (t : Timeline) : Prop :=
  t.left.Pairwise fun later earlier =>
    later.nodeId = earlier.nodeId → later.priority = earlier.priority →
      earlier.number < later.number

/-- A packet is not placed below one of its node and class. -/
def Ascending (q : TxQueue) : Call → Prop
  | .send (some data) (some ⟨some _, some _⟩) =>
    Sendable data → ∀ idx, q.pqcTxFindFreeSlot = some idx → ∀ j, (q.txQueue j).active = true →
      (q.txQueue j).nodeId = pqcHeaderGetNodeId data →
      (q.txQueue j).priority = pqcTxPriorityForMsg (byteAt data pqcHdrMsgType) → j < idx
  | _ => True

/-- The numbers follow the slots, and what left was older than what waits. -/
structure Sorted (t : Timeline) : Prop where
  slots : ∀ i j, (t.queue.txQueue i).active = true → (t.queue.txQueue j).active = true →
    Rivals (t.queue.txQueue i) (t.queue.txQueue j) → i < j → t.number i < t.number j
  waiting : ∀ i, (t.queue.txQueue i).active = true → t.number i < t.next
  gone : ∀ d ∈ t.left, d.number < t.next
  older : ∀ d ∈ t.left, ∀ i, (t.queue.txQueue i).active = true →
    (t.queue.txQueue i).nodeId = d.nodeId → (t.queue.txQueue i).priority = d.priority →
      d.number < t.number i
  inOrder : t.InOrder

variable {t t' : Timeline} {c : Call} {past : List Timeline}

theorem sorted_init : init.Sorted where
  slots := by
    intro i j hi
    simp [init, pqcTxInit, TxEntry.zero] at hi
  waiting := by
    intro i hi
    simp [init, pqcTxInit, TxEntry.zero] at hi
  gone := by simp [init]
  older := by simp [init]
  inOrder := by simp [init, InOrder]

/-- Every packet waiting in `q'` waits in the same slot of `q`. -/
def Within (q' q : TxQueue) : Prop :=
  ∀ i, (q'.txQueue i).active = true → q'.txQueue i = q.txQueue i

theorem dropLoop_within {hit : TxEntry → Bool} (hactive : ∀ e, hit e = true → e.active = true)
    (q : TxQueue) : Within (q.dropLoop hit).2 q := by
  rw [dropLoop_eq hactive]
  intro i hi
  simp only [cleared] at hi ⊢
  split at hi
  · simp [TxEntry.zero] at hi
  · rename_i hh
    rw [if_neg hh]

theorem Sorted.thin {q' : TxQueue} (h : t.Sorted) (hq : Within q' t.queue) :
    Sorted { t with queue := q' } where
  slots := by
    intro i j hi hj hr hij
    have hi' := hq i hi
    have hj' := hq j hj
    dsimp only at hi hj hr
    rw [hi'] at hi hr
    rw [hj'] at hj hr
    exact h.slots i j hi hj hr hij
  waiting := by
    intro i hi
    have hi' := hq i hi
    dsimp only at hi
    rw [hi'] at hi
    exact h.waiting i hi
  gone := h.gone
  older := by
    intro d hd i hi hn hp
    have hi' := hq i hi
    dsimp only at hi hn hp
    rw [hi'] at hi hn hp
    exact h.older d hd i hi hn hp
  inOrder := h.inOrder

/-- The lowest packet of its node and class may leave. -/
theorem Sorted.leave (h : t.Sorted) (hs : t.queue.pqcTxSelectSlot = some idx) (last : UInt16)
    (count : ℕ) :
    Sorted { t with
      queue := ⟨Function.update t.queue.txQueue idx TxEntry.zero, t.queue.txTail, count, last⟩
      left := ⟨(t.queue.txQueue idx).nodeId, (t.queue.txQueue idx).priority, t.number idx⟩ ::
        t.left } := by
  have ha := active_of_selectSlot hs
  have hstay : ∀ i, (Function.update t.queue.txQueue idx TxEntry.zero i).active = true →
      i ≠ idx ∧ Function.update t.queue.txQueue idx TxEntry.zero i = t.queue.txQueue i := by
    intro i hi
    by_cases hne : i = idx
    · subst i
      simp [TxEntry.zero] at hi
    · exact ⟨hne, Function.update_of_ne hne _ _⟩
  have hwithin : Within ⟨Function.update t.queue.txQueue idx TxEntry.zero, t.queue.txTail, count,
      last⟩ t.queue := fun i hi => (hstay i hi).2
  have hthin := h.thin hwithin
  refine ⟨hthin.slots, hthin.waiting, ?_, ?_, ?_⟩
  · intro d hd
    rcases List.mem_cons.mp hd with rfl | hd
    · exact h.waiting idx ha
    · exact h.gone d hd
  · intro d hd i hi hn hp
    rcases List.mem_cons.mp hd with rfl | hd
    · obtain ⟨hne, hi'⟩ := hstay i hi
      dsimp only at hi hn hp
      rw [hi'] at hi hn hp
      have hle := selectSlot_lowest hs hi ⟨hn, hp⟩
      exact h.slots idx i ha hi ⟨hn.symm, hp.symm⟩ (lt_of_le_of_ne hle (Ne.symm hne))
    · exact hthin.older d hd i hi hn hp
  · refine List.pairwise_cons.mpr ⟨?_, h.inOrder⟩
    intro d hd hn hp
    exact h.older d hd idx ha hn hp

/-- A packet that is placed above its rivals may enter. -/
theorem Sorted.enter {data : Bytes} (conn : UdpConn) (dest : IpAddr) (h : t.Sorted)
    (habove : ∀ j, (t.queue.txQueue j).active = true →
      (t.queue.txQueue j).nodeId = pqcHeaderGetNodeId data →
      (t.queue.txQueue j).priority = pqcTxPriorityForMsg (byteAt data pqcHdrMsgType) → j < idx) :
    Sorted ⟨t.queue.pqcTxPut idx data conn dest, Function.update t.number idx t.next, t.next + 1,
      t.left⟩ := by
  have hold : ∀ j, j ≠ idx →
      (t.queue.pqcTxPut idx data conn dest).txQueue j = t.queue.txQueue j := by
    intro j hj
    simp only [pqcTxPut, Function.update_of_ne hj]
  have hnew : ((t.queue.pqcTxPut idx data conn dest).txQueue idx).nodeId =
        pqcHeaderGetNodeId data ∧
      ((t.queue.pqcTxPut idx data conn dest).txQueue idx).priority =
        pqcTxPriorityForMsg (byteAt data pqcHdrMsgType) := by
    simp [pqcTxPut]
  refine ⟨?_, ?_, ?_, ?_, h.inOrder⟩
  · intro i j hi hj hr hij
    dsimp only at hi hj hr ⊢
    by_cases hii : i = idx
    · subst i
      have hne : j ≠ idx := ne_of_gt hij
      rw [hold j hne] at hj hr
      have hlt := habove j hj (hr.1.symm.trans hnew.1) (hr.2.symm.trans hnew.2)
      exact absurd hij (lt_asymm hlt)
    · rw [hold i hii] at hi hr
      rw [Function.update_of_ne hii]
      by_cases hjj : j = idx
      · subst j
        rw [Function.update_self]
        exact h.waiting i hi
      · rw [hold j hjj] at hj hr
        rw [Function.update_of_ne hjj]
        exact h.slots i j hi hj hr hij
  · intro i hi
    dsimp only at hi ⊢
    by_cases hii : i = idx
    · subst i
      rw [Function.update_self]
      exact Nat.lt_succ_self _
    · rw [hold i hii] at hi
      rw [Function.update_of_ne hii]
      exact Nat.lt_succ_of_lt (h.waiting i hi)
  · intro d hd
    exact Nat.lt_succ_of_lt (h.gone d hd)
  · intro d hd i hi hn hp
    dsimp only at hi hn hp ⊢
    by_cases hii : i = idx
    · subst i
      rw [Function.update_self]
      exact h.gone d hd
    · rw [hold i hii] at hi hn hp
      rw [Function.update_of_ne hii]
      exact h.older d hd i hi hn hp

theorem Sorted.call (h : t.Sorted) (hc : Ascending t.queue c) : (t.call c).Sorted := by
  cases c with
  | send data user =>
    rcases pqcUdpSendFragment_cases t.queue data user with
      he | ⟨p, conn, dest, idx, rfl, rfl, hs, -, hf, he⟩
    · simp only [Timeline.call, he]
      exact h
    · simp only [Timeline.call, he, hf]
      exact h.enter conn dest (hc hs idx hf)
  | process =>
    by_cases hc : t.queue.txCount = 0
    · simp only [Timeline.call, pqcTxProcess_idle hc]
      exact h
    · cases hs : t.queue.pqcTxSelectSlot with
      | none =>
        simp only [Timeline.call, pqcTxProcess, if_neg hc, hs]
        exact h
      | some idx =>
        simp only [Timeline.call, pqcTxProcess, if_neg hc, hs]
        exact h.leave hs _ _
  | drop nodeId msgType msgId =>
    apply h.thin
    apply dropLoop_within
    intro e he
    simp only [Bool.and_eq_true] at he
    exact he.1.1.1.1
  | dropNode nodeId =>
    apply h.thin
    apply dropLoop_within
    intro e he
    simp only [Bool.and_eq_true] at he
    exact he.1

/-- While no packet is placed below an older one of its node and class, the packets of one node
and one class leave in the order in which they were accepted. -/
theorem tx_queue_in_order
    (h : Run (· = init) (fun t c t' => Ascending t.queue c ∧ t' = t.call c) past t) :
    t.InOrder := by
  have hsorted : t.Sorted := by
    induction h with
    | start hi =>
      obtain rfl := hi
      exact sorted_init
    | next _ hs ih =>
      obtain ⟨hc, rfl⟩ := hs
      exact ih.call hc
  exact hsorted.inOrder

end Timeline

end PqcContiki.TxQueue
