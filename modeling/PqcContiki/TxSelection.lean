import PqcContiki.TxQueueOrder

/-!
Which packet the queue sends: one of the most urgent class that waits, and within the class one for
another node than the packet before, if there is one.
-/
namespace PqcContiki

namespace Datagram

/-- The node a packet is about, as its header says. -/
def nodeId (d : Datagram) : UInt16 := pqcHeaderGetNodeId d.data

/-- The class of a packet, as its header says. -/
def priority (d : Datagram) : ℕ := pqcTxPriorityForMsg (byteAt d.data pqcHdrMsgType)

end Datagram

namespace TxQueue

variable {q q' : TxQueue} {idx j : Fin pqcTxQueueSize} {d d' : Datagram} {priority : ℕ}

/-- A scan ends at the node served last only if its class has packets for no other node. -/
theorem scanClass_alternates {is : List (Fin pqcTxQueueSize)}
    {first : Option (Fin pqcTxQueueSize)} (h : q.pqcTxScanClass priority is first = some idx)
    (hlast : (q.txQueue idx).nodeId = q.txLastNodeId) :
    ∀ j ∈ is, (q.txQueue j).active = true → (q.txQueue j).priority = priority →
      (q.txQueue j).nodeId = q.txLastNodeId := by
  induction is generalizing first with
  | nil => simp
  | cons i is ih =>
    intro j hj ha hp
    simp only [pqcTxScanClass] at h
    split at h
    · rename_i hskip
      rcases List.mem_cons.mp hj with rfl | hj
      · simp [ha, hp] at hskip
      · exact ih h j hj ha hp
    · split at h
      · rename_i hother
        obtain rfl := Option.some.inj h
        exact absurd hlast hother
      · rename_i hsame
        rcases List.mem_cons.mp hj with rfl | hj
        · exact not_not.mp hsame
        · exact ih h j hj ha hp

/-- The slot selected is the answer of the scan of its class, and the classes before have none. -/
theorem selectSlot_scan (h : q.pqcTxSelectSlot = some idx) :
    q.pqcTxScanClass (q.txQueue idx).priority (List.finRange pqcTxQueueSize) none = some idx ∧
      ∀ p < (q.txQueue idx).priority,
        q.pqcTxScanClass p (List.finRange pqcTxQueueSize) none = none := by
  have hclass : ∀ p, q.pqcTxScanClass p (List.finRange pqcTxQueueSize) none = some idx →
      (q.txQueue idx).priority = p := by
    intro p hs
    rcases scanClass_some hs with hidx | hfirst
    · exact hidx.2
    · cases hfirst
  unfold pqcTxSelectSlot at h
  simp only [List.findSome?_cons, List.findSome?_nil, pqcTxPriorityHigh, pqcTxPriorityNormal,
    pqcTxPriorityLow] at h
  cases h0 : q.pqcTxScanClass 0 (List.finRange pqcTxQueueSize) none with
  | some i =>
    simp only [h0, Option.some.injEq] at h
    subst h
    rw [hclass 0 h0]
    exact ⟨h0, by simp⟩
  | none =>
    simp only [h0] at h
    cases h1 : q.pqcTxScanClass 1 (List.finRange pqcTxQueueSize) none with
    | some i =>
      simp only [h1, Option.some.injEq] at h
      subst h
      rw [hclass 1 h1]
      refine ⟨h1, ?_⟩
      intro p hp
      obtain rfl : p = 0 := by omega
      exact h0
    | none =>
      simp only [h1] at h
      cases h2 : q.pqcTxScanClass 2 (List.finRange pqcTxQueueSize) none with
      | none => simp [h2] at h
      | some i =>
        simp only [h2, Option.some.injEq] at h
        subst h
        rw [hclass 2 h2]
        refine ⟨h2, ?_⟩
        intro p hp
        interval_cases p
        · exact h0
        · exact h1

theorem selectSlot_urgent (h : q.pqcTxSelectSlot = some idx) (ha : (q.txQueue j).active = true) :
    (q.txQueue idx).priority ≤ (q.txQueue j).priority := by
  by_contra hlt
  have hnone := (selectSlot_scan h).2 (q.txQueue j).priority (by omega)
  exact (scanClass_none hnone).2 j (List.mem_finRange j) ha rfl

theorem selectSlot_alternates (h : q.pqcTxSelectSlot = some idx)
    (ha : (q.txQueue j).active = true) (hp : (q.txQueue j).priority = (q.txQueue idx).priority)
    (hne : (q.txQueue j).nodeId ≠ q.txLastNodeId) : (q.txQueue idx).nodeId ≠ q.txLastNodeId := by
  intro hlast
  exact hne (scanClass_alternates (selectSlot_scan h).1 hlast j (List.mem_finRange j) ha hp)

/-- A packet waiting in a well-formed queue is described by its entry. -/
theorem WellFormed.entry_of_mem (h : q.WellFormed) (hd : d ∈ q.contents) :
    ∃ i, (q.txQueue i).active = true ∧ (q.txQueue i).nodeId = d.nodeId ∧
      (q.txQueue i).priority = d.priority := by
  obtain ⟨i, hi⟩ := Pool.mem_contents.mp hd
  obtain ⟨ha, rfl⟩ := active_of_slots hi
  exact ⟨i, ha, (h.entry i ha).nodeId, (h.entry i ha).priority⟩

/-- `d` is a packet the scheduler may send: none that waits is more urgent, and it is for the node
served last only if no packet of its class is for another. -/
structure Chosen (q : TxQueue) (d : Datagram) : Prop where
  waits : d ∈ q.contents
  urgent : ∀ d' ∈ q.contents, d.priority ≤ d'.priority
  alternates : (∃ d' ∈ q.contents, d'.priority = d.priority ∧ d'.nodeId ≠ q.txLastNodeId) →
    d.nodeId ≠ q.txLastNodeId

theorem pqcTxProcess_chosen (h : q.WellFormed) (hc : q.txCount ≠ 0) :
    ∃ d, q.pqcTxProcess.1 = true ∧ q.pqcTxProcess.2.1 = some d ∧ Chosen q d ∧
      q.pqcTxProcess.2.2.txLastNodeId = d.nodeId := by
  obtain ⟨idx, hs⟩ := selectSlot_isSome h hc
  have ha := active_of_selectSlot hs
  have he := h.entry idx ha
  have hproc : q.pqcTxProcess = (true, some (q.txQueue idx).datagram,
      { q with
        txLastNodeId := (q.txQueue idx).nodeId
        txQueue := Function.update q.txQueue idx TxEntry.zero
        txCount := q.txCount - 1 }) := by
    simp only [pqcTxProcess, if_neg hc, hs, ha, he.conn]
    rfl
  rw [hproc]
  refine ⟨(q.txQueue idx).datagram, rfl, rfl, ⟨?_, ?_, ?_⟩, he.nodeId⟩
  · exact Pool.mem_contents.mpr ⟨idx, slots_of_active ha⟩
  · intro d' hd'
    obtain ⟨j, hj, -, hp⟩ := h.entry_of_mem hd'
    have hle := selectSlot_urgent hs hj
    rw [hp, he.priority] at hle
    exact hle
  · rintro ⟨d', hd', hp, hne⟩
    obtain ⟨j, hj, hnode, hprio⟩ := h.entry_of_mem hd'
    have halt := selectSlot_alternates hs hj (by rw [hprio, hp, he.priority]; rfl)
      (by rwa [hnode])
    rwa [he.nodeId] at halt

theorem dropLoop_last {hit : TxEntry → Bool} (hactive : ∀ e, hit e = true → e.active = true)
    (q : TxQueue) : (q.dropLoop hit).2.txLastNodeId = q.txLastNodeId := by
  rw [dropLoop_eq hactive]
  rfl

theorem pqcTxDrop_last (nodeId : UInt16) (msgType msgId : UInt8) (q : TxQueue) :
    (q.pqcTxDrop nodeId msgType msgId).2.txLastNodeId = q.txLastNodeId := by
  unfold pqcTxDrop
  apply dropLoop_last
  intro e he
  simp only [Bool.and_eq_true] at he
  exact he.1.1.1.1

theorem pqcTxDropNode_last (nodeId : UInt16) (q : TxQueue) :
    (q.pqcTxDropNode nodeId).2.txLastNodeId = q.txLastNodeId := by
  unfold pqcTxDropNode
  apply dropLoop_last
  intro e he
  simp only [Bool.and_eq_true] at he
  exact he.1

/-- A packet that was sent, and all that waited at that moment. -/
structure Service where
  packet : Datagram
  waiting : Multiset Datagram

/-- The queue and the packets it sent since `pqc_tx_init`, newest first. -/
structure Scheduler where
  queue : TxQueue
  served : List Service

namespace Scheduler

def init : Scheduler := ⟨pqcTxInit, []⟩

def call (s : Scheduler) : Call → Scheduler
  | .send data user => { s with queue := (s.queue.pqcUdpSendFragment data user).2 }
  | .process =>
    let r := s.queue.pqcTxProcess
    match r.2.1 with
    | some d => ⟨r.2.2, ⟨d, s.queue.contents⟩ :: s.served⟩
    | none => { s with queue := r.2.2 }
  | .drop nodeId msgType msgId => { s with queue := (s.queue.pqcTxDrop nodeId msgType msgId).2 }
  | .dropNode nodeId => { s with queue := (s.queue.pqcTxDropNode nodeId).2 }

def run (calls : List Call) : Scheduler := calls.foldl call init

/-- `later` is for another node than `earlier`, unless none waits in its class. -/
def Alternates (later earlier : Service) : Prop :=
  (∃ d ∈ later.waiting, d.priority = later.packet.priority ∧ d.nodeId ≠ earlier.packet.nodeId) →
    later.packet.nodeId ≠ earlier.packet.nodeId

/-- The queue remembers the node it served last. -/
structure Fair (s : Scheduler) : Prop where
  wellFormed : s.queue.WellFormed
  last : ∀ x ∈ s.served.head?, s.queue.txLastNodeId = x.packet.nodeId
  chain : s.served.IsChain Alternates

variable {s : Scheduler}

theorem Fair.of_last (h : s.Fair) (hw : q.WellFormed)
    (hlast : q.txLastNodeId = s.queue.txLastNodeId) : Fair { s with queue := q } where
  wellFormed := hw
  last := by
    intro x hx
    exact hlast.trans (h.last x hx)
  chain := h.chain

theorem Fair.call (h : s.Fair) (c : Call) : (s.call c).Fair := by
  cases c with
  | send data user =>
    rcases pqcUdpSendFragment_cases s.queue data user with
      he | ⟨p, conn, dest, idx, -, -, hs, -, hf, he⟩
    · simp only [Scheduler.call, he]
      exact h
    · simp only [Scheduler.call, he]
      exact h.of_last
        (wellFormed_put conn dest h.wellFormed (inactive_of_findFreeSlot hf) hs.2 hs.1) rfl
  | process =>
    by_cases hc : s.queue.txCount = 0
    · simp only [Scheduler.call, pqcTxProcess_idle hc]
      exact h
    · obtain ⟨d, -, hsent, hchosen, hnode⟩ := pqcTxProcess_chosen h.wellFormed hc
      obtain ⟨d', q', hproc, -, hw⟩ := pqcTxProcess_eq h.wellFormed hc
      simp only [Scheduler.call, hsent]
      refine ⟨by rw [hproc]; exact hw, ?_, ?_⟩
      · intro x hx
        obtain rfl : _ = x := Option.some.inj hx
        exact hnode
      · refine List.isChain_cons.mpr ⟨?_, h.chain⟩
        intro x hx hother
        rw [← h.last x hx] at hother ⊢
        exact hchosen.alternates hother
  | drop nodeId msgType msgId =>
    have hw := (pqcTxDrop_spec nodeId msgType msgId h.wellFormed).2.2
    exact h.of_last hw (pqcTxDrop_last nodeId msgType msgId s.queue)
  | dropNode nodeId =>
    have hw := (pqcTxDropNode_spec nodeId h.wellFormed).2.2
    exact h.of_last hw (pqcTxDropNode_last nodeId s.queue)

end Scheduler

end TxQueue

end PqcContiki
