import PqcContiki.TxQueueContents

/-! Drops, and the ledger that follows each packet from acceptance to the network or to a drop. -/
namespace PqcContiki
namespace TxQueue

variable {q : TxQueue} {idx : Fin pqcTxQueueSize}

section Drops

variable {hit : TxEntry → Bool}

/-- The queue with every entry `hit` accepts cleared. -/
def cleared (hit : TxEntry → Bool) (q : TxQueue) : TxQueue :=
  { q with
    txQueue := fun i => if hit (q.txQueue i) then TxEntry.zero else q.txQueue i
    txCount := q.txCount - (Finset.univ.filter (fun i => hit (q.txQueue i) = true)).card }

theorem foldl_clear (hactive : ∀ e, hit e = true → e.active = true)
    (is : List (Fin pqcTxQueueSize)) (hnd : is.Nodup) (n : ℕ) (q : TxQueue) :
    is.foldl (fun (r : ℕ × TxQueue) i =>
        if hit (r.2.txQueue i) then (r.1 + 1, r.2.pqcTxClearEntry i) else (r.1, r.2)) (n, q) =
      (n + (is.filter (fun i => hit (q.txQueue i))).length,
        { q with
          txQueue := fun i => if i ∈ is ∧ hit (q.txQueue i) = true then TxEntry.zero
            else q.txQueue i
          txCount := q.txCount - (is.filter (fun i => hit (q.txQueue i))).length }) := by
  induction is generalizing n q with
  | nil => simp
  | cons i is ih =>
    obtain ⟨hi, hnd⟩ := List.nodup_cons.mp hnd
    rw [List.foldl_cons]
    by_cases hh : hit (q.txQueue i) = true
    · have hq : q.pqcTxClearEntry i = { q with
          txQueue := Function.update q.txQueue i TxEntry.zero
          txCount := q.txCount - 1 } := by
        simp [pqcTxClearEntry, hactive _ hh]
      have hsame : ∀ j ∈ is, hit ((q.pqcTxClearEntry i).txQueue j) = hit (q.txQueue j) := by
        intro j hj
        have hne : j ≠ i := by rintro rfl; exact hi hj
        simp [hq, Function.update_of_ne hne]
      have hfilter : (is.filter fun j => hit ((q.pqcTxClearEntry i).txQueue j)) =
          is.filter fun j => hit (q.txQueue j) := List.filter_congr hsame
      have hcons : ((i :: is).filter fun j => hit (q.txQueue j)) =
          i :: is.filter fun j => hit (q.txQueue j) := List.filter_cons_of_pos (by simpa using hh)
      rw [if_pos hh, ih hnd, hcons, List.length_cons]
      dsimp only
      rw [hfilter]
      refine Prod.ext (by simp only; omega) ?_
      simp only [hq, TxQueue.mk.injEq]
      refine ⟨?_, trivial, by omega, trivial⟩
      funext j
      by_cases hj : j = i
      · subst j
        simp [hi, hh]
      · simp [hj]
    · have hcons : ((i :: is).filter fun j => hit (q.txQueue j)) =
          is.filter fun j => hit (q.txQueue j) := List.filter_cons_of_neg (by simpa using hh)
      rw [if_neg hh, ih hnd, hcons]
      refine Prod.ext rfl ?_
      simp only [TxQueue.mk.injEq]
      refine ⟨?_, trivial, trivial, trivial⟩
      funext j
      by_cases hj : j = i
      · subst j
        simp [hh]
      · simp [hj]

theorem dropLoop_eq (hactive : ∀ e, hit e = true → e.active = true) (q : TxQueue) :
    q.dropLoop hit =
      ((Finset.univ.filter (fun i => hit (q.txQueue i) = true)).card, q.cleared hit) := by
  have hlen : ((List.finRange pqcTxQueueSize).filter (fun i => hit (q.txQueue i))).length =
      (Finset.univ.filter (fun i => hit (q.txQueue i) = true)).card := by
    rw [← List.toFinset_card_of_nodup ((List.nodup_finRange _).filter _)]
    congr 1
    ext i
    simp
  have h := foldl_clear hactive _ (List.nodup_finRange pqcTxQueueSize) 0 q
  rw [hlen] at h
  simpa [dropLoop, cleared] using h

variable {p : Datagram → Bool}

/-- A loop whose test is a test `p` of the packet removes exactly the packets with `p`. -/
theorem contents_cleared
    (hp : ∀ i, (q.txQueue i).active = true → hit (q.txQueue i) = p (q.txQueue i).datagram)
    (hactive : ∀ e, hit e = true → e.active = true) :
    (q.cleared hit).contents = Pool.contents (fun i => (q.slots i).filter (fun d => !p d)) := by
  apply congrArg Pool.contents
  funext i
  by_cases ha : (q.txQueue i).active = true
  · by_cases hh : hit (q.txQueue i) = true
    · have hpd := hp i ha
      simp [slots, cleared, ha, hh, ← hpd, TxEntry.zero, Option.filter]
    · have hpd := hp i ha
      simp [slots, cleared, ha, hh, ← hpd, Option.filter]
  · have hh : hit (q.txQueue i) = false := by
      by_contra hh
      exact ha (hactive _ (by simpa using hh))
    simp [slots, cleared, ha, hh]

theorem card_hits
    (hp : ∀ i, (q.txQueue i).active = true → hit (q.txQueue i) = p (q.txQueue i).datagram)
    (hactive : ∀ e, hit e = true → e.active = true) :
    (Finset.univ.filter (fun i => hit (q.txQueue i) = true)).card =
      (q.contents.filter (fun d => p d = true)).card := by
  have hsplit := congrArg Multiset.card (Pool.contents_clear_where q.slots p)
  have hall := Pool.card_contents q.slots
  have hkept := Pool.card_contents (fun i => (q.slots i).filter (fun d => !p d))
  have hdisj : (Finset.univ.filter (fun i => (q.slots i).isSome = true)).card =
      (Finset.univ.filter (fun i => hit (q.txQueue i) = true)).card +
        (Finset.univ.filter
          (fun i => ((q.slots i).filter (fun d => !p d)).isSome = true)).card := by
    rw [← Finset.card_union_of_disjoint]
    · congr 1
      ext i
      simp only [Finset.mem_filter, Finset.mem_univ, true_and, Finset.mem_union]
      by_cases ha : (q.txQueue i).active = true
      · have hpd := hp i ha
        cases hh : hit (q.txQueue i) <;>
          simp [slots, ha, Option.filter, ← hpd, hh]
      · have hh : hit (q.txQueue i) = false := by
          by_contra hh
          exact ha (hactive _ (by simpa using hh))
        simp [slots, ha, hh]
    · rw [Finset.disjoint_filter]
      intro i _ hh
      have ha := hactive _ hh
      have hpd := hp i ha
      simp [slots, ha, Option.filter, ← hpd, hh]
  rw [Multiset.card_add] at hsplit
  change _ = (Multiset.filter _ (Pool.contents q.slots)).card
  omega

/-- What a drop call whose test is a test of the packet does to a well-formed queue. -/
theorem dropLoop_spec
    (hp : ∀ i, (q.txQueue i).active = true → hit (q.txQueue i) = p (q.txQueue i).datagram)
    (hactive : ∀ e, hit e = true → e.active = true) (h : q.WellFormed) :
    (q.dropLoop hit).1 = (q.contents.filter (fun d => p d = true)).card ∧
      q.contents = q.contents.filter (fun d => p d = true) + (q.dropLoop hit).2.contents ∧
      (q.dropLoop hit).2.WellFormed := by
  have hsplit := Pool.contents_clear_where q.slots p
  rw [← contents_cleared hp hactive] at hsplit
  rw [dropLoop_eq hactive]
  refine ⟨card_hits hp hactive, hsplit, ?_, h.tail, ?_⟩
  · have hcard := congrArg Multiset.card hsplit
    rw [Multiset.card_add, ← contents, ← h.count, ← card_hits hp hactive] at hcard
    simp only [cleared] at hcard ⊢
    omega
  · intro i hi
    simp only [cleared] at hi ⊢
    split at hi
    · simp [TxEntry.zero] at hi
    · rename_i hh
      rw [if_neg hh]
      exact h.entry i hi

end Drops

/-- The packets the two drop functions are asked to remove. -/
def dropTest (nodeId : UInt16) (msgType msgId : UInt8) (d : Datagram) : Bool :=
  pqcHeaderGetNodeId d.data == nodeId && byteAt d.data pqcHdrMsgType == msgType &&
    byteAt d.data pqcHdrMsgId == msgId

def dropNodeTest (nodeId : UInt16) (d : Datagram) : Bool := pqcHeaderGetNodeId d.data == nodeId

theorem pqcTxDrop_spec (nodeId : UInt16) (msgType msgId : UInt8) (h : q.WellFormed) :
    (q.pqcTxDrop nodeId msgType msgId).1 =
        (q.contents.filter (fun d => dropTest nodeId msgType msgId d = true)).card ∧
      q.contents = q.contents.filter (fun d => dropTest nodeId msgType msgId d = true) +
        (q.pqcTxDrop nodeId msgType msgId).2.contents ∧
      (q.pqcTxDrop nodeId msgType msgId).2.WellFormed := by
  refine dropLoop_spec ?_ ?_ h
  · intro i ha
    have he := h.entry i ha
    have hl := length_of_pqcHeaderValid he.header
    simp [dropTest, TxEntry.datagram, ha, he.nodeId, hl]
  · intro e he
    simp only [Bool.and_eq_true] at he
    exact he.1.1.1.1

theorem pqcTxDropNode_spec (nodeId : UInt16) (h : q.WellFormed) :
    (q.pqcTxDropNode nodeId).1 =
        (q.contents.filter (fun d => dropNodeTest nodeId d = true)).card ∧
      q.contents = q.contents.filter (fun d => dropNodeTest nodeId d = true) +
        (q.pqcTxDropNode nodeId).2.contents ∧
      (q.pqcTxDropNode nodeId).2.WellFormed := by
  refine dropLoop_spec ?_ ?_ h
  · intro i ha
    simp [dropNodeTest, TxEntry.datagram, ha, (h.entry i ha).nodeId]
  · intro e he
    simp only [Bool.and_eq_true] at he
    exact he.1

/-- The calls the rest of the program makes on the queue. -/
inductive Call where
  | send (data : Option Bytes) (user : Option UdpSendCtx)
  | process
  | drop (nodeId : UInt16) (msgType msgId : UInt8)
  | dropNode (nodeId : UInt16)

/-- The queue with the packets it accepted, sent and dropped since `pqc_tx_init`. -/
structure Ledger where
  queue : TxQueue
  accepted : Multiset Datagram
  sent : Multiset Datagram
  dropped : Multiset Datagram

def Ledger.init : Ledger := ⟨pqcTxInit, 0, 0, 0⟩

/-- The packet of a call, had it been accepted. -/
def offered : Option Bytes → Option UdpSendCtx → Multiset Datagram
  | some data, some ⟨some conn, some dest⟩ => {⟨some conn, data, dest⟩}
  | _, _ => 0

def Ledger.call (l : Ledger) : Call → Ledger
  | .send data user =>
    let r := l.queue.pqcUdpSendFragment data user
    { l with
      queue := r.2
      accepted := if r.1 then offered data user + l.accepted else l.accepted }
  | .process =>
    let r := l.queue.pqcTxProcess
    { l with queue := r.2.2, sent := Pool.held r.2.1 + l.sent }
  | .drop nodeId msgType msgId =>
    { l with
      queue := (l.queue.pqcTxDrop nodeId msgType msgId).2
      dropped := l.queue.contents.filter (fun d => dropTest nodeId msgType msgId d = true) +
        l.dropped }
  | .dropNode nodeId =>
    { l with
      queue := (l.queue.pqcTxDropNode nodeId).2
      dropped := l.queue.contents.filter (fun d => dropNodeTest nodeId d = true) + l.dropped }

def Ledger.run (calls : List Call) : Ledger := calls.foldl Ledger.call Ledger.init

/-- Every accepted packet is on the air, dropped or still waiting, and in one place only. -/
structure Ledger.Balanced (l : Ledger) : Prop where
  wellFormed : l.queue.WellFormed
  balance : l.accepted = l.sent + l.dropped + l.queue.contents

theorem Ledger.Balanced.drop {l : Ledger} {removed : Multiset Datagram} (h : l.Balanced)
    (hcont : l.queue.contents = removed + q.contents) (hw : q.WellFormed) :
    Ledger.Balanced { l with queue := q, dropped := removed + l.dropped } := by
  refine ⟨hw, ?_⟩
  dsimp only
  rw [h.balance, hcont]
  abel

theorem Ledger.balanced_call {l : Ledger} (h : l.Balanced) (c : Call) : (l.call c).Balanced := by
  obtain ⟨hw, hb⟩ := h
  cases c with
  | send data user =>
    rcases pqcUdpSendFragment_cases l.queue data user with
      he | ⟨p, conn, dest, idx, rfl, rfl, hs, hc, hf, he⟩
    · simp only [Ledger.call, he]
      exact ⟨hw, hb⟩
    · have hi := inactive_of_findFreeSlot hf
      simp only [Ledger.call, he, if_true, offered]
      refine ⟨wellFormed_put conn dest hw hi hs.2 hs.1, ?_⟩
      rw [contents_put p conn dest hi, hb, Multiset.singleton_add, Multiset.add_cons]
  | process =>
    by_cases hc : l.queue.txCount = 0
    · simp only [Ledger.call, pqcTxProcess_idle hc, Pool.held, zero_add]
      exact ⟨hw, hb⟩
    · obtain ⟨d, q', he, hcont, hw'⟩ := pqcTxProcess_eq hw hc
      simp only [Ledger.call, he, Pool.held]
      refine ⟨hw', ?_⟩
      rw [hb, hcont, Multiset.add_cons, Multiset.singleton_add, Multiset.cons_add,
        Multiset.cons_add]
  | drop nodeId msgType msgId =>
    obtain ⟨-, hcont, hw'⟩ := pqcTxDrop_spec nodeId msgType msgId hw
    exact Ledger.Balanced.drop ⟨hw, hb⟩ hcont hw'
  | dropNode nodeId =>
    obtain ⟨-, hcont, hw'⟩ := pqcTxDropNode_spec nodeId hw
    exact Ledger.Balanced.drop ⟨hw, hb⟩ hcont hw'

theorem Ledger.balanced_run (calls : List Call) : (Ledger.run calls).Balanced := by
  induction calls using List.reverseRecOn with
  | nil =>
    rw [Ledger.run, List.foldl_nil]
    exact ⟨wellFormed_init, by simp only [Ledger.init, contents_init, add_zero]⟩
  | append_singleton calls c ih =>
    rw [Ledger.run, List.foldl_append, List.foldl_cons, List.foldl_nil]
    exact Ledger.balanced_call ih c

/-- The number of slots in use. -/
def activeEntries (q : TxQueue) : ℕ :=
  (Finset.univ.filter (fun i => (q.txQueue i).active = true)).card

theorem activeEntries_eq (q : TxQueue) : q.activeEntries = q.contents.card := by
  rw [contents, Pool.card_contents, activeEntries]
  congr 1
  ext i
  cases h : (q.txQueue i).active <;> simp [slots, h]

theorem pqcUdpSendFragment_accepts_iff {data : Bytes} (conn : UdpConn) (dest : IpAddr)
    (hs : Sendable data) (h : q.WellFormed) :
    (q.pqcUdpSendFragment (some data) (some ⟨some conn, some dest⟩)).1 = true ↔
      q.activeEntries < pqcTxQueueSize := by
  rw [activeEntries_eq, ← h.count]
  constructor
  · intro ht
    rcases pqcUdpSendFragment_cases q (some data) (some ⟨some conn, some dest⟩) with
      he | ⟨-, -, -, -, -, -, -, hc, -, -⟩
    · simp [he] at ht
    · exact hc
  · intro hc
    obtain ⟨idx, -, he⟩ := pqcUdpSendFragment_eq conn dest hs h hc
    rw [he]

/-- After any calls the counter is exact, sends succeed exactly while there is room, and every
accepted packet is accounted for; processing sends one packet, drops count what they remove. -/
theorem tx_queue_conserves (calls : List Call) :
    let l := Ledger.run calls
    let q := l.queue
    q.txCount = q.activeEntries ∧ q.txTail < pqcTxQueueSize ∧
    (∀ data conn dest, Sendable data →
      ((q.pqcUdpSendFragment (some data) (some ⟨some conn, some dest⟩)).1 = true ↔
        q.activeEntries < pqcTxQueueSize)) ∧
    l.accepted = l.sent + l.dropped + q.contents ∧
    (q.activeEntries ≠ 0 → ∃ d, q.pqcTxProcess.2.1 = some d ∧ q.pqcTxProcess.1 = true ∧
      q.contents = d ::ₘ q.pqcTxProcess.2.2.contents) ∧
    (∀ nodeId msgType msgId, (q.pqcTxDrop nodeId msgType msgId).1 +
      (q.pqcTxDrop nodeId msgType msgId).2.activeEntries = q.activeEntries) ∧
    (∀ nodeId, (q.pqcTxDropNode nodeId).1 + (q.pqcTxDropNode nodeId).2.activeEntries =
      q.activeEntries) := by
  intro l q
  obtain ⟨hw, hb⟩ := Ledger.balanced_run calls
  refine ⟨hw.count.trans (activeEntries_eq q).symm, hw.tail, ?_, hb, ?_, ?_, ?_⟩
  · intro data conn dest hs
    exact pqcUdpSendFragment_accepts_iff conn dest hs hw
  · intro hne
    rw [activeEntries_eq, ← hw.count] at hne
    obtain ⟨d, q', he, hcont, -⟩ := pqcTxProcess_eq hw hne
    exact ⟨d, by rw [he], by rw [he], by rw [he]; exact hcont⟩
  · intro nodeId msgType msgId
    obtain ⟨hn, hcont, -⟩ := pqcTxDrop_spec nodeId msgType msgId hw
    rw [hn, activeEntries_eq, activeEntries_eq, ← Multiset.card_add, ← hcont]
  · intro nodeId
    obtain ⟨hn, hcont, -⟩ := pqcTxDropNode_spec nodeId hw
    rw [hn, activeEntries_eq, activeEntries_eq, ← Multiset.card_add, ← hcont]

end TxQueue

end PqcContiki
