import PqcContiki.TxTimeline

/-!
The order in which packets leave the TX queue. Slots are filled round the ring but served from the
lowest index, so the order of acceptance survives only while no packet is placed below an older one
of its node and class.
-/
namespace PqcContiki.TxQueue

open Runs

variable {q : TxQueue} {idx i j : Fin pqcTxQueueSize}

namespace Timeline

variable {t t' : Timeline} {c : Call} {past : List Timeline}

/-- The queue is empty and its next packet goes to slot `tail`. -/
structure Drained (q : TxQueue) (tail : Fin pqcTxQueueSize) : Prop where
  inactive : ∀ i, (q.txQueue i).active = false
  count : q.txCount = 0
  tail : q.txTail = tail

variable {tail : Fin pqcTxQueueSize}

theorem Drained.wellFormed (h : Drained q tail) : q.WellFormed where
  count := by
    rw [h.count, contents, Pool.contents_empty (fun i => slots_of_inactive (h.inactive i))]
    rfl
  tail := by
    rw [h.tail]
    exact tail.isLt
  entry := by
    intro i hi
    rw [h.inactive i] at hi
    cases hi

/-- The slot behind the tail is taken if it is free. -/
theorem findFreeSlot_tail (ht : q.txTail = tail) (hi : (q.txQueue tail).active = false) :
    q.pqcTxFindFreeSlot = some tail := by
  have h0 : q.slotAfterTail 0 = tail := by
    apply Fin.ext
    simp only [slotAfterTail, ht, add_zero]
    exact Nat.mod_eq_of_lt tail.isLt
  have hr : List.range pqcTxQueueSize = 0 :: (List.range 95).map Nat.succ :=
    List.range_succ_eq_map
  unfold pqcTxFindFreeSlot
  rw [hr, List.map_cons, h0, List.find?_cons_of_pos (by simp [hi])]

/-- A send context that passes every null check. -/
def somewhere : Option UdpSendCtx := some ⟨some 0, some 0⟩

theorem call_send {data : Bytes} (hw : t.queue.WellFormed) (hc : t.queue.txCount < pqcTxQueueSize)
    (hs : Sendable data) (ht : t.queue.txTail = tail)
    (hi : (t.queue.txQueue tail).active = false) :
    t.call (.send (some data) somewhere) =
      ⟨t.queue.pqcTxPut tail data 0 0, Function.update t.number tail t.next, t.next + 1,
        t.left⟩ := by
  have hf := findFreeSlot_tail ht hi
  rcases pqcUdpSendFragment_cases t.queue (some data) somewhere with
    he | ⟨p, conn, dest, idx, hp, hu, -, -, hf', he⟩
  · obtain ⟨idx, -, hput⟩ := pqcUdpSendFragment_eq 0 0 hs hw hc
    rw [somewhere, hput] at he
    cases he
  · obtain rfl := Option.some.inj hp
    obtain rfl : tail = idx := Option.some.inj (hf.symm.trans hf')
    obtain ⟨rfl, rfl⟩ : (0 : UdpConn) = conn ∧ (0 : IpAddr) = dest := by
      simpa [somewhere] using hu
    simp only [Timeline.call, he, hf]

theorem call_process (hs : t.queue.pqcTxSelectSlot = some idx) (hc : t.queue.txCount ≠ 0) :
    t.call .process =
      { t with
        queue := ⟨Function.update t.queue.txQueue idx TxEntry.zero, t.queue.txTail,
          t.queue.txCount - 1, (t.queue.txQueue idx).nodeId⟩
        left := ⟨(t.queue.txQueue idx).nodeId, (t.queue.txQueue idx).priority, t.number idx⟩ ::
          t.left } := by
  simp only [Timeline.call, pqcTxProcess, if_neg hc, hs]

/-- The only packet that waits is the one that is served. -/
theorem selectSlot_only (hw : q.WellFormed) (hc : q.txCount ≠ 0)
    (honly : ∀ i, (q.txQueue i).active = true → i = idx) : q.pqcTxSelectSlot = some idx := by
  obtain ⟨i, hs⟩ := selectSlot_isSome hw hc
  rw [hs, honly i (active_of_selectSlot hs)]

theorem wellFormed_served (hw : q.WellFormed) (hs : q.pqcTxSelectSlot = some idx)
    (hc : q.txCount ≠ 0) :
    WellFormed ⟨Function.update q.txQueue idx TxEntry.zero, q.txTail, q.txCount - 1,
      (q.txQueue idx).nodeId⟩ := by
  obtain ⟨d, q', he, -, hw'⟩ := pqcTxProcess_eq hw hc
  simp only [pqcTxProcess, if_neg hc, hs, Prod.mk.injEq] at he
  rw [he.2.2]
  exact hw'

def announcement : Bytes := pqcHeaderWrite pqcMsgGetpk 1 0 0 1 0 pqcFlagNone

theorem sendable_announcement : Sendable announcement := by
  unfold Sendable announcement
  decide

/-- A packet that is sent as soon as it is queued moves the tail on by one slot. -/
theorem drained_round (h : Drained t.queue tail) :
    Drained ((t.call (.send (some announcement) somewhere)).call .process).queue (tail + 1) := by
  have hw := h.wellFormed
  have hsent := call_send hw (by rw [h.count]; decide) sendable_announcement h.tail
    (h.inactive tail)
  have hw' := wellFormed_put 0 0 hw (h.inactive tail) sendable_announcement.2
    sendable_announcement.1
  have hcount : (t.queue.pqcTxPut tail announcement 0 0).txCount = 1 := by
    simp [pqcTxPut, h.count]
  have hselect : (t.queue.pqcTxPut tail announcement 0 0).pqcTxSelectSlot = some tail := by
    apply selectSlot_only hw' (by rw [hcount]; decide)
    intro i hi
    by_contra hne
    simp [pqcTxPut, Function.update_of_ne hne, h.inactive i] at hi
  rw [hsent, call_process hselect (by rw [hcount]; decide)]
  refine ⟨?_, ?_, ?_⟩
  · intro i
    by_cases hne : i = tail
    · subst i
      simp [TxEntry.zero]
    · simp [pqcTxPut, hne, h.inactive i]
  · dsimp only
    rw [hcount]
  · simp only [pqcTxPut, Fin.val_add]
    rfl

def rounds (n : ℕ) : List Call :=
  (List.replicate n [Call.send (some announcement) somewhere, .process]).flatten

theorem drained_rounds (n : ℕ) (h : Drained t.queue tail) :
    Drained ((rounds n).foldl call t).queue (tail + Fin.ofNat _ n) := by
  induction n generalizing t tail with
  | zero => simpa [rounds] using h
  | succ n ih =>
    have hnext := ih (drained_round h)
    have htail : tail + 1 + Fin.ofNat _ n = tail + Fin.ofNat pqcTxQueueSize (n + 1) := by
      apply Fin.ext
      simp only [Fin.val_add, Fin.ofNat, pqcTxQueueSize]
      have h1 : (1 : Fin 96).val = 1 := rfl
      omega
    rw [htail] at hnext
    simpa [rounds, List.replicate_succ] using hnext

def run (calls : List Call) : Timeline := calls.foldl call init

/-- The two fragments of a message of 65 bytes. -/
def piece (fragIdx : ℕ) : Bytes :=
  fragmentTxPacket (List.replicate 65 0) pqcMsgPk 1 0 pqcFlagNone 2 fragIdx

theorem sendable_piece_zero : Sendable (piece 0) := by
  unfold Sendable piece
  decide

theorem sendable_piece_one : Sendable (piece 1) := by
  unfold Sendable piece
  decide

theorem piece_class (fragIdx : ℕ) : pqcHeaderGetNodeId (piece fragIdx) = 1 ∧
    pqcTxPriorityForMsg (byteAt (piece fragIdx) pqcHdrMsgType) = pqcTxPriorityNormal := by
  refine ⟨by simp [piece, fragmentTxPacket], ?_⟩
  simp only [piece, fragmentTxPacket, byteAt_msgType_write]
  rfl

/-- Queued across the end of the ring, the last fragment of a message leaves before the first. -/
theorem overtaken_at_wrap (h : Drained t.queue 95) :
    ∃ left, ((((t.call (.send (some (piece 0)) somewhere)).call
        (.send (some (piece 1)) somewhere)).call .process).call .process).left =
      ⟨1, pqcTxPriorityNormal, t.next⟩ :: ⟨1, pqcTxPriorityNormal, t.next + 1⟩ :: left := by
  have hw := h.wellFormed
  have h0 := call_send hw (by rw [h.count]; decide) sendable_piece_zero h.tail (h.inactive 95)
  have hw0 := wellFormed_put 0 0 hw (h.inactive 95) sendable_piece_zero.2 sendable_piece_zero.1
  rw [h0]
  generalize hq0 : t.queue.pqcTxPut 95 (piece 0) 0 0 = q0 at hw0 ⊢
  have hidle : (q0.txQueue 0).active = false := by
    simp [← hq0, pqcTxPut, h.inactive]
  have hcount0 : q0.txCount = 1 := by simp [← hq0, pqcTxPut, h.count]
  have htail0 : q0.txTail = (0 : Fin pqcTxQueueSize) := by simp [← hq0, pqcTxPut]
  rw [call_send hw0 (by rw [hcount0]; decide) sendable_piece_one htail0 hidle]
  have hw1 := wellFormed_put 0 0 hw0 hidle sendable_piece_one.2 sendable_piece_one.1
  dsimp only
  generalize hq1 : q0.pqcTxPut 0 (piece 1) 0 0 = q1 at hw1 ⊢
  have hfirst : q1.txQueue 95 = q0.txQueue 95 := by simp [← hq1, pqcTxPut]
  have hrest : ∀ i, i ≠ 0 → i ≠ 95 → (q1.txQueue i).active = false := by
    intro i hi0 hi95
    simp [← hq1, ← hq0, pqcTxPut, hi0, hi95, h.inactive i]
  have hclass0 : (q1.txQueue 95).active = true ∧ (q1.txQueue 95).nodeId = 1 ∧
      (q1.txQueue 95).priority = pqcTxPriorityNormal := by
    simp only [hfirst, ← hq0, pqcTxPut, Function.update_self, true_and]
    exact piece_class 0
  have hclass1 : (q1.txQueue 0).active = true ∧ (q1.txQueue 0).nodeId = 1 ∧
      (q1.txQueue 0).priority = pqcTxPriorityNormal := by
    simp only [← hq1, pqcTxPut, Function.update_self, true_and]
    exact piece_class 1
  have hcount1 : q1.txCount = 2 := by simp [← hq1, pqcTxPut, hcount0]
  have hc1 : q1.txCount ≠ 0 := by omega
  have hs1 : q1.pqcTxSelectSlot = some 0 := by
    obtain ⟨i, hs⟩ := selectSlot_isSome hw1 hc1
    by_cases hi0 : i = 0
    · rw [hs, hi0]
    · by_cases hi95 : i = 95
      · subst i
        have hle := selectSlot_lowest hs hclass1.1
          ⟨hclass1.2.1.trans hclass0.2.1.symm, hclass1.2.2.trans hclass0.2.2.symm⟩
        exact absurd hle (by decide)
      · have ha := active_of_selectSlot hs
        rw [hrest i hi0 hi95] at ha
        cases ha
  have hw2 := wellFormed_served hw1 hs1 hc1
  rw [call_process (t := ⟨q1, _, _, _⟩) hs1 hc1]
  dsimp only
  have hs2 : pqcTxSelectSlot ⟨Function.update q1.txQueue 0 TxEntry.zero, q1.txTail, q1.txCount - 1,
      (q1.txQueue 0).nodeId⟩ = some 95 := by
    apply selectSlot_only hw2 (by simp only [hcount1]; decide)
    intro i hi
    by_contra hi95
    by_cases hi0 : i = 0
    · subst i
      simp [TxEntry.zero] at hi
    · simp [Function.update_of_ne hi0, hrest i hi0 hi95] at hi
  rw [call_process (t := ⟨_, _, _, _⟩) hs2 (by simp only [hcount1]; decide)]
  refine ⟨t.left, ?_⟩
  simp [hclass0.2, hclass1.2]

/-- 95 packets one by one, then the two fragments of a message. -/
def wrapping : List Call :=
  rounds 95 ++ [.send (some (piece 0)) somewhere, .send (some (piece 1)) somewhere, .process,
    .process]

theorem tx_queue_wrap_overtakes : ¬ (run wrapping).InOrder := by
  have hinit : Drained init.queue 0 := ⟨fun _ => rfl, rfl, rfl⟩
  have hdrained := drained_rounds 95 hinit
  rw [show (0 : Fin pqcTxQueueSize) + Fin.ofNat _ 95 = 95 from rfl] at hdrained
  obtain ⟨left, hleft⟩ := overtaken_at_wrap hdrained
  intro h
  simp only [run, wrapping, List.foldl_append, List.foldl_cons, List.foldl_nil, InOrder,
    hleft] at h
  have hpair := (List.pairwise_cons.mp h).1 _ (List.mem_cons_self ..) rfl rfl
  dsimp only at hpair
  omega

/-- Queued from an empty ring, the two fragments leave in order. -/
theorem tx_queue_in_order_two :
    (run [.send (some (piece 0)) somewhere, .send (some (piece 1)) somewhere, .process,
      .process]).InOrder := by
  have hidle : ∀ i, (init.queue.txQueue i).active = false := fun _ => rfl
  have h0 := call_send wellFormed_init (by decide) sendable_piece_zero
    (t := init) (rfl : init.queue.txTail = 0) (hidle 0)
  have hsecond : Ascending (init.call (.send (some (piece 0)) somewhere)).queue
      (.send (some (piece 1)) somewhere) := by
    rw [h0]
    intro _ idx hf j hj _ _
    have hfree := inactive_of_findFreeSlot hf
    obtain rfl : j = 0 := by
      by_contra hne
      simp [pqcTxPut, Function.update_of_ne hne, hidle j] at hj
    apply Fin.pos_of_ne_zero
    rintro rfl
    simp [pqcTxPut] at hfree
  have hfirst : Ascending init.queue (.send (some (piece 0)) somewhere) := by
    intro _ idx _ j hj
    rw [hidle j] at hj
    cases hj
  have hrun : ∃ past, Run (· = init) (fun t c t' => Ascending t.queue c ∧ t' = t.call c) past
      ((((init.call (.send (some (piece 0)) somewhere)).call
        (.send (some (piece 1)) somewhere)).call .process).call .process) :=
    ⟨_, .next (e := .process) (.next (e := .process) (.next (.next (.start rfl) ⟨hfirst, rfl⟩)
      ⟨hsecond, rfl⟩) ⟨trivial, rfl⟩) ⟨trivial, rfl⟩⟩
  obtain ⟨past, hrun⟩ := hrun
  exact tx_queue_in_order hrun

end Timeline

end PqcContiki.TxQueue
