import PqcContiki.CtRetryTicks

/-!
The root's retry while a ciphertext arrives. It asks for what is missing, unless the collection of
expired slots, which runs first and with the timeout of the retry, has taken the fragments away.
-/
namespace PqcContiki

open TxQueue Runs

namespace Root

variable {P : Platform} {past : List Root} {rnd : Entropy} {r r' : Root}
  {i k : Fin sessionMaxNodes} {j : Fin hsRxSlotCount} {clk : Clock}

def tickVisits (clk : Fin sessionMaxNodes → Clock) (ks : List (Fin sessionMaxNodes)) : List Visit :=
  ks.map fun k => (k, clk k)

/-- The visits of some ticks, and those of one more until it is the turn of session `i`. -/
def visitsBefore (ticks : List (Fin sessionMaxNodes → Clock)) (clk : Fin sessionMaxNodes → Clock)
    (i : Fin sessionMaxNodes) : List Visit :=
  ticks.flatMap (fun clk => tickVisits clk (List.finRange sessionMaxNodes)) ++
    tickVisits clk ((List.finRange sessionMaxNodes).filter (· < i))

/-- The root after some ticks, and one more until it is the turn of session `i`. -/
def ticked (P : Platform) (ticks : List (Fin sessionMaxNodes → Clock))
    (clk : Fin sessionMaxNodes → Clock) (i : Fin sessionMaxNodes) (r : Root) : Root :=
  ((List.finRange sessionMaxNodes).filter (· < i)).foldl (fun r k => r.retrySession P (clk k) k)
    (ticks.foldl (fun r clk => r.retryTick P clk) r)

theorem ticked_eq (ticks : List (Fin sessionMaxNodes → Clock)) (clk : Fin sessionMaxNodes → Clock)
    (i : Fin sessionMaxNodes) (r : Root) :
    r.ticked P ticks clk i = (visitsBefore ticks clk i).foldl (visit P) r := by
  have hticks : (ticks.flatMap fun clk => tickVisits clk (List.finRange sessionMaxNodes)).foldl
      (visit P) r = ticks.foldl (fun r clk => r.retryTick P clk) r := by
    induction ticks generalizing r with
    | nil => rfl
    | cons clk' ticks ih =>
      rw [List.flatMap_cons, List.foldl_append, ih, List.foldl_cons]
      rw [tickVisits, List.foldl_map]
      rfl
  rw [visitsBefore, List.foldl_append, hticks, tickVisits, List.foldl_map]
  rfl

/-- Part of a ciphertext for session `i` is in slot `j`. -/
structure Receiving (i : Fin sessionMaxNodes) (j : Fin hsRxSlotCount) (r : Root) : Prop where
  used : (r.sessions i).used = true
  state : (r.sessions i).state = .waitCt
  pending : (r.sessions i).pendingMsgType = pqcMsgCt
  budget : (r.sessions i).retryCount < sessionMaxRetries
  owns : HsStatics.owns (.sessions i) (r.hs.rxSlots j) = true
  active : (r.hs.rxSlots j).ctx.active = true
  incomplete : fragmentRxComplete (r.hs.rxSlots j).ctx = false

/-- At its deadline the root asks for the rest of a ciphertext if and only if, whenever it looked
for expired slots on the way and last of all in that very call, the slot was not older than the
timeout. -/
theorem ct_retry_recovers (hr : Reaches P past r) (h : Receiving i j r)
    (ticks : List (Fin sessionMaxNodes → Clock)) (clk : Fin sessionMaxNodes → Clock)
    (hearly : ∀ clk' ∈ ticks, (r.sessions i).sessionRetryDue (clk' i 1) = false)
    (hdue : (r.sessions i).sessionRetryDue (clk i 1) = true)
    (hempty : (r.ticked P ticks clk i).tx.pqcTxHasPending = false) (dest : IpAddr) :
    let f := (r.ticked P ticks clk i).fsm i
    Recovers (.sessions i) j (r.hs.rxSlots j).ctx dest f
        (f.hsFsmRetry P (.sessions i) (clk i) ⟨some udpConn, some dest⟩).2 ↔
      ∀ t ∈ clk i 0 :: gcReadings P r (visitsBefore ticks clk i),
        P.clockSub t (r.hs.rxSlots j).startedAt ≤ P.hsRxTimeout := by
  have hactive := (owns_iff.mp h.owns).1
  have hexp (t : ℕ) : P.clockSub t (r.hs.rxSlots j).startedAt ≤ P.hsRxTimeout ↔
      HsStatics.slotExpired P t (r.hs.rxSlots j) = false := by
    simp [HsStatics.slotExpired, hactive]
  simp only [hexp, List.forall_mem_cons]
  have hvisits : Early i (visitsBefore ticks clk i) (r.sessions i) := by
    rintro ⟨k, clk'⟩ hv rfl
    rcases List.mem_append.mp hv with hv | hv
    · obtain ⟨clk₀, hclk, hk⟩ := List.mem_flatMap.mp hv
      obtain ⟨k', -, hk'⟩ := List.mem_map.mp hk
      obtain ⟨rfl, rfl⟩ := Prod.mk.inj hk'
      exact hearly clk₀ hclk
    · obtain ⟨k', hlt, hk'⟩ := List.mem_map.mp hv
      obtain ⟨rfl, rfl⟩ := Prod.mk.inj hk'
      simp at hlt
  have hsingle : ∀ k, HsStatics.owns (.sessions i) (r.hs.rxSlots k) = true → k = j :=
    fun k hk => hr.table.1.slots.single k j _ hk h.owns
  have hsession := visits_session (P := P) h.state hvisits
  have hslot := visits_slot (P := P) h.state h.owns hsingle hvisits
  have hacts := visits_acts (P := P) (visitsBefore ticks clk i) r
  have hq := wellFormed_acts hr.wellFormed hacts
  have hslots := reassembles_acts hr.reassembles hacts
  rw [ticked_eq] at hempty ⊢
  generalize (visitsBefore ticks clk i).foldl (visit P) r = r' at *
  have hs : (r'.fsm i).s = r.sessions i := hsession
  have hrole : (r'.fsm i).s.role = .root := by
    rw [hs]
    exact ((Reaches.sound hr).sessions i h.used).1
  rw [Fsm.hsFsmRetry_ct (f := r'.fsm i) hrole (hs ▸ h.pending) (hs ▸ h.budget) (hs ▸ hdue) hempty]
  obtain ⟨slots, hgc, hcol⟩ := rxSlotsGc_eq P (clk i 0) r'.hs
  have hafter (k : Fin hsRxSlotCount) : ((r'.fsm i).rxSlotsGc P (clk i 0)).hs.rxSlots k =
      if HsStatics.slotExpired P (clk i 0) (r'.hs.rxSlots k) then RxSlot.zero
      else r'.hs.rxSlots k := rfl
  have hassigned : Assigned (fun _ ctx => ctx.Reachable)
      ((r'.fsm i).rxSlotsGc P (clk i 0)).hs.rxSlots := by
    have hcollected := hslots.collect hcol
    change Assigned _ (r'.hs.rxSlotsGc P (clk i 0)).rxSlots
    rwa [hgc]
  by_cases hfresh : HsStatics.slotExpired P (clk i 0) (r.hs.rxSlots j) = false ∧
      ∀ t ∈ gcReadings P r (visitsBefore ticks clk i),
        HsStatics.slotExpired P t (r.hs.rxSlots j) = false
  · refine iff_of_true ?_ hfresh
    rw [if_pos hfresh.2] at hslot
    have hkept : ((r'.fsm i).rxSlotsGc P (clk i 0)).hs.rxSlots j = r.hs.rxSlots j := by
      rw [hafter, hslot, if_neg (by simp [hfresh.1])]
    have hzero : r'.tx.txCount = 0 := by simpa [pqcTxHasPending] using hempty
    have hrec := Fsm.retryCtReceive_recovers P (clk i) hassigned (hkept ▸ h.owns)
      (hkept ▸ h.active) (hkept ▸ h.incomplete) (hs ▸ h.state) (hs ▸ h.budget) hq hzero dest
    rw [hkept] at hrec
    exact ⟨hrec.asks, hrec.owns, hrec.ctx, hrec.retryCount, hrec.state⟩
  · refine iff_of_false ?_ hfresh
    have hnone : ∀ k, HsStatics.owns (.sessions i)
        (((r'.fsm i).rxSlotsGc P (clk i 0)).hs.rxSlots k) = false := by
      intro k
      rw [hafter, ← Bool.not_eq_true]
      intro hown
      split at hown
      · cases hown
      · rename_i hk
        split_ifs at hslot with hall
        · have hownj : HsStatics.owns (.sessions i) (r'.hs.rxSlots j) = true := hslot ▸ h.owns
          obtain rfl := hslots.single k j _ hown hownj
          rw [hslot] at hk
          exact hfresh ⟨by simpa using hk, hall⟩
        · rw [hslot k] at hown
          cases hown
    intro hrec
    have hstate := hrec.state
    rw [Fsm.retryCtReceive_gone hnone] at hstate
    cases hstate

def firstFragment : Bytes :=
  pqcHeaderWrite pqcMsgCt 7 1 0 71 64 pqcFlagNone ++ List.replicate 64 0

/-- The key has been sent, and the first fragment of the answer came at time 0. -/
def afterFirstFragment : Root :=
  (getpkFrom 7 :: List.replicate 36 Event.transmit ++
    [Event.receive (fun _ => 0) 0 7 firstFragment]).foldl (handle Platform.demo)
    (boot Platform.demo 0)

theorem reaches_afterFirstFragment : ∃ past, Reaches Platform.demo past afterFirstFragment :=
  Run.foldl (.start ⟨0, rfl⟩) _ fun _ _ _ => rfl

/-- A tick in which all clocks read the same. -/
def tickAt (t : ℕ) : Fin sessionMaxNodes → Clock := fun _ _ => t

/-- One tick a second, two minutes long, and the first of them at time `t`. -/
def twoMinutes (t : ℕ) : List (Fin sessionMaxNodes → Clock) :=
  (List.range 120).map fun k => tickAt (128 * k + t)

set_option maxRecDepth 10000 in
theorem afterFirstFragment_facts :
    (((afterFirstFragment.sessions 0).used = true ∧
        (afterFirstFragment.sessions 0).state = .waitCt ∧
        (afterFirstFragment.sessions 0).pendingMsgType = pqcMsgCt ∧
        (afterFirstFragment.sessions 0).retryCount < sessionMaxRetries) ∧
      HsStatics.owns (.sessions 0) (afterFirstFragment.hs.rxSlots 0) = true ∧
      (afterFirstFragment.hs.rxSlots 0).ctx.active = true ∧
      fragmentRxComplete (afterFirstFragment.hs.rxSlots 0).ctx = false) ∧
    ((afterFirstFragment.hs.rxSlots 0).startedAt = 0 ∧
      (afterFirstFragment.sessions 0).waitingResponse = true ∧
      (afterFirstFragment.sessions 0).retryDeadline = 15360) ∧
    ((afterFirstFragment.ticked Platform.demo (twoMinutes 0) (tickAt 15360) 0).tx.pqcTxHasPending =
        false ∧ ∀ t ∈ gcReadings Platform.demo afterFirstFragment
          (visitsBefore (twoMinutes 0) (tickAt 15360) 0),
        Platform.demo.clockSub t 0 ≤ Platform.demo.hsRxTimeout) ∧
    (afterFirstFragment.ticked Platform.demo (twoMinutes 1) (tickAt 15361) 0).tx.pqcTxHasPending =
        false ∧
      (((afterFirstFragment.ticked Platform.demo (twoMinutes 1) (tickAt 15361) 0).fsm 0).hsFsmRetry
        Platform.demo (.sessions 0) (tickAt 15361 0) ⟨some udpConn, some 7⟩).2.s.state =
        .failed := by
  decide +kernel

theorem receiving_afterFirstFragment : Receiving 0 0 afterFirstFragment := by
  obtain ⟨⟨⟨hused, hstate, hpending, hbudget⟩, howns, hactive, hincomplete⟩, -⟩ :=
    afterFirstFragment_facts
  exact ⟨hused, hstate, hpending, hbudget, howns, hactive, hincomplete⟩

theorem due_afterFirstFragment (now : ℕ) :
    (afterFirstFragment.sessions 0).sessionRetryDue now = decide (now ≥ 15360) := by
  obtain ⟨-, ⟨-, hwaiting, hdeadline⟩, -⟩ := afterFirstFragment_facts
  rw [Session.sessionRetryDue, hwaiting, hdeadline, Bool.true_and]

theorem early_twoMinutes {t : ℕ} (ht : t < 128) : ∀ clk ∈ twoMinutes t,
    (afterFirstFragment.sessions 0).sessionRetryDue (clk 0 1) = false := by
  intro clk hclk
  obtain ⟨k, hk, rfl⟩ := List.mem_map.mp hclk
  have hlt := List.mem_range.mp hk
  rw [due_afterFirstFragment, decide_eq_false_iff_not]
  simp only [tickAt]
  omega

/-- A tick right at the deadline recovers the ciphertext. -/
theorem ct_retry_recovers_on_time :
    let f := (afterFirstFragment.ticked Platform.demo (twoMinutes 0) (tickAt 15360) 0).fsm 0
    Recovers (.sessions 0) 0 (afterFirstFragment.hs.rxSlots 0).ctx 7 f
      (f.hsFsmRetry Platform.demo (.sessions 0) (tickAt 15360 0) ⟨some udpConn, some 7⟩).2 := by
  obtain ⟨past, hr⟩ := reaches_afterFirstFragment
  obtain ⟨-, ⟨hstarted, -⟩, ⟨hempty, hreadings⟩, -⟩ := afterFirstFragment_facts
  have hdue : (afterFirstFragment.sessions 0).sessionRetryDue (tickAt 15360 0 1) = true := by
    rw [due_afterFirstFragment]
    rfl
  refine (ct_retry_recovers hr receiving_afterFirstFragment (twoMinutes 0) (tickAt 15360)
    (early_twoMinutes (by decide)) hdue hempty 7).mpr ?_
  rw [hstarted]
  exact List.forall_mem_cons.mpr ⟨by decide, hreadings⟩

/-- With ticks 1/128 of a second later the session fails at its deadline. -/
theorem ct_retry_fails :
    let r := afterFirstFragment.ticked Platform.demo (twoMinutes 1) (tickAt 15361) 0
    let f := ((r.fsm 0).hsFsmRetry Platform.demo (.sessions 0) (tickAt 15361 0)
      ⟨some udpConn, some 7⟩).2
    (∃ past, Reaches Platform.demo past afterFirstFragment) ∧ Receiving 0 0 afterFirstFragment ∧
      (∀ clk ∈ twoMinutes 1, (afterFirstFragment.sessions 0).sessionRetryDue (clk 0 1) = false) ∧
      (afterFirstFragment.sessions 0).sessionRetryDue (tickAt 15361 0 1) = true ∧
      r.tx.pqcTxHasPending = false ∧ f.s.state = .failed ∧
      ¬ Recovers (.sessions 0) 0 (afterFirstFragment.hs.rxSlots 0).ctx 7 (r.fsm 0) f := by
  obtain ⟨-, -, -, hempty, hfailed⟩ := afterFirstFragment_facts
  refine ⟨reaches_afterFirstFragment, receiving_afterFirstFragment, early_twoMinutes (by decide),
    by simp [due_afterFirstFragment, tickAt], hempty, hfailed, ?_⟩
  intro hrec
  exact absurd (hfailed.symm.trans hrec.state) (by decide)

end Root

end PqcContiki
