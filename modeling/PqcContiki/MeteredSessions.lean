import PqcContiki.ImpactWindows

/-!
What became of the TEMP packets of a session since an impact window opened: a meter beside the
two counters that the window compares.
-/
namespace PqcContiki

open Relation Runs

/-- The offset at which a TEMP packet is accepted: how many counters it skips. -/
def acceptedOffset (P : Platform) (s : Session) (data : Bytes) : Option ℕ :=
  if TempAdmitted s data then
    (List.range pqcTempRxCounterWindow).find? fun offset =>
      (trialPayload P s data (s.rxCounter + UInt32.ofNat offset)).counter ==
        s.rxCounter + UInt32.ofNat offset
  else none

/-- What became of the TEMP packets of a session since the window opened: how many were accepted,
how many counters they skipped, and what restarts took off `rx_counter`. -/
structure Meter where
  ok : ℕ
  skipped : ℕ
  cleared : UInt32

namespace Meter

def zero : Meter := ⟨0, 0, 0⟩

def next (m : Meter) (heard : Option ℕ) (cleared : UInt32) : Meter where
  ok := m.ok + if heard.isSome then 1 else 0
  skipped := m.skipped + heard.getD 0
  cleared := m.cleared + cleared

/-- The change of `rx_counter` that goes with it. -/
def rxDelta (m : Meter) : UInt32 := UInt32.ofNat (m.ok + m.skipped) - m.cleared

end Meter

/-- A row that reports of a watched node. -/
def CsvRow.Reporting : CsvRow → Prop
  | .event _ kind _ _ _ _ _ => kind = .impactTemp ∨ kind = .impactResync
  | .temp _ _ => False

/-- The row reports the difference between a session and its snapshot. -/
def CsvRow.Tells (s : Session) (snapshot : ImpactSnapshot) : CsvRow → Prop
  | .event id .impactTemp _ ok _ gap _ => id = snapshot.nodeId ∧
      ok = s.metrics.temp.tempRxOk - snapshot.tempRxOk ∧
      gap = if s.rxCounter - snapshot.rxCounter > ok then s.rxCounter - snapshot.rxCounter - ok
        else 0
  | .event id .impactResync _ _ rx _ _ => id = snapshot.nodeId ∧
      rx = s.rxCounter - snapshot.rxCounter
  | _ => False

namespace Root

variable {P : Platform} {clk : Clock} {rnd : Entropy} {r r' r'' r₀ r₁ r₂ : Root}
  {i j : Fin sessionMaxNodes} {nodeId : UInt16} {csv csv' rows : List CsvRow} {row : CsvRow}
  {s s' s'' : Session} {past : List Root} {m : Meter} {snapshot : ImpactSnapshot}
  {snapshots : List ImpactSnapshot} {now : ℕ} {success : Bool} {sender : IpAddr} {d : Bytes}

/-- Neither counter of the reports moved. -/
structure Unmoved (s s' : Session) : Prop where
  ok : s'.metrics.temp.tempRxOk = s.metrics.temp.tempRxOk
  rx : s'.rxCounter = s.rxCounter

theorem Unmoved.refl (s : Session) : Unmoved s s := ⟨rfl, rfl⟩

theorem Unmoved.trans (h : Unmoved s s') (h' : Unmoved s' s'') : Unmoved s s'' :=
  ⟨h'.ok.trans h.ok, h'.rx.trans h.rx⟩

theorem unmoved_of_books (htemp : s'.books.temp = s.books.temp)
    (hrx : s'.books.rxCounter = s.books.rxCounter) : Unmoved s s' :=
  ⟨congrArg TempMetrics.tempRxOk htemp, hrx⟩

theorem Quiet.unmoved (h : Quiet s s') : Unmoved s s' :=
  unmoved_of_books (by rw [h.books]) (by rw [h.books])

theorem Booked.unmoved (h : Booked s s') : Unmoved s s' := by
  cases h with
  | quiet hq => exact Quiet.unmoved hq
  | onward _ _ _ hb => exact unmoved_of_books (by rw [hb]) (by rw [hb])
  | failed _ _ _ hb => exact unmoved_of_books (by rw [hb]; rfl) (by rw [hb]; rfl)
  | succeeded _ _ _ hb => exact unmoved_of_books (by rw [hb]; rfl) (by rw [hb]; rfl)

/-- A session moved by a TEMP packet accepted at `heard`, or cleared by `cleared`. -/
structure Moves (s s' : Session) (heard : Option ℕ) (cleared : UInt32) : Prop where
  ok : s'.metrics.temp.tempRxOk = s.metrics.temp.tempRxOk + if heard.isSome then 1 else 0
  rx : s'.rxCounter =
    s.rxCounter + (heard.elim 0 fun offset => UInt32.ofNat (offset + 1)) - cleared

theorem Unmoved.moves (h : Unmoved s s') : Moves s s' none 0 :=
  ⟨by simp [h.ok], by simp [h.rx]⟩

theorem moves_pqcHandleEncryptedTemp (P : Platform) (d : Bytes) (out : TempPayload) (s : Session) :
    Moves s (pqcHandleEncryptedTemp P d out s).2.2 (acceptedOffset P s d) 0 := by
  unfold pqcHandleEncryptedTemp acceptedOffset
  by_cases hadm : TempAdmitted s d
  · rw [if_neg (not_not.mpr hadm), if_pos hadm]
    have hsame (offset : ℕ) :
        trialPayload P (s.countTemp fun t => { t with tempRx := t.tempRx + 1 }) d
            (s.rxCounter + UInt32.ofNat offset) =
          trialPayload P s d (s.rxCounter + UInt32.ofNat offset) := rfl
    simp only [Session.countTemp_rxCounter, hsame]
    cases (List.range pqcTempRxCounterWindow).find? fun offset =>
        (trialPayload P s d (s.rxCounter + UInt32.ofNat offset)).counter ==
          s.rxCounter + UInt32.ofNat offset with
    | some offset =>
      refine ⟨rfl, ?_⟩
      simp [UInt32.add_assoc]
    | none => exact ⟨by simp [Session.countTemp], by simp [Session.countTemp]⟩
  · rw [if_pos hadm, if_neg hadm]
    exact ⟨by simp [Session.countTemp], by simp [Session.countTemp]⟩

/-- The session against its snapshot, by the meter. -/
structure Since (snapshot : ImpactSnapshot) (m : Meter) (s : Session) : Prop where
  ok : s.metrics.temp.tempRxOk = snapshot.tempRxOk + UInt32.ofNat m.ok
  rx : s.rxCounter = snapshot.rxCounter + m.rxDelta

theorem since_snapshot (s : Session) : Since s.snapshot Meter.zero s :=
  ⟨by simp [Session.snapshot, Meter.zero], by simp [Session.snapshot, Meter.zero, Meter.rxDelta]⟩

theorem Since.next {heard : Option ℕ} {cleared : UInt32} (h : Since snapshot m s)
    (hm : Moves s s' heard cleared) : Since snapshot (m.next heard cleared) s' := by
  refine ⟨?_, ?_⟩
  · rw [hm.ok, h.ok]
    cases heard with
    | none => simp [Meter.next]
    | some offset => simp [Meter.next, UInt32.add_assoc]
  · rw [hm.rx, h.rx]
    cases heard with
    | none =>
      simp only [Meter.next, Meter.rxDelta, Option.isSome_none, Bool.false_eq_true, if_false,
        Option.getD_none, Option.elim_none, Nat.add_zero]
      grind
    | some offset =>
      simp only [Meter.next, Meter.rxDelta, Option.isSome_some, if_true, Option.getD_some,
        Option.elim_some, UInt32.ofNat_add]
      grind

theorem acceptedOffset_of_state (h : s.state ≠ .established) (d : Bytes) :
    acceptedOffset P s d = none := by
  refine if_neg fun hadm => h ?_
  have hest := hadm.1
  rw [Session.sessionIsEstablished, Bool.and_eq_true, beq_iff_eq] at hest
  exact hest.1

theorem acceptedOffset_of_kind (h : byteAt d pqcHdrMsgType ≠ pqcMsgTemp) :
    acceptedOffset P s d = none :=
  if_neg fun hadm => h hadm.2.2.1

/-- A session that is not established expects counter 0. -/
def Rested (r : Root) : Prop :=
  ∀ i, (r.sessions i).used = true → (r.sessions i).state ≠ .established →
    (r.sessions i).rxCounter = 0

/-- Where one session changed, it is the one to look at. -/
theorem Rested.of_others (h : Rested r) (hothers : ∀ j, j ≠ i → r'.sessions j = r.sessions j)
    (hself : (r'.sessions i).state ≠ .established → (r'.sessions i).rxCounter = 0) :
    Rested r' := by
  intro j hused hstate
  by_cases hj : j = i
  · subst hj
    exact hself hstate
  · rw [hothers j hj] at hused hstate ⊢
    exact h j hused hstate

/-- The session of a summary is as it was, for all that counts here. -/
theorem summaryIfReady_session (i j : Fin sessionMaxNodes) (r : Root) :
    ((r.csvSessionSummaryIfReady i).sessions j).state = (r.sessions j).state ∧
      Unmoved (r.sessions j) ((r.csvSessionSummaryIfReady i).sessions j) := by
  rcases csvSessionSummaryIfReady_sessions i j r with heq | ⟨-, heq⟩
  · rw [heq]
    exact ⟨rfl, Unmoved.refl _⟩
  · rw [heq]
    exact ⟨rfl, rfl, rfl⟩

/-- A report that is stored moves no counter. -/
theorem storeNodeMetrics_session (nodeId : UInt16) (report : MetricsReport)
    (j : Fin sessionMaxNodes) (r : Root) :
    let r₁ := (r.csvNodeMetrics nodeId report).sessionStoreNodeMetrics i report
    (r₁.sessions j).state = (r.sessions j).state ∧ Unmoved (r.sessions j) (r₁.sessions j) := by
  intro r₁
  by_cases hj : j = i
  · subst hj
    have hself : r₁.sessions j = setNodeMetrics report (r.sessions j) := mapSession_self ..
    rw [hself, setNodeMetrics]
    split <;> exact ⟨rfl, rfl, rfl⟩
  · have hsame : r₁.sessions j = r.sessions j := Function.update_of_ne hj _ _
    rw [hsame]
    exact ⟨rfl, Unmoved.refl _⟩

theorem rested_work (hw : Work P r r') (h : Rested r) : Rested r' := by
  have howners := work_owners hw
  cases hw with
  | calm hcalm =>
    intro j hused hstate
    have hq := (hcalm.sessions j).quiet
    rw [howners.used] at hused
    rw [hq.state] at hstate
    rw [(Quiet.unmoved hq).rx]
    exact h j hused hstate
  | heardTemp i nodeId data hs =>
    refine h.of_others (i := i) ?_ ?_
    · intro j hj
      rw [handleTemp_sessions, Function.update_of_ne hj]
    · rw [handleTemp_sessions, Function.update_self]
      have hsame : (pqcHandleEncryptedTemp P data ⟨0, 0, 0⟩ (r.sessions i)).2.2.state =
          (r.sessions i).state :=
        congrArg SessionCore.state (core_pqcHandleEncryptedTemp P data ⟨0, 0, 0⟩ (r.sessions i))
      intro hstate
      rw [hsame] at hstate
      have hmoves := moves_pqcHandleEncryptedTemp P data ⟨0, 0, 0⟩ (r.sessions i)
      rw [acceptedOffset_of_state hstate] at hmoves
      rw [hmoves.rx, h i hs.used hstate]
      rfl
  | reported i nodeId report hs =>
    intro j hused hstate
    have hstored := storeNodeMetrics_session (i := i) nodeId report j r
    have hsummary := summaryIfReady_session i j
      ((r.csvNodeMetrics nodeId report).sessionStoreNodeMetrics i report)
    rw [howners.used] at hused
    rw [hsummary.1, hstored.1] at hstate
    rw [hsummary.2.rx, hstored.2.rx]
    exact h j hused hstate
  | @failed r' i nodeId hs hh hfrom _ _ hb =>
    refine h.of_others hh.others fun _ => ?_
    have hrx : (r'.sessions i).books.rxCounter = (r.sessions i).rxCounter := by rw [hb]; rfl
    exact hrx.trans (h i hs.used (by simp [hfrom]))
  | @succeeded r₁ i nodeId now hs hh _ hto =>
    refine h.of_others (i := i) ?_ ?_
    · intro j hj
      rcases csvSessionSummaryIfReady_sessions i j ((r₁.csvHsSummary (r₁.sessions i)
        .hsSuccess).impactEnd P now nodeId true) with heq | ⟨hji, -⟩
      · rw [heq, impactEnd_sessions]
        exact hh.others j hj
      · exact absurd hji hj
    · intro hstate
      rw [(summaryIfReady_session i i _).1, impactEnd_sessions] at hstate
      exact absurd hto hstate
  | gaveUp i nodeId hg =>
    obtain @⟨r₁, now, v0, v1, hs, hh, -, -⟩ := hg
    refine h.of_others (i := i) ?_ ?_
    · intro j hj
      rw [dropAndReset_sessions, Function.update_of_ne hj, csvEvent_sessions, impactEnd_sessions,
        csvHsSummary_sessions, hh.others j hj]
    · rw [dropAndReset_sessions, Function.update_self]
      exact fun _ => rfl

/-- A session that stands ready expects counter 0. -/
theorem Reopened.rxCounter (hr : Reopened i r r₁) (h : Rested r)
    (hused : (r.sessions i).used = true) : (r₁.sessions i).rxCounter = 0 := by
  rcases hr.how with ⟨hidle, hbooks, -, -⟩ | ⟨-, hbooks, -, -⟩
  · exact (congrArg Books.rxCounter hbooks).trans (h i hused (by simp [hidle]))
  · exact congrArg Books.rxCounter hbooks

/-- What is left of the counters of a session when a handshake was begun on it. -/
theorem opened_session (hr : Reopened i r r₁) (h : Rested r)
    (hused : (r.sessions i).used = true) {f : Fsm} {ok : Bool} (hf : f.s = r₁.sessions i)
    (ho : Fsm.Opened P rnd f ok (r₂.sessions i)) :
    Moves (r.sessions i) (r₂.sessions i) none (r.sessions i).rxCounter ∧
      (r₂.sessions i).rxCounter = 0 := by
  have hsame : Unmoved (r₁.sessions i) (r₂.sessions i) := by
    rw [← hf]
    cases ho with
    | sent _ _ _ _ hb => exact unmoved_of_books (by rw [hb]; rfl) (by rw [hb]; rfl)
    | failed _ _ _ _ hb => exact unmoved_of_books (by rw [hb]; rfl) (by rw [hb]; rfl)
    | refused _ _ _ _ hb => exact unmoved_of_books (by rw [hb]; rfl) (by rw [hb]; rfl)
  have hok : (r₁.sessions i).metrics.temp.tempRxOk = (r.sessions i).metrics.temp.tempRxOk := by
    rcases hr.how with ⟨-, hbooks, -, -⟩ | ⟨-, hbooks, -, -⟩
    · exact congrArg (fun b => b.temp.tempRxOk) hbooks
    · exact congrArg (fun b => b.temp.tempRxOk) hbooks
  have hzero : (r₂.sessions i).rxCounter = 0 := hsame.rx.trans (hr.rxCounter h hused)
  refine ⟨⟨?_, ?_⟩, hzero⟩
  · rw [hsame.ok, hok]
    simp
  · rw [hzero]
    simp

theorem rested_turn (ht : Turn P r r') (h : Rested r) : Rested r' := by
  cases ht with
  | work hw => exact rested_work hw h
  | create i nodeId hfree hnew =>
    refine h.of_others (i := i) ?_ ?_
    · intro j hj
      rw [setSession_sessions, Function.update_of_ne hj]
    · rw [setSession_sessions, Function.update_self]
      exact fun _ => rfl
  | @opened r₁ r₂ rnd ok i nodeId now now' hs hr hh ho =>
    have hrested : Rested r₂ := by
      refine h.of_others (i := i) ?_ fun _ => (opened_session hr h hs.used rfl ho).2
      intro j hj
      rw [hh.others j hj, impactStart_sessions, hr.others j hj]
    cases ok with
    | true => exact hrested
    | false =>
      intro j
      rw [if_neg Bool.false_ne_true, impactEnd_sessions]
      exact hrested j

theorem rested_turns (ht : Turns P r r') (h : Rested r) : Rested r' := by
  induction ht with
  | refl => exact h
  | tail _ hlast ih => exact rested_turn hlast ih

theorem Reaches.rested (h : Reaches P past r) : Rested r := by
  apply h.invariant (I := fun _ r => Rested r)
  · rintro r ⟨rnd, rfl⟩ i hused
    have hsessions : (boot P rnd).sessions = fun _ => Session.zero := by
      unfold boot
      dsimp only
      split <;> rfl
    rw [hsessions] at hused
    cases hused
  · rintro past r e r' hr hrested rfl
    exact rested_turns (handle_turns (Reaches.sound hr) e) hrested

end Root

end PqcContiki
