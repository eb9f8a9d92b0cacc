import PqcContiki.ImpactWindowRows

/-! How the turns of the root keep the window and its rows in step. -/
namespace PqcContiki

open Relation Runs

namespace Root

variable {P : Platform} {clk : Clock} {rnd : Entropy} {r r' r'' r₀ r₁ : Root}
  {i j : Fin sessionMaxNodes} {nodeId : UInt16} {csv csv' : List CsvRow} {now : ℕ} {success : Bool}
  {past : List Root}

theorem Watching.csvHsSummary (h : Watching r) (s : Session) {event : CsvEvent}
    (hevent : event = .hsSuccess ∨ event = .hsFail) : Watching (r.csvHsSummary s event) := by
  refine h.logs rfl ((csvHsSummary_logs s event r).mono (unmarked_of_among ?_ ?_))
  · rcases hevent with rfl | rfl <;> simp
  · rcases hevent with rfl | rfl <;> simp

theorem Watching.summary (h : Watching r) (i : Fin sessionMaxNodes) :
    Watching (r.csvSessionSummaryIfReady i) :=
  h.logs (csvSessionSummaryIfReady_window i r)
    ((csvSessionSummaryIfReady_logs i r).mono (unmarked_of_among (by simp) (by simp)))

theorem Handed.watching (h : Handed i r r') (hr : Watching r) : Watching r' :=
  hr.logs h.window (h.csv ▸ Logs.refl _)

theorem watching_work (hw : Work P r r') (h : Watching r) : Watching r' := by
  cases hw with
  | calm hcalm => exact h.logs hcalm.window (hcalm.rows.mono unmarked_of_plain)
  | heardTemp i nodeId data _ =>
    exact h.logs (handleTemp_window P i data r) ((handleTemp_plainly P i data r).mono
      unmarked_of_plain)
  | reported i nodeId report _ =>
    have hstored : Watching ((r.csvNodeMetrics nodeId report).sessionStoreNodeMetrics i
        report) := by
      refine h.logs rfl ((Logs.row ?_).trans (Logs.row ?_))
      · rintro (hrow | hrow) <;> cases hrow
      · rintro (hrow | hrow) <;> cases hrow
    exact hstored.summary i
  | failed i nodeId _ hh => exact hh.watching h
  | @succeeded r₁ i nodeId now _ hh =>
    exact (((hh.watching h).csvHsSummary (r₁.sessions i) (Or.inl rfl)).impactEnd).summary i
  | gaveUp i nodeId hgave =>
    obtain @⟨r₁, now, v0, v1, -, hh, -, -⟩ := hgave
    have hend : Watching ((r₁.csvHsSummary (r₁.sessions i) .hsFail).impactEnd P now nodeId
        false) := ((hh.watching h).csvHsSummary (r₁.sessions i) (Or.inr rfl)).impactEnd
    refine hend.logs rfl (Logs.row ?_)
    rintro (hrow | hrow) <;> cases hrow

theorem Handed.state_of_ne (h : Handed i r r') (hs : Serves i nodeId r) {j : Fin sessionMaxNodes}
    (hne : (r.sessions j).nodeId ≠ nodeId) : (r'.sessions j).state = (r.sessions j).state := by
  have hj : j ≠ i := by
    rintro rfl
    exact hne hs.nodeId
  rw [h.others j hj]

theorem targeted_work (hw : Work P r r') (h : Targeted r) : Targeted r' := by
  have hsame := work_owners hw
  cases hw with
  | calm hcalm => exact h.states hcalm.window hsame fun j => (hcalm.sessions j).quiet.state
  | heardTemp i nodeId data _ =>
    refine h.states (handleTemp_window P i data r) hsame fun j => ?_
    rw [handleTemp_sessions]
    by_cases hj : j = i
    · subst hj
      rw [Function.update_self]
      exact congrArg SessionCore.state (core_pqcHandleEncryptedTemp P data ⟨0, 0, 0⟩ _)
    · rw [Function.update_of_ne hj]
  | reported i nodeId report _ =>
    refine h.states (csvSessionSummaryIfReady_window i _) hsame fun j => ?_
    have hal := ((alike_csvNodeMetrics nodeId report r).trans
      (alike_sessionStoreNodeMetrics i report _)).trans (alike_csvSessionSummaryIfReady i _)
    exact congrArg SessionCore.state (hal.cores j)
  | failed i nodeId hs hh hfrom hto =>
    refine h.same hh.window hsame fun _ j _ _ hj => ?_
    by_cases hji : j = i
    · subst hji
      exact Or.inr hto
    · rw [hh.others j hji]
      exact hj
  | @succeeded r₁ i nodeId now hs hh =>
    have hwindow : (r₁.csvHsSummary (r₁.sessions i) .hsSuccess).impactWindow = r.impactWindow :=
      hh.window
    refine h.after_end hwindow
      (csvSessionSummaryIfReady_window i _) hsame fun j _ hne => ?_
    rcases csvSessionSummaryIfReady_sessions i j ((r₁.csvHsSummary (r₁.sessions i)
      .hsSuccess).impactEnd P now nodeId true) with heq | ⟨-, heq⟩
    · rw [heq, impactEnd_sessions]
      exact hh.state_of_ne hs hne
    · rw [heq, impactEnd_sessions]
      exact hh.state_of_ne hs hne
  | gaveUp i nodeId hgave =>
    obtain @⟨r₁, now, v0, v1, hs, hh, -, -⟩ := hgave
    have hwindow : (r₁.csvHsSummary (r₁.sessions i) .hsFail).impactWindow = r.impactWindow :=
      hh.window
    refine h.after_end hwindow rfl hsame
      fun j _ hne => ?_
    have hj : j ≠ i := by
      rintro rfl
      exact hne hs.nodeId
    rw [dropAndReset_sessions, Function.update_of_ne hj, csvEvent_sessions, impactEnd_sessions]
    exact hh.state_of_ne hs hne

/-- What holds of the window between any two turns. -/
structure WindowSound (r : Root) : Prop where
  unique : Unique r
  watching : Watching r
  targeted : Targeted r

theorem Reopened.watching (hr : Reopened i r r₁) (h : Watching r) : Watching r₁ := by
  refine h.logs hr.window ?_
  rcases hr.how with ⟨-, -, -, hrows⟩ | ⟨-, -, -, row, csv, hreset, hbelow, habove⟩
  · exact hrows.mono unmarked_of_plain
  · refine (hbelow.mono unmarked_of_plain).trans ((Logs.row ?_ : Logs _ csv (row :: csv)).trans
      (habove.mono unmarked_of_plain))
    cases row with
    | temp _ _ => exact hreset.elim
    | event id kind =>
      obtain ⟨-, rfl | rfl | rfl⟩ := hreset <;> rintro (hrow | hrow) <;> cases hrow

/-- A handshake that began leaves the window to its own node, or to the target it already had. -/
theorem opened_window {r₂ : Root} (hr : Reopened i r r₁)
    (hh : Handed i (r₁.impactStart now nodeId) r₂) :
    r₂.impactWindow = r.impactWindow ∧ r.impactWindow.active = true ∨
      r.impactWindow.active = false ∧ r₂.impactWindow = ⟨true, nodeId, UInt32.ofNat now,
        (watched nodeId r₁).map fun j => (r₁.sessions j).snapshot⟩ := by
  cases hactive : r.impactWindow.active with
  | true =>
    have hactive₁ : r₁.impactWindow.active = true := by rw [hr.window, hactive]
    refine Or.inl ⟨?_, rfl⟩
    rw [hh.window, impactStart_active hactive₁]
    exact hr.window
  | false =>
    have hactive₁ : r₁.impactWindow.active = false := by rw [hr.window, hactive]
    exact Or.inr ⟨rfl, hh.window.trans (impactStart_inactive _ _ hactive₁).1⟩

theorem windowSound_turn (ht : Turn P r r') (h : WindowSound r) : WindowSound r' := by
  have hunique := unique_turn ht h.unique
  cases ht with
  | work hw => exact ⟨hunique, watching_work hw h.watching, targeted_work hw h.targeted⟩
  | create i nodeId hfree hnew =>
    refine ⟨hunique, h.watching.logs rfl (Logs.refl _), ?_⟩
    intro hactive
    obtain ⟨j, hused, hid, hj⟩ := h.targeted hactive
    have hne : j ≠ i := by
      rintro rfl
      rw [hfree] at hused
      cases hused
    refine ⟨j, ?_⟩
    rw [setSession_sessions, Function.update_of_ne hne]
    exact ⟨hused, hid, hj⟩
  | @opened r₁ r₂ rnd ok i nodeId now now' hs hr hh ho =>
    have howners := opened_owners hs hr hh
    have hunique₁ : Unique r₁ := by
      have hback : SameOwners r₂ r₁ := by
        intro j
        by_cases hj : j = i
        · subst hj
          have hid := hh.identity
          rw [impactStart_sessions] at hid
          exact hid.symm
        · rw [hh.others j hj, impactStart_sessions]
      exact hback.unique (howners.unique h.unique)
    have hwatching : Watching r₂ :=
      hh.watching ((hr.watching h.watching).impactStart hunique₁ now nodeId)
    have hothers : ∀ j, (r.sessions j).used = true → (r.sessions j).nodeId ≠ nodeId →
        (r₂.sessions j).state = (r.sessions j).state := by
      intro j _ hne
      have hj : j ≠ i := by
        rintro rfl
        exact hne hs.nodeId
      rw [hh.others j hj, impactStart_sessions, hr.others j hj]
    cases ok with
    | true =>
      rw [if_pos rfl] at hunique ⊢
      have hwait : (r₂.sessions i).state = .waitCt := by
        cases ho with
        | sent _ _ hto => exact hto
        | failed hok => cases hok
        | refused hok => cases hok
      refine ⟨hunique, hwatching, ?_⟩
      have hown : r₂.impactWindow.targetNodeId = nodeId → Targeted r₂ := by
        intro htarget _
        refine ⟨i, (howners.used i).trans hs.used, ?_, Or.inl hwait⟩
        exact ((howners.nodeId i).trans hs.nodeId).trans htarget.symm
      rcases opened_window hr hh with ⟨hwindow, -⟩ | ⟨-, hwindow⟩
      · by_cases htarget : r₂.impactWindow.targetNodeId = nodeId
        · exact hown htarget
        · refine h.targeted.same hwindow howners fun _ j hused hid hj => ?_
          rw [hothers j hused (by rw [hid, ← hwindow]; exact htarget)]
          exact hj
      · exact hown (by rw [hwindow])
    | false =>
      rw [if_neg Bool.false_ne_true] at hunique ⊢
      refine ⟨hunique, hwatching.impactEnd, ?_⟩
      rcases opened_window hr hh with ⟨hwindow, -⟩ | ⟨-, hwindow⟩
      · refine h.targeted.after_end hwindow rfl ?_ ?_
        · intro j
          rw [impactEnd_sessions]
          exact howners j
        · intro j hused hne
          rw [impactEnd_sessions]
          exact hothers j hused hne
      · intro hactive
        obtain ⟨-, hne⟩ := impactEnd_active hactive
        rw [hwindow] at hne
        exact absurd rfl hne

theorem windowSound_turns (ht : Turns P r r') (h : WindowSound r) : WindowSound r' := by
  induction ht with
  | refl => exact h
  | tail _ hlast ih => exact windowSound_turn hlast ih

theorem boot_impactWindow (P : Platform) (rnd : Entropy) :
    (boot P rnd).impactWindow = ImpactWindow.zero := by
  unfold boot
  dsimp only
  split <;> rfl

theorem windowSound_boot (P : Platform) (rnd : Entropy) : WindowSound (boot P rnd) := by
  have hboot : (boot P rnd).sessions = (fun _ => Session.zero) ∧
      Logs (fun row => ¬ row.Marks) [] (boot P rnd).csv := by
    unfold boot
    dsimp only
    split
    · refine ⟨rfl, [_, _, _], rfl, ?_⟩
      simp [CsvRow.Marks]
    · refine ⟨rfl, [_, _, _], rfl, ?_⟩
      simp [CsvRow.Marks]
  obtain ⟨hsessions, hrows⟩ := hboot
  have hwindow := boot_impactWindow P rnd
  refine ⟨?_, watching_of_zero hwindow (Windows.logs .nil hrows), ?_⟩
  · intro j k hj
    rw [hsessions] at hj
    cases hj
  · intro hactive
    rw [hwindow] at hactive
    cases hactive

theorem Reaches.windowSound (h : Reaches P past r) : WindowSound r := by
  apply h.invariant (I := fun _ r => WindowSound r)
  · rintro r ⟨rnd, rfl⟩
    exact windowSound_boot P rnd
  · rintro past r e r' hr hw rfl
    exact windowSound_turns (handle_turns (Reaches.sound hr) e) hw

end Root

end PqcContiki
