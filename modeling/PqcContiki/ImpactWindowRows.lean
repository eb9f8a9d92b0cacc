import PqcContiki.RootTurns

/-! The impact window of the root and the rows of its starts and ends. -/
namespace PqcContiki

open Relation Runs

/-- The rows that open and close impact windows. -/
def CsvRow.Marks : CsvRow → Prop
  | .event _ kind _ _ _ _ _ => kind = .impactStart ∨ kind = .impactEnd
  | .temp _ _ => False

/-- Rows, newest first, in which windows open and close in turn, with the target of the window
that they leave open. Each window closes once, under its own target. -/
inductive Windows : List CsvRow → Option UInt16 → Prop
  | nil : Windows [] none
  | skip {row : CsvRow} {csv : List CsvRow} {target : Option UInt16} (h : Windows csv target)
      (hrow : ¬ row.Marks) : Windows (row :: csv) target
  | opens {csv : List CsvRow} {target : UInt16} {v0 v1 v2 v3 : UInt32} {mask : ℕ}
      (h : Windows csv none) :
      Windows (.event target .impactStart v0 v1 v2 v3 mask :: csv) (some target)
  | closes {csv : List CsvRow} {target : UInt16} {v0 v1 v2 v3 : UInt32} {mask : ℕ}
      (h : Windows csv (some target)) :
      Windows (.event target .impactEnd v0 v1 v2 v3 mask :: csv) none

/-- The target of a window that is open. -/
def ImpactWindow.target (w : ImpactWindow) : Option UInt16 :=
  if w.active = true then some w.targetNodeId else none

/-- An end row reports a success exactly when its target is established. -/
def CsvRow.Truthful (r : Root) : CsvRow → Prop
  | .event id kind _ _ v2 _ _ => kind = .impactEnd → (v2 = 0 ∨ v2 = 1) ∧
      (v2 = 1 ↔ ∃ i, (r.sessions i).used = true ∧ (r.sessions i).nodeId = id ∧
        (r.sessions i).state = .established)
  | .temp _ _ => True

def Session.snapshot (s : Session) : ImpactSnapshot where
  nodeId := s.nodeId
  tempRxOk := s.metrics.temp.tempRxOk
  tempRxFail := s.metrics.temp.tempRxFail
  tempCounterResync := s.metrics.temp.tempCounterResync
  rxCounter := s.rxCounter

namespace Root

variable {P : Platform} {clk : Clock} {rnd : Entropy} {r r' r'' r₀ r₁ : Root}
  {i j : Fin sessionMaxNodes} {nodeId : UInt16} {csv csv' : List CsvRow} {now : ℕ} {success : Bool}
  {past : List Root}

theorem Windows.logs {target : Option UInt16} (h : Windows csv target)
    (hl : Logs (fun row => ¬ row.Marks) csv csv') : Windows csv' target := by
  obtain ⟨rows, rfl, hrows⟩ := hl
  induction rows with
  | nil => exact h
  | cons row rows ih =>
    refine .skip (ih fun row' hrow' => hrows row' (List.mem_cons_of_mem _ hrow')) ?_
    exact hrows row (List.mem_cons_self ..)

/-- The window as the rows tell it, and what it watches. -/
structure Watching (r : Root) : Prop where
  closed : r.impactWindow.active = false → r.impactWindow = ImpactWindow.zero
  count : r.impactWindow.snapshots.length ≤ sessionMaxNodes
  distinct : (r.impactWindow.snapshots.map ImpactSnapshot.nodeId).Nodup
  others : ∀ snapshot ∈ r.impactWindow.snapshots, snapshot.nodeId ≠ r.impactWindow.targetNodeId
  rows : Windows r.csv r.impactWindow.target

theorem watching_of_zero (hw : r.impactWindow = ImpactWindow.zero) (hrows : Windows r.csv none) :
    Watching r where
  closed _ := hw
  count := by simp [hw, ImpactWindow.zero]
  distinct := by simp [hw, ImpactWindow.zero]
  others := by simp [hw, ImpactWindow.zero]
  rows := by simpa [hw, ImpactWindow.target, ImpactWindow.zero] using hrows

theorem Watching.logs (h : Watching r) (hw : r'.impactWindow = r.impactWindow)
    (hl : Logs (fun row => ¬ row.Marks) r.csv r'.csv) : Watching r' where
  closed := by
    rw [hw]
    exact h.closed
  count := by
    rw [hw]
    exact h.count
  distinct := by
    rw [hw]
    exact h.distinct
  others := by
    rw [hw]
    exact h.others
  rows := by
    rw [hw]
    exact Windows.logs h.rows hl

theorem unmarked_of_among {kinds : List CsvEvent} (hstart : CsvEvent.impactStart ∉ kinds)
    (hend : CsvEvent.impactEnd ∉ kinds) (row : CsvRow) (h : row.Among kinds) : ¬ row.Marks := by
  cases row with
  | temp _ _ => exact h.elim
  | event id kind v0 v1 v2 v3 mask =>
    rintro (rfl | rfl)
    · exact hstart h
    · exact hend h

theorem unmarked_of_plain (row : CsvRow) (h : row.Plain) : ¬ row.Marks := by
  cases row with
  | temp _ _ => exact fun hmarks => hmarks
  | event id kind v0 v1 v2 v3 mask => rintro (rfl | rfl) <;> cases h

theorem Watching.impactEnd (h : Watching r) : Watching (r.impactEnd P now nodeId success) := by
  by_cases hopen : r.impactWindow.active = true ∧ r.impactWindow.targetNodeId = nodeId
  · obtain ⟨hzero, hcsv⟩ := impactEnd_closes P now success hopen.1 hopen.2
    refine watching_of_zero hzero ?_
    rw [hcsv]
    refine .closes ?_
    have hrows := h.rows
    rw [ImpactWindow.target, if_pos hopen.1, hopen.2] at hrows
    exact Windows.logs hrows ((impactReports_logs nodeId _ r).mono
      (unmarked_of_among (by simp) (by simp)))
  · rw [impactEnd_idle hopen]
    exact h

/-- The sessions that a window for `target` watches. -/
def watched (target : UInt16) (r : Root) : List (Fin sessionMaxNodes) :=
  (List.finRange sessionMaxNodes).filter fun i =>
    (r.sessions i).used && (r.sessions i).sessionIsEstablished &&
      (r.sessions i).nodeId != target

theorem mem_watched {target : UInt16} : i ∈ watched target r ↔
    (r.sessions i).used = true ∧ (r.sessions i).sessionIsEstablished = true ∧
      (r.sessions i).nodeId ≠ target := by
  simp [watched, and_assoc]

theorem impactStart_inactive (now : ℕ) (target : UInt16) (h : r.impactWindow.active = false) :
    (r.impactStart now target).impactWindow = ⟨true, target, UInt32.ofNat now,
        (watched target r).map fun i => (r.sessions i).snapshot⟩ ∧
      ∃ v0, (r.impactStart now target).csv = .event target .impactStart v0 0 0 0 0 :: r.csv := by
  unfold impactStart
  simp only [h, Bool.false_eq_true, if_false]
  exact ⟨rfl, _, rfl⟩

theorem Watching.impactStart (h : Watching r) (hunique : Unique r) (now : ℕ) (target : UInt16) :
    Watching (r.impactStart now target) := by
  cases hactive : r.impactWindow.active with
  | true =>
    rw [impactStart_active hactive]
    refine h.logs rfl (Logs.row ?_)
    rintro (hrow | hrow) <;> cases hrow
  | false =>
    obtain ⟨hwindow, v0, hcsv⟩ := impactStart_inactive now target hactive
    refine ⟨?_, ?_, ?_, ?_, ?_⟩
    · intro hclosed
      rw [hwindow] at hclosed
      cases hclosed
    · rw [hwindow]
      simpa [watched] using List.length_filter_le _ (List.finRange sessionMaxNodes)
    · rw [hwindow]
      simp only [List.map_map]
      refine List.Nodup.map_on ?_ ((List.nodup_finRange sessionMaxNodes).filter _)
      intro j hj k hk hjk
      exact hunique j k (mem_watched.mp hj).1 (mem_watched.mp hk).1 hjk
    · rw [hwindow]
      intro snapshot hmem
      obtain ⟨j, hj, rfl⟩ := List.mem_map.mp hmem
      exact (mem_watched.mp hj).2.2
    · rw [hcsv, hwindow]
      refine .opens ?_
      have hrows := h.rows
      rw [ImpactWindow.target, hactive] at hrows
      exact hrows

/-- A window that is still open after an end was not the one that ended. -/
theorem impactEnd_active (h : (r.impactEnd P now nodeId success).impactWindow.active = true) :
    (r.impactEnd P now nodeId success).impactWindow = r.impactWindow ∧
      r.impactWindow.targetNodeId ≠ nodeId := by
  by_cases hopen : r.impactWindow.active = true ∧ r.impactWindow.targetNodeId = nodeId
  · rw [(impactEnd_closes _ _ _ hopen.1 hopen.2).1] at h
    cases h
  · rw [impactEnd_idle hopen] at h ⊢
    exact ⟨rfl, fun heq => hopen ⟨h, heq⟩⟩

/-- The session of the target has its handshake under way, or has just failed. -/
def Targeted (r : Root) : Prop :=
  r.impactWindow.active = true → ∃ i, (r.sessions i).used = true ∧
    (r.sessions i).nodeId = r.impactWindow.targetNodeId ∧
    ((r.sessions i).state = .waitCt ∨ (r.sessions i).state = .failed)

/-- Where the window is as it was, so is the target, if its session did not move on. -/
theorem Targeted.same (h : Targeted r) (hw : r'.impactWindow = r.impactWindow)
    (hsame : SameOwners r r')
    (hstate : r.impactWindow.active = true → ∀ j, (r.sessions j).used = true →
      (r.sessions j).nodeId = r.impactWindow.targetNodeId →
      (r.sessions j).state = .waitCt ∨ (r.sessions j).state = .failed →
      (r'.sessions j).state = .waitCt ∨ (r'.sessions j).state = .failed) : Targeted r' := by
  intro hactive
  rw [hw] at hactive ⊢
  obtain ⟨j, hused, hid, hj⟩ := h hactive
  exact ⟨j, (hsame.used j).trans hused, (hsame.nodeId j).trans hid, hstate hactive j hused hid hj⟩

theorem Targeted.states (h : Targeted r) (hw : r'.impactWindow = r.impactWindow)
    (hsame : SameOwners r r')
    (hstate : ∀ j, (r'.sessions j).state = (r.sessions j).state) : Targeted r' := by
  refine h.same hw hsame fun _ j _ _ hj => ?_
  rw [hstate j]
  exact hj

/-- The end of a window for `nodeId` leaves a window for another target as it was. -/
theorem Targeted.after_end {r₂ : Root} (h : Targeted r) (hw : r₂.impactWindow = r.impactWindow)
    (hw' : r'.impactWindow = (r₂.impactEnd P now nodeId success).impactWindow)
    (hsame : SameOwners r r')
    (hothers : ∀ j, (r.sessions j).used = true → (r.sessions j).nodeId ≠ nodeId →
      (r'.sessions j).state = (r.sessions j).state) : Targeted r' := by
  intro hactive
  rw [hw'] at hactive
  obtain ⟨hkept, hne⟩ := impactEnd_active hactive
  have hwindow : r'.impactWindow = r.impactWindow := hw'.trans (hkept.trans hw)
  rw [hw] at hne
  refine h.same hwindow hsame ?_ (by rw [hwindow, ← hw, ← hkept]; exact hactive)
  intro _ j hused hid hj
  rw [hothers j hused (hid ▸ hne)]
  exact hj

end Root

end PqcContiki
