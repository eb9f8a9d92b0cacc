import PqcContiki.RootTurns

/-! The rows about a session since its last restart, and what the session holds of them. -/
namespace PqcContiki

open Relation Runs

instance (nodeId : UInt16) (row : CsvRow) : Decidable (row.IsReset nodeId) :=
  match row with
  | .event _ _ _ _ _ _ _ => inferInstanceAs (Decidable (_ ∧ _))
  | .temp _ _ => inferInstanceAs (Decidable False)

/-- A row of the summary of node `nodeId`'s session. -/
def CsvRow.Summarizes (nodeId : UInt16) : CsvRow → Prop
  | .event id kind _ _ _ _ _ => id = nodeId ∧ kind ∈ [.sessionHs, .sessionPk, .sessionCt,
      .sessionCrypto, .sessionFrag, .sessionTemp]
  | .temp _ _ => False

/-- The values of a row that tells of a report of `nodeId`'s group `group`. -/
def CsvRow.report (nodeId : UInt16) (group : ℕ) : CsvRow → Option (Fin 4 → UInt32)
  | .event id (.nodeGroup g) v0 v1 v2 v3 _ =>
    if id = nodeId ∧ g = group then some ![v0, v1, v2, v3] else none
  | _ => none

/-- A row that the summary of node `nodeId` depends on, or belongs to it. -/
def CsvRow.Concerns (nodeId : UInt16) : CsvRow → Prop
  | .event id kind _ _ _ _ _ => id = nodeId ∧ ((∃ g, kind = .nodeGroup g) ∨
      kind ∈ [.getpkAfterFail, .getpkRestart, .hsFailReset, .sessionHs, .sessionPk, .sessionCt,
        .sessionCrypto, .sessionFrag, .sessionTemp])
  | .temp _ _ => False

namespace Root

variable {P : Platform} {clk : Clock} {rnd : Entropy} {r r' r'' r₀ r₁ : Root}
  {i j : Fin sessionMaxNodes} {nodeId : UInt16} {group : ℕ} {csv csv' rows : List CsvRow}
  {row : CsvRow} {s s' : Session} {past : List Root}

/-- The rows since the session of `nodeId` was last reset, newest first. -/
def since (nodeId : UInt16) (csv : List CsvRow) : List CsvRow :=
  csv.takeWhile fun row => ¬ row.IsReset nodeId

/-- The last accepted report of a group since then. -/
def latest (nodeId : UInt16) (group : ℕ) (csv : List CsvRow) : Option (Fin 4 → UInt32) :=
  (since nodeId csv).findSome? (CsvRow.report nodeId group)

theorem concerns_of_isReset (h : row.IsReset nodeId) : row.Concerns nodeId := by
  cases row with
  | temp _ _ => exact h
  | event id kind =>
    obtain ⟨hid, hkind⟩ := h
    refine ⟨hid, Or.inr ?_⟩
    rcases hkind with rfl | rfl | rfl <;> simp

theorem concerns_of_summarizes (h : row.Summarizes nodeId) : row.Concerns nodeId := by
  cases row with
  | temp _ _ => exact h
  | event id kind =>
    obtain ⟨hid, hkind⟩ := h
    refine ⟨hid, Or.inr ?_⟩
    simp only [List.mem_cons, List.not_mem_nil, or_false] at hkind ⊢
    tauto

theorem report_of_not_concerns (h : ¬ row.Concerns nodeId) (group : ℕ) :
    row.report nodeId group = none := by
  cases row with
  | temp _ _ => rfl
  | event id kind =>
    cases kind with
    | nodeGroup g =>
      refine if_neg ?_
      rintro ⟨hid, -⟩
      exact h ⟨hid, Or.inl ⟨g, rfl⟩⟩
    | _ => rfl

theorem report_of_summarizes (h : row.Summarizes nodeId) (id : UInt16) (group : ℕ) :
    row.report id group = none := by
  cases row with
  | temp _ _ => rfl
  | event id' kind =>
    cases kind with
    | nodeGroup g =>
      obtain ⟨-, hkind⟩ := h
      simp at hkind
    | _ => rfl

theorem since_append (h : ∀ row ∈ rows, ¬ row.IsReset nodeId) :
    since nodeId (rows ++ csv) = rows ++ since nodeId csv :=
  List.takeWhile_append_of_pos fun row hrow => decide_eq_true (h row hrow)

theorem since_cons_reset (h : row.IsReset nodeId) : since nodeId (row :: csv) = [] := by
  simp [since, h]

theorem since_subset (h : row ∈ since nodeId csv) : row ∈ csv :=
  (List.takeWhile_prefix _).subset h

theorem latest_append (hreset : ∀ row ∈ rows, ¬ row.IsReset nodeId)
    (hreport : ∀ row ∈ rows, row.report nodeId group = none) :
    latest nodeId group (rows ++ csv) = latest nodeId group csv := by
  rw [latest, since_append hreset, List.findSome?_append, List.findSome?_eq_none_iff.mpr hreport]
  rfl

theorem latest_of_foreign (h : ∀ row ∈ rows, ¬ row.Concerns nodeId) :
    latest nodeId group (rows ++ csv) = latest nodeId group csv :=
  latest_append (fun row hrow hreset => h row hrow (concerns_of_isReset hreset))
    fun row hrow => report_of_not_concerns (h row hrow) group

/-- One summary of the node since its last restart. The reports it prints are the latest of
those below it. -/
def SummaryIn (nodeId : UInt16) (csv : List CsvRow) : Prop :=
  ∃ newer s older, csv = newer ++ (summaryRows s ++ older) ∧ s.nodeId = nodeId ∧
    (∀ row ∈ newer, ¬ row.IsReset nodeId ∧ ¬ row.Summarizes nodeId) ∧
    (∀ row ∈ since nodeId older, ¬ row.Summarizes nodeId) ∧
    ∀ k : Fin pqcMetricsGroupCount,
      latest nodeId k.succ older = some (s.nodeMetricValues k.succ)

/-- All groups were reported since the last restart. -/
def AllReported (nodeId : UInt16) (csv : List CsvRow) : Prop :=
  ∀ k : Fin pqcMetricsGroupCount, (latest nodeId k.succ csv).isSome = true

/-- The session's mask, values and flag against the rows. -/
structure Recorded (s : Session) (csv : List CsvRow) : Prop where
  mask : ∀ k : Fin pqcMetricsGroupCount,
    s.nodeMetricsMask.toNat.testBit k = (latest s.nodeId k.succ csv).isSome
  values : ∀ k : Fin pqcMetricsGroupCount, ∀ value,
    latest s.nodeId k.succ csv = some value → s.nodeMetricValues k.succ = value
  clear : s.sessionSummaryEmitted = false →
    ∀ row ∈ since s.nodeId csv, ¬ row.Summarizes s.nodeId
  printed : s.sessionSummaryEmitted = true →
    s.state = .established ∧ AllReported s.nodeId csv ∧ SummaryIn s.nodeId csv

theorem mask_full_iff (mask : UInt8) : mask &&& requiredMetricsMask = requiredMetricsMask ↔
    ∀ k : Fin pqcMetricsGroupCount, mask.toNat.testBit k = true := by
  have hbits : mask &&& requiredMetricsMask = requiredMetricsMask ↔
      mask.toNat &&& 127 = 127 := by
    rw [← UInt8.toNat_inj, UInt8.toNat_and]
    rfl
  have h127 : ∀ k, Nat.testBit 127 k = decide (k < 7) := Nat.testBit_two_pow_sub_one 7
  rw [hbits]
  constructor
  · intro h k
    have hk := congrArg (Nat.testBit · k) h
    simpa [Nat.testBit_and, h127] using hk
  · intro h
    refine Nat.eq_of_testBit_eq fun k => ?_
    rw [Nat.testBit_and, h127]
    by_cases hk : k < 7
    · simp [hk, h ⟨k, hk⟩]
    · simp [hk]

theorem testBit_setBit (mask : UInt8) (k l : Fin pqcMetricsGroupCount) :
    (mask ||| UInt8.ofNat (2 ^ (k : ℕ))).toNat.testBit l =
      (mask.toNat.testBit l || decide (k = l)) := by
  have hk : 2 ^ (k : ℕ) % 2 ^ 8 = 2 ^ (k : ℕ) :=
    Nat.mod_eq_of_lt (Nat.pow_lt_pow_right (by decide) (k.isLt.trans (by decide)))
  rw [UInt8.toNat_or, UInt8.toNat_ofNat', hk, Nat.testBit_or, Nat.testBit_two_pow]
  simp only [Fin.ext_iff]

theorem Recorded.allReported_iff (h : Recorded s csv) : AllReported s.nodeId csv ↔
    s.nodeMetricsMask &&& requiredMetricsMask = requiredMetricsMask := by
  rw [mask_full_iff]
  exact forall_congr' fun k => by rw [h.mask k]

theorem since_foreign_summarizes (h : ∀ row ∈ rows, ¬ row.Concerns nodeId)
    (hclear : ∀ row ∈ since nodeId csv, ¬ row.Summarizes nodeId) :
    ∀ row ∈ since nodeId (rows ++ csv), ¬ row.Summarizes nodeId := by
  intro row hrow hsum
  rw [since_append fun row hrow hreset => h row hrow (concerns_of_isReset hreset)] at hrow
  rcases List.mem_append.mp hrow with hrow | hrow
  · exact h row hrow (concerns_of_summarizes hsum)
  · exact hclear row hrow hsum

theorem SummaryIn.append (h : SummaryIn nodeId csv)
    (hrows : ∀ row ∈ rows, ¬ row.IsReset nodeId ∧ ¬ row.Summarizes nodeId) :
    SummaryIn nodeId (rows ++ csv) := by
  obtain ⟨newer, s, older, rfl, hid, hnewer, holder, hvalues⟩ := h
  refine ⟨rows ++ newer, s, older, by simp, hid, ?_, holder, hvalues⟩
  intro row hrow
  rcases List.mem_append.mp hrow with hrow | hrow
  · exact hrows row hrow
  · exact hnewer row hrow

/-- What the rows record of the session is the same in both. -/
structure Kept (s s' : Session) : Prop where
  nodeId : s'.nodeId = s.nodeId
  values : s'.nodeMetricValues = s.nodeMetricValues
  mask : s'.nodeMetricsMask = s.nodeMetricsMask
  emitted : s'.sessionSummaryEmitted = s.sessionSummaryEmitted

/-- Rows about something else change nothing. -/
theorem Recorded.foreign (h : Recorded s csv) (hk : Kept s s')
    (hstate : s.state = .established → s'.state = .established)
    (hl : Logs (fun row => ¬ row.Concerns s.nodeId) csv csv') : Recorded s' csv' := by
  obtain ⟨rows, rfl, hrows⟩ := hl
  refine ⟨?_, ?_, ?_, ?_⟩
  · intro k
    rw [hk.nodeId, hk.mask, latest_of_foreign hrows]
    exact h.mask k
  · intro k value
    rw [hk.nodeId, hk.values, latest_of_foreign hrows]
    exact h.values k value
  · rw [hk.nodeId, hk.emitted]
    exact fun hflag => since_foreign_summarizes hrows (h.clear hflag)
  · rw [hk.nodeId, hk.emitted]
    intro hflag
    obtain ⟨hest, hall, hprinted⟩ := h.printed hflag
    refine ⟨hstate hest, ?_, hprinted.append fun row hrow => ⟨?_, ?_⟩⟩
    · intro k
      rw [latest_of_foreign hrows]
      exact hall k
    · exact fun hreset => hrows row hrow (concerns_of_isReset hreset)
    · exact fun hsum => hrows row hrow (concerns_of_summarizes hsum)

/-- A session that starts over has nothing recorded, nor have its rows. -/
theorem recorded_fresh (hmask : s.nodeMetricsMask = 0) (hflag : s.sessionSummaryEmitted = false)
    (hrows : ∀ row ∈ since s.nodeId csv, ¬ row.Concerns s.nodeId) : Recorded s csv := by
  have hnone (group : ℕ) : latest s.nodeId group csv = none :=
    List.findSome?_eq_none_iff.mpr fun row hrow => report_of_not_concerns (hrows row hrow) group
  refine ⟨?_, ?_, ?_, ?_⟩
  · intro k
    rw [hmask, hnone]
    exact Nat.zero_testBit k
  · intro k value hvalue
    rw [hnone] at hvalue
    cases hvalue
  · exact fun _ row hrow hsum => hrows row hrow (concerns_of_summarizes hsum)
  · intro hemitted
    rw [hflag] at hemitted
    cases hemitted

/-- A reset is recorded by its row. -/
theorem recorded_reset (row : CsvRow) (csv : List CsvRow) (hmask : s.nodeMetricsMask = 0)
    (hflag : s.sessionSummaryEmitted = false)
    (hrow : row.IsReset s.nodeId)
    (hl : Logs (fun row => ¬ row.Concerns s.nodeId) (row :: csv) csv') :
    Recorded s csv' := by
  obtain ⟨rows, rfl, hrows⟩ := hl
  refine recorded_fresh hmask hflag ?_
  rw [since_append fun row hrow hreset => hrows row hrow (concerns_of_isReset hreset),
    since_cons_reset hrow, List.append_nil]
  exact hrows

/-- The rows of a report, newest first. -/
def reportRows (nodeId : UInt16) (report : MetricsReport) : List CsvRow :=
  [.event nodeId .nodeMetricsMeta (UInt32.ofNat report.group) report.seq report.uptimeTicks
      report.version.toUInt32 4,
    .event nodeId (.nodeGroup report.group) (report.value 0) (report.value 1) (report.value 2)
      (report.value 3) (groupSecondsMask report.group)]

theorem csvNodeMetrics_csv (nodeId : UInt16) (report : MetricsReport) (r : Root) :
    (r.csvNodeMetrics nodeId report).csv = reportRows nodeId report ++ r.csv := rfl

theorem latest_reportRows (nodeId : UInt16) (report : MetricsReport) :
    latest nodeId group (reportRows nodeId report ++ csv) =
      if report.group = group then some report.value else latest nodeId group csv := by
  have hvalue : ![report.value 0, report.value 1, report.value 2, report.value 3] =
      report.value := by
    funext k
    fin_cases k <;> rfl
  rw [latest, since_append (by simp [reportRows, CsvRow.IsReset])]
  simp only [reportRows, List.cons_append, List.nil_append, List.findSome?_cons, CsvRow.report,
    true_and, hvalue]
  by_cases hgroup : report.group = group
  · simp [hgroup]
  · simp [hgroup, latest]

theorem setNodeMetrics_unknown {report : MetricsReport}
    (h : report.group = 0 ∨ report.group > pqcMetricsGroupCount) : setNodeMetrics report s = s :=
  dif_pos h

theorem setNodeMetrics_group {report : MetricsReport} {k : Fin pqcMetricsGroupCount}
    (h : report.group = k.succ) : setNodeMetrics report s =
      { s with
        nodeMetricValues := Function.update s.nodeMetricValues k.succ report.value
        nodeMetricsMask := s.nodeMetricsMask ||| UInt8.ofNat (2 ^ (k : ℕ)) } := by
  have hgroup : ¬ (report.group = 0 ∨ report.group > pqcMetricsGroupCount) := by
    have := k.succ.isLt
    have := k.succ_pos
    omega
  have hindex : ∀ hlt, (⟨report.group, hlt⟩ : Fin (pqcMetricsGroupCount + 1)) = k.succ :=
    fun _ => Fin.ext h
  have hbit : report.group - 1 = k := by simp [h]
  rw [setNodeMetrics, dif_neg hgroup]
  simp only [hindex, hbit]

/-- A report is of one of the groups, or of none that is stored. -/
theorem group_cases (report : MetricsReport) :
    (report.group = 0 ∨ report.group > pqcMetricsGroupCount) ∨
      ∃ k : Fin pqcMetricsGroupCount, report.group = k.succ := by
  by_cases h : report.group = 0 ∨ report.group > pqcMetricsGroupCount
  · exact Or.inl h
  · push Not at h
    exact Or.inr ⟨⟨report.group - 1, by omega⟩, by simp; omega⟩

theorem Recorded.reported (h : Recorded s csv) (report : MetricsReport) :
    Recorded (setNodeMetrics report s) (reportRows s.nodeId report ++ csv) := by
  have hquiet : ∀ row ∈ reportRows s.nodeId report,
      ¬ row.IsReset s.nodeId ∧ ¬ row.Summarizes s.nodeId := by
    simp [reportRows, CsvRow.IsReset, CsvRow.Summarizes]
  have hclear (hflag : s.sessionSummaryEmitted = false) :
      ∀ row ∈ since s.nodeId (reportRows s.nodeId report ++ csv), ¬ row.Summarizes s.nodeId := by
    rw [since_append fun row hrow => (hquiet row hrow).1]
    intro row hrow
    rcases List.mem_append.mp hrow with hrow | hrow
    · exact (hquiet row hrow).2
    · exact h.clear hflag row hrow
  have hprinted (hflag : s.sessionSummaryEmitted = true) : s.state = .established ∧
      AllReported s.nodeId (reportRows s.nodeId report ++ csv) ∧
      SummaryIn s.nodeId (reportRows s.nodeId report ++ csv) := by
    obtain ⟨hest, hall, hin⟩ := h.printed hflag
    refine ⟨hest, ?_, hin.append hquiet⟩
    intro k
    rw [latest_reportRows]
    split
    · rfl
    · exact hall k
  rcases group_cases report with hgroup | ⟨k₀, hk₀⟩
  · have hother (k : Fin pqcMetricsGroupCount) : report.group ≠ k.succ := by
      have := k.succ.isLt
      have := k.succ_pos
      omega
    rw [setNodeMetrics_unknown hgroup]
    refine ⟨?_, ?_, hclear, hprinted⟩
    · intro k
      rw [latest_reportRows, if_neg (hother k)]
      exact h.mask k
    · intro k value
      rw [latest_reportRows, if_neg (hother k)]
      exact h.values k value
  · have hsame (k : Fin pqcMetricsGroupCount) : report.group = k.succ ↔ k₀ = k := by
      rw [hk₀, Fin.ext_iff]
      simp
    rw [setNodeMetrics_group hk₀]
    refine ⟨?_, ?_, hclear, hprinted⟩
    · intro k
      rw [testBit_setBit, latest_reportRows]
      by_cases hk : k₀ = k
      · simp [hk, (hsame k).mpr hk]
      · rw [if_neg (mt (hsame k).mp hk), ← h.mask k]
        simp [hk]
    · intro k value
      dsimp only
      rw [latest_reportRows]
      by_cases hk : k₀ = k
      · rw [if_pos ((hsame k).mpr hk), hk, Function.update_self]
        exact Option.some.inj
      · have hne : k.succ ≠ k₀.succ := fun heq => hk (Fin.succ_injective _ heq).symm
        rw [if_neg (mt (hsame k).mp hk), Function.update_of_ne hne]
        exact h.values k value

theorem summaryRows_summarize (s : Session) : ∀ row ∈ summaryRows s, row.Summarizes s.nodeId := by
  simp [summaryRows, CsvRow.Summarizes]

theorem summaryRows_quiet (s : Session) (nodeId : UInt16) :
    ∀ row ∈ summaryRows s, ¬ row.IsReset nodeId := by
  simp [summaryRows, CsvRow.IsReset]

/-- The summary prints what is recorded. -/
theorem Recorded.summary (h : Recorded s csv) (hest : s.state = .established)
    (hflag : s.sessionSummaryEmitted = false) (hall : AllReported s.nodeId csv) :
    Recorded (markSummary s) (summaryRows s ++ csv) := by
  have hlatest (k : Fin pqcMetricsGroupCount) :
      latest s.nodeId k.succ (summaryRows s ++ csv) = latest s.nodeId k.succ csv :=
    latest_append (summaryRows_quiet s s.nodeId) fun row hrow =>
      report_of_summarizes (summaryRows_summarize s row hrow) _ _
  refine ⟨?_, ?_, ?_, ?_⟩
  · intro k
    simp only [markSummary, hlatest]
    exact h.mask k
  · intro k value
    simp only [markSummary, hlatest]
    exact h.values k value
  · intro hemitted
    cases hemitted
  · intro _
    refine ⟨hest, ?_, [], s, csv, rfl, rfl, by simp, h.clear hflag, ?_⟩
    · intro k
      simp only [markSummary, hlatest]
      exact hall k
    · intro k
      obtain ⟨value, hvalue⟩ := Option.isSome_iff_exists.mp (hall k)
      simp only [markSummary]
      rw [hvalue, h.values k value hvalue]

end Root

end PqcContiki
