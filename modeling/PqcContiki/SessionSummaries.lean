import PqcContiki.SummaryHandlers

/-! The summary rows of a session: when they are printed, and what of the node's they print. -/
namespace PqcContiki

open Relation Runs

namespace Root

variable {P : Platform} {clk : Clock} {rnd : Entropy} {r r' r'' r₀ r₁ : Root}
  {i j : Fin sessionMaxNodes} {nodeId : UInt16} {group : ℕ} {csv csv' rows : List CsvRow}
  {row : CsvRow} {s s' : Session} {past : List Root}

/-- The report that the handler of an event accepts, with the node whose session stores it. -/
def accepts (r : Root) : Event → Option (UInt16 × MetricsReport)
  | .receive _ _ _ data =>
    if pqcHeaderValid data = true ∧ byteAt data pqcHdrMsgType = pqcMsgMetrics ∧
        (r.sessionManagerGetOrCreate (pqcHeaderGetNodeId data)).1.isSome = true then
      (metricsReport data).map fun report => (pqcHeaderGetNodeId data, report)
    else none
  | _ => none

/-- More rows, none of them of a report. -/
abbrev Unreported (csv csv' : List CsvRow) : Prop :=
  Logs (fun row => ∀ nodeId group, row.report nodeId group = none) csv csv'

theorem Restarts.unreported (h : Restarts csv csv') : Unreported csv csv' := by
  refine h.mono fun row hrow nodeId group => ?_
  by_cases hconcerns : row.Concerns nodeId
  · have hreset := hrow nodeId hconcerns
    cases row with
    | temp _ _ => rfl
    | event id kind => obtain ⟨-, rfl | rfl | rfl⟩ := hreset <;> rfl
  · exact report_of_not_concerns hconcerns group

theorem Foreignly.unreported (h : Foreignly csv csv') : Unreported csv csv' :=
  Restarts.unreported (Foreignly.restarts h)

theorem unreported_summaryIfReady (i : Fin sessionMaxNodes) (r : Root) :
    Unreported r.csv (r.csvSessionSummaryIfReady i).csv := by
  refine (csvSessionSummaryIfReady_logs i r).mono fun row hrow id group => ?_
  cases row with
  | temp _ _ => rfl
  | event id' kind v0 v1 v2 v3 mask =>
    have hsum : CsvRow.Summarizes id' (.event id' kind v0 v1 v2 v3 mask) := ⟨rfl, hrow⟩
    exact report_of_summarizes hsum id group

theorem unreported_handleHandshake (P : Platform) (clk : Clock) (rnd : Entropy)
    (i : Fin sessionMaxNodes) (dst : UdpSendCtx) (d : Bytes) (r : Root) :
    Unreported r.csv (r.handleHandshake P clk rnd i dst d).csv := by
  unfold handleHandshake
  dsimp only
  split
  · refine Logs.trans ?_ (unreported_summaryIfReady i _)
    exact Foreignly.unreported ((foreignly_csvHsSummary _ (Or.inl rfl) _).trans
      (foreignly_impactEnd ..))
  · exact Logs.refl _

theorem restarts_retryTick (hsound : Sound r) (clk : Fin sessionMaxNodes → Clock) :
    Restarts r.csv (r.retryTick P clk).csv := by
  unfold retryTick
  induction List.finRange sessionMaxNodes generalizing r with
  | nil => exact Logs.refl _
  | cons i is ih =>
    have hrestarts : Restarts r.csv (r.retrySession P (clk i) i).csv := by
      rcases retrySession_cases (P := P) (clk i) hsound i with hcalm | hgave
      · exact Foreignly.restarts (Plainly.foreignly hcalm.rows)
      · exact restarts_gaveUp hgave
    exact hrestarts.trans
      (ih (sound_acts hsound (retrySession_acts (clk i) 0 i r)))

/-- The rows of reports that a handler prints are those of the report it accepts. -/
def Reports (accepted : Option (UInt16 × MetricsReport)) (rows : List CsvRow) : Prop :=
  ∀ nodeId group value, (∃ row ∈ rows, row.report nodeId group = some value) ↔
    ∃ report, accepted = some (nodeId, report) ∧ report.group = group ∧ report.value = value

theorem reports_none {accepted : Option (UInt16 × MetricsReport)} (h : Unreported csv csv')
    (hnone : accepted = none) : ∃ rows, csv' = rows ++ csv ∧ Reports accepted rows := by
  obtain ⟨rows, rfl, hrows⟩ := h
  refine ⟨rows, rfl, fun nodeId group value => iff_of_false ?_ ?_⟩
  · rintro ⟨row, hrow, hreport⟩
    rw [hrows row hrow] at hreport
    cases hreport
  · rintro ⟨report, haccepted, -⟩
    rw [hnone] at haccepted
    cases haccepted

theorem report_reportRows {report : MetricsReport} {id : UInt16} {value : Fin 4 → UInt32} :
    (∃ row ∈ reportRows id report, row.report nodeId group = some value) ↔
      id = nodeId ∧ report.group = group ∧ report.value = value := by
  have hvalue : ![report.value 0, report.value 1, report.value 2, report.value 3] =
      report.value := by
    funext k
    fin_cases k <;> rfl
  simp [reportRows, CsvRow.report, hvalue, and_assoc]

theorem reports_handleMetrics (hs : Serves i nodeId r) (d : Bytes) :
    ∃ rows, (r.handleMetrics i d).csv = rows ++ r.csv ∧
      Reports ((metricsReport d).map fun report => (nodeId, report)) rows := by
  unfold handleMetrics
  rw [hs.nodeId]
  dsimp only
  cases hreport : metricsReport d with
  | none => exact reports_none (Foreignly.unreported (Plainly.foreignly (Logs.row rfl))) rfl
  | some report =>
    obtain ⟨rows, hcsv, hrows⟩ := unreported_summaryIfReady i
      ((r.csvNodeMetrics nodeId report).sessionStoreNodeMetrics i report)
    refine ⟨rows ++ reportRows nodeId report, ?_, fun id group value => ?_⟩
    · rw [hcsv, List.append_assoc]
      rfl
    · have hsplit : (∃ row ∈ rows ++ reportRows nodeId report, row.report id group = some value) ↔
          ∃ row ∈ reportRows nodeId report, row.report id group = some value := by
        constructor
        · rintro ⟨row, hrow, hvalue⟩
          rcases List.mem_append.mp hrow with hrow | hrow
          · rw [hrows row hrow] at hvalue
            cases hvalue
          · exact ⟨row, hrow, hvalue⟩
        · rintro ⟨row, hrow, hvalue⟩
          exact ⟨row, List.mem_append_right _ hrow, hvalue⟩
      rw [hsplit, report_reportRows]
      simp [and_assoc]

theorem Reports.after {accepted : Option (UInt16 × MetricsReport)} (h : Unreported csv csv')
    {csv'' : List CsvRow} (hr : ∃ rows, csv'' = rows ++ csv' ∧ Reports accepted rows) :
    ∃ rows, csv'' = rows ++ csv ∧ Reports accepted rows := by
  obtain ⟨below, rfl, hbelow⟩ := h
  obtain ⟨rows, rfl, hrows⟩ := hr
  refine ⟨rows ++ below, by simp, fun id group value => ?_⟩
  rw [← hrows id group value]
  constructor
  · rintro ⟨row, hrow, hvalue⟩
    rcases List.mem_append.mp hrow with hrow | hrow
    · exact ⟨row, hrow, hvalue⟩
    · rw [hbelow row hrow] at hvalue
      cases hvalue
  · rintro ⟨row, hrow, hvalue⟩
    exact ⟨row, List.mem_append_left _ hrow, hvalue⟩

theorem reports_handle (hsound : Sound r) (e : Event) :
    ∃ rows, (r.handle P e).csv = rows ++ r.csv ∧ Reports (r.accepts e) rows := by
  cases e with
  | retry clk => exact reports_none (Restarts.unreported (restarts_retryTick hsound clk)) rfl
  | transmit => exact reports_none (Logs.refl _) rfl
  | receive clk rnd sender data =>
    simp only [handle]
    rcases udpRxCallback_cases (P := P) clk rnd hsound sender data with
      ⟨hcalm, hnone⟩ | ⟨i, r₀, hvalid, hcreate, hfound, heq⟩
    · refine reports_none (Foreignly.unreported (Plainly.foreignly hcalm.rows)) (if_neg ?_)
      rintro ⟨hvalid, -, hsome⟩
      rw [hnone hvalid] at hsome
      cases hsome
    · have hcsv : r₀.csv = r.csv := by
        rcases hfound.how with rfl | ⟨-, -, rfl⟩ <;> rfl
      have haccepts : r.accepts (.receive clk rnd sender data) =
          if byteAt data pqcHdrMsgType = pqcMsgMetrics then
            (metricsReport data).map fun report => (pqcHeaderGetNodeId data, report)
          else none := by
        simp [accepts, hvalid, hcreate]
      rw [heq, ← hcsv, haccepts]
      by_cases hkind : byteAt data pqcHdrMsgType = pqcMsgGetpk
      · obtain ⟨r₁, hr, hstart⟩ := dispatch_getpk (P := P) clk rnd hfound.sound
          hfound.serves hkind sender
        obtain ⟨ok, r₂, hh, ho, hend⟩ := hr.launched (P := P) hfound.serves clk rnd
          ⟨some udpConn, some sender⟩
        rw [hstart, hend]
        refine reports_none (Restarts.unreported (restarts_opened hr hh)) (if_neg ?_)
        rw [hkind]
        decide
      · obtain ⟨r₁, hcalm, -, hdispatch⟩ := dispatch_cases (P := P) clk rnd
          hfound.sound hfound.serves hkind sender
        have hbelow := Foreignly.unreported (Plainly.foreignly hcalm.rows)
        rw [hdispatch]
        by_cases htemp : byteAt data pqcHdrMsgType = pqcMsgTemp
        · rw [if_pos htemp]
          refine Reports.after hbelow (reports_none ?_ (if_neg ?_))
          · exact Foreignly.unreported (Plainly.foreignly (handleTemp_plainly P i data r₁))
          · rw [htemp]
            decide
        · rw [if_neg htemp]
          by_cases hmetrics : byteAt data pqcHdrMsgType = pqcMsgMetrics
          · rw [if_pos hmetrics, if_pos hmetrics]
            exact Reports.after hbelow (reports_handleMetrics (hcalm.serves hfound.serves) data)
          · rw [if_neg hmetrics, if_neg hmetrics]
            exact Reports.after hbelow
              (reports_none (unreported_handleHandshake P clk rnd i _ data r₁) rfl)

/-- Both conditions of a summary hold of session `i`. -/
def Complete (i : Fin sessionMaxNodes) (r : Root) : Prop :=
  (r.sessions i).used = true ∧ (r.sessions i).state = .established ∧
    AllReported (r.sessions i).nodeId r.csv

theorem emitted_iff_complete (hsound : Sound r) (h : SummarySound r) (i : Fin sessionMaxNodes) :
    Emitted i r ↔ Complete i r := by
  constructor
  · rintro ⟨hused, hflag⟩
    obtain ⟨hest, hall, -⟩ := (h.recorded i hused).printed hflag
    exact ⟨hused, hest, hall⟩
  · rintro ⟨hused, hest, hall⟩
    refine ⟨hused, ?_⟩
    by_contra hflag
    refine h.prompt i hused ⟨by simpa using hflag, ?_, ?_⟩
    · exact (sessionIsEstablished_iff (hsound.sessions i hused).2).mpr hest
    · exact (h.recorded i hused).allReported_iff.mp hall

/-- The summary of every session, after every handler of every run. -/
theorem session_summary_once (h : Reaches P past r) :
    (∀ i, (r.sessions i).used = true →
      ((r.sessions i).sessionSummaryEmitted = true ↔ (r.sessions i).state = .established ∧
        AllReported (r.sessions i).nodeId r.csv) ∧
      ((r.sessions i).sessionSummaryEmitted = false →
        ∀ row ∈ since (r.sessions i).nodeId r.csv, ¬ row.Summarizes (r.sessions i).nodeId) ∧
      ((r.sessions i).sessionSummaryEmitted = true → SummaryIn (r.sessions i).nodeId r.csv)) ∧
    ∀ e, ∃ rows, (r.handle P e).csv = rows ++ r.csv ∧ Reports (r.accepts e) rows ∧
      ∀ i, ((r.handle P e).sessions i).used = true →
        ((∃ row ∈ rows, row.Summarizes ((r.handle P e).sessions i).nodeId) ↔
          ¬ Complete i r ∧ Complete i (r.handle P e)) := by
  have hsound := h.sound
  have hsummary := h.summarySound
  refine ⟨?_, ?_⟩
  · intro i hused
    have hrecorded := hsummary.recorded i hused
    have hiff := emitted_iff_complete hsound hsummary i
    rw [Emitted, Complete, and_congr_right_iff] at hiff
    exact ⟨hiff hused, hrecorded.clear, fun hflag => (hrecorded.printed hflag).2.2⟩
  · intro e
    have hnext : Reaches P (r :: past) (r.handle P e) := .next h rfl
    have hsummary' := Reaches.summarySound hnext
    obtain ⟨rows, hcsv, hreports⟩ := reports_handle (P := P) hsound e
    obtain ⟨rows', hcsv', hprints⟩ := (prints_handle (P := P) hsound e).exactly hsummary'.unique
    obtain rfl : rows = rows' := List.append_cancel_right (hcsv.symm.trans hcsv')
    refine ⟨rows, hcsv, hreports, fun i hi => ?_⟩
    rw [hprints i hi, emitted_iff_complete hsound hsummary,
      emitted_iff_complete (Reaches.sound hnext) hsummary']

/-- A report of node 7 with four values from `value` on. -/
def reportOf (group value : ℕ) : Event := metricsFrom 7 group fun i => UInt32.ofNat (value + i)

/-- Node 7 completes its handshake and sends its first six reports, one of them twice. -/
def reported : Root :=
  follow (handshakeOf 7 9 ++ [reportOf 1 90, reportOf 2 20, reportOf 3 30, reportOf 1 10,
    reportOf 4 40, reportOf 5 50, reportOf 6 60])

/-- The last report arrives. -/
def summarized : Root := reported.handle .demo (reportOf 7 70)

/-- The last report arrives again. -/
def repeated : Root := summarized.handle .demo (reportOf 7 70)

/-- The summary, newest row first, and below it the rows of the last report. -/
def lastRows : List CsvRow :=
  [.event 7 .sessionTemp 0 0 60 61 0, .event 7 .sessionFrag 0 0 52 53 0,
    .event 7 .sessionCrypto 0 41 0 43 15, .event 7 .sessionCt 30 0 32 1 3,
    .event 7 .sessionPk 0 21 1 23 3, .event 7 .sessionHs 0 10 0 70 3,
    .event 7 .nodeMetricsMeta 7 0 0 1 4, .event 7 (.nodeGroup 7) 70 71 72 73 0]

theorem summary_reached :
    ((reported.sessions 0).used = true ∧ (reported.sessions 0).nodeId = 7 ∧
      (reported.sessions 0).state = .established ∧
      (reported.sessions 0).sessionSummaryEmitted = false) ∧
    (summarized.csv = lastRows ++ reported.csv ∧ (summarized.sessions 0).used = true ∧
      (summarized.sessions 0).nodeId = 7 ∧
      (summarized.sessions 0).sessionSummaryEmitted = true) ∧
    (repeated.sessions 0).used = true ∧ (repeated.sessions 0).nodeId = 7 := by
  decide +kernel

/-- The summary of an established node follows its seventh report, and a copy of that report prints
none. -/
theorem session_summary_once_printed : ∃ past, Reaches .demo past reported ∧
    (¬ Complete 0 reported ∧ ∀ row ∈ since 7 reported.csv, ¬ row.Summarizes 7) ∧
    (Complete 0 summarized ∧ summarized.csv = lastRows ++ reported.csv ∧
      Reports (reported.accepts (reportOf 7 70)) lastRows ∧ SummaryIn 7 summarized.csv) ∧
    ∃ rows, repeated.csv = rows ++ summarized.csv ∧ ∀ row ∈ rows, ¬ row.Summarizes 7 := by
  obtain ⟨⟨hused, hid, hest, hflag⟩, ⟨hcsv, hused', hid', hflag'⟩, hused'', hid''⟩ :=
    summary_reached
  obtain ⟨past, hrun⟩ : ∃ past, Reaches .demo past reported := reaches_follow _
  have hnext : Reaches .demo (reported :: past) summarized := .next hrun rfl
  obtain ⟨hsessions, hrows⟩ := session_summary_once hrun
  obtain ⟨hsessions', hrows'⟩ := session_summary_once hnext
  obtain ⟨hiff, hclear, -⟩ := hsessions 0 hused
  obtain ⟨hiff', -, hprinted⟩ := hsessions' 0 hused'
  obtain ⟨rows, hcsv', hreports, -⟩ := hrows (reportOf 7 70)
  obtain ⟨again, hagain, -, hprints⟩ := hrows' (reportOf 7 70)
  have hrepeated : summarized.handle .demo (reportOf 7 70) = repeated := rfl
  rw [hrepeated] at hagain hprints
  rw [hid] at hclear
  rw [hid'] at hprinted
  obtain rfl : rows = lastRows := List.append_cancel_right (hcsv'.symm.trans hcsv)
  have hbefore : ¬ Complete 0 reported := by
    rintro ⟨-, hcomplete⟩
    cases hflag.symm.trans (hiff.mpr hcomplete)
  have hafter : Complete 0 summarized := ⟨hused', hiff'.mp hflag'⟩
  refine ⟨past, hrun, ⟨hbefore, hclear hflag⟩, ⟨hafter, hcsv, hreports, hprinted hflag'⟩, again,
    hagain, ?_⟩
  intro row hrow hsummary
  have hsummary' : row.Summarizes (repeated.sessions 0).nodeId := hid''.symm ▸ hsummary
  exact ((hprints 0 hused'').mp ⟨row, hrow, hsummary'⟩).1 hafter

end Root

end PqcContiki
