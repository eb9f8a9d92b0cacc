import PqcContiki.SummaryRows

/-! How the turns of the root keep the summaries of its sessions in step with their rows. -/
namespace PqcContiki

open Relation Runs

namespace Root

variable {P : Platform} {clk : Clock} {rnd : Entropy} {r r' r'' r₀ r₁ : Root}
  {i j : Fin sessionMaxNodes} {nodeId : UInt16} {group : ℕ} {csv csv' rows : List CsvRow}
  {row : CsvRow} {s s' : Session} {past : List Root}

theorem foreign_of_plain (nodeId : UInt16) (row : CsvRow) (h : row.Plain) :
    ¬ row.Concerns nodeId := by
  cases row with
  | temp _ _ => exact fun hconcerns => hconcerns
  | event id kind =>
    rintro ⟨-, ⟨g, rfl⟩ | hkind⟩
    · cases h
    · simp only [List.mem_cons, List.not_mem_nil, or_false] at hkind
      rcases hkind with rfl | rfl | rfl | rfl | rfl | rfl | rfl | rfl | rfl <;> cases h

/-- Kinds of rows that no summary depends on. -/
def unconcerned : List CsvEvent :=
  [.hsSuccess, .hsFail, .hsPk, .hsCt, .hsCrypto, .impactOverlap, .impactStart, .impactNodeLost,
    .impactTemp, .impactResync, .impactEnd]

theorem foreign_of_among {kinds : List CsvEvent} (hkinds : ∀ kind ∈ kinds, kind ∈ unconcerned)
    (nodeId : UInt16) (row : CsvRow) (h : row.Among kinds) : ¬ row.Concerns nodeId := by
  cases row with
  | temp _ _ => exact h.elim
  | event id kind =>
    have hmem := hkinds kind h
    rintro ⟨-, ⟨g, rfl⟩ | hkind⟩
    · simp [unconcerned] at hmem
    · simp only [unconcerned, List.mem_cons, List.not_mem_nil, or_false] at hmem hkind
      rcases hkind with rfl | rfl | rfl | rfl | rfl | rfl | rfl | rfl | rfl <;> simp at hmem

/-- More rows, none of which any summary depends on. -/
abbrev Foreignly (csv csv' : List CsvRow) : Prop :=
  Logs (fun row => ∀ nodeId, ¬ row.Concerns nodeId) csv csv'

theorem Plainly.foreignly (h : Plainly csv csv') : Foreignly csv csv' :=
  h.mono fun row hrow nodeId => foreign_of_plain nodeId row hrow

theorem foreignly_csvHsSummary (s : Session) {event : CsvEvent}
    (hevent : event = .hsSuccess ∨ event = .hsFail) (r : Root) :
    Foreignly r.csv (r.csvHsSummary s event).csv := by
  refine (csvHsSummary_logs s event r).mono fun row hrow nodeId =>
    foreign_of_among ?_ nodeId row hrow
  rcases hevent with rfl | rfl <;> simp [unconcerned]

theorem foreignly_impactStart (now : ℕ) (target : UInt16) (r : Root) :
    Foreignly r.csv (r.impactStart now target).csv :=
  (impactStart_logs now target r).mono fun row hrow nodeId =>
    foreign_of_among (by simp [unconcerned]) nodeId row hrow

theorem foreignly_impactEnd (P : Platform) (now : ℕ) (target : UInt16) (success : Bool)
    (r : Root) : Foreignly r.csv (r.impactEnd P now target success).csv :=
  (impactEnd_logs P now target success r).mono fun row hrow nodeId =>
    foreign_of_among (by simp [unconcerned]) nodeId row hrow

/-- What holds of the summaries between any two turns. -/
structure SummarySound (r : Root) : Prop where
  unique : Unique r
  recorded : ∀ i, (r.sessions i).used = true → Recorded (r.sessions i) r.csv
  prompt : ∀ i, (r.sessions i).used = true → ¬ SummaryDue (r.sessions i)
  orphan : ∀ nodeId, (∀ i, (r.sessions i).used = true → (r.sessions i).nodeId ≠ nodeId) →
    ∀ row ∈ r.csv, ¬ row.Concerns nodeId

/-- A turn on session `i`, which is all that its rows are about. -/
structure Focused (i : Fin sessionMaxNodes) (r r' : Root) : Prop where
  owners : SameOwners r r'
  others : ∀ j, j ≠ i → r'.sessions j = r.sessions j
  rows : Logs (fun row => ∀ nodeId, nodeId ≠ (r.sessions i).nodeId → ¬ row.Concerns nodeId)
    r.csv r'.csv

theorem focused_rows (hl : Foreignly csv csv') (nodeId : UInt16) :
    Logs (fun row => ∀ id, id ≠ nodeId → ¬ row.Concerns id) csv csv' :=
  hl.mono fun _ hrow id _ => hrow id

theorem SummarySound.focused (h : SummarySound r) (hused : (r.sessions i).used = true)
    (hf : Focused i r r') (hrecorded : Recorded (r'.sessions i) r'.csv)
    (hprompt : ¬ SummaryDue (r'.sessions i)) : SummarySound r' where
  unique := hf.owners.unique h.unique
  recorded j hj := by
    by_cases hji : j = i
    · exact hji ▸ hrecorded
    · have hj' : (r.sessions j).used = true := (hf.owners.used j).symm.trans hj
      have hne : (r.sessions j).nodeId ≠ (r.sessions i).nodeId :=
        fun heq => hji (h.unique j i hj' hused heq)
      rw [hf.others j hji]
      exact (h.recorded j hj').foreign ⟨rfl, rfl, rfl, rfl⟩ id
        (hf.rows.mono fun row hrow => hrow _ hne)
  prompt j hj := by
    by_cases hji : j = i
    · exact hji ▸ hprompt
    · rw [hf.others j hji] at hj ⊢
      exact h.prompt j hj
  orphan nodeId hnone := by
    have hnone' : ∀ j, (r.sessions j).used = true → (r.sessions j).nodeId ≠ nodeId := by
      intro j hj
      rw [← hf.owners.nodeId j]
      exact hnone j ((hf.owners.used j).trans hj)
    obtain ⟨rows, heq, hrows⟩ := hf.rows
    intro row hrow
    rw [heq] at hrow
    rcases List.mem_append.mp hrow with hrow | hrow
    · exact hrows row hrow nodeId (hnone' i hused).symm
    · exact h.orphan nodeId hnone' row hrow

theorem Quiet.kept (hq : Quiet s s') (hid : s'.nodeId = s.nodeId) : Kept s s' :=
  ⟨hid, congrArg Books.nodeMetricValues hq.books, congrArg Books.nodeMetricsMask hq.books,
    congrArg Books.sessionSummaryEmitted hq.books⟩

theorem SummaryDue.of_quiet (hq : Quiet s s') (h : SummaryDue s') : SummaryDue s := by
  obtain ⟨hflag, hest, hmask⟩ := h
  have hkept := congrArg Books.sessionSummaryEmitted hq.books
  have hsame := congrArg Books.nodeMetricsMask hq.books
  simp only [Session.books] at hkept hsame
  rw [hkept] at hflag
  rw [hq.sessionIsEstablished] at hest
  rw [hsame] at hmask
  exact ⟨hflag, hest, hmask⟩

theorem SummarySound.calm (h : SummarySound r) (hc : Calm r r') : SummarySound r' where
  unique := SameOwners.unique (fun j => (hc.sessions j).identity) h.unique
  recorded j hj := by
    rw [hc.sameUsed] at hj
    have hq := (hc.sessions j).quiet
    exact (h.recorded j hj).foreign (Quiet.kept hq (hc.sameNodeId j)) (fun hs => hq.state.trans hs)
      (hc.rows.mono fun row hrow => foreign_of_plain _ row hrow)
  prompt j hj hdue := by
    rw [hc.sameUsed] at hj
    exact h.prompt j hj (SummaryDue.of_quiet (hc.sessions j).quiet hdue)
  orphan nodeId hnone := by
    obtain ⟨rows, heq, hrows⟩ := hc.rows
    intro row hrow
    rw [heq] at hrow
    rcases List.mem_append.mp hrow with hrow | hrow
    · exact foreign_of_plain nodeId row (hrows row hrow)
    · refine h.orphan nodeId ?_ row hrow
      intro j hj
      rw [← hc.sameNodeId j]
      exact hnone j ((hc.sameUsed j).trans hj)

theorem not_summaryDue_of_state (h : s.state ≠ .established) : ¬ SummaryDue s := by
  rintro ⟨-, hest, -⟩
  rw [Session.sessionIsEstablished, Bool.and_eq_true, beq_iff_eq] at hest
  exact h hest.1

/-- What `csv_session_summary_if_ready` leaves recorded, and nothing due. -/
theorem recorded_summaryIfReady (h : Recorded (r.sessions i) r.csv) :
    Recorded ((r.csvSessionSummaryIfReady i).sessions i) (r.csvSessionSummaryIfReady i).csv ∧
      ¬ SummaryDue ((r.csvSessionSummaryIfReady i).sessions i) := by
  by_cases hdue : SummaryDue (r.sessions i)
  · rw [csvSessionSummaryIfReady_due hdue]
    simp only [Function.update_self]
    obtain ⟨hflag, hest, hmask⟩ := hdue
    rw [Session.sessionIsEstablished, Bool.and_eq_true, beq_iff_eq] at hest
    refine ⟨h.summary hest.1 hflag (h.allReported_iff.mpr hmask), ?_⟩
    rintro ⟨hclear, -⟩
    cases hclear
  · rw [csvSessionSummaryIfReady_not_due hdue]
    exact ⟨h, hdue⟩

theorem focused_summaryIfReady (hid : (r.sessions i).nodeId = nodeId) :
    Logs (fun row => ∀ id, id ≠ nodeId → ¬ row.Concerns id) r.csv
      (r.csvSessionSummaryIfReady i).csv := by
  by_cases hdue : SummaryDue (r.sessions i)
  · rw [csvSessionSummaryIfReady_due hdue]
    refine ⟨_, rfl, ?_⟩
    simp only [summaryRows, hid]
    intro row hrow id hne
    simp only [List.mem_cons, List.not_mem_nil, or_false] at hrow
    rcases hrow with rfl | rfl | rfl | rfl | rfl | rfl <;>
      exact fun hconcerns => hne hconcerns.1.symm
  · rw [csvSessionSummaryIfReady_not_due hdue]
    exact Logs.refl _

theorem summaryIfReady_others (hj : j ≠ i) :
    (r.csvSessionSummaryIfReady i).sessions j = r.sessions j := by
  rcases csvSessionSummaryIfReady_sessions i j r with heq | ⟨hji, -⟩
  · exact heq
  · exact absurd hji hj

theorem Handed.sameNodeId (h : Handed i r r') : (r'.sessions i).nodeId = (r.sessions i).nodeId :=
  congrArg (fun x => x.2.1) h.identity

theorem Kept.of_books (hid : s'.nodeId = s.nodeId)
    (hvalues : s'.books.nodeMetricValues = s.books.nodeMetricValues)
    (hmask : s'.books.nodeMetricsMask = s.books.nodeMetricsMask)
    (hflag : s'.books.sessionSummaryEmitted = s.books.sessionSummaryEmitted) : Kept s s' :=
  ⟨hid, hvalues, hmask, hflag⟩

theorem summarySound_heardTemp (h : SummarySound r) (hs : Serves i nodeId r) (data : Bytes) :
    SummarySound (r.handleTemp P i data) := by
  obtain ⟨temp, rxCounter, hsession⟩ :=
    pqcHandleEncryptedTemp_session P data ⟨0, 0, 0⟩ (r.sessions i)
  have hself : (r.handleTemp P i data).sessions i =
      ((r.sessions i).setRxCounter rxCounter).countTemp fun _ => temp := by
    rw [handleTemp_sessions, Function.update_self, hsession]
  have hplain := handleTemp_plainly P i data r
  refine h.focused hs.used ⟨work_owners (.heardTemp i nodeId data hs), ?_, ?_⟩ ?_ ?_
  · intro j hj
    rw [handleTemp_sessions, Function.update_of_ne hj]
  · exact focused_rows (Plainly.foreignly hplain) _
  · rw [hself]
    exact (h.recorded i hs.used).foreign ⟨rfl, rfl, rfl, rfl⟩ id
      (hplain.mono fun row hrow => foreign_of_plain _ row hrow)
  · rw [hself]
    exact h.prompt i hs.used

theorem summarySound_reported (h : SummarySound r) (hs : Serves i nodeId r)
    (report : MetricsReport) :
    SummarySound (((r.csvNodeMetrics nodeId report).sessionStoreNodeMetrics i
      report).csvSessionSummaryIfReady i) := by
  have howners := work_owners (P := Platform.demo) (.reported i nodeId report hs)
  have hstored := (h.recorded i hs.used).reported report
  rw [hs.nodeId, ← csvNodeMetrics_csv] at hstored
  set r₁ := (r.csvNodeMetrics nodeId report).sessionStoreNodeMetrics i report with hr₁
  have hself : r₁.sessions i = setNodeMetrics report (r.sessions i) := mapSession_self ..
  rw [← hself] at hstored
  have hid : (r₁.sessions i).nodeId = (r.sessions i).nodeId := by
    rw [hself]
    unfold setNodeMetrics
    split <;> rfl
  obtain ⟨hrecorded, hprompt⟩ := recorded_summaryIfReady (i := i) (r := r₁) hstored
  refine h.focused hs.used ⟨howners, ?_, ?_⟩ hrecorded hprompt
  · intro j hj
    rw [summaryIfReady_others hj]
    simp [hr₁, sessionStoreNodeMetrics, mapSession, hj]
    rfl
  · refine Logs.trans ⟨reportRows nodeId report, rfl, ?_⟩ (focused_summaryIfReady hid)
    intro row hrow id hne
    rw [hs.nodeId] at hne
    simp only [reportRows, List.mem_cons, List.not_mem_nil, or_false] at hrow
    rcases hrow with rfl | rfl <;> exact fun hconcerns => hne hconcerns.1.symm

theorem summarySound_failed (h : SummarySound r) (hs : Serves i nodeId r) (hh : Handed i r r')
    (howners : SameOwners r r') (hfrom : (r.sessions i).state = .waitCt)
    (hto : (r'.sessions i).state = .failed)
    (hb : (r'.sessions i).books = (r.sessions i).books.fail) : SummarySound r' := by
  have hlogs : Foreignly r.csv r'.csv := hh.csv ▸ Logs.refl _
  refine h.focused hs.used ⟨howners, hh.others, focused_rows hlogs _⟩ ?_ ?_
  · refine (h.recorded i hs.used).foreign ?_ ?_ (hlogs.mono fun row hrow => hrow _)
    · exact .of_books hh.sameNodeId (by rw [hb]; rfl) (by rw [hb]; rfl) (by rw [hb]; rfl)
    · intro hest
      rw [hfrom] at hest
      cases hest
  · exact not_summaryDue_of_state (by simp [hto])

theorem summarySound_succeeded {now : ℕ} (h : SummarySound r) (hs : Serves i nodeId r)
    (hh : Handed i r r₁) (hfrom : (r.sessions i).state = .waitCt)
    (hb : (r₁.sessions i).books = (r.sessions i).books.succeed)
    (howners : SameOwners r (((r₁.csvHsSummary (r₁.sessions i) .hsSuccess).impactEnd P now nodeId
      true).csvSessionSummaryIfReady i)) :
    SummarySound (((r₁.csvHsSummary (r₁.sessions i) .hsSuccess).impactEnd P now nodeId
      true).csvSessionSummaryIfReady i) := by
  have hlogs : Foreignly r.csv ((r₁.csvHsSummary (r₁.sessions i) .hsSuccess).impactEnd P now nodeId
      true).csv := by
    rw [← hh.csv]
    exact (foreignly_csvHsSummary _ (Or.inl rfl) r₁).trans (foreignly_impactEnd ..)
  have hsessions : ((r₁.csvHsSummary (r₁.sessions i) .hsSuccess).impactEnd P now nodeId
      true).sessions = r₁.sessions := impactEnd_sessions ..
  generalize (r₁.csvHsSummary (r₁.sessions i) .hsSuccess).impactEnd P now nodeId true = r₂
    at hlogs hsessions howners ⊢
  have hid : (r₂.sessions i).nodeId = (r.sessions i).nodeId := by rw [hsessions, hh.sameNodeId]
  have hrecorded : Recorded (r₂.sessions i) r₂.csv := by
    refine (h.recorded i hs.used).foreign ?_ ?_ (hlogs.mono fun row hrow => hrow _)
    · rw [hsessions]
      exact .of_books hh.sameNodeId (by rw [hb]; rfl) (by rw [hb]; rfl) (by rw [hb]; rfl)
    · intro hest
      rw [hfrom] at hest
      cases hest
  obtain ⟨hrecorded', hprompt⟩ := recorded_summaryIfReady hrecorded
  refine h.focused hs.used ⟨howners, ?_, ?_⟩ hrecorded' hprompt
  · intro j hj
    rw [summaryIfReady_others hj, hsessions, hh.others j hj]
  · exact (focused_rows hlogs _).trans (focused_summaryIfReady hid)

theorem summarySound_gaveUp (h : SummarySound r) (hg : GaveUp P i nodeId r r') :
    SummarySound r' := by
  have howners := work_owners (.gaveUp i nodeId hg)
  obtain @⟨r₁, now, v0, v1, hs, hh, -, -⟩ := hg
  have hlogs : Foreignly r.csv ((r₁.csvHsSummary (r₁.sessions i) .hsFail).impactEnd P now nodeId
      false).csv := by
    rw [← hh.csv]
    exact (foreignly_csvHsSummary _ (Or.inr rfl) r₁).trans (foreignly_impactEnd ..)
  have hsessions : ((r₁.csvHsSummary (r₁.sessions i) .hsFail).impactEnd P now nodeId
      false).sessions = r₁.sessions := impactEnd_sessions ..
  generalize (r₁.csvHsSummary (r₁.sessions i) .hsFail).impactEnd P now nodeId false = r₂
    at hlogs hsessions howners ⊢
  have hself : ((r₂.csvEvent nodeId .hsFailReset v0 v1 0 0).dropAndReset i).sessions i =
      (r₁.sessions i).sessionReset := by
    rw [dropAndReset_sessions, csvEvent_sessions, Function.update_self, hsessions]
  have hid : (r₁.sessions i).sessionReset.nodeId = nodeId := hh.sameNodeId.trans hs.nodeId
  refine h.focused hs.used ⟨howners, ?_, ?_⟩ ?_ ?_
  · intro j hj
    rw [dropAndReset_sessions, Function.update_of_ne hj, csvEvent_sessions, hsessions,
      hh.others j hj]
  · refine (focused_rows hlogs _).trans (Logs.row ?_)
    intro id hne hconcerns
    exact hne (hconcerns.1.symm.trans hs.nodeId.symm)
  · rw [hself]
    exact recorded_reset (.event nodeId .hsFailReset v0 v1 0 0 0) r₂.csv rfl rfl
      ⟨hid.symm, Or.inr (Or.inr rfl)⟩ (Logs.refl _)
  · rw [hself]
    exact not_summaryDue_of_state (by simp)

theorem summarySound_work (hw : Work P r r') (h : SummarySound r) : SummarySound r' := by
  have howners := work_owners hw
  cases hw with
  | calm hcalm => exact h.calm hcalm
  | heardTemp i nodeId data hs => exact summarySound_heardTemp h hs data
  | reported i nodeId report hs => exact summarySound_reported h hs report
  | failed i nodeId hs hh hfrom hto _ hb => exact summarySound_failed h hs hh howners hfrom hto hb
  | succeeded i nodeId now hs hh hfrom _ _ hb =>
    exact summarySound_succeeded h hs hh hfrom hb howners
  | gaveUp i nodeId hg => exact summarySound_gaveUp h hg

theorem summarySound_create (h : SummarySound r) (hfree : (r.sessions i).used = false)
    (hnew : r.sessionManagerFind nodeId = none) :
    SummarySound (r.setSession i (Session.sessionInit .root nodeId)) := by
  have hfresh : ∀ j, (r.sessions j).used = true → (r.sessions j).nodeId ≠ nodeId :=
    fun j hj => find_none hnew hj
  have hne {j : Fin sessionMaxNodes} (hj : (r.sessions j).used = true) : j ≠ i := by
    rintro rfl
    rw [hfree] at hj
    cases hj
  refine ⟨unique_create h.unique hnew, ?_, ?_, ?_⟩
  · intro j hj
    by_cases hji : j = i
    · rw [hji, setSession_sessions, Function.update_self]
      exact recorded_fresh rfl rfl fun row hrow => h.orphan nodeId hfresh row (since_subset hrow)
    · rw [setSession_sessions, Function.update_of_ne hji] at hj ⊢
      exact h.recorded j hj
  · intro j hj
    by_cases hji : j = i
    · rw [hji, setSession_sessions, Function.update_self]
      exact not_summaryDue_of_state (by simp)
    · rw [setSession_sessions, Function.update_of_ne hji] at hj ⊢
      exact h.prompt j hj
  · intro id hnone
    refine h.orphan id fun j hj => ?_
    have hid := hnone j
    rw [setSession_sessions, Function.update_of_ne (hne hj)] at hid
    exact hid hj

/-- A session that stands ready has recorded what there is: all that was, or nothing. -/
theorem Reopened.recorded (hr : Reopened i r r₁) (h : Recorded (r.sessions i) r.csv) :
    Recorded (r₁.sessions i) r₁.csv ∧
      Logs (fun row => ∀ id, id ≠ (r.sessions i).nodeId → ¬ row.Concerns id) r.csv r₁.csv := by
  have hid : (r₁.sessions i).nodeId = (r.sessions i).nodeId := hr.serves.nodeId
  rcases hr.how with ⟨hidle, hbooks, -, hrows⟩ | ⟨-, hbooks, -, row, csv, hreset, hbelow, habove⟩
  · refine ⟨h.foreign ?_ ?_ ((Plainly.foreignly hrows).mono fun row hrow => hrow _),
      focused_rows (Plainly.foreignly hrows) _⟩
    · exact .of_books hid (by rw [hbooks]) (by rw [hbooks]) (by rw [hbooks])
    · intro hest
      rw [hidle] at hest
      cases hest
  · refine ⟨?_, ?_⟩
    · exact recorded_reset row csv (congrArg Books.nodeMetricsMask hbooks)
        (congrArg Books.sessionSummaryEmitted hbooks) (hid.symm ▸ hreset)
        ((Plainly.foreignly habove).mono fun row hrow => hrow _)
    · refine (focused_rows (Plainly.foreignly hbelow) _).trans ((Logs.row ?_ :
        Logs _ csv (row :: csv)).trans (focused_rows (Plainly.foreignly habove) _))
      intro id hne hconcerns
      cases row with
      | temp _ _ => exact hreset
      | event id' kind => exact hne (hconcerns.1.symm.trans hreset.1)

theorem summarySound_opened {r₂ : Root} {ok : Bool} {now now' : ℕ} (h : SummarySound r)
    (hs : Serves i nodeId r) (hr : Reopened i r r₁) (hh : Handed i (r₁.impactStart now nodeId) r₂)
    (ho : Fsm.Opened P rnd (r₁.fsm i) ok (r₂.sessions i)) :
    SummarySound (if ok = true then r₂ else r₂.impactEnd P now' nodeId false) := by
  have howners := opened_owners hs hr hh
  obtain ⟨hrecorded, hrows⟩ := hr.recorded (h.recorded i hs.used)
  have hid : (r₂.sessions i).nodeId = (r₁.sessions i).nodeId := by
    rw [hh.sameNodeId, impactStart_sessions]
  have hkept : Kept (r₁.sessions i) (r₂.sessions i) ∧ (r₂.sessions i).state ≠ .established := by
    have hidle : (r₁.fsm i).s.state = .idle := hr.state
    cases ho with
    | sent _ _ hto _ hb =>
      exact ⟨.of_books hid (by rw [hb]; rfl) (by rw [hb]; rfl) (by rw [hb]; rfl), by simp [hto]⟩
    | failed _ _ hto _ hb =>
      exact ⟨.of_books hid (by rw [hb]; rfl) (by rw [hb]; rfl) (by rw [hb]; rfl), by simp [hto]⟩
    | refused _ _ hto _ hb =>
      exact ⟨.of_books hid (by rw [hb]; rfl) (by rw [hb]; rfl) (by rw [hb]; rfl),
        by simp [hto, hr.state]⟩
  have hstarted : Foreignly r₁.csv r₂.csv := by
    rw [hh.csv]
    exact foreignly_impactStart ..
  have hsound (r₃ : Root) (hsessions : r₃.sessions = r₂.sessions)
      (hlogs : Foreignly r₁.csv r₃.csv) : SummarySound r₃ := by
    refine h.focused hs.used ⟨?_, ?_, ?_⟩ ?_ ?_
    · intro j
      rw [hsessions]
      exact howners j
    · intro j hj
      rw [hsessions, hh.others j hj, impactStart_sessions, hr.others j hj]
    · exact hrows.trans (focused_rows hlogs _)
    · rw [hsessions]
      refine hrecorded.foreign hkept.1 ?_ (hlogs.mono fun row hrow => hrow _)
      intro hest
      rw [hr.state] at hest
      cases hest
    · rw [hsessions]
      exact not_summaryDue_of_state hkept.2
  cases ok with
  | true => exact hsound r₂ rfl hstarted
  | false =>
    exact hsound _ (impactEnd_sessions ..) (hstarted.trans (foreignly_impactEnd ..))

theorem summarySound_turn (ht : Turn P r r') (h : SummarySound r) : SummarySound r' := by
  cases ht with
  | work hw => exact summarySound_work hw h
  | create i nodeId hfree hnew => exact summarySound_create h hfree hnew
  | opened i nodeId now now' hs hr hh ho => exact summarySound_opened h hs hr hh ho

theorem summarySound_turns (ht : Turns P r r') (h : SummarySound r) : SummarySound r' := by
  induction ht with
  | refl => exact h
  | tail _ hlast ih => exact summarySound_turn hlast ih

theorem summarySound_boot (P : Platform) (rnd : Entropy) : SummarySound (boot P rnd) := by
  have hboot : (boot P rnd).sessions = (fun _ => Session.zero) ∧
      ∀ row ∈ (boot P rnd).csv, row.Plain := by
    unfold boot
    dsimp only
    split
    · refine ⟨rfl, ?_⟩
      simp [csvEvent, csvEventUnits, CsvRow.Plain, CsvEvent.tracked]
    · refine ⟨rfl, ?_⟩
      simp [csvEvent, csvEventUnits, CsvRow.Plain, CsvEvent.tracked]
  obtain ⟨hsessions, hrows⟩ := hboot
  have hunused (j : Fin sessionMaxNodes) : ((boot P rnd).sessions j).used ≠ true := by
    simp [hsessions]
  exact ⟨fun j _ hj => absurd hj (hunused j), fun j hj => absurd hj (hunused j),
    fun j hj => absurd hj (hunused j),
    fun nodeId _ row hrow => foreign_of_plain nodeId row (hrows row hrow)⟩

theorem Reaches.summarySound (h : Reaches P past r) : SummarySound r := by
  apply h.invariant (I := fun _ r => SummarySound r)
  · rintro r ⟨rnd, rfl⟩
    exact summarySound_boot P rnd
  · rintro past r e r' hr hsound rfl
    exact summarySound_turns (handle_turns (Reaches.sound hr) e) hsound

end Root

end PqcContiki
