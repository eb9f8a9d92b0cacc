import PqcContiki.SummaryTurns

/-! Which handlers of the root print a summary. -/
namespace PqcContiki

open Relation Runs

namespace Root

variable {P : Platform} {clk : Clock} {rnd : Entropy} {r r' r'' r₀ r₁ : Root}
  {i j : Fin sessionMaxNodes} {nodeId : UInt16} {group : ℕ} {csv csv' rows : List CsvRow}
  {row : CsvRow} {s s' : Session} {past : List Root}

/-- The summary of session `i` was printed since its last restart. -/
def Emitted (i : Fin sessionMaxNodes) (r : Root) : Prop :=
  (r.sessions i).used = true ∧ (r.sessions i).sessionSummaryEmitted = true

/-- No summary was printed, though some may be forgotten. -/
structure Silent (r r' : Root) : Prop where
  rows : Logs (fun row => ∀ nodeId, ¬ row.Summarizes nodeId) r.csv r'.csv
  falls : ∀ j, Emitted j r' → Emitted j r

theorem Silent.refl (r : Root) : Silent r r := ⟨Logs.refl _, fun _ => id⟩

theorem Silent.trans (h : Silent r r') (h' : Silent r' r'') : Silent r r'' :=
  ⟨h.rows.trans h'.rows, fun j hj => h.falls j (h'.falls j hj)⟩

/-- A handler prints no summary; or it prints that of session `i`, if it is due, last of all. -/
inductive Prints (r r' : Root) : Prop
  | silent (h : Silent r r')
  | summary (i : Fin sessionMaxNodes) {r₁ : Root} (h : Silent r r₁)
      (hsame : ∀ j, Emitted j r → Emitted j r₁) (hused : (r₁.sessions i).used = true)
      (heq : r' = r₁.csvSessionSummaryIfReady i)

/-- More rows, which no summary depends on unless they tell of a restart. -/
abbrev Restarts (csv csv' : List CsvRow) : Prop :=
  Logs (fun row => ∀ nodeId, row.Concerns nodeId → row.IsReset nodeId) csv csv'

theorem Foreignly.restarts (h : Foreignly csv csv') : Restarts csv csv' :=
  h.mono fun _ hrow nodeId hconcerns => absurd hconcerns (hrow nodeId)

theorem restarts_row (h : row.IsReset nodeId) : Restarts csv (row :: csv) := by
  refine Logs.row fun id hconcerns => ?_
  cases row with
  | temp _ _ => exact h
  | event id' kind => exact ⟨hconcerns.1, h.2⟩

theorem not_summarizes_of_isReset (h : row.IsReset nodeId) : ¬ row.Summarizes nodeId := by
  cases row with
  | temp _ _ => exact h.elim
  | event id kind =>
    rintro ⟨-, hkind⟩
    obtain ⟨-, rfl | rfl | rfl⟩ := h <;> simp at hkind

theorem silent_of_restarts (h : Restarts r.csv r'.csv)
    (hfalls : ∀ j, Emitted j r' → Emitted j r) : Silent r r' := by
  refine ⟨h.mono fun row hrow nodeId hsum => ?_, hfalls⟩
  exact not_summarizes_of_isReset (hrow nodeId (concerns_of_summarizes hsum)) hsum

theorem silent_of_foreignly (h : Foreignly r.csv r'.csv)
    (hfalls : ∀ j, Emitted j r' → Emitted j r) : Silent r r' :=
  silent_of_restarts (Foreignly.restarts h) hfalls

theorem Calm.emitted (h : Calm r r') (j : Fin sessionMaxNodes) : Emitted j r' ↔ Emitted j r := by
  have hflag := congrArg Books.sessionSummaryEmitted (h.sessions j).quiet.books
  simp only [Session.books] at hflag
  rw [Emitted, Emitted, h.sameUsed, hflag]

theorem Calm.silent (h : Calm r r') : Silent r r' :=
  silent_of_foreignly (Plainly.foreignly h.rows) fun j => (h.emitted j).mp

/-- Where one session changed and its flag did not, nothing is emitted or forgotten. -/
theorem emitted_iff_of_others (hothers : ∀ j, j ≠ i → r'.sessions j = r.sessions j)
    (hused : (r'.sessions i).used = (r.sessions i).used)
    (hflag : (r'.sessions i).sessionSummaryEmitted = (r.sessions i).sessionSummaryEmitted)
    (j : Fin sessionMaxNodes) : Emitted j r' ↔ Emitted j r := by
  by_cases hj : j = i
  · rw [hj, Emitted, Emitted, hused, hflag]
  · rw [Emitted, Emitted, hothers j hj]

theorem falls_of_others (hothers : ∀ j, j ≠ i → r'.sessions j = r.sessions j)
    (hflag : (r'.sessions i).sessionSummaryEmitted = false) (j : Fin sessionMaxNodes)
    (hj : Emitted j r') : Emitted j r := by
  by_cases hji : j = i
  · rw [hji, Emitted, hflag] at hj
    cases hj.2
  · rwa [Emitted, ← hothers j hji]

theorem Handed.sameUsed (h : Handed i r r') : (r'.sessions i).used = (r.sessions i).used :=
  congrArg Prod.fst h.identity

theorem restarts_gaveUp (hg : GaveUp P i nodeId r r') : Restarts r.csv r'.csv := by
  obtain @⟨r₁, now, v0, v1, hs, hh, -, -⟩ := hg
  have hlogs : Foreignly r.csv ((r₁.csvHsSummary (r₁.sessions i) .hsFail).impactEnd P now nodeId
      false).csv := by
    rw [← hh.csv]
    exact (foreignly_csvHsSummary _ (Or.inr rfl) r₁).trans (foreignly_impactEnd ..)
  exact (Foreignly.restarts hlogs).trans
    (restarts_row (show CsvRow.IsReset nodeId _ from ⟨rfl, Or.inr (Or.inr rfl)⟩))

theorem silent_gaveUp (hg : GaveUp P i nodeId r r') : Silent r r' := by
  refine silent_of_restarts (restarts_gaveUp hg) (falls_of_others (i := i) ?_ ?_)
  · obtain @⟨r₁, now, v0, v1, hs, hh, -, -⟩ := hg
    intro j hj
    rw [dropAndReset_sessions, Function.update_of_ne hj, csvEvent_sessions, impactEnd_sessions,
      csvHsSummary_sessions, hh.others j hj]
  · obtain @⟨r₁, now, v0, v1, hs, hh, -, -⟩ := hg
    rw [dropAndReset_sessions, Function.update_self]
    rfl

theorem prints_work (hw : Work P r r') : Prints r r' := by
  cases hw with
  | calm hcalm => exact .silent hcalm.silent
  | heardTemp i nodeId data hs =>
    obtain ⟨temp, rxCounter, hsession⟩ :=
      pqcHandleEncryptedTemp_session P data ⟨0, 0, 0⟩ (r.sessions i)
    have hself : (r.handleTemp P i data).sessions i =
        ((r.sessions i).setRxCounter rxCounter).countTemp fun _ => temp := by
      rw [handleTemp_sessions, Function.update_self, hsession]
    refine .silent (silent_of_foreignly (Plainly.foreignly (handleTemp_plainly P i data r))
      fun j => (emitted_iff_of_others (i := i) ?_ ?_ ?_ j).mp)
    · intro j hj
      rw [handleTemp_sessions, Function.update_of_ne hj]
    · rw [hself]
      rfl
    · rw [hself]
      rfl
  | reported i nodeId report hs =>
    have hself : ((r.csvNodeMetrics nodeId report).sessionStoreNodeMetrics i report).sessions i =
        setNodeMetrics report (r.sessions i) := mapSession_self ..
    have hemitted : ∀ j, Emitted j ((r.csvNodeMetrics nodeId report).sessionStoreNodeMetrics i
        report) ↔ Emitted j r := by
      refine emitted_iff_of_others (i := i) ?_ ?_ ?_
      · intro j hj
        simp [sessionStoreNodeMetrics, mapSession, hj]
        rfl
      · rw [hself, setNodeMetrics]
        split <;> rfl
      · rw [hself, setNodeMetrics]
        split <;> rfl
    refine .summary i ⟨⟨reportRows nodeId report, rfl, ?_⟩, fun j => (hemitted j).mp⟩
      (fun j => (hemitted j).mpr) ?_ rfl
    · simp [reportRows, CsvRow.Summarizes]
    · rw [hself, setNodeMetrics]
      split <;> exact hs.used
  | @failed r' i nodeId hs hh hfrom hto _ hb =>
    have hflag := congrArg Books.sessionSummaryEmitted hb
    refine .silent (silent_of_foreignly (hh.csv ▸ Logs.refl _)
      fun j => (emitted_iff_of_others hh.others hh.sameUsed hflag j).mp)
  | @succeeded r₁ i nodeId now hs hh hfrom _ _ hb =>
    have hlogs : Foreignly r.csv ((r₁.csvHsSummary (r₁.sessions i) .hsSuccess).impactEnd P now
        nodeId true).csv := by
      rw [← hh.csv]
      exact (foreignly_csvHsSummary _ (Or.inl rfl) r₁).trans (foreignly_impactEnd ..)
    have hsessions : ((r₁.csvHsSummary (r₁.sessions i) .hsSuccess).impactEnd P now nodeId
        true).sessions = r₁.sessions := impactEnd_sessions ..
    generalize (r₁.csvHsSummary (r₁.sessions i) .hsSuccess).impactEnd P now nodeId true = r₂
      at hlogs hsessions ⊢
    have hflag := congrArg Books.sessionSummaryEmitted hb
    have hemitted : ∀ j, Emitted j r₂ ↔ Emitted j r := by
      refine emitted_iff_of_others (i := i) ?_ ?_ ?_
      · intro j hj
        rw [hsessions, hh.others j hj]
      · rw [hsessions, hh.sameUsed]
      · rw [hsessions]
        exact hflag
    refine .summary i (silent_of_foreignly hlogs fun j => (hemitted j).mp)
      (fun j => (hemitted j).mpr) ?_ rfl
    rw [hsessions, hh.sameUsed, hs.used]
  | gaveUp i nodeId hg => exact .silent (silent_gaveUp hg)

theorem Reopened.restarts (hr : Reopened i r r₁) : Restarts r.csv r₁.csv := by
  rcases hr.how with ⟨-, -, -, hrows⟩ | ⟨-, -, -, row, csv, hreset, hbelow, habove⟩
  · exact Foreignly.restarts (Plainly.foreignly hrows)
  · exact (Foreignly.restarts (Plainly.foreignly hbelow)).trans ((restarts_row hreset).trans
      (Foreignly.restarts (Plainly.foreignly habove)))

theorem restarts_opened {r₂ : Root} {ok : Bool} {now now' : ℕ} (hr : Reopened i r r₁)
    (hh : Handed i (r₁.impactStart now nodeId) r₂) :
    Restarts r.csv (if ok = true then r₂ else r₂.impactEnd P now' nodeId false).csv := by
  have hstarted : Restarts r.csv r₂.csv := by
    rw [hh.csv]
    exact hr.restarts.trans (Foreignly.restarts (foreignly_impactStart ..))
  cases ok with
  | true => exact hstarted
  | false => exact hstarted.trans (Foreignly.restarts (foreignly_impactEnd ..))

theorem silent_opened {r₂ : Root} {ok : Bool} {now now' : ℕ} (hs : Serves i nodeId r)
    (hr : Reopened i r r₁) (hh : Handed i (r₁.impactStart now nodeId) r₂)
    (ho : Fsm.Opened P rnd (r₁.fsm i) ok (r₂.sessions i)) :
    Silent r (if ok = true then r₂ else r₂.impactEnd P now' nodeId false) := by
  have hothers : ∀ j, j ≠ i → r₂.sessions j = r.sessions j := by
    intro j hj
    rw [hh.others j hj, impactStart_sessions, hr.others j hj]
  have hsame : (r₂.sessions i).sessionSummaryEmitted = (r₁.sessions i).sessionSummaryEmitted := by
    cases ho with
    | sent _ _ _ _ hb => exact congrArg Books.sessionSummaryEmitted hb
    | failed _ _ _ _ hb => exact congrArg Books.sessionSummaryEmitted hb
    | refused _ _ _ _ hb => exact congrArg Books.sessionSummaryEmitted hb
  have hused : (r₂.sessions i).used = (r.sessions i).used :=
    (opened_owners hs hr hh).used i
  have hfalls : ∀ j, Emitted j r₂ → Emitted j r := by
    rcases hr.how with ⟨-, hbooks, -, -⟩ | ⟨-, hbooks, -, -⟩
    · have hflag := congrArg Books.sessionSummaryEmitted hbooks
      exact fun j => (emitted_iff_of_others hothers hused (hsame.trans hflag) j).mp
    · have hflag := congrArg Books.sessionSummaryEmitted hbooks
      exact falls_of_others hothers (hsame.trans hflag)
  refine silent_of_restarts (restarts_opened hr hh) fun j hj => hfalls j ?_
  cases ok with
  | true => exact hj
  | false => rwa [if_neg Bool.false_ne_true, Emitted, impactEnd_sessions] at hj

theorem Found.silent (h : Found nodeId r i r') : Silent r r' ∧ ∀ j, Emitted j r → Emitted j r' := by
  rcases h.how with rfl | ⟨hfree, -, rfl⟩
  · exact ⟨Silent.refl _, fun _ => id⟩
  · refine ⟨⟨Logs.refl _, falls_of_others (i := i) ?_ ?_⟩, ?_⟩
    · intro j hj
      rw [setSession_sessions, Function.update_of_ne hj]
    · rw [setSession_sessions, Function.update_self]
      rfl
    · intro j hj
      have hne : j ≠ i := by
        rintro rfl
        rw [Emitted, hfree] at hj
        cases hj.1
      rwa [Emitted, setSession_sessions, Function.update_of_ne hne]

theorem prints_of_silent (h : Silent r r₁) (hsame : ∀ j, Emitted j r → Emitted j r₁)
    (hp : Prints r₁ r') : Prints r r' := by
  cases hp with
  | silent h' => exact .silent (h.trans h')
  | summary i h' hsame' hused heq =>
    exact .summary i (h.trans h') (fun j hj => hsame' j (hsame j hj)) hused heq

theorem silent_retryTick (hsound : Sound r) (clk : Fin sessionMaxNodes → Clock) :
    Silent r (r.retryTick P clk) := by
  unfold retryTick
  induction List.finRange sessionMaxNodes generalizing r with
  | nil => exact Silent.refl r
  | cons i is ih =>
    have hsilent : Silent r (r.retrySession P (clk i) i) := by
      rcases retrySession_cases (P := P) (clk i) hsound i with hcalm | hgave
      · exact hcalm.silent
      · exact silent_gaveUp hgave
    exact hsilent.trans (ih (sound_acts hsound (retrySession_acts (clk i) 0 i r)))

theorem prints_handle (hsound : Sound r) (e : Event) : Prints r (r.handle P e) := by
  cases e with
  | retry clk => exact .silent (silent_retryTick hsound clk)
  | transmit => exact .silent ⟨Logs.refl _, fun _ => id⟩
  | receive clk rnd sender data =>
    simp only [handle]
    rcases udpRxCallback_cases (P := P) clk rnd hsound sender data with
      ⟨hcalm, -⟩ | ⟨i, r₀, -, -, hfound, heq⟩
    · exact .silent hcalm.silent
    · obtain ⟨hsilent, hsame⟩ := hfound.silent
      rw [heq]
      by_cases hkind : byteAt data pqcHdrMsgType = pqcMsgGetpk
      · obtain ⟨r₁, hr, hstart⟩ := dispatch_getpk (P := P) clk rnd hfound.sound
          hfound.serves hkind sender
        obtain ⟨ok, r₂, hh, ho, hend⟩ := hr.launched (P := P) hfound.serves clk rnd
          ⟨some udpConn, some sender⟩
        rw [hstart, hend]
        exact .silent (hsilent.trans (silent_opened hfound.serves hr hh ho))
      · obtain ⟨r₁, hcalm, hwork⟩ := dispatch_work (P := P) clk rnd hfound.sound
          hfound.serves hkind sender
        refine prints_of_silent hsilent hsame (prints_of_silent hcalm.silent ?_ (prints_work hwork))
        exact fun j => (hcalm.emitted j).mpr

theorem exactly_of_silent (h : Silent r r') : ∃ rows, r'.csv = rows ++ r.csv ∧
    ∀ j, (∃ row ∈ rows, row.Summarizes (r'.sessions j).nodeId) ↔
      ¬ Emitted j r ∧ Emitted j r' := by
  obtain ⟨rows, heq, hrows⟩ := h.rows
  refine ⟨rows, heq, fun j => iff_of_false ?_ ?_⟩
  · rintro ⟨row, hrow, hsum⟩
    exact hrows row hrow _ hsum
  · exact fun hemitted => hemitted.1 (h.falls j hemitted.2)

theorem summarizes_unique {id : UInt16} (h : row.Summarizes nodeId) (h' : row.Summarizes id) :
    nodeId = id := by
  cases row with
  | temp _ _ => exact h.elim
  | event _ _ => exact h.1.symm.trans h'.1

/-- Rows of a session's summary appear exactly where its flag is set. -/
theorem Prints.exactly (h : Prints r r') (hu : Unique r') : ∃ rows, r'.csv = rows ++ r.csv ∧
    ∀ j, (r'.sessions j).used = true → ((∃ row ∈ rows, row.Summarizes (r'.sessions j).nodeId) ↔
      ¬ Emitted j r ∧ Emitted j r') := by
  cases h with
  | silent h =>
    obtain ⟨rows, heq, hrows⟩ := exactly_of_silent h
    exact ⟨rows, heq, fun j _ => hrows j⟩
  | @summary i r₁ h hsame hused heq =>
    by_cases hdue : SummaryDue (r₁.sessions i)
    · obtain ⟨rows, hcsv, hrows⟩ := h.rows
      rw [csvSessionSummaryIfReady_due hdue] at heq
      have hself : r'.sessions i = markSummary (r₁.sessions i) := by simp [heq]
      have hothers : ∀ j, j ≠ i → r'.sessions j = r₁.sessions j := by
        intro j hj
        simp [heq, hj]
      have hcsv' : r'.csv = summaryRows (r₁.sessions i) ++ r₁.csv := by rw [heq]
      have hused' : (r'.sessions i).used = true := by rw [hself]; exact hused
      refine ⟨summaryRows (r₁.sessions i) ++ rows, by rw [hcsv', hcsv, List.append_assoc], ?_⟩
      intro j hj
      by_cases hji : j = i
      · subst hji
        refine iff_of_true ?_ ⟨?_, hj, by rw [hself]; rfl⟩
        · obtain ⟨row, hrow⟩ := List.exists_mem_of_ne_nil (summaryRows (r₁.sessions j))
            (List.cons_ne_nil _ _)
          rw [hself]
          exact ⟨row, List.mem_append_left _ hrow, summaryRows_summarize _ row hrow⟩
        · intro hemitted
          have hflag := (hsame j hemitted).2
          rw [hdue.1] at hflag
          cases hflag
      · refine iff_of_false ?_ ?_
        · rintro ⟨row, hrow, hsum⟩
          rcases List.mem_append.mp hrow with hrow | hrow
          · have hown := summaryRows_summarize _ row hrow
            refine hji (hu j i hj hused' ?_)
            rw [hself]
            exact summarizes_unique hsum hown
          · exact hrows row hrow _ hsum
        · rintro ⟨hno, hyes⟩
          rw [Emitted, hothers j hji] at hyes
          exact hno (h.falls j hyes)
    · rw [csvSessionSummaryIfReady_not_due hdue] at heq
      subst heq
      obtain ⟨rows, heq, hrows⟩ := exactly_of_silent h
      exact ⟨rows, heq, fun j _ => hrows j⟩

end Root

end PqcContiki
