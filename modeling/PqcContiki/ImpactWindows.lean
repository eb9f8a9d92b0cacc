import PqcContiki.ImpactWindowHandlers

/-! The impact window of the root: when it opens and closes, and what its end rows say. -/
namespace PqcContiki

open Relation Runs

namespace Root

variable {P : Platform} {clk : Clock} {rnd : Entropy} {r r' r'' r₀ r₁ : Root}
  {i j : Fin sessionMaxNodes} {nodeId : UInt16} {csv csv' : List CsvRow} {now : ℕ} {success : Bool}
  {past : List Root}

theorem truthful_of_unmarked (r : Root) (row : CsvRow) (h : ¬ row.Marks) : row.Truthful r := by
  cases row with
  | temp _ _ => trivial
  | event id kind v0 v1 v2 v3 mask => exact fun hend => absurd (Or.inr hend) h

/-- The one row of an end that marks anything is the end row. -/
theorem impactEnd_rows (P : Platform) (now : ℕ) (nodeId : UInt16) (success : Bool) (r : Root) :
    Logs (fun row => ¬ row.Marks ∨ ∃ v0 v1, row = .event nodeId .impactEnd v0 v1
      (if success then 1 else 0) 0 1) r.csv (r.impactEnd P now nodeId success).csv := by
  by_cases hopen : r.impactWindow.active = true ∧ r.impactWindow.targetNodeId = nodeId
  · rw [(impactEnd_closes _ _ _ hopen.1 hopen.2).2]
    refine ((impactReports_logs nodeId _ r).mono fun row hrow => Or.inl ?_).trans
      (Logs.row (Or.inr ⟨_, _, rfl⟩))
    exact unmarked_of_among (by simp) (by simp) row hrow
  · rw [impactEnd_idle hopen]
    exact Logs.refl _

/-- A success row is true of an established session, and a failure row where it is not one. -/
theorem truthful_impactEnd (hunique : Unique r') (hused : (r'.sessions i).used = true)
    (hid : (r'.sessions i).nodeId = nodeId)
    (hstate : (r'.sessions i).state = .established ↔ success = true) (now : ℕ) (r : Root) :
    Logs (CsvRow.Truthful r') r.csv (r.impactEnd P now nodeId success).csv := by
  refine (impactEnd_rows P now nodeId success r).mono ?_
  rintro row (hrow | ⟨v0, v1, rfl⟩)
  · exact truthful_of_unmarked r' row hrow
  · intro _
    have honly : (∃ j, (r'.sessions j).used = true ∧ (r'.sessions j).nodeId = nodeId ∧
        (r'.sessions j).state = .established) ↔ (r'.sessions i).state = .established := by
      constructor
      · rintro ⟨j, hj, hidj, hstatej⟩
        have hji : j = i := hunique j i hj hused (hidj.trans hid.symm)
        exact hji ▸ hstatej
      · exact fun h => ⟨i, hused, hid, h⟩
    rw [honly, hstate]
    cases success <;> decide

theorem truthful_logs (h : Logs (fun row => ¬ row.Marks) csv csv') :
    Logs (CsvRow.Truthful r) csv csv' := h.mono (truthful_of_unmarked r)

theorem truthful_csvHsSummary (r r' : Root) (s : Session) {event : CsvEvent}
    (hevent : event = .hsSuccess ∨ event = .hsFail) :
    Logs (CsvRow.Truthful r') r.csv (r.csvHsSummary s event).csv := by
  refine truthful_logs ((csvHsSummary_logs s event r).mono (unmarked_of_among ?_ ?_))
  · rcases hevent with rfl | rfl <;> simp
  · rcases hevent with rfl | rfl <;> simp

theorem truthful_summary (r r' : Root) (i : Fin sessionMaxNodes) :
    Logs (CsvRow.Truthful r') r.csv (r.csvSessionSummaryIfReady i).csv :=
  truthful_logs ((csvSessionSummaryIfReady_logs i r).mono (unmarked_of_among (by simp) (by simp)))

theorem truthful_gaveUp (hg : GaveUp P i nodeId r r') (hunique : Unique r') :
    Logs (CsvRow.Truthful r') r.csv r'.csv := by
  have hsame := work_owners (Work.gaveUp i nodeId hg)
  obtain @⟨r₁, now, v0, v1, hs, hh, -, -⟩ := hg
  have hend := truthful_impactEnd (P := P) hunique ((hsame.used i).trans hs.used)
    ((hsame.nodeId i).trans hs.nodeId) (show _ ↔ false = true by simp) now
    (r₁.csvHsSummary (r₁.sessions i) .hsFail)
  have hsummary (r' : Root) := truthful_csvHsSummary r₁ r' (r₁.sessions i)
    (show CsvEvent.hsFail = .hsSuccess ∨ CsvEvent.hsFail = .hsFail from Or.inr rfl)
  rw [hh.csv] at hsummary
  refine ((hsummary _).trans hend).trans (Logs.row ?_)
  intro hkind
  cases hkind

theorem truthful_work (hw : Work P r r') (hunique : Unique r') :
    Logs (CsvRow.Truthful r') r.csv r'.csv := by
  have hsame := work_owners hw
  cases hw with
  | calm hcalm => exact truthful_logs (hcalm.rows.mono unmarked_of_plain)
  | heardTemp i nodeId data _ =>
    exact truthful_logs ((handleTemp_plainly P i data r).mono unmarked_of_plain)
  | reported i nodeId report _ =>
    have hrows : Logs (fun row => ¬ row.Marks) r.csv
        ((r.csvNodeMetrics nodeId report).sessionStoreNodeMetrics i report).csv := by
      refine (Logs.row ?_).trans (Logs.row ?_)
      · rintro (hrow | hrow) <;> cases hrow
      · rintro (hrow | hrow) <;> cases hrow
    exact (truthful_logs hrows).trans (truthful_summary _ _ i)
  | failed i nodeId _ hh =>
    rw [hh.csv]
    exact Logs.refl _
  | @succeeded r₁ i nodeId now hs hh hfrom hto =>
    have hstate : (((((r₁.csvHsSummary (r₁.sessions i) .hsSuccess).impactEnd P now nodeId
        true).csvSessionSummaryIfReady i).sessions i).state = .established ↔ true = true) := by
      refine iff_of_true ?_ rfl
      rcases csvSessionSummaryIfReady_sessions i i ((r₁.csvHsSummary (r₁.sessions i)
        .hsSuccess).impactEnd P now nodeId true) with heq | ⟨-, heq⟩
      · rw [heq, impactEnd_sessions]
        exact hto
      · rw [heq, impactEnd_sessions]
        exact hto
    have hend := truthful_impactEnd (P := P) hunique ((hsame.used i).trans hs.used)
      ((hsame.nodeId i).trans hs.nodeId) hstate now (r₁.csvHsSummary (r₁.sessions i) .hsSuccess)
    have hsummary := truthful_csvHsSummary r₁ (((r₁.csvHsSummary (r₁.sessions i)
      .hsSuccess).impactEnd P now nodeId true).csvSessionSummaryIfReady i) (r₁.sessions i)
      (Or.inl rfl)
    rw [hh.csv] at hsummary
    exact (hsummary.trans hend).trans (truthful_summary _ _ i)
  | gaveUp i nodeId hgave => exact truthful_gaveUp hgave hunique

theorem truthful_opened {r₂ : Root} {ok : Bool} {now' : ℕ} (hs : Serves i nodeId r)
    (hr : Reopened i r r₁) (hh : Handed i (r₁.impactStart now nodeId) r₂)
    (ho : Fsm.Opened P rnd (r₁.fsm i) ok (r₂.sessions i))
    (hunique : Unique (if ok = true then r₂ else r₂.impactEnd P now' nodeId false)) :
    Logs (CsvRow.Truthful (if ok = true then r₂ else r₂.impactEnd P now' nodeId false)) r.csv
      (if ok = true then r₂ else r₂.impactEnd P now' nodeId false).csv := by
  have howners := opened_owners hs hr hh
  have hreopened (r' : Root) : Logs (CsvRow.Truthful r') r.csv r₁.csv := by
    rcases hr.how with ⟨-, -, -, hrows⟩ | ⟨-, -, -, row, csv, hreset, hbelow, habove⟩
    · exact truthful_logs (hrows.mono unmarked_of_plain)
    · refine (truthful_logs (hbelow.mono unmarked_of_plain)).trans ((Logs.row ?_ :
        Logs _ csv (row :: csv)).trans (truthful_logs (habove.mono unmarked_of_plain)))
      cases row with
      | temp _ _ => trivial
      | event id kind =>
        obtain ⟨-, rfl | rfl | rfl⟩ := hreset <;> exact fun hkind => by cases hkind
  have hstarted (r' : Root) : Logs (CsvRow.Truthful r') r.csv r₂.csv := by
    rw [hh.csv]
    refine (hreopened r').trans ((impactStart_logs now nodeId r₁).mono ?_)
    intro row hrow
    cases row with
    | temp _ _ => trivial
    | event id kind =>
      intro hkind
      subst hkind
      simp [CsvRow.Among] at hrow
  cases ok with
  | true => exact hstarted _
  | false =>
    refine (hstarted _).trans (truthful_impactEnd (i := i) hunique ?_ ?_ ?_ now' r₂)
    · rw [if_neg Bool.false_ne_true, impactEnd_sessions]
      exact (howners.used i).trans hs.used
    · rw [if_neg Bool.false_ne_true, impactEnd_sessions]
      exact (howners.nodeId i).trans hs.nodeId
    · rw [if_neg Bool.false_ne_true, impactEnd_sessions]
      cases ho with
      | sent hok => cases hok
      | failed _ _ hto => simp [hto]
      | refused _ _ hto => simp [hto, hr.state]

/-- A retry leaves the established sessions as they are. -/
theorem established_retrySession (hsound : Sound r) (i j : Fin sessionMaxNodes) :
    ((r.retrySession P clk i).sessions j).state = .established ↔
      (r.sessions j).state = .established := by
  rcases retrySession_cases (P := P) clk hsound i with hcalm | hgave
  · rw [(hcalm.sessions j).quiet.state]
  · generalize r.retrySession P clk i = r' at hgave
    obtain @⟨r₁, now, v0, v1, -, hh, -, hb⟩ := hgave
    rw [dropAndReset_sessions, csvEvent_sessions, impactEnd_sessions, csvHsSummary_sessions]
    by_cases hj : j = i
    · subst hj
      rcases hb with ⟨hfrom, -⟩ | ⟨hfrom, -⟩ <;> simp [hfrom]
    · rw [Function.update_of_ne hj, hh.others j hj]

theorem Truthful.congr {row : CsvRow} (h : row.Truthful r) (hsame : SameOwners r r')
    (hest : ∀ j, (r'.sessions j).state = .established ↔ (r.sessions j).state = .established) :
    row.Truthful r' := by
  cases row with
  | temp _ _ => trivial
  | event id kind =>
    intro hkind
    simp only [hest, hsame.used, hsame.nodeId]
    exact h hkind

theorem truthful_retryTick (hsound : Sound r) (hunique : Unique r)
    (clk : Fin sessionMaxNodes → Clock) :
    Logs (CsvRow.Truthful (r.retryTick P clk)) r.csv (r.retryTick P clk).csv := by
  unfold retryTick
  suffices hall : ∀ is : List (Fin sessionMaxNodes), ∀ r : Root, Sound r → Unique r →
      let r' := is.foldl (fun r i => r.retrySession P (clk i) i) r
      SameOwners r r' ∧ (∀ j, (r'.sessions j).state = .established ↔
        (r.sessions j).state = .established) ∧ Logs (CsvRow.Truthful r') r.csv r'.csv from
    (hall _ r hsound hunique).2.2
  intro is
  induction is with
  | nil => exact fun r _ _ => ⟨fun _ => rfl, fun _ => Iff.rfl, Logs.refl _⟩
  | cons i is ih =>
    intro r hsound hunique
    have hwork := retrySession_work (P := P) (clk i) hsound i
    have howners := work_owners hwork
    have hunique₁ := howners.unique hunique
    obtain ⟨hsame, hest, hrows⟩ := ih (r.retrySession P (clk i) i)
      (sound_acts hsound (retrySession_acts (clk i) 0 i r)) hunique₁
    refine ⟨fun j => (hsame j).trans (howners j), ?_, ?_⟩
    · intro j
      exact (hest j).trans (established_retrySession hsound i j)
    · refine ((truthful_work hwork hunique₁).mono ?_).trans hrows
      exact fun row hrow => Truthful.congr hrow hsame hest

theorem truthful_handle (hsound : Sound r) (hw : WindowSound r) (e : Event) :
    Logs (CsvRow.Truthful (r.handle P e)) r.csv (r.handle P e).csv := by
  have hunique' := (windowSound_turns (handle_turns (P := P) hsound e) hw).unique
  cases e with
  | retry clk => exact truthful_retryTick hsound hw.unique clk
  | transmit => exact Logs.refl _
  | receive clk rnd sender data =>
    simp only [handle] at hunique' ⊢
    rcases udpRxCallback_cases (P := P) clk rnd hsound sender data with
      ⟨hcalm, -⟩ | ⟨i, r₀, -, -, hfound, heq⟩
    · exact truthful_logs (hcalm.rows.mono unmarked_of_plain)
    · have hcsv : r₀.csv = r.csv := by
        rcases hfound.how with rfl | ⟨-, -, rfl⟩ <;> rfl
      rw [heq] at hunique' ⊢
      rw [← hcsv]
      by_cases hkind : byteAt data pqcHdrMsgType = pqcMsgGetpk
      · obtain ⟨r₁, hr, hstart⟩ := dispatch_getpk (P := P) clk rnd hfound.sound
          hfound.serves hkind sender
        obtain ⟨ok, r₂, hh, ho, hend⟩ := hr.launched (P := P) hfound.serves clk rnd
          ⟨some udpConn, some sender⟩
        rw [hstart, hend] at hunique' ⊢
        exact truthful_opened hfound.serves hr hh ho hunique'
      · obtain ⟨r₁, hcalm, hwork⟩ := dispatch_work (P := P) clk rnd hfound.sound
          hfound.serves hkind sender
        exact (truthful_logs (hcalm.rows.mono unmarked_of_plain)).trans
          (truthful_work hwork hunique')

/-- The state in which the open window was opened, with what it watches established there. -/
def OpenedIn (past : List Root) (r : Root) : Prop :=
  r.impactWindow.active = true → ∃ newer r₀ older, past = newer ++ r₀ :: older ∧
    r₀.impactWindow.active = false ∧ (∀ r₁ ∈ newer, r₁.impactWindow = r.impactWindow) ∧
    ∀ snapshot ∈ r.impactWindow.snapshots, ∃ j,
      Watches r₀ r.impactWindow.targetNodeId snapshot j

theorem Reaches.openedIn (h : Reaches P past r) : OpenedIn past r := by
  apply h.invariant (I := fun past r => OpenedIn past r)
  · rintro r ⟨rnd, rfl⟩ hactive
    rw [boot_impactWindow] at hactive
    cases hactive
  · rintro past r e r' hr hopened rfl hactive
    cases handle_window (P := P) (Reaches.sound hr) e with
    | kept hkept =>
      rw [hkept] at hactive ⊢
      obtain ⟨newer, r₀, older, rfl, hclosed, hsame, hwatched⟩ := hopened hactive
      refine ⟨r :: newer, r₀, older, rfl, hclosed, ?_, hwatched⟩
      intro r₁ hmem
      rcases List.mem_cons.mp hmem with rfl | hmem
      · rfl
      · exact hsame r₁ hmem
    | closed hzero =>
      rw [hzero] at hactive
      cases hactive
    | opened hclosed _ hwatched =>
      refine ⟨[], r, past, rfl, hclosed, by simp, ?_⟩
      intro snapshot hmem
      obtain ⟨j, hj, -⟩ := hwatched snapshot hmem
      exact ⟨j, hj⟩

/-- The life cycle of the impact window, after every handler of every run. -/
theorem impact_window_life_cycle (h : Reaches P past r) :
    (r.impactWindow.active = true → ∃ i, (r.sessions i).used = true ∧
      (r.sessions i).nodeId = r.impactWindow.targetNodeId ∧
      ((r.sessions i).state = .waitCt ∨ (r.sessions i).state = .failed)) ∧
    r.impactWindow.snapshots.length ≤ sessionMaxNodes ∧
    (r.impactWindow.snapshots.map ImpactSnapshot.nodeId).Nodup ∧
    (∀ snapshot ∈ r.impactWindow.snapshots, snapshot.nodeId ≠ r.impactWindow.targetNodeId) ∧
    OpenedIn past r ∧
    Windows r.csv r.impactWindow.target ∧
    ∀ e, ∃ rows, (r.handle P e).csv = rows ++ r.csv ∧
      ∀ row ∈ rows, row.Truthful (r.handle P e) := by
  have hw := h.windowSound
  exact ⟨hw.targeted, hw.watching.count, hw.watching.distinct, hw.watching.others, h.openedIn,
    hw.watching.rows, fun e => truthful_handle h.sound hw e⟩

/-- Node 7 is established and measures, before and after node 8 asks for the key. -/
def watching : Root :=
  follow (handshakeOf 7 0 ++ [tempFrom 7 0, getpkFrom 8, tempFrom 7 1])

/-- Node 8 has sent a ciphertext without content. -/
def missed : Root := watching.handle .demo (emptyCtFrom 8)

/-- The retry process has noticed. -/
def noticed : Root := missed.handle .demo retries

/-- The rows of that retry tick, newest first. -/
def noticedRows : List CsvRow :=
  [.event 8 .hsFailReset 6 0 0 0 0, .event 8 .impactEnd 0 1 0 0 1,
    .event 7 .impactResync 8 0 1 1 0, .event 7 .impactTemp 8 1 0 0 0,
    .event 8 .hsCrypto 0 0 0 0 15, .event 8 .hsCt 0 0 0 0 3, .event 8 .hsPk 0 0 1 0 3,
    .event 8 .hsFail 0 0 0 0 1]

theorem window_reached :
    (watching.impactWindow.active = true ∧ watching.impactWindow.targetNodeId = 8 ∧
      watching.impactWindow.snapshots.map (fun x => (x.nodeId, x.tempRxOk, x.rxCounter)) =
        [(7, 1, 1)]) ∧
    noticed.impactWindow.active = false ∧ noticed.csv = noticedRows ++ missed.csv := by
  decide +kernel

/-- A window that watches node 7 is open, and the retry tick after the failure of node 8 closes
it. -/
theorem impact_window_life_cycle_noticed : ∃ past, Reaches .demo past watching ∧
    (watching.impactWindow.active = true ∧ watching.impactWindow.targetNodeId = 8 ∧
      watching.impactWindow.snapshots.map (fun x => (x.nodeId, x.tempRxOk, x.rxCounter)) =
        [(7, 1, 1)]) ∧
    OpenedIn past watching ∧
    (∃ i, (watching.sessions i).used = true ∧ (watching.sessions i).nodeId = 8 ∧
      ((watching.sessions i).state = .waitCt ∨ (watching.sessions i).state = .failed)) ∧
    noticed.impactWindow.active = false ∧ Windows noticed.csv noticed.impactWindow.target ∧
    noticed.csv = noticedRows ++ missed.csv ∧ ∀ row ∈ noticedRows, row.Truthful noticed := by
  obtain ⟨hopen, hclosed, hcsv⟩ := window_reached
  obtain ⟨past, hrun⟩ : ∃ past, Reaches .demo past watching := reaches_follow _
  have hmissed : Reaches .demo (watching :: past) missed := .next hrun rfl
  have hnoticed : Reaches .demo (missed :: watching :: past) noticed := .next hmissed rfl
  obtain ⟨htargeted, -, -, -, hopened, -⟩ := impact_window_life_cycle hrun
  obtain ⟨-, -, -, -, -, -, hrows⟩ := impact_window_life_cycle hmissed
  obtain ⟨-, -, -, -, -, hwindows, -⟩ := impact_window_life_cycle hnoticed
  obtain ⟨rows, hcsv', htruthful⟩ := hrows retries
  obtain rfl : rows = noticedRows := List.append_cancel_right (hcsv'.symm.trans hcsv)
  have htargeted := htargeted hopen.1
  rw [hopen.2.1] at htargeted
  exact ⟨past, hrun, hopen, hopened, htargeted, hclosed, hwindows, hcsv, htruthful⟩

end Root

end PqcContiki
