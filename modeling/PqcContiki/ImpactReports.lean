import PqcContiki.MeteredHandlers

/-! The rows about the watched nodes, and the sessions they are about. -/
namespace PqcContiki

open Relation Runs

namespace Root

variable {P : Platform} {clk : Clock} {rnd : Entropy} {r r' r'' r₀ r₁ r₂ : Root}
  {i j : Fin sessionMaxNodes} {nodeId : UInt16} {csv csv' rows : List CsvRow} {row : CsvRow}
  {s s' s'' : Session} {past : List Root} {m : Meter} {snapshot : ImpactSnapshot}
  {snapshots : List ImpactSnapshot} {now : ℕ} {success : Bool} {sender : IpAddr} {d : Bytes}

/-- A row that reports of a watched node reports the difference to its snapshot. -/
def Told (r : Root) (snapshots : List ImpactSnapshot) (row : CsvRow) : Prop :=
  row.Reporting → ∃ snapshot ∈ snapshots, ∃ j, (r.sessions j).used = true ∧
    (r.sessions j).nodeId = snapshot.nodeId ∧ row.Tells (r.sessions j) snapshot

theorem told_of_not (h : ¬ row.Reporting) : Told r snapshots row := fun hrow => absurd hrow h

theorem not_reporting_of_plain (row : CsvRow) (h : row.Plain) : ¬ row.Reporting := by
  cases row with
  | temp _ _ => exact fun hrow => hrow
  | event id kind => rintro (rfl | rfl) <;> cases h

theorem not_reporting_of_among {kinds : List CsvEvent} (htemp : CsvEvent.impactTemp ∉ kinds)
    (hresync : CsvEvent.impactResync ∉ kinds) (row : CsvRow) (h : row.Among kinds) :
    ¬ row.Reporting := by
  cases row with
  | temp _ _ => exact h.elim
  | event id kind =>
    rintro (rfl | rfl)
    · exact htemp h
    · exact hresync h

theorem Tells.of_unmoved {snapshot : ImpactSnapshot} (h : row.Tells s' snapshot)
    (hs : Unmoved s s') : row.Tells s snapshot := by
  cases row with
  | temp _ _ => exact h
  | event id kind =>
    cases kind with
    | impactTemp =>
      simp only [CsvRow.Tells, hs.ok, hs.rx] at h ⊢
      exact h
    | impactResync =>
      simp only [CsvRow.Tells, hs.rx] at h ⊢
      exact h
    | _ => exact h

/-- The watched sessions are in `r'` as they were in `r`. -/
def Undisturbed (r r' : Root) (snapshots : List ImpactSnapshot) : Prop :=
  ∀ snapshot ∈ snapshots, ∀ j, (r'.sessions j).used = true →
    (r'.sessions j).nodeId = snapshot.nodeId → (r.sessions j).used = true ∧
      (r.sessions j).nodeId = snapshot.nodeId ∧ Unmoved (r.sessions j) (r'.sessions j)

theorem Told.of_undisturbed (h : Told r' snapshots row) (hk : Undisturbed r r' snapshots) :
    Told r snapshots row := by
  intro hrow
  obtain ⟨snapshot, hmem, j, hused, hid, htells⟩ := h hrow
  obtain ⟨hused', hid', hsame⟩ := hk snapshot hmem j hused hid
  exact ⟨snapshot, hmem, j, hused', hid', Tells.of_unmoved htells hsame⟩

theorem told_impactReports (target : UInt16) (snapshots : List ImpactSnapshot) (r : Root) :
    Logs (Told r snapshots) r.csv (snapshots.foldl (impactReport target) r).csv := by
  suffices hall : ∀ rest : List ImpactSnapshot, (∀ snapshot ∈ rest, snapshot ∈ snapshots) →
      ∀ r₁ : Root,
      r₁.sessions = r.sessions → Logs (Told r snapshots) r₁.csv
        (rest.foldl (impactReport target) r₁).csv from hall snapshots (fun _ => id) r rfl
  intro rest
  induction rest with
  | nil => exact fun _ r₁ _ => Logs.refl _
  | cons snapshot rest ih =>
    intro hmem r₁ hsessions
    have hone : Logs (Told r snapshots) r₁.csv (r₁.impactReport target snapshot).csv := by
      unfold impactReport
      cases hfind : r₁.sessionManagerFind snapshot.nodeId with
      | none =>
        refine Logs.row (told_of_not ?_)
        rintro (hrow | hrow) <;> cases hrow
      | some j =>
        obtain ⟨hused, hid⟩ := sessionManagerFind_some hfind
        rw [hsessions] at hused hid
        have hsnapshot := hmem snapshot (List.mem_cons_self ..)
        dsimp only
        rw [hsessions]
        refine (Logs.row fun _ => ?_).trans (Logs.row fun _ => ?_)
        · exact ⟨snapshot, hsnapshot, j, hused, hid, rfl, rfl, rfl⟩
        · exact ⟨snapshot, hsnapshot, j, hused, hid, rfl, rfl⟩
    refine hone.trans (ih (fun x hx => hmem x (List.mem_cons_of_mem _ hx)) _ ?_)
    rw [impactReport_sessions, hsessions]

theorem told_impactEnd (P : Platform) (now : ℕ) (target : UInt16) (success : Bool) (r : Root) :
    Logs (Told r r.impactWindow.snapshots) r.csv (r.impactEnd P now target success).csv := by
  by_cases hopen : r.impactWindow.active = true ∧ r.impactWindow.targetNodeId = target
  · rw [(impactEnd_closes _ _ _ hopen.1 hopen.2).2]
    refine (told_impactReports target _ r).trans (Logs.row (told_of_not ?_))
    rintro (hrow | hrow) <;> cases hrow
  · rw [impactEnd_idle hopen]
    exact Logs.refl _

theorem told_logs (h : Logs (fun row => ¬ row.Reporting) csv csv') :
    Logs (Told r snapshots) csv csv' := h.mono fun _ hrow => told_of_not hrow

theorem told_plainly (h : Plainly csv csv') : Logs (Told r snapshots) csv csv' :=
  told_logs (h.mono not_reporting_of_plain)

theorem told_csvHsSummary (s : Session) {event : CsvEvent}
    (hevent : event = .hsSuccess ∨ event = .hsFail) (r₁ : Root) :
    Logs (Told r snapshots) r₁.csv (r₁.csvHsSummary s event).csv := by
  refine told_logs ((csvHsSummary_logs s event r₁).mono (not_reporting_of_among ?_ ?_))
  · rcases hevent with rfl | rfl <;> simp
  · rcases hevent with rfl | rfl <;> simp

theorem told_summaryIfReady (i : Fin sessionMaxNodes) (r₁ : Root) :
    Logs (Told r snapshots) r₁.csv (r₁.csvSessionSummaryIfReady i).csv :=
  told_logs ((csvSessionSummaryIfReady_logs i r₁).mono
    (not_reporting_of_among (by simp) (by simp)))

/-- The end of a window, where the sessions of other nodes are still as they were. -/
theorem told_end (hw : Watching r₂)
    (hothers : ∀ j, (r₂.sessions j).nodeId ≠ nodeId → r₂.sessions j = r.sessions j) (now : ℕ)
    (success : Bool) : Logs (Told r r₂.impactWindow.snapshots) r₂.csv
      (r₂.impactEnd P now nodeId success).csv := by
  by_cases hopen : r₂.impactWindow.active = true ∧ r₂.impactWindow.targetNodeId = nodeId
  · refine (told_impactEnd P now nodeId success r₂).mono fun row hrow => hrow.of_undisturbed ?_
    intro snapshot hmem j hused hid
    have hne : (r₂.sessions j).nodeId ≠ nodeId := by
      rw [hid, ← hopen.2]
      exact hw.others snapshot hmem
    rw [hothers j hne] at hused hid ⊢
    exact ⟨hused, hid, Unmoved.refl _⟩
  · rw [impactEnd_idle hopen]
    exact Logs.refl _

theorem Handed.apart (hh : Handed i r r₁) (hid : (r.sessions i).nodeId = nodeId)
    (j : Fin sessionMaxNodes) (hne : (r₁.sessions j).nodeId ≠ nodeId) :
    r₁.sessions j = r.sessions j := by
  refine hh.others j ?_
  rintro rfl
  exact hne ((congrArg (fun x => x.2.1) hh.identity).trans hid)

theorem told_gaveUp (hg : GaveUp P i nodeId r r') (hw : Watching r) :
    Logs (Told r r.impactWindow.snapshots) r.csv r'.csv := by
  obtain @⟨r₁, now, v0, v1, hs, hh, -, -⟩ := hg
  have hw₁ : Watching (r₁.csvHsSummary (r₁.sessions i) .hsFail) :=
    (hh.watching hw).csvHsSummary (r₁.sessions i) (Or.inr rfl)
  have hsummary : Logs (Told r r.impactWindow.snapshots) r₁.csv
      (r₁.csvHsSummary (r₁.sessions i) .hsFail).csv := told_csvHsSummary _ (Or.inr rfl) r₁
  have hend := told_end (P := P) (r := r) hw₁ (hh.apart hs.nodeId) now false
  rw [hh.csv] at hsummary
  refine (hsummary.trans (hh.window ▸ hend)).trans (Logs.row (told_of_not ?_))
  rintro (hrow | hrow) <;> cases hrow

theorem Told.subset {snapshots' : List ImpactSnapshot} (h : Told r snapshots row)
    (hsub : snapshots ⊆ snapshots') : Told r snapshots' row := by
  intro hrow
  obtain ⟨snapshot, hmem, htells⟩ := h hrow
  exact ⟨snapshot, hsub hmem, htells⟩

theorem told_retrySession (hsound : Sound r) (hw : Watching r) (i : Fin sessionMaxNodes) :
    Logs (Told r r.impactWindow.snapshots) r.csv (r.retrySession P clk i).csv := by
  rcases retrySession_cases (P := P) clk hsound i with hcalm | hgave
  · exact told_plainly hcalm.rows
  · exact told_gaveUp hgave hw

/-- A retry tick leaves every session with its owner and its counters. -/
structure Ticked (r r' : Root) : Prop where
  owners : SameOwners r r'
  unmoved : ∀ j, Unmoved (r.sessions j) (r'.sessions j)

theorem Ticked.undisturbed (h : Ticked r r') (snapshots : List ImpactSnapshot) :
    Undisturbed r r' snapshots := by
  intro snapshot _ j hused hid
  rw [h.owners.used] at hused
  rw [h.owners.nodeId] at hid
  exact ⟨hused, hid, h.unmoved j⟩

theorem told_retryTick (hsound : Sound r) (hw : Watching r) (hrested : Rested r)
    (clk : Fin sessionMaxNodes → Clock) :
    Logs (Told r r.impactWindow.snapshots) r.csv (r.retryTick P clk).csv := by
  unfold retryTick
  induction List.finRange sessionMaxNodes generalizing r with
  | nil => exact Logs.refl _
  | cons i is ih =>
    have hwork := retrySession_work (P := P) (clk i) hsound i
    have hticked : Ticked r (r.retrySession P (clk i) i) :=
      ⟨work_owners hwork, unmoved_retrySession _ hsound hrested i⟩
    have hsub : (r.retrySession P (clk i) i).impactWindow.snapshots ⊆
        r.impactWindow.snapshots := by
      rcases work_window hwork with hsame | hzero
      · rw [hsame]
        exact fun _ => id
      · rw [hzero]
        exact List.nil_subset _
    have hrest := ih (sound_acts hsound (retrySession_acts (clk i) 0 i r))
      (watching_work hwork hw) (rested_work hwork hrested)
    refine (told_retrySession hsound hw i).trans (hrest.mono fun row hrow => ?_)
    exact (hrow.of_undisturbed (hticked.undisturbed _)).subset hsub

theorem told_handleMetrics (i : Fin sessionMaxNodes) (d : Bytes) (r : Root) :
    Logs (Told r₀ snapshots) r.csv (r.handleMetrics i d).csv := by
  unfold handleMetrics
  dsimp only
  cases metricsReport d with
  | none => exact told_plainly (Logs.row rfl)
  | some report =>
    refine Logs.trans ?_ (told_summaryIfReady i _)
    refine (Logs.row (told_of_not ?_)).trans (Logs.row (told_of_not ?_))
    · rintro (hrow | hrow) <;> cases hrow
    · rintro (hrow | hrow) <;> cases hrow

theorem told_handleHandshake (clk : Clock) (rnd : Entropy) (hs : Serves i nodeId r)
    (hw : Watching r) (dst : UdpSendCtx) (d : Bytes) : Logs (Told r r.impactWindow.snapshots) r.csv
      (r.handleHandshake P clk rnd i dst d).csv := by
  have hh := handed_putFsm (i := i) (r := r)
    (f := ((r.fsm i).hsFsmHandleFragment P (.sessions i) clk rnd dst d).2) ?_
  · unfold handleHandshake
    dsimp only
    generalize r.putFsm i _ = r₁ at hh ⊢
    have hid : (r₁.sessions i).nodeId = nodeId :=
      (congrArg (fun x => x.2.1) hh.identity).trans hs.nodeId
    split
    · have hw₁ : Watching (r₁.csvHsSummary (r₁.sessions i) .hsSuccess) :=
        (hh.watching hw).csvHsSummary (r₁.sessions i) (Or.inl rfl)
      have hsummary : Logs (Told r r.impactWindow.snapshots) r₁.csv
          (r₁.csvHsSummary (r₁.sessions i) .hsSuccess).csv := told_csvHsSummary _ (Or.inl rfl) r₁
      have hend := told_end (P := P) (r := r) hw₁ (hh.apart hs.nodeId) (clk 24) true
      rw [hh.csv] at hsummary
      rw [hid]
      exact (hsummary.trans (hh.window ▸ hend)).trans (told_summaryIfReady i _)
    · rw [hh.csv]
      exact Logs.refl _
  · exact identity_hsFsmHandleFragment _ _ hs dst d

/-- A handshake that was begun and failed at once closes the window it opened, or its own. -/
theorem told_opened {ok : Bool} {now' : ℕ} (hr : Reopened i r₀ r₁)
    (hs : Serves i nodeId r₀) (hh : Handed i (r₁.impactStart now nodeId) r₂)
    (hw : Watching r₂) (hothers : ∀ j, j ≠ i → r₀.sessions j = r.sessions j) :
    Logs (Told r r₂.impactWindow.snapshots) r₀.csv
      (if ok = true then r₂ else r₂.impactEnd P now' nodeId false).csv := by
  have hreopened : Logs (Told r r₂.impactWindow.snapshots) r₀.csv r₁.csv := by
    rcases hr.how with ⟨-, -, -, hrows⟩ | ⟨-, -, -, row, csv, hreset, hbelow, habove⟩
    · exact told_plainly hrows
    · refine (told_plainly hbelow).trans ((Logs.row (told_of_not ?_) :
        Logs _ csv (row :: csv)).trans (told_plainly habove))
      cases row with
      | temp _ _ => exact hreset.elim
      | event id kind =>
        obtain ⟨-, rfl | rfl | rfl⟩ := hreset <;> rintro (hrow | hrow) <;> cases hrow
  have hstarted : Logs (Told r r₂.impactWindow.snapshots) r₀.csv r₂.csv := by
    rw [hh.csv]
    exact hreopened.trans (told_logs ((impactStart_logs now nodeId r₁).mono
      (not_reporting_of_among (by simp) (by simp))))
  have hapart : ∀ j, (r₂.sessions j).nodeId ≠ nodeId → r₂.sessions j = r.sessions j := by
    intro j hne
    have hji : j ≠ i := by
      rintro rfl
      have hid := congrArg (fun x => x.2.1) hh.identity
      rw [impactStart_sessions] at hid
      exact hne (hid.trans (hr.serves.nodeId.trans hs.nodeId))
    rw [hh.others j hji, impactStart_sessions, hr.others j hji, hothers j hji]
  cases ok with
  | true => exact hstarted
  | false => exact hstarted.trans (told_end hw hapart now' false)

/-- The snapshots that the reports of a handler are about: those of the window it found open, or
of one that it opened itself, which are of the sessions as it found them. -/
structure ReportedOn (r : Root) (snapshots : List ImpactSnapshot) : Prop where
  found : r.impactWindow.active = true → snapshots = r.impactWindow.snapshots
  fresh : r.impactWindow.active = false → ∀ snapshot ∈ snapshots, ∃ j,
    (r.sessions j).used = true ∧ snapshot = (r.sessions j).snapshot

theorem reported_window (hw : Watching r) : ReportedOn r r.impactWindow.snapshots where
  found _ := rfl
  fresh hclosed := by
    rw [hw.closed hclosed]
    intro snapshot hmem
    cases hmem

theorem reported_opened (hfound : Found nodeId r i r₀) (hr : Reopened i r₀ r₁)
    (hh : Handed i (r₁.impactStart now nodeId) r₂) :
    ReportedOn r r₂.impactWindow.snapshots := by
  rcases opened_window hr hh with ⟨hsame, hactive⟩ | ⟨hclosed, hwindow⟩
  · rw [hfound.window] at hsame hactive
    rw [hsame]
    refine ⟨fun _ => rfl, fun hclosed => ?_⟩
    rw [hactive] at hclosed
    cases hclosed
  · rw [hfound.window] at hclosed
    refine ⟨fun hactive => ?_, fun _ snapshot hmem => ?_⟩
    · rw [hclosed] at hactive
      cases hactive
    · rw [hwindow] at hmem
      obtain ⟨j, hj, rfl⟩ := List.mem_map.mp hmem
      obtain ⟨hused, hest, -⟩ := mem_watched.mp hj
      have hji : j ≠ i := by
        rintro rfl
        rw [Session.sessionIsEstablished, hr.state] at hest
        cases hest
      have hsame : r₁.sessions j = r.sessions j := (hr.others j hji).trans (hfound.others hji)
      rw [hsame] at hused ⊢
      exact ⟨j, hused, rfl⟩

theorem Reopened.unique (hs : Serves i nodeId r) (hr : Reopened i r r₁) (hu : Unique r) :
    Unique r₁ := by
  refine SameOwners.unique (fun j => ?_) hu
  by_cases hj : j = i
  · subst hj
    simp only [SessionCore.identity, Session.core_used, Session.core_nodeId, Session.core_role,
      hr.serves.used, hs.used, hr.serves.nodeId, hr.serves.role, hs.role]
  · rw [hr.others j hj]

/-- Every watched node has its session. -/
def AllFound (r : Root) : Prop :=
  ∀ snapshot ∈ r.impactWindow.snapshots, ∃ j, (r.sessions j).used = true ∧
    (r.sessions j).nodeId = snapshot.nodeId

/-- What was found or created for another packet is kept, if it is of a watched node. -/
theorem undisturbed_found (hfound : Found nodeId r i r₀) (hall : AllFound r) (hcalm : Calm r₀ r₁) :
    Undisturbed r r₁ r.impactWindow.snapshots := by
  intro snapshot hmem j hused hid
  rw [hcalm.sameUsed] at hused
  rw [hcalm.sameNodeId] at hid
  have hunmoved := Quiet.unmoved (hcalm.sessions j).quiet
  rcases hfound.how with rfl | ⟨-, hnew, rfl⟩
  · exact ⟨hused, hid, hunmoved⟩
  · obtain ⟨k, hk, hkid⟩ := hall snapshot hmem
    have hji : j ≠ i := by
      rintro rfl
      rw [setSession_sessions, Function.update_self] at hid
      exact find_none hnew hk (hkid.trans hid.symm)
    rw [setSession_sessions, Function.update_of_ne hji] at hused hid hunmoved
    exact ⟨hused, hid, hunmoved⟩

theorem told_handle (hsound : Sound r) (hw : WindowSound r) (hrested : Rested r)
    (hall : AllFound r) (e : Event) :
    ∃ snapshots, ReportedOn r snapshots ∧ Logs (Told r snapshots) r.csv (r.handle P e).csv := by
  have hwindow := reported_window hw.watching
  cases e with
  | retry clk => exact ⟨_, hwindow, told_retryTick hsound hw.watching hrested clk⟩
  | transmit => exact ⟨_, hwindow, Logs.refl _⟩
  | receive clk rnd sender data =>
    simp only [handle]
    rcases udpRxCallback_cases (P := P) clk rnd hsound sender data with
      ⟨hcalm, -⟩ | ⟨i, r₀, -, -, hfound, heq⟩
    · exact ⟨_, hwindow, told_plainly hcalm.rows⟩
    · have hw₀ : WindowSound r₀ := windowSound_turns (P := P) hfound.turns hw
      have hcsv : r₀.csv = r.csv := by
        rcases hfound.how with rfl | ⟨-, -, rfl⟩ <;> rfl
      rw [heq, ← hcsv]
      by_cases hkind : byteAt data pqcHdrMsgType = pqcMsgGetpk
      · obtain ⟨r₁, hr, hstart⟩ := dispatch_getpk (P := P) clk rnd hfound.sound
          hfound.serves hkind sender
        obtain ⟨ok, r₂, hh, -, hend⟩ := hr.launched (P := P) hfound.serves clk rnd
          ⟨some udpConn, some sender⟩
        rw [hstart, hend]
        have hw₂ : Watching r₂ := hh.watching ((hr.watching hw₀.watching).impactStart
          (hr.unique hfound.serves hw₀.unique) (clk 20) (pqcHeaderGetNodeId data))
        exact ⟨_, reported_opened hfound hr hh,
          told_opened hr hfound.serves hh hw₂ fun j hj => hfound.others hj⟩
      · obtain ⟨r₁, hcalm, hsound₁, hdispatch⟩ := dispatch_cases (P := P) clk rnd hfound.sound
          hfound.serves hkind sender
        have hs₁ := hcalm.serves hfound.serves
        have hw₁ : Watching r₁ := hw₀.watching.logs hcalm.window
          (hcalm.rows.mono unmarked_of_plain)
        have hsnapshots : r₁.impactWindow.snapshots = r.impactWindow.snapshots := by
          rw [hcalm.window, hfound.window]
        refine ⟨_, hwindow, (told_plainly hcalm.rows).trans ?_⟩
        rw [hdispatch]
        split
        · exact told_plainly (handleTemp_plainly P i data r₁)
        · split
          · exact told_handleMetrics i data r₁
          · have htold := told_handleHandshake (P := P) clk rnd hs₁ hw₁
              ⟨some udpConn, some sender⟩ data
            rw [hsnapshots] at htold
            exact htold.mono fun row hrow =>
              hrow.of_undisturbed (undisturbed_found hfound hall hcalm)

end Root

end PqcContiki
