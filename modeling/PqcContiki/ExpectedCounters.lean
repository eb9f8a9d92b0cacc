import PqcContiki.SilentRows

/-!
The counter a session expects: once it has accepted something it cannot expect counter 0 again
without a row that tells of it.
-/
namespace PqcContiki

open TxQueue Relation

namespace Root

variable {P : Platform} {clk : Clock} {rnd : Entropy} {r r' r'' r₀ r₁ r₂ : Root}
  {i j : Fin sessionMaxNodes} {nodeId id : UInt16} {csv csv' csv'' : List CsvRow} {row : CsvRow}
  {kinds : List CsvEvent} {sender : IpAddr} {dst : UdpSendCtx} {d : Bytes}

/-- What becomes of the agreements with node `id` and of the counters they expect: where no row
tells of a restart, an agreement is kept with its counter, and a new one expects counter 0. -/
structure Carried (id : UInt16) (r r' : Root) : Prop where
  grows : Logs (fun _ => True) r.csv r'.csv
  kept : Unbroken id r.csv r'.csv → ∀ j, Established id r j →
    Established id r' j ∧ (r'.sessions j).rxCounter = (r.sessions j).rxCounter
  fresh : ∀ j, Established id r' j →
    (Unbroken id r.csv r'.csv ∧ Established id r j ∧
      (r'.sessions j).rxCounter = (r.sessions j).rxCounter) ∨
    ((r'.sessions j).rxCounter = 0 ∧ (Unbroken id r.csv r'.csv → ∀ k, ¬ Established id r k))

theorem Carried.trans (h : Carried id r r') (h' : Carried id r' r'') : Carried id r r'' := by
  refine ⟨h.grows.trans h'.grows, ?_, ?_⟩
  · intro hall j hj
    obtain ⟨hall₁, hall₂⟩ := Logs.parts h.grows h'.grows hall
    obtain ⟨hj₁, hrx₁⟩ := h.kept hall₁ j hj
    obtain ⟨hj₂, hrx₂⟩ := h'.kept hall₂ j hj₁
    exact ⟨hj₂, hrx₂.trans hrx₁⟩
  · intro j hj
    rcases h'.fresh j hj with ⟨hall₂, hj₁, hrx₂⟩ | ⟨hrx, hnone⟩
    · rcases h.fresh j hj₁ with ⟨hall₁, hj₀, hrx₁⟩ | ⟨hrx, hnone⟩
      · exact Or.inl ⟨hall₁.trans hall₂, hj₀, hrx₂.trans hrx₁⟩
      · exact Or.inr ⟨hrx₂.trans hrx, fun hall => hnone (Logs.parts h.grows h'.grows hall).1⟩
    · refine Or.inr ⟨hrx, ?_⟩
      intro hall k hk
      obtain ⟨hall₁, hall₂⟩ := Logs.parts h.grows h'.grows hall
      exact hnone hall₂ k (h.kept hall₁ k hk).1

/-- No agreement came or went. -/
theorem carried_still (hsame : ∀ j, Established id r' j ↔ Established id r j)
    (hrx : ∀ j, Established id r j → (r'.sessions j).rxCounter = (r.sessions j).rxCounter)
    (hrows : Unbroken id r.csv r'.csv) : Carried id r r' where
  grows := hrows.mono fun _ _ => trivial
  kept := fun _ j hj => ⟨(hsame j).mpr hj, hrx j hj⟩
  fresh := by
    intro j hj
    have hj₀ := (hsame j).mp hj
    exact Or.inl ⟨hrows, hj₀, hrx j hj₀⟩

theorem SameOwners.established_iff (ho : SameOwners r r')
    (hstate : (r'.sessions j).state = .established ↔ (r.sessions j).state = .established) :
    Established id r' j ↔ Established id r j := by
  constructor
  · intro hj
    exact ⟨(ho.used j).symm.trans hj.used, (ho.nodeId j).symm.trans hj.nodeId, hstate.mp hj.state⟩
  · intro hj
    exact ⟨(ho.used j).trans hj.used, (ho.nodeId j).trans hj.nodeId, hstate.mpr hj.state⟩

theorem established_congr (h : r'.sessions j = r.sessions j) :
    Established id r' j ↔ Established id r j := by
  constructor
  · intro hj
    exact ⟨h ▸ hj.used, h ▸ hj.nodeId, h ▸ hj.state⟩
  · intro hj
    exact ⟨h ▸ hj.used, h ▸ hj.nodeId, h ▸ hj.state⟩

theorem Established.eq (hj : Established id r j) (hs : Serves i id r) (hu : Unique r) : j = i :=
  hu j i hj.used hs.used (hj.nodeId.trans hs.nodeId.symm)

theorem Calm.carried (h : Calm r r') (id : UInt16) : Carried id r r' := by
  refine carried_still ?_ ?_ (h.rows.mono fun row hrow => not_isReset_of_plain hrow id)
  · intro j
    apply SameOwners.established_iff (fun j => (h.sessions j).identity)
    rw [(h.sessions j).quiet.state]
  · intro j _
    exact (Quiet.unmoved (h.sessions j).quiet).rx

/-- Session `i` was not established before and is not established now. -/
theorem carried_apart (hothers : ∀ j, j ≠ i → r'.sessions j = r.sessions j)
    (hfrom : (r.sessions i).state ≠ .established) (hto : (r'.sessions i).state ≠ .established)
    (hrows : Unbroken id r.csv r'.csv) : Carried id r r' := by
  refine carried_still ?_ ?_ hrows
  · intro j
    by_cases hj : j = i
    · subst j
      exact iff_of_false (fun h => hto h.state) (fun h => hfrom h.state)
    · exact established_congr (hothers j hj)
  · intro j hest
    have hj : j ≠ i := fun hj => hfrom (hj ▸ hest.state)
    rw [hothers j hj]

theorem carried_settled (hs : Serves i nodeId r) (hu : Unique r)
    (hothers : ∀ j, j ≠ i → r'.sessions j = r.sessions j)
    (hnode : (r'.sessions i).nodeId = nodeId)
    (hfrom : (r.sessions i).state ≠ .established) (hrx : (r'.sessions i).rxCounter = 0)
    (hrows : Unbroken id r.csv r'.csv) : Carried id r r' := by
  have hne {j : Fin sessionMaxNodes} (hj : Established id r j) : j ≠ i :=
    fun he => hfrom (he ▸ hj.state)
  refine ⟨hrows.mono fun _ _ => trivial, ?_, ?_⟩
  · intro _ j hj
    have hsame := hothers j (hne hj)
    exact ⟨(established_congr hsame).mpr hj, by rw [hsame]⟩
  · intro j hj
    by_cases he : j = i
    · subst j
      refine Or.inr ⟨hrx, ?_⟩
      intro _ k hk
      have hid : nodeId = id := hnode.symm.trans hj.nodeId
      exact hne hk (hk.eq (hid ▸ hs) hu)
    · have hsame := hothers j he
      exact Or.inl ⟨hrows, (established_congr hsame).mp hj, by rw [hsame]⟩

theorem carried_reset (hs : Serves i nodeId r) (hu : Unique r)
    (hothers : ∀ j, j ≠ i → r'.sessions j = r.sessions j)
    (hnode : (r'.sessions i).nodeId = nodeId) (hto : (r'.sessions i).state ≠ .established)
    (hgrows : Logs (fun _ => True) r.csv r'.csv) (hbroken : ¬ Unbroken nodeId r.csv r'.csv)
    (hrows : ∀ id, id ≠ nodeId → Unbroken id r.csv r'.csv) (id : UInt16) : Carried id r r' := by
  by_cases hid : id = nodeId
  · subst hid
    refine ⟨hgrows, fun hall => absurd hall hbroken, ?_⟩
    intro j hj
    have hne : j ≠ i := fun he => hto (he ▸ hj.state)
    exact absurd (((established_congr (hothers j hne)).mp hj).eq hs hu) hne
  · refine carried_still ?_ ?_ (hrows id hid)
    · intro j
      by_cases hj : j = i
      · subst j
        exact iff_of_false (fun h => hid (h.nodeId.symm.trans hnode))
          (fun h => hid (h.nodeId.symm.trans hs.nodeId))
      · exact established_congr (hothers j hj)
    · intro j hest
      have hj : j ≠ i := by
        rintro rfl
        exact hid (hest.nodeId.symm.trans hs.nodeId)
      rw [hothers j hj]

theorem carried_reported (hs : Serves i nodeId r) (report : MetricsReport) (id : UInt16) :
    Carried id r (((r.csvNodeMetrics nodeId report).sessionStoreNodeMetrics i
      report).csvSessionSummaryIfReady i) := by
  have howners := work_owners (P := Platform.demo) (.reported i nodeId report hs)
  have hstored (j) := storeNodeMetrics_session (i := i) nodeId report j r
  have hsummary (j) := summaryIfReady_session i j
    ((r.csvNodeMetrics nodeId report).sessionStoreNodeMetrics i report)
  refine carried_still ?_ ?_ ?_
  · intro j
    apply howners.established_iff
    rw [(hsummary j).1, (hstored j).1]
  · intro j _
    exact (hsummary j).2.rx.trans (hstored j).2.rx
  · refine Logs.trans ⟨reportRows nodeId report, rfl, ?_⟩ (unbroken_summaryIfReady i _ id)
    simp [reportRows, CsvRow.IsReset]

theorem carried_gaveUp (hg : GaveUp P i nodeId r r') (hu : Unique r) (id : UInt16) :
    Carried id r r' := by
  obtain @⟨r₁, now, v0, v1, hs, hh, -, -⟩ := hg
  have hlogs (id : UInt16) : Unbroken id r.csv ((r₁.csvHsSummary (r₁.sessions i)
      .hsFail).impactEnd P now nodeId false).csv := by
    rw [← hh.csv]
    exact (unbroken_csvHsSummary _ (Or.inr rfl) r₁ id).trans (unbroken_impactEnd ..)
  have hreset : CsvRow.IsReset nodeId (.event nodeId .hsFailReset v0 v1 0 0 0) :=
    ⟨rfl, Or.inr (Or.inr rfl)⟩
  refine carried_reset (i := i) hs hu ?_ ?_ ?_ ?_ ?_ ?_ id
  · intro j hj
    rw [dropAndReset_sessions, Function.update_of_ne hj, csvEvent_sessions, impactEnd_sessions,
      csvHsSummary_sessions, hh.others j hj]
  · rw [dropAndReset_sessions, Function.update_self]
    simpa using hh.sameNodeId.trans hs.nodeId
  · rw [dropAndReset_sessions, Function.update_self]
    simp
  · exact ((hlogs id).mono fun _ _ => trivial).trans (Logs.row trivial)
  · exact not_unbroken (hlogs id) hreset (Logs.refl _ : Logs (fun _ => True) _ _)
  · intro id hid
    refine (hlogs id).trans (Logs.row ?_)
    rintro ⟨heq, -⟩
    exact hid heq.symm

/-- Work either carries the agreements with every node on, or is on a TEMP packet. -/
theorem carried_work (hw : Work P r r') (hu : Unique r) (hrest : Rested r) :
    (∀ id, Carried id r r') ∨ ∃ i nodeId d, Serves i nodeId r ∧ r' = r.handleTemp P i d := by
  cases hw with
  | calm hcalm => exact Or.inl hcalm.carried
  | heardTemp i nodeId d hs => exact Or.inr ⟨i, nodeId, d, hs, rfl⟩
  | reported i nodeId report hs => exact Or.inl (carried_reported hs report)
  | failed i nodeId hs hh hfrom hto _ _ =>
    refine Or.inl fun id => carried_apart hh.others ?_ ?_ (hh.csv ▸ Logs.refl _)
    · simp [hfrom]
    · simp [hto]
  | @succeeded r₁ i nodeId now hs hh hfrom _ _ hb =>
    have hsessions := summaryIfReady_session i i
      ((r₁.csvHsSummary (r₁.sessions i) .hsSuccess).impactEnd P now nodeId true)
    have howners := work_owners (.succeeded (P := P) i nodeId now hs hh hfrom ‹_› ‹_› hb)
    have hne : (r.sessions i).state ≠ .established := by simp [hfrom]
    refine Or.inl fun id => carried_settled hs hu ?_ ?_ hne ?_ ?_
    · intro j hj
      rw [summaryIfReady_others hj, impactEnd_sessions, csvHsSummary_sessions, hh.others j hj]
    · exact (howners.nodeId i).trans hs.nodeId
    · have hrx : (r₁.sessions i).rxCounter = (r.sessions i).rxCounter :=
        congrArg Books.rxCounter hb
      rw [hsessions.2.rx, impactEnd_sessions, csvHsSummary_sessions, hrx]
      exact hrest i hs.used hne
    · rw [← hh.csv]
      refine Logs.trans ?_ (unbroken_summaryIfReady i _ id)
      exact (unbroken_csvHsSummary _ (Or.inl rfl) r₁ id).trans (unbroken_impactEnd ..)
  | gaveUp i nodeId hg => exact Or.inl (carried_gaveUp hg hu)

theorem carried_create (hfree : (r.sessions i).used = false) (nodeId id : UInt16) :
    Carried id r (r.setSession i (Session.sessionInit .root nodeId)) := by
  have hother {j : Fin sessionMaxNodes} (hj : Established id r j) : j ≠ i := by
    rintro rfl
    cases hfree.symm.trans hj.used
  refine carried_still ?_ ?_ (Logs.refl _)
  · intro j
    by_cases hj : j = i
    · subst j
      refine iff_of_false (fun h => ?_) (fun h => hother h rfl)
      have hidle := h.state
      rw [setSession_sessions, Function.update_self] at hidle
      cases hidle
    · exact established_congr (by rw [setSession_sessions, Function.update_of_ne hj])
  · intro j hj
    rw [setSession_sessions, Function.update_of_ne (hother hj)]

theorem carried_opened {ok : Bool} {now now' : ℕ} (hs : Serves i nodeId r) (hu : Unique r)
    (hr : Reopened i r r₁) (hh : Handed i (r₁.impactStart now nodeId) r₂)
    (ho : Fsm.Opened P rnd (r₁.fsm i) ok (r₂.sessions i)) (id : UInt16) :
    Carried id r (if ok = true then r₂ else r₂.impactEnd P now' nodeId false) := by
  have hothers : ∀ j, j ≠ i → r₂.sessions j = r.sessions j := by
    intro j hj
    rw [hh.others j hj, impactStart_sessions, hr.others j hj]
  have hto : (r₂.sessions i).state ≠ .established := by
    cases ho with
    | sent _ _ hto _ _ => simp [hto]
    | failed _ _ hto _ _ => simp [hto]
    | refused _ _ hto _ _ =>
      rw [hto]
      simp [hr.state]
  have hnode : (r₂.sessions i).nodeId = nodeId :=
    ((opened_owners hs hr hh).nodeId i).trans hs.nodeId
  have hstart (id : UInt16) : Unbroken id r₁.csv r₂.csv := by
    rw [hh.csv]
    exact unbroken_of_among (impactStart_logs now nodeId r₁) (by simp) id
  have hopened : Carried id r r₂ := by
    rcases hr.how with ⟨hidle, -, -, hrows⟩ | ⟨-, -, -, row, csv, hreset, hbelow, habove⟩
    · refine carried_apart hothers (by simp [hidle]) hto ?_
      exact (hrows.mono fun row hrow => not_isReset_of_plain hrow id).trans (hstart id)
    · rw [hs.nodeId] at hreset
      have hother : ∀ id, id ≠ nodeId → ¬ row.IsReset id := by
        intro id hid hreset'
        cases row with
        | temp _ _ => exact hreset
        | event _ _ => exact hid (hreset'.1.symm.trans hreset.1)
      refine carried_reset hs hu hothers hnode hto ?_ ?_ ?_ id
      · exact (hbelow.mono fun _ _ => trivial).trans ((Logs.row trivial).trans
          ((habove.mono fun _ _ => trivial).trans ((hstart id).mono fun _ _ => trivial)))
      · exact not_unbroken hbelow hreset ((habove.mono fun _ _ => trivial).trans
          ((hstart id).mono fun _ _ => trivial) : Logs (fun _ => True) _ _)
      · intro id hid
        exact (hbelow.mono fun row hrow => not_isReset_of_plain hrow id).trans
          ((Logs.row (hother id hid)).trans
            ((habove.mono fun row hrow => not_isReset_of_plain hrow id).trans (hstart id)))
  cases ok with
  | true => exact hopened
  | false =>
    have hsessions : (r₂.impactEnd P now' nodeId false).sessions = r₂.sessions :=
      impactEnd_sessions ..
    refine hopened.trans (carried_still ?_ ?_ (unbroken_impactEnd P now' nodeId false r₂ id))
    · intro j
      exact established_congr (congrFun hsessions j)
    · intro j _
      exact congrArg Session.rxCounter (congrFun hsessions j)

theorem carried_turn (ht : Turn P r r') (hu : Unique r) (hrest : Rested r) :
    (∀ id, Carried id r r') ∨ ∃ i nodeId d, Serves i nodeId r ∧ r' = r.handleTemp P i d := by
  cases ht with
  | work hw => exact carried_work hw hu hrest
  | create i nodeId hfree hnew => exact Or.inl (carried_create hfree nodeId)
  | opened i nodeId now now' hs hr hh ho => exact Or.inl (carried_opened hs hu hr hh ho)

end Root

end PqcContiki
