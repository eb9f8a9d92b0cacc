import PqcContiki.Acknowledgements
import PqcContiki.ImpactMeters
import PqcContiki.SessionSummaries
import PqcContiki.TempLossTolerance

/-! The rows of the root that neither are measurements nor tell of a restart. -/
namespace PqcContiki

open TxQueue Relation

/-- The measurement of node `nodeId` that a row tells. -/
def CsvRow.measurement (nodeId : UInt16) : CsvRow → Option TempPayload
  | .temp id measurement => if id = nodeId then some measurement else none
  | .event _ _ _ _ _ _ _ => none

namespace Root

variable {P : Platform} {clk : Clock} {rnd : Entropy} {r r' r'' r₀ r₁ r₂ : Root}
  {i j : Fin sessionMaxNodes} {nodeId id : UInt16} {csv csv' csv'' : List CsvRow} {row : CsvRow}
  {kinds : List CsvEvent} {sender : IpAddr} {dst : UdpSendCtx} {d : Bytes}

/-- The measurements of node `nodeId` among the rows, newest first. -/
def temps (nodeId : UInt16) (csv : List CsvRow) : List TempPayload :=
  csv.filterMap (CsvRow.measurement nodeId)

/-- More rows, none of them a measurement. -/
abbrev Unmeasured (csv csv' : List CsvRow) : Prop :=
  Logs (fun row => ∀ nodeId, row.measurement nodeId = none) csv csv'

theorem measurement_of_among (h : row.Among kinds) (nodeId : UInt16) :
    row.measurement nodeId = none := by
  cases row with
  | event _ _ => rfl
  | temp _ _ => exact h.elim

theorem unmeasured_of_among (h : Logs (CsvRow.Among kinds) csv csv') : Unmeasured csv csv' :=
  h.mono fun _ hrow => measurement_of_among hrow

theorem unmeasured_event {event : CsvEvent} {v0 v1 v2 v3 : UInt32} :
    Unmeasured r.csv (r.csvEvent nodeId event v0 v1 v2 v3).csv :=
  Logs.row fun _ => rfl

theorem unmeasured_startHandshake (P : Platform) (clk : Clock) (rnd : Entropy)
    (i : Fin sessionMaxNodes) (dst : UdpSendCtx) (r : Root) :
    Unmeasured r.csv (r.startHandshake P clk rnd i dst).csv := by
  have hstart := unmeasured_of_among (impactStart_logs (clk 20) (r.sessions i).nodeId r)
  unfold startHandshake
  dsimp only
  split
  · exact hstart
  · exact hstart.trans (unmeasured_of_among (impactEnd_logs ..))

theorem unmeasured_handleGetpk (P : Platform) (clk : Clock) (rnd : Entropy)
    (i : Fin sessionMaxNodes) (sender : IpAddr) (msgId : UInt8) (r : Root) :
    Unmeasured r.csv (r.handleGetpk P clk rnd i sender msgId).csv := by
  unfold handleGetpk
  dsimp only
  generalize hr₁ : ite ((r.mapSession i _).sessions i).sessionIsFailed _ _ = r₁
  have hfirst : Unmeasured r.csv r₁.csv := by
    rw [← hr₁]
    split
    · exact Logs.row fun _ => rfl
    · exact Logs.refl _
  apply hfirst.trans
  split
  · exact unmeasured_event.trans (unmeasured_startHandshake ..)
  · split
    · exact Logs.trans (Logs.row fun _ => rfl) (unmeasured_startHandshake ..)
    · exact unmeasured_event

theorem unmeasured_handleMetrics (i : Fin sessionMaxNodes) (d : Bytes) (r : Root) :
    Unmeasured r.csv (r.handleMetrics i d).csv := by
  unfold handleMetrics
  dsimp only
  split
  · exact Logs.trans ⟨reportRows _ _, rfl, by simp [reportRows, CsvRow.measurement]⟩
      (unmeasured_of_among (csvSessionSummaryIfReady_logs i _))
  · exact unmeasured_event

theorem unmeasured_handleHandshake (P : Platform) (clk : Clock) (rnd : Entropy)
    (i : Fin sessionMaxNodes) (dst : UdpSendCtx) (d : Bytes) (r : Root) :
    Unmeasured r.csv (r.handleHandshake P clk rnd i dst d).csv := by
  unfold handleHandshake
  dsimp only
  split
  · refine Logs.trans ?_ (unmeasured_of_among (csvSessionSummaryIfReady_logs i _))
    refine Logs.trans ?_ (unmeasured_of_among (impactEnd_logs P _ _ _ _))
    exact unmeasured_of_among (csvHsSummary_logs _ _ (r.putFsm i _))
  · exact Logs.refl _

theorem unmeasured_dispatch (hkind : byteAt d pqcHdrMsgType ≠ pqcMsgTemp) (P : Platform)
    (clk : Clock) (rnd : Entropy) (i : Fin sessionMaxNodes) (sender : IpAddr) (r : Root) :
    Unmeasured r.csv (r.dispatch P clk rnd i sender d).csv := by
  unfold dispatch
  dsimp only
  split
  · exact unmeasured_handleGetpk ..
  · have hnote : Unmeasured r.csv
        ((r.mapSession i (Session.sessionSetPeerAddr sender)).noteCtStart P clk i
          (byteAt d pqcHdrMsgType) (byteAt d pqcHdrMsgId)).csv := by
      unfold noteCtStart
      dsimp only
      split
      · exact Logs.row fun _ => rfl
      · exact Logs.refl _
    apply hnote.trans
    split
    · exact unmeasured_handleMetrics ..
    · exact unmeasured_handleHandshake ..

theorem getOrCreate_csv (nodeId : UInt16) (r : Root) :
    (r.sessionManagerGetOrCreate nodeId).2.csv = r.csv := by
  unfold sessionManagerGetOrCreate
  split
  · rfl
  · split <;> rfl

theorem unmeasured_udpRxCallback (hkind : byteAt d pqcHdrMsgType ≠ pqcMsgTemp) (P : Platform)
    (clk : Clock) (rnd : Entropy) (sender : IpAddr) (r : Root) :
    Unmeasured r.csv (r.udpRxCallback P clk rnd sender d).csv := by
  unfold udpRxCallback
  split
  · exact unmeasured_event
  · rw [← getOrCreate_csv (pqcHeaderGetNodeId d) r]
    dsimp only
    split
    · exact unmeasured_event
    · exact unmeasured_dispatch hkind ..

theorem unmeasured_retryTick (clk : Fin sessionMaxNodes → Clock) (r : Root) :
    Unmeasured r.csv (r.retryTick P clk).csv := by
  unfold retryTick
  induction List.finRange sessionMaxNodes generalizing r with
  | nil => exact Logs.refl _
  | cons i is ih =>
    refine Logs.trans ?_ (ih (r.retrySession P (clk i) i))
    unfold retrySession
    dsimp only
    split
    · split
      · refine Logs.trans ?_ (Logs.row fun _ => rfl)
        refine Logs.trans ?_ (unmeasured_of_among (impactEnd_logs P _ _ _ _))
        exact unmeasured_of_among (csvHsSummary_logs _ _ (r.putFsm i _))
      · exact Logs.refl _
    · exact Logs.refl _

/-- Only a TEMP packet makes the root print a measurement. -/
theorem unmeasured_handle (P : Platform) (r : Root) (e : Event)
    (hkind : ∀ d, e.heard = some d → byteAt d pqcHdrMsgType ≠ pqcMsgTemp) :
    Unmeasured r.csv (r.handle P e).csv := by
  cases e with
  | receive clk rnd sender d => exact unmeasured_udpRxCallback (hkind d rfl) ..
  | retry clk => exact unmeasured_retryTick clk r
  | transmit => exact Logs.refl _

/-- More rows, none of which tells of a restart of node `id`'s session. -/
abbrev Unbroken (id : UInt16) (csv csv' : List CsvRow) : Prop :=
  Logs (fun row => ¬ row.IsReset id) csv csv'

theorem not_isReset_of_plain (h : row.Plain) (id : UInt16) : ¬ row.IsReset id := by
  cases row with
  | temp _ _ => exact not_false
  | event _ kind =>
    have hkind : kind.tracked = false := h
    rintro ⟨-, rfl | rfl | rfl⟩ <;> cases hkind

theorem not_isReset_of_among (h : row.Among kinds)
    (hkinds : ∀ kind ∈ kinds, kind ≠ .getpkAfterFail ∧ kind ≠ .getpkRestart ∧ kind ≠ .hsFailReset)
    (id : UInt16) : ¬ row.IsReset id := by
  cases row with
  | temp _ _ => exact not_false
  | event _ kind =>
    obtain ⟨hafter, hrestart, hfail⟩ := hkinds kind h
    rintro ⟨-, hreset | hreset | hreset⟩
    · exact hafter hreset
    · exact hrestart hreset
    · exact hfail hreset

theorem unbroken_of_among (h : Logs (CsvRow.Among kinds) csv csv')
    (hkinds : ∀ kind ∈ kinds, kind ≠ .getpkAfterFail ∧ kind ≠ .getpkRestart ∧ kind ≠ .hsFailReset)
    (id : UInt16) : Unbroken id csv csv' :=
  h.mono fun _ hrow => not_isReset_of_among hrow hkinds id

theorem unbroken_csvHsSummary (s : Session) {event : CsvEvent}
    (h : event = .hsSuccess ∨ event = .hsFail) (r : Root) (id : UInt16) :
    Unbroken id r.csv (r.csvHsSummary s event).csv := by
  rcases h with rfl | rfl <;> exact unbroken_of_among (csvHsSummary_logs s _ r) (by simp) id

theorem unbroken_impactEnd (P : Platform) (now : ℕ) (target : UInt16) (success : Bool) (r : Root)
    (id : UInt16) : Unbroken id r.csv (r.impactEnd P now target success).csv :=
  unbroken_of_among (impactEnd_logs P now target success r) (by simp) id

theorem unbroken_summaryIfReady (i : Fin sessionMaxNodes) (r : Root) (id : UInt16) :
    Unbroken id r.csv (r.csvSessionSummaryIfReady i).csv :=
  unbroken_of_among (csvSessionSummaryIfReady_logs i r) (by simp) id

/-- Rows added in two rounds are all of one sort only if those of each round are. -/
theorem Logs.parts {p q q' : CsvRow → Prop} (h : Logs q csv csv') (h' : Logs q' csv' csv'')
    (hp : Logs p csv csv'') : Logs p csv csv' ∧ Logs p csv' csv'' := by
  obtain ⟨rows, rfl, -⟩ := h
  obtain ⟨rows', rfl, -⟩ := h'
  obtain ⟨all, heq, hall⟩ := hp
  rw [← List.append_assoc] at heq
  obtain rfl := List.append_cancel_right heq
  exact ⟨⟨rows, rfl, fun row hrow => hall row (List.mem_append_right _ hrow)⟩,
    ⟨rows', rfl, fun row hrow => hall row (List.mem_append_left _ hrow)⟩⟩

theorem not_unbroken {q q' : CsvRow → Prop} (h : Logs q csv csv') (hreset : row.IsReset id)
    (h' : Logs q' (row :: csv') csv'') : ¬ Unbroken id csv csv'' := by
  intro hall
  have hrow : Logs (fun _ => True) csv' (row :: csv') := Logs.row trivial
  have hlast := (Logs.parts h (hrow.trans (h'.mono fun _ _ => trivial)) hall).2
  obtain ⟨rows, heq, hrows⟩ := (Logs.parts hrow h' hlast).1
  have hone : [row] = rows := (List.append_left_inj csv').mp heq
  subst hone
  exact hrows row (List.mem_singleton_self row) hreset

end Root

end PqcContiki
