import PqcContiki.RootRestarts

/-! The rows that the root prints at the end of a handshake and of its reports. -/
namespace PqcContiki

open Relation

namespace Root

variable {P : Platform} {clk : Clock} {rnd : Entropy} {r r' r'' r₁ : Root}
  {i j : Fin sessionMaxNodes} {nodeId : UInt16} {dst : UdpSendCtx} {sender : IpAddr} {d : Bytes}

@[simp] theorem csvHsSummary_sessions (s : Session) (event : CsvEvent) (r : Root) :
    (r.csvHsSummary s event).sessions = r.sessions := rfl

@[simp] theorem impactStart_sessions (now : ℕ) (target : UInt16) (r : Root) :
    (r.impactStart now target).sessions = r.sessions := by
  unfold impactStart
  dsimp only
  split <;> rfl

@[simp] theorem impactReport_sessions (target : UInt16) (snapshot : ImpactSnapshot) (r : Root) :
    (r.impactReport target snapshot).sessions = r.sessions := by
  unfold impactReport
  split <;> rfl

@[simp] theorem impactReports_sessions (target : UInt16) (snapshots : List ImpactSnapshot)
    (r : Root) : (snapshots.foldl (impactReport target) r).sessions = r.sessions := by
  induction snapshots generalizing r with
  | nil => rfl
  | cons snapshot snapshots ih => exact (ih _).trans (impactReport_sessions ..)

@[simp] theorem impactEnd_sessions (P : Platform) (now : ℕ) (target : UInt16) (success : Bool)
    (r : Root) : (r.impactEnd P now target success).sessions = r.sessions := by
  unfold impactEnd
  dsimp only
  split
  · rfl
  · exact impactReports_sessions ..

theorem csvHsSummary_logs (s : Session) (event : CsvEvent) (r : Root) :
    Logs (CsvRow.Among [event, .hsPk, .hsCt, .hsCrypto]) r.csv (r.csvHsSummary s event).csv := by
  refine ⟨[_, _, _, _], rfl, ?_⟩
  simp [CsvRow.Among]

theorem impactReports_logs (target : UInt16) (snapshots : List ImpactSnapshot) (r : Root) :
    Logs (CsvRow.Among [.impactNodeLost, .impactTemp, .impactResync]) r.csv
      (snapshots.foldl (impactReport target) r).csv := by
  induction snapshots generalizing r with
  | nil => exact Logs.refl _
  | cons snapshot snapshots ih =>
    have hone : Logs (CsvRow.Among [.impactNodeLost, .impactTemp, .impactResync]) r.csv
        (r.impactReport target snapshot).csv := by
      unfold impactReport
      split
      · exact Logs.row (by simp [CsvRow.Among])
      · exact (Logs.row (by simp [CsvRow.Among])).trans (Logs.row (by simp [CsvRow.Among]))
    exact hone.trans (ih _)

theorem impactEnd_idle {now : ℕ} {target : UInt16} {success : Bool}
    (h : ¬ (r.impactWindow.active = true ∧ r.impactWindow.targetNodeId = target)) :
    r.impactEnd P now target success = r := by
  unfold impactEnd
  dsimp only
  rw [if_pos]
  rw [not_and_or] at h
  simpa using h

/-- What the end of a window prints, and that it closes the window. -/
theorem impactEnd_closes {target : UInt16} (P : Platform) (now : ℕ) (success : Bool)
    (hactive : r.impactWindow.active = true) (htarget : r.impactWindow.targetNodeId = target) :
    (r.impactEnd P now target success).impactWindow = ImpactWindow.zero ∧
      (r.impactEnd P now target success).csv =
        .event target .impactEnd (UInt32.ofNat (P.clockSub now r.impactWindow.startedAt.toNat))
            (UInt32.ofNat r.impactWindow.snapshots.length) (if success then 1 else 0) 0 1 ::
          (r.impactWindow.snapshots.foldl (impactReport target) r).csv := by
  unfold impactEnd
  simp [hactive, htarget, csvEventUnits]

theorem impactEnd_logs (P : Platform) (now : ℕ) (target : UInt16) (success : Bool) (r : Root) :
    Logs (CsvRow.Among [.impactNodeLost, .impactTemp, .impactResync, .impactEnd]) r.csv
      (r.impactEnd P now target success).csv := by
  by_cases h : r.impactWindow.active = true ∧ r.impactWindow.targetNodeId = target
  · rw [(impactEnd_closes _ _ _ h.1 h.2).2]
    refine ((impactReports_logs target _ r).mono ?_).trans (Logs.row (by simp [CsvRow.Among]))
    rintro (⟨id, kind⟩ | _) hrow
    · simp only [CsvRow.Among, List.mem_cons, List.not_mem_nil, or_false] at hrow ⊢
      tauto
    · exact hrow.elim
  · rw [impactEnd_idle h]
    exact Logs.refl _

theorem impactStart_active {now : ℕ} {target : UInt16} (h : r.impactWindow.active = true) :
    r.impactStart now target = r.csvEvent r.impactWindow.targetNodeId .impactOverlap
      target.toUInt32 (UInt32.ofNat r.impactWindow.snapshots.length) 0 0 := by
  unfold impactStart
  simp only [h, if_true]

theorem impactStart_logs (now : ℕ) (target : UInt16) (r : Root) :
    Logs (CsvRow.Among [.impactOverlap, .impactStart]) r.csv (r.impactStart now target).csv := by
  unfold impactStart
  dsimp only
  split
  · exact Logs.row (by simp [CsvRow.Among])
  · exact Logs.row (by simp [CsvRow.Among])

theorem handleTemp_window (P : Platform) (i : Fin sessionMaxNodes) (d : Bytes) (r : Root) :
    (r.handleTemp P i d).impactWindow = r.impactWindow := by
  unfold handleTemp
  dsimp only
  split <;> rfl

theorem handleTemp_plainly (P : Platform) (i : Fin sessionMaxNodes) (d : Bytes) (r : Root) :
    Plainly r.csv (r.handleTemp P i d).csv := by
  unfold handleTemp
  dsimp only
  split
  · exact Logs.row trivial
  · exact Logs.row rfl

theorem dropAndReset_sessions (i : Fin sessionMaxNodes) (r : Root) :
    (r.dropAndReset i).sessions = Function.update r.sessions i (r.sessions i).sessionReset := rfl

/-- Everything is there for the summary of a session, and it has not been printed. -/
def SummaryDue (s : Session) : Prop :=
  s.sessionSummaryEmitted = false ∧ s.sessionIsEstablished = true ∧
    s.nodeMetricsMask &&& requiredMetricsMask = requiredMetricsMask

instance (s : Session) : Decidable (SummaryDue s) := inferInstanceAs (Decidable (_ ∧ _ ∧ _))

/-- The rows of a summary, newest first. -/
def summaryRows (s : Session) : List CsvRow :=
  haveI := neZero_metricsGroups
  let root := s.metrics
  let node := s.nodeMetricValues
  [.event s.nodeId .sessionTemp root.temp.tempRxOk root.temp.tempRxFail (node 6 0) (node 6 1) 0,
    .event s.nodeId .sessionFrag root.fragmentation.nackTx root.fragmentation.nackRx (node 5 2)
      (node 5 3) 0,
    .event s.nodeId .sessionCrypto root.handshake.keypairTicksLast (node 4 1)
      root.handshake.decapsTicksLast (node 4 3) 15,
    .event s.nodeId .sessionCt (node 3 0) root.handshake.ctRxTicksLast (node 3 2)
      root.handshake.ctRxComplete 3,
    .event s.nodeId .sessionPk root.handshake.pkTxTicksLast (node 2 1) root.handshake.pkTx
      (node 2 3) 3,
    .event s.nodeId .sessionHs root.handshake.handshakeTicksLast (node 1 0) root.resource.retries
      (node 7 0) 3]

def markSummary (s : Session) : Session := { s with sessionSummaryEmitted := true }

theorem csvSessionSummaryIfReady_due (h : SummaryDue (r.sessions i)) :
    r.csvSessionSummaryIfReady i =
      { r with
        sessions := Function.update r.sessions i (markSummary (r.sessions i))
        csv := summaryRows (r.sessions i) ++ r.csv } := by
  obtain ⟨hflag, hest, hmask⟩ := h
  simp only [csvSessionSummaryIfReady, hflag, hest, hmask, Bool.not_true, Bool.false_eq_true,
    or_self, if_false, ne_eq, not_true_eq_false]
  rfl

theorem csvSessionSummaryIfReady_not_due (h : ¬ SummaryDue (r.sessions i)) :
    r.csvSessionSummaryIfReady i = r := by
  unfold csvSessionSummaryIfReady
  dsimp only
  split
  · rfl
  · rename_i hready
    rw [if_pos]
    intro hmask
    simp only [Bool.not_eq_true', not_or, Bool.not_eq_true, Bool.not_eq_false] at hready
    exact h ⟨hready.1, hready.2, hmask⟩

/-- The summary changes nothing about a session but that it was printed. -/
theorem csvSessionSummaryIfReady_sessions (i j : Fin sessionMaxNodes) (r : Root) :
    (r.csvSessionSummaryIfReady i).sessions j = r.sessions j ∨
      (j = i ∧ (r.csvSessionSummaryIfReady i).sessions j = markSummary (r.sessions j)) := by
  by_cases hdue : SummaryDue (r.sessions i)
  · rw [csvSessionSummaryIfReady_due hdue]
    by_cases hj : j = i
    · subst hj
      exact Or.inr ⟨rfl, by simp⟩
    · exact Or.inl (by simp [hj])
  · rw [csvSessionSummaryIfReady_not_due hdue]
    exact Or.inl rfl

theorem csvSessionSummaryIfReady_window (i : Fin sessionMaxNodes) (r : Root) :
    (r.csvSessionSummaryIfReady i).impactWindow = r.impactWindow := by
  by_cases hdue : SummaryDue (r.sessions i)
  · rw [csvSessionSummaryIfReady_due hdue]
  · rw [csvSessionSummaryIfReady_not_due hdue]

theorem csvSessionSummaryIfReady_logs (i : Fin sessionMaxNodes) (r : Root) :
    Logs (CsvRow.Among [.sessionHs, .sessionPk, .sessionCt, .sessionCrypto, .sessionFrag,
      .sessionTemp]) r.csv (r.csvSessionSummaryIfReady i).csv := by
  by_cases hdue : SummaryDue (r.sessions i)
  · rw [csvSessionSummaryIfReady_due hdue]
    refine ⟨_, rfl, ?_⟩
    simp [summaryRows, CsvRow.Among]
  · rw [csvSessionSummaryIfReady_not_due hdue]
    exact Logs.refl _

/-- A TEMP packet changes the temperature counters and the receive counter at most. -/
theorem pqcHandleEncryptedTemp_session (P : Platform) (d : Bytes) (out : TempPayload)
    (s : Session) :
    ∃ temp rxCounter, (pqcHandleEncryptedTemp P d out s).2.2 =
      (s.setRxCounter rxCounter).countTemp fun _ => temp := by
  unfold pqcHandleEncryptedTemp
  split
  · exact ⟨_, s.rxCounter, rfl⟩
  · dsimp only
    split
    · exact ⟨_, _, rfl⟩
    · exact ⟨_, s.rxCounter, rfl⟩

theorem handleTemp_sessions (P : Platform) (i : Fin sessionMaxNodes) (d : Bytes) (r : Root) :
    (r.handleTemp P i d).sessions = Function.update r.sessions i
      (pqcHandleEncryptedTemp P d ⟨0, 0, 0⟩ (r.sessions i)).2.2 := by
  unfold handleTemp
  dsimp only
  split <;> rfl

end Root

end PqcContiki
