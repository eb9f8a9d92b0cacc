import PqcContiki.MeteredSessions

/-! How the handlers of the root move the meters of its sessions. -/
namespace PqcContiki

open Relation Runs

namespace Root

variable {P : Platform} {clk : Clock} {rnd : Entropy} {r r' r'' r₀ r₁ r₂ : Root}
  {i j : Fin sessionMaxNodes} {nodeId : UInt16} {csv csv' rows : List CsvRow} {row : CsvRow}
  {s s' s'' : Session} {past : List Root} {m : Meter} {snapshot : ImpactSnapshot}
  {snapshots : List ImpactSnapshot} {now : ℕ} {success : Bool} {sender : IpAddr} {d : Bytes}

/-- The offset at which the handler of an event accepts a TEMP packet of session `i`. -/
def hears (P : Platform) (r : Root) (i : Fin sessionMaxNodes) : Event → Option ℕ
  | .receive _ _ _ data =>
    if r.sessionManagerFind (pqcHeaderGetNodeId data) = some i then
      acceptedOffset P (r.sessions i) data
    else none
  | _ => none

/-- What a request for the key takes off the `rx_counter` of session `i`. -/
def clears (r : Root) (i : Fin sessionMaxNodes) : Event → UInt32
  | .receive _ _ _ data =>
    if pqcHeaderValid data = true ∧ byteAt data pqcHdrMsgType = pqcMsgGetpk ∧
        r.sessionManagerFind (pqcHeaderGetNodeId data) = some i then
      (r.sessions i).rxCounter
    else 0
  | _ => 0

theorem dispatch_temp (hkind : byteAt d pqcHdrMsgType = pqcMsgTemp) :
    r.dispatch P clk rnd i sender d =
      (r.mapSession i (Session.sessionSetPeerAddr sender)).handleTemp P i d := by
  have hgetpk : byteAt d pqcHdrMsgType ≠ pqcMsgGetpk := by
    rw [hkind]
    decide
  have hct : byteAt d pqcHdrMsgType ≠ pqcMsgCt := by
    rw [hkind]
    decide
  unfold dispatch noteCtStart
  simp only [if_neg hgetpk, hct, false_and, if_false, if_pos hkind]

theorem unmoved_handleHandshake (dst : UdpSendCtx) (j : Fin sessionMaxNodes) :
    Unmoved (r.sessions j) ((r.handleHandshake P clk rnd i dst d).sessions j) := by
  have hb : Booked (r.sessions i) _ :=
    Fsm.booked_hsFsmHandleFragment P (.sessions i) clk rnd dst d (r.fsm i)
  unfold handleHandshake
  dsimp only
  have hput : Unmoved (r.sessions j) ((r.putFsm i ((r.fsm i).hsFsmHandleFragment P (.sessions i) clk
      rnd dst d).2).sessions j) := by
    by_cases hj : j = i
    · subst hj
      rw [putFsm_sessions, Function.update_self]
      exact Booked.unmoved hb
    · rw [putFsm_sessions, Function.update_of_ne hj]
      exact Unmoved.refl _
  generalize r.putFsm i _ = r₁ at hput ⊢
  split
  · refine hput.trans ?_
    have hsummary := (summaryIfReady_session i j ((r₁.csvHsSummary (r₁.sessions i)
      .hsSuccess).impactEnd P (clk 24) (r₁.sessions i).nodeId true)).2
    rw [impactEnd_sessions] at hsummary
    exact hsummary
  · exact hput

theorem unmoved_handleMetrics (j : Fin sessionMaxNodes) :
    Unmoved (r.sessions j) ((r.handleMetrics i d).sessions j) := by
  unfold handleMetrics
  dsimp only
  cases metricsReport d with
  | none => exact Unmoved.refl _
  | some report =>
    exact (storeNodeMetrics_session _ report j r).2.trans (summaryIfReady_session i j _).2

theorem unmoved_setPeer (j : Fin sessionMaxNodes) :
    Unmoved (r.sessions j) ((r.mapSession i (Session.sessionSetPeerAddr sender)).sessions j) :=
  Quiet.unmoved ((calm_setPeer i sender r).sessions j).quiet

/-- What a packet of session `i` does to the counters of session `j`. -/
theorem moves_dispatch (clk : Clock) (rnd : Entropy) (sender : IpAddr) (hsound : Sound r)
    (hrested : Rested r) (hs : Serves i (pqcHeaderGetNodeId d) r) (j : Fin sessionMaxNodes) :
    Moves (r.sessions j) ((r.dispatch P clk rnd i sender d).sessions j)
      (if j = i then acceptedOffset P (r.sessions i) d else none)
      (if j = i ∧ byteAt d pqcHdrMsgType = pqcMsgGetpk then (r.sessions i).rxCounter else 0) := by
  by_cases hgetpk : byteAt d pqcHdrMsgType = pqcMsgGetpk
  · obtain ⟨r₁, hr, hstart⟩ := dispatch_getpk (P := P) clk rnd hsound hs hgetpk
      sender
    obtain ⟨ok, r₂, hh, ho, hend⟩ := hr.launched (P := P) hs clk rnd ⟨some udpConn, some sender⟩
    have hsessions : (if ok = true then r₂ else r₂.impactEnd P (clk 21) (pqcHeaderGetNodeId d)
        false).sessions = r₂.sessions := by
      split
      · rfl
      · exact impactEnd_sessions ..
    rw [hstart, hend, hsessions]
    by_cases hj : j = i
    · subst hj
      rw [if_pos rfl, if_pos ⟨rfl, hgetpk⟩, acceptedOffset_of_kind (by rw [hgetpk]; decide)]
      exact (opened_session hr hrested hs.used rfl ho).1
    · rw [if_neg hj, if_neg (fun h => hj h.1), hh.others j hj, impactStart_sessions,
        hr.others j hj]
      exact (Unmoved.refl _).moves
  · have hkeeps : (if j = i ∧ byteAt d pqcHdrMsgType = pqcMsgGetpk then
        (r.sessions i).rxCounter else 0) = 0 := if_neg fun h => hgetpk h.2
    rw [hkeeps]
    by_cases htemp : byteAt d pqcHdrMsgType = pqcMsgTemp
    · rw [dispatch_temp htemp, handleTemp_sessions]
      by_cases hj : j = i
      · subst hj
        rw [if_pos rfl, Function.update_self, mapSession_self]
        have hmoves := moves_pqcHandleEncryptedTemp P d ⟨0, 0, 0⟩
          ((r.sessions j).sessionSetPeerAddr sender)
        exact ⟨hmoves.ok, hmoves.rx⟩
      · rw [if_neg hj, Function.update_of_ne hj]
        exact (unmoved_setPeer j).moves
    · have hnone : (if j = i then acceptedOffset P (r.sessions i) d else none) = none := by
        rw [acceptedOffset_of_kind htemp, ite_self]
      rw [hnone]
      obtain ⟨r₁, hcalm, -, heq⟩ := dispatch_cases (P := P) clk rnd hsound hs
        hgetpk sender
      have hfirst := Quiet.unmoved (hcalm.sessions j).quiet
      rw [heq, if_neg htemp]
      refine Unmoved.moves ?_
      split
      · exact hfirst.trans (unmoved_handleMetrics j)
      · exact hfirst.trans (unmoved_handleHandshake _ j)

theorem unmoved_gaveUp (hg : GaveUp P i nodeId r r') (hrested : Rested r)
    (j : Fin sessionMaxNodes) : Unmoved (r.sessions j) (r'.sessions j) := by
  obtain @⟨r₁, now, v0, v1, hs, hh, -, hb⟩ := hg
  rw [dropAndReset_sessions, csvEvent_sessions, impactEnd_sessions, csvHsSummary_sessions]
  by_cases hj : j = i
  · subst hj
    rw [Function.update_self]
    have hstate : (r.sessions j).state ≠ .established := by
      rcases hb with ⟨hfrom, -⟩ | ⟨hfrom, -⟩ <;> simp [hfrom]
    have hok : (r₁.sessions j).metrics.temp.tempRxOk = (r.sessions j).metrics.temp.tempRxOk := by
      rcases hb with ⟨-, hbooks⟩ | ⟨-, hbooks⟩
      · exact congrArg (fun b => b.temp.tempRxOk) hbooks
      · exact congrArg (fun b => b.temp.tempRxOk) hbooks
    exact ⟨hok, (hrested j hs.used hstate).symm⟩
  · rw [Function.update_of_ne hj, hh.others j hj]
    exact Unmoved.refl _

theorem unmoved_retrySession (clk : Clock) (hsound : Sound r) (hrested : Rested r)
    (i j : Fin sessionMaxNodes) :
    Unmoved (r.sessions j) ((r.retrySession P clk i).sessions j) := by
  rcases retrySession_cases (P := P) clk hsound i with hcalm | hgave
  · exact Quiet.unmoved (hcalm.sessions j).quiet
  · exact unmoved_gaveUp hgave hrested j

theorem unmoved_retryTick (hsound : Sound r) (hrested : Rested r)
    (clk : Fin sessionMaxNodes → Clock) (j : Fin sessionMaxNodes) :
    Unmoved (r.sessions j) ((r.retryTick P clk).sessions j) := by
  unfold retryTick
  induction List.finRange sessionMaxNodes generalizing r with
  | nil => exact Unmoved.refl _
  | cons i is ih =>
    refine (unmoved_retrySession (clk i) hsound hrested i j).trans (ih ?_ ?_)
    · exact sound_acts hsound (retrySession_acts (clk i) 0 i r)
    · exact rested_work (retrySession_work (clk i) hsound i) hrested

/-- What a handler does to the counters of a session. -/
theorem moves_handle (hsound : Sound r) (hrested : Rested r) (e : Event)
    (hused : (r.sessions j).used = true) :
    Moves (r.sessions j) ((r.handle P e).sessions j) (r.hears P j e) (r.clears j e) := by
  cases e with
  | retry clk => exact (unmoved_retryTick hsound hrested clk j).moves
  | transmit => exact (Unmoved.refl _).moves
  | receive clk rnd sender data =>
    simp only [handle, hears, clears]
    rcases udpRxCallback_cases (P := P) clk rnd hsound sender data with
      ⟨hcalm, hnone⟩ | ⟨i, r₀, hvalid, hcreate, hfound, heq⟩
    · have hinvalid : r.sessionManagerFind (pqcHeaderGetNodeId data) = some j →
          pqcHeaderValid data = false := by
        intro hfind
        by_contra hvalid
        have hcreate := hnone (by simpa using hvalid)
        rw [sessionManagerGetOrCreate, hfind] at hcreate
        cases hcreate
      have hhears : (if r.sessionManagerFind (pqcHeaderGetNodeId data) = some j then
          acceptedOffset P (r.sessions j) data else none) = none := by
        split
        · rename_i hfind
          exact if_neg fun hadm => absurd hadm.2.1 (by simp [hinvalid hfind])
        · rfl
      have hclears : (if pqcHeaderValid data = true ∧ byteAt data pqcHdrMsgType = pqcMsgGetpk ∧
          r.sessionManagerFind (pqcHeaderGetNodeId data) = some j then (r.sessions j).rxCounter
          else 0) = 0 := by
        refine if_neg ?_
        rintro ⟨hvalid, -, hfind⟩
        rw [hinvalid hfind] at hvalid
        cases hvalid
      rw [hhears, hclears]
      exact (Quiet.unmoved (hcalm.sessions j).quiet).moves
    · have hfind : r.sessionManagerFind (pqcHeaderGetNodeId data) = some j ↔ j = i := by
        unfold sessionManagerGetOrCreate at hcreate
        cases hfind : r.sessionManagerFind (pqcHeaderGetNodeId data) with
        | some k =>
          simp only [hfind, Prod.mk.injEq, Option.some.injEq] at hcreate ⊢
          rw [hcreate.1]
          exact eq_comm
        | none =>
          refine iff_of_false (fun h => by cases h) ?_
          rintro rfl
          rcases hfound.how with rfl | ⟨hfree, -, -⟩
          · exact find_none hfind hfound.serves.used hfound.serves.nodeId
          · rw [hfree] at hused
            cases hused
      have hsame : r₀.sessions j = r.sessions j := by
        rcases hfound.how with rfl | ⟨hfree, -, rfl⟩
        · rfl
        · have hj : j ≠ i := by
            rintro rfl
            rw [hfree] at hused
            cases hused
          rw [setSession_sessions, Function.update_of_ne hj]
      have hrested₀ : Rested r₀ := rested_turns (P := P) hfound.turns hrested
      have hmoves := moves_dispatch (P := P) clk rnd sender
        hfound.sound hrested₀ hfound.serves j
      rw [heq]
      simp only [hfind, hvalid, true_and]
      rw [hsame] at hmoves
      by_cases hj : j = i
      · subst hj
        simpa [hsame] using hmoves
      · simpa [hj] using hmoves

end Root

end PqcContiki
