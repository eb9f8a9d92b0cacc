import PqcContiki.Tallies

/-! The tally of every session of the root. -/
namespace PqcContiki

open Relation Runs

variable {P : Platform} {clk : Clock} {rnd : Entropy} {s s' s'' : Session} {loss loss' : ℕ}

namespace Root

variable {r r' r₀ r₁ : Root} {i j : Fin sessionMaxNodes} {nodeId : UInt16} {e : Event}

theorem settled_summary (i j : Fin sessionMaxNodes) (r : Root) :
    Settled (r.sessions j) ((r.csvSessionSummaryIfReady i).sessions j) := by
  rcases csvSessionSummaryIfReady_sessions i j r with h | ⟨-, h⟩
  · rw [h]
    exact Settled.refl _
  · rw [h]
    exact settled_of_same rfl rfl rfl rfl

theorem settled_setNodeMetrics (report : MetricsReport) (s : Session) :
    Settled s (setNodeMetrics report s) := by
  unfold setNodeMetrics
  split
  · exact Settled.refl s
  · exact settled_of_same rfl rfl rfl rfl

theorem settled_update {f : Fin sessionMaxNodes → Session} (h : Settled (f i) s)
    (j : Fin sessionMaxNodes) : Settled (f j) (Function.update f i s j) := by
  by_cases hj : j = i
  · subst hj
    simpa using h
  · simpa [Function.update_of_ne hj] using Settled.refl (f j)

theorem Handed.settled (h : Handed i r r') (hi : Settled (r.sessions i) (r'.sessions i))
    (j : Fin sessionMaxNodes) : Settled (r.sessions j) (r'.sessions j) := by
  by_cases hj : j = i
  · subst hj
    exact hi
  · exact h.others j hj ▸ Settled.refl (r.sessions j)

theorem settled_work (h : Work P r r') (j : Fin sessionMaxNodes) :
    Settled (r.sessions j) (r'.sessions j) := by
  cases h with
  | calm hcalm => exact (hcalm.sessions j).quiet.settled
  | heardTemp i nodeId data _ =>
    obtain ⟨temp, rxCounter, heq⟩ :=
      pqcHandleEncryptedTemp_session P data ⟨0, 0, 0⟩ (r.sessions i)
    rw [handleTemp_sessions]
    refine settled_update ?_ j
    rw [heq]
    exact settled_of_same rfl rfl rfl rfl
  | reported i nodeId report _ =>
    have hstored :=
      settled_update (f := r.sessions) (settled_setNodeMetrics report (r.sessions i)) j
    exact hstored.trans (settled_summary i j
      ((r.csvNodeMetrics nodeId report).sessionStoreNodeMetrics i report))
  | failed i nodeId _ hh hfrom hto hest hb =>
    exact hh.settled (Booked.failed (Or.inr (Or.inl hfrom)) hto hest hb).settled j
  | @succeeded r₁ i nodeId now _ hh hfrom hto hest hb =>
    have hj := hh.settled (Booked.succeeded (Or.inr (Or.inl hfrom)) hto hest hb).settled j
    have hsummary := settled_summary i j
      ((r₁.csvHsSummary (r₁.sessions i) .hsSuccess).impactEnd P now nodeId true)
    rw [impactEnd_sessions, csvHsSummary_sessions] at hsummary
    exact hj.trans hsummary
  | gaveUp i nodeId hgave =>
    obtain @⟨r₁, now, v0, v1, -, hh, hto, hb⟩ := hgave
    have hfailed : inProgress (r₁.sessions i) = 0 := inProgress_eq_zero (by simp [hto, Pursued])
    have hi : Settled (r.sessions i) (r₁.sessions i) := by
      rcases hb with ⟨hfrom, hb⟩ | ⟨hfrom, hb⟩
      · exact settled_of_same (hto.trans hfrom.symm) (by rw [hb]) (by rw [hb]) (by rw [hb])
      · refine ⟨0, 1, by rw [hb]; rfl, by rw [hb]; simp, by rw [hb]; rfl, ?_⟩
        rw [inProgress_eq_one (Or.inr (Or.inl hfrom)), hfailed]
    refine (hh.settled hi j).trans ?_
    have hsame : ((((r₁.csvHsSummary (r₁.sessions i) .hsFail).impactEnd P now nodeId
        false).csvEvent nodeId .hsFailReset v0 v1 0 0).dropAndReset i).sessions =
        Function.update r₁.sessions i (r₁.sessions i).sessionReset := by
      simp only [dropAndReset_sessions, csvEvent_sessions, impactEnd_sessions,
        csvHsSummary_sessions]
    rw [hsame]
    exact settled_update (settled_sessionReset hfailed) j

theorem settled_works (h : Works P r r') (j : Fin sessionMaxNodes) :
    Settled (r.sessions j) (r'.sessions j) := by
  induction h with
  | refl => exact Settled.refl _
  | tail _ hlast ih => exact ih.trans (settled_work hlast j)

/-- The handshakes of session `j` that an event loses: the one under way, if a GETPK restarts it,
and the new one, if there is no room to send the key. -/
def losses (P : Platform) (r : Root) (e : Event) (j : Fin sessionMaxNodes) : ℕ :=
  match e with
  | .receive _ rnd _ data =>
    let nodeId := pqcHeaderGetNodeId data
    let found := r.sessionManagerGetOrCreate nodeId
    if pqcHeaderValid data = true ∧ byteAt data pqcHdrMsgType = pqcMsgGetpk ∧
        found.1 = some j then
      let s := found.2.sessions j
      let tx := if s.state = .idle then found.2.tx else (found.2.tx.pqcTxDropNode nodeId).2
      inProgress s + if Fsm.Refuses P rnd ((found.2.fsm j).setTx tx) then 1 else 0
    else 0
  | .retry _ | .transmit => 0

theorem refuses_congr {f g : Fsm} (hhs : f.hs = g.hs) (htx : f.tx = g.tx) :
    f.Refuses P rnd ↔ g.Refuses P rnd := by
  rw [Fsm.Refuses, Fsm.Refuses, Fsm.txHasRoomFor, Fsm.txHasRoomFor, hhs, htx]

/-- A handshake that begins loses the one it restarts, and itself if there is no room. -/
theorem begins_start {ok : Bool} (hr : Reopened i r r₁)
    (ho : Fsm.Opened P rnd (r₁.fsm i) ok s) :
    ∃ missed, Begins (inProgress (r.sessions i) + if (r₁.fsm i).Refuses P rnd then 1 else 0)
      (r.sessions i) s missed := by
  have hbooks : (r₁.sessions i).books.attempts = (r.sessions i).books.attempts ∧
      (r₁.sessions i).books.success = (r.sessions i).books.success ∧
      (r₁.sessions i).books.failure = (r.sessions i).books.failure := by
    rcases hr.how with ⟨-, hb, -⟩ | ⟨-, hb, -⟩
    · simp [hb]
    · rw [hb]
      exact ⟨rfl, rfl, rfl⟩
  obtain ⟨hattempts, hsuccess, hfailure⟩ := hbooks
  cases ho with
  | sent _ hroom hto _ hb =>
    refine ⟨0, ?_⟩
    rw [if_neg hroom]
    refine ⟨?_, ?_, ?_, ?_, ?_⟩
    · rw [hb, ← hattempts]
      rfl
    · rw [hb, ← hsuccess]
      rfl
    · rw [hb, ← hfailure]
      simp
    · rw [inProgress_eq_one (Or.inr (Or.inl hto))]
      omega
    · rw [inProgress_eq_one (Or.inr (Or.inl hto))]
  | failed _ hroom hto _ hb =>
    have hfailed : inProgress s = 0 := inProgress_eq_zero (by simp [hto, Pursued])
    refine ⟨1, ?_⟩
    rw [if_neg hroom]
    refine ⟨?_, ?_, ?_, ?_, ?_⟩
    · rw [hb, ← hattempts]
      rfl
    · rw [hb, ← hsuccess]
      rfl
    · rw [hb, ← hfailure]
      rfl
    · rw [hfailed]
      omega
    · rw [hfailed]
  | refused _ hroom hto _ hb =>
    have hidle : inProgress s = 0 := by
      refine inProgress_eq_zero ?_
      rw [hto, fsm_s, hr.state]
      simp [Pursued]
    refine ⟨0, ?_⟩
    rw [if_pos hroom]
    refine ⟨?_, ?_, ?_, ?_, ?_⟩
    · rw [hb, ← hattempts]
      rfl
    · rw [hb, ← hsuccess]
      rfl
    · rw [hb, ← hfailure]
      simp
    · rw [hidle]
      omega
    · rw [hidle]
      omega

/-- A session that nothing has been counted for. -/
structure Blank (s : Session) : Prop where
  attempts : s.books.attempts = 0
  success : s.books.success = 0
  failure : s.books.failure = 0
  idle : inProgress s = 0

theorem Blank.settled (h : Blank s) (h' : Blank s') : Settled s s' :=
  ⟨0, 0, by rw [h.attempts, h'.attempts], by rw [h.success, h'.success]; rfl,
    by rw [h.failure, h'.failure]; rfl, by rw [h.idle, h'.idle]⟩

theorem Blank.of_settled (h : Blank s) (hs : Settled s s') : Blank s' := by
  obtain ⟨k, l, hs⟩ := hs
  have hunder := hs.under
  have hidle := h.idle
  have hk : k = 0 := by omega
  have hl : l = 0 := by omega
  subst hk hl
  refine ⟨hs.attempts.trans h.attempts, ?_, ?_, by omega⟩
  · rw [hs.success, h.success]
    rfl
  · rw [hs.failure, h.failure]
    rfl

theorem blank_sessionInit (nodeId : UInt16) : Blank (Session.sessionInit .root nodeId) :=
  ⟨rfl, rfl, rfl, inProgress_eq_zero (by simp [Pursued])⟩

/-- A session that was found is the one that was there, or blank like it. -/
theorem Found.settled (h : Found nodeId r i r₀)
    (hblank : ∀ j, (r.sessions j).used = false → Blank (r.sessions j))
    (j : Fin sessionMaxNodes) : Settled (r.sessions j) (r₀.sessions j) := by
  rcases h.how with rfl | ⟨hfree, -, rfl⟩
  · exact Settled.refl _
  · exact settled_update ((hblank i hfree).settled (blank_sessionInit nodeId)) j

/-- Every handler settles what was under way or begins a handshake, and loses what it loses. -/
theorem handle_entry (hsound : Sound r)
    (hblank : ∀ j, (r.sessions j).used = false → Blank (r.sessions j)) (e : Event)
    (j : Fin sessionMaxNodes) :
    (losses P r e j = 0 ∧ Settled (r.sessions j) ((r.handle P e).sessions j)) ∨
      (((r.handle P e).sessions j).used = true ∧ ∃ missed,
        Begins (losses P r e j) (r.sessions j) ((r.handle P e).sessions j) missed) := by
  cases e with
  | retry clk => exact Or.inl ⟨rfl, settled_works (retryTick_works hsound clk) j⟩
  | transmit => exact Or.inl ⟨rfl, Settled.refl _⟩
  | receive clk rnd sender data =>
    simp only [handle]
    rcases udpRxCallback_cases (P := P) clk rnd hsound sender data with
      ⟨hcalm, hnone⟩ | ⟨i, r₀, hvalid, hget, hfound, heq⟩
    · refine Or.inl ⟨?_, (hcalm.sessions j).quiet.settled⟩
      refine if_neg ?_
      rintro ⟨hvalid, -, hsome⟩
      rw [hnone hvalid] at hsome
      cases hsome
    · have hpre := hfound.settled hblank
      by_cases hkind : byteAt data pqcHdrMsgType = pqcMsgGetpk
      · obtain ⟨r₁, hr, hstart⟩ := dispatch_getpk (P := P) clk rnd hfound.sound
          hfound.serves hkind sender
        obtain ⟨ok, r₂, hh, ho, hend⟩ := hr.launched (P := P) hfound.serves clk rnd
          ⟨some udpConn, some sender⟩
        have hsessions : (r.udpRxCallback P clk rnd sender data).sessions = r₂.sessions := by
          rw [heq, hstart, hend]
          split
          · rfl
          · exact impactEnd_sessions ..
        rw [hsessions]
        by_cases hj : j = i
        · subst hj
          have hloss : losses P r (.receive clk rnd sender data) j =
              inProgress (r₀.sessions j) + if (r₁.fsm j).Refuses P rnd then 1 else 0 := by
            have hsame : ((r₀.fsm j).setTx (if (r₀.sessions j).state = .idle then r₀.tx
                else (r₀.tx.pqcTxDropNode (pqcHeaderGetNodeId data)).2)).Refuses P rnd ↔
                (r₁.fsm j).Refuses P rnd := by
              refine refuses_congr hr.hs.symm ?_
              rcases hr.how with ⟨hidle, -, htx, -⟩ | ⟨hidle, -, htx, -⟩
              · simp only [Fsm.setTx, if_pos hidle, fsm_tx, htx]
              · simp only [Fsm.setTx, if_neg hidle, fsm_tx, htx, hfound.serves.nodeId]
            simp only [losses, hget, hvalid, hkind, and_self, if_true, hsame]
          rw [hloss]
          refine Or.inr ⟨?_, ?_⟩
          · have hidentity := hh.identity
            rw [impactStart_sessions] at hidentity
            exact (congrArg Prod.fst hidentity).trans hr.serves.used
          · obtain ⟨missed, hbegins⟩ := begins_start hr ho
            refine ⟨missed, ?_⟩
            rcases hfound.how with rfl | ⟨hfree, -, -⟩
            · exact hbegins
            · exact (hpre j).begins (hblank j hfree).idle hbegins
        · refine Or.inl ⟨?_, ?_⟩
          · refine if_neg ?_
            rintro ⟨-, -, hsome⟩
            rw [hget] at hsome
            exact hj (Option.some.inj hsome).symm
          · rw [hh.others j hj, impactStart_sessions, hr.others j hj]
            exact hpre j
      · refine Or.inl ⟨if_neg fun h => hkind h.2.1, (hpre j).trans ?_⟩
        obtain ⟨r₁, hcalm, hwork⟩ := dispatch_work (P := P) clk rnd hfound.sound
          hfound.serves hkind sender
        rw [heq]
        exact (hcalm.sessions j).quiet.settled.trans (settled_work hwork j)

/-- The root, with a tally for each of its sessions kept beside it. -/
abbrev LedgerRun (P : Platform) : List (Root × (Fin sessionMaxNodes → Tally)) →
    Root × (Fin sessionMaxNodes → Tally) → Prop :=
  Run (fun w => (∃ rnd, w.1 = boot P rnd) ∧ w.2 = fun _ => Tally.zero)
    fun w e w' => w'.1 = w.1.handle P e ∧ w'.2 = fun j =>
      (w.2 j).next (losses P w.1 e j) (w.1.sessions j).books ((w.1.handle P e).sessions j).books

/-- What the books of every session keep to. -/
structure InOrder (r : Root) (tallies : Fin sessionMaxNodes → Tally) : Prop where
  sound : Sound r
  blank : ∀ j, (r.sessions j).used = false → Blank (r.sessions j)
  accounts : ∀ j, Accounts (r.sessions j) (tallies j)

theorem inOrder_boot (P : Platform) (rnd : Entropy) : InOrder (boot P rnd) fun _ => Tally.zero := by
  have hsessions : (boot P rnd).sessions = fun _ => Session.zero := by
    unfold boot
    dsimp only
    split <;> rfl
  have hblank : Blank Session.zero := ⟨rfl, rfl, rfl, inProgress_eq_zero (by simp [Pursued])⟩
  refine ⟨sound_boot P rnd, ?_, ?_⟩
  · intro j _
    rw [hsessions]
    exact hblank
  · intro j
    rw [hsessions]
    exact accounts_of_zero hblank.idle rfl rfl rfl

theorem InOrder.handle {tallies : Fin sessionMaxNodes → Tally} (h : InOrder r tallies)
    (hkeeps : Keeps r (r.handle P e)) :
    InOrder (r.handle P e) fun j => (tallies j).next (losses P r e j) (r.sessions j).books
      ((r.handle P e).sessions j).books where
  sound := sound_handle h.sound e
  blank j hfree := by
    have hfree₀ : (r.sessions j).used = false := by
      rw [← Bool.not_eq_true]
      intro hused
      rw [(hkeeps j hused).1] at hfree
      cases hfree
    rcases handle_entry h.sound h.blank e j with ⟨-, hsettled⟩ | ⟨hused, -⟩
    · exact (h.blank j hfree₀).of_settled hsettled
    · rw [hused] at hfree
      cases hfree
  accounts j := by
    rcases handle_entry h.sound h.blank e j with ⟨hloss, k, l, hsettles⟩ | ⟨-, l, hbegins⟩
    · rw [hloss]
      exact hsettles.accounts (h.accounts j)
    · exact hbegins.accounts (h.accounts j)

theorem LedgerRun.inOrder {past : List (Root × (Fin sessionMaxNodes → Tally))}
    {w : Root × (Fin sessionMaxNodes → Tally)} (h : LedgerRun P past w) : InOrder w.1 w.2 := by
  apply h.invariant (I := fun _ w => InOrder w.1 w.2)
  · rintro ⟨r, tallies⟩ ⟨⟨rnd, rfl⟩, rfl⟩
    exact inOrder_boot P rnd
  · rintro past ⟨r, tallies⟩ e ⟨r', tallies'⟩ - hin ⟨rfl, rfl⟩
    exact hin.handle (keeps_handle hin.sound e)

/-- Every run of the root can be told with its tallies. -/
theorem Reaches.ledger {past : List Root} (h : Reaches P past r) :
    ∃ past' tallies, LedgerRun P past' (r, tallies) := by
  induction h with
  | start hi => exact ⟨[], _, .start ⟨hi, rfl⟩⟩
  | next _ hstep ih =>
    obtain ⟨past', tallies, hrun⟩ := ih
    exact ⟨_, _, .next hrun ⟨hstep, rfl⟩⟩

end Root

end PqcContiki
