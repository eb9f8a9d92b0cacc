import PqcContiki.ImpactWindowTurns

/-! What a handler of the root does to the window and to the sessions it watches. -/
namespace PqcContiki

open Relation Runs

namespace Root

variable {P : Platform} {clk : Clock} {rnd : Entropy} {r r' r'' r₀ r₁ : Root}
  {i j : Fin sessionMaxNodes} {nodeId : UInt16} {csv csv' : List CsvRow} {now : ℕ} {success : Bool}
  {past : List Root}

/-- The snapshot of a session that is established. -/
def Watches (r : Root) (target : UInt16) (snapshot : ImpactSnapshot) (j : Fin sessionMaxNodes) :
    Prop :=
  (r.sessions j).used = true ∧ (r.sessions j).state = .established ∧
    (r.sessions j).nodeId ≠ target ∧ snapshot = (r.sessions j).snapshot

/-- What a handler does to the window: nothing, close it, or open it on the sessions that are
established and that it leaves alone. -/
inductive WindowMove (r r' : Root) : Prop
  | kept (h : r'.impactWindow = r.impactWindow)
  | closed (h : r'.impactWindow = ImpactWindow.zero)
  | opened (hclosed : r.impactWindow.active = false) (hactive : r'.impactWindow.active = true)
      (hwatched : ∀ snapshot ∈ r'.impactWindow.snapshots, ∃ j,
        Watches r r'.impactWindow.targetNodeId snapshot j ∧ r'.sessions j = r.sessions j)

theorem impactEnd_window (P : Platform) (now : ℕ) (nodeId : UInt16) (success : Bool) (r : Root) :
    (r.impactEnd P now nodeId success).impactWindow = r.impactWindow ∨
      (r.impactEnd P now nodeId success).impactWindow = ImpactWindow.zero := by
  by_cases hopen : r.impactWindow.active = true ∧ r.impactWindow.targetNodeId = nodeId
  · exact Or.inr (impactEnd_closes _ _ _ hopen.1 hopen.2).1
  · rw [impactEnd_idle hopen]
    exact Or.inl rfl

/-- No work opens a window. -/
theorem work_window (h : Work P r r') :
    r'.impactWindow = r.impactWindow ∨ r'.impactWindow = ImpactWindow.zero := by
  cases h with
  | calm hcalm => exact Or.inl hcalm.window
  | heardTemp i nodeId data _ => exact Or.inl (handleTemp_window P i data r)
  | reported i nodeId report _ => exact Or.inl (csvSessionSummaryIfReady_window i _)
  | failed i nodeId _ hh => exact Or.inl hh.window
  | @succeeded r₁ i nodeId now _ hh =>
    rw [csvSessionSummaryIfReady_window, ← hh.window]
    exact impactEnd_window P now nodeId true (r₁.csvHsSummary (r₁.sessions i) .hsSuccess)
  | gaveUp i nodeId hgave =>
    obtain @⟨r₁, now, v0, v1, -, hh, -, -⟩ := hgave
    rw [← hh.window]
    exact impactEnd_window P now nodeId false (r₁.csvHsSummary (r₁.sessions i) .hsFail)

theorem works_window (h : Works P r r') :
    r'.impactWindow = r.impactWindow ∨ r'.impactWindow = ImpactWindow.zero := by
  induction h with
  | refl => exact Or.inl rfl
  | tail _ hlast ih =>
    rcases work_window hlast with hkept | hzero
    · rw [hkept]
      exact ih
    · exact Or.inr hzero

theorem windowMove_of_or
    (h : r'.impactWindow = r.impactWindow ∨ r'.impactWindow = ImpactWindow.zero) :
    WindowMove r r' := by
  rcases h with h | h
  · exact .kept h
  · exact .closed h

theorem Found.window (h : Found nodeId r i r₀) : r₀.impactWindow = r.impactWindow := by
  rcases h.how with rfl | ⟨-, -, rfl⟩ <;> rfl

theorem Found.others (h : Found nodeId r i r₀) (hj : j ≠ i) : r₀.sessions j = r.sessions j := by
  rcases h.how with rfl | ⟨-, -, rfl⟩
  · rfl
  · rw [setSession_sessions, Function.update_of_ne hj]

theorem windowMove_start {r₂ : Root} {ok : Bool} {now' : ℕ} (hsound : Sound r)
    (hfound : Found nodeId r i r₀) (hr : Reopened i r₀ r₁)
    (hh : Handed i (r₁.impactStart now nodeId) r₂) :
    WindowMove r (if ok = true then r₂ else r₂.impactEnd P now' nodeId false) := by
  rcases opened_window hr hh with ⟨hwindow, -⟩ | ⟨hclosed, hwindow⟩
  · rw [hfound.window] at hwindow
    cases ok with
    | true => exact .kept hwindow
    | false =>
      rcases impactEnd_window P now' nodeId false r₂ with hkept | hzero
      · exact .kept (hkept.trans hwindow)
      · exact .closed hzero
  · rw [hfound.window] at hclosed
    cases ok with
    | true =>
      refine .opened hclosed (by rw [if_pos rfl, hwindow]) ?_
      rw [if_pos rfl, hwindow]
      intro snapshot hmem
      obtain ⟨j, hj, rfl⟩ := List.mem_map.mp hmem
      obtain ⟨hused, hest, hne⟩ := mem_watched.mp hj
      have hji : j ≠ i := by
        rintro rfl
        rw [Session.sessionIsEstablished, hr.state] at hest
        cases hest
      have hsame : r₁.sessions j = r.sessions j := (hr.others j hji).trans (hfound.others hji)
      rw [hsame] at hused hest hne ⊢
      refine ⟨j, ⟨hused, ?_, hne, rfl⟩, ?_⟩
      · exact (sessionIsEstablished_iff (hsound.sessions j hused).2).mp hest
      · rw [hh.others j hji, impactStart_sessions, hsame]
    | false =>
      refine .closed ?_
      exact (impactEnd_closes _ _ _ (by rw [hwindow]) (by rw [hwindow])).1

theorem handle_window (hsound : Sound r) (e : Event) : WindowMove r (r.handle P e) := by
  cases e with
  | retry clk => exact windowMove_of_or (works_window (retryTick_works hsound clk))
  | transmit => exact .kept rfl
  | receive clk rnd sender data =>
    simp only [handle]
    rcases udpRxCallback_cases (P := P) clk rnd hsound sender data with
      ⟨hcalm, -⟩ | ⟨i, r₀, -, -, hfound, heq⟩
    · exact .kept hcalm.window
    · rw [heq]
      by_cases hkind : byteAt data pqcHdrMsgType = pqcMsgGetpk
      · obtain ⟨r₁, hr, hstart⟩ := dispatch_getpk (P := P) clk rnd hfound.sound
          hfound.serves hkind sender
        obtain ⟨ok, r₂, hh, -, hend⟩ := hr.launched (P := P) hfound.serves clk rnd
          ⟨some udpConn, some sender⟩
        rw [hstart, hend]
        exact windowMove_start hsound hfound hr hh
      · obtain ⟨r₁, hcalm, hwork⟩ := dispatch_work (P := P) clk rnd hfound.sound
          hfound.serves hkind sender
        refine windowMove_of_or ?_
        rw [← hfound.window, ← hcalm.window]
        exact work_window hwork

end Root

end PqcContiki
