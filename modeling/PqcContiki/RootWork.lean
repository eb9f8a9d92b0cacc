import PqcContiki.RootRows

/-! The work of the root on one session, as the rows and the books see it. -/
namespace PqcContiki

open Relation

namespace Root

variable {P : Platform} {clk : Clock} {rnd : Entropy} {r r' r'' r₁ : Root}
  {i j : Fin sessionMaxNodes} {nodeId : UInt16} {dst : UdpSendCtx} {sender : IpAddr} {d : Bytes}

/-- Session `i` went through the handshake code; nothing else that a row is about changed. -/
structure Handed (i : Fin sessionMaxNodes) (r r' : Root) : Prop where
  others : ∀ j, j ≠ i → r'.sessions j = r.sessions j
  identity : (r'.sessions i).core.identity = (r.sessions i).core.identity
  window : r'.impactWindow = r.impactWindow
  csv : r'.csv = r.csv

theorem handed_putFsm {f : Fsm} (h : f.s.core.identity = (r.sessions i).core.identity) :
    Handed i r (r.putFsm i f) where
  others j hj := by simp [hj]
  identity := by simpa using h
  window := rfl
  csv := rfl

theorem Handed.calm (h : Handed i r r') (hq : Quiet (r.sessions i) (r'.sessions i)) :
    Calm r r' where
  sessions j := by
    by_cases hj : j = i
    · subst hj
      exact ⟨hq, h.identity⟩
    · rw [h.others j hj]
      exact Idle.refl _
  window := h.window
  rows := h.csv ▸ Logs.refl _

/-- The retry process found the handshake of session `i` failed, now or before. -/
inductive GaveUp (P : Platform) (i : Fin sessionMaxNodes) (nodeId : UInt16) (r : Root) : Root → Prop
  | intro {r₁ : Root} (now : ℕ) (v0 v1 : UInt32)
      (hs : Serves i nodeId r) (hh : Handed i r r₁) (hto : (r₁.sessions i).state = .failed)
      (hb : ((r.sessions i).state = .failed ∧
          (r₁.sessions i).books = (r.sessions i).books) ∨
        ((r.sessions i).state = .waitCt ∧
          (r₁.sessions i).books = (r.sessions i).books.fail)) :
      GaveUp P i nodeId r ((((r₁.csvHsSummary (r₁.sessions i) .hsFail).impactEnd P now nodeId
        false).csvEvent nodeId .hsFailReset v0 v1 0 0).dropAndReset i)

/-- What the rows and the books of the root see of its work on session `i`, other than the start
of a handshake. -/
inductive Work (P : Platform) (r : Root) : Root → Prop
  | calm {r' : Root} (hcalm : Calm r r') : Work P r r'
  | heardTemp (i : Fin sessionMaxNodes) (nodeId : UInt16) (data : Bytes)
      (hs : Serves i nodeId r) : Work P r (r.handleTemp P i data)
  | reported (i : Fin sessionMaxNodes) (nodeId : UInt16) (report : MetricsReport)
      (hs : Serves i nodeId r) :
      Work P r (((r.csvNodeMetrics nodeId report).sessionStoreNodeMetrics i
        report).csvSessionSummaryIfReady i)
  /-- The ciphertext was no good. -/
  | failed {r' : Root} (i : Fin sessionMaxNodes) (nodeId : UInt16) (hs : Serves i nodeId r)
      (hh : Handed i r r') (hfrom : (r.sessions i).state = .waitCt)
      (hto : (r'.sessions i).state = .failed) (hest : (r'.sessions i).established = false)
      (hb : (r'.sessions i).books = (r.sessions i).books.fail) : Work P r r'
  | succeeded {r₁ : Root} (i : Fin sessionMaxNodes) (nodeId : UInt16) (now : ℕ)
      (hs : Serves i nodeId r) (hh : Handed i r r₁) (hfrom : (r.sessions i).state = .waitCt)
      (hto : (r₁.sessions i).state = .established)
      (hest : (r₁.sessions i).established = true)
      (hb : (r₁.sessions i).books = (r.sessions i).books.succeed) :
      Work P r (((r₁.csvHsSummary (r₁.sessions i) .hsSuccess).impactEnd P now nodeId
        true).csvSessionSummaryIfReady i)
  | gaveUp {r' : Root} (i : Fin sessionMaxNodes) (nodeId : UInt16)
      (hg : GaveUp P i nodeId r r') : Work P r r'

/-- The handling of a packet or of a retry is a few of these. -/
inductive Turn (P : Platform) (r : Root) : Root → Prop
  | work {r' : Root} (hw : Work P r r') : Turn P r r'
  | create (i : Fin sessionMaxNodes) (nodeId : UInt16) (hfree : (r.sessions i).used = false)
      (hnew : r.sessionManagerFind nodeId = none) :
      Turn P r (r.setSession i (Session.sessionInit .root nodeId))
  /-- A handshake was begun, for better or worse. -/
  | opened {r₁ r₂ : Root} {rnd : Entropy} {ok : Bool} (i : Fin sessionMaxNodes)
      (nodeId : UInt16) (now now' : ℕ) (hs : Serves i nodeId r) (hr : Reopened i r r₁)
      (hh : Handed i (r₁.impactStart now nodeId) r₂)
      (ho : Fsm.Opened P rnd (r₁.fsm i) ok (r₂.sessions i)) :
      Turn P r (if ok = true then r₂ else r₂.impactEnd P now' nodeId false)

/-- No work changes what sessions there are, or whose they are. -/
theorem work_owners (h : Work P r r') : SameOwners r r' := by
  have hhanded {i : Fin sessionMaxNodes} {r₁ : Root} (hh : Handed i r r₁) : SameOwners r r₁ := by
    intro j
    by_cases hj : j = i
    · exact hj ▸ hh.identity
    · rw [hh.others j hj]
  have hsummary (i : Fin sessionMaxNodes) (r₁ : Root) :
      SameOwners r₁ (r₁.csvSessionSummaryIfReady i) := by
    intro j
    rcases csvSessionSummaryIfReady_sessions i j r₁ with hsame | ⟨-, hmarked⟩
    · rw [hsame]
    · rw [hmarked]
      rfl
  cases h with
  | calm hcalm => exact fun j => (hcalm.sessions j).identity
  | heardTemp i nodeId data _ =>
    intro j
    rw [handleTemp_sessions]
    by_cases hj : j = i
    · subst hj
      rw [Function.update_self, core_pqcHandleEncryptedTemp]
    · rw [Function.update_of_ne hj]
  | reported i nodeId report _ =>
    have hstored : SameOwners r ((r.csvNodeMetrics nodeId report).sessionStoreNodeMetrics i
        report) := by
      refine sameOwners_update ?_
      unfold setNodeMetrics
      split <;> rfl
    intro j
    exact (hsummary i _ j).trans (hstored j)
  | failed i nodeId _ hh => exact hhanded hh
  | @succeeded r₁ i nodeId now _ hh =>
    intro j
    refine (hsummary i _ j).trans ?_
    rw [impactEnd_sessions, csvHsSummary_sessions]
    exact hhanded hh j
  | gaveUp i nodeId hgave =>
    obtain @⟨r₁, now, v0, v1, hs, hh, -, -⟩ := hgave
    have hused : (r₁.sessions i).used = true := (congrArg Prod.fst hh.identity).trans hs.used
    intro j
    rw [dropAndReset_sessions, csvEvent_sessions, impactEnd_sessions, csvHsSummary_sessions]
    refine Eq.trans ?_ (hhanded hh j)
    by_cases hj : j = i
    · subst hj
      rw [Function.update_self, Session.core_sessionReset]
      simp only [SessionCore.identity, Session.core_used, hused]
      rfl
    · rw [Function.update_of_ne hj]

/-- A handshake that was begun on session `i` leaves every session with its owner. -/
theorem opened_owners {r₂ : Root} {now : ℕ} (hs : Serves i nodeId r) (hr : Reopened i r r₁)
    (hh : Handed i (r₁.impactStart now nodeId) r₂) : SameOwners r r₂ := by
  intro j
  by_cases hj : j = i
  · subst hj
    have hid := hh.identity
    rw [impactStart_sessions] at hid
    rw [hid]
    simp only [SessionCore.identity, Session.core_used, Session.core_nodeId, Session.core_role,
      hr.serves.used, hs.used, hr.serves.nodeId, hr.serves.role, hs.role]
  · rw [hh.others j hj, impactStart_sessions, hr.others j hj]

/-- No two sessions in use are of the same node. -/
def Unique (r : Root) : Prop :=
  ∀ i j, (r.sessions i).used = true → (r.sessions j).used = true →
    (r.sessions i).nodeId = (r.sessions j).nodeId → i = j

theorem SameOwners.unique (h : SameOwners r r') (hu : Unique r) : Unique r' := by
  intro i j hi hj hij
  rw [h.used] at hi hj
  rw [h.nodeId, h.nodeId] at hij
  exact hu i j hi hj hij

theorem unique_create (hu : Unique r) (hnew : r.sessionManagerFind nodeId = none) :
    Unique (r.setSession i (Session.sessionInit .root nodeId)) := by
  intro j k hj hk hjk
  by_cases hji : j = i
  · subst hji
    by_cases hkj : k = j
    · exact hkj.symm
    · simp only [setSession, Function.update_self, Function.update_of_ne hkj] at hk hjk
      exact absurd hjk.symm (find_none hnew hk)
  · simp only [setSession, Function.update_of_ne hji] at hj hjk
    by_cases hki : k = i
    · subst hki
      rw [Function.update_self] at hjk
      exact absurd hjk (find_none hnew hj)
    · simp only [setSession, Function.update_of_ne hki] at hk hjk
      exact hu j k hj hk hjk

theorem unique_turn (h : Turn P r r') (hu : Unique r) : Unique r' := by
  cases h with
  | work hw => exact (work_owners hw).unique hu
  | create i nodeId hfree hnew => exact unique_create hu hnew
  | @opened r₁ r₂ rnd ok i nodeId now now' hs hr hh ho =>
    have hsame := (opened_owners hs hr hh).unique hu
    split
    · exact hsame
    · intro j k
      rw [impactEnd_sessions]
      exact hsame j k

abbrev Works (P : Platform) : Root → Root → Prop := ReflTransGen (Work P)

abbrev Turns (P : Platform) : Root → Root → Prop := ReflTransGen (Turn P)

theorem Works.turns (h : Works P r r') : Turns P r r' :=
  h.lift id fun _ _ hw => Turn.work hw

end Root

end PqcContiki
