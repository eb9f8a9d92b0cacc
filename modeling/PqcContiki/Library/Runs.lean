import Mathlib

/-! Runs of a transition system, together with the states they went through. -/
namespace Runs

variable {σ ε : Type*} {init : σ → Prop} {step step' : σ → ε → σ → Prop} {past past' : List σ}
  {s s' : σ} {e : ε}

/-- A run that has reached `s`, after the states `past`, newest first. -/
inductive Run (init : σ → Prop) (step : σ → ε → σ → Prop) : List σ → σ → Prop
  | start {s : σ} : init s → Run init step [] s
  | next {past : List σ} {s s' : σ} {e : ε} :
      Run init step past s → step s e s' → Run init step (s :: past) s'

/-- What holds at the start and survives every step holds throughout, the past included. -/
theorem Run.invariant {I : List σ → σ → Prop} (h : Run init step past s)
    (hinit : ∀ s, init s → I [] s)
    (hstep : ∀ past s e s', Run init step past s → I past s → step s e s' → I (s :: past) s') :
    I past s := by
  induction h with
  | start hi => exact hinit _ hi
  | next hr hs ih => exact hstep _ _ _ _ hr ih hs

theorem Run.mono (h : Run init step past s) (hstep : ∀ s e s', step s e s' → step' s e s') :
    Run init step' past s := by
  induction h with
  | start hi => exact .start hi
  | next _ hs ih => exact .next ih (hstep _ _ _ hs)

/-- A run, seen through a map of its states. -/
theorem Run.map {τ : Type*} {init' : τ → Prop} {step' : τ → ε → τ → Prop} {f : σ → τ}
    (h : Run init step past s) (hinit : ∀ s, init s → init' (f s))
    (hstep : ∀ s e s', step s e s' → step' (f s) e (f s')) :
    Run init' step' (past.map f) (f s) := by
  induction h with
  | start hi => exact .start (hinit _ hi)
  | next _ hs ih => exact ih.next (hstep _ _ _ hs)

/-- A run goes on through a list of events, where `f` says what each of them does. -/
theorem Run.foldl {f : σ → ε → σ} (h : Run init step past s) (es : List ε)
    (hstep : ∀ s e, e ∈ es → step s e (f s e)) :
    ∃ past', Run init step past' (es.foldl f s) := by
  induction es generalizing past s with
  | nil => exact ⟨past, h⟩
  | cons e es ih =>
    exact ih (h.next (hstep s e (List.mem_cons_self ..)))
      fun s e' he => hstep s e' (List.mem_cons_of_mem _ he)

/-- Each move of a script is allowed in the state in which it is made. -/
def allows {μ : Type*} (ok : σ → μ → Bool) (f : σ → μ → σ) : σ → List μ → Bool
  | _, [] => true
  | s, m :: ms => ok s m && allows ok f (f s m) ms

theorem allows_all {μ : Type*} {p : μ → Bool} (f : σ → μ → σ) (s : σ) {ms : List μ}
    (h : ms.all p = true) : allows (fun _ m => p m) f s ms = true := by
  induction ms generalizing s with
  | nil => rfl
  | cons m ms ih =>
    rw [List.all_cons, Bool.and_eq_true] at h
    rw [allows, h.1, ih (f s m) h.2]
    rfl

/-- A run that follows a script of allowed moves, where `f` says what each of them does. -/
theorem Run.allows {μ : Type*} {f : σ → μ → σ} {ok : σ → μ → Bool} (h : Run init step past s)
    (hf : ∀ s m, ok s m = true → ∃ e, step s e (f s m)) (ms : List μ) (hms : ms ≠ [])
    (hok : Runs.allows ok f s ms = true) :
    ∃ past', Run init step past' (ms.foldl f s) ∧ s :: past <:+ past' := by
  induction ms generalizing past s with
  | nil => exact absurd rfl hms
  | cons m ms ih =>
    rw [Runs.allows, Bool.and_eq_true] at hok
    obtain ⟨e, he⟩ := hf s m hok.1
    cases ms with
    | nil => exact ⟨s :: past, h.next he, List.suffix_rfl⟩
    | cons m' ms =>
      obtain ⟨past', hrun, hsuffix⟩ := ih (h.next he) (List.cons_ne_nil m' ms) hok.2
      exact ⟨past', hrun, (List.suffix_cons ..).trans hsuffix⟩

/-- A run that follows any script, if every move can always be made. -/
theorem Run.script {μ : Type*} {f : σ → μ → σ} (h : Run init step past s)
    (hf : ∀ s m, ∃ e, step s e (f s m)) (ms : List μ) (hms : ms ≠ []) :
    ∃ past', Run init step past' (ms.foldl f s) ∧ s :: past <:+ past' :=
  h.allows (fun s m _ => hf s m) ms hms (allows_all (p := fun _ => true) f s (by simp))

end Runs
