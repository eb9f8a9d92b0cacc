import PqcContiki.CtNacks

/-!
The calls of a retry tick of the root, and what they leave of the slot in which a ciphertext
arrives.
-/
namespace PqcContiki

open TxQueue Runs

namespace Root

variable {P : Platform} {past : List Root} {rnd : Entropy} {r r' : Root}
  {i k : Fin sessionMaxNodes} {j : Fin hsRxSlotCount} {clk : Clock}

theorem reassembles_acts {data : Option Bytes}
    (h : Assigned (fun _ ctx => ctx.Reachable) r.hs.rxSlots) (ha : Acts P rnd data r r') :
    Assigned (fun _ ctx => ctx.Reachable) r'.hs.rxSlots := by
  induction ha with
  | refl => exact h
  | tail _ hlast ih =>
    refine slots_act ih hlast fun _ h d _ _ _ _ => ⟨.init, ?_⟩
    intro ctx ctx' hctx hadd
    have hnext := hctx.add ⟨h.msgType, h.nodeId, h.msgId, h.fragIdx, h.totalFrags, h.payload d⟩
    rwa [RxCall.add, hadd] at hnext

/-- What is in the slots came from `fragment_rx_add`. -/
theorem Reaches.reassembles (h : Reaches P past r) :
    Assigned (fun _ ctx => ctx.Reachable) r.hs.rxSlots := by
  apply h.invariant (I := fun _ r => Assigned (fun _ ctx => ctx.Reachable) r.hs.rxSlots)
  · rintro r ⟨rnd, rfl⟩
    have hslots : (boot P rnd).hs.rxSlots = fun _ => RxSlot.zero := by
      unfold boot
      dsimp only
      split <;> exact hsFsmRootInitKeypair_slots ..
    rw [hslots]
    exact assigned_zero _
  · rintro past r e r' hr hslots rfl
    obtain ⟨rnd, ha⟩ := handle_acts (P := P) (Reaches.sound hr).rooted e
    exact reassembles_acts hslots ha

/-- `PQC_retry_process` calls `hs_fsm_retry` for session `i`. -/
def Retries (i : Fin sessionMaxNodes) (r : Root) : Prop :=
  (r.sessions i).used = true ∧ (r.sessions i).sessionIsEstablished = false ∧
    (r.sessions i).hasPeerAddr = true

instance (i : Fin sessionMaxNodes) (r : Root) : Decidable (r.Retries i) :=
  inferInstanceAs (Decidable (_ ∧ _ ∧ _))

theorem retrySession_idle (h : ¬ r.Retries i) : r.retrySession P clk i = r := by
  unfold retrySession
  rw [if_neg]
  simpa [Retries] using h

theorem retrySession_slots (h : r.Retries i) : (r.retrySession P clk i).hs.rxSlots =
    ((r.fsm i).hsFsmRetry P (.sessions i) clk
      ⟨some udpConn, some (r.sessions i).peerAddr⟩).2.hs.rxSlots := by
  unfold retrySession
  rw [if_pos (by simpa [Retries] using h)]
  dsimp only
  generalize hr : r.putFsm i _ = r₁
  split
  · have hend := reported_impactEnd P (clk 20) (r₁.sessions i).nodeId false
      (r₁.csvHsSummary (r₁.sessions i) .hsFail)
    have hslots : (((r₁.csvHsSummary (r₁.sessions i) .hsFail).impactEnd P (clk 20)
        (r₁.sessions i).nodeId false)).hs = r₁.hs := hend.2.1
    change (((r₁.csvHsSummary (r₁.sessions i) .hsFail).impactEnd P (clk 20)
        (r₁.sessions i).nodeId false)).hs.rxSlots = _
    rw [hslots, ← hr]
    rfl
  · rw [← hr]
    rfl

/-- A retry that is not due yet leaves the session alone. -/
theorem retrySession_early (hwait : (r.sessions i).state = .waitCt)
    (hquiet : (r.sessions i).sessionRetryDue (clk 1) = false) :
    (r.retrySession P clk i).sessions i = r.sessions i := by
  by_cases hr : r.Retries i
  · unfold retrySession
    rw [if_pos (by simpa [Retries] using hr)]
    dsimp only
    rw [Fsm.hsFsmRetry_early (f := r.fsm i) hquiet]
    have hs : (r.putFsm i ((r.fsm i).rxSlotsGc P (clk 0))).sessions i = r.sessions i :=
      Function.update_self ..
    have hgood : (r.sessions i).sessionIsFailed = false := by
      simp [Session.sessionIsFailed, hwait]
    rw [hs, hgood]
    exact hs
  · rw [retrySession_idle hr]

/-- A session that a retry tick comes to, and what the clock reads there. -/
abbrev Visit := Fin sessionMaxNodes × Clock

def visit (P : Platform) (r : Root) (v : Visit) : Root := r.retrySession P v.2 v.1

/-- What the clock read whenever expired slots were collected. -/
def gcReadings (P : Platform) : Root → List Visit → List ℕ
  | _, [] => []
  | r, v :: vs => (if r.Retries v.1 then [v.2 0] else []) ++ gcReadings P (r.visit P v) vs

/-- While the root waits for the ciphertext of session `i`, a visit leaves the session alone, and
its slot too unless that has expired. -/
theorem visit_waits (hwait : (r.sessions i).state = .waitCt) {v : Visit}
    (hquiet : v.1 = i → (r.sessions i).sessionRetryDue (v.2 1) = false) :
    (r.visit P v).sessions i = r.sessions i ∧
    (∀ j, HsStatics.owns (.sessions i) ((r.visit P v).hs.rxSlots j) = true →
      HsStatics.owns (.sessions i) (r.hs.rxSlots j) = true ∧ (r.Retries v.1 →
        HsStatics.slotExpired P (v.2 0) (r.hs.rxSlots j) = false)) ∧
    ∀ j, HsStatics.owns (.sessions i) (r.hs.rxSlots j) = true → (r.Retries v.1 →
        HsStatics.slotExpired P (v.2 0) (r.hs.rxSlots j) = false) →
      (r.visit P v).hs.rxSlots j = r.hs.rxSlots j := by
  obtain ⟨k, clk⟩ := v
  unfold visit
  dsimp only at hquiet ⊢
  by_cases hr : r.Retries k
  · have hslots : (r.retrySession P clk k).hs.rxSlots = ((r.fsm k).hsFsmRetry P (.sessions k) clk
        ⟨some udpConn, some (r.sessions k).peerAddr⟩).2.hs.rxSlots := retrySession_slots hr
    refine ⟨?_, ?_, ?_⟩
    · by_cases hki : k = i
      · subst k
        exact retrySession_early hwait (hquiet rfl)
      · have hspares : Spares P clk k (r.sessions k).nodeId r (r.retrySession P clk k) :=
          Spares.retrySession rfl
        exact hspares.sessions i (Ne.symm hki)
    · intro j hown
      rw [hslots] at hown
      obtain ⟨hown', hfresh⟩ := Fsm.hsFsmRetry_owns hown
      exact ⟨hown', fun _ => hfresh⟩
    · intro j hown hfresh
      have hgc : ((r.fsm k).hs.rxSlotsGc P (clk 0)).rxSlots j = r.hs.rxSlots j :=
        if_neg (by simp [hfresh hr])
      rw [hslots, ← hgc]
      by_cases hki : k = i
      · subst k
        rw [Fsm.hsFsmRetry_early (f := r.fsm i) (hquiet rfl)]
        rfl
      · have hne : SessionRef.sessions i ≠ .sessions k := by simpa using Ne.symm hki
        exact hsFsmRetry_leaves (r.fsm k) j _ hne (by rwa [hgc])
  · rw [retrySession_idle hr]
    exact ⟨rfl, fun _ hown => ⟨hown, fun hno => absurd hno hr⟩, fun _ _ _ => rfl⟩

/-- The calls of `hs_fsm_retry` come to session `i` before its retry is due. -/
def Early (i : Fin sessionMaxNodes) (vs : List Visit) (s : Session) : Prop :=
  ∀ v ∈ vs, v.1 = i → s.sessionRetryDue (v.2 1) = false

theorem visits_session (hwait : (r.sessions i).state = .waitCt) {vs : List Visit}
    (hearly : Early i vs (r.sessions i)) : (vs.foldl (visit P) r).sessions i = r.sessions i := by
  induction vs generalizing r with
  | nil => rfl
  | cons v vs ih =>
    have hsame := (visit_waits (P := P) hwait (hearly v (List.mem_cons_self ..))).1
    rw [List.foldl_cons, ← hsame]
    rw [← hsame] at hwait hearly
    exact ih hwait fun v' hv' => hearly v' (List.mem_cons_of_mem _ hv')

/-- Without a slot the session stays without one. -/
theorem visits_gone (hwait : (r.sessions i).state = .waitCt) {vs : List Visit}
    (hearly : Early i vs (r.sessions i))
    (hnone : ∀ k, HsStatics.owns (.sessions i) (r.hs.rxSlots k) = false) (k : Fin hsRxSlotCount) :
    HsStatics.owns (.sessions i) ((vs.foldl (visit P) r).hs.rxSlots k) = false := by
  induction vs generalizing r with
  | nil => exact hnone k
  | cons v vs ih =>
    obtain ⟨hsame, hback, -⟩ := visit_waits (P := P) hwait (hearly v (List.mem_cons_self ..))
    rw [← hsame] at hwait hearly
    refine ih hwait (fun v' hv' => hearly v' (List.mem_cons_of_mem _ hv')) ?_
    intro k'
    rw [← Bool.not_eq_true]
    intro hown
    have hbefore := (hback k' hown).1
    rw [hnone k'] at hbefore
    cases hbefore

/-- The slot of the session stays as long as it is not found expired, and no longer. -/
theorem visits_slot (hwait : (r.sessions i).state = .waitCt)
    (hown : HsStatics.owns (.sessions i) (r.hs.rxSlots j) = true)
    (hsingle : ∀ k, HsStatics.owns (.sessions i) (r.hs.rxSlots k) = true → k = j)
    {vs : List Visit} (hearly : Early i vs (r.sessions i)) :
    if ∀ t ∈ gcReadings P r vs, HsStatics.slotExpired P t (r.hs.rxSlots j) = false then
      (vs.foldl (visit P) r).hs.rxSlots j = r.hs.rxSlots j
    else ∀ k, HsStatics.owns (.sessions i) ((vs.foldl (visit P) r).hs.rxSlots k) = false := by
  induction vs generalizing r with
  | nil => simp [gcReadings]
  | cons v vs ih =>
    obtain ⟨hsame, hback, hkept⟩ := visit_waits (P := P) hwait (hearly v (List.mem_cons_self ..))
    have hwait' : ((r.visit P v).sessions i).state = .waitCt := by rwa [hsame]
    have hearly' : Early i vs ((r.visit P v).sessions i) := by
      rw [hsame]
      exact fun v' hv' => hearly v' (List.mem_cons_of_mem _ hv')
    by_cases hfresh : r.Retries v.1 → HsStatics.slotExpired P (v.2 0) (r.hs.rxSlots j) = false
    · have hslot := hkept j hown hfresh
      have hrest := ih hwait' (by rwa [hslot]) (fun k hk => hsingle k (hback k hk).1) hearly'
      have hhead : (∀ t ∈ gcReadings P r (v :: vs),
          HsStatics.slotExpired P t (r.hs.rxSlots j) = false) ↔
          ∀ t ∈ gcReadings P (r.visit P v) vs,
            HsStatics.slotExpired P t (r.hs.rxSlots j) = false := by
        rw [gcReadings, List.forall_mem_append]
        refine and_iff_right ?_
        intro t ht
        split at ht
        · obtain rfl := List.mem_singleton.mp ht
          exact hfresh ‹_›
        · cases ht
      rw [hslot] at hrest
      simpa only [hhead, List.foldl_cons] using hrest
    · push Not at hfresh
      have hno : ¬ ∀ t ∈ gcReadings P r (v :: vs),
          HsStatics.slotExpired P t (r.hs.rxSlots j) = false := by
        intro hall
        refine hfresh.2 (hall _ ?_)
        simp [gcReadings, hfresh.1]
      rw [if_neg hno]
      refine visits_gone hwait' hearly' ?_
      intro k
      rw [← Bool.not_eq_true]
      intro hk
      obtain ⟨hk', hkfresh⟩ := hback k hk
      obtain rfl := hsingle k hk'
      exact hfresh.2 (hkfresh hfresh.1)

theorem visits_acts (vs : List Visit) (r : Root) : Acts P 0 none r (vs.foldl (visit P) r) := by
  induction vs generalizing r with
  | nil => exact .refl
  | cons v vs ih => exact (retrySession_acts v.2 0 v.1 r).trans (ih _)

end Root

end PqcContiki
