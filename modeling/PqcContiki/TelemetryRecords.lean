import PqcContiki.KeyAgreement
import PqcContiki.TelemetryRows
import PqcContiki.TelemetrySender

/-! What a node measured and what the root recorded of it, in one system. -/
namespace PqcContiki

open TxQueue Relation Runs

/-- What is taken from a numbered list in the order of the numbers is a part of it. -/
theorem sublist_of_numbered {α : Type*} {f : α → ℕ} {l all : List α}
    (hnumbered : all.map f = List.range all.length) (hmem : ∀ t ∈ l, t ∈ all)
    (hincreasing : l.Pairwise fun t t' => f t < f t') : l.Sublist all := by
  have hall : all.Pairwise fun t t' => f t < f t' := by
    apply List.pairwise_map.mp
    rw [hnumbered]
    exact List.pairwise_lt_range
  have hnodup : l.Nodup := hincreasing.imp fun hlt heq => by
    subst heq
    exact lt_irrefl _ hlt
  have : Std.Antisymm fun t t' => f t < f t' :=
    ⟨fun _ _ h h' => absurd (h.trans h') (lt_irrefl _)⟩
  exact List.sublist_of_subperm_of_pairwise (List.subperm_of_subset hnodup hmem) hincreasing hall

namespace World

variable {ι : Type*} [DecidableEq ι] {P : Platform} {k : Network} {a : Addresses ι}
  {w w' : World ι} {past : List (World ι)} {i : ι} {id : UInt16} {e : Event ι}
  {cur cur' : Option Encapsulation} {x : Encapsulation} {sent : List TempPayload}
  {t : TempPayload} {p : Bytes} {n : ℕ}

theorem Reaches.summaries (h : Reaches P k a past w) : w.root.SummarySound ∧ w.root.Rested := by
  apply h.invariant (I := fun _ w => w.root.SummarySound ∧ w.root.Rested)
  · rintro w ⟨rnd, -, rfl⟩
    exact ⟨Root.summarySound_boot P rnd, Root.Reaches.rested (P := P) (.start ⟨rnd, rfl⟩)⟩
  · intro past w e w' hrun ih hstep
    cases hstep with
    | root _ =>
      have hturns := Root.handle_turns (P := P) (Reaches.sound hrun).root
      exact ⟨Root.summarySound_turns (hturns _) ih.1, Root.rested_turns (hturns _) ih.2⟩
    | node _ | lose _ _ => exact ih

/-- The measurement that node `i` queues in a step. -/
def measured (P : Platform) (i : ι) (w : World ι) : Event ι → Option TempPayload
  | .node j e => if j = i then (w.node i).measures P e else none
  | .root _ | .lose => none

/-- Steps of the system, with the measurements that node `i` has queued so far, oldest first. -/
def MeasuringStep (P : Platform) (k : Network) (i : ι) (x : World ι × List TempPayload)
    (e : Event ι) (y : World ι × List TempPayload) : Prop :=
  Step P k x.1 e y.1 ∧ y.2 = x.2 ++ (measured P i x.1 e).toList

abbrev Measuring (P : Platform) (k : Network) (a : Addresses ι) (i : ι) :
    List (World ι × List TempPayload) → World ι × List TempPayload → Prop :=
  Run (fun x => Initial P a x.1 ∧ x.2 = []) (MeasuringStep P k i)

theorem Measuring.reaches {xs : List (World ι × List TempPayload)}
    (h : Measuring P k a i xs (w, sent)) : Reaches P k a (xs.map Prod.fst) w :=
  h.map (f := Prod.fst) (fun _ hi => hi.1) fun _ _ _ hs => hs.1

/-- A TEMP packet of node `id` carries a measurement sent under the secret of its encapsulation. -/
def Issues (P : Platform) (id : UInt16) (cur : Option Encapsulation) (sent : List TempPayload)
    (p : Bytes) : Prop :=
  byteAt p pqcHdrMsgType = pqcMsgTemp → pqcHeaderGetNodeId p = id → ∃ x, cur = some x ∧
    ∃ t ∈ sent, TempHistory.Sealed P x.ss (P.cryptoWorkerDeriveAesKey x.ss) ⟨t, p⟩

/-- The books of node `i`: its measurements are numbered, and all its TEMP packets carry some. -/
structure Issued (P : Platform) (a : Addresses ι) (i : ι) (cur : Option Encapsulation)
    (sent : List TempPayload) (w : World ι) : Prop where
  numbered : sent.map (fun t => t.counter.toNat) = List.range sent.length
  counter : (w.node i).session.state = .established →
    (w.node i).session.txCounter.toNat = sent.length
  waiting : (w.node i).session.state = .waitAck → sent = [] ∧ (w.node i).session.txCounter = 0
  untouched : cur = none → sent = [] ∧ (w.node i).session.txCounter = 0
  tx : (w.node i).tx.Holds (Issues P (a.nodeId i) cur sent)
  toRoot : ∀ p ∈ w.toRoot, Issues P (a.nodeId i) cur sent p

omit [DecidableEq ι] in
theorem issued_initial (h : Initial P a w) (i : ι) : Issued P a i none [] w := by
  obtain ⟨rnd, -, rfl⟩ := h
  refine ⟨rfl, ?_, fun _ => ⟨rfl, rfl⟩, fun _ => ⟨rfl, rfl⟩, holds_init, by simp⟩
  intro hest
  cases hest

theorem Issues.of_notTemp (hp : NotTemp p) : Issues P id cur sent p := fun ht => absurd ht hp

theorem Issues.snoc (hp : Issues P id cur sent p) (t : TempPayload) :
    Issues P id cur (sent ++ [t]) p := by
  intro ht hid
  obtain ⟨x, hcur, t', ht', hseal⟩ := hp ht hid
  exact ⟨x, hcur, t', List.mem_append_left _ ht', hseal⟩

/-- Nothing is issued before the first encapsulation. -/
theorem Issues.first (hp : Issues P id none sent p) (cur : Option Encapsulation) :
    Issues P id cur sent p := by
  intro ht hid
  obtain ⟨x, hcur, -⟩ := hp ht hid
  cases hcur

theorem Issues.genuine (hp : Issues P id (some x) sent p) : Root.Genuine P id x.ss sent p := by
  intro ht hid
  obtain ⟨y, hcur, t, hmem, hseal⟩ := hp ht hid
  obtain rfl := Option.some.inj hcur
  exact ⟨t, hmem, hseal⟩

omit [DecidableEq ι] in
theorem issues_other {j : ι} (hij : j ≠ i) (hp : pqcHeaderGetNodeId p = a.nodeId j) :
    Issues P (a.nodeId i) cur sent p := by
  intro _ hid
  exact absurd (a.injective (hp.symm.trans hid)) hij

omit [DecidableEq ι] in
/-- The books stay right while node `i` does nothing. -/
theorem Issued.frame (h : Issued P a i cur sent w) (hnode : w'.node i = w.node i)
    (hto : ∀ p ∈ w'.toRoot, p ∈ w.toRoot ∨ Issues P (a.nodeId i) cur sent p) :
    Issued P a i cur sent w' where
  numbered := h.numbered
  counter := hnode ▸ h.counter
  waiting := hnode ▸ h.waiting
  untouched := hnode ▸ h.untouched
  tx := hnode ▸ h.tx
  toRoot := by
    intro p hp
    rcases hto p hp with hp | hp
    · exact h.toRoot p hp
    · exact hp

/-- A measurement takes the next number. -/
theorem issued_measured {e : Node.Event} {rest : List Bytes} (h : Issued P a i cur sent w)
    (hholds : (w.node i).HoldsTo P cur) (hcoherent : (w.node i).session.core.Coherent)
    (hm : (w.node i).measures P e = some t) (hlen : sent.length + 1 < 2 ^ 32) :
    Issued P a i cur (sent ++ [t]) { w with
      node := Function.update w.node i ((w.node i).handle P e)
      toRoot := w.toRoot ++ (w.node i).sent e
      toNode := rest } := by
  obtain ⟨hest, hcounter, ⟨k, hk⟩, htx, -, hadds⟩ := Node.handle_measured hm
  have hstate : (w.node i).session.state = .established :=
    (Root.sessionIsEstablished_iff hcoherent).mp hest
  have hstate' : ((w.node i).handle P e).session.state = .established :=
    (congrArg SessionCore.state hk).trans hstate
  have hnow := h.counter hstate
  obtain ⟨x, hcur, hss, hkey, -⟩ := hholds (Or.inr hstate)
  have hseal : Issues P (a.nodeId i) cur (sent ++ [t]) (tempPacket P (w.node i).session t) :=
    fun _ _ => ⟨x, hcur, t, by simp, (w.node i).session, hss, hkey, hcounter, rfl⟩
  constructor
  case numbered => simp [h.numbered, hcounter, hnow, List.range_succ]
  case counter =>
    intro _
    simp only [Function.update_self, htx, UInt32.toNat_add, hnow, List.length_append,
      List.length_singleton]
    exact Nat.mod_eq_of_lt (by simp only [UInt32.reduceToNat]; omega)
  case waiting =>
    simp only [Function.update_self, hstate']
    intro hw
    cases hw
  case untouched =>
    intro hnone
    cases hcur.symm.trans hnone
  case tx =>
    simp only [Function.update_self]
    refine hadds.holds (h.tx.mono fun p hp => hp.snoc t) ?_
    rintro p rfl
    exact hseal
  case toRoot =>
    intro p hp
    rcases List.mem_append.mp hp with hp | hp
    · exact (h.toRoot p hp).snoc t
    · exact (Node.sent_holds h.tx e p hp).snoc t

/-- Any other event of node `i` leaves the books as they are. -/
theorem issued_unmeasured {e : Node.Event} {rest : List Bytes} (h : Issued P a i cur sent w)
    (hm : (w.node i).measures P e = none)
    (hwait : ((w.node i).handle P e).session.state = .waitAck →
      (w.node i).session.state = .waitAck ∨ cur = none)
    (hest : ((w.node i).handle P e).session.state = .established →
      (w.node i).session.state = .established ∨ (w.node i).session.state = .waitAck)
    (hcur : cur' = none → cur = none) (hnext : cur = cur' ∨ cur = none) :
    Issued P a i cur' sent { w with
      node := Function.update w.node i ((w.node i).handle P e)
      toRoot := w.toRoot ++ (w.node i).sent e
      toNode := rest } := by
  have hissues {p : Bytes} (hp : Issues P (a.nodeId i) cur sent p) :
      Issues P (a.nodeId i) cur' sent p := by
    rcases hnext with rfl | rfl
    · exact hp
    · exact hp.first cur'
  obtain ⟨hcounter, htx⟩ := Node.handle_unmeasured hm (fun _ hp => Issues.of_notTemp hp) h.tx
  have hzero (h₀ : (w.node i).session.txCounter = 0) :
      ((w.node i).handle P e).session.txCounter = 0 := by
    rcases hcounter with hsame | ⟨-, hreset⟩
    · exact hsame.trans h₀
    · exact hreset
  constructor
  case numbered => exact h.numbered
  case counter =>
    simp only [Function.update_self]
    intro hnow
    have hsame : ((w.node i).handle P e).session.txCounter = (w.node i).session.txCounter := by
      rcases hcounter with hsame | ⟨hidle, -⟩
      · exact hsame
      · cases hidle.symm.trans hnow
    rw [hsame]
    rcases hest hnow with hwas | hwas
    · exact h.counter hwas
    · obtain ⟨rfl, h₀⟩ := h.waiting hwas
      simp [h₀]
  case waiting =>
    simp only [Function.update_self]
    intro hnow
    rcases hwait hnow with hwas | hnone
    · exact ⟨(h.waiting hwas).1, hzero (h.waiting hwas).2⟩
    · exact ⟨(h.untouched hnone).1, hzero (h.untouched hnone).2⟩
  case untouched =>
    simp only [Function.update_self]
    intro hnone
    have hwas := h.untouched (hcur hnone)
    exact ⟨hwas.1, hzero hwas.2⟩
  case tx =>
    simp only [Function.update_self]
    exact htx.mono fun p hp => hissues hp
  case toRoot =>
    intro p hp
    rcases List.mem_append.mp hp with hp | hp
    · exact hissues (h.toRoot p hp)
    · exact hissues (Node.sent_holds h.tx e p hp)

omit [DecidableEq ι] in
theorem Issued.bounded (h : Issued P a i cur sent w) (ht : t ∈ sent) :
    t.counter.toNat < sent.length := by
  apply List.mem_range.mp
  rw [← h.numbered]
  exact List.mem_map.mpr ⟨t, ht, rfl⟩

end World

end PqcContiki
