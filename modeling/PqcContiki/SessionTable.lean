import PqcContiki.SlotOwners
import PqcContiki.StateMachineSafety

/-! The root's session table and its two reassembly slots, under arbitrary packets. -/
namespace PqcContiki.Root

open TxQueue Relation Runs

variable {P : Platform} {rnd : Entropy} {data : Option Bytes} {r r' r'' : Root}
  {i : Fin sessionMaxNodes} {past : List Root}

/-- A session in use may hold fragments of its own node. -/
def mayHold (r : Root) : SessionRef → FragmentRxCtx → Prop
  | .localSession, _ => False
  | .sessions i, ctx =>
    (r.sessions i).used = true ∧ (ctx.active = true → ctx.nodeId = (r.sessions i).nodeId)

structure Table (r : Root) : Prop where
  unique : ∀ i j, (r.sessions i).used = true → (r.sessions j).used = true →
    (r.sessions i).nodeId = (r.sessions j).nodeId → i = j
  slots : Assigned r.mayHold r.hs.rxSlots

/-- Every session in use stays in use, in its place and under its id. -/
def Keeps (r r' : Root) : Prop :=
  ∀ i, (r.sessions i).used = true →
    (r'.sessions i).used = true ∧ (r'.sessions i).nodeId = (r.sessions i).nodeId

theorem Keeps.refl (r : Root) : Keeps r r := fun _ hi => ⟨hi, rfl⟩

theorem Keeps.trans (h : Keeps r r') (h' : Keeps r' r'') : Keeps r r'' := by
  intro i hi
  obtain ⟨hu, hid⟩ := h i hi
  obtain ⟨hu', hid'⟩ := h' i hu
  exact ⟨hu', hid'.trans hid⟩

theorem Keeps.mayHold (h : Keeps r r') {me : SessionRef} {ctx : FragmentRxCtx}
    (hm : r.mayHold me ctx) : r'.mayHold me ctx := by
  cases me with
  | localSession => exact hm
  | sessions i =>
    obtain ⟨hu, hid⟩ := h i hm.1
    exact ⟨hu, fun ha => (hm.2 ha).trans hid.symm⟩

/-- No session changed hands. -/
def SameOwners (r r' : Root) : Prop :=
  ∀ i, (r'.sessions i).core.identity = (r.sessions i).core.identity

theorem SameOwners.used (h : SameOwners r r') (i : Fin sessionMaxNodes) :
    (r'.sessions i).used = (r.sessions i).used := congrArg Prod.fst (h i)

theorem SameOwners.nodeId (h : SameOwners r r') (i : Fin sessionMaxNodes) :
    (r'.sessions i).nodeId = (r.sessions i).nodeId := congrArg (fun x => x.2.1) (h i)

theorem SameOwners.keeps (h : SameOwners r r') : Keeps r r' :=
  fun i hi => ⟨(h.used i).trans hi, h.nodeId i⟩

theorem SameOwners.table (h : SameOwners r r') (ht : Table r)
    (hs : Assigned r.mayHold r'.hs.rxSlots) : Table r' where
  unique := by
    intro i j hi hj hij
    rw [h.used] at hi hj
    rw [h.nodeId, h.nodeId] at hij
    exact ht.unique i j hi hj hij
  slots := hs.mono fun _ _ => h.keeps.mayHold

theorem sameOwners_update {s : Session} {hs : HsStatics} {tx : TxQueue} {w : ImpactWindow}
    {csv : List CsvRow} {obs : List Observation}
    (h : s.core.identity = (r.sessions i).core.identity) :
    SameOwners r ⟨Function.update r.sessions i s, hs, tx, w, csv, obs⟩ := by
  intro j
  by_cases hj : j = i
  · subst j
    simpa using h
  · simp [Function.update_of_ne hj]

/-- An act takes an unused session for a new node, or leaves every session with its owner. -/
theorem act_owners (ha : Act P rnd data r r') :
    (∃ i nodeId, (r.sessions i).used = false ∧ r.sessionManagerFind nodeId = none ∧
      r' = r.setSession i (Session.sessionInit .root nodeId)) ∨ SameOwners r r' := by
  cases ha with
  | touch hal => exact Or.inr fun i => congrArg SessionCore.identity (hal.cores i)
  | create _ hnew hfree => exact Or.inl ⟨_, _, hfree, hnew, rfl⟩
  | reset hu _ =>
    refine Or.inr (sameOwners_update ?_)
    simp [SessionCore.identity, hu]
  | start _ _ _ hst => exact Or.inr (sameOwners_update hst.identity)
  | ctStart _ _ hs => exact Or.inr (sameOwners_update (by rw [hs]; rfl))
  | collect _ | transmit => exact Or.inr fun _ => rfl
  | fragment _ _ _ _ hh => exact Or.inr (sameOwners_update hh.identity)
  | retry _ hr => exact Or.inr (sameOwners_update hr.identity)

theorem keeps_act (ha : Act P rnd data r r') : Keeps r r' := by
  rcases act_owners ha with ⟨i, nodeId, hfree, -, rfl⟩ | hsame
  · intro j hj
    have hne : j ≠ i := by
      rintro rfl
      rw [hfree] at hj
      cases hj
    simp [setSession, Function.update_of_ne hne, hj]
  · exact hsame.keeps

theorem keeps_acts (ha : Acts P rnd data r r') : Keeps r r' := by
  induction ha with
  | refl => exact Keeps.refl r
  | tail _ hlast ih => exact ih.trans (keeps_act hlast)

theorem storable_mayHold {h : FragmentHeader} (hu : (r.sessions i).used = true)
    (hid : (r.sessions i).nodeId = h.nodeId) (payload : Bytes) :
    Storable r.mayHold (.sessions i) h payload where
  init := ⟨hu, fun ha => absurd ha (by decide)⟩
  add := by
    intro ctx ctx' _ hadd
    exact ⟨hu, fun _ => (fragmentRxAdd_nodeId hadd).trans hid.symm⟩

/-- Acts keep what the slots hold, if the packet heard does. -/
theorem slots_act {may : SessionRef → FragmentRxCtx → Prop} (h : Assigned may r.hs.rxSlots)
    (ha : Act P rnd data r r')
    (hst : ∀ i h d, data = some d → parseFragmentHeader d = some h → (r.sessions i).used = true →
      (r.sessions i).nodeId = h.nodeId → Storable may (.sessions i) h (h.payload d)) :
    Assigned may r'.hs.rxSlots := by
  cases ha with
  | touch hal => exact hal.hs ▸ h
  | create _ _ _ | reset _ _ | ctStart _ _ _ | transmit => exact h
  | start _ _ hc hst => exact Started.assigned (f := r.fsm _) hst hc h
  | collect hc => exact h.collect hc
  | fragment hd hparse hu hid hh => exact hh.assigned h (hst _ _ _ hd hparse hu hid)
  | retry _ hr => exact hr.assigned h

theorem assigned_act (h : Assigned r.mayHold r.hs.rxSlots) (ha : Act P rnd data r r') :
    Assigned r.mayHold r'.hs.rxSlots :=
  slots_act h ha fun _ _ _ _ _ hu hid => storable_mayHold hu hid _

theorem find_none {nodeId : UInt16} (h : r.sessionManagerFind nodeId = none)
    (hu : (r.sessions i).used = true) : (r.sessions i).nodeId ≠ nodeId := by
  have hi := List.find?_eq_none.mp h i (List.mem_finRange i)
  simpa [hu] using hi

theorem table_act (h : Table r) (ha : Act P rnd data r r') : Table r' := by
  have hslots := assigned_act h.slots ha
  have hkeeps := keeps_act ha
  rcases act_owners ha with ⟨i, nodeId, -, hnew, rfl⟩ | hsame
  · refine ⟨?_, hslots.mono fun _ _ => hkeeps.mayHold⟩
    intro j k hj hk hjk
    by_cases hji : j = i
    · subst j
      by_cases hki : k = i
      · exact hki.symm
      · simp only [setSession, Function.update_self, Function.update_of_ne hki] at hk hjk
        exact absurd hjk.symm (find_none hnew hk)
    · simp only [setSession, Function.update_of_ne hji] at hj hjk
      by_cases hki : k = i
      · subst k
        rw [Function.update_self] at hjk
        exact absurd hjk (find_none hnew hj)
      · simp only [setSession, Function.update_of_ne hki] at hk hjk
        exact h.unique j k hj hk hjk
  · exact hsame.table h hslots

theorem table_acts (h : Table r) (ha : Acts P rnd data r r') : Table r' := by
  induction ha with
  | refl => exact h
  | tail _ hlast ih => exact table_act ih hlast

theorem keeps_handle (hsound : Sound r) (e : Event) : Keeps r (r.handle P e) := by
  obtain ⟨rnd, hacts⟩ := handle_acts (P := P) hsound.rooted e
  exact keeps_acts hacts

theorem table_boot (P : Platform) (rnd : Entropy) : Table (boot P rnd) := by
  have hboot : (boot P rnd).sessions = (fun _ => Session.zero) ∧
      (boot P rnd).hs.rxSlots = fun _ => RxSlot.zero := by
    unfold boot
    dsimp only
    split <;> exact ⟨rfl, hsFsmRootInitKeypair_slots ..⟩
  refine ⟨?_, ?_⟩
  · intro i j hi
    rw [hboot.1] at hi
    cases hi
  · rw [hboot.2]
    exact assigned_zero _

theorem Reaches.table (h : Reaches P past r) : Table r ∧ ∀ r₀ ∈ past, Keeps r₀ r := by
  apply h.invariant (I := fun past r => Table r ∧ ∀ r₀ ∈ past, Keeps r₀ r)
  · rintro r ⟨rnd, rfl⟩
    exact ⟨table_boot P rnd, by simp⟩
  · rintro past r e r' hr ⟨ht, hpast⟩ rfl
    obtain ⟨rnd, ha⟩ := handle_acts (P := P) (Reaches.sound hr).rooted e
    have hkeep := keeps_acts ha
    refine ⟨table_acts ht ha, ?_⟩
    intro r₀ hmem
    rcases List.mem_cons.mp hmem with rfl | hmem
    · exact hkeep
    · exact (hpast r₀ hmem).trans hkeep

/-- With every session in use, a packet from another node leaves only a row behind. -/
theorem udpRxCallback_full {clk : Clock} {sender : IpAddr} {d : Bytes}
    (hfull : ∀ i, (r.sessions i).used = true)
    (hnew : ∀ i, (r.sessions i).nodeId ≠ pqcHeaderGetNodeId d) :
    let r' := r.udpRxCallback P clk rnd sender d
    r'.sessions = r.sessions ∧ r'.hs = r.hs ∧ r'.tx = r.tx := by
  have hfind : r.sessionManagerFind (pqcHeaderGetNodeId d) = none := by
    apply List.find?_eq_none.mpr
    intro i _
    simp [hnew i]
  have hfree : ((List.finRange sessionMaxNodes).find? fun i => !(r.sessions i).used) = none := by
    apply List.find?_eq_none.mpr
    intro i _
    simp [hfull i]
  intro r'
  unfold r' udpRxCallback
  split
  · exact ⟨rfl, rfl, rfl⟩
  · simp only [sessionManagerGetOrCreate, hfind, hfree]
    exact ⟨rfl, rfl, rfl⟩

/-- The session table and the reassembly slots of a root that ran on arbitrary packets. -/
theorem session_table (h : Reaches P past r) :
    (∀ i j, (r.sessions i).used = true → (r.sessions j).used = true →
      (r.sessions i).nodeId = (r.sessions j).nodeId → i = j) ∧
    (∀ r₀ ∈ past, ∀ i, (r₀.sessions i).used = true →
      (r.sessions i).used = true ∧ (r.sessions i).nodeId = (r₀.sessions i).nodeId) ∧
    (∀ me k l, (r.hs.rxSlots k).owner = some me → (r.hs.rxSlots l).owner = some me → k = l) ∧
    (∀ k, (r.hs.rxSlots k).active = true →
      ∃ i, (r.hs.rxSlots k).owner = some (.sessions i) ∧ (r.sessions i).used = true ∧
        ((r.hs.rxSlots k).ctx.active = true →
          (r.hs.rxSlots k).ctx.nodeId = (r.sessions i).nodeId)) ∧
    (∀ k, (r.hs.rxSlots k).active = false →
      (r.hs.rxSlots k).owner = none ∧ (r.hs.rxSlots k).ctx = fragmentRxInit) ∧
    (∀ clk rnd sender d, (∀ i, (r.sessions i).used = true) →
      (∀ i, (r.sessions i).nodeId ≠ pqcHeaderGetNodeId d) →
      let r' := r.udpRxCallback P clk rnd sender d
      r'.sessions = r.sessions ∧ r'.hs = r.hs ∧ r'.tx = r.tx) := by
  obtain ⟨ht, hpast⟩ := h.table
  have hactive : ∀ k me, (r.hs.rxSlots k).owner = some me →
      HsStatics.owns me (r.hs.rxSlots k) = true := by
    intro k me ho
    cases ha : (r.hs.rxSlots k).active with
    | true => exact owns_iff.mpr ⟨ha, ho⟩
    | false =>
      rw [ht.slots.idle k ha] at ho
      cases ho
  refine ⟨ht.unique, fun r₀ hr₀ i hi => hpast r₀ hr₀ i hi, ?_, ?_, ?_, ?_⟩
  · intro me k l hk hl
    exact ht.slots.single k l me (hactive k me hk) (hactive l me hl)
  · intro k hk
    obtain ⟨me, howner, hmay⟩ := ht.slots.owned k hk
    cases me with
    | localSession => exact hmay.elim
    | sessions i => exact ⟨i, howner, hmay⟩
  · intro k hk
    rw [ht.slots.idle k hk]
    exact ⟨rfl, rfl⟩
  · intro clk rnd sender d hfull hnew
    exact udpRxCallback_full hfull hnew

/-- A root that heard one fragment of a key it never asked for. -/
theorem session_table_first_packet :
    let r := (boot Platform.demo 0).handle Platform.demo
      (.receive (fun _ => 0) 0 7 (pqcHeaderWrite pqcMsgPk 1 0 0 2 0 pqcFlagNone))
    (r.hs.rxSlots 0).active = true ∧ ∃ i, (r.hs.rxSlots 0).owner = some (.sessions i) ∧
      (r.sessions i).used = true := by
  intro r
  have hr : Reaches Platform.demo [boot Platform.demo 0] r := .next (.start ⟨0, rfl⟩) rfl
  have hactive : (r.hs.rxSlots 0).active = true := by rfl
  obtain ⟨i, howner, hused, -⟩ := (session_table hr).2.2.2.1 0 hactive
  exact ⟨hactive, i, howner, hused⟩

end PqcContiki.Root
