import PqcContiki.RootAgreement

/-! The root, the nodes and the packets under way between them. -/
namespace PqcContiki

open TxQueue Relation Runs

/-- What happens to packets under way. No network makes one up or alters one. -/
inductive Network where
  /-- Packets are lost, or delivered any number of times and in any order. -/
  | unordered
  /-- Packets are lost, or delivered once and in order. -/
  | inOrder

/-- Delivering the packet `heard`, if there is one, leaves `rest` of the packets `ps` under way. -/
def Network.Delivers (k : Network) (ps : List Bytes) (heard : Option Bytes) (rest : List Bytes) :
    Prop :=
  match heard, k with
  | none, _ => rest = ps
  | some d, .unordered => d ∈ ps ∧ rest = ps
  | some d, .inOrder => ps = d :: rest

/-- The ids of the nodes. -/
structure Addresses (ι : Type*) where
  nodeId : ι → UInt16
  injective : Function.Injective nodeId
  valid : ∀ i, nodeId i ≠ sessionInvalidNodeId

/-- All devices, and the packets under way in each direction, oldest first. -/
structure World (ι : Type*) where
  root : Root
  node : ι → Node
  toRoot : List Bytes
  toNode : List Bytes

namespace World

variable {ι : Type*} [DecidableEq ι]

inductive Event (ι : Type*) where
  | root (e : Root.Event)
  | node (i : ι) (e : Node.Event)
  | lose

/-- An event of one device, on a packet under way if it hears one, or the loss of packets. -/
inductive Step (P : Platform) (k : Network) : World ι → Event ι → World ι → Prop
  | root {w : World ι} {e : Root.Event} {rest : List Bytes} :
      k.Delivers w.toRoot e.heard rest →
      Step P k w (.root e)
        { w with root := w.root.handle P e, toRoot := rest, toNode := w.toNode ++ w.root.sent e }
  | node {w : World ι} {i : ι} {e : Node.Event} {rest : List Bytes} :
      k.Delivers w.toNode e.heard rest →
      Step P k w (.node i e)
        { w with
          node := Function.update w.node i ((w.node i).handle P e)
          toRoot := w.toRoot ++ (w.node i).sent e
          toNode := rest }
  | lose {w : World ι} {toRoot toNode : List Bytes} :
      toRoot.Sublist w.toRoot → toNode.Sublist w.toNode →
      Step P k w .lose { w with toRoot, toNode }

/-- All devices have just booted, the root with a key pair. -/
def Initial (P : Platform) (a : Addresses ι) (w : World ι) : Prop :=
  ∃ rnd, (P.cryptoKemKeypair rnd).1 = 0 ∧
    w = ⟨Root.boot P rnd, fun i => Node.boot (a.nodeId i), [], []⟩

abbrev Reaches (P : Platform) (k : Network) (a : Addresses ι) : List (World ι) → World ι → Prop :=
  Run (Initial P a) (Step P k)

end World

variable {ι : Type*} [DecidableEq ι] {P : Platform} {k : Network} {a : Addresses ι}
  {w w' : World ι} {past : List (World ι)} {ps rest : List Bytes} {d : Bytes}
  {heard : Option Bytes} {i : ι} {id : UInt16} {e : World.Event ι} {D D' : Directory}

theorem Network.Delivers.mem (h : k.Delivers ps (some d) rest) : d ∈ ps := by
  cases k with
  | unordered => exact h.1
  | inOrder =>
    have hps : ps = d :: rest := h
    simp [hps]

theorem Network.Delivers.subset (h : k.Delivers ps heard rest) : ∀ p ∈ rest, p ∈ ps := by
  intro p hp
  cases heard with
  | none =>
    have hrest : rest = ps := h
    exact hrest ▸ hp
  | some d =>
    cases k with
    | unordered => exact h.2 ▸ hp
    | inOrder =>
      have hps : ps = d :: rest := h
      exact hps ▸ List.mem_cons_of_mem d hp

namespace World

structure Sound (a : Addresses ι) (w : World ι) : Prop where
  root : w.root.Sound
  table : w.root.Table
  node : ∀ i, (w.node i).Sound
  named : ∀ i, (w.node i).Named (a.nodeId i)

omit [DecidableEq ι] in
theorem sound_initial (h : Initial P a w) : Sound a w := by
  obtain ⟨rnd, -, rfl⟩ := h
  exact ⟨Root.sound_boot P rnd, Root.table_boot P rnd, fun i => Node.sound_boot _,
    fun i => Node.named_boot _⟩

theorem sound_step (h : Sound a w) (hs : Step P k w e w') : Sound a w' := by
  cases hs with
  | @root e rest _ =>
    obtain ⟨rnd, ha⟩ := Root.handle_acts (P := P) h.root.rooted e
    exact ⟨Root.sound_acts h.root ha, Root.table_acts h.table ha, h.node, h.named⟩
  | @node i e rest _ =>
    obtain ⟨rnd, ha⟩ := Node.handle_acts P (w.node i) e
    refine ⟨h.root, h.table, ?_, ?_⟩
    · intro j
      by_cases hj : j = i
      · subst j
        simpa using Node.sound_acts (h.node i) ha
      · simpa [Function.update_of_ne hj] using h.node j
    · intro j
      by_cases hj : j = i
      · subst j
        simpa using Node.named_handle (a.valid i) (h.named i) P e
      · simpa [Function.update_of_ne hj] using h.named j
  | lose _ _ => exact ⟨h.root, h.table, h.node, h.named⟩

theorem Reaches.sound (h : Reaches P k a past w) : Sound a w := by
  apply h.invariant (I := fun _ w => Sound a w)
  · intro w hi
    exact sound_initial hi
  · intro past w e w' _ hs hstep
    exact sound_step hs hstep

/-- All that is under way of the ciphertexts of node `i`, from its queue to the root's slots,
belongs to a directory. -/
structure Listed (a : Addresses ι) (i : ι) (D : Directory) (w : World ι) : Prop where
  node : (w.node i).Utters (a.nodeId i) D
  toRoot : ∀ p ∈ w.toRoot, CarriesCt (a.nodeId i) D p
  root : w.root.Gathers (a.nodeId i) D

omit [DecidableEq ι] in
theorem listed_initial (h : Initial P a w) (i : ι) (D : Directory) : Listed a i D w := by
  obtain ⟨rnd, -, rfl⟩ := h
  refine ⟨Node.utters_boot _, by simp, ?_⟩
  have hslots : (Root.boot P rnd).hs.rxSlots = fun _ => RxSlot.zero := by
    unfold Root.boot
    dsimp only
    split <;> exact hsFsmRootInitKeypair_slots ..
  rw [Root.Gathers, hslots]
  exact assigned_zero _

omit [DecidableEq ι] in
theorem Listed.mono (h : Listed a i D w)
    (hsub : ∀ msgId ct, D msgId ct → D' msgId ct) : Listed a i D' w where
  node := h.node.mono hsub
  toRoot := fun p hp => (h.toRoot p hp).mono (ctSource_mono hsub)
  root := Assigned.mono h.root fun _ _ hc => hc.mono (ctSource_mono hsub)

/-- In this step node `i` encapsulates `ct`. -/
def Encapsulates (P : Platform) (a : Addresses ι) (i : ι) (w : World ι) (e : Event ι)
    (ct : Ciphertext) : Prop :=
  ∃ e' pk ss, e = .node i e' ∧
    ((w.node i).handle P e').obs = .encapsulate (a.nodeId i) pk true ct ss :: (w.node i).obs

omit [DecidableEq ι] in
theorem carriesCt_of_other {j : ι} (hij : j ≠ i) {p : Bytes}
    (hp : pqcHeaderGetNodeId p = a.nodeId j) : CarriesCt (a.nodeId i) D p := by
  intro hid
  exact absurd (a.injective (hp.symm.trans hid)) hij

/-- A step keeps to a directory that has what node `i` encapsulates in it. -/
theorem listed_step (hs : Sound a w) (h : Listed a i D w) (hstep : Step P k w e w')
    (henc : ∀ ct, Encapsulates P a i w e ct → D (w.node i).session.nextMsgId ct) :
    Listed a i D w' ∧ ∀ ct ok ss, .decapsulate (a.nodeId i) ct ok ss ∈ w'.root.obs →
      .decapsulate (a.nodeId i) ct ok ss ∈ w.root.obs ∨ Pieced D ct := by
  cases hstep with
  | @root e rest hdel =>
    obtain ⟨rnd, ha⟩ := Root.handle_acts (P := P) hs.root.rooted e
    obtain ⟨hg, hobs⟩ := Root.gathers_acts h.root ha fun d hd =>
      h.toRoot d (hd ▸ hdel : k.Delivers w.toRoot (some d) rest).mem
    exact ⟨⟨h.node, fun p hp => h.toRoot p (hdel.subset p hp), hg⟩, hobs⟩
  | @node j e rest hdel =>
    refine ⟨⟨?_, ?_, h.root⟩, fun _ _ _ => Or.inl⟩
    · by_cases hj : j = i
      · subst j
        simp only [Function.update_self]
        refine Node.utters_handle (a.valid i) (hs.node i) (hs.named i) h.node e ?_
        intro pk ct ss ho
        exact henc ct ⟨e, pk, ss, rfl, ho⟩
      · simpa [Function.update_of_ne (Ne.symm hj)] using h.node
    · intro p hp
      rcases List.mem_append.mp hp with hp | hp
      · exact h.toRoot p hp
      · by_cases hj : j = i
        · subst j
          exact Node.sent_holds h.node.tx e p hp
        · exact carriesCt_of_other hj (Node.sent_holds (hs.named j).tx e p hp)
  | lose hsub _ =>
    exact ⟨⟨h.node, fun p hp => h.toRoot p (hsub.subset hp), h.root⟩, fun _ _ _ => Or.inl⟩

/-- In this step the root hears node `i` ask for the key. -/
def Asks (a : Addresses ι) (i : ι) (e : Event ι) : Prop :=
  ∃ clk rnd sender d, e = .root (.receive clk rnd sender d) ∧ IsKind pqcMsgGetpk (a.nodeId i) d

/-- Nothing is left of the ciphertexts of node `i`, and the node waits for no acknowledgement. -/
structure Drained (a : Addresses ι) (i : ι) (w : World ι) : Prop where
  node : (w.node i).session.state ≠ .waitAck
  tx : (w.node i).tx.Holds fun p => ¬ IsKind pqcMsgCt (a.nodeId i) p
  toRoot : ∀ p ∈ w.toRoot, ¬ IsKind pqcMsgCt (a.nodeId i) p
  root : ∀ s, (w.root.hs.rxSlots s).ctx.active = true →
    (w.root.hs.rxSlots s).ctx.msgType = pqcMsgCt →
    (w.root.hs.rxSlots s).ctx.nodeId ≠ a.nodeId i

omit [DecidableEq ι] in
theorem Drained.listed (hd : Drained a i w) (h : Listed a i D w) : Listed a i D' w where
  node := ⟨hd.tx.mono fun p hp hid ht => absurd ⟨ht, hid⟩ hp, fun hw => absurd hw hd.node⟩
  toRoot := fun p hp hid ht => absurd ⟨ht, hid⟩ (hd.toRoot p hp)
  root :=
    { idle := h.root.idle
      owned := by
        intro s hs
        obtain ⟨me, howner, hctx⟩ := h.root.owned s hs
        exact ⟨me, howner, hctx.idle, fun ha ht hid => absurd hid (hd.root s ha ht)⟩
      single := h.root.single }

/-- The packet confirms the message `msgId` of node `id`. -/
def Acknowledges (id : UInt16) (msgId : UInt8) (p : Bytes) : Prop :=
  IsKind pqcMsgAck id p ∧ byteAt p pqcHeaderLen = msgId

/-- Nothing is left of the earlier handshakes of node `i` that its next ciphertext could meet: no
ciphertext, no agreement, and no acknowledgement of the id it will have. -/
structure AtRest (a : Addresses ι) (i : ι) (w : World ι) : Prop where
  drained : Drained a i w
  unsettled : ∀ j, ¬ w.root.Established (a.nodeId i) j
  tx : w.root.tx.Holds fun p => ¬ Acknowledges (a.nodeId i) (w.node i).session.nextMsgId p
  toNode : ∀ p ∈ w.toNode, ¬ Acknowledges (a.nodeId i) (w.node i).session.nextMsgId p

/-- Some directory always has all that is under way. -/
theorem Reaches.listed_all (h : Reaches P k a past w) (i : ι) : Listed a i (fun _ _ => True) w := by
  apply h.invariant (I := fun _ w => Listed a i (fun _ _ => True) w)
  · intro w hi
    exact listed_initial hi i _
  · intro past w e w' hrun hl hstep
    exact (listed_step (Reaches.sound hrun) hl hstep fun _ _ => trivial).1

theorem encapsulated_step (hs : Sound a w) (hstep : Step P k w e w') :
    (encapsulated (w'.node i).obs = encapsulated (w.node i).obs ∧
      ∀ ct, ¬ Encapsulates P a i w e ct) ∨
    ∃ ct, encapsulated (w'.node i).obs = ct :: encapsulated (w.node i).obs ∧
      ∀ ct', Encapsulates P a i w e ct' → ct' = ct := by
  cases hstep with
  | root _ => exact Or.inl ⟨rfl, fun _ ⟨_, _, _, he, _⟩ => by cases he⟩
  | lose _ _ => exact Or.inl ⟨rfl, fun _ ⟨_, _, _, he, _⟩ => by cases he⟩
  | @node j e rest _ =>
    by_cases hj : j = i
    · subst j
      simp only [Function.update_self]
      rcases Node.encapsulated_handle (a.valid i) (hs.node i) (hs.named i) P e with
        ho | ⟨pk, ok, ct, ss, ho⟩
      · refine Or.inl ⟨ho, ?_⟩
        rintro ct ⟨e', pk, ss, he, ho'⟩
        cases he
        exact Node.not_encapsulates ho _ _ _ _ ho'
      · refine Or.inr ⟨ct, by rw [ho]; rfl, ?_⟩
        rintro ct' ⟨e', pk', ss', he, ho'⟩
        cases he
        injection ho.symm.trans ho' with hhead
        injection hhead with _ _ _ hct
        exact hct.symm
    · refine Or.inl ⟨by simp [Function.update_of_ne (Ne.symm hj)], ?_⟩
      rintro ct ⟨e', pk, ss, he, -⟩
      cases he
      exact hj rfl

theorem encapsulated_suffix (hs : Sound a w) (hstep : Step P k w e w') :
    encapsulated (w.node i).obs <:+ encapsulated (w'.node i).obs := by
  rcases encapsulated_step (i := i) hs hstep with ⟨ho, -⟩ | ⟨ct, ho, -⟩
  · rw [ho]
  · rw [ho]
    exact List.suffix_cons ..

end World

end PqcContiki
