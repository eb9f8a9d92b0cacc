import PqcContiki.Scripts

/-!
Which ciphertexts the root opens. Fragments are told apart by the message id, and a node's ids start
over with its session, so a ciphertext stays whole only if no other one is out under its id.
-/
namespace PqcContiki

open TxQueue Relation Runs

/-- The packet carries a fragment of a ciphertext of node `id` under message id `msgId`. -/
def IsCtUnder (id : UInt16) (msgId : UInt8) (p : Bytes) : Prop :=
  IsKind pqcMsgCt id p ∧ byteAt p pqcHdrMsgId = msgId

/-- The directory after `ct` has taken the place of what was out under message id `msgId`. -/
def Directory.put (D : Directory) (msgId : UInt8) (ct : Ciphertext) : Directory :=
  fun msgId' ct' => if msgId' = msgId then ct' = ct else D msgId' ct'

namespace World

variable {ι : Type*} [DecidableEq ι] {P : Platform} {k : Network} {a : Addresses ι}
  {w w' : World ι} {past : List (World ι)} {i : ι} {e : Event ι} {D : Directory}
  {ct : Ciphertext}

/-- Nothing is left of the ciphertexts of node `i` under the message id it will use next. -/
structure Cleared (a : Addresses ι) (i : ι) (w : World ι) : Prop where
  tx : (w.node i).tx.Holds fun p => ¬ IsCtUnder (a.nodeId i) (w.node i).session.nextMsgId p
  toRoot : ∀ p ∈ w.toRoot, ¬ IsCtUnder (a.nodeId i) (w.node i).session.nextMsgId p
  root : ∀ s, (w.root.hs.rxSlots s).ctx.active = true →
    (w.root.hs.rxSlots s).ctx.msgType = pqcMsgCt →
    (w.root.hs.rxSlots s).ctx.nodeId = a.nodeId i →
    (w.root.hs.rxSlots s).ctx.msgId ≠ (w.node i).session.nextMsgId

instance (id : UInt16) (msgId : UInt8) (p : Bytes) : Decidable (IsCtUnder id msgId p) :=
  inferInstanceAs (Decidable (_ ∧ _))

instance (a : Addresses ι) (i : ι) (w : World ι) : Decidable (Cleared a i w) :=
  decidable_of_iff
    (((w.node i).tx.Holds fun p => ¬ IsCtUnder (a.nodeId i) (w.node i).session.nextMsgId p) ∧
      (∀ p ∈ w.toRoot, ¬ IsCtUnder (a.nodeId i) (w.node i).session.nextMsgId p) ∧
      ∀ s, (w.root.hs.rxSlots s).ctx.active = true →
        (w.root.hs.rxSlots s).ctx.msgType = pqcMsgCt →
        (w.root.hs.rxSlots s).ctx.nodeId = a.nodeId i →
        (w.root.hs.rxSlots s).ctx.msgId ≠ (w.node i).session.nextMsgId)
    ⟨fun h => ⟨h.1, h.2.1, h.2.2⟩, fun h => ⟨h.tx, h.toRoot, h.root⟩⟩

theorem carriesCt_put {id : UInt16} {msgId : UInt8} {p : Bytes} (hp : CarriesCt id D p)
    (hno : ¬ IsCtUnder id msgId p) : CarriesCt id (D.put msgId ct) p := by
  intro hid ht
  obtain ⟨msgId', m, ⟨ct', hct', rfl⟩, hfrag⟩ := hp hid ht
  obtain ⟨flags, n, hn, rfl⟩ := hfrag
  have hne : msgId' ≠ msgId := fun heq => hno ⟨⟨ht, hid⟩, heq⟩
  refine ⟨msgId', _, ⟨ct', ?_, rfl⟩, flags, n, hn, rfl⟩
  rw [Directory.put, if_neg hne]
  exact hct'

omit [DecidableEq ι] in
theorem Listed.put (h : Listed a i D w) (hc : Cleared a i w)
    (hstate : (w.node i).session.state ≠ .waitAck) :
    Listed a i (D.put (w.node i).session.nextMsgId ct) w where
  node := ⟨fun s hs => carriesCt_put (h.node.tx s hs) (hc.tx s hs), fun hw => absurd hw hstate⟩
  toRoot := fun p hp => carriesCt_put (h.toRoot p hp) (hc.toRoot p hp)
  root :=
    { idle := h.root.idle
      owned := by
        intro s hs
        obtain ⟨me, howner, hctx⟩ := h.root.owned s hs
        refine ⟨me, howner, hctx.idle, ?_⟩
        intro ha ht hid
        refine (hctx.patchwork ha ht hid).mono ?_
        rintro m ⟨ct', hct', rfl⟩
        refine ⟨ct', ?_, rfl⟩
        rw [Directory.put, if_neg (hc.root s ha ht hid)]
        exact hct'
      single := h.root.single }

/-- Under each message id one ciphertext of node `i` is out, and the root has opened no other. -/
structure Filed (a : Addresses ι) (i : ι) (D : Directory) (w : World ι) : Prop where
  one : ∀ msgId ct ct', D msgId ct → D msgId ct' → ct = ct'
  made : ∀ msgId ct, D msgId ct → ct ∈ encapsulated (w.node i).obs
  listed : Listed a i D w
  opened : ∀ ct ok ss, .decapsulate (a.nodeId i) ct ok ss ∈ w.root.obs →
    ct ∈ encapsulated (w.node i).obs

omit [DecidableEq ι] in
theorem filed_initial (h : Initial P a w) (i : ι) : Filed a i (fun _ _ => False) w := by
  have hl := listed_initial h i fun _ _ => False
  obtain ⟨rnd, -, rfl⟩ := h
  have hboot : (Root.boot P rnd).obs = [] := by
    unfold Root.boot
    dsimp only
    split <;> rfl
  exact ⟨fun _ _ _ hct => absurd hct id, fun _ _ hct => absurd hct id, hl, by simp [hboot]⟩

omit [DecidableEq ι] in
/-- A new ciphertext takes the place of the one that was out under its message id. -/
theorem Filed.put (h : Filed a i D w) (ct : Ciphertext) (hc : Cleared a i w)
    (hstate : (w.node i).session.state ≠ .waitAck) :
    (∀ msgId ct₁ ct₂, D.put (w.node i).session.nextMsgId ct msgId ct₁ →
      D.put (w.node i).session.nextMsgId ct msgId ct₂ → ct₁ = ct₂) ∧
    (∀ msgId ct', D.put (w.node i).session.nextMsgId ct msgId ct' →
      ct' = ct ∨ ct' ∈ encapsulated (w.node i).obs) ∧
    Listed a i (D.put (w.node i).session.nextMsgId ct) w := by
  refine ⟨?_, ?_, h.listed.put hc hstate⟩
  · intro msgId ct₁ ct₂ h₁ h₂
    simp only [Directory.put] at h₁ h₂
    split at h₁
    · rw [if_pos (by assumption)] at h₂
      exact h₁.trans h₂.symm
    · rw [if_neg (by assumption)] at h₂
      exact h.one msgId ct₁ ct₂ h₁ h₂
  · intro msgId ct' hct'
    simp only [Directory.put] at hct'
    split at hct'
    · exact Or.inl hct'
    · exact Or.inr (h.made msgId ct' hct')

theorem filed_step (hs : Sound a w) (h : Filed a i D w) (hstep : Step P k w e w')
    (hclear : CompletesKey P i w e → Cleared a i w) : ∃ D, Filed a i D w' := by
  have hsuffix := encapsulated_suffix (i := i) hs hstep
  -- what is filed in the state before the step, with what the step makes
  have hbefore : ∃ D, (∀ msgId ct ct', D msgId ct → D msgId ct' → ct = ct') ∧
      (∀ msgId ct, D msgId ct → ct ∈ encapsulated (w'.node i).obs) ∧ Listed a i D w ∧
      ∀ ct, Encapsulates P a i w e ct → D (w.node i).session.nextMsgId ct := by
    by_cases henc : ∃ ct, Encapsulates P a i w e ct
    · obtain ⟨ct, henc⟩ := henc
      have hkey := henc.completesKey hs
      have hstate : (w.node i).session.state ≠ .waitAck := by
        obtain ⟨-, -, -, -, -, hwait, -, -⟩ := hkey
        rw [hwait]
        decide
      obtain ⟨hone, hmade, hlisted⟩ := h.put ct (hclear hkey) hstate
      rcases encapsulated_step (i := i) hs hstep with ⟨-, hno⟩ | ⟨ct₀, ho, hall⟩
      · exact absurd henc (hno ct)
      · refine ⟨D.put (w.node i).session.nextMsgId ct, hone, ?_, hlisted, ?_⟩
        · intro msgId ct' hct'
          rcases hmade msgId ct' hct' with rfl | hmem
          · rw [ho, hall ct' henc]
            exact List.mem_cons_self ..
          · exact hsuffix.subset hmem
        · intro ct' henc'
          rw [Directory.put, if_pos rfl, hall ct' henc', hall ct henc]
    · push Not at henc
      exact ⟨D, h.one, fun msgId ct hct => hsuffix.subset (h.made msgId ct hct), h.listed,
        fun ct hct => absurd hct (henc ct)⟩
  obtain ⟨D', hone, hmade, hlisted, henc⟩ := hbefore
  obtain ⟨hlisted', hopened⟩ := listed_step hs hlisted hstep henc
  refine ⟨D', hone, hmade, hlisted', ?_⟩
  intro ct ok ss hmem
  rcases hopened ct ok ss hmem with hmem | hpieced
  · exact hsuffix.subset (h.opened ct ok ss hmem)
  · obtain ⟨msgId, hct⟩ := hpieced.eq hone
    exact hmade msgId ct hct

/-- Runs in which nothing of a node's ciphertexts is left under its next message id when a key
reaches it. -/
abbrev ClearedReaches (P : Platform) (k : Network) (a : Addresses ι) (i : ι) :
    List (World ι) → World ι → Prop :=
  Run (Initial P a) fun w e w' => Step P k w e w' ∧ (CompletesKey P i w e → Cleared a i w)

theorem ClearedReaches.reaches (h : ClearedReaches P k a i past w) : Reaches P k a past w :=
  h.mono fun _ _ _ hs => hs.1

/-- If no other ciphertext is out under its message id whenever a node makes one, the root
decapsulates nothing for the node but what the node has encapsulated. -/
theorem ciphertexts_unmixed (h : ClearedReaches P k a i past w) {ct : Ciphertext} {ok : Bool}
    {ss : SharedSecret} (hmem : .decapsulate (a.nodeId i) ct ok ss ∈ w.root.obs) :
    ct ∈ encapsulated (w.node i).obs := by
  have hfiled : ∃ D, Filed a i D w := by
    apply h.invariant (I := fun _ w => ∃ D, Filed a i D w)
    · intro w hi
      exact ⟨_, filed_initial hi i⟩
    · rintro past w e w' hrun ⟨D, hfiled⟩ hstep
      exact filed_step (ClearedReaches.reaches hrun).sound hfiled hstep.1 hstep.2
  obtain ⟨D, hfiled⟩ := hfiled
  exact hfiled.opened ct ok ss hmem

/-- A handshake up to the first fragment of the ciphertext. -/
def opening : List (Move Unit) :=
  request ++ rootHears 0 :: keySent ++ keyHeard 5 ++ ctSent ++ [rootHears 0]

def begun : World Unit := follow .inOrder opening booted

/-- The root hears the rest of the ciphertext. -/
def ended : World Unit := follow .inOrder (List.replicate 70 (rootHears 0)) begun

/-- All other packets are lost, and the node starts over. -/
def mixed : World Unit :=
  follow .inOrder anew begun

/-- The same happens after the root has heard the whole ciphertext. -/
def reended : World Unit := follow .inOrder anew ended

set_option maxRecDepth 100000 in
theorem rehearsal_inOrder :
    (allows (heeds () (Cleared oneNode ())) (play .demo .inOrder) booted opening = true ∧
      allows (heeds () (Cleared oneNode ())) (play .demo .inOrder) ended anew = true ∧
      (successes (oneNode.nodeId ()) reended.root.obs).map (fun x => x.1.get 0) = [9, 5] ∧
      (encapsulated (reended.node ()).obs).map (fun ct => ct.get 0) = [9, 5]) ∧
    (∀ ct ∈ encapsulated (mixed.node ()).obs, ct.get 0 = ct.get 64) ∧
      ∃ x ∈ successes (oneNode.nodeId ()) mixed.root.obs, x.1.get 0 ≠ x.1.get 64 := by
  constructor
  · decide +kernel
  · decide +kernel

/-- The root opens both ciphertexts of a node that starts over, each as the node made it. -/
theorem ciphertexts_unmixed_reended :
    ∃ past, ClearedReaches .demo .inOrder oneNode () past reended ∧
      (successes (oneNode.nodeId ()) reended.root.obs).map (fun x => x.1.get 0) = [9, 5] ∧
      (encapsulated (reended.node ()).obs).map (fun ct => ct.get 0) = [9, 5] ∧
      ∀ x ∈ successes (oneNode.nodeId ()) reended.root.obs,
        x.1 ∈ encapsulated (reended.node ()).obs := by
  obtain ⟨⟨hclear, hclear', hopened, hmade⟩, -⟩ := rehearsal_inOrder
  have hmove : ∀ (w : World Unit) m, heeds () (Cleared oneNode ()) w m = true →
      ∃ e, Step .demo .inOrder w e (w.play .demo .inOrder m) ∧
        (CompletesKey .demo () w e → Cleared oneNode () w) := fun w m h =>
    ⟨_, play_step _ _ w m, of_heeds h⟩
  have hbooted : ClearedReaches .demo .inOrder oneNode () [] booted := .start initial_booted
  obtain ⟨_, hbegun, -⟩ := hbooted.allows hmove opening (by simp [opening]) hclear
  obtain ⟨_, hended, -⟩ : ∃ past, ClearedReaches .demo .inOrder oneNode () past ended ∧ _ :=
    Run.allows hbegun hmove (List.replicate 70 (rootHears 0)) (by simp) (by decide +kernel)
  obtain ⟨past, hreended, -⟩ : ∃ past, ClearedReaches .demo .inOrder oneNode () past reended ∧ _ :=
    Run.allows hended hmove anew (by simp [anew]) hclear'
  exact ⟨past, hreended, hopened, hmade, fun x hx =>
    ciphertexts_unmixed hreended (mem_successes hx)⟩

/-- Otherwise the first fragment of one ciphertext can end up in the next one. -/
theorem ciphertexts_mixed : ¬ ∀ past w, Reaches .demo .inOrder oneNode past w →
    ∀ ct ok ss, .decapsulate (oneNode.nodeId ()) ct ok ss ∈ w.root.obs →
      ct ∈ encapsulated (w.node ()).obs := by
  intro hclaim
  obtain ⟨-, hmade, x, hx, hne⟩ := rehearsal_inOrder
  have hbooted : Reaches .demo .inOrder oneNode [] booted := .start initial_booted
  obtain ⟨_, hbegun, -⟩ := hbooted.follow opening (by simp [opening])
  obtain ⟨past, hmixed, -⟩ : ∃ past, Reaches .demo .inOrder oneNode past mixed ∧ _ :=
    Reaches.follow hbegun anew (by simp [anew])
  exact hne (hmade _ (hclaim past mixed hmixed _ _ _ (mem_successes hx)))

end World

end PqcContiki
