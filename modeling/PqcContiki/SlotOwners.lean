import PqcContiki.RetryOutcome

/-!
Who holds the reassembly slots. Every call of the handshake code keeps an invariant of the slots
that says of each active one what its owner may have in it.
-/
namespace PqcContiki

variable {P : Platform} {me : SessionRef} {rnd : Entropy} {h : FragmentHeader} {payload : Bytes}
  {f f' : Fsm} {slots slots' : Slots} {i : Fin hsRxSlotCount} {slot slot' : RxSlot}
  {may may' : SessionRef → FragmentRxCtx → Prop}

/-- A header is read off its packet. -/
theorem isKind_of_parse {data : Bytes} (hp : parseFragmentHeader data = some h) :
    IsKind h.msgType h.nodeId data := by
  unfold parseFragmentHeader at hp
  split at hp
  · cases hp
  · dsimp only at hp
    split at hp
    · cases hp
    · split at hp
      · obtain rfl := Option.some.inj hp
        exact ⟨rfl, rfl⟩
      · cases hp

/-- Slots are empty or owned, no session owns two, and `may` says what an owner may hold. -/
structure Assigned (may : SessionRef → FragmentRxCtx → Prop) (slots : Slots) : Prop where
  idle : ∀ i, (slots i).active = false → slots i = RxSlot.zero
  owned : ∀ i, (slots i).active = true → ∃ me, (slots i).owner = some me ∧ may me (slots i).ctx
  single : ∀ i j me, HsStatics.owns me (slots i) = true → HsStatics.owns me (slots j) = true → i = j

theorem not_owns_zero (me : SessionRef) : HsStatics.owns me RxSlot.zero = false := rfl

theorem owns_iff : HsStatics.owns me slot = true ↔ slot.active = true ∧ slot.owner = some me := by
  simp [HsStatics.owns]

theorem assigned_zero (may : SessionRef → FragmentRxCtx → Prop) :
    Assigned may (fun _ => RxSlot.zero) where
  idle := fun _ _ => rfl
  owned := by
    intro i hi
    cases hi
  single := by
    intro i j me hi
    cases hi

theorem Assigned.mono (h : Assigned may slots) (hok : ∀ me ctx, may me ctx → may' me ctx) :
    Assigned may' slots where
  idle := h.idle
  owned := by
    intro i hi
    obtain ⟨me, ho, hctx⟩ := h.owned i hi
    exact ⟨me, ho, hok me _ hctx⟩
  single := h.single

theorem Assigned.collect (h : Assigned may slots) (hc : Collected slots slots') :
    Assigned may slots' where
  idle := by
    intro i hi
    rcases hc i with hs | hs
    · rw [hs] at hi ⊢
      exact h.idle i hi
    · exact hs
  owned := by
    intro i hi
    rcases hc i with hs | hs
    · rw [hs] at hi ⊢
      exact h.owned i hi
    · rw [hs] at hi
      cases hi
  single := by
    intro i j me hi hj
    rcases hc i with hs | hs
    · rcases hc j with ht | ht
      · rw [hs] at hi
        rw [ht] at hj
        exact h.single i j me hi hj
      · rw [ht, not_owns_zero] at hj
        cases hj
    · rw [hs, not_owns_zero] at hi
      cases hi

/-- The slot a session acquires holds something it may hold. -/
theorem Acquired.may_ctx (ha : Acquired me slots i slot) (h : Assigned may slots)
    (hnew : may me fragmentRxInit) : may me slot.ctx := by
  rcases ha.slot with ⟨ho, rfl⟩ | ⟨-, -, now, rfl⟩
  · obtain ⟨hactive, howner⟩ := owns_iff.mp ho
    obtain ⟨me', howner', hok⟩ := h.owned i hactive
    obtain rfl : me = me' := Option.some.inj (howner.symm.trans howner')
    exact hok
  · exact hnew

/-- Put back into its place, an acquired slot may hold anything its owner may. -/
theorem Assigned.place (h : Assigned may slots) (ha : Acquired me slots i slot)
    (ho : HsStatics.owns me slot' = true) (hok : may me slot'.ctx) :
    Assigned may (Function.update slots i slot') := by
  have hothers : ∀ j, j ≠ i → HsStatics.owns me (slots j) = false := by
    intro j hj
    rcases ha.slot with ⟨hi, -⟩ | ⟨hnone, -⟩
    · rw [← Bool.not_eq_true]
      intro hown
      exact hj (h.single j i me hown hi)
    · exact hnone j
  obtain ⟨hactive, howner⟩ := owns_iff.mp ho
  refine ⟨?_, ?_, ?_⟩
  · intro j hj
    by_cases hji : j = i
    · subst j
      rw [Function.update_self, hactive] at hj
      cases hj
    · rw [Function.update_of_ne hji] at hj ⊢
      exact h.idle j hj
  · intro j hj
    by_cases hji : j = i
    · subst j
      rw [Function.update_self]
      exact ⟨me, howner, hok⟩
    · rw [Function.update_of_ne hji] at hj ⊢
      exact h.owned j hj
  · intro j k you hj hk
    by_cases hji : j = i
    · subst j
      by_cases hki : k = i
      · exact hki.symm
      · rw [Function.update_self] at hj
        rw [Function.update_of_ne hki] at hk
        obtain rfl : me = you := Option.some.inj (howner.symm.trans (owns_iff.mp hj).2)
        rw [hothers k hki] at hk
        cases hk
    · rw [Function.update_of_ne hji] at hj
      by_cases hki : k = i
      · subst k
        rw [Function.update_self] at hk
        obtain rfl : me = you := Option.some.inj (howner.symm.trans (owns_iff.mp hk).2)
        rw [hothers j hji] at hj
        cases hj
      · rw [Function.update_of_ne hki] at hk
        exact h.single j k you hj hk

theorem Assigned.renew (h : Assigned may slots) (ha : (slots i).active = true)
    (hn : Renewed (slots i) slot) : Assigned may (Function.update slots i slot) := by
  obtain ⟨me, howner, hmay⟩ := h.owned i ha
  have ho : HsStatics.owns me (slots i) = true := owns_iff.mpr ⟨ha, howner⟩
  have hfirst : ∀ j < i, HsStatics.owns me (slots j) = false := by
    intro j hj
    rw [← Bool.not_eq_true]
    intro hown
    exact hj.ne (h.single j i me hown ho)
  exact h.place ⟨hfirst, Or.inl ⟨ho, rfl⟩⟩ ((hn.owns me).trans ho) (hn.ctx ▸ hmay)

/-- A fragment may be stored if its session may hold the context it leads to. -/
structure Storable (may : SessionRef → FragmentRxCtx → Prop) (me : SessionRef) (h : FragmentHeader)
    (payload : Bytes) : Prop where
  init : may me fragmentRxInit
  add : ∀ ctx ctx', may me ctx →
    fragmentRxAdd ctx h.msgType h.nodeId h.msgId h.fragIdx h.totalFrags payload = (true, ctx') →
    may me ctx'

theorem Fills.may_ctx {ctx : FragmentRxCtx} (hf : Fills me h payload slots i ctx)
    (ha : Assigned may slots) (hs : Storable may me h payload) : may me ctx := by
  obtain ⟨slot, hacq, hadd⟩ := hf
  exact hs.add _ _ (hacq.may_ctx ha hs.init) hadd

theorem Finishes.may_ctx {ctx : FragmentRxCtx} (hf : Finishes me h payload slots ctx slots')
    (ha : Assigned may slots) (hs : Storable may me h payload) : may me ctx := by
  obtain ⟨slots₀, i, hcol, hfills, -, -⟩ := hf
  exact hfills.may_ctx (ha.collect hcol) hs

/-- What leaves its message incomplete stays in a slot; a slot whose message is complete is given
back. -/
theorem Handled.assigned_of_incomplete (hh : Handled P me rnd h payload f f')
    (ha : Assigned may f.hs.rxSlots) (hinit : may me fragmentRxInit)
    (hadd : ∀ ctx ctx', may me ctx →
      fragmentRxAdd ctx h.msgType h.nodeId h.msgId h.fragIdx h.totalFrags payload = (true, ctx') →
      fragmentRxComplete ctx' = false → may me ctx') : Assigned may f'.hs.rxSlots := by
  cases hh with
  | incomplete hi =>
    cases hi with
    | quiet _ hc | resent _ hc _ => exact ha.collect hc
    | refused hc hacq =>
      have ha' := ha.collect hc
      exact ha'.place hacq hacq.owns (hacq.may_ctx ha' hinit)
    | stored _ hc hf hinc ho _ =>
      have ha' := ha.collect hc
      obtain ⟨slot, hacq, hfill⟩ := hf
      exact ha'.place hacq ho (hadd _ _ (hacq.may_ctx ha' hinit) hfill hinc)
  | confirmed _ _ _ _ hc _ => exact ha.collect hc
  | ct _ _ _ hf hc =>
    cases hc with
    | rejected _ _ | failed _ _ _ | established _ _ _ _ _ => exact ha.collect hf.collected
  | pk _ _ _ hf hc =>
    cases hc with
    | rejected _ _ | failed _ _ _ _ | sent _ _ _ _ => exact ha.collect hf.collected
  | ack _ _ _ hf _ _ _ => exact ha.collect hf.collected

theorem Handled.assigned (hh : Handled P me rnd h payload f f') (ha : Assigned may f.hs.rxSlots)
    (hs : Storable may me h payload) : Assigned may f'.hs.rxSlots :=
  hh.assigned_of_incomplete ha hs.init fun ctx ctx' hm hadd _ => hs.add ctx ctx' hm hadd

theorem Retried.assigned (hr : Retried f f') (ha : Assigned may f.hs.rxSlots) :
    Assigned may f'.hs.rxSlots := by
  cases hr with
  | waited _ hc | failed _ _ _ hc _ | resent _ _ hc _ | stray _ hc _ => exact ha.collect hc
  | asked _ _ hc hact hn _ => exact (ha.collect hc).renew hact hn

theorem hsFsmRootInitKeypair_slots (P : Platform) (rnd : Entropy) (hs : HsStatics) :
    (hs.hsFsmRootInitKeypair P rnd).2.rxSlots = hs.rxSlots := by
  unfold HsStatics.hsFsmRootInitKeypair
  split <;> rfl

theorem Started.assigned (hst : Started ((f.hs.setSlots slots).hsFsmRootInitKeypair P rnd).2 f f')
    (hc : Collected f.hs.rxSlots slots) (ha : Assigned may f.hs.rxSlots) :
    Assigned may f'.hs.rxSlots := by
  rw [hst.statics, hsFsmRootInitKeypair_slots]
  exact ha.collect hc

/-- A context that took a fragment is about the fragment's node. -/
theorem fragmentRxAdd_nodeId {ctx ctx' : FragmentRxCtx} {msgType msgId : UInt8} {nodeId : UInt16}
    {fragIdx totalFrags : ℕ} {data : Bytes}
    (hadd : fragmentRxAdd ctx msgType nodeId msgId fragIdx totalFrags data = (true, ctx')) :
    ctx'.nodeId = nodeId := by
  unfold fragmentRxAdd at hadd
  split at hadd
  · cases hadd
  · split at hadd
    · cases hadd
    · rename_i hmatch
      obtain rfl := (Prod.mk.inj hadd).2
      have hstore : ∀ c : FragmentRxCtx, (c.store fragIdx data).nodeId = c.nodeId := by
        intro c
        unfold FragmentRxCtx.store
        split <;> rfl
      rw [hstore, FragmentRxCtx.claim]
      split
      · rename_i hact
        by_contra hne
        exact hmatch ⟨hact, fun hm => hne hm.2.1⟩
      · rfl

end PqcContiki
