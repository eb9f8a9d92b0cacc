import PqcContiki.SlotOwners

/-!
Reassembly of fragments whose senders are known: each piece of a context comes from one of the
messages that were out under its id, though not all pieces need come from the same one.
-/
namespace PqcContiki

open Memory

variable {m : Message} {φ ψ : Message → Prop} {n i k : ℕ} {ctx ctx' : FragmentRxCtx}
  {t msgId : UInt8} {id : UInt16} {src src' : UInt8 → Message → Prop} {p d : Bytes}
  {h : FragmentHeader}

/-- Fragment `i` of a message as it lies in the buffer. -/
def HasPiece (m : Message) (i : ℕ) (buffer : ℕ → UInt8) : Prop :=
  ∀ k, i * 64 ≤ k → k < i * 64 + (m.payload i).length → buffer k = m.data.getD k 0

/-- An active context of `n` fragments, each of them from a message in `φ`. -/
structure Patchwork (φ : Message → Prop) (n : ℕ) (ctx : FragmentRxCtx) : Prop where
  active : ctx.active = true
  total : ctx.totalFrags = n
  bound : ∀ i, ctx.bitmap i = true → i < n
  frags : ctx.receivedFrags = population ctx.bitmap n
  pieces : ∀ i, ctx.bitmap i = true → ∃ m, φ m ∧ HasPiece m i ctx.buffer

namespace Patchwork

theorem mono (hp : Patchwork φ n ctx)
    (hsub : ∀ m, φ m → ψ m) : Patchwork ψ n ctx where
  active := hp.active
  total := hp.total
  bound := hp.bound
  frags := hp.frags
  pieces := by
    intro i hi
    obtain ⟨m, hm, hpiece⟩ := hp.pieces i hi
    exact ⟨m, hsub m hm, hpiece⟩

theorem claim_init (t : UInt8) (id : UInt16) (msgId : UInt8) :
    Patchwork φ n (fragmentRxInit.claim t id msgId n) := by
  constructor <;> simp [FragmentRxCtx.claim, fragmentRxInit, population_false]

/-- Storing a piece leaves the others in place. -/
theorem store (hp : Patchwork φ n ctx) (hm : φ m) (hcount : m.count = n) (hi : i < n) :
    Patchwork φ n (ctx.store i (m.payload i)) := by
  by_cases hb : ctx.bitmap i = true
  · simpa [FragmentRxCtx.store, hb] using hp
  have hb : ctx.bitmap i = false := by simpa using hb
  have hpop := population_update hi hb
  have hle := m.count_le
  have hple := population_le (Function.update ctx.bitmap i true) n
  simp only [fragMaxFrags, fragMaxMessageLen, fragMaxPayloadLen] at hle
  constructor
  case active => simpa [FragmentRxCtx.store, hb] using hp.active
  case total => simpa [FragmentRxCtx.store, hb] using hp.total
  case bound =>
    intro j hj
    by_cases hji : j = i
    · exact hji ▸ hi
    · simp only [FragmentRxCtx.store, hb, Bool.false_eq_true, if_false,
        Function.update_of_ne hji] at hj
      exact hp.bound j hj
  case frags =>
    simp only [FragmentRxCtx.store, hb, Bool.false_eq_true, if_false, hp.frags, hpop]
    omega
  case pieces =>
    intro j hj
    simp only [FragmentRxCtx.store, hb, Bool.false_eq_true, if_false] at hj ⊢
    by_cases hji : j = i
    · subst j
      refine ⟨m, hm, ?_⟩
      intro k hlo hhi
      rw [blit_inside hlo hhi, Message.payload_getElem, Nat.add_sub_cancel' hlo]
    · obtain ⟨m', hm', hpiece⟩ := hp.pieces j (by simpa [Function.update_of_ne hji] using hj)
      refine ⟨m', hm', ?_⟩
      intro k hlo hhi
      have hlj := m'.payload_length_le j
      have hli := m.payload_length_le i
      simp only [fragMaxPayloadLen] at hlj hli
      rw [blit_outside (by simp only [fragMaxPayloadLen]; omega)]
      exact hpiece k hlo hhi

theorem bitmap_of_complete (hp : Patchwork φ n ctx) (hc : fragmentRxComplete ctx = true)
    (hi : i < n) : ctx.bitmap i = true := by
  simp only [fragmentRxComplete, hp.active, Bool.true_and, beq_iff_eq, hp.total, hp.frags] at hc
  exact population_eq_iff.mp hc i hi

/-- A complete context has every piece from somewhere. -/
theorem piece_of_complete (hp : Patchwork φ n ctx) (hc : fragmentRxComplete ctx = true)
    (hi : i < n) : ∃ m, φ m ∧ HasPiece m i ctx.buffer :=
  hp.pieces i (hp.bitmap_of_complete hc hi)

/-- If only one message was out, a complete context holds it. -/
theorem byte_of_complete (hp : Patchwork φ n ctx) (hc : fragmentRxComplete ctx = true)
    (hone : ∀ m', φ m' → m' = m) (hcount : m.count = n) (hk : k < m.data.length) :
    ctx.buffer k = m.data.getD k 0 := by
  have hn := m.count_eq
  have hlen := m.payload_length (k / 64)
  obtain ⟨m', hm', hpiece⟩ := hp.piece_of_complete hc (i := k / 64) (by omega)
  obtain rfl := hone m' hm'
  exact hpiece k (by omega) (by omega)

end Patchwork

/-- A packet of type `t` about node `id` is a fragment of a message that `src` has under its id. -/
def Carries (t : UInt8) (id : UInt16) (src : UInt8 → Message → Prop) (p : Bytes) : Prop :=
  pqcHeaderGetNodeId p = id → byteAt p pqcHdrMsgType = t →
    ∃ msgId m, src msgId m ∧ IsFragmentOf m t id msgId p

/-- A context of type `t` about node `id` is put together from such messages. -/
structure Collects (t : UInt8) (id : UInt16) (n : ℕ) (src : UInt8 → Message → Prop)
    (ctx : FragmentRxCtx) : Prop where
  idle : ctx.active = false → ctx = fragmentRxInit
  patchwork : ctx.active = true → ctx.msgType = t → ctx.nodeId = id →
    Patchwork (src ctx.msgId) n ctx

theorem Carries.mono (hc : Carries t id src p) (hsub : ∀ msgId m, src msgId m → src' msgId m) :
    Carries t id src' p := by
  intro hid ht
  obtain ⟨msgId, m, hm, hp⟩ := hc hid ht
  exact ⟨msgId, m, hsub msgId m hm, hp⟩

theorem Collects.mono (hc : Collects t id n src ctx)
    (hsub : ∀ msgId m, src msgId m → src' msgId m) :
    Collects t id n src' ctx where
  idle := hc.idle
  patchwork := fun ha ht hid => (hc.patchwork ha ht hid).mono (hsub ctx.msgId)

theorem collects_init : Collects t id n src fragmentRxInit where
  idle := fun _ => rfl
  patchwork := by
    intro ha
    cases ha

theorem carries_of_fragment {msgType : UInt8} {nodeId : UInt16}
    (hp : IsFragmentOf m msgType nodeId msgId p)
    (hsrc : msgType = t → nodeId = id → src msgId m) : Carries t id src p := by
  obtain ⟨flags, i, hi, rfl⟩ := hp
  intro hid ht
  have hid' : nodeId = id := pqcHeaderGetNodeId_write.symm.trans hid
  have ht' : msgType = t := ht
  subst hid' ht'
  exact ⟨msgId, m, hsrc rfl rfl, flags, i, hi, rfl⟩

theorem carries_of_kind {msgType : UInt8} {nodeId : UInt16} (hk : IsKind msgType nodeId p)
    (hne : msgType ≠ t) : Carries t id src p := by
  intro _ ht
  exact absurd (hk.1.symm.trans ht) hne

theorem store_bitmap_key (ctx : FragmentRxCtx) (i : ℕ) (data : Bytes) :
    (ctx.store i data).active = ctx.active ∧ (ctx.store i data).msgType = ctx.msgType ∧
      (ctx.store i data).nodeId = ctx.nodeId ∧ (ctx.store i data).msgId = ctx.msgId ∧
      (ctx.store i data).totalFrags = ctx.totalFrags := by
  unfold FragmentRxCtx.store
  split <;> exact ⟨rfl, rfl, rfl, rfl, rfl⟩

/-- A context that took a fragment is an active one of the fragment's message. -/
theorem fragmentRxAdd_some {totalFrags : ℕ} {data : Bytes}
    (hadd : fragmentRxAdd ctx t id msgId i totalFrags data = (true, ctx')) :
    FragmentInBounds i totalFrags data.length ∧
      (ctx.active = true → ctx.Matches t id msgId totalFrags) ∧
      ctx' = (ctx.claim t id msgId totalFrags).store i data ∧ ctx'.active = true ∧
      ctx'.Matches t id msgId totalFrags := by
  unfold fragmentRxAdd at hadd
  split at hadd
  · cases hadd
  · rename_i hb
    split at hadd
    · cases hadd
    · rename_i hmatch
      obtain rfl := (Prod.mk.inj hadd).2
      have hm : ctx.active = true → ctx.Matches t id msgId totalFrags := by
        intro ha
        by_contra hne
        exact hmatch ⟨ha, hne⟩
      obtain ⟨hact, htype, hid, hmsg, htotal⟩ :=
        store_bitmap_key (ctx.claim t id msgId totalFrags) i data
      refine ⟨not_not.mp hb, hm, rfl, ?_⟩
      rw [FragmentRxCtx.Matches, hact, htype, hid, hmsg, htotal, FragmentRxCtx.claim]
      cases ha : ctx.active with
      | true =>
        rw [if_pos rfl]
        exact ⟨ha, hm ha⟩
      | false => exact ⟨rfl, rfl, rfl, rfl, rfl⟩

/-- A fragment of a message in `src` keeps every context one of `src`. -/
theorem storable_collects (hn : ∀ msgId m, src msgId m → m.count = n) (hd : Carries t id src d)
    (hparse : parseFragmentHeader d = some h) (me : SessionRef) :
    Storable (fun _ => Collects t id n src) me h (h.payload d) where
  init := collects_init
  add := by
    intro ctx ctx' hc hadd
    obtain ⟨-, hm, rfl, hact, htype, hnode, hmsg, htotal⟩ := fragmentRxAdd_some hadd
    refine ⟨fun hidle => absurd (hact.symm.trans hidle) (by decide), ?_⟩
    intro _ ht hid
    have hkind := isKind_of_parse hparse
    obtain ⟨msgId, m, hsrc, flags, i, hi, rfl⟩ :=
      hd (hkind.2.trans (hnode.symm.trans hid)) (hkind.1.trans (htype.symm.trans ht))
    rw [m.parse_packet hi] at hparse
    obtain rfl := (Option.some.inj hparse).symm
    dsimp only at hm hmsg ⊢
    rw [hmsg, Message.payload_packet _ rfl]
    have hcount := hn msgId m hsrc
    refine Patchwork.store ?_ hsrc hcount (hcount ▸ hi)
    cases ha : ctx.active with
    | false =>
      rw [hc.idle ha, hcount]
      exact Patchwork.claim_init ..
    | true =>
      obtain ⟨htype', hnode', hmsg', -⟩ := hm ha
      rw [FragmentRxCtx.claim, if_pos ha, ← hmsg']
      exact hc.patchwork ha htype' hnode'

/-- A message put together from fragments that `src` sent. -/
theorem Finishes.patchwork {me : SessionRef} {payload : Bytes} {slots slots' : Slots}
    (hf : Finishes me h payload slots ctx slots')
    (ha : Assigned (fun _ => Collects t id n src) slots)
    (hs : Storable (fun _ => Collects t id n src) me h payload) (hid : h.nodeId = id)
    (htype : h.msgType = t) :
    Patchwork (src ctx.msgId) n ctx ∧ fragmentRxComplete ctx = true := by
  have hmay := hf.may_ctx ha hs
  obtain ⟨-, -, -, ⟨slot, -, hadd⟩, hcomplete, -⟩ := hf
  obtain ⟨-, -, -, hact, htype', hnode, -, -⟩ := fragmentRxAdd_some hadd
  exact ⟨hmay.patchwork hact (htype'.trans htype) (hnode.trans hid), hcomplete⟩

end PqcContiki
