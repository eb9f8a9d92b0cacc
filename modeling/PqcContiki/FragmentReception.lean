import PqcContiki.AtomicSends
import PqcContiki.QueueSoundness
import PqcContiki.SessionTable

/-!
The way of a fragment through `hs_fsm_handle_fragment` to the reassembly, and what the
reassembly does with it.
-/
namespace PqcContiki

open TxQueue

variable {P : Platform} {me : SessionRef} {clk : Clock} {rnd : Entropy} {conn : UdpConn}
  {dest : IpAddr} {h : FragmentHeader} {payload : Bytes} {f f' : Fsm} {hs : HsStatics}
  {i : Fin hsRxSlotCount} {ctx : FragmentRxCtx}

/-- The types a session of either role can wait for, and the NACKs it serves. -/
def Expected : SessionRole → UInt8 → Prop
  | .root, msgType => msgType = pqcMsgCt ∨ msgType = pqcMsgNack
  | .node, msgType => msgType = pqcMsgPk ∨ msgType = pqcMsgAck ∨ msgType = pqcMsgNack

/-- The packet is dropped before the reassembly sees it. -/
def Dropped (data : Bytes) (s : Session) : Prop :=
  ∀ h, parseFragmentHeader data = some h → ¬ Names h s

/-- The slots as the collections of expired ones leave them: one at the start of the call, and one
more when a slot is looked for. -/
def SweptTo (P : Platform) (clk : Clock) (data : Bytes) (f : Fsm) (slots : Slots) : Prop :=
  (Dropped data f.s ∧ slots = (f.hs.rxSlotsGc P (clk 0)).rxSlots) ∨
    (¬ Dropped data f.s ∧ slots = ((f.hs.rxSlotsGc P (clk 0)).rxSlotsGc P (clk 1)).rxSlots)

/-- Nothing that the handshake depends on changed, but for the collection of expired slots. -/
structure Harmless (P : Platform) (clk : Clock) (data : Bytes) (f f' : Fsm) : Prop where
  slots : SweptTo P clk data f f'.hs.rxSlots
  tx : f'.tx = f.tx
  state : f'.s.state = f.s.state
  pendingMsgType : f'.s.pendingMsgType = f.s.pendingMsgType
  pendingMsgId : f'.s.pendingMsgId = f.s.pendingMsgId
  waitingResponse : f'.s.waitingResponse = f.s.waitingResponse
  retryCount : f'.s.retryCount = f.s.retryCount
  retryDeadline : f'.s.retryDeadline = f.s.retryDeadline
  ss : f'.s.ss = f.s.ss
  aesKey : f'.s.aesKey = f.s.aesKey

/-- The reassembly has no use for the fragment, with the slots `hs` and the queue `tx`. -/
def Useless (P : Platform) (me : SessionRef) (now : ℕ) (h : FragmentHeader) (hs : HsStatics)
    (tx : TxQueue) : Prop :=
  match hs.rxSlotFind me with
  -- without a slot: there is none to take, or it is given back at once
  | none => h.totalFrags = 1 ∨ ∀ i, (hs.rxSlots i).active = true
  -- with a slot: it is about another message, or the fragment is a duplicate and no NACK goes out
  | some i =>
    (hs.rxSlots i).ctx.active = true ∧
      (¬ (hs.rxSlots i).ctx.Matches h.msgType h.nodeId h.msgId h.totalFrags ∨
        ((hs.rxSlots i).ctx.bitmap h.fragIdx = true ∧
          fragmentRxComplete (hs.rxSlots i).ctx = false ∧
          (hs.rxSlotNackDue P now me i h.fragIdx = false ∨
            (pqcNackBuildFromRx (hs.rxSlots i).ctx (pqcNackInit 0 0 0) pqcNackMaxMissing).1 = 0 ∨
            tx.pqcTxFreeSlots = 0)))

/-- The packet is dropped, or the reassembly has no use for it. -/
def Spared (P : Platform) (me : SessionRef) (clk : Clock) (data : Bytes) (f : Fsm) : Prop :=
  ∀ h, parseFragmentHeader data = some h → Names h f.s →
    Useless P me (clk 3) h ((f.hs.rxSlotsGc P (clk 0)).rxSlotsGc P (clk 1)) f.tx

theorem handleParsed_unexpected (hu : ¬ Expected f.s.role h.msgType) (dst : UdpSendCtx) :
    f.handleParsed P me clk rnd dst h payload = f.storeFragment P me clk rnd dst h payload := by
  unfold Fsm.handleParsed
  simp only [Session.sessionIsNode, Session.sessionIsRoot, beq_iff_eq]
  cases hr : f.s.role with
  | root =>
    simp only [hr, Expected, not_or] at hu
    simp [hu.1, hu.2]
  | node =>
    simp only [hr, Expected, not_or] at hu
    simp [hu.1, hu.2.1, hu.2.2]

theorem completeMessage_unexpected (hu : ¬ Expected f.s.role h.msgType) (dst : UdpSendCtx) :
    f.completeMessage P me clk rnd dst h ctx = (false, f.rxSlotRelease me) := by
  unfold Fsm.completeMessage
  simp only [Session.sessionIsNode, Session.sessionIsRoot, beq_iff_eq]
  cases hr : f.s.role with
  | root =>
    simp only [hr, Expected, not_or] at hu
    simp [hu.1]
  | node =>
    simp only [hr, Expected, not_or] at hu
    simp [hu.1, hu.2.1]

theorem inBounds_of_parse {data : Bytes} (hp : parseFragmentHeader data = some h) :
    FragmentInBounds h.fragIdx h.totalFrags (h.payload data).length := by
  have hpay : (h.payload data).length ≤ h.fragLen := List.length_take_le _ _
  unfold parseFragmentHeader at hp
  split at hp
  · cases hp
  · dsimp only at hp
    split at hp
    · cases hp
    · rename_i hfields
      split at hp
      · have hh := Option.some.inj hp
        push Not at hfields
        obtain ⟨h0, hle, hlt, hlen⟩ := hfields
        have htot : (byteAt data pqcHdrTotalFrags).toNat = h.totalFrags := by rw [← hh]
        have hidx : (byteAt data pqcHdrFragIdx).toNat = h.fragIdx := by rw [← hh]
        have hfl : (byteAt data pqcHdrPayloadLen).toNat = h.fragLen := by rw [← hh]
        rw [htot] at h0 hle hlt
        rw [hidx] at hlt
        rw [hfl] at hlen
        simp only [FragmentInBounds, fragMaxFrags, fragMaxMessageLen, fragMaxPayloadLen] at *
        refine ⟨h0, hlt, hle, by omega, by omega⟩
      · cases hp

/-- A fragment within bounds is refused only by a context of another message. -/
theorem fragmentRxAdd_inBounds (ctx : FragmentRxCtx)
    (hb : FragmentInBounds h.fragIdx h.totalFrags payload.length) :
    fragmentRxAdd ctx h.msgType h.nodeId h.msgId h.fragIdx h.totalFrags payload =
      if ctx.active = true ∧ ¬ ctx.Matches h.msgType h.nodeId h.msgId h.totalFrags then (false, ctx)
      else (true, (ctx.claim h.msgType h.nodeId h.msgId h.totalFrags).store h.fragIdx payload) := by
  rw [fragmentRxAdd, if_neg (not_not.mpr hb)]

theorem store_eq_self_iff (ctx : FragmentRxCtx) (i : ℕ) (data : Bytes) :
    ctx.store i data = ctx ↔ ctx.bitmap i = true := by
  constructor
  · intro hs
    rw [← hs]
    exact (Reassembling.store_bitmap ctx i data i).mpr (Or.inr rfl)
  · intro hb
    rw [FragmentRxCtx.store, if_pos hb]

/-- What a stored fragment of an unexpected message leads to. -/
theorem storeFragment_stored (hu : ¬ Expected f.s.role h.msgType) {ctx' : FragmentRxCtx}
    (dst : UdpSendCtx) (hget : f.hs.rxSlotGet P (clk 1) (clk 2) me = (some i, hs))
    (hadd : fragmentRxAdd (hs.rxSlots i).ctx h.msgType h.nodeId h.msgId h.fragIdx h.totalFrags
      payload = (true, ctx')) :
    (f.storeFragment P me clk rnd dst h payload).2 =
      let g : Fsm := ⟨f.s.mapMetrics .noteFragmentRx,
        hs.setSlot i { hs.rxSlots i with ctx := ctx' }, f.tx, f.obs⟩
      if fragmentRxComplete ctx' then g.rxSlotRelease me
      else g.requestMissing P me clk dst i h.fragIdx := by
  unfold Fsm.storeFragment
  simp only [hget, Fsm.mapHs_hs, hadd, Bool.not_true, Bool.false_eq_true, if_false]
  cases hc : fragmentRxComplete ctx' with
  | true =>
    simp only [Bool.not_true, Bool.false_eq_true, if_false, if_true]
    rw [completeMessage_unexpected]
    · rfl
    · exact hu
  | false =>
    simp only [Bool.not_false, Bool.false_eq_true, if_false, if_true]
    rfl

theorem requestMissing_quiet {dst : UdpSendCtx} {fragIdx : ℕ}
    (hquiet : f.hs.rxSlotNackDue P (clk 3) me i fragIdx = false ∨ (f.nackFor i).1 = 0 ∨
      f.tx.pqcTxFreeSlots = 0) : f.requestMissing P me clk dst i fragIdx = f := by
  unfold Fsm.requestMissing
  split
  · rename_i hdue
    rcases hquiet with hnot | hsilent
    · rw [hdue] at hnot
      cases hnot
    · rw [sendNack_silent hsilent]
      simp [Fsm.rxSlotNoteNack]
  · rfl

theorem requestMissing_tx (hq : f.tx.WellFormed) {fragIdx : ℕ}
    (hdue : f.hs.rxSlotNackDue P (clk 3) me i fragIdx = true) (hn : (f.nackFor i).1 ≠ 0)
    (hfree : f.tx.pqcTxFreeSlots ≠ 0) :
    (f.requestMissing P me clk ⟨some conn, some dest⟩ i fragIdx).tx ≠ f.tx := by
  obtain ⟨m, q, hone, hsend, hqueued⟩ := sendNack_room hq hn hfree conn dest
  have hlen := m.length_packets pqcMsgNack f.s.nodeId f.s.nextMsgId pqcFlagNone
  have htx : (f.requestMissing P me clk ⟨some conn, some dest⟩ i fragIdx).tx = q := by
    rw [Fsm.requestMissing, if_pos hdue, hsend]
    unfold Fsm.rxSlotNoteNack
    dsimp only
    split <;> rfl
  rw [htx]
  rintro rfl
  have hcard := congrArg Multiset.card hqueued
  simp only [Multiset.card_add, Multiset.coe_card, List.length_map, hlen] at hcard
  simp only [Message.count] at hone
  omega

/-- The answer to a fragment leaves the message in every slot. -/
theorem requestMissing_renews {dst : UdpSendCtx} {fragIdx : ℕ} {slots : Slots}
    (hs : (f.requestMissing P me clk dst i fragIdx).hs.rxSlots = slots) (j : Fin hsRxSlotCount) :
    Renewed (f.hs.rxSlots j) (slots j) := by
  rw [← hs]
  unfold Fsm.requestMissing
  split
  · obtain ⟨s, tx, hsend, -, -⟩ := sendNack_cases dst i f
    generalize f.sendNack dst i = r at hsend
    obtain ⟨n, g⟩ := r
    obtain rfl : g = _ := hsend
    unfold Fsm.rxSlotNoteNack
    dsimp only
    split
    · exact .refl _
    · by_cases hji : j = i
      · subst j
        simp only [Fsm.mapS_hs, Fsm.mapHs_hs, HsStatics.setSlot_rxSlots, Function.update_self]
        exact ⟨rfl, rfl, rfl⟩
      · simp only [Fsm.mapS_hs, Fsm.mapHs_hs, HsStatics.setSlot_rxSlots,
          Function.update_of_ne hji]
        exact .refl _
  · exact .refl _

theorem rxSlotGet_own {gcNow : ℕ} (now : ℕ)
    (hf : (hs.rxSlotsGc P gcNow).rxSlotFind me = some i) :
    hs.rxSlotGet P gcNow now me = (some i, hs.rxSlotsGc P gcNow) := by
  simp only [HsStatics.rxSlotGet, hf]

theorem rxSlotGet_full {gcNow : ℕ} (now : ℕ) (hf : (hs.rxSlotsGc P gcNow).rxSlotFind me = none)
    (hfull : ∀ i, ((hs.rxSlotsGc P gcNow).rxSlots i).active = true) :
    hs.rxSlotGet P gcNow now me = (none, hs.rxSlotsGc P gcNow) := by
  have hnone : ((List.finRange hsRxSlotCount).find? fun i =>
      !((hs.rxSlotsGc P gcNow).rxSlots i).active) = none := by
    apply List.find?_eq_none.mpr
    intro i _
    simp [hfull i]
  simp only [HsStatics.rxSlotGet, hf, hnone]

theorem rxSlotGet_new {gcNow : ℕ} (now : ℕ) (hf : (hs.rxSlotsGc P gcNow).rxSlotFind me = none)
    (hfree : ∃ i, ((hs.rxSlotsGc P gcNow).rxSlots i).active = false) :
    ∃ i, ((hs.rxSlotsGc P gcNow).rxSlots i).active = false ∧
      hs.rxSlotGet P gcNow now me = (some i, (hs.rxSlotsGc P gcNow).setSlot i
        ⟨true, some me, now, 0, 0, 0, fragmentRxInit⟩) := by
  obtain ⟨k, hk⟩ := hfree
  cases hfind : (List.finRange hsRxSlotCount).find? fun i =>
      !((hs.rxSlotsGc P gcNow).rxSlots i).active with
  | none =>
    have hno := List.find?_eq_none.mp hfind k (List.mem_finRange k)
    simp [hk] at hno
  | some i =>
    have hi := List.find?_some hfind
    refine ⟨i, by simpa using hi, ?_⟩
    simp only [HsStatics.rxSlotGet, hf, hfind]

/-- The context a fragment leaves in a new slot. -/
theorem complete_store_claim (h : FragmentHeader) (payload : Bytes) :
    fragmentRxComplete ((fragmentRxInit.claim h.msgType h.nodeId h.msgId h.totalFrags).store
      h.fragIdx payload) = true ↔ 1 = h.totalFrags := by
  simp [fragmentRxComplete, FragmentRxCtx.store, FragmentRxCtx.claim, fragmentRxInit]

theorem claim_store_active (h : FragmentHeader) (payload : Bytes) :
    ((ctx.claim h.msgType h.nodeId h.msgId h.totalFrags).store h.fragIdx payload).active =
      true := by
  have hclaim : (ctx.claim h.msgType h.nodeId h.msgId h.totalFrags).active = true := by
    unfold FragmentRxCtx.claim
    split
    · assumption
    · rfl
  unfold FragmentRxCtx.store
  split
  · exact hclaim
  · exact hclaim

/-- A new slot takes any fragment. -/
theorem fragmentRxAdd_new {now : ℕ} (hb : FragmentInBounds h.fragIdx h.totalFrags payload.length) :
    fragmentRxAdd ((hs.setSlot i ⟨true, some me, now, 0, 0, 0, fragmentRxInit⟩).rxSlots i).ctx
      h.msgType h.nodeId h.msgId h.fragIdx h.totalFrags payload =
      (true, (fragmentRxInit.claim h.msgType h.nodeId h.msgId h.totalFrags).store h.fragIdx
        payload) := by
  rw [fragmentRxAdd_inBounds _ hb, HsStatics.setSlot_rxSlots, Function.update_self]
  exact if_neg (by simp [fragmentRxInit])

theorem storeFragment_useless (rnd : Entropy) (hu : ¬ Expected f.s.role h.msgType)
    (hb : FragmentInBounds h.fragIdx h.totalFrags payload.length) (dst : UdpSendCtx)
    (htidy : ∀ i, ((f.hs.rxSlotsGc P (clk 1)).rxSlots i).active = false →
      (f.hs.rxSlotsGc P (clk 1)).rxSlots i = RxSlot.zero)
    (hno : Useless P me (clk 3) h (f.hs.rxSlotsGc P (clk 1)) f.tx) :
    let f' := (f.storeFragment P me clk rnd dst h payload).2
    f'.hs.rxSlots = (f.hs.rxSlotsGc P (clk 1)).rxSlots ∧ f'.tx = f.tx ∧
      ∃ g, f'.s = f.s.mapMetrics g := by
  unfold Useless at hno
  cases hf : (f.hs.rxSlotsGc P (clk 1)).rxSlotFind me with
  | none =>
    simp only [hf] at hno
    by_cases hfull : ∀ i, ((f.hs.rxSlotsGc P (clk 1)).rxSlots i).active = true
    · unfold Fsm.storeFragment
      simp only [rxSlotGet_full (clk 2) hf hfull]
      exact ⟨rfl, rfl, id, rfl⟩
    · have hone := hno.resolve_right hfull
      push Not at hfull
      obtain ⟨i, hidle, hget⟩ := rxSlotGet_new (clk 2) hf
        (hfull.imp fun _ => by simp)
      rw [storeFragment_stored hu dst hget (fragmentRxAdd_new hb)]
      dsimp only
      rw [if_pos ((complete_store_claim h payload).mpr hone.symm), Fsm.rxSlotRelease_eq]
      refine ⟨?_, rfl, _, rfl⟩
      have hnew : Acquired me (f.hs.rxSlotsGc P (clk 1)).rxSlots i
          ⟨true, some me, clk 2, 0, 0, 0, fragmentRxInit⟩ :=
        ⟨fun j _ => rxSlotFind_none hf j, Or.inr ⟨rxSlotFind_none hf, hidle, _, rfl⟩⟩
      change released me (Function.update (Function.update _ i _) i _) = _
      rw [Function.update_idem, hnew.released (by simp [HsStatics.owns]), ← htidy i hidle,
        Function.update_eq_self]
  | some i =>
    simp only [hf] at hno
    obtain ⟨hact, hno⟩ := hno
    have hadd := fragmentRxAdd_inBounds ((f.hs.rxSlotsGc P (clk 1)).rxSlots i).ctx hb
    by_cases hmatch : ((f.hs.rxSlotsGc P (clk 1)).rxSlots i).ctx.Matches h.msgType h.nodeId
        h.msgId h.totalFrags
    · obtain ⟨hdup, hinc, hquiet⟩ := hno.resolve_left (not_not.mpr hmatch)
      rw [if_neg (by tauto), FragmentRxCtx.claim, if_pos hact,
        (store_eq_self_iff _ _ _).mpr hdup] at hadd
      rw [storeFragment_stored hu dst (rxSlotGet_own (clk 2) hf) hadd]
      dsimp only
      rw [if_neg (by simp [hinc]), HsStatics.setSlot, Function.update_eq_self,
        requestMissing_quiet hquiet]
      exact ⟨rfl, rfl, _, rfl⟩
    · rw [if_pos ⟨hact, hmatch⟩] at hadd
      unfold Fsm.storeFragment
      simp only [rxSlotGet_own (clk 2) hf, Fsm.mapHs_hs, hadd]
      exact ⟨rfl, rfl, id, rfl⟩

theorem storeFragment_useful (rnd : Entropy) (hu : ¬ Expected f.s.role h.msgType)
    (hq : f.tx.WellFormed)
    (hb : FragmentInBounds h.fragIdx h.totalFrags payload.length) (conn : UdpConn) (dest : IpAddr)
    (huse : ¬ Useless P me (clk 3) h (f.hs.rxSlotsGc P (clk 1)) f.tx) :
    let f' := (f.storeFragment P me clk rnd ⟨some conn, some dest⟩ h payload).2
    f'.hs.rxSlots ≠ (f.hs.rxSlotsGc P (clk 1)).rxSlots ∨ f'.tx ≠ f.tx := by
  unfold Useless at huse
  cases hf : (f.hs.rxSlotsGc P (clk 1)).rxSlotFind me with
  | none =>
    simp only [hf, not_or, not_forall, Bool.not_eq_true] at huse
    obtain ⟨i, hidle, hget⟩ := rxSlotGet_new (clk 2) hf huse.2
    left
    rw [storeFragment_stored hu _ hget (fragmentRxAdd_new hb)]
    dsimp only
    rw [if_neg (by rw [complete_store_claim]; exact fun h1 => huse.1 h1.symm)]
    -- the new slot stays with the session
    intro hsame
    have hkept := (requestMissing_renews hsame i).active
    rw [hidle] at hkept
    simp at hkept
  | some i =>
    simp only [hf] at huse
    have hget := rxSlotGet_own (clk 2) hf
    set hs := f.hs.rxSlotsGc P (clk 1) with hhs
    have hadd := fragmentRxAdd_inBounds (hs.rxSlots i).ctx hb
    by_cases hrefused : (hs.rxSlots i).ctx.active = true ∧
        ¬ (hs.rxSlots i).ctx.Matches h.msgType h.nodeId h.msgId h.totalFrags
    · exact absurd ⟨hrefused.1, Or.inl hrefused.2⟩ huse
    · rw [if_neg hrefused] at hadd
      set ctx' := ((hs.rxSlots i).ctx.claim h.msgType h.nodeId h.msgId h.totalFrags).store
        h.fragIdx payload with hctx'
      rw [storeFragment_stored hu _ hget hadd]
      dsimp only
      by_cases hc : fragmentRxComplete ctx' = true
      · -- the slot is given back
        left
        rw [if_pos hc, Fsm.rxSlotRelease_eq]
        have hacq : Acquired me hs.rxSlots i (hs.rxSlots i) :=
          ⟨(rxSlotFind_some hf).2, Or.inl ⟨(rxSlotFind_some hf).1, rfl⟩⟩
        have hown := (rxSlotFind_some hf).1
        change released me (Function.update _ i _) ≠ _
        rw [hacq.released]
        · intro hsame
          rw [← hsame, Function.update_self, not_owns_zero] at hown
          cases hown
        · exact hown
      · rw [if_neg hc]
        by_cases hkept : ctx' = (hs.rxSlots i).ctx
        · -- a duplicate, so a NACK must have gone out
          right
          have hact : (hs.rxSlots i).ctx.active = true := by
            rw [← hkept]
            exact claim_store_active h payload
          have hdup : (hs.rxSlots i).ctx.bitmap h.fragIdx = true := by
            rw [← hkept]
            exact (Reassembling.store_bitmap _ _ _ _).mpr (Or.inr rfl)
          rw [hkept] at hc ⊢
          simp only [hact, hdup, true_and, not_or, not_and, Bool.not_eq_false] at huse
          obtain ⟨hdue, hbuilt, hfree⟩ := huse.2 (by simpa using hc)
          rw [HsStatics.setSlot, Function.update_eq_self]
          exact requestMissing_tx (f := ⟨f.s.mapMetrics .noteFragmentRx, hs, f.tx, f.obs⟩) hq hdue
            hbuilt hfree
        · left
          intro hsame
          have hrenewed := (requestMissing_renews hsame i).ctx
          simp only [HsStatics.setSlot_rxSlots, Function.update_self] at hrenewed
          exact hkept hrenewed.symm

end PqcContiki
