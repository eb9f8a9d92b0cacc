import PqcContiki.QueueSoundness
import PqcContiki.SessionTable

/-! A call for one session leaves the reassembly slots of all the others alone. -/
namespace PqcContiki

open TxQueue

variable {P : Platform} {me : SessionRef} {clk : Clock} {rnd : Entropy} {dst : UdpSendCtx}
  {f : Fsm} {hs : HsStatics} {slots slots' slots'' : Slots} {i : Fin hsRxSlotCount}

/-- A slot that belongs to another session than `me` is as it was. -/
def LeavesSlots (me : SessionRef) (slots slots' : Slots) : Prop :=
  ∀ k you, you ≠ me → HsStatics.owns you (slots k) = true → slots' k = slots k

namespace LeavesSlots

theorem refl (slots : Slots) : LeavesSlots me slots slots := fun _ _ _ _ => rfl

theorem trans (h : LeavesSlots me slots slots') (h' : LeavesSlots me slots' slots'') :
    LeavesSlots me slots slots'' := by
  intro k you hne hown
  have heq := h k you hne hown
  rw [← heq] at hown ⊢
  exact h' k you hne hown

/-- A session may do what it likes with its own slot. -/
theorem update (hown : HsStatics.owns me (slots i) = true) (slot : RxSlot) :
    LeavesSlots me slots (Function.update slots i slot) := by
  intro k you hne hk
  by_cases hki : k = i
  · subst k
    have hsame := (owns_iff.mp hown).2.symm.trans (owns_iff.mp hk).2
    exact absurd (Option.some.inj hsame).symm hne
  · exact Function.update_of_ne hki _ _

/-- A slot nobody has belongs to nobody else. -/
theorem take (hidle : (slots i).active = false) (slot : RxSlot) :
    LeavesSlots me slots (Function.update slots i slot) := by
  intro k you _ hk
  by_cases hki : k = i
  · subst k
    rw [(owns_iff.mp hk).1] at hidle
    cases hidle
  · exact Function.update_of_ne hki _ _

theorem released (slots : Slots) : LeavesSlots me slots (released me slots) := by
  unfold PqcContiki.released
  cases hfind : (List.finRange hsRxSlotCount).find? fun k => HsStatics.owns me (slots k) with
  | none => exact refl slots
  | some k =>
    have hown := List.find?_some hfind
    exact update hown _

theorem touch (now : ℕ) (hs : HsStatics) :
    LeavesSlots me hs.rxSlots (hs.rxSlotTouch now me).rxSlots := by
  unfold HsStatics.rxSlotTouch
  cases hfind : hs.rxSlotFind me with
  | none => exact refl _
  | some k => exact update (rxSlotFind_some hfind).1 _

theorem noteNack (now : ℕ) (n : ℕ) (f : Fsm) : LeavesSlots me f.hs.rxSlots
    (f.rxSlotNoteNack P now me i n).hs.rxSlots := by
  unfold Fsm.rxSlotNoteNack
  dsimp only
  split
  · exact refl _
  · rename_i hnote
    push Not at hnote
    exact update (by simpa using hnote.2) _

end LeavesSlots

/-- A slot that belongs to another session than `me` is as it was, or was found expired at one of
the readings of the clock. -/
def SparesSlots (P : Platform) (clk : Clock) (me : SessionRef) (slots slots' : Slots) : Prop :=
  ∀ k you, you ≠ me → HsStatics.owns you (slots k) = true →
    slots' k = slots k ∨ ∃ t, HsStatics.slotExpired P (clk t) (slots k) = true

theorem LeavesSlots.spares (h : LeavesSlots me slots slots') : SparesSlots P clk me slots slots' :=
  fun k you hne hown => Or.inl (h k you hne hown)

namespace SparesSlots

theorem refl (slots : Slots) : SparesSlots P clk me slots slots := (LeavesSlots.refl slots).spares

theorem trans (h : SparesSlots P clk me slots slots') (h' : SparesSlots P clk me slots' slots'') :
    SparesSlots P clk me slots slots'' := by
  intro k you hne hown
  rcases h k you hne hown with heq | hexp
  · rw [← heq] at hown ⊢
    exact h' k you hne hown
  · exact Or.inr hexp

theorem gc (t : ℕ) (hs : HsStatics) :
    SparesSlots P clk me hs.rxSlots (hs.rxSlotsGc P (clk t)).rxSlots := by
  intro k you _ _
  simp only [HsStatics.rxSlotsGc]
  split
  · exact Or.inr ⟨t, ‹_›⟩
  · exact Or.inl rfl

theorem get (hs : HsStatics) : SparesSlots P clk me hs.rxSlots
    (hs.rxSlotGet P (clk 1) (clk 2) me).2.rxSlots := by
  refine (gc 1 hs).trans ?_
  unfold HsStatics.rxSlotGet
  dsimp only
  cases (hs.rxSlotsGc P (clk 1)).rxSlotFind me with
  | some k => exact refl _
  | none =>
    dsimp only
    cases hfree : (List.finRange hsRxSlotCount).find? fun k =>
        !((hs.rxSlotsGc P (clk 1)).rxSlots k).active with
    | none => exact refl _
    | some k => exact (LeavesSlots.take (by simpa using List.find?_some hfree) _).spares

end SparesSlots

/-- The slot a session gets is its own. -/
theorem rxSlotGet_owns {gcNow now : ℕ} {hs' : HsStatics}
    (h : hs.rxSlotGet P gcNow now me = (some i, hs')) :
    HsStatics.owns me (hs'.rxSlots i) = true := by
  obtain ⟨slots, -, hcases⟩ := rxSlotGet_cases P gcNow now me hs
  rcases hcases with hget | ⟨k, slot, hacq, hget⟩
  · rw [hget] at h
    cases h
  · rw [hget] at h
    obtain ⟨hk, rfl⟩ := Prod.mk.inj h
    obtain rfl := Option.some.inj hk
    simpa using hacq.owns

theorem sendAck_hs (dst : UdpSendCtx) (msgId : UInt8) (f : Fsm) :
    (f.sendAck dst msgId).2.hs = f.hs := by
  obtain ⟨s, tx, obs, hack, -, -⟩ := sendAck_cases dst msgId f
  rw [hack]

theorem sendNack_hs (dst : UdpSendCtx) (i : Fin hsRxSlotCount) (f : Fsm) :
    (f.sendNack dst i).2.hs = f.hs := by
  obtain ⟨s, tx, hnack, -, -⟩ := sendNack_cases dst i f
  rw [hnack]

theorem fragmentTx_hs (dst : UdpSendCtx) (data : Bytes) (msgType msgId flags : UInt8) (f : Fsm) :
    (f.fragmentTx dst data msgType msgId flags).2.hs = f.hs := rfl

theorem sendCt_slots (f : Fsm) : (f.sendCt P clk dst).2.hs.rxSlots = f.hs.rxSlots := by
  unfold Fsm.sendCt
  dsimp only
  split
  · simp only [Fsm.setFailed, Fsm.zeroNodeCt, Fsm.mapS_hs, Fsm.mapHs_hs, fragmentTx_hs,
      HsStatics.slots_setNodeCt]
  · simp only [Fsm.mapS_hs, fragmentTx_hs]

theorem rxSlotRelease_slots (me : SessionRef) (f : Fsm) :
    (f.rxSlotRelease me).hs.rxSlots = released me f.hs.rxSlots := by
  rw [Fsm.rxSlotRelease_eq]
  rfl

theorem completePk_slots (ctx : FragmentRxCtx) (f : Fsm) :
    (f.completePk P me clk rnd dst ctx).2.hs.rxSlots = released me f.hs.rxSlots := by
  unfold Fsm.completePk
  dsimp only
  split
  · exact rxSlotRelease_slots me _
  · split
    · exact rxSlotRelease_slots me _
    · split
      · exact rxSlotRelease_slots me _
      · rw [sendCt_slots]
        exact rxSlotRelease_slots me _

theorem completeAck_slots (ctx : FragmentRxCtx) (f : Fsm) :
    (f.completeAck P me clk ctx).2.hs.rxSlots = released me f.hs.rxSlots := by
  unfold Fsm.completeAck
  split
  · exact rxSlotRelease_slots me _
  · exact rxSlotRelease_slots me _

theorem decapsulateCt_slots (msgId : UInt8) (f : Fsm) :
    (f.decapsulateCt P clk dst msgId).2.hs.rxSlots = f.hs.rxSlots := by
  unfold Fsm.decapsulateCt
  dsimp only
  split
  · rfl
  · rw [sendAck_hs]
    rfl

theorem completeCt_slots (msgId : UInt8) (ctx : FragmentRxCtx) (f : Fsm) :
    (f.completeCt P me clk dst msgId ctx).2.hs.rxSlots = released me f.hs.rxSlots := by
  unfold Fsm.completeCt
  dsimp only
  split
  · exact rxSlotRelease_slots me _
  · split
    · rw [sendAck_hs]
      exact rxSlotRelease_slots me _
    · split
      · exact rxSlotRelease_slots me _
      · split
        · exact rxSlotRelease_slots me _
        · rw [decapsulateCt_slots]
          exact rxSlotRelease_slots me _

/-- Whatever becomes of a complete message, its slot is given back. -/
theorem completeMessage_slots (h : FragmentHeader) (ctx : FragmentRxCtx) (f : Fsm) :
    (f.completeMessage P me clk rnd dst h ctx).2.hs.rxSlots = released me f.hs.rxSlots := by
  unfold Fsm.completeMessage
  split
  · exact completePk_slots ctx f
  · split
    · exact completeAck_slots ctx f
    · split
      · exact completeCt_slots h.msgId ctx f
      · exact rxSlotRelease_slots me f

theorem requestMissing_leaves (fragIdx : ℕ) (f : Fsm) :
    LeavesSlots me f.hs.rxSlots (f.requestMissing P me clk dst i fragIdx).hs.rxSlots := by
  unfold Fsm.requestMissing
  split
  · dsimp only
    rw [← sendNack_hs dst i f]
    exact LeavesSlots.noteNack _ _ _
  · exact LeavesSlots.refl _

theorem storeFragment_spares (h : FragmentHeader) (payload : Bytes) (f : Fsm) :
    SparesSlots P clk me f.hs.rxSlots
      (f.storeFragment P me clk rnd dst h payload).2.hs.rxSlots := by
  refine (SparesSlots.get f.hs).trans ?_
  unfold Fsm.storeFragment
  dsimp only
  rcases hget : f.hs.rxSlotGet P (clk 1) (clk 2) me with ⟨found, hs⟩
  cases found with
  | none => exact SparesSlots.refl _
  | some k =>
    have hown := rxSlotGet_owns hget
    dsimp only
    split
    · exact SparesSlots.refl _
    · split
      · refine LeavesSlots.spares (LeavesSlots.trans ?_ (requestMissing_leaves h.fragIdx _))
        exact LeavesSlots.update hown _
      · rw [completeMessage_slots]
        refine LeavesSlots.spares (LeavesSlots.trans ?_ (LeavesSlots.released _))
        exact LeavesSlots.update hown _

theorem handleNack_hs (h : FragmentHeader) (payload : Bytes) (f : Fsm) :
    (f.handleNack P clk dst h payload).2.hs = f.hs := by
  unfold Fsm.handleNack
  split
  · rfl
  · cases pqcNackDecode payload with
    | none => rfl
    | some nack =>
      obtain ⟨s, tx, hr, -, -⟩ := retransmit_cases P (clk 1) dst nack f
      rw [hr]

theorem handleParsed_spares (h : FragmentHeader) (payload : Bytes) (f : Fsm) :
    SparesSlots P clk me f.hs.rxSlots (f.handleParsed P me clk rnd dst h payload).2.hs.rxSlots := by
  unfold Fsm.handleParsed
  dsimp only
  split
  · exact SparesSlots.refl _
  · split
    · exact SparesSlots.refl _
    · split
      · dsimp only
        split
        · rw [sendAck_hs]
          exact SparesSlots.refl _
        · exact SparesSlots.refl _
      · split
        · exact SparesSlots.refl _
        · split
          · rw [handleNack_hs]
            exact SparesSlots.refl _
          · exact storeFragment_spares h payload f

theorem hsFsmHandleFragment_spares (data : Bytes) (f : Fsm) : SparesSlots P clk me f.hs.rxSlots
    (f.hsFsmHandleFragment P me clk rnd dst data).2.hs.rxSlots := by
  refine (SparesSlots.gc 0 f.hs).trans ?_
  unfold Fsm.hsFsmHandleFragment
  dsimp only
  cases parseFragmentHeader data with
  | none => exact SparesSlots.refl _
  | some h =>
    dsimp only
    split
    · exact SparesSlots.refl _
    · split
      · exact SparesSlots.refl _
      · exact handleParsed_spares h (h.payload data)
          ((f.rxSlotsGc P (clk 0)).mapS (Session.adoptNodeId h.nodeId))

theorem retryCtReceive_leaves (f : Fsm) :
    LeavesSlots me f.hs.rxSlots (f.retryCtReceive P me clk dst).2.hs.rxSlots := by
  have hfail : ∀ g : Fsm, g.hs = f.hs → LeavesSlots me f.hs.rxSlots
      ((g.setFailed P (clk 8)).rxSlotRelease me).hs.rxSlots := by
    intro g hg
    rw [rxSlotRelease_slots, ← hg]
    exact LeavesSlots.released _
  unfold Fsm.retryCtReceive
  cases f.hs.rxSlotFind me with
  | none => exact hfail f rfl
  | some k =>
    dsimp only
    split
    · split
      · refine LeavesSlots.trans ?_ (LeavesSlots.noteNack _ _ _)
        rw [← sendNack_hs dst k f]
        exact LeavesSlots.touch (clk 4) _
      · exact hfail _ (sendNack_hs dst k f)
    · exact hfail f rfl

theorem retryTransfer_hs (data : Bytes) (msgType : UInt8) (f : Fsm) :
    (f.retryTransfer P clk dst data msgType).2.hs = f.hs := by
  unfold Fsm.retryTransfer
  split
  · rfl
  · dsimp only
    split
    · simp only [Fsm.mapS_hs, fragmentTx_hs]
    · exact fragmentTx_hs ..

theorem retryPending_leaves (f : Fsm) :
    LeavesSlots me f.hs.rxSlots (f.retryPending P me clk dst).2.hs.rxSlots := by
  unfold Fsm.retryPending
  split
  · exact retryCtReceive_leaves f
  · have hrel : LeavesSlots me f.hs.rxSlots (f.rxSlotRelease me).hs.rxSlots := by
      rw [rxSlotRelease_slots]
      exact LeavesSlots.released _
    dsimp only
    split
    · dsimp only
      split
      · exact hrel
      · exact hrel
    · split
      · split
        · exact hrel
        · rw [retryTransfer_hs]
          exact hrel
      · split
        · rw [retryTransfer_hs]
          exact hrel
        · exact hrel

/-- Expired slots apart, a retry leaves the slots of the others. -/
theorem hsFsmRetry_leaves (f : Fsm) : LeavesSlots me (f.hs.rxSlotsGc P (clk 0)).rxSlots
    (f.hsFsmRetry P me clk dst).2.hs.rxSlots := by
  unfold Fsm.hsFsmRetry
  dsimp only
  split
  · exact LeavesSlots.refl _
  · split
    · exact LeavesSlots.refl _
    · split
      · have hslots : ∀ g : Fsm, (if g.s.sessionIsNode then g.zeroNodeCt else g).hs.rxSlots =
            g.hs.rxSlots := by
          intro g
          split <;> rfl
        dsimp only
        rw [hslots, rxSlotRelease_slots]
        exact LeavesSlots.released _
      · exact retryPending_leaves (f.rxSlotsGc P (clk 0))

theorem hsFsmRetry_spares (f : Fsm) :
    SparesSlots P clk me f.hs.rxSlots (f.hsFsmRetry P me clk dst).2.hs.rxSlots :=
  (SparesSlots.gc 0 f.hs).trans (hsFsmRetry_leaves f).spares

theorem sendPk_hs (f : Fsm) : (f.sendPk P clk dst).2.hs = f.hs := by
  unfold Fsm.sendPk
  dsimp only
  split
  · simp only [Fsm.setFailed, Fsm.mapS_hs, fragmentTx_hs]
  · simp only [Fsm.mapS_hs, fragmentTx_hs]

theorem hsFsmStart_spares (f : Fsm) :
    SparesSlots P clk me f.hs.rxSlots (f.hsFsmStart P clk rnd dst).2.hs.rxSlots := by
  have hslots : (f.hsFsmStart P clk rnd dst).2.hs.rxSlots = (f.hs.rxSlotsGc P (clk 0)).rxSlots := by
    cases hrole : f.s.role with
    | root =>
      have hkey := hsFsmRootInitKeypair_slots P rnd (f.hs.rxSlotsGc P (clk 0))
      obtain ⟨slots, -, hgc, ⟨-, s, -, hres⟩ | ⟨-, s, -, hres⟩⟩ :=
        hsFsmStart_root P clk rnd dst hrole
      · rw [hres, ← hgc]
        exact hkey
      · rw [hres, ← hgc]
        split
        · rw [sendPk_hs]
          exact hkey
        · exact hkey
    | node =>
      have hrole' : (f.rxSlotsGc P (clk 0)).s.role = .node := hrole
      unfold Fsm.hsFsmStart
      simp only [hrole']
      split <;> rfl
  rw [hslots]
  exact SparesSlots.gc 0 f.hs

end PqcContiki
