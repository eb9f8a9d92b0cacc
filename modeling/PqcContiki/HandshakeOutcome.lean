import PqcContiki.MessageOutcome

/-!
What one call of the handshake code can do: every result of `hs_fsm_handle_fragment`, as a move of
the session machine together with its effect on the reassembly slots, the TX queue and the log.
-/
namespace PqcContiki

open TxQueue

variable {P : Platform} {me : SessionRef} {clk : Clock} {rnd : Entropy} {dst : UdpSendCtx}
  {h : FragmentHeader} {payload : Bytes} {ctx : FragmentRxCtx} {f g : Fsm}

/-- A fragment that made the message of its slot whole: the new context is `ctx`, and `slots` are
the slots once its own is given back. -/
def Finishes (me : SessionRef) (h : FragmentHeader) (payload : Bytes) (before : Slots)
    (ctx : FragmentRxCtx) (slots : Slots) : Prop :=
  ∃ slots₀ i, Collected before slots₀ ∧ Fills me h payload slots₀ i ctx ∧
    fragmentRxComplete ctx = true ∧ slots = Function.update slots₀ i RxSlot.zero

theorem Finishes.collected {before slots : Slots} (hf : Finishes me h payload before ctx slots) :
    Collected before slots := by
  obtain ⟨slots₀, i, hcol, -, -, rfl⟩ := hf
  exact hcol.update i

/-- Everything a fragment for the session's node can do. -/
inductive Handled (P : Platform) (me : SessionRef) (rnd : Entropy) (h : FragmentHeader)
    (payload : Bytes) (f : Fsm) : Fsm → Prop
  | incomplete {f' : Fsm} : Incomplete me h payload f f' → Handled P me rnd h payload f f'
  /-- An established root confirms the ciphertext again. -/
  | confirmed {s : Session} {slots : Slots} {tx : TxQueue} {obs : List Observation} :
      f.s.role = .root → f.s.sessionIsEstablished = true → h.msgType = pqcMsgCt →
      Skips f.s s → Collected f.hs.rxSlots slots →
      AckSent f.s.nodeId f.s.nextMsgId h.msgId f.s.ss f.tx tx f.obs obs →
      Handled P me rnd h payload f ⟨s, f.hs.setSlots slots, tx, obs⟩
  | ct {ctx : FragmentRxCtx} {slots : Slots} {f' : Fsm} :
      f.s.role = .root → f.s.state = .waitCt → h.msgType = pqcMsgCt →
      Finishes me h payload f.hs.rxSlots ctx slots → CtComplete P h.msgId ctx slots f f' →
      Handled P me rnd h payload f f'
  | pk {ctx : FragmentRxCtx} {slots : Slots} {f' : Fsm} :
      f.s.role = .node → f.s.state = .waitPk → h.msgType = pqcMsgPk →
      Finishes me h payload f.hs.rxSlots ctx slots → PkComplete P rnd ctx slots f f' →
      Handled P me rnd h payload f f'
  | ack {ctx : FragmentRxCtx} {slots : Slots} {s : Session} :
      f.s.role = .node → f.s.state = .waitAck → h.msgType = pqcMsgAck →
      Finishes me h payload f.hs.rxSlots ctx slots → fragmentRxLen ctx = 1 →
      ctx.buffer 0 = f.s.pendingMsgId → s.core = f.s.core.establish →
      Handled P me rnd h payload f ⟨s, (f.hs.setSlots slots).setNodeCt zeroCt, f.tx, f.obs⟩

/-- The states in which the guards let a fragment through to a slot. -/
structure Admitted (h : FragmentHeader) (s : Session) : Prop where
  pk : s.role = .node → h.msgType = pqcMsgPk → s.state = .waitPk
  ack : s.role = .node → h.msgType = pqcMsgAck → s.state = .waitAck
  ct : s.role = .root → h.msgType = pqcMsgCt → s.state = .waitCt

theorem completeMessage_cases (ha : Admitted h f.s) {s : Session} {slots slots' : Slots}
    (hs : s.core = f.s.core) (hrel : released me slots = slots')
    (hfin : Finishes me h payload f.hs.rxSlots ctx slots') :
    Handled P me rnd h payload f
      (Fsm.completeMessage P me clk rnd dst h ctx ⟨s, f.hs.setSlots slots, f.tx, f.obs⟩).2 := by
  have hrole : s.role = f.s.role := congrArg SessionCore.role hs
  have hstate : s.state = f.s.state := congrArg SessionCore.state hs
  have hpend : s.pendingMsgId = f.s.pendingMsgId := congrArg SessionCore.pendingMsgId hs
  have hquiet : Handled P me rnd h payload f ⟨s, f.hs.setSlots slots', f.tx, f.obs⟩ :=
    .incomplete (.quiet ⟨f.s.nextMsgId, hs⟩ hfin.collected)
  unfold Fsm.completeMessage
  simp only [Session.sessionIsNode, Session.sessionIsRoot, beq_iff_eq, hrole]
  split
  · rename_i hpk
    have hc := completePk_cases P me clk rnd dst ctx
      ⟨s, f.hs.setSlots slots, f.tx, f.obs⟩
    simp only [HsStatics.slots_setSlots, hrel] at hc
    exact .pk hpk.1 (ha.pk hpk.1 hpk.2) hpk.2 hfin (hc.rebase hs)
  · split
    · rename_i hack
      have hc := completeAck_cases P me clk ctx
        ⟨s, f.hs.setSlots slots, f.tx, f.obs⟩
      simp only [HsStatics.slots_setSlots, hrel] at hc
      generalize (Fsm.completeAck P me clk ctx ⟨s, f.hs.setSlots slots, f.tx, f.obs⟩).2 = f' at hc ⊢
      cases hc with
      | ignored => exact hquiet
      | established hlen hbuf hest =>
        exact .ack hack.1 (ha.ack hack.1 hack.2) hack.2 hfin hlen (hbuf.trans hpend) (hs ▸ hest)
    · split
      · rename_i hct
        have hwait := ha.ct hct.1 hct.2
        have hc := completeCt_cases P me clk dst
          (f := ⟨s, f.hs.setSlots slots, f.tx, f.obs⟩) (hstate.trans hwait) h.msgId ctx
        simp only [HsStatics.slots_setSlots, hrel] at hc
        exact .ct hct.1 hwait hct.2 hfin (hc.rebase hs)
      · rw [Fsm.rxSlotRelease_eq]
        simp only [HsStatics.slots_setSlots, hrel, HsStatics.setSlots_setSlots]
        exact hquiet

theorem storeFragment_cases (ha : Admitted h f.s) :
    Handled P me rnd h payload f (f.storeFragment P me clk rnd dst h payload).2 := by
  obtain ⟨slots, hcol, hget | ⟨i, slot, hacq, hget⟩⟩ :=
    rxSlotGet_cases P (clk 1) (clk 2) me f.hs
  · simp only [Fsm.storeFragment, hget, Fsm.mapHs]
    exact .incomplete (.quiet (Skips.refl _) hcol)
  · simp only [Fsm.storeFragment, hget, Fsm.mapHs, Fsm.mapS, HsStatics.setSlots_rxSlots,
      Function.update_self]
    rcases hadd : fragmentRxAdd slot.ctx h.msgType h.nodeId h.msgId h.fragIdx h.totalFrags payload
      with ⟨ok, ctx⟩
    cases ok
    · exact .incomplete (.refused hcol hacq)
    · have hfills : Fills me h payload slots i ctx := ⟨slot, hacq, hadd⟩
      have hset : (f.hs.setSlots (Function.update slots i slot)).setSlot i { slot with ctx } =
          f.hs.setSlots (Function.update slots i { slot with ctx }) := by
        simp [HsStatics.setSlot, HsStatics.setSlots]
      have howns : HsStatics.owns me { slot with ctx } = true := hacq.owns
      have hcore := f.s.core_mapMetrics .noteFragmentRx
      generalize f.s.mapMetrics .noteFragmentRx = s at hcore ⊢
      simp only [Bool.not_true, Bool.false_eq_true, if_false, hset]
      split
      · rename_i hinc
        obtain ⟨s', tx, slot', hreq, hskip, hadds, hnew⟩ := requestMissing_cases P me
          clk dst i h.fragIdx
          ⟨s, f.hs.setSlots (Function.update slots i { slot with ctx }), f.tx, f.obs⟩
        simp only [HsStatics.setSlots_rxSlots, Function.update_self] at hnew
        have hnode : s.nodeId = f.s.nodeId := congrArg SessionCore.nodeId hcore
        have hset' : (f.hs.setSlots (Function.update slots i { slot with ctx })).setSlot i slot' =
            f.hs.setSlots (Function.update slots i slot') := by
          simp [HsStatics.setSlot, HsStatics.setSlots]
        simp only [hset', hnode] at hreq hadds
        rw [hreq]
        obtain ⟨n, hn⟩ := hskip
        have hctx : slot'.ctx = ctx := hnew.ctx
        rw [← hctx] at hfills hinc
        exact .incomplete (.stored ⟨n, hn.trans (by rw [hcore])⟩ hcol hfills
          (by simpa using hinc) ((hnew.owns me).trans howns) hadds)
      · rename_i hdone
        exact completeMessage_cases ha hcore (hacq.released howns)
          ⟨slots, i, hcol, hfills, by simpa using hdone, rfl⟩

theorem handleNack_cases :
    Incomplete me h payload f (f.handleNack P clk dst h payload).2 := by
  have hquiet : Incomplete me h payload f f := .quiet (Skips.refl _) (Collected.refl _)
  unfold Fsm.handleNack
  split
  · exact hquiet
  · cases pqcNackDecode payload with
    | none => exact hquiet
    | some nack =>
      obtain ⟨s, tx, hres, hcore, hadds⟩ := retransmit_cases P (clk 1) dst nack f
      simp only [hres]
      exact .resent hcore (Collected.refl _) hadds

theorem handleParsed_cases :
    Handled P me rnd h payload f (f.handleParsed P me clk rnd dst h payload).2 := by
  have hquiet : Handled P me rnd h payload f f :=
    .incomplete (.quiet (Skips.refl _) (Collected.refl _))
  unfold Fsm.handleParsed
  simp only [Session.sessionIsNode, Session.sessionIsRoot, beq_iff_eq]
  split
  · exact hquiet
  · split
    · exact hquiet
    · split
      · rename_i hest
        split
        · obtain ⟨s, tx, obs, hack, hskip, hsent⟩ := sendAck_cases dst h.msgId f
          simp only [hack]
          exact .confirmed hest.1 hest.2.1 hest.2.2 hskip (Collected.refl _) hsent
        · exact hquiet
      · split
        · exact hquiet
        · split
          · exact .incomplete handleNack_cases
          · rename_i hpk hack _ hct _
            apply storeFragment_cases
            constructor
            · intro hr ht
              by_contra hs
              exact hpk ⟨hr, ht, Or.inl hs⟩
            · intro hr ht
              by_contra hs
              exact hack ⟨hr, ht, Or.inl hs⟩
            · intro hr ht
              by_contra hs
              exact hct ⟨hr, ht, hs⟩

/-- Slots that were collected before the fragment was looked at do not matter. -/
theorem Handled.rebase {slots : Slots} {f' : Fsm} (hcol : Collected f.hs.rxSlots slots)
    (hh : Handled P me rnd h payload ⟨f.s, f.hs.setSlots slots, f.tx, f.obs⟩ f') :
    Handled P me rnd h payload f f' := by
  cases hh with
  | incomplete hi =>
    cases hi with
    | quiet hs hc => exact .incomplete (.quiet hs (hcol.trans hc))
    | refused hc ha => exact .incomplete (.refused (hcol.trans hc) ha)
    | stored hs hc hf hd ho ha => exact .incomplete (.stored hs (hcol.trans hc) hf hd ho ha)
    | resent hs hc ha => exact .incomplete (.resent hs (hcol.trans hc) ha)
  | confirmed hr he ht hs hc ha => exact .confirmed hr he ht hs (hcol.trans hc) ha
  | ct hr hw ht hf hc =>
    obtain ⟨slots₀, i, hc₀, hrest⟩ := hf
    exact .ct hr hw ht ⟨slots₀, i, hcol.trans hc₀, hrest⟩ (hc.rebase rfl)
  | pk hr hw ht hf hc =>
    obtain ⟨slots₀, i, hc₀, hrest⟩ := hf
    exact .pk hr hw ht ⟨slots₀, i, hcol.trans hc₀, hrest⟩ (hc.rebase rfl)
  | ack hr hw ht hf hlen hbuf hs =>
    obtain ⟨slots₀, i, hc₀, hrest⟩ := hf
    exact .ack hr hw ht ⟨slots₀, i, hcol.trans hc₀, hrest⟩ hlen hbuf hs

theorem Incomplete.identity {f' : Fsm} (hi : Incomplete me h payload f f') :
    f'.s.core.identity = f.s.core.identity := by
  cases hi with
  | quiet hs _ | stored hs _ _ _ _ _ =>
    obtain ⟨n, hn⟩ := hs
    rw [hn, SessionCore.skipTo_identity]
  | refused _ _ => rfl
  | resent hs _ _ => rw [hs]

/-- A fragment never changes whose session it is. -/
theorem Handled.identity {f' : Fsm} (hh : Handled P me rnd h payload f f') :
    f'.s.core.identity = f.s.core.identity := by
  cases hh with
  | incomplete hi => exact hi.identity
  | confirmed _ _ _ hs _ _ =>
    obtain ⟨n, hn⟩ := hs
    rw [hn, SessionCore.skipTo_identity]
  | ct _ _ _ _ hc =>
    cases hc with
    | rejected hs _ | failed _ _ hs => simp [hs]
    | established _ _ _ hs _ =>
      obtain ⟨n, hn⟩ := hs
      simp [hn]
  | pk _ _ _ _ hc =>
    cases hc with
    | rejected _ hs | failed _ _ hs _ | sent _ _ hs _ => simp [hs]
  | ack _ _ _ _ _ _ hs => simp [hs]

/-- The session takes packets under this header: they name its node, or it has no name yet. -/
def Names (h : FragmentHeader) (s : Session) : Prop :=
  s.nodeId = h.nodeId ∨ (s.role = .node ∧ s.nodeId = sessionInvalidNodeId)

/-- A packet is dropped, or it is handled as a fragment for the session's node. -/
theorem hsFsmHandleFragment_cases (P : Platform) (me : SessionRef) (clk : Clock) (rnd : Entropy)
    (dst : UdpSendCtx) (data : Bytes) (f : Fsm) :
    (∃ slots, Collected f.hs.rxSlots slots ∧
      (f.hsFsmHandleFragment P me clk rnd dst data).2 = ⟨f.s, f.hs.setSlots slots, f.tx, f.obs⟩) ∨
    ∃ h, parseFragmentHeader data = some h ∧ Names h f.s ∧
      Handled P me rnd h (h.payload data) (f.mapS (Session.adoptNodeId h.nodeId))
        (f.hsFsmHandleFragment P me clk rnd dst data).2 := by
  obtain ⟨slots, hgc, hcol⟩ := rxSlotsGc_eq P (clk 0) f.hs
  simp only [Fsm.hsFsmHandleFragment, Fsm.rxSlotsGc, Fsm.mapHs, hgc, Session.sessionIsNode,
    Session.sessionIsRoot, beq_iff_eq]
  cases hparse : parseFragmentHeader data with
  | none => exact Or.inl ⟨slots, hcol, rfl⟩
  | some h =>
    dsimp only
    split
    · exact Or.inl ⟨slots, hcol, rfl⟩
    · split
      · exact Or.inl ⟨slots, hcol, rfl⟩
      · rename_i hroot hnode
        refine Or.inr ⟨h, rfl, ?_, ?_⟩
        · cases hr : f.s.role with
          | root => exact Or.inl (by_contra fun hne => hroot ⟨hr, hne⟩)
          | node =>
            by_cases hinv : f.s.nodeId = sessionInvalidNodeId
            · exact Or.inr ⟨hr, hinv⟩
            · exact Or.inl (by_contra fun hne => hnode ⟨hr, hinv, hne⟩)
        · exact Handled.rebase hcol handleParsed_cases

end PqcContiki
