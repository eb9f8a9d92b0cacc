import PqcContiki.Sending
import PqcContiki.SessionMachine

/-!
The effects the handshake handlers are made of: what happens to the reassembly slots, and what
each send adds to the TX queue and the log.
-/
namespace PqcContiki

open TxQueue

abbrev Slots := Fin hsRxSlotCount → RxSlot

@[simps] def HsStatics.setSlots (slots : Slots) (hs : HsStatics) : HsStatics :=
  { hs with rxSlots := slots }

namespace HsStatics

variable (hs : HsStatics)

@[simp] theorem setRootCt_setRootCt (a b : Ciphertext) :
    (hs.setRootCt a).setRootCt b = hs.setRootCt b := rfl

@[simp] theorem setNodeCt_setNodeCt (a b : Ciphertext) :
    (hs.setNodeCt a).setNodeCt b = hs.setNodeCt b := rfl

@[simp] theorem setSlots_setSlots (a b : Slots) :
    (hs.setSlots a).setSlots b = hs.setSlots b := rfl

@[simp] theorem setRootCt_setSlots (ct : Ciphertext) (slots : Slots) :
    (hs.setRootCt ct).setSlots slots = (hs.setSlots slots).setRootCt ct := rfl

@[simp] theorem setNodeCt_setSlots (ct : Ciphertext) (slots : Slots) :
    (hs.setNodeCt ct).setSlots slots = (hs.setSlots slots).setNodeCt ct := rfl

@[simp] theorem slots_setRootCt (ct : Ciphertext) : (hs.setRootCt ct).rxSlots = hs.rxSlots := rfl

@[simp] theorem slots_setNodeCt (ct : Ciphertext) : (hs.setNodeCt ct).rxSlots = hs.rxSlots := rfl

@[simp] theorem slots_setSlots (slots : Slots) : (hs.setSlots slots).rxSlots = slots := rfl

theorem setRootCt_self : hs.setRootCt hs.rootCt = hs := rfl

theorem setNodeCt_self : hs.setNodeCt hs.nodeCt = hs := rfl

end HsStatics

/-- Every slot is as it was, or was given back. -/
def Collected (slots slots' : Slots) : Prop :=
  ∀ i, slots' i = slots i ∨ slots' i = RxSlot.zero

/-- `slot` is what session `me` gets hold of in place `i`: the slot it has, or a new one if it
has none. -/
structure Acquired (me : SessionRef) (slots : Slots) (i : Fin hsRxSlotCount) (slot : RxSlot) :
    Prop where
  first : ∀ j < i, HsStatics.owns me (slots j) = false
  slot : (HsStatics.owns me (slots i) = true ∧ slot = slots i) ∨
    ((∀ j, HsStatics.owns me (slots j) = false) ∧ (slots i).active = false ∧
      ∃ now, slot = ⟨true, some me, now, 0, 0, 0, fragmentRxInit⟩)

/-- The same message in the same hands; only the times and the NACK counters may differ. -/
structure Renewed (slot slot' : RxSlot) : Prop where
  active : slot'.active = slot.active
  owner : slot'.owner = slot.owner
  ctx : slot'.ctx = slot.ctx

theorem Renewed.refl (slot : RxSlot) : Renewed slot slot := ⟨rfl, rfl, rfl⟩

theorem Renewed.owns {slot slot' : RxSlot} (h : Renewed slot slot') (me : SessionRef) :
    HsStatics.owns me slot' = HsStatics.owns me slot := by
  rw [HsStatics.owns, HsStatics.owns, h.active, h.owner]

section Slots

variable {P : Platform} {me : SessionRef} {slots slots' slots'' : Slots} {i : Fin hsRxSlotCount}
  {slot : RxSlot} {hs : HsStatics}

theorem Collected.refl (slots : Slots) : Collected slots slots := fun _ => Or.inl rfl

theorem Collected.trans (h : Collected slots slots') (h' : Collected slots' slots'') :
    Collected slots slots'' := by
  intro i
  rcases h' i with hi | hi
  · rw [hi]
    exact h i
  · exact Or.inr hi

theorem Collected.update (h : Collected slots slots') (i : Fin hsRxSlotCount) :
    Collected slots (Function.update slots' i RxSlot.zero) := by
  intro j
  by_cases hj : j = i
  · subst hj
    exact Or.inr (by simp)
  · rw [Function.update_of_ne hj]
    exact h j

theorem Acquired.owns (h : Acquired me slots i slot) : HsStatics.owns me slot = true := by
  rcases h.slot with ⟨ho, rfl⟩ | ⟨-, -, now, rfl⟩
  · exact ho
  · simp [HsStatics.owns]

theorem rxSlotFind_eq (me : SessionRef) (hs : HsStatics) :
    hs.rxSlotFind me = if HsStatics.owns me (hs.rxSlots 0) then some 0
      else if HsStatics.owns me (hs.rxSlots 1) then some 1 else none := by
  have hrange : List.finRange hsRxSlotCount = [0, 1] := rfl
  rw [HsStatics.rxSlotFind, hrange, List.find?_cons]
  cases h0 : HsStatics.owns me (hs.rxSlots 0) <;>
    cases h1 : HsStatics.owns me (hs.rxSlots 1) <;> simp [h1]

theorem rxSlotFind_some (h : hs.rxSlotFind me = some i) :
    HsStatics.owns me (hs.rxSlots i) = true ∧
      ∀ j < i, HsStatics.owns me (hs.rxSlots j) = false := by
  rw [rxSlotFind_eq] at h
  split at h
  · obtain rfl := Option.some.inj h
    exact ⟨‹_›, by simp⟩
  · split at h
    · obtain rfl := Option.some.inj h
      refine ⟨‹_›, ?_⟩
      intro j hj
      obtain rfl : j = 0 := Fin.lt_one_iff j |>.mp hj
      simpa using ‹¬ HsStatics.owns me (hs.rxSlots 0) = true›
    · cases h

theorem rxSlotFind_none (h : hs.rxSlotFind me = none) (j : Fin hsRxSlotCount) :
    HsStatics.owns me (hs.rxSlots j) = false := by
  rw [HsStatics.rxSlotFind, List.find?_eq_none] at h
  simpa using h j (List.mem_finRange j)

theorem rxSlotFind_eq_some (hi : HsStatics.owns me (hs.rxSlots i) = true)
    (hfirst : ∀ j < i, HsStatics.owns me (hs.rxSlots j) = false) :
    hs.rxSlotFind me = some i := by
  cases hf : hs.rxSlotFind me with
  | none => simp [rxSlotFind_none hf i] at hi
  | some k =>
    obtain ⟨hk, hkfirst⟩ := rxSlotFind_some hf
    rcases lt_trichotomy k i with hlt | rfl | hlt
    · simp [hfirst k hlt] at hk
    · rfl
    · simp [hkfirst i hlt] at hi

theorem rxSlotsGc_eq (P : Platform) (now : ℕ) (hs : HsStatics) :
    ∃ slots, hs.rxSlotsGc P now = hs.setSlots slots ∧ Collected hs.rxSlots slots := by
  refine ⟨_, rfl, ?_⟩
  intro i
  dsimp only
  split
  · exact Or.inr rfl
  · exact Or.inl rfl

/-- The slots after the first one of session `me` was given back. -/
def released (me : SessionRef) (slots : Slots) : Slots :=
  match (List.finRange hsRxSlotCount).find? fun i => HsStatics.owns me (slots i) with
  | some i => Function.update slots i RxSlot.zero
  | none => slots

theorem rxSlotRelease_eq (me : SessionRef) (hs : HsStatics) :
    hs.rxSlotRelease me = hs.setSlots (released me hs.rxSlots) := by
  unfold HsStatics.rxSlotRelease released HsStatics.rxSlotFind
  cases (List.finRange hsRxSlotCount).find? fun i => HsStatics.owns me (hs.rxSlots i) <;> rfl

theorem Fsm.rxSlotRelease_eq (me : SessionRef) (f : Fsm) :
    f.rxSlotRelease me = ⟨f.s, f.hs.setSlots (released me f.hs.rxSlots), f.tx, f.obs⟩ := by
  rw [Fsm.rxSlotRelease, Fsm.mapHs, PqcContiki.rxSlotRelease_eq]

theorem collected_released (me : SessionRef) (slots : Slots) :
    Collected slots (released me slots) := by
  unfold released
  split
  · exact (Collected.refl _).update _
  · exact Collected.refl _

theorem rxSlotGet_cases (P : Platform) (gcNow now : ℕ) (me : SessionRef) (hs : HsStatics) :
    ∃ slots, Collected hs.rxSlots slots ∧
      (hs.rxSlotGet P gcNow now me = (none, hs.setSlots slots) ∨
        ∃ i slot, Acquired me slots i slot ∧
          hs.rxSlotGet P gcNow now me =
            (some i, hs.setSlots (Function.update slots i slot))) := by
  obtain ⟨slots, hgc, hcol⟩ := rxSlotsGc_eq P gcNow hs
  refine ⟨slots, hcol, ?_⟩
  simp only [HsStatics.rxSlotGet, hgc]
  cases hf : (hs.setSlots slots).rxSlotFind me with
  | some i =>
    obtain ⟨hi, hfirst⟩ := rxSlotFind_some hf
    refine Or.inr ⟨i, slots i, ⟨hfirst, Or.inl ⟨hi, rfl⟩⟩, ?_⟩
    rw [Function.update_eq_self]
  | none =>
    have hnone := rxSlotFind_none hf
    cases hfree : (List.finRange hsRxSlotCount).find? fun i =>
        !((hs.setSlots slots).rxSlots i).active with
    | some i =>
      have hinactive := List.find?_some hfree
      simp only [HsStatics.setSlots_rxSlots, Bool.not_eq_true'] at hinactive
      exact Or.inr ⟨i, _, ⟨fun j _ => hnone j, Or.inr ⟨hnone, hinactive, now, rfl⟩⟩, rfl⟩
    | none => exact Or.inl rfl

/-- A session that has stored into its slot gives back that slot. -/
theorem Acquired.released (h : Acquired me slots i slot) {slot' : RxSlot}
    (ho : HsStatics.owns me slot' = true) :
    released me (Function.update slots i slot') = Function.update slots i RxSlot.zero := by
  have hfind :
      (HsStatics.zero.setSlots (Function.update slots i slot')).rxSlotFind me = some i := by
    apply rxSlotFind_eq_some
    · simpa using ho
    · intro j hj
      rw [HsStatics.setSlots_rxSlots, Function.update_of_ne hj.ne]
      exact h.first j hj
  simp only [HsStatics.rxSlotFind, HsStatics.setSlots_rxSlots] at hfind
  simp [PqcContiki.released, hfind]

end Slots

/-- A packet that carries one fragment of message `m`. -/
def IsFragmentOf (m : Message) (msgType : UInt8) (nodeId : UInt16) (msgId : UInt8) (p : Bytes) :
    Prop :=
  ∃ flags i, i < m.count ∧ p = m.packet msgType nodeId msgId flags i

def IsNack (nodeId : UInt16) (p : Bytes) : Prop :=
  ∃ m msgId, IsFragmentOf m pqcMsgNack nodeId msgId p

def ackMessage (confirmedMsgId : UInt8) : Message := ⟨[confirmedMsgId], by simp, by simp⟩

/-- The acknowledgement of ciphertext `confirmedMsgId`. -/
def ackPacket (nodeId : UInt16) (msgId confirmedMsgId : UInt8) : Bytes :=
  (ackMessage confirmedMsgId).packet pqcMsgAck nodeId msgId pqcFlagNone 0

section Sends

variable {P : Platform} {dst : UdpSendCtx} {f : Fsm}

theorem ackMessage_count (confirmedMsgId : UInt8) : (ackMessage confirmedMsgId).count = 1 := by
  rw [Message.count_eq]
  simp [ackMessage]

theorem isFragmentOf_of_mem {m : Message} {msgType : UInt8} {nodeId : UInt16}
    {msgId flags : UInt8} {p : Bytes}
    (hp : p ∈ (List.range m.count).map (m.packet msgType nodeId msgId flags)) :
    IsFragmentOf m msgType nodeId msgId p := by
  obtain ⟨i, hi, rfl⟩ := List.mem_map.mp hp
  exact ⟨flags, i, List.mem_range.mp hi, rfl⟩

/-- `fragment_tx` of a message adds fragments of it, and nothing else changes. -/
theorem fragmentTx_cases (dst : UdpSendCtx) (m : Message) (msgType msgId flags : UInt8) (f : Fsm) :
    ∃ tx, (f.fragmentTx dst m.data msgType msgId flags).2 = f.setTx tx ∧
      Adds (IsFragmentOf m msgType f.s.nodeId msgId) f.tx tx := by
  refine ⟨_, rfl, ?_⟩
  rw [fragmentTx_eq]
  exact sendAll_adds dst (fun p hp => isFragmentOf_of_mem hp) f.tx

/-- A packet the queue refuses leaves it as it was. -/
theorem queueSend_refused {q : TxQueue} {p : Bytes} (h : (queueSend dst p q).1 = false) :
    (queueSend dst p q).2 = q := by
  rcases pqcUdpSendFragment_cases q (some p) (some dst) with
    hq | ⟨p', conn, dest, idx, -, -, -, -, -, hq⟩
  · rw [queueSend, hq]
  · rw [queueSend, hq] at h
    cases h

/-- An acknowledgement was queued and logged, or nothing happened. -/
def AckSent (nodeId : UInt16) (msgId confirmedMsgId : UInt8) (ss : SharedSecret)
    (tx tx' : TxQueue) (obs obs' : List Observation) : Prop :=
  (tx' = tx ∧ obs' = obs) ∨
    (Adds (· = ackPacket nodeId msgId confirmedMsgId) tx tx' ∧
      obs' = .ack nodeId (ackPacket nodeId msgId confirmedMsgId) ss :: obs)

theorem sendAck_cases (dst : UdpSendCtx) (confirmedMsgId : UInt8) (f : Fsm) :
    ∃ s tx obs, (f.sendAck dst confirmedMsgId).2 = ⟨s, f.hs, tx, obs⟩ ∧
      (∃ n, s.core = f.s.core.skipTo n) ∧
      AckSent f.s.nodeId f.s.nextMsgId confirmedMsgId f.s.ss f.tx tx f.obs obs := by
  have hcount := ackMessage_count confirmedMsgId
  have hpacket := (ackMessage confirmedMsgId).fragmentTxPacket_eq pqcMsgAck f.s.nodeId
    f.s.nextMsgId pqcFlagNone 0
  have hsend := fragmentTx_eq (ackMessage confirmedMsgId) pqcMsgAck f.s.nodeId f.s.nextMsgId
    pqcFlagNone (queueSend dst) f.tx
  rw [hcount] at hpacket hsend
  rw [List.range_one, List.map_singleton, sendAll_singleton] at hsend
  change fragmentTxPacket [confirmedMsgId] _ _ _ _ 1 0 = ackPacket _ _ _ at hpacket
  change PqcContiki.fragmentTx [confirmedMsgId] _ _ _ _ _ _ =
    queueSend dst (ackPacket f.s.nodeId f.s.nextMsgId confirmedMsgId) f.tx at hsend
  unfold Fsm.sendAck
  split
  · exact ⟨f.s, f.tx, f.obs, rfl, ⟨_, rfl⟩, Or.inl ⟨rfl, rfl⟩⟩
  · simp only [Fsm.fragmentTx, Fsm.mapS_s, Fsm.mapS_tx, Session.mapMetrics_nodeId,
      Session.takeMsgId_nodeId, hsend, hpacket]
    have hadds := queueSend_adds (φ := (· = ackPacket f.s.nodeId f.s.nextMsgId confirmedMsgId)) dst
      rfl f.tx
    cases hq : (queueSend dst (ackPacket f.s.nodeId f.s.nextMsgId confirmedMsgId) f.tx).1
    · exact ⟨_, _, _, rfl, ⟨_, rfl⟩, Or.inl ⟨queueSend_refused hq, rfl⟩⟩
    · exact ⟨_, _, _, rfl, ⟨_, rfl⟩, Or.inr ⟨hadds, rfl⟩⟩

theorem sendNack_cases (dst : UdpSendCtx) (i : Fin hsRxSlotCount) (f : Fsm) :
    ∃ s tx, (f.sendNack dst i).2 = ⟨s, f.hs, tx, f.obs⟩ ∧ (∃ n, s.core = f.s.core.skipTo n) ∧
      Adds (IsNack f.s.nodeId) f.tx tx := by
  have hquiet : ∃ s tx, f = ⟨s, f.hs, tx, f.obs⟩ ∧ (∃ n, s.core = f.s.core.skipTo n) ∧
      Adds (IsNack f.s.nodeId) f.tx tx := ⟨f.s, f.tx, rfl, ⟨_, rfl⟩, .refl⟩
  unfold Fsm.sendNack
  dsimp only
  split
  · exact hquiet
  · cases henc : pqcNackEncode (pqcNackBuildFromRx (f.hs.rxSlots i).ctx (pqcNackInit 0 0 0)
        pqcNackMaxMissing).2 pqcNackMaxPayloadLen with
    | none => exact hquiet
    | some payload =>
      dsimp only
      split
      · exact hquiet
      · obtain ⟨hpos, hle⟩ := pqcNackEncode_length henc
        set g := f.mapS fun s => s.takeMsgId.mapMetrics .noteNackTx with hg
        obtain ⟨tx, htx, hadds⟩ := fragmentTx_cases dst ⟨payload, hpos, hle⟩ pqcMsgNack
          f.s.nextMsgId pqcFlagNone g
        have hres : ∃ s tx, (g.fragmentTx dst payload pqcMsgNack f.s.nextMsgId pqcFlagNone).2 =
            ⟨s, f.hs, tx, f.obs⟩ ∧ (∃ n, s.core = f.s.core.skipTo n) ∧
            Adds (IsNack f.s.nodeId) f.tx tx :=
          ⟨g.s, tx, htx, ⟨_, rfl⟩, hadds.mono fun p hp => ⟨_, _, hp⟩⟩
        split <;> exact hres

/-- The fragments a session repeats when it is asked to: of the key or of the ciphertext it has
pending. -/
def IsPendingFragment (f : Fsm) (p : Bytes) : Prop :=
  (f.s.role = .root ∧ f.s.pendingMsgType = pqcMsgPk ∧
    IsFragmentOf (pkMessage f.hs.rootPk) pqcMsgPk f.s.nodeId f.s.pendingMsgId p) ∨
  (f.s.role = .node ∧ f.s.pendingMsgType = pqcMsgCt ∧
    IsFragmentOf (ctMessage f.hs.nodeCt) pqcMsgCt f.s.nodeId f.s.pendingMsgId p)

theorem nackSource_cases {data : Bytes} (h : f.nackSource = some data) :
    ∃ m : Message, data = m.data ∧
      ∀ p, IsFragmentOf m f.s.pendingMsgType f.s.nodeId f.s.pendingMsgId p →
        IsPendingFragment f p := by
  unfold Fsm.nackSource at h
  split at h
  · rename_i hroot
    obtain rfl := Option.some.inj h
    refine ⟨pkMessage f.hs.rootPk, rfl, ?_⟩
    intro p hp
    rw [hroot.2] at hp
    exact Or.inl ⟨by simpa [Session.sessionIsRoot] using hroot.1, hroot.2, hp⟩
  · split at h
    · rename_i hnode
      obtain rfl := Option.some.inj h
      refine ⟨ctMessage f.hs.nodeCt, rfl, ?_⟩
      intro p hp
      rw [hnode.2] at hp
      exact Or.inr ⟨by simpa [Session.sessionIsNode] using hnode.1, hnode.2, hp⟩
    · cases h

theorem retransmit_cases (P : Platform) (now : ℕ) (dst : UdpSendCtx) (nack : PqcNack) (f : Fsm) :
    ∃ s tx, (f.retransmitNackFragments P now dst nack).2 = ⟨s, f.hs, tx, f.obs⟩ ∧
      s.core = f.s.core ∧ Adds (IsPendingFragment f) f.tx tx := by
  unfold Fsm.retransmitNackFragments
  dsimp only
  set g := f.mapS (Session.mapMetrics .noteNackRx) with hg
  have hquiet : ∃ s tx, g = ⟨s, f.hs, tx, f.obs⟩ ∧ s.core = f.s.core ∧
      Adds (IsPendingFragment f) f.tx tx := ⟨g.s, f.tx, rfl, rfl, .refl⟩
  split
  · exact hquiet
  · rename_i hkey
    push Not at hkey
    cases hsrc : g.nackSource with
    | none => exact hquiet
    | some data =>
      obtain ⟨m, rfl, hm⟩ := nackSource_cases hsrc
      dsimp only
      split
      · exact hquiet
      · split
        · exact ⟨_, f.tx, rfl, rfl, .refl⟩
        · have hadds := sendSlices_adds dst m nack.missingMsgType g.s.nodeId nack.missingMsgId
            pqcFlagRetry (φ := IsPendingFragment f)
            (fun i hi => hm _ ⟨_, i, hi, by rw [hkey.1, hkey.2]⟩) nack.indices g.tx
          have hcount : fragmentTxCount m.data.length = m.count := rfl
          rw [hcount]
          generalize sendSlices m.data nack.missingMsgType g.s.nodeId nack.missingMsgId m.count
            pqcFlagRetry (queueSend dst) nack.indices g.tx = r at hadds ⊢
          split
          · exact ⟨g.s, r.2, rfl, rfl, hadds⟩
          · exact ⟨_, r.2, rfl, by simp [hg], hadds⟩

end Sends

end PqcContiki
