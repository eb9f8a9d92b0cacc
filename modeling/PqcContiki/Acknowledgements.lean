import PqcContiki.RootConfirmations

/-!
How a node is established: by an acknowledgement of the id it waits for, which the root has sent.
-/
namespace PqcContiki

open TxQueue Relation

variable {P : Platform} {me : SessionRef} {rnd : Entropy} {data : Option Bytes}
  {h : FragmentHeader} {payload : Bytes} {f f' : Fsm} {p : Bytes} {id : UInt16}
  {φ ψ : UInt8 → Bytes → Prop} {D : Directory}

/-- No acknowledgement for node `id` waits in the context for its other fragments. -/
structure AckFree (id : UInt16) (ctx : FragmentRxCtx) : Prop where
  idle : ctx.active = false → ctx = fragmentRxInit
  other : ctx.active = true → ctx.msgType = pqcMsgAck → ctx.nodeId ≠ id

theorem parse_ackPacket (nodeId : UInt16) (msgId confirmedMsgId : UInt8) :
    parseFragmentHeader (ackPacket nodeId msgId confirmedMsgId) =
      some ⟨pqcMsgAck, nodeId, msgId, 0, 1, 1⟩ := by
  have hparse : parseFragmentHeader (ackPacket nodeId msgId confirmedMsgId) =
      some ⟨pqcMsgAck, nodeId, msgId, 0, (ackMessage confirmedMsgId).count, 1⟩ :=
    Message.parse_packet (Message.count_pos _)
  rw [ackMessage_count] at hparse
  exact hparse

/-- An acknowledgement is a message of one fragment. -/
theorem AckFree.complete {ctx ctx' : FragmentRxCtx} (hc : AckFree id ctx) (hd : Vouched id φ p)
    (hparse : parseFragmentHeader p = some h) (htype : h.msgType = pqcMsgAck)
    (hid : h.nodeId = id)
    (hadd : fragmentRxAdd ctx h.msgType h.nodeId h.msgId h.fragIdx h.totalFrags (h.payload p) =
      (true, ctx')) :
    ∃ msgId confirmedMsgId, p = ackPacket id msgId confirmedMsgId ∧ φ confirmedMsgId p ∧
      fragmentRxComplete ctx' = true ∧ ctx'.buffer 0 = confirmedMsgId := by
  have hkind := isKind_of_parse hparse
  rw [htype, hid] at hkind
  obtain ⟨msgId, confirmedMsgId, rfl, hφ⟩ := hd hkind
  refine ⟨msgId, confirmedMsgId, rfl, hφ, ?_⟩
  obtain ⟨-, hmatch, rfl, -, -⟩ := fragmentRxAdd_some hadd
  have hidle : ctx = fragmentRxInit := by
    apply hc.idle
    by_contra hact
    obtain ⟨htype', hid', -, -⟩ := hmatch (by simpa using hact)
    exact hc.other (by simpa using hact) (htype'.trans htype) (hid'.trans hid)
  obtain rfl := Option.some.inj ((parse_ackPacket id msgId confirmedMsgId).symm.trans hparse)
  subst hidle
  exact ⟨rfl, rfl⟩

theorem AckFree.add {ctx ctx' : FragmentRxCtx} (hc : AckFree id ctx) (hd : Vouched id φ p)
    (hparse : parseFragmentHeader p = some h)
    (hadd : fragmentRxAdd ctx h.msgType h.nodeId h.msgId h.fragIdx h.totalFrags (h.payload p) =
      (true, ctx')) (hinc : fragmentRxComplete ctx' = false) : AckFree id ctx' := by
  obtain ⟨-, -, -, hact, htype, hnode, -, -⟩ := fragmentRxAdd_some hadd
  refine ⟨fun hidle => absurd (hact.symm.trans hidle) (by decide), ?_⟩
  intro _ hack hid
  obtain ⟨-, -, -, -, hcomplete, -⟩ := hc.complete hd hparse (htype.symm.trans hack)
    (hnode.symm.trans hid) hadd
  cases hinc.symm.trans hcomplete

theorem ackFree_init : AckFree id fragmentRxInit :=
  ⟨fun _ => rfl, fun hact => by cases hact⟩

/-- What a node has encapsulated, and the message id it sends it under. -/
structure Encapsulation where
  msgId : UInt8
  ct : Ciphertext
  ss : SharedSecret

namespace Node

variable {n n' : Node} {cur : Option Encapsulation}

/-- A node that waits to be acknowledged has the encapsulation `cur` out, and one that has been
acknowledged has its secret. -/
def HoldsTo (P : Platform) (cur : Option Encapsulation) (n : Node) : Prop :=
  n.session.state = .waitAck ∨ n.session.state = .established →
    ∃ x, cur = some x ∧ n.session.ss = x.ss ∧
      n.session.aesKey = P.cryptoWorkerDeriveAesKey x.ss ∧
      (n.session.state = .waitAck → n.session.pendingMsgId = x.msgId ∧ n.hs.nodeCt = x.ct)

theorem holdsTo_of_state {state : SessionState} (hstate : n.session.state = state)
    (hne : state ≠ .waitAck ∧ state ≠ .established) : HoldsTo P cur n := by
  subst hstate
  rintro (hw | he)
  · exact absurd hw hne.1
  · exact absurd he hne.2

theorem HoldsTo.of_core {c : SessionCore} (hn : HoldsTo P cur n) (hc : n'.session.core = c)
    (hstate : c.state = n.session.state) (hss : c.ss = n.session.ss)
    (hkey : c.aesKey = n.session.aesKey) (hpend : c.pendingMsgId = n.session.pendingMsgId)
    (hct : n'.hs.nodeCt = n.hs.nodeCt) : HoldsTo P cur n' := by
  have hstate' : n'.session.state = n.session.state := (congrArg SessionCore.state hc).trans hstate
  have hss' : n'.session.ss = n.session.ss := (congrArg SessionCore.ss hc).trans hss
  have hkey' : n'.session.aesKey = n.session.aesKey := (congrArg SessionCore.aesKey hc).trans hkey
  have hpend' : n'.session.pendingMsgId = n.session.pendingMsgId :=
    (congrArg SessionCore.pendingMsgId hc).trans hpend
  rw [HoldsTo, hstate', hss', hkey', hpend', hct]
  exact hn

theorem HoldsTo.of_alike (hn : HoldsTo P cur n) (ha : Alike n n') : HoldsTo P cur n' := by
  obtain ⟨k, hk⟩ := ha.session
  exact hn.of_core hk rfl rfl rfl rfl (congrArg HsStatics.nodeCt ha.hs)

/-- Without a new encapsulation a node holds to its latest one. -/
theorem holdsTo_act (hv : id ≠ sessionInvalidNodeId) (hs : Sound n) (hn : Named id n)
    (hh : HoldsTo P cur n) (ha : Act P rnd data n n')
    (hobs : encapsulated n'.obs = encapsulated n.obs) : HoldsTo P cur n' := by
  cases ha with
  | touch hal => exact hh.of_alike hal
  | request _ hc _ => exact holdsTo_of_state (congrArg SessionCore.state hc) (by simp)
  | requested _ | collect _ | transmit => exact hh
  | reset | reboot => exact holdsTo_of_state (rfl : _ = SessionState.idle) (by decide)
  | retry hr =>
    cases hr with
    | waited hc _ | asked _ hc _ _ _ _ => exact hh.of_core hc rfl rfl rfl rfl rfl
    | failed _ hc _ _ _ => exact holdsTo_of_state (congrArg SessionCore.state hc) (by simp)
    | resent _ hc _ _ => rcases hc with hc | hc <;> exact hh.of_core hc rfl rfl rfl rfl rfl
    | stray _ _ _ => exact hh
  | fragment _ _ _ hhandled =>
    rw [hn.mapS_adopt hv] at hhandled
    cases hhandled with
    | incomplete hi =>
      cases hi with
      | quiet hc _ | stored hc _ _ _ _ _ =>
        obtain ⟨k, hk⟩ := hc
        exact hh.of_core hk rfl rfl rfl rfl rfl
      | refused _ _ => exact hh
      | resent hc _ _ => exact hh.of_core hc rfl rfl rfl rfl rfl
    | confirmed hr _ _ _ _ _ | ct hr _ _ _ _ => cases hs.role.symm.trans hr
    | pk _ _ _ _ hc =>
      cases hc with
      | rejected _ hc => exact holdsTo_of_state (congrArg SessionCore.state hc) (by simp)
      | failed _ _ _ _ _ | sent _ _ _ _ => exact absurd hobs (List.cons_ne_self _ _)
    | @ack _ _ s _ hwait _ _ _ _ hc =>
      obtain ⟨x, hcur, hss, hkey, -⟩ := hh (Or.inl hwait)
      have hstate : s.state = .established := congrArg SessionCore.state hc
      have hss' : s.ss = n.session.ss := congrArg SessionCore.ss hc
      have hkey' : s.aesKey = n.session.aesKey := congrArg SessionCore.aesKey hc
      intro _
      refine ⟨x, hcur, hss'.trans hss, hkey'.trans hkey, ?_⟩
      intro hw
      cases hstate.symm.trans hw

/-- A node encapsulates while it waits for the key, and holds to the new encapsulation from then
on, unless it has failed. -/
theorem encapsulates_act {pk : PublicKey} {ok : Bool} {ct : Ciphertext} {ss : SharedSecret}
    (hv : id ≠ sessionInvalidNodeId) (hs : Sound n) (hn : Named id n) (ha : Act P rnd data n n')
    (hobs : n'.obs = .encapsulate id pk ok ct ss :: n.obs) :
    HoldsTo P (some ⟨n.session.nextMsgId, ct, ss⟩) n' ∧
      (ok = false → n'.session.state = .failed) := by
  have hquiet : n'.obs ≠ n.obs := by
    rw [hobs]
    exact List.cons_ne_self _ _
  cases ha with
  | touch hal => exact absurd hal.obs hquiet
  | request _ _ _ | requested _ | collect _ | transmit | reset | reboot => exact absurd rfl hquiet
  | retry hr => exact absurd (hr.coherent hs.coherent).2 hquiet
  | fragment _ _ _ hhandled =>
    rw [hn.mapS_adopt hv] at hhandled
    cases hhandled with
    | incomplete hi => cases hi <;> exact absurd rfl hquiet
    | confirmed hr _ _ _ _ _ | ct hr _ _ _ _ => cases hs.role.symm.trans hr
    | ack _ _ _ _ _ _ _ => exact absurd rfl hquiet
    | pk _ _ _ _ hc =>
      cases hc with
      | rejected _ _ => exact absurd rfl hquiet
      | failed _ _ hc _ _ =>
        have hfailed := congrArg SessionCore.state hc
        exact ⟨holdsTo_of_state hfailed (by simp), fun _ => hfailed⟩
      | @sent s _ _ _ _ _ hc _ =>
        injection hobs with hhead
        injection hhead with _ _ hok hct hss
        subst hok hct hss
        have hss' := congrArg SessionCore.ss hc
        have hkey' := congrArg SessionCore.aesKey hc
        have hpend' := congrArg SessionCore.pendingMsgId hc
        exact ⟨fun _ => ⟨_, rfl, hss', hkey', fun _ => ⟨hpend', rfl⟩⟩, fun hok => by cases hok⟩

/-- A node is established by an acknowledgement of what it waits for. -/
theorem established_act (hv : id ≠ sessionInvalidNodeId) (hs : Sound n) (hn : Named id n)
    (hslots : Assigned (fun _ => AckFree id) n.hs.rxSlots)
    (hd : ∀ d, data = some d → Vouched id φ d) (ha : Act P rnd data n n')
    (hest : n'.session.state = .established) :
    n'.session.ss = n.session.ss ∧ (n.session.state = .established ∨
      n.session.state = .waitAck ∧ ∃ msgId,
        data = some (ackPacket id msgId n.session.pendingMsgId) ∧
        φ n.session.pendingMsgId (ackPacket id msgId n.session.pendingMsgId)) := by
  have hsame {c : SessionCore} (hc : n'.session.core = c) (hstate : c.state = n.session.state)
      (hss : c.ss = n.session.ss) :
      n'.session.ss = n.session.ss ∧ n.session.state = .established :=
    ⟨(congrArg SessionCore.ss hc).trans hss,
      hstate.symm.trans ((congrArg SessionCore.state hc).symm.trans hest)⟩
  have hother {c : SessionCore} (hc : n'.session.core = c) (hstate : c.state ≠ .established) :
      n'.session.ss = n.session.ss ∧ n.session.state = .established :=
    absurd ((congrArg SessionCore.state hc).symm.trans hest) hstate
  have hstays {Q : Prop} (h : n'.session.ss = n.session.ss ∧ n.session.state = .established) :
      n'.session.ss = n.session.ss ∧ (n.session.state = .established ∨ Q) :=
    ⟨h.1, Or.inl h.2⟩
  cases ha with
  | touch hal =>
    obtain ⟨k, hk⟩ := hal.session
    exact hstays (hsame hk rfl rfl)
  | request _ hc _ => exact hstays (hother hc (by simp))
  | requested _ | collect _ | transmit => exact hstays ⟨rfl, hest⟩
  | reset | reboot => cases hest
  | retry hr =>
    cases hr with
    | waited hc _ | asked _ hc _ _ _ _ => exact hstays (hsame hc rfl rfl)
    | failed _ hc _ _ _ => exact hstays (hother hc (by simp))
    | resent _ hc _ _ => rcases hc with hc | hc <;> exact hstays (hsame hc rfl rfl)
    | stray _ _ _ => exact hstays ⟨rfl, hest⟩
  | fragment he hparse hname hhandled =>
    rw [hn.mapS_adopt hv] at hhandled
    cases hhandled with
    | incomplete hi =>
      cases hi with
      | quiet hc _ | stored hc _ _ _ _ _ =>
        obtain ⟨k, hk⟩ := hc
        exact hstays (hsame hk rfl rfl)
      | refused _ _ => exact hstays ⟨rfl, hest⟩
      | resent hc _ _ => exact hstays (hsame hc rfl rfl)
    | confirmed hr _ _ _ _ _ | ct hr _ _ _ _ => cases hs.role.symm.trans hr
    | pk _ _ _ _ hc =>
      cases hc with
      | rejected _ hc | failed _ _ hc _ _ | sent _ _ hc _ => exact hstays (hother hc (by simp))
    | ack _ hwait htype hf _ hbuf hc =>
      obtain ⟨slots, i, hcol, ⟨slot, hacq, hadd⟩, -, -⟩ := hf
      have hfree := hacq.may_ctx (hslots.collect hcol) ackFree_init
      obtain ⟨msgId, confirmedMsgId, hp, hφ, -, hbuf'⟩ :=
        hfree.complete (hd _ he) hparse htype (hn.names hv hname) hadd
      obtain rfl : confirmedMsgId = n.session.pendingMsgId := hbuf'.symm.trans hbuf
      subst hp
      exact ⟨congrArg SessionCore.ss hc, Or.inr ⟨hwait, msgId, he, hφ⟩⟩

theorem log_act (ha : Act P rnd data n n') : n.obs <:+ n'.obs := by
  cases ha with
  | touch hal => exact hal.obs ▸ List.suffix_rfl
  | request _ _ _ | requested _ | collect _ | transmit | reset | reboot => exact List.suffix_rfl
  | retry hr => exact hr.log
  | fragment _ _ _ hh => exact hh.log

theorem log_handle (P : Platform) (n : Node) (e : Event) : n.obs <:+ (n.handle P e).obs := by
  obtain ⟨rnd, ha⟩ := handle_acts P n e
  generalize n.handle P e = n' at ha
  induction ha with
  | refl => exact List.suffix_rfl
  | tail _ hlast ih => exact ih.trans (log_act hlast)

theorem ackFree_handle (hslots : Assigned (fun _ => AckFree id) n.hs.rxSlots) (e : Event)
    (hd : ∀ d, e.heard = some d → Vouched id φ d) :
    Assigned (fun _ => AckFree id) (n.handle P e).hs.rxSlots := by
  obtain ⟨rnd, ha⟩ := handle_acts P n e
  generalize n.handle P e = n' at ha
  induction ha with
  | refl => exact hslots
  | tail _ hlast ih =>
    exact slots_act ih hlast ackFree_init fun h d he hparse _ ctx ctx' hctx hadd hinc =>
      hctx.add (hd d he) hparse hadd hinc

theorem holdsTo_handle (hv : id ≠ sessionInvalidNodeId) (hs : Sound n) (hn : Named id n)
    (hh : HoldsTo P cur n) (e : Event)
    (hobs : encapsulated (n.handle P e).obs = encapsulated n.obs) :
    HoldsTo P cur (n.handle P e) := by
  rcases handle_turn P n e with ⟨rnd, n₁, hact, halike⟩ | hdeaf
  · rw [halike.obs] at hobs
    exact (holdsTo_act hv hs hn hh hact hobs).of_alike halike
  · generalize n.handle P e = n' at hdeaf
    have hall : Sound n' ∧ Named id n' ∧ HoldsTo P cur n' := by
      clear hobs
      induction hdeaf with
      | refl => exact ⟨hs, hn, hh⟩
      | tail _ hlast ih =>
        obtain ⟨hs', hn', hh'⟩ := ih
        exact ⟨sound_act hs' hlast, named_act hv hn' hlast,
          holdsTo_act hv hs' hn' hh' hlast (encapsulated_act hlast)⟩
    exact hall.2.2

theorem encapsulates_handle {pk : PublicKey} {ok : Bool} {ct : Ciphertext} {ss : SharedSecret}
    (hv : id ≠ sessionInvalidNodeId) (hs : Sound n) (hn : Named id n) (e : Event)
    (hobs : (n.handle P e).obs = .encapsulate id pk ok ct ss :: n.obs) :
    HoldsTo P (some ⟨n.session.nextMsgId, ct, ss⟩) (n.handle P e) ∧
      (ok = false → (n.handle P e).session.state = .failed) := by
  rcases handle_turn P n e with ⟨rnd, n₁, hact, halike⟩ | hdeaf
  · rw [halike.obs] at hobs
    obtain ⟨hholds, hfailed⟩ := encapsulates_act hv hs hn hact hobs
    obtain ⟨k, hk⟩ := halike.session
    exact ⟨hholds.of_alike halike, fun hok => (congrArg SessionCore.state hk).trans (hfailed hok)⟩
  · exact absurd hobs (not_encapsulates (encapsulated_acts hdeaf) _ _ _ _)

theorem established_handle (hv : id ≠ sessionInvalidNodeId) (hs : Sound n) (hn : Named id n)
    (hslots : Assigned (fun _ => AckFree id) n.hs.rxSlots) (e : Event)
    (hd : ∀ d, e.heard = some d → Vouched id φ d)
    (hest : (n.handle P e).session.state = .established) :
    (n.handle P e).session.ss = n.session.ss ∧ (n.session.state = .established ∨
      n.session.state = .waitAck ∧ ∃ msgId,
        e.heard = some (ackPacket id msgId n.session.pendingMsgId) ∧
        φ n.session.pendingMsgId (ackPacket id msgId n.session.pendingMsgId)) := by
  rcases handle_turn P n e with ⟨rnd, n₁, hact, halike⟩ | hdeaf
  · obtain ⟨k, hk⟩ := halike.session
    have hss : (n.handle P e).session.ss = n₁.session.ss := congrArg SessionCore.ss hk
    rw [hss]
    exact established_act hv hs hn hslots hd hact ((congrArg SessionCore.state hk).symm.trans hest)
  · generalize n.handle P e = n' at hdeaf hest
    have hall : Sound n' ∧ Named id n' ∧ Assigned (fun _ => AckFree id) n'.hs.rxSlots ∧
        (n'.session.state = .established →
          n'.session.ss = n.session.ss ∧ n.session.state = .established) := by
      clear hest
      induction hdeaf with
      | refl => exact ⟨hs, hn, hslots, fun hest => ⟨rfl, hest⟩⟩
      | tail _ hlast ih =>
        obtain ⟨hs', hn', hslots', hback⟩ := ih
        refine ⟨sound_act hs' hlast, named_act hv hn' hlast,
          slots_act hslots' hlast ackFree_init (fun _ _ he => by cases he), ?_⟩
        intro hest
        have hno : ∀ d, (none : Option Bytes) = some d → Vouched id φ d := fun _ he => by cases he
        obtain ⟨hss, hwas⟩ := established_act hv hs' hn' hslots' hno hlast hest
        rcases hwas with hwas | ⟨-, _, he, -⟩
        · exact ⟨hss.trans (hback hwas).1, (hback hwas).2⟩
        · cases he
    obtain ⟨hss, hwas⟩ := hall.2.2.2 hest
    exact ⟨hss, Or.inl hwas⟩

end Node

end PqcContiki
