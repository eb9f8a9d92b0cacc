import PqcContiki.RootAgreement

/-!
The acknowledgements of the root: it confirms message ids while it has a session established
with the node.
-/
namespace PqcContiki

open TxQueue Relation

variable {P : Platform} {me : SessionRef} {rnd : Entropy} {data : Option Bytes}
  {h : FragmentHeader} {payload : Bytes} {f f' : Fsm} {p : Bytes} {id : UInt16}
  {φ ψ : UInt8 → Bytes → Prop} {D : Directory}

/-- If the packet acknowledges something to node `id`, then `φ` holds of it and of the message id
it confirms. -/
def Vouched (id : UInt16) (φ : UInt8 → Bytes → Prop) (p : Bytes) : Prop :=
  IsKind pqcMsgAck id p →
    ∃ msgId confirmedMsgId, p = ackPacket id msgId confirmedMsgId ∧ φ confirmedMsgId p

theorem Vouched.mono (hp : Vouched id φ p) (hsub : ∀ c p, φ c p → ψ c p) : Vouched id ψ p := by
  intro hk
  obtain ⟨msgId, confirmedMsgId, he, hφ⟩ := hp hk
  exact ⟨msgId, confirmedMsgId, he, hsub _ _ hφ⟩

theorem vouched_of_kind {msgType : UInt8} {nodeId : UInt16} (hk : IsKind msgType nodeId p)
    (hne : msgType ≠ pqcMsgAck ∨ nodeId ≠ id) : Vouched id φ p := by
  rintro ⟨htype, hid⟩
  rcases hne with hne | hne
  · exact absurd (hk.1.symm.trans htype) hne
  · exact absurd (hk.2.symm.trans hid) hne

theorem IsPendingFragment.vouched (hp : IsPendingFragment f p) : Vouched id φ p := by
  rcases hp with ⟨-, -, hp⟩ | ⟨-, -, hp⟩
  · exact vouched_of_kind hp.isKind (Or.inl (by decide))
  · exact vouched_of_kind hp.isKind (Or.inl (by decide))

theorem AckSent.log {nodeId : UInt16} {msgId confirmedMsgId : UInt8} {ss : SharedSecret}
    {tx tx' : TxQueue} {obs obs' : List Observation}
    (ha : AckSent nodeId msgId confirmedMsgId ss tx tx' obs obs') : obs <:+ obs' := by
  rcases ha with ⟨-, rfl⟩ | ⟨-, rfl⟩
  · exact List.suffix_rfl
  · exact List.suffix_cons ..

/-- The log only grows. -/
theorem Handled.log (hh : Handled P me rnd h payload f f') : f.obs <:+ f'.obs := by
  cases hh with
  | incomplete hi => cases hi <;> exact List.suffix_rfl
  | confirmed _ _ _ _ _ hack => exact hack.log
  | ct _ _ _ _ hc =>
    cases hc with
    | rejected _ _ => exact List.suffix_rfl
    | failed _ _ _ => exact List.suffix_cons ..
    | established _ _ _ _ hack => exact (List.suffix_cons ..).trans hack.log
  | pk _ _ _ _ hc =>
    cases hc with
    | rejected _ _ => exact List.suffix_rfl
    | failed _ _ _ _ _ | sent _ _ _ _ => exact List.suffix_cons ..
  | ack _ _ _ _ _ _ _ => exact List.suffix_rfl

theorem Retried.log (hr : Retried f f') : f.obs <:+ f'.obs := by
  cases hr with
  | waited _ _ | failed _ _ _ _ _ | asked _ _ _ _ _ _ | resent _ _ _ _ => exact List.suffix_rfl
  | stray _ _ _ => exact List.suffix_cons ..

namespace Root

variable {r r' : Root}

theorem log_act (ha : Act P rnd data r r') : r.obs <:+ r'.obs := by
  cases ha with
  | touch hal => exact hal.obs ▸ List.suffix_rfl
  | create _ _ _ | reset _ _ | ctStart _ _ _ | collect _ | transmit => exact List.suffix_rfl
  | start _ _ _ hst =>
    rw [putFsm_obs, hst.obs]
    exact List.suffix_rfl
  | fragment _ _ _ _ hh => exact hh.log
  | retry _ hr => exact hr.log

/-- What the root queues as an acknowledgement it has just logged, with the secret of an
established session. -/
theorem acks_act (hq : r.tx.Holds (Vouched id φ)) (ha : Act P rnd data r r')
    (hnew : ∀ j msgId confirmedMsgId obs, Established id r' j →
      r'.obs = .ack id (ackPacket id msgId confirmedMsgId) (r'.sessions j).ss :: obs →
      φ confirmedMsgId (ackPacket id msgId confirmedMsgId)) : r'.tx.Holds (Vouched id φ) := by
  cases ha with
  | touch hal => exact hal.tx ▸ hq
  | create _ _ _ | collect _ => exact hq
  | reset _ _ =>
    rw [dropAndReset_tx]
    exact hq.dropNode _
  | start _ _ _ hst =>
    generalize (HsStatics.hsFsmRootInitKeypair P rnd _).2 = hs at hst
    cases hst with
    | refused _ => exact hq
    | failed _ hadds | sent _ hadds =>
      exact hadds.holds hq fun p hp => vouched_of_kind hp.isKind (Or.inl (by decide))
  | @ctStart i _ _ _ _ _ =>
    rw [setSession_tx]
    dsimp only
    exact hq.drop (r.sessions i).nodeId pqcMsgPk (r.sessions i).pendingMsgId
  | @fragment i _ _ f _ _ hu hid hh =>
    refine hh.sends.holds hq ?_
    intro p hp
    cases hp with
    | nack hp => exact vouched_of_kind hp.isKind (Or.inl (by decide))
    | pending hp => exact hp.vouched
    | ct _ _ hp => exact vouched_of_kind hp.isKind (Or.inl (by decide))
    | @ack _ _ obs _ hp hstate hobs =>
      subst hp
      by_cases hname : (r.sessions i).nodeId = id
      · intro _
        rw [fsm_s, hname] at hobs ⊢
        have hident : f.s.core.identity = (r.sessions i).core.identity := hh.identity
        have hused : f.s.used = (r.sessions i).used := congrArg Prod.fst hident
        have hnode : f.s.nodeId = (r.sessions i).nodeId := congrArg (fun x => x.2.1) hident
        refine ⟨_, _, rfl, hnew i _ _ obs ⟨?_, ?_, ?_⟩ ?_⟩
        · simpa using hused.trans hu
        · simpa using hnode.trans hname
        · simpa using hstate
        · simpa using hobs
      · exact vouched_of_kind ackPacket_isKind (Or.inr hname)
  | retry _ hr =>
    refine hr.sends.holds hq ?_
    rintro p (hp | hp | ⟨-, hp⟩)
    · exact vouched_of_kind hp.isKind (Or.inl (by decide))
    · exact hp.vouched
    · exact vouched_of_kind hp (Or.inl (by decide))
  | transmit => exact hq.process.1

/-- An acknowledgement is logged while the session is established, on a fragment of a
ciphertext. -/
theorem ack_act (ha : Act P rnd data r r') {ss : SharedSecret} (hmem : .ack id p ss ∈ r'.obs) :
    .ack id p ss ∈ r.obs ∨ (∃ d, data = some d ∧ IsKind pqcMsgCt id d) ∧
      ∃ j, Established id r' j ∧ (r'.sessions j).ss = ss := by
  have hold {obs : List Observation} {o : Observation} (hne : ∀ p ss, o ≠ .ack id p ss)
      (hmem : .ack id p ss ∈ o :: obs) : .ack id p ss ∈ obs := by
    rcases List.mem_cons.mp hmem with heq | hmem
    · exact absurd heq.symm (hne p ss)
    · exact hmem
  cases ha with
  | touch hal => exact Or.inl (hal.obs ▸ hmem)
  | create _ _ _ | reset _ _ | ctStart _ _ _ | collect _ | transmit => exact Or.inl hmem
  | start _ _ _ hst =>
    rw [putFsm_obs, hst.obs] at hmem
    exact Or.inl hmem
  | retry _ hr =>
    cases hr with
    | waited _ _ | failed _ _ _ _ _ | asked _ _ _ _ _ _ | resent _ _ _ _ => exact Or.inl hmem
    | stray _ _ _ => exact Or.inl (hold (by simp) hmem)
  | @fragment i hdr d f he hparse hu hid hh =>
    have hident : f.s.core.identity = (r.sessions i).core.identity := hh.identity
    have hused : f.s.used = (r.sessions i).used := congrArg Prod.fst hident
    have hnode : f.s.nodeId = (r.sessions i).nodeId := congrArg (fun x => x.2.1) hident
    have hnew {obs : List Observation} {msgId confirmedMsgId : UInt8} {ss' : SharedSecret}
        {tx tx' : TxQueue} (htype : hdr.msgType = pqcMsgCt) (hstate : f.s.state = .established)
        (hss : f.s.ss = ss')
        (hack : AckSent (r.sessions i).nodeId msgId confirmedMsgId ss' tx tx' obs f.obs) :
        .ack id p ss ∈ obs ∨ (∃ d, data = some d ∧ IsKind pqcMsgCt id d) ∧
          ∃ j, Established id (r.putFsm i f) j ∧ ((r.putFsm i f).sessions j).ss = ss := by
      rcases hack with ⟨-, hobs⟩ | ⟨-, hobs⟩
      · exact Or.inl (hobs ▸ hmem)
      · rw [putFsm_obs, hobs] at hmem
        rcases List.mem_cons.mp hmem with heq | hmem
        · injection heq with hname _ hss'
          have hkind := isKind_of_parse hparse
          rw [htype, ← hid, ← hname] at hkind
          refine Or.inr ⟨⟨d, he, hkind⟩, i, ⟨?_, ?_, ?_⟩, ?_⟩
          · simpa using hused.trans hu
          · simpa using hnode.trans hname.symm
          · simpa using hstate
          · simpa using hss.trans hss'.symm
        · exact Or.inl hmem
    cases hh with
    | incomplete hi => cases hi <;> exact Or.inl hmem
    | confirmed _ hest htype hs _ hack =>
      obtain ⟨n, hn⟩ := hs
      simp only [Session.sessionIsEstablished, Bool.and_eq_true, beq_iff_eq] at hest
      exact hnew htype ((congrArg SessionCore.state hn).trans hest.1) (congrArg SessionCore.ss hn)
        hack
    | ct _ _ htype _ hc =>
      cases hc with
      | rejected _ _ => exact Or.inl hmem
      | failed _ _ _ => exact Or.inl (hold (by simp) hmem)
      | established _ _ _ hs hack =>
        obtain ⟨n, hn⟩ := hs
        rcases hnew htype (congrArg SessionCore.state hn) (congrArg SessionCore.ss hn) hack with
          hmem | hnew
        · exact Or.inl (hold (by simp) hmem)
        · exact Or.inr hnew
    | pk _ _ _ _ hc =>
      cases hc with
      | rejected _ _ => exact Or.inl hmem
      | failed _ _ _ _ _ | sent _ _ _ _ => exact Or.inl (hold (by simp) hmem)
    | ack _ _ _ _ _ _ _ => exact Or.inl hmem

/-- Unless its node asks for the key, an agreement outlasts an act. -/
theorem lasts_act (hs : Sound r) (hg : Gathers id D r)
    (hd : ∀ d, data = some d → CarriesCt id D d)
    (hno : ∀ d, data = some d → ¬ IsKind pqcMsgGetpk id d) (ha : Act P rnd data r r') :
    Inherits id r' r := by
  rcases agreement_act hs hg hd ha with
    ⟨-, -, hback⟩ | ⟨-, -, -, -, hwait, -, -, -, -, -, -, hothers⟩
  · exact hback hno
  · intro k hk
    have hsame := hothers k fun hkj => by
      subst hkj
      cases hwait.symm.trans hk.state
    exact ⟨⟨hsame ▸ hk.used, hsame ▸ hk.nodeId, hsame ▸ hk.state⟩, by rw [hsame], by rw [hsame]⟩

theorem lasts_acts (hs : Sound r) (hg : Gathers id D r)
    (hd : ∀ d, data = some d → CarriesCt id D d)
    (hno : ∀ d, data = some d → ¬ IsKind pqcMsgGetpk id d) (ha : Acts P rnd data r r') :
    Inherits id r' r := by
  have hall : Sound r' ∧ Gathers id D r' ∧ Inherits id r' r := by
    induction ha with
    | refl => exact ⟨hs, hg, fun _ hj => ⟨hj, rfl, rfl⟩⟩
    | tail _ hlast ih =>
      obtain ⟨hs', hg', hlasts⟩ := ih
      refine ⟨sound_act hs' hlast, gathers_act hg' hlast hd, ?_⟩
      intro j hj
      obtain ⟨hj', hss, hkey⟩ := hlasts j hj
      obtain ⟨hj'', hss', hkey'⟩ := lasts_act hs' hg' hd hno hlast j hj'
      exact ⟨hj'', hss.trans hss', hkey.trans hkey'⟩
  exact hall.2.2

/-- After an event that logs an acknowledgement its session is established. -/
theorem ack_acts (hs : Sound r) (hg : Gathers id D r) (hd : ∀ d, data = some d → CarriesCt id D d)
    (ha : Acts P rnd data r r') {ss : SharedSecret} (hmem : .ack id p ss ∈ r'.obs) :
    .ack id p ss ∈ r.obs ∨ ∃ j, Established id r' j ∧ (r'.sessions j).ss = ss := by
  have hall : Sound r' ∧ Gathers id D r' ∧ (.ack id p ss ∈ r'.obs → .ack id p ss ∈ r.obs ∨
      (∃ d, data = some d ∧ IsKind pqcMsgCt id d) ∧
        ∃ j, Established id r' j ∧ (r'.sessions j).ss = ss) := by
    clear hmem
    induction ha with
    | refl => exact ⟨hs, hg, Or.inl⟩
    | tail _ hlast ih =>
      obtain ⟨hs', hg', hacked⟩ := ih
      refine ⟨sound_act hs' hlast, gathers_act hg' hlast hd, ?_⟩
      intro hmem
      rcases ack_act hlast hmem with hmem | hnew
      · rcases hacked hmem with hold | ⟨⟨d, he, hkind⟩, j, hj, hss⟩
        · exact Or.inl hold
        · have hno : ∀ d, data = some d → ¬ IsKind pqcMsgGetpk id d := by
            rintro d' he' ⟨htype, -⟩
            obtain rfl := Option.some.inj (he.symm.trans he')
            exact absurd (hkind.1.symm.trans htype) (by decide)
          obtain ⟨hj', hss', -⟩ := lasts_act hs' hg' hd hno hlast j hj
          exact Or.inr ⟨⟨d, he, hkind⟩, j, hj', hss'.symm.trans hss⟩
      · exact Or.inr hnew
  rcases hall.2.2 hmem with hold | ⟨-, hnew⟩
  · exact Or.inl hold
  · exact Or.inr hnew

end Root

end PqcContiki
