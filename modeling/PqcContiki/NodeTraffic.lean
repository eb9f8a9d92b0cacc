import PqcContiki.Patchwork
import PqcContiki.QueueSoundness
import PqcContiki.SessionTable

/-!
What a node puts into its queue: it sends under its own id, and its ciphertext packets are
fragments of ciphertexts it encapsulated.
-/
namespace PqcContiki

open TxQueue Relation

variable {P : Platform} {me : SessionRef} {rnd : Entropy} {data : Option Bytes}
  {h : FragmentHeader} {payload : Bytes} {f f' : Fsm} {p : Bytes} {id : UInt16}

/-- A packet one call of the handshake code on a fragment may have queued. -/
inductive Sends (f f' : Fsm) (p : Bytes) : Prop
  | nack : IsNack f.s.nodeId p → Sends f f' p
  | pending : IsPendingFragment f p → Sends f f' p
  | ct {pk : PublicKey} {ct : Ciphertext} {ss : SharedSecret} :
      f.s.role = .node → f'.obs = .encapsulate f.s.nodeId pk true ct ss :: f.obs →
      IsFragmentOf (ctMessage ct) pqcMsgCt f.s.nodeId f.s.nextMsgId p → Sends f f' p
  | ack {msgId confirmedMsgId : UInt8} {obs : List Observation} :
      f.s.role = .root → p = ackPacket f.s.nodeId msgId confirmedMsgId →
      f'.s.state = .established → f'.obs = .ack f.s.nodeId p f'.s.ss :: obs → Sends f f' p

theorem ackPacket_isKind {msgId confirmedMsgId : UInt8} {nodeId : UInt16} :
    IsKind pqcMsgAck nodeId (ackPacket nodeId msgId confirmedMsgId) :=
  ⟨rfl, pqcHeaderGetNodeId_write⟩

theorem AckSent.sends {msgId : UInt8} {ss : SharedSecret} {tx : TxQueue}
    {obs obs' : List Observation}
    (ha : AckSent f.s.nodeId f.s.nextMsgId msgId ss f.tx tx obs obs') (hrole : f.s.role = .root)
    {s : Session} {hs : HsStatics} (hstate : s.state = .established) (hss : s.ss = ss) :
    Adds (Sends f ⟨s, hs, tx, obs'⟩) f.tx tx := by
  rcases ha with ⟨rfl, -⟩ | ⟨hadds, rfl⟩
  · exact .refl
  · refine hadds.mono ?_
    rintro p rfl
    exact .ack hrole rfl hstate (by rw [← hss])

theorem Handled.sends (hh : Handled P me rnd h payload f f') : Adds (Sends f f') f.tx f'.tx := by
  cases hh with
  | incomplete hi =>
    cases hi with
    | quiet _ _ | refused _ _ => exact .refl
    | stored _ _ _ _ _ ha => exact ha.mono fun _ hp => .nack hp
    | resent _ _ ha => exact ha.mono fun _ hp => .pending hp
  | confirmed hr hest _ hs _ ha =>
    obtain ⟨n, hn⟩ := hs
    refine ha.sends hr ?_ (congrArg SessionCore.ss hn)
    simp only [Session.sessionIsEstablished, Bool.and_eq_true, beq_iff_eq] at hest
    exact (congrArg SessionCore.state hn).trans hest.1
  | ct hr _ _ _ hc =>
    cases hc with
    | rejected _ _ | failed _ _ _ => exact .refl
    | established _ _ _ hs ha =>
      obtain ⟨n, hn⟩ := hs
      exact ha.sends hr (congrArg SessionCore.state hn) (congrArg SessionCore.ss hn)
  | pk hr _ _ _ hc =>
    cases hc with
    | rejected _ _ => exact .refl
    | @failed _ ok _ _ _ _ _ _ _ _ _ ha hno =>
      cases ok with
      | false => exact hno rfl ▸ .refl
      | true => exact ha.mono fun _ hp => .ct hr rfl hp
    | sent _ _ _ ha => exact ha.mono fun _ hp => .ct hr rfl hp
  | ack _ _ _ _ _ _ _ => exact .refl

theorem IsPendingFragment.names (hp : IsPendingFragment f p) :
    pqcHeaderGetNodeId p = f.s.nodeId := by
  rcases hp with ⟨-, -, hp⟩ | ⟨-, -, hp⟩ <;> exact hp.isKind.2

theorem Sends.names (hp : Sends f f' p) : pqcHeaderGetNodeId p = f.s.nodeId := by
  cases hp with
  | nack hp => exact hp.isKind.2
  | pending hp => exact hp.names
  | ct _ _ hp => exact hp.isKind.2
  | ack _ hp _ _ => exact hp ▸ ackPacket_isKind.2

theorem Retried.sends (hr : Retried f f') :
    Adds (fun p => IsNack f.s.nodeId p ∨ IsRepeated f p) f.tx f'.tx := by
  cases hr with
  | waited _ _ | stray _ _ _ => exact .refl
  | failed _ _ _ _ ha | asked _ _ _ _ _ ha => exact ha.mono fun _ hp => Or.inl hp
  | resent _ _ _ ha => exact ha.mono fun _ hp => Or.inr hp

theorem IsRepeated.names (hp : IsRepeated f p) : pqcHeaderGetNodeId p = f.s.nodeId := by
  rcases hp with hp | ⟨-, hp⟩
  · exact hp.names
  · exact hp.2

/-- The ciphertexts a device has made, newest first. -/
def encapsulated (obs : List Observation) : List Ciphertext :=
  obs.filterMap fun
    | .encapsulate _ _ _ ct _ => some ct
    | _ => none

/-- The ciphertexts that may be out under each message id. -/
abbrev Directory := UInt8 → Ciphertext → Prop

def ctSource (D : Directory) (msgId : UInt8) (m : Message) : Prop :=
  ∃ ct, D msgId ct ∧ m = ctMessage ct

theorem ctSource_count {D : Directory} {msgId : UInt8} {m : Message} (hm : ctSource D msgId m) :
    m.count = 71 := by
  obtain ⟨ct, -, rfl⟩ := hm
  exact ctMessage_count ct

theorem ctSource_mono {D D' : Directory} (hsub : ∀ msgId ct, D msgId ct → D' msgId ct)
    (msgId : UInt8) (m : Message) (hm : ctSource D msgId m) : ctSource D' msgId m := by
  obtain ⟨ct, hct, rfl⟩ := hm
  exact ⟨ct, hsub msgId ct hct, rfl⟩

/-- A ciphertext packet of node `id` belongs to a ciphertext in the directory. -/
abbrev CarriesCt (id : UInt16) (D : Directory) : Bytes → Prop := Carries pqcMsgCt id (ctSource D)

abbrev CollectsCt (id : UInt16) (D : Directory) : FragmentRxCtx → Prop :=
  Collects pqcMsgCt id 71 (ctSource D)

namespace Node

variable {n n' : Node} {D : Directory}

/-- The node goes by the name `id` and by no other. -/
structure Named (id : UInt16) (n : Node) : Prop where
  nodeId : n.nodeId = id
  session : n.session.nodeId = id
  tx : n.tx.Holds fun p => pqcHeaderGetNodeId p = id

theorem adoptNodeId_of_valid {s : Session} (hv : s.nodeId ≠ sessionInvalidNodeId)
    (nodeId : UInt16) : s.adoptNodeId nodeId = s := by
  unfold Session.adoptNodeId
  rw [if_neg]
  rintro ⟨-, hinv⟩
  exact hv hinv

theorem Named.mapS_adopt (hn : Named id n) (hv : id ≠ sessionInvalidNodeId) (nodeId : UInt16) :
    n.fsm.mapS (Session.adoptNodeId nodeId) = n.fsm := by
  have hs : n.session.adoptNodeId nodeId = n.session :=
    adoptNodeId_of_valid (by rw [hn.session]; exact hv) nodeId
  simp only [Fsm.mapS, fsm_s, hs]
  rfl

theorem Named.names (hn : Named id n) (hv : id ≠ sessionInvalidNodeId) (hname : Names h n.session) :
    h.nodeId = id := by
  rcases hname with hname | ⟨-, hinv⟩
  · exact hname.symm.trans hn.session
  · exact absurd (hn.session.symm.trans hinv) hv

theorem named_boot (nodeId : UInt16) : Named nodeId (boot nodeId) :=
  ⟨rfl, rfl, holds_init⟩

theorem named_act (hv : id ≠ sessionInvalidNodeId) (hn : Named id n)
    (ha : Act P rnd data n n') : Named id n' := by
  cases ha with
  | touch hal =>
    obtain ⟨k, hk⟩ := hal.session
    refine ⟨hal.nodeId.trans hn.nodeId, (congrArg SessionCore.nodeId hk).trans hn.session, ?_⟩
    refine hal.tx.holds hn.tx ?_
    rintro p (hp | hp) <;> exact hp.2.trans hn.session
  | request _ hs hadds =>
    refine ⟨hn.nodeId, (congrArg SessionCore.nodeId hs).trans hn.session, ?_⟩
    exact hadds.holds hn.tx fun p hp => hp.2.trans hn.nodeId
  | requested hadds =>
    exact ⟨hn.nodeId, hn.session, hadds.holds hn.tx fun p hp => hp.2.trans hn.nodeId⟩
  | collect _ => exact ⟨hn.nodeId, hn.session, hn.tx⟩
  | fragment _ _ _ hh =>
    rw [hn.mapS_adopt hv] at hh
    have hid := congrArg (fun x => x.2.1) hh.identity
    exact ⟨hn.nodeId, hid.trans hn.session,
      hh.sends.holds hn.tx fun p hp => hp.names.trans hn.session⟩
  | retry hr =>
    have hid := congrArg (fun x => x.2.1) hr.identity
    refine ⟨hn.nodeId, hid.trans hn.session, hr.sends.holds hn.tx ?_⟩
    rintro p (hp | hp)
    · exact hp.isKind.2.trans hn.session
    · exact hp.names.trans hn.session
  | reset => exact ⟨hn.nodeId, hn.nodeId, hn.tx⟩
  | reboot => exact ⟨hn.nodeId, hn.nodeId, holds_init⟩
  | transmit => exact ⟨hn.nodeId, hn.session, hn.tx.process.1⟩

/-- The ciphertext packets of the node, queued or yet to come, belong to the directory. -/
structure Utters (id : UInt16) (D : Directory) (n : Node) : Prop where
  tx : n.tx.Holds (CarriesCt id D)
  waitAck : n.session.state = .waitAck → D n.session.pendingMsgId n.hs.nodeCt

theorem utters_boot (nodeId : UInt16) : Utters id D (boot nodeId) :=
  ⟨holds_init, fun hw => by cases hw⟩

theorem Utters.mono {D' : Directory} (hu : Utters id D n)
    (hsub : ∀ msgId ct, D msgId ct → D' msgId ct) : Utters id D' n where
  tx := hu.tx.mono fun _ hp => hp.mono (ctSource_mono hsub)
  waitAck := fun hw => hsub _ _ (hu.waitAck hw)

/-- A move that keeps state, pending id and ciphertext. -/
theorem Utters.keep (hu : Utters id D n) {c : SessionCore} (hc : n'.session.core = c)
    (hstate : c.state = n.session.state) (hpend : c.pendingMsgId = n.session.pendingMsgId)
    (hct : n'.hs.nodeCt = n.hs.nodeCt) (hw : n'.session.state = .waitAck) :
    D n'.session.pendingMsgId n'.hs.nodeCt := by
  have hstate' : n'.session.state = n.session.state := (congrArg SessionCore.state hc).trans hstate
  have hpend' : n'.session.pendingMsgId = n.session.pendingMsgId :=
    (congrArg SessionCore.pendingMsgId hc).trans hpend
  rw [hpend', hct]
  exact hu.waitAck (hstate'.symm.trans hw)

/-- What a node has pending as a ciphertext is the one it waits for. -/
theorem carriesCt_of_pending (hs : Sound n) (hu : Utters id D n)
    (hp : IsPendingFragment n.fsm p) : CarriesCt id D p := by
  rcases hp with ⟨hr, -, -⟩ | ⟨-, htype, hp⟩
  · cases hs.role.symm.trans hr
  · have hne : n.session.core.pendingMsgType ≠ 0 := by
      have htype' : n.session.core.pendingMsgType = pqcMsgCt := htype
      rw [htype']
      decide
    have hwait : n.session.state = .waitAck := by
      rcases hs.coherent.of_pending hne with ⟨hr, -⟩ | ⟨-, -, ht⟩ | ⟨-, hst, -⟩
      · cases hs.role.symm.trans hr
      · cases htype.symm.trans ht
      · exact hst
    exact carries_of_fragment hp fun _ _ => ⟨_, hu.waitAck hwait, rfl⟩

theorem utters_handled (hs : Sound n) (hn : Named id n) (hu : Utters id D n)
    (hh : Handled P me rnd h payload n.fsm f)
    (henc : ∀ pk ct ss, f.obs = .encapsulate id pk true ct ss :: n.obs →
      D n.session.nextMsgId ct) : Utters id D (n.putFsm f) := by
  refine ⟨hh.sends.holds hu.tx ?_, ?_⟩
  · intro p hp
    cases hp with
    | nack hp => exact carries_of_kind hp.isKind (by decide)
    | pending hp => exact carriesCt_of_pending hs hu hp
    | ct _ hobs hp =>
      rw [fsm_s, hn.session] at hobs
      exact carries_of_fragment hp fun _ _ => ⟨_, henc _ _ _ hobs, rfl⟩
    | ack _ hp _ _ => exact hp ▸ carries_of_kind ackPacket_isKind (by decide)
  · intro hw
    cases hh with
    | incomplete hi =>
      cases hi with
      | quiet hc _ | stored hc _ _ _ _ _ =>
        obtain ⟨k, hk⟩ := hc
        exact hu.keep hk rfl rfl rfl hw
      | refused _ _ => exact hu.waitAck hw
      | resent hc _ _ => exact hu.keep hc rfl rfl rfl hw
    | confirmed hr _ _ _ _ _ | ct hr _ _ _ _ => cases hs.role.symm.trans hr
    | pk _ _ _ _ hc =>
      cases hc with
      | rejected _ hc | failed _ _ hc _ _ => cases (congrArg SessionCore.state hc).symm.trans hw
      | @sent s ct ss _ _ _ hc _ =>
        have hpend : s.pendingMsgId = n.session.nextMsgId := congrArg SessionCore.pendingMsgId hc
        rw [fsm_s, hn.session] at henc
        rw [putFsm_session, hpend]
        exact henc _ ct ss rfl
    | ack _ _ _ _ _ _ hc => cases (congrArg SessionCore.state hc).symm.trans hw

theorem utters_retried (hs : Sound n) (hu : Utters id D n) (hr : Retried n.fsm f) :
    Utters id D (n.putFsm f) := by
  refine ⟨hr.sends.holds hu.tx ?_, ?_⟩
  · rintro p (hp | hp | ⟨-, hp⟩)
    · exact carries_of_kind hp.isKind (by decide)
    · exact carriesCt_of_pending hs hu hp
    · exact carries_of_kind hp (by decide)
  · intro hw
    cases hr with
    | waited hc _ | asked _ hc _ _ _ _ => exact hu.keep hc rfl rfl rfl hw
    | failed _ hc _ _ _ => cases (congrArg SessionCore.state hc).symm.trans hw
    | resent _ hc _ _ => rcases hc with hc | hc <;> exact hu.keep hc rfl rfl rfl hw
    | stray _ _ _ => exact hu.waitAck hw

theorem utters_act (hv : id ≠ sessionInvalidNodeId) (hs : Sound n) (hn : Named id n)
    (hu : Utters id D n) (ha : Act P rnd data n n')
    (henc : ∀ pk ct ss, n'.obs = .encapsulate id pk true ct ss :: n.obs →
      D n.session.nextMsgId ct) : Utters id D n' := by
  cases ha with
  | touch hal =>
    obtain ⟨k, hk⟩ := hal.session
    refine ⟨hal.tx.holds hu.tx ?_, hu.keep hk rfl rfl (congrArg HsStatics.nodeCt hal.hs)⟩
    rintro p (hp | hp) <;> exact carries_of_kind hp (by decide)
  | request _ hc hadds =>
    refine ⟨hadds.holds hu.tx fun p hp => carries_of_kind hp (by decide), ?_⟩
    intro hw
    cases (congrArg SessionCore.state hc).symm.trans hw
  | requested hadds =>
    exact ⟨hadds.holds hu.tx fun p hp => carries_of_kind hp (by decide), hu.waitAck⟩
  | collect _ => exact ⟨hu.tx, hu.waitAck⟩
  | fragment _ _ _ hh =>
    rw [hn.mapS_adopt hv] at hh
    exact utters_handled hs hn hu hh henc
  | retry hr => exact utters_retried hs hu hr
  | reset => exact ⟨hu.tx, fun hw => by cases hw⟩
  | reboot => exact ⟨holds_init, fun hw => by cases hw⟩
  | transmit => exact ⟨hu.tx.process.1, hu.waitAck⟩

/-- Only a packet can make the node encapsulate. -/
theorem encapsulated_act (ha : Act P rnd none n n') : encapsulated n'.obs = encapsulated n.obs := by
  cases ha with
  | touch hal => rw [hal.obs]
  | fragment hd _ _ _ => cases hd
  | retry hr => cases hr <;> rfl
  | request _ _ _ | requested _ | collect _ | reset | reboot | transmit => rfl

theorem encapsulated_acts (ha : Acts P rnd none n n') :
    encapsulated n'.obs = encapsulated n.obs := by
  induction ha with
  | refl => rfl
  | tail _ hlast ih => exact (encapsulated_act hlast).trans ih

theorem not_encapsulates {obs obs' : List Observation} (h : encapsulated obs' = encapsulated obs)
    (pk : PublicKey) (ok : Bool) (ct : Ciphertext) (ss : SharedSecret) :
    obs' ≠ .encapsulate id pk ok ct ss :: obs := by
  rintro rfl
  exact List.cons_ne_self ct _ h

theorem utters_acts (hv : id ≠ sessionInvalidNodeId) (hs : Sound n) (hn : Named id n)
    (hu : Utters id D n) (ha : Acts P rnd none n n') : Utters id D n' := by
  have hall : Sound n' ∧ Named id n' ∧ Utters id D n' := by
    induction ha with
    | refl => exact ⟨hs, hn, hu⟩
    | tail _ hlast ih =>
      obtain ⟨hs', hn', hu'⟩ := ih
      exact ⟨sound_act hs' hlast, named_act hv hn' hlast,
        utters_act hv hs' hn' hu' hlast fun _ _ _ ho =>
          absurd ho (not_encapsulates (encapsulated_act hlast) _ _ _ _)⟩
  exact hall.2.2

theorem named_handle (hv : id ≠ sessionInvalidNodeId) (hn : Named id n) (P : Platform)
    (e : Event) : Named id (n.handle P e) := by
  obtain ⟨rnd, ha⟩ := handle_acts P n e
  generalize n.handle P e = n' at ha
  induction ha with
  | refl => exact hn
  | tail _ hlast ih => exact named_act hv ih hlast

/-- The node keeps to a directory that has what it encapsulates under its next message id. -/
theorem utters_handle (hv : id ≠ sessionInvalidNodeId) (hs : Sound n) (hn : Named id n)
    (hu : Utters id D n) (e : Event)
    (henc : ∀ pk ct ss, (n.handle P e).obs = .encapsulate id pk true ct ss :: n.obs →
      D n.session.nextMsgId ct) : Utters id D (n.handle P e) := by
  rcases handle_turn P n e with ⟨rnd, n₁, hact, halike⟩ | hdeaf
  · have hu₁ : Utters id D n₁ := utters_act hv hs hn hu hact (by rwa [halike.obs] at henc)
    exact utters_act hv (sound_act hs hact) (named_act hv hn hact) hu₁
      (.touch halike : Act P rnd none n₁ _)
      fun _ _ _ ho => absurd ho (not_encapsulates (by rw [halike.obs]) _ _ _ _)
  · exact utters_acts hv hs hn hu hdeaf

theorem obs_handled (hrole : f.s.role = .node) (hh : Handled P me rnd h payload f f') :
    f'.obs = f.obs ∨ ∃ pk ok ct ss, f'.obs = .encapsulate f.s.nodeId pk ok ct ss :: f.obs := by
  cases hh with
  | incomplete hi => cases hi <;> exact Or.inl rfl
  | confirmed hr _ _ _ _ _ | ct hr _ _ _ _ => cases hrole.symm.trans hr
  | pk _ _ _ _ hc =>
    cases hc with
    | rejected _ _ => exact Or.inl rfl
    | failed _ _ _ _ | sent _ _ _ _ => exact Or.inr ⟨_, _, _, _, rfl⟩
  | ack _ _ _ _ _ _ _ => exact Or.inl rfl

/-- In one event a node makes at most one ciphertext. -/
theorem encapsulated_handle (hv : id ≠ sessionInvalidNodeId) (hs : Sound n) (hn : Named id n)
    (P : Platform) (e : Event) :
    encapsulated (n.handle P e).obs = encapsulated n.obs ∨
      ∃ pk ok ct ss, (n.handle P e).obs = .encapsulate id pk ok ct ss :: n.obs := by
  rcases handle_turn P n e with ⟨rnd, n₁, hact, halike⟩ | hdeaf
  · rw [halike.obs]
    cases hact with
    | touch hal => exact Or.inl (by rw [hal.obs])
    | fragment _ _ _ hh =>
      rw [hn.mapS_adopt hv] at hh
      rcases obs_handled hs.role hh with ho | ⟨pk, ok, ct, ss, ho⟩
      · exact Or.inl (by rw [putFsm_obs, ho, fsm_obs])
      · exact Or.inr ⟨pk, ok, ct, ss, by rw [putFsm_obs, ho, fsm_s, hn.session, fsm_obs]⟩
    | retry hr => exact Or.inl (encapsulated_act (.retry hr : Act P rnd none n _))
    | request _ _ _ | requested _ | collect _ | reset | reboot | transmit => exact Or.inl rfl
  · exact Or.inl (encapsulated_acts hdeaf)

/-- What a node sends was in its queue. -/
theorem sent_holds {φ : Bytes → Prop} (hq : n.tx.Holds φ) (e : Event) : ∀ p ∈ n.sent e, φ p := by
  cases e with
  | transmit =>
    intro p hp
    simp only [sent, txTick, Option.mem_toList, Option.map_eq_some_iff] at hp
    obtain ⟨d, hd, rfl⟩ := hp
    exact hq.process.2 d hd
  | receive _ _ _ | routing _ _ | retry _ _ | temp _ | reset | reboot =>
    intro p hp
    cases hp

end Node

end PqcContiki
