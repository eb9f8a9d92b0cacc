import PqcContiki.RootStateMachine

/-!
The session state machine of both programs: state, pending message, established flag and retry
budget fit together after every event, whatever is received and whenever the timers fire.
-/
namespace PqcContiki

open TxQueue Relation Runs

variable {P : Platform} {me : SessionRef} {rnd : Entropy} {data : Option Bytes}
  {h : FragmentHeader} {payload : Bytes} {f f' : Fsm} {s s' : Session}

namespace Node

variable {n n' : Node}

structure Sound (n : Node) : Prop where
  role : n.session.role = .node
  coherent : n.session.core.Coherent
  log : NoStray n.obs

theorem Sound.of_skips (h : Sound n) (hs : Skips n.session n'.session) (ho : n'.obs = n.obs) :
    Sound n' := by
  obtain ⟨k, hk⟩ := hs
  exact ⟨(congrArg SessionCore.role hk).trans h.role, hk ▸ h.coherent.skipTo k, ho ▸ h.log⟩

theorem adoptNodeId_core (nodeId : UInt16) (s : Session) :
    (s.adoptNodeId nodeId).core = s.core ∨ (s.adoptNodeId nodeId).core = s.core.named nodeId := by
  unfold Session.adoptNodeId
  split
  · exact Or.inr rfl
  · exact Or.inl rfl

theorem sound_act (h : Sound n) (ha : Act P rnd data n n') : Sound n' := by
  cases ha with
  | touch hal => exact h.of_skips hal.session hal.obs
  | request hidle hs _ =>
    refine ⟨(congrArg SessionCore.role hs).trans h.role, ?_, h.log⟩
    simp only [hs]
    exact SessionCore.coherent_await (Or.inr (Or.inl ⟨h.role, rfl, rfl⟩))
      (h.coherent.not_established (by simp [hidle])) h.coherent.budget _
  | requested _ | collect _ | transmit => exact ⟨h.role, h.coherent, h.log⟩
  | @fragment hdr d f _ _ _ hh =>
    have hadopt : ((n.session.adoptNodeId hdr.nodeId).core).Coherent ∧
        (n.session.adoptNodeId hdr.nodeId).role = .node := by
      rcases adoptNodeId_core hdr.nodeId n.session with hc | hc
      · exact ⟨hc ▸ h.coherent, (congrArg SessionCore.role hc).trans h.role⟩
      · exact ⟨hc ▸ h.coherent.named _, (congrArg SessionCore.role hc).trans h.role⟩
    have hrole : f.s.role = (n.session.adoptNodeId hdr.nodeId).role :=
      congrArg (fun x => x.2.2) hh.identity
    exact ⟨hrole.trans hadopt.2, hh.coherent hadopt.1, hh.noStray h.log⟩
  | retry hr =>
    obtain ⟨hc, hobs⟩ := hr.coherent h.coherent
    have hrole := congrArg (fun x => x.2.2) hr.identity
    exact ⟨hrole.trans h.role, hc, by simpa [hobs] using h.log⟩
  | reset =>
    refine ⟨?_, ?_, h.log⟩
    · simp [resetSession, h.role]
    · simp only [resetSession, Session.core_setNodeId, Session.core_sessionReset]
      exact (SessionCore.coherent_fresh _ _).named _
  | reboot =>
    refine ⟨rfl, ?_, h.log⟩
    simp only [reboot, boot, Session.core_setNodeId, Session.core_sessionInit]
    exact (SessionCore.coherent_fresh _ _).named _

theorem sound_acts (h : Sound n) (ha : Acts P rnd data n n') : Sound n' := by
  induction ha with
  | refl => exact h
  | tail _ hlast ih => exact sound_act ih hlast

theorem sound_boot (nodeId : UInt16) : Sound (boot nodeId) := by
  refine ⟨rfl, ?_, by simp [NoStray]⟩
  simp only [boot, Session.core_setNodeId, Session.core_sessionInit]
  exact (SessionCore.coherent_fresh _ _).named _

/-- The flag `getpk_in_flight` is up only while a GETPK is pending. -/
def Flagged (n : Node) : Prop := n.getpkInFlight = true → n.session.pendingMsgType = pqcMsgGetpk

theorem sendGroups_getpkInFlight (clk : Clock) (groups : List ℕ) (n : Node) :
    (n.sendGroups clk groups).getpkInFlight = n.getpkInFlight := by
  induction groups generalizing n with
  | nil => rfl
  | cons group groups ih =>
    unfold sendGroups
    split
    · rfl
    · dsimp only
      split
      · rw [ih]
      · rfl

theorem Flagged.of_alike (h : Flagged n) (ha : Alike n n')
    (hg : n'.getpkInFlight = n.getpkInFlight) : Flagged n' := by
  obtain ⟨k, hk⟩ := ha.session
  intro hf
  exact (congrArg SessionCore.pendingMsgType hk).trans (h (hg ▸ hf))

theorem flagged_udpRxCallback (h : Flagged n) (clk : Clock) (rnd : Entropy) (d : Bytes) :
    Flagged (n.udpRxCallback P clk rnd d) := by
  unfold udpRxCallback
  split
  · exact h
  · dsimp only
    generalize n.putFsm _ = n₁
    generalize hn₂ : ite (n₁.session.pendingMsgType ≠ pqcMsgGetpk) _ _ = n₂
    have hflag : Flagged n₂ := by
      rw [← hn₂]
      split
      · intro hf
        simp [clearGetpkWait] at hf
      · rename_i hp
        exact fun _ => not_not.mp hp
    have hsend : ∀ n, Flagged n → Flagged (n.sendNodeMetrics clk) := fun n hn =>
      hn.of_alike (alike_sendGroups ..) (sendGroups_getpkInFlight ..)
    split
    · exact hsend _ hflag
    · split
      · exact hsend _ hflag
      · exact hflag

theorem flagged_learnRoot (h : Flagged n) (routing : Routing) :
    Flagged (n.learnRoot routing).2 := by
  unfold learnRoot
  split <;> exact h

theorem flagged_retryTick (h : Flagged n) (clk : Clock) (routing : Routing) :
    Flagged (n.retryTick P clk routing) := by
  unfold retryTick
  split
  · exact h
  · have hflag := flagged_learnRoot h routing
    generalize n.learnRoot routing = res at hflag ⊢
    obtain ⟨reached, n₁⟩ := res
    dsimp only
    split
    · exact hflag
    · have hretry := hsFsmRetry_cases P .localSession clk n₁.sendCtx n₁.fsm
      generalize (n₁.fsm.hsFsmRetry P .localSession clk n₁.sendCtx).2 = f at hretry ⊢
      split
      · intro hf
        simp [resetSession] at hf
      · rename_i hok
        intro hf
        have hpending := hflag hf
        simp only [Session.sessionIsFailed, putFsm_session, beq_iff_eq] at hok
        cases hretry with
        | waited hs _ => exact (congrArg SessionCore.pendingMsgType hs).trans hpending
        | failed _ hs _ _ _ => exact absurd (congrArg SessionCore.state hs) hok
        | asked _ hs _ _ _ _ => exact (congrArg SessionCore.pendingMsgType hs).trans hpending
        | resent _ hs _ _ =>
          rcases hs with hs | hs <;>
            exact (congrArg SessionCore.pendingMsgType hs).trans hpending
        | stray _ _ _ => exact hpending

theorem flagged_handle (h : Flagged n) (e : Event) : Flagged (n.handle P e) := by
  cases e with
  | receive clk rnd d => exact flagged_udpRxCallback h clk rnd d
  | routing clk routing =>
    have hflag := flagged_learnRoot h routing
    simp only [handle, routingTick]
    generalize n.learnRoot routing = res at hflag ⊢
    obtain ⟨reached, n₁⟩ := res
    dsimp only
    split
    · split
      · exact fun _ => rfl
      · exact hflag
    · exact hflag
  | retry clk routing => exact flagged_retryTick h clk routing
  | temp measurement =>
    simp only [handle, tempTick]
    split
    · obtain ⟨hskip, hadds⟩ := pqcSendEncryptedTemp_cases P udpConn n.destAddress measurement
        n.session n.tx
      exact h.of_alike ⟨hskip, rfl, hadds, rfl, rfl⟩ rfl
    · exact h
  | transmit => exact h
  | reset | reboot =>
    intro hf
    simp [handle, resetSession, reboot] at hf

/-- `node_main` on arbitrary packets, clock readings and randomness. -/
abbrev Reaches (P : Platform) : List Node → Node → Prop :=
  Run (fun n => ∃ nodeId, n = boot nodeId) (fun n e n' => n' = n.handle P e)

theorem Reaches.sound {past : List Node} (h : Reaches P past n) : Sound n ∧ Flagged n := by
  apply h.invariant (I := fun _ n => Sound n ∧ Flagged n)
  · rintro n ⟨nodeId, rfl⟩
    refine ⟨sound_boot nodeId, ?_⟩
    intro hf
    simp at hf
  · rintro past n e n' - ⟨hs, hf⟩ rfl
    obtain ⟨rnd, ha⟩ := handle_acts P n e
    exact ⟨sound_acts hs ha, flagged_handle hf e⟩

theorem reaches_follow (es : List Event) : ∃ past, Reaches .demo past (follow es) :=
  Run.foldl (.start ⟨1, rfl⟩) es fun _ _ _ => rfl

end Node

/-- How the fields of a session have to fit together. -/
structure FieldsFit (s : Session) : Prop where
  established : s.established = true ↔ s.state = .established
  waiting : s.waitingResponse = true ↔ s.state = .waitCt ∨ s.state = .waitPk ∨ s.state = .waitAck
  waitCt : s.state = .waitCt → s.pendingMsgType = pqcMsgPk ∨ s.pendingMsgType = pqcMsgCt
  waitPk : s.state = .waitPk → s.pendingMsgType = pqcMsgGetpk
  waitAck : s.state = .waitAck → s.pendingMsgType = pqcMsgCt
  rest : s.state = .idle ∨ s.state = .established ∨ s.state = .failed →
    s.pendingMsgType = 0 ∧ s.pendingMsgId = 0 ∧ s.retryCount = 0
  budget : s.retryCount ≤ sessionMaxRetries

theorem SessionCore.Coherent.fieldsFit (hc : s.core.Coherent) : FieldsFit s := by
  rcases hc.pending with ⟨hrest, hw, ht, hi, hr⟩ | ⟨haw, hw⟩
  · simp only [SessionCore.AtRest, Session.core_state] at hrest
    simp only [Session.core_waitingResponse] at hw
    refine ⟨hc.established, ?_, ?_, ?_, ?_, fun _ => ⟨ht, hi, hr⟩, hc.budget⟩ <;>
      rcases hrest with hs | hs | hs <;> simp [hs, hw]
  · simp only [SessionCore.Awaits, Session.core_role, Session.core_state,
      Session.core_pendingMsgType] at haw
    simp only [Session.core_waitingResponse] at hw
    refine ⟨hc.established, ?_, ?_, ?_, ?_, ?_, hc.budget⟩ <;>
      rcases haw with ⟨-, hs, hp⟩ | ⟨-, hs, hp⟩ | ⟨-, hs, hp⟩ <;> simp [hs, hw, hp]

/-- A session of the root is never in a state of the node. -/
theorem SessionCore.Coherent.root_state (hc : s.core.Coherent) (hr : s.role = .root) :
    s.state = .idle ∨ s.state = .waitCt ∨ s.state = .established ∨ s.state = .failed := by
  rcases hc.pending with ⟨hrest, -⟩ | ⟨haw, -⟩
  · simp only [SessionCore.AtRest, Session.core_state] at hrest
    tauto
  · simp only [SessionCore.Awaits, Session.core_role, Session.core_state, hr] at haw
    simp_all

theorem SessionCore.Coherent.node_state (hc : s.core.Coherent) (hr : s.role = .node) :
    s.state = .idle ∨ s.state = .waitPk ∨ s.state = .waitAck ∨ s.state = .established ∨
      s.state = .failed := by
  rcases hc.pending with ⟨hrest, -⟩ | ⟨haw, -⟩
  · simp only [SessionCore.AtRest, Session.core_state] at hrest
    tauto
  · simp only [SessionCore.Awaits, Session.core_role, Session.core_state, hr] at haw
    simp only [reduceCtorEq, false_and, true_and, false_or] at haw
    tauto

/-- An idle node has no GETPK in flight and asks for the key at its next routing tick. -/
theorem Node.Sound.shouldRequestPk {n : Node} (h : n.Sound) (hf : n.Flagged)
    (hidle : n.session.state = .idle) : n.getpkInFlight = false ∧ n.shouldRequestPk = true := by
  have hp := (h.coherent.fieldsFit.rest (Or.inl hidle)).1
  have hflag : n.getpkInFlight = false := by
    rw [← Bool.not_eq_true]
    intro hon
    exact absurd (hp.symm.trans (hf hon)) (by decide)
  exact ⟨hflag, by simp [Node.shouldRequestPk, hidle, hp, hflag, Session.sessionIsEstablished]⟩

/-- The session state machine of both programs. -/
theorem session_state_machine (P : Platform) :
    (∀ past r, Root.Reaches P past r →
      (∀ i, (r.sessions i).used = true → FieldsFit (r.sessions i) ∧
        ((r.sessions i).state = .idle ∨ (r.sessions i).state = .waitCt ∨
          (r.sessions i).state = .established ∨ (r.sessions i).state = .failed)) ∧
      ∀ nodeId, .retryWithoutPending nodeId ∉ r.obs) ∧
    (∀ past n, Node.Reaches P past n →
      FieldsFit n.session ∧
      (n.session.state = .idle ∨ n.session.state = .waitPk ∨ n.session.state = .waitAck ∨
        n.session.state = .established ∨ n.session.state = .failed) ∧
      (n.session.state = .idle → n.getpkInFlight = false ∧ n.shouldRequestPk = true) ∧
      ∀ nodeId, .retryWithoutPending nodeId ∉ n.obs) := by
  constructor
  · intro past r hr
    have hs := hr.sound
    refine ⟨?_, hs.log⟩
    intro i hi
    obtain ⟨hrole, hc⟩ := hs.sessions i hi
    exact ⟨hc.fieldsFit, hc.root_state hrole⟩
  · intro past n hn
    obtain ⟨hs, hf⟩ := hn.sound
    exact ⟨hs.coherent.fieldsFit, hs.coherent.node_state hs.role, hs.shouldRequestPk hf, hs.log⟩

/-- Node 7 completes its handshake with the root, and node 8 fails. -/
def mixedOutcomes : Root :=
  Root.follow (Root.handshakeOf 7 9 ++ [getpkFrom 8, Root.emptyCtFrom 8])

def awaiting : List Node.Event := Node.asks :: Node.keyArrives

theorem states_reached :
    ((mixedOutcomes.sessions 0).used = true ∧ (mixedOutcomes.sessions 0).state = .established ∧
      (mixedOutcomes.sessions 1).used = true ∧ (mixedOutcomes.sessions 1).state = .failed) ∧
    (Node.follow awaiting).session.state = .waitAck ∧
      (Node.follow (awaiting ++ [Node.ackArrives])).session.state = .established ∧
      (Node.follow [Node.asks, Node.emptyKey]).session.state = .failed := by
  decide +kernel

/-- A root with a session that is established and one that failed, and a node that waits for the
acknowledgement, one that heard it and one that heard a key without content. -/
theorem session_state_machine_outcomes :
    ((mixedOutcomes.sessions 0).state = .established ∧ FieldsFit (mixedOutcomes.sessions 0)) ∧
    ((mixedOutcomes.sessions 1).state = .failed ∧ FieldsFit (mixedOutcomes.sessions 1)) ∧
    ((Node.follow awaiting).session.state = .waitAck ∧
      FieldsFit (Node.follow awaiting).session) ∧
    ((Node.follow (awaiting ++ [Node.ackArrives])).session.state = .established ∧
      FieldsFit (Node.follow (awaiting ++ [Node.ackArrives])).session) ∧
    (Node.follow [Node.asks, Node.emptyKey]).session.state = .failed ∧
      FieldsFit (Node.follow [Node.asks, Node.emptyKey]).session := by
  obtain ⟨⟨hused, hest, hused', hfailed⟩, hwaits, hhears, hfails⟩ := states_reached
  obtain ⟨hroot, hnode⟩ := session_state_machine Platform.demo
  obtain ⟨past, hr⟩ : ∃ past, Root.Reaches .demo past mixedOutcomes := Root.reaches_follow _
  have hsessions := (hroot past _ hr).1
  have hfit : ∀ es, FieldsFit (Node.follow es).session := by
    intro es
    obtain ⟨past, hn⟩ := Node.reaches_follow es
    exact (hnode past _ hn).1
  exact ⟨⟨hest, (hsessions 0 hused).1⟩, ⟨hfailed, (hsessions 1 hused').1⟩, ⟨hwaits, hfit _⟩,
    ⟨hhears, hfit _⟩, hfails, hfit _⟩

end PqcContiki
