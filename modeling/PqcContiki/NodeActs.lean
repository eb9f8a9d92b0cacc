import PqcContiki.Node
import PqcContiki.RetryOutcome

/-! The node device taken apart, as the root in `RootActs`. -/
namespace PqcContiki

open TxQueue Relation

/-- The packets of an established node. -/
def IsReport (nodeId : UInt16) (p : Bytes) : Prop :=
  IsKind pqcMsgTemp nodeId p ∨ IsKind pqcMsgMetrics nodeId p

namespace Node

variable {P : Platform} {clk : Clock} {rnd : Entropy} {data : Option Bytes} {n n' n'' : Node}

/-- Only counters, addresses and flags changed, and measurements or reports may have been queued. -/
structure Alike (n n' : Node) : Prop where
  session : Skips n.session n'.session
  hs : n'.hs = n.hs
  tx : Adds (IsReport n.session.nodeId) n.tx n'.tx
  nodeId : n'.nodeId = n.nodeId
  obs : n'.obs = n.obs

theorem Alike.refl (n : Node) : Alike n n := ⟨Skips.refl _, rfl, .refl, rfl, rfl⟩

theorem Alike.trans (h : Alike n n') (h' : Alike n' n'') : Alike n n'' := by
  obtain ⟨k, hk⟩ := h.session
  obtain ⟨k', hk'⟩ := h'.session
  have hid : n'.session.nodeId = n.session.nodeId := congrArg SessionCore.nodeId hk
  exact ⟨⟨k', by rw [hk', hk]; rfl⟩, h'.hs.trans h.hs, h.tx.trans (hid ▸ h'.tx),
    h'.nodeId.trans h.nodeId, h'.obs.trans h.obs⟩

theorem alike_metricsPending (pending : Bool) (n : Node) :
    Alike n { n with metricsPending := pending } :=
  ⟨Skips.refl _, rfl, .refl, rfl, rfl⟩

theorem pqcSendEncryptedTemp_cases (P : Platform) (conn : UdpConn) (dest : IpAddr)
    (measurement : TempPayload) (s : Session) (q : TxQueue) :
    Skips s (pqcSendEncryptedTemp P conn dest measurement s q).2.1 ∧
      Adds (IsReport s.nodeId) q (pqcSendEncryptedTemp P conn dest measurement s q).2.2 := by
  unfold pqcSendEncryptedTemp
  split
  · exact ⟨⟨s.nextMsgId, rfl⟩, .refl⟩
  · have hadds := queueSend_adds (φ := IsReport s.nodeId) ⟨some conn, some dest⟩
      (p := tempPacket P s measurement) (Or.inl ⟨rfl, pqcHeaderGetNodeId_write⟩) q
    dsimp only
    split <;> exact ⟨⟨s.nextMsgId + 1, rfl⟩, hadds⟩

theorem pqcSendMetricsReport_cases (now : ℕ) (conn : UdpConn) (dest : IpAddr) (group : ℕ)
    (s : Session) (q : TxQueue) :
    Skips s (pqcSendMetricsReport now conn dest group s q).2.1 ∧
      Adds (IsReport s.nodeId) q (pqcSendMetricsReport now conn dest group s q).2.2 := by
  unfold pqcSendMetricsReport
  split
  · exact ⟨⟨s.nextMsgId, rfl⟩, .refl⟩
  · dsimp only
    split
    · exact ⟨⟨s.nextMsgId, rfl⟩, .refl⟩
    · rename_i report _
      have hadds := queueSend_adds (φ := IsReport s.nodeId) ⟨some conn, some dest⟩
        (p := pqcHeaderWrite pqcMsgMetrics s.nodeId s.nextMsgId 0 1 pqcMetricsReportLen
          pqcFlagNone ++ pqcMetricsEncodeReport report) (Or.inr ⟨rfl, pqcHeaderGetNodeId_write⟩) q
      split <;> exact ⟨⟨s.nextMsgId + 1, rfl⟩, hadds⟩

theorem alike_sendGroups (clk : Clock) (groups : List ℕ) (n : Node) :
    Alike n (n.sendGroups clk groups) := by
  induction groups generalizing n with
  | nil => exact alike_metricsPending false n
  | cons group groups ih =>
    unfold sendGroups
    split
    · exact alike_metricsPending true n
    · obtain ⟨hskip, hadds⟩ := pqcSendMetricsReport_cases (clk (20 + group)) udpConn n.destAddress
        group n.session n.tx
      have hsent : Alike n { n with
          session := (pqcSendMetricsReport (clk (20 + group)) udpConn n.destAddress group n.session
            n.tx).2.1
          tx := (pqcSendMetricsReport (clk (20 + group)) udpConn n.destAddress group n.session
            n.tx).2.2 } := ⟨hskip, rfl, hadds, rfl, rfl⟩
      dsimp only
      split
      · exact hsent.trans (ih _)
      · exact hsent.trans (alike_metricsPending true _)

/-- What the node can do to its session, in a callback on packet `data` or in a tick. -/
inductive Act (P : Platform) (rnd : Entropy) (data : Option Bytes) : Node → Node → Prop
  | touch {n n' : Node} : Alike n n' → Act P rnd data n n'
  | request {n : Node} {s : Session} {tx : TxQueue} :
      n.session.state = .idle → s.core = n.session.core.await .waitPk pqcMsgGetpk 0 →
      Adds (IsKind pqcMsgGetpk n.nodeId) n.tx tx →
      Act P rnd data n { n with session := s, tx, getpkInFlight := true }
  /-- A request that could not be queued. -/
  | requested {n : Node} {tx : TxQueue} :
      Adds (IsKind pqcMsgGetpk n.nodeId) n.tx tx → Act P rnd data n { n with tx }
  | collect {n : Node} {slots : Slots} :
      Collected n.hs.rxSlots slots → Act P rnd data n { n with hs := n.hs.setSlots slots }
  | fragment {n : Node} {h : FragmentHeader} {d : Bytes} {f : Fsm} :
      data = some d → parseFragmentHeader d = some h → Names h n.session →
      Handled P .localSession rnd h (h.payload d)
        (n.fsm.mapS (Session.adoptNodeId h.nodeId)) f →
      Act P rnd data n (n.putFsm f)
  | retry {n : Node} {f : Fsm} : Retried n.fsm f → Act P rnd data n (n.putFsm f)
  | reset {n : Node} : Act P rnd data n n.resetSession
  | reboot {n : Node} : Act P rnd data n n.reboot
  | transmit {n : Node} : Act P rnd data n n.txTick.2

abbrev Acts (P : Platform) (rnd : Entropy) (data : Option Bytes) : Node → Node → Prop :=
  ReflTransGen (Act P rnd data)

theorem Alike.acts (h : Alike n n') : Acts P rnd data n n' := .single (.touch h)

theorem alike_learnRoot (routing : Routing) (n : Node) : Alike n (n.learnRoot routing).2 := by
  unfold learnRoot
  split
  · exact ⟨Skips.refl _, rfl, .refl, rfl, rfl⟩
  · exact Alike.refl n

/-- A call of the handshake code on a packet is one act. -/
theorem handleFragment_act (P : Platform) (clk : Clock) (rnd : Entropy) (d : Bytes) (n : Node) :
    Act P rnd (some d) n
      (n.putFsm (n.fsm.hsFsmHandleFragment P .localSession clk rnd n.sendCtx d).2) := by
  rcases hsFsmHandleFragment_cases P .localSession clk rnd n.sendCtx d n.fsm with
    ⟨slots, hcol, hres⟩ | ⟨h, hparse, hname, hhandled⟩
  · rw [hres]
    exact .collect hcol
  · exact .fragment rfl hparse hname hhandled

/-- A packet is dropped, or handled by one call after which only reports are sent. -/
theorem udpRxCallback_turn (P : Platform) (clk : Clock) (rnd : Entropy) (d : Bytes) (n : Node) :
    n.udpRxCallback P clk rnd d = n ∨
      Alike (n.putFsm (n.fsm.hsFsmHandleFragment P .localSession clk rnd n.sendCtx d).2)
        (n.udpRxCallback P clk rnd d) := by
  unfold udpRxCallback
  split
  · exact Or.inl rfl
  · right
    dsimp only
    generalize n.putFsm _ = n₁
    generalize hn₂ : ite (n₁.session.pendingMsgType ≠ pqcMsgGetpk) _ _ = n₂
    have hclear : Alike n₁ n₂ := by
      rw [← hn₂]
      split
      · exact ⟨Skips.refl _, rfl, .refl, rfl, rfl⟩
      · exact Alike.refl _
    split
    · exact hclear.trans ((alike_metricsPending true n₂).trans (alike_sendGroups clk _ _))
    · split
      · exact hclear.trans (alike_sendGroups ..)
      · exact hclear

theorem udpRxCallback_acts (P : Platform) (clk : Clock) (rnd : Entropy) (d : Bytes) (n : Node) :
    Acts P rnd (some d) n (n.udpRxCallback P clk rnd d) := by
  rcases udpRxCallback_turn P clk rnd d n with hsame | halike
  · rw [hsame]
  · exact (ReflTransGen.single (handleFragment_act P clk rnd d n)).trans halike.acts

theorem routingTick_acts (P : Platform) (clk : Clock) (routing : Routing) (n : Node) :
    Acts P rnd none n (n.routingTick P clk routing) := by
  have hroot := alike_learnRoot routing n
  unfold routingTick
  generalize n.learnRoot routing = res at hroot ⊢
  obtain ⟨reached, n₁⟩ := res
  apply (Alike.acts hroot).trans
  dsimp only
  split
  · rename_i hreq
    have hidle : n₁.session.state = .idle := by
      have h := hreq.2.2
      simp only [shouldRequestPk, Bool.and_eq_true, beq_iff_eq] at h
      exact h.1.1.1
    have hid : pqcHeaderGetNodeId (pqcHeaderWrite pqcMsgGetpk n₁.nodeId 0 0 1 0 pqcFlagNone ++ []) =
        n₁.nodeId := pqcHeaderGetNodeId_write
    have hkind : IsKind pqcMsgGetpk n₁.nodeId
        (pqcHeaderWrite pqcMsgGetpk n₁.nodeId 0 0 1 0 pqcFlagNone) := ⟨rfl, hid⟩
    have hadds : Adds (IsKind pqcMsgGetpk n₁.nodeId) n₁.tx
        (pqcSendGetpk udpConn n₁.destAddress n₁.nodeId n₁.tx).2 := queueSend_adds _ hkind _
    split
    · exact .single (.request hidle (by simp) hadds)
    · exact .single (.requested hadds)
  · exact .refl

theorem retryTick_acts (P : Platform) (clk : Clock) (routing : Routing) (n : Node) :
    Acts P rnd none n (n.retryTick P clk routing) := by
  unfold retryTick
  split
  · exact .refl
  · have hroot := alike_learnRoot routing n
    generalize n.learnRoot routing = res at hroot ⊢
    obtain ⟨reached, n₁⟩ := res
    apply (Alike.acts hroot).trans
    dsimp only
    split
    · exact .refl
    · have hact : Acts P rnd none n₁
          (n₁.putFsm (n₁.fsm.hsFsmRetry P .localSession clk n₁.sendCtx).2) :=
        .single (.retry (hsFsmRetry_cases ..))
      generalize n₁.putFsm _ = n₂ at hact ⊢
      split
      · exact hact.tail .reset
      · exact hact

theorem tempTick_acts (P : Platform) (measurement : TempPayload) (n : Node) :
    Acts P rnd none n (n.tempTick P measurement) := by
  unfold tempTick
  split
  · obtain ⟨hskip, hadds⟩ := pqcSendEncryptedTemp_cases P udpConn n.destAddress measurement
      n.session n.tx
    exact Alike.acts ⟨hskip, rfl, hadds, rfl, rfl⟩
  · exact .refl

/-- What can happen to a node. A reset or a reboot may come at any moment. -/
inductive Event where
  | receive (clk : Clock) (rnd : Entropy) (data : Bytes)
  | routing (clk : Clock) (routing : Routing)
  | retry (clk : Clock) (routing : Routing)
  | temp (measurement : TempPayload)
  | transmit
  | reset
  | reboot

def handle (P : Platform) (n : Node) : Event → Node
  | .receive clk rnd data => n.udpRxCallback P clk rnd data
  | .routing clk routing => n.routingTick P clk routing
  | .retry clk routing => n.retryTick P clk routing
  | .temp measurement => n.tempTick P measurement
  | .transmit => n.txTick.2
  | .reset => n.resetSession
  | .reboot => n.reboot

def Event.heard : Event → Option Bytes
  | .receive _ _ data => some data
  | .routing .. | .retry .. | .temp _ | .transmit | .reset | .reboot => none

def sent (n : Node) : Event → List Bytes
  | .transmit => (n.txTick.1.map Datagram.data).toList
  | .receive .. | .routing .. | .retry .. | .temp _ | .reset | .reboot => []

theorem handle_acts (P : Platform) (n : Node) (e : Event) :
    ∃ rnd, Acts P rnd e.heard n (n.handle P e) := by
  cases e with
  | receive clk rnd data => exact ⟨rnd, udpRxCallback_acts P clk rnd data n⟩
  | routing clk routing => exact ⟨0, routingTick_acts P clk routing n⟩
  | retry clk routing => exact ⟨0, retryTick_acts P clk routing n⟩
  | temp measurement => exact ⟨0, tempTick_acts P measurement n⟩
  | transmit => exact ⟨0, .single .transmit⟩
  | reset => exact ⟨0, .single .reset⟩
  | reboot => exact ⟨0, .single .reboot⟩

/-- An event is one act on the packet heard, after which only reports are sent, or it is deaf. -/
theorem handle_turn (P : Platform) (n : Node) (e : Event) :
    (∃ rnd n₁, Act P rnd e.heard n n₁ ∧ Alike n₁ (n.handle P e)) ∨
      Acts P 0 none n (n.handle P e) := by
  cases e with
  | receive clk rnd d =>
    rcases udpRxCallback_turn P clk rnd d n with hsame | halike
    · exact Or.inr (by rw [handle, hsame])
    · exact Or.inl ⟨rnd, _, handleFragment_act P clk rnd d n, halike⟩
  | routing clk routing => exact Or.inr (routingTick_acts P clk routing n)
  | retry clk routing => exact Or.inr (retryTick_acts P clk routing n)
  | temp measurement => exact Or.inr (tempTick_acts P measurement n)
  | transmit => exact Or.inr (.single .transmit)
  | reset => exact Or.inr (.single .reset)
  | reboot => exact Or.inr (.single .reboot)

end Node

end PqcContiki
