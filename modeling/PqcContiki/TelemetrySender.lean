import PqcContiki.TxCounters

/-!
A node's measurements among the rest of what it does: nothing else uses their counter or queues
TEMP packets.
-/
namespace PqcContiki

open TxQueue Relation

variable {P : Platform} {me : SessionRef} {clk : Clock} {rnd : Entropy} {dst : UdpSendCtx}
  {h : FragmentHeader} {payload : Bytes} {ctx : FragmentRxCtx} {f f' : Fsm} {id : UInt16}
  {φ : Bytes → Prop} {p : Bytes} {data : Option Bytes}

namespace Node

variable {n : Node} {routing : Routing} {e : Node.Event} {measurement t : TempPayload}

attribute [simp] learnRoot_session

@[simp] theorem learnRoot_tx (routing : Routing) (n : Node) :
    (n.learnRoot routing).2.tx = n.tx := by
  unfold learnRoot
  split <;> rfl

theorem pqcSendMetricsReport_txCounter (now : ℕ) (conn : UdpConn) (dest : IpAddr) (group : ℕ)
    (s : Session) (q : TxQueue) :
    (pqcSendMetricsReport now conn dest group s q).2.1.txCounter = s.txCounter := by
  unfold pqcSendMetricsReport
  split
  · rfl
  · dsimp only
    split
    · rfl
    · split <;> rfl

theorem pqcSendMetricsReport_adds (now : ℕ) (conn : UdpConn) (dest : IpAddr) (group : ℕ)
    (s : Session) (q : TxQueue) :
    Adds NotTemp q (pqcSendMetricsReport now conn dest group s q).2.2 := by
  unfold pqcSendMetricsReport
  split
  · exact .refl
  · dsimp only
    split
    · exact .refl
    · rename_i report _
      have hkind : IsKind pqcMsgMetrics s.nodeId
          (pqcHeaderWrite pqcMsgMetrics s.nodeId s.nextMsgId 0 1 pqcMetricsReportLen pqcFlagNone ++
            pqcMetricsEncodeReport report) := ⟨rfl, pqcHeaderGetNodeId_write⟩
      have hadds := queueSend_adds (φ := NotTemp) ⟨some conn, some dest⟩
        (hkind.notTemp (by decide)) q
      split <;> exact hadds

theorem sendGroups_unmeasured (clk : Clock) (groups : List ℕ) (n : Node) :
    (n.sendGroups clk groups).session.txCounter = n.session.txCounter ∧
      Adds NotTemp n.tx (n.sendGroups clk groups).tx := by
  induction groups generalizing n with
  | nil => exact ⟨rfl, .refl⟩
  | cons group groups ih =>
    unfold sendGroups
    split
    · exact ⟨rfl, .refl⟩
    · have hcounter := pqcSendMetricsReport_txCounter (clk (20 + group)) udpConn n.destAddress group
        n.session n.tx
      have hadds := pqcSendMetricsReport_adds (clk (20 + group)) udpConn n.destAddress group
        n.session n.tx
      dsimp only
      split
      · obtain ⟨hcounter', hadds'⟩ := ih { n with
          session := (pqcSendMetricsReport (clk (20 + group)) udpConn n.destAddress group n.session
            n.tx).2.1
          tx := (pqcSendMetricsReport (clk (20 + group)) udpConn n.destAddress group n.session
            n.tx).2.2 }
        exact ⟨hcounter'.trans hcounter, hadds.trans hadds'⟩
      · exact ⟨hcounter, hadds⟩

theorem handleFragment_unmeasured (P : Platform) (clk : Clock) (rnd : Entropy) (d : Bytes)
    (f : Fsm) :
    (f.hsFsmHandleFragment P .localSession clk rnd dst d).2.s.txCounter = f.s.txCounter ∧
      Adds NotTemp f.tx (f.hsFsmHandleFragment P .localSession clk rnd dst d).2.tx := by
  refine ⟨Fsm.hsFsmHandleFragment_txCounter .., ?_⟩
  rcases hsFsmHandleFragment_cases P .localSession clk rnd dst d f with
    ⟨slots, -, hres⟩ | ⟨h, -, -, hhandled⟩
  · rw [hres]
    exact .refl
  · exact hhandled.sends.mono fun _ hp => hp.notTemp

theorem udpRxCallback_unmeasured (P : Platform) (clk : Clock) (rnd : Entropy) (d : Bytes)
    (n : Node) :
    (n.udpRxCallback P clk rnd d).session.txCounter = n.session.txCounter ∧
      Adds NotTemp n.tx (n.udpRxCallback P clk rnd d).tx := by
  unfold udpRxCallback
  split
  · exact ⟨rfl, .refl⟩
  · dsimp only
    obtain ⟨hcounter, hadds⟩ := @handleFragment_unmeasured n.sendCtx P clk rnd d n.fsm
    generalize hn₁ : n.putFsm _ = n₁
    generalize hn₂ : ite (n₁.session.pendingMsgType ≠ pqcMsgGetpk) _ _ = n₂
    have hn : n₂.session.txCounter = n.session.txCounter ∧ Adds NotTemp n.tx n₂.tx := by
      rw [← hn₂, ← hn₁]
      split <;> exact ⟨hcounter, hadds⟩
    have hgroups {n' : Node} (hs : n'.session = n₂.session) (htx : n'.tx = n₂.tx) :
        (n'.sendNodeMetrics clk).session.txCounter = n.session.txCounter ∧
          Adds NotTemp n.tx (n'.sendNodeMetrics clk).tx := by
      obtain ⟨hcounter', hadds'⟩ := sendGroups_unmeasured clk [1, 2, 3, 4, 5, 6, 7] n'
      rw [hs] at hcounter'
      rw [htx] at hadds'
      exact ⟨hcounter'.trans hn.1, hn.2.trans hadds'⟩
    split
    · exact hgroups rfl rfl
    · split
      · exact hgroups rfl rfl
      · exact hn

theorem routingTick_unmeasured (P : Platform) (clk : Clock) (routing : Routing) (n : Node) :
    (n.routingTick P clk routing).session.txCounter = n.session.txCounter ∧
      Adds NotTemp n.tx (n.routingTick P clk routing).tx := by
  have hsession := learnRoot_session routing n
  have htx := learnRoot_tx routing n
  unfold routingTick
  generalize n.learnRoot routing = res at hsession htx ⊢
  obtain ⟨reached, n₁⟩ := res
  dsimp only at hsession htx ⊢
  rw [← hsession, ← htx]
  have hkind : IsKind pqcMsgGetpk n₁.nodeId
      (pqcHeaderWrite pqcMsgGetpk n₁.nodeId 0 0 1 0 pqcFlagNone) :=
    ⟨rfl, nodeId_bytes n₁.nodeId⟩
  have hadds : Adds NotTemp n₁.tx (pqcSendGetpk udpConn n₁.destAddress n₁.nodeId n₁.tx).2 :=
    queueSend_adds _ (hkind.notTemp (by decide)) _
  split
  · split
    · exact ⟨rfl, hadds⟩
    · exact ⟨rfl, hadds⟩
  · exact ⟨rfl, .refl⟩

theorem retryTick_unmeasured (P : Platform) (clk : Clock) (routing : Routing) (n : Node) :
    ((n.retryTick P clk routing).session.txCounter = n.session.txCounter ∨
      (n.retryTick P clk routing).session.state = .idle ∧
        (n.retryTick P clk routing).session.txCounter = 0) ∧
      Adds NotTemp n.tx (n.retryTick P clk routing).tx := by
  unfold retryTick
  split
  · exact ⟨Or.inl rfl, .refl⟩
  · have hsession := learnRoot_session routing n
    have htx := learnRoot_tx routing n
    generalize n.learnRoot routing = res at hsession htx ⊢
    obtain ⟨reached, n₁⟩ := res
    dsimp only at hsession htx ⊢
    rw [← hsession, ← htx]
    split
    · exact ⟨Or.inl rfl, .refl⟩
    · have hcounter := Fsm.hsFsmRetry_txCounter P .localSession clk n₁.sendCtx n₁.fsm
      have hadds : Adds NotTemp n₁.tx (n₁.fsm.hsFsmRetry P .localSession clk n₁.sendCtx).2.tx := by
        refine (hsFsmRetry_cases P .localSession clk n₁.sendCtx n₁.fsm).sends.mono ?_
        rintro p (hp | hp)
        · exact hp.isKind.notTemp (by decide)
        · exact hp.notTemp
      split
      · exact ⟨Or.inr ⟨rfl, rfl⟩, hadds⟩
      · exact ⟨Or.inl hcounter, hadds⟩

/-- The measurement that the node queues at an event, with the counter it gives it. -/
def measures (P : Platform) (n : Node) : Event → Option TempPayload
  | .temp measurement =>
    if n.session.sessionIsEstablished = true ∧
        (pqcSendEncryptedTemp P udpConn n.destAddress measurement n.session n.tx).1 = true then
      some { measurement with counter := n.session.txCounter }
    else none
  | .receive .. | .routing .. | .retry .. | .transmit | .reset | .reboot => none

theorem pqcSendEncryptedTemp_queued {s : Session} {q : TxQueue} {conn : UdpConn} {dest : IpAddr}
    (h : (pqcSendEncryptedTemp P conn dest measurement s q).1 = true) :
    (pqcSendEncryptedTemp P conn dest measurement s q).2.1.txCounter = s.txCounter + 1 ∧
      Adds (· = tempPacket P s measurement) q
        (pqcSendEncryptedTemp P conn dest measurement s q).2.2 := by
  unfold pqcSendEncryptedTemp at h ⊢
  split at h
  · cases h
  · rename_i hroom
    rw [if_neg hroom]
    have hadds := queueSend_adds (φ := (· = tempPacket P s measurement)) ⟨some conn, some dest⟩
      rfl q
    dsimp only at h ⊢
    split at h
    · rename_i hsent
      rw [if_pos hsent]
      exact ⟨rfl, hadds⟩
    · cases h

theorem pqcSendEncryptedTemp_refused {s : Session} {q : TxQueue} {conn : UdpConn} {dest : IpAddr}
    (h : ¬ (pqcSendEncryptedTemp P conn dest measurement s q).1 = true) :
    (pqcSendEncryptedTemp P conn dest measurement s q).2.1.txCounter = s.txCounter ∧
      (pqcSendEncryptedTemp P conn dest measurement s q).2.2 = q := by
  unfold pqcSendEncryptedTemp at h ⊢
  split
  · exact ⟨rfl, rfl⟩
  · rename_i hroom
    rw [if_neg hroom] at h
    dsimp only at h ⊢
    split
    · rename_i hsent
      rw [if_pos hsent] at h
      exact absurd rfl h
    · rename_i hsent
      exact ⟨rfl, queueSend_refused (by simpa using hsent)⟩

/-- Without a measurement the counter stays or starts over, and no TEMP packet is queued. -/
theorem handle_unmeasured (h : n.measures P e = none) (hφ : ∀ p, NotTemp p → φ p)
    (hq : n.tx.Holds φ) :
    ((n.handle P e).session.txCounter = n.session.txCounter ∨
      (n.handle P e).session.state = .idle ∧ (n.handle P e).session.txCounter = 0) ∧
      (n.handle P e).tx.Holds φ := by
  cases e with
  | receive clk rnd d =>
    obtain ⟨hcounter, hadds⟩ := udpRxCallback_unmeasured P clk rnd d n
    exact ⟨Or.inl hcounter, hadds.holds hq hφ⟩
  | routing clk routing =>
    obtain ⟨hcounter, hadds⟩ := routingTick_unmeasured P clk routing n
    exact ⟨Or.inl hcounter, hadds.holds hq hφ⟩
  | retry clk routing =>
    obtain ⟨hcounter, hadds⟩ := retryTick_unmeasured P clk routing n
    exact ⟨hcounter, hadds.holds hq hφ⟩
  | temp measurement =>
    by_cases hest : n.session.sessionIsEstablished = true
    · have hrefused : ¬ (pqcSendEncryptedTemp P udpConn n.destAddress measurement n.session
          n.tx).1 = true := by
        intro hsent
        rw [measures, if_pos ⟨hest, hsent⟩] at h
        cases h
      obtain ⟨hcounter, htx⟩ := pqcSendEncryptedTemp_refused hrefused
      simp only [handle, tempTick, hest, if_true]
      exact ⟨Or.inl hcounter, by rwa [htx]⟩
    · simp only [handle, tempTick, hest, Bool.false_eq_true, if_false]
      exact ⟨Or.inl trivial, hq⟩
  | transmit => exact ⟨Or.inl rfl, hq.process.1⟩
  | reset => exact ⟨Or.inr ⟨rfl, rfl⟩, hq⟩
  | reboot => exact ⟨Or.inr ⟨rfl, rfl⟩, holds_init⟩

/-- With a measurement an established node uses up the counter it gives it. -/
theorem handle_measured (h : n.measures P e = some t) :
    n.session.sessionIsEstablished = true ∧ t.counter = n.session.txCounter ∧
      Skips n.session (n.handle P e).session ∧
      (n.handle P e).session.txCounter = n.session.txCounter + 1 ∧ (n.handle P e).obs = n.obs ∧
      Adds (· = tempPacket P n.session t) n.tx (n.handle P e).tx := by
  cases e with
  | temp measurement =>
    rw [measures] at h
    split at h
    · rename_i hqueued
      obtain ⟨hest, hsent⟩ := hqueued
      obtain rfl := Option.some.inj h
      obtain ⟨hcounter, hadds⟩ := pqcSendEncryptedTemp_queued hsent
      obtain ⟨hskips, -⟩ := pqcSendEncryptedTemp_cases P udpConn n.destAddress measurement
        n.session n.tx
      simp only [handle, tempTick, hest, if_true]
      exact ⟨trivial, trivial, hskips, hcounter, trivial, hadds⟩
    · cases h
  | receive _ _ _ | routing _ _ | retry _ _ | transmit | reset | reboot => cases h

variable {n' : Node}

theorem waitAck_act (hv : id ≠ sessionInvalidNodeId) (hs : Sound n) (hn : Named id n)
    (ha : Act P rnd data n n') (hobs : encapsulated n'.obs = encapsulated n.obs)
    (hw : n'.session.state = .waitAck) : n.session.state = .waitAck := by
  have hof {c : SessionCore} (hc : n'.session.core = c) : c.state = .waitAck :=
    (congrArg SessionCore.state hc).symm.trans hw
  cases ha with
  | touch hal =>
    obtain ⟨k, hk⟩ := hal.session
    exact hof hk
  | request _ hc _ => cases hof hc
  | requested _ | collect _ | transmit => exact hw
  | reset | reboot => cases hw
  | retry hr =>
    cases hr with
    | waited hc _ | asked _ hc _ _ _ _ => exact hof hc
    | failed _ hc _ _ _ => cases hof hc
    | resent _ hc _ _ => rcases hc with hc | hc <;> exact hof hc
    | stray _ _ _ => exact hw
  | fragment _ _ _ hhandled =>
    rw [hn.mapS_adopt hv] at hhandled
    cases hhandled with
    | incomplete hi =>
      cases hi with
      | quiet hc _ | stored hc _ _ _ _ _ =>
        obtain ⟨k, hk⟩ := hc
        exact hof hk
      | refused _ _ => exact hw
      | resent hc _ _ => exact hof hc
    | confirmed hr _ _ _ _ _ | ct hr _ _ _ _ => cases hs.role.symm.trans hr
    | pk _ _ _ _ hc =>
      cases hc with
      | rejected _ hc => cases hof hc
      | failed _ _ _ _ _ | sent _ _ _ _ => exact absurd hobs (List.cons_ne_self _ _)
    | ack _ _ _ _ _ _ hc => cases hof hc

/-- A node comes to wait for an acknowledgement only by an encapsulation. -/
theorem waitAck_handle (hv : id ≠ sessionInvalidNodeId) (hs : Sound n) (hn : Named id n)
    (e : Event) (hobs : encapsulated (n.handle P e).obs = encapsulated n.obs)
    (hw : (n.handle P e).session.state = .waitAck) : n.session.state = .waitAck := by
  rcases handle_turn P n e with ⟨rnd, n₁, hact, halike⟩ | hdeaf
  · obtain ⟨k, hk⟩ := halike.session
    rw [halike.obs] at hobs
    exact waitAck_act hv hs hn hact hobs ((congrArg SessionCore.state hk).symm.trans hw)
  · generalize n.handle P e = n' at hdeaf hw
    have hall : Sound n' ∧ Named id n' ∧ (n'.session.state = .waitAck →
        n.session.state = .waitAck) := by
      clear hobs hw
      induction hdeaf with
      | refl => exact ⟨hs, hn, fun hw => hw⟩
      | tail _ hlast ih =>
        obtain ⟨hs', hn', hback⟩ := ih
        exact ⟨sound_act hs' hlast, named_act hv hn' hlast,
          fun hw => hback (waitAck_act hv hs' hn' hlast (encapsulated_act hlast) hw)⟩
    exact hall.2.2 hw

end Node

end PqcContiki
