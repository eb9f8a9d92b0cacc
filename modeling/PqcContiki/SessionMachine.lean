import PqcContiki.HandshakeHandlers
import PqcContiki.Messages

/-!
The session machine behind the code: the fields of a session the handshake decides on, the moves
they can make, and the relation between them that every move keeps.
-/
namespace PqcContiki

/-- A session without its counters, timers, peer address and metrics. -/
structure SessionCore where
  used : Bool
  nodeId : UInt16
  role : SessionRole
  state : SessionState
  established : Bool
  nextMsgId : UInt8
  ss : SharedSecret
  aesKey : AesKey
  retryCount : ℕ
  pendingMsgType : UInt8
  pendingMsgId : UInt8
  waitingResponse : Bool

@[simps] def Session.core (s : Session) : SessionCore where
  used := s.used
  nodeId := s.nodeId
  role := s.role
  state := s.state
  established := s.established
  nextMsgId := s.nextMsgId
  ss := s.ss
  aesKey := s.aesKey
  retryCount := s.retryCount
  pendingMsgType := s.pendingMsgType
  pendingMsgId := s.pendingMsgId
  waitingResponse := s.waitingResponse

namespace SessionCore

variable (c : SessionCore)

/-- No message is pending. -/
@[simps] def settle (state : SessionState) : SessionCore :=
  { c with
    state
    established := state == .established
    pendingMsgType := 0
    pendingMsgId := 0
    waitingResponse := false
    retryCount := 0 }

abbrev fail : SessionCore := c.settle .failed

abbrev establish : SessionCore := c.settle .established

@[simps] def setKeys (ss : SharedSecret) (aesKey : AesKey) : SessionCore := { c with ss, aesKey }

/-- A message is out and its answer awaited. -/
@[simps] def await (state : SessionState) (msgType msgId : UInt8) : SessionCore :=
  { c with state, pendingMsgType := msgType, pendingMsgId := msgId, waitingResponse := true }

@[simps] def clearPending : SessionCore :=
  { c with pendingMsgType := 0, pendingMsgId := 0, waitingResponse := false, retryCount := 0 }

@[simps] def retried : SessionCore := { c with retryCount := (c.retryCount + 1) % 2 ^ 8 }

@[simps] def skipTo (nextMsgId : UInt8) : SessionCore := { c with nextMsgId }

@[simps] def named (nodeId : UInt16) : SessionCore := { c with nodeId }

/-- A session that starts over. -/
@[simps] def fresh (role : SessionRole) (nodeId : UInt16) : SessionCore where
  used := true
  nodeId := nodeId
  role := role
  state := .idle
  established := false
  nextMsgId := 0
  ss := Buffer.zero _
  aesKey := Buffer.zero _
  retryCount := 0
  pendingMsgType := 0
  pendingMsgId := 0
  waitingResponse := false

section Settle

variable (state state' : SessionState) (msgType msgId : UInt8)

@[simp] theorem settle_settle : (c.settle state).settle state' = c.settle state' := rfl

@[simp] theorem await_settle : (c.await state msgType msgId).settle state' = c.settle state' := rfl

@[simp] theorem clearPending_settle : c.clearPending.settle state = c.settle state := rfl

@[simp] theorem skipTo_settle (n : UInt8) :
    (c.skipTo n).settle state = (c.settle state).skipTo n := rfl

end Settle

@[simp] theorem setKeys_setKeys (ss ss' : SharedSecret) (key key' : AesKey) :
    (c.setKeys ss key).setKeys ss' key' = c.setKeys ss' key' := rfl

/-- The parts of a session that say whose it is, which no move of a handshake changes. -/
@[simps] def identity : Bool × UInt16 × SessionRole := (c.used, c.nodeId, c.role)

@[simp] theorem settle_identity (state : SessionState) :
    (c.settle state).identity = c.identity := rfl

@[simp] theorem await_identity (state : SessionState) (msgType msgId : UInt8) :
    (c.await state msgType msgId).identity = c.identity := rfl

@[simp] theorem clearPending_identity : c.clearPending.identity = c.identity := rfl

@[simp] theorem setKeys_identity (ss : SharedSecret) (key : AesKey) :
    (c.setKeys ss key).identity = c.identity := rfl

@[simp] theorem retried_identity : c.retried.identity = c.identity := rfl

@[simp] theorem skipTo_identity (n : UInt8) : (c.skipTo n).identity = c.identity := rfl

/-- The waiting states of each role, with the messages that can be pending in them. -/
def Awaits (role : SessionRole) (state : SessionState) (msgType : UInt8) : Prop :=
  (role = .root ∧ state = .waitCt ∧ (msgType = pqcMsgPk ∨ msgType = pqcMsgCt)) ∨
    (role = .node ∧ state = .waitPk ∧ msgType = pqcMsgGetpk) ∨
    (role = .node ∧ state = .waitAck ∧ msgType = pqcMsgCt)

def AtRest (state : SessionState) : Prop :=
  state = .idle ∨ state = .established ∨ state = .failed

instance (role : SessionRole) (state : SessionState) (msgType : UInt8) :
    Decidable (Awaits role state msgType) :=
  inferInstanceAs (Decidable (_ ∨ _ ∨ _))

instance (state : SessionState) : Decidable (AtRest state) :=
  inferInstanceAs (Decidable (_ ∨ _ ∨ _))

/-- State, pending message, established flag and retry budget fit together. -/
structure Coherent : Prop where
  established : c.established = true ↔ c.state = .established
  pending : (AtRest c.state ∧ c.waitingResponse = false ∧ c.pendingMsgType = 0 ∧
      c.pendingMsgId = 0 ∧ c.retryCount = 0) ∨
    (Awaits c.role c.state c.pendingMsgType ∧ c.waitingResponse = true)
  budget : c.retryCount ≤ sessionMaxRetries

variable {c}

theorem coherent_fresh (role : SessionRole) (nodeId : UInt16) : (fresh role nodeId).Coherent :=
  ⟨by simp, Or.inl (by simp [AtRest]), by simp⟩

theorem coherent_fail (c : SessionCore) : c.fail.Coherent :=
  ⟨by simp, Or.inl (by simp [AtRest]), by simp⟩

theorem coherent_establish (c : SessionCore) : c.establish.Coherent :=
  ⟨by simp, Or.inl (by simp [AtRest]), by simp⟩

theorem Coherent.setKeys (h : c.Coherent) (ss : SharedSecret) (aesKey : AesKey) :
    (c.setKeys ss aesKey).Coherent :=
  ⟨h.established, h.pending, h.budget⟩

theorem Coherent.skipTo (h : c.Coherent) (nextMsgId : UInt8) : (c.skipTo nextMsgId).Coherent :=
  ⟨h.established, h.pending, h.budget⟩

theorem Coherent.named (h : c.Coherent) (nodeId : UInt16) : (c.named nodeId).Coherent :=
  ⟨h.established, h.pending, h.budget⟩

theorem Coherent.retried (h : c.Coherent) (hw : c.waitingResponse = true)
    (hlt : c.retryCount < sessionMaxRetries) : c.retried.Coherent := by
  refine ⟨h.established, ?_, ?_⟩
  · rcases h.pending with hp | hp
    · simp [hp.2.1] at hw
    · exact Or.inr hp
  · simp only [retried_retryCount, sessionMaxRetries] at hlt ⊢
    omega

/-- A session that is not established may start to wait, in a state that fits its role. -/
theorem coherent_await {state : SessionState} {msgType : UInt8} (ha : Awaits c.role state msgType)
    (hest : c.established = false) (hb : c.retryCount ≤ sessionMaxRetries) (msgId : UInt8) :
    (c.await state msgType msgId).Coherent := by
  have hstate : state ≠ .established := by
    rintro rfl
    simp [Awaits] at ha
  exact ⟨by simp [hest, hstate], Or.inr ⟨ha, rfl⟩, hb⟩

theorem Coherent.not_established (h : c.Coherent) (hne : c.state ≠ .established) :
    c.established = false := by
  rw [← Bool.not_eq_true, h.established]
  exact hne

theorem Coherent.isWaiting (h : c.Coherent) (hw : c.waitingResponse = true) :
    Awaits c.role c.state c.pendingMsgType := by
  rcases h.pending with hp | hp
  · simp [hp.2.1] at hw
  · exact hp.1

theorem Coherent.of_pending (h : c.Coherent) (hp : c.pendingMsgType ≠ 0) :
    Awaits c.role c.state c.pendingMsgType := by
  rcases h.pending with h | h
  · exact absurd h.2.2.1 hp
  · exact h.1

end SessionCore

namespace Session

variable (P : Platform) (now : ℕ) (s : Session)

@[simp] theorem core_mapMetrics (f : MetricsSnapshot → MetricsSnapshot) :
    (s.mapMetrics f).core = s.core := rfl

@[simp] theorem core_setRetryDeadline (d : ℕ) : (s.setRetryDeadline d).core = s.core := rfl

@[simp] theorem core_sessionSetPeerAddr (a : IpAddr) : (s.sessionSetPeerAddr a).core = s.core := rfl

@[simp] theorem core_countTemp (f : TempMetrics → TempMetrics) :
    (s.countTemp f).core = s.core := rfl

@[simp] theorem core_setTxCounter (n : UInt32) : (s.setTxCounter n).core = s.core := rfl

@[simp] theorem core_setRxCounter (n : UInt32) : (s.setRxCounter n).core = s.core := rfl

@[simp] theorem core_takeMsgId : s.takeMsgId.core = s.core.skipTo (s.nextMsgId + 1) := rfl

@[simp] theorem core_setNodeId (nodeId : UInt16) :
    (s.setNodeId nodeId).core = s.core.named nodeId := rfl

@[simp] theorem core_sessionInit (role : SessionRole) (nodeId : UInt16) :
    (sessionInit role nodeId).core = .fresh role nodeId := rfl

@[simp] theorem core_sessionReset : s.sessionReset.core = .fresh s.role s.nodeId := rfl

@[simp] theorem core_sessionSetFailed : (s.sessionSetFailed P now).core = s.core.fail := by
  unfold sessionSetFailed
  split <;> rfl

@[simp] theorem core_sessionSetEstablished : s.sessionSetEstablished.core = s.core.establish := rfl

@[simp] theorem core_sessionSetPending (msgType msgId : UInt8) :
    (s.sessionSetPending P now msgType msgId).core = s.core.await s.state msgType msgId := rfl

@[simp] theorem core_hsSetPendingForTransfer (msgType msgId : UInt8) (len : ℕ) :
    (s.hsSetPendingForTransfer P now msgType msgId len).core =
      s.core.await s.state msgType msgId := rfl

section Wait

variable (state : SessionState) (msgType msgId : UInt8)

@[simp] theorem await_sessionSetWaitPk :
    s.sessionSetWaitPk.core.await state msgType msgId = s.core.await state msgType msgId := rfl

@[simp] theorem await_sessionSetWaitCt :
    s.sessionSetWaitCt.core.await state msgType msgId = s.core.await state msgType msgId := rfl

@[simp] theorem await_sessionSetWaitAck :
    s.sessionSetWaitAck.core.await state msgType msgId = s.core.await state msgType msgId := rfl

end Wait

@[simp] theorem core_sessionClearPending : s.sessionClearPending.core = s.core.clearPending := rfl

@[simp] theorem core_markRetry (d : ℕ) : (s.markRetry d).core = s.core.retried := rfl

@[simp] theorem core_setSs (ss : SharedSecret) : (s.setSs ss).core = s.core.setKeys ss s.aesKey :=
  rfl

@[simp] theorem core_setAesKey (key : AesKey) : (s.setAesKey key).core = s.core.setKeys s.ss key :=
  rfl

end Session

end PqcContiki
