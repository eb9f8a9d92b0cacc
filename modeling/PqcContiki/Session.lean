import PqcContiki.Metrics
import PqcContiki.TxQueue

/-!
Session records and their updates (`session_manager.c`). `last_activity` is written and never
read, so neither it nor `session_touch` is modelled.
-/
namespace PqcContiki

abbrev sessionMaxNodes : ℕ := 10
abbrev sessionMaxRetries : ℕ := 3
abbrev pqcMetricsGroupCount : ℕ := 7

-- the literals of both index types are read alike in every module
instance neZero_metricsGroups : NeZero (pqcMetricsGroupCount + 1) := ⟨by decide⟩

instance neZero_metricsValues : NeZero 4 := ⟨by decide⟩

inductive SessionRole where
  | node
  | root
deriving DecidableEq, Repr

inductive SessionState where
  | unused
  | idle
  | waitPk
  | waitCt
  | waitAck
  | established
  | failed
deriving DecidableEq, Repr

structure Session where
  used : Bool
  nodeId : UInt16
  role : SessionRole
  state : SessionState
  established : Bool
  nextMsgId : UInt8
  txCounter : UInt32
  rxCounter : UInt32
  ss : SharedSecret
  aesKey : AesKey
  retryCount : ℕ
  pendingMsgType : UInt8
  pendingMsgId : UInt8
  waitingResponse : Bool
  hasPeerAddr : Bool
  peerAddr : IpAddr
  retryDeadline : ℕ
  metrics : MetricsSnapshot
  nodeMetricValues : Fin (pqcMetricsGroupCount + 1) → Fin 4 → UInt32
  nodeMetricsMask : UInt8
  sessionSummaryEmitted : Bool

namespace Session

/-- A record after `memset`. -/
@[simps] def zero : Session where
  used := false
  nodeId := 0
  role := .node
  state := .unused
  established := false
  nextMsgId := 0
  txCounter := 0
  rxCounter := 0
  ss := Buffer.zero _
  aesKey := Buffer.zero _
  retryCount := 0
  pendingMsgType := 0
  pendingMsgId := 0
  waitingResponse := false
  hasPeerAddr := false
  peerAddr := 0
  retryDeadline := 0
  metrics := MetricsSnapshot.zero
  nodeMetricValues := fun _ _ => 0
  nodeMetricsMask := 0
  sessionSummaryEmitted := false

@[simps! used nodeId role state established nextMsgId txCounter rxCounter ss aesKey retryCount
  pendingMsgType pendingMsgId waitingResponse]
def sessionInit (role : SessionRole) (nodeId : UInt16) : Session :=
  { zero with
    used := true
    role
    nodeId
    state := .idle
    metrics := MetricsSnapshot.pqcMetricsInit nodeId }

/-- Role, node id, peer address and metrics survive; everything else starts over. -/
@[simps! used nodeId role state established nextMsgId txCounter rxCounter ss aesKey retryCount
  pendingMsgType pendingMsgId waitingResponse]
def sessionReset (s : Session) : Session :=
  { sessionInit s.role s.nodeId with
    metrics := s.metrics.pqcMetricsSetNodeId s.nodeId
    hasPeerAddr := s.hasPeerAddr
    peerAddr := if s.hasPeerAddr then s.peerAddr else 0 }

def sessionIsRoot (s : Session) : Bool := s.role == .root

def sessionIsNode (s : Session) : Bool := s.role == .node

def sessionIsEstablished (s : Session) : Bool := s.state == .established && s.established

def sessionIsFailed (s : Session) : Bool := s.state == .failed

def sessionRetryDue (now : ℕ) (s : Session) : Bool :=
  s.waitingResponse && decide (now ≥ s.retryDeadline)

def sessionCanRetry (s : Session) : Bool := decide (s.retryCount < sessionMaxRetries)

@[simps] def sessionSetPeerAddr (addr : IpAddr) (s : Session) : Session :=
  { s with peerAddr := addr, hasPeerAddr := true }

@[simps] def sessionSetPending (P : Platform) (now : ℕ) (msgType msgId : UInt8) (s : Session) :
    Session :=
  { s with
    pendingMsgType := msgType
    pendingMsgId := msgId
    waitingResponse := true
    retryDeadline := P.clockAdd now P.sessionRetryTimeout }

@[simps] def sessionClearPending (s : Session) : Session :=
  { s with pendingMsgType := 0, pendingMsgId := 0, waitingResponse := false, retryCount := 0 }

@[simps] def sessionSetWaitPk (s : Session) : Session := { s with state := .waitPk }

@[simps] def sessionSetWaitCt (s : Session) : Session := { s with state := .waitCt }

@[simps] def sessionSetWaitAck (s : Session) : Session := { s with state := .waitAck }

@[simps!]
def sessionSetEstablished (s : Session) : Session :=
  sessionClearPending { s with state := .established, established := true }

/-- The metrics of a session changed by `f`, and nothing else. -/
@[simps] def mapMetrics (f : MetricsSnapshot → MetricsSnapshot) (s : Session) : Session :=
  { s with metrics := f s.metrics }

@[simps] def setNodeId (nodeId : UInt16) (s : Session) : Session := { s with nodeId }

@[simps] def setRetryDeadline (deadline : ℕ) (s : Session) : Session :=
  { s with retryDeadline := deadline }

@[simps] def setTxCounter (counter : UInt32) (s : Session) : Session :=
  { s with txCounter := counter }

@[simps] def setRxCounter (counter : UInt32) (s : Session) : Session :=
  { s with rxCounter := counter }

@[simps] def setSs (ss : SharedSecret) (s : Session) : Session := { s with ss }

@[simps] def setAesKey (aesKey : AesKey) (s : Session) : Session := { s with aesKey }

/-- A failure is counted once, when the state is entered. -/
def sessionSetFailed (P : Platform) (now : ℕ) (s : Session) : Session :=
  let s := if s.state ≠ .failed then
      s.mapMetrics (MetricsSnapshot.pqcMetricsHandshakeFailure P now)
    else s
  sessionClearPending { s with state := .failed, established := false }

/-- `session_next_msg_id`: the id handed out, and the record that counts it. -/
@[simps] def takeMsgId (s : Session) : Session := { s with nextMsgId := s.nextMsgId + 1 }

section Fields

variable (P : Platform) (now : ℕ) (s : Session)

@[simp] theorem sessionSetFailed_used : (s.sessionSetFailed P now).used = s.used := by
  unfold sessionSetFailed; split <;> rfl
@[simp] theorem sessionSetFailed_nodeId : (s.sessionSetFailed P now).nodeId = s.nodeId := by
  unfold sessionSetFailed; split <;> rfl
@[simp] theorem sessionSetFailed_role : (s.sessionSetFailed P now).role = s.role := by
  unfold sessionSetFailed; split <;> rfl
@[simp] theorem sessionSetFailed_state : (s.sessionSetFailed P now).state = .failed := rfl
@[simp] theorem sessionSetFailed_established :
    (s.sessionSetFailed P now).established = false := rfl
@[simp] theorem sessionSetFailed_pendingMsgType :
    (s.sessionSetFailed P now).pendingMsgType = 0 := rfl
@[simp] theorem sessionSetFailed_pendingMsgId :
    (s.sessionSetFailed P now).pendingMsgId = 0 := rfl
@[simp] theorem sessionSetFailed_waitingResponse :
    (s.sessionSetFailed P now).waitingResponse = false := rfl
@[simp] theorem sessionSetFailed_retryCount : (s.sessionSetFailed P now).retryCount = 0 := rfl

end Fields

end Session

end PqcContiki
