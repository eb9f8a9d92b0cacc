import PqcContiki.HandshakeHandlers
import PqcContiki.Messages
import PqcContiki.Root

/-! The node device: `node_main.c`. -/
namespace PqcContiki

structure Node where
  session : Session
  hs : HsStatics
  tx : TxQueue
  nodeId : UInt16
  destAddress : IpAddr
  getpkInFlight : Bool
  metricsPending : Bool
  obs : List Observation

/-- What `NETSTACK_ROUTING` answers at one moment. -/
structure Routing where
  nodeIsReachable : Bool
  rootIpaddr : Option IpAddr
  nodeHasJoined : Bool

namespace Node

/-- The device after `PQC_process` has set it up. -/
@[simps] def boot (nodeId : UInt16) : Node where
  session := (Session.sessionInit .node sessionInvalidNodeId).setNodeId nodeId
  hs := HsStatics.zero
  tx := pqcTxInit
  nodeId := nodeId
  destAddress := 0
  getpkInFlight := false
  metricsPending := false
  obs := []

/-- A reboot loses everything but the id, which comes from the link address. -/
def reboot (n : Node) : Node := { boot n.nodeId with obs := n.obs }

@[simps] def fsm (n : Node) : Fsm := ⟨n.session, n.hs, n.tx, n.obs⟩

@[simps] def putFsm (f : Fsm) (n : Node) : Node :=
  { n with session := f.s, hs := f.hs, tx := f.tx, obs := f.obs }

/-- `send_ctx`, which points to `dest_address`. -/
def sendCtx (n : Node) : UdpSendCtx := ⟨some udpConn, some n.destAddress⟩

def clearGetpkWait (n : Node) : Node := { n with getpkInFlight := false }

def shouldRequestPk (n : Node) : Bool :=
  n.session.state == .idle && n.session.pendingMsgType == 0 && !n.getpkInFlight &&
    !n.session.sessionIsEstablished

/-- Send the reports of the given groups until one cannot be sent. -/
def sendGroups (clk : Clock) : List ℕ → Node → Node
  | [], n => { n with metricsPending := false }
  | group :: groups, n =>
    if n.tx.pqcTxFreeSlots = 0 then { n with metricsPending := true }
    else
      let r := pqcSendMetricsReport (clk (20 + group)) udpConn n.destAddress group n.session n.tx
      let n := { n with session := r.2.1, tx := r.2.2 }
      if r.1 then sendGroups clk groups n else { n with metricsPending := true }

def sendNodeMetrics (clk : Clock) (n : Node) : Node := n.sendGroups clk [1, 2, 3, 4, 5, 6, 7]

variable (P : Platform) (clk : Clock) (rnd : Entropy)

def udpRxCallback (data : Bytes) (n : Node) : Node :=
  if !pqcHeaderValid data then n
  else
    let wasEstablished := n.session.sessionIsEstablished
    let n := n.putFsm (n.fsm.hsFsmHandleFragment P .localSession clk rnd n.sendCtx data).2
    let n := if n.session.pendingMsgType ≠ pqcMsgGetpk then n.clearGetpkWait else n
    if !wasEstablished ∧ n.session.sessionIsEstablished then
      { n with metricsPending := true }.sendNodeMetrics clk
    else if n.metricsPending ∧ n.session.sessionIsEstablished then n.sendNodeMetrics clk
    else n

/-- `node_is_reachable() && get_root_ipaddr(&dest_address)`. -/
def learnRoot (routing : Routing) (n : Node) : Bool × Node :=
  match routing.nodeIsReachable, routing.rootIpaddr with
  | true, some addr => (true, { n with destAddress := addr })
  | _, _ => (false, n)

/-- The loop body of `PQC_process`. -/
def routingTick (routing : Routing) (n : Node) : Node :=
  let (reached, n) := n.learnRoot routing
  if reached ∧ routing.nodeHasJoined ∧ n.shouldRequestPk then
    let r := pqcSendGetpk udpConn n.destAddress n.nodeId n.tx
    if r.1 then
      { n with
        tx := r.2
        getpkInFlight := true
        session :=
          ((n.session.mapMetrics (.pqcMetricsHandshakeStart (clk 0))).mapMetrics
            .noteGetpkTx).sessionSetWaitPk.sessionSetPending P (clk 1) pqcMsgGetpk 0 }
    else { n with tx := r.2 }
  else n

/-- `session_reset` and what `PQC_retry_process` does with it. -/
def resetSession (n : Node) : Node :=
  { n with
    session := n.session.sessionReset.setNodeId n.nodeId
    getpkInFlight := false }

/-- The loop body of `PQC_retry_process`. -/
def retryTick (routing : Routing) (n : Node) : Node :=
  if n.session.sessionIsEstablished then n
  else
    let (reached, n) := n.learnRoot routing
    if !reached then n
    else
      let n := n.putFsm (n.fsm.hsFsmRetry P .localSession clk n.sendCtx).2
      if n.session.sessionIsFailed then n.resetSession else n

/-- The loop body of `Temp_measurement_process`. -/
def tempTick (measurement : TempPayload) (n : Node) : Node :=
  if n.session.sessionIsEstablished then
    let r := pqcSendEncryptedTemp P udpConn n.destAddress measurement n.session n.tx
    { n with session := r.2.1, tx := r.2.2 }
  else n

/-- `PQC_send_process`, with the packet it hands to the network. -/
def txTick (n : Node) : Option Datagram × Node :=
  ((n.tx.pqcTxProcess).2.1, { n with tx := (n.tx.pqcTxProcess).2.2 })

end Node

end PqcContiki
