import PqcContiki.HandshakeHandlers
import PqcContiki.Messages

/-!
The root device: `server_main.c` over the session table of `session_manager.c`. The CSV rows it
prints are kept in a list, newest first, without their time stamps; its plain log lines are not
modelled.
-/
namespace PqcContiki

/-- The event column of a CSV row. -/
inductive CsvEvent where
  | rootStart | udpListen | rootKeypairFail | rootKeypairReady
  | rxInvalid | noSessionSlot | getpkAfterFail | getpkAccept | getpkRestart | getpkIgnore
  | ctRxStart | tempDecryptFail | nodeMetricsInvalid
  | hsSuccess | hsFail | hsFailReset | hsPk | hsCt | hsCrypto
  | nodeGroup (group : ℕ) | nodeMetricsMeta
  | sessionHs | sessionPk | sessionCt | sessionCrypto | sessionFrag | sessionTemp
  | impactOverlap | impactStart | impactNodeLost | impactTemp | impactResync | impactEnd
deriving DecidableEq

/-- `secondsMask` says which values are printed as seconds. -/
inductive CsvRow where
  | event (nodeId : UInt16) (event : CsvEvent) (v0 v1 v2 v3 : UInt32) (secondsMask : ℕ)
  | temp (nodeId : UInt16) (measurement : TempPayload)
deriving DecidableEq

/-- `impact_snapshot_t`; only active ones are kept. -/
structure ImpactSnapshot where
  nodeId : UInt16
  tempRxOk : UInt32
  tempRxFail : UInt32
  tempCounterResync : UInt32
  rxCounter : UInt32

/-- `impact_window_t`, whose `snapshot_count` is the length of the list. -/
structure ImpactWindow where
  active : Bool
  targetNodeId : UInt16
  startedAt : UInt32
  snapshots : List ImpactSnapshot

def ImpactWindow.zero : ImpactWindow := ⟨false, 0, 0, []⟩

structure Root where
  sessions : Fin sessionMaxNodes → Session
  hs : HsStatics
  tx : TxQueue
  impactWindow : ImpactWindow
  csv : List CsvRow
  obs : List Observation

/-- `&udp_conn` of a device. -/
def udpConn : UdpConn := 0

def udpServerPort : UInt32 := 5678

namespace Root

@[simps] def csvEventUnits (nodeId : UInt16) (event : CsvEvent) (v0 v1 v2 v3 : UInt32)
    (secondsMask : ℕ) (r : Root) : Root :=
  { r with csv := .event nodeId event v0 v1 v2 v3 secondsMask :: r.csv }

def csvEvent (nodeId : UInt16) (event : CsvEvent) (v0 v1 v2 v3 : UInt32) (r : Root) : Root :=
  r.csvEventUnits nodeId event v0 v1 v2 v3 0

@[simps] def csvTemp (nodeId : UInt16) (measurement : TempPayload) (r : Root) : Root :=
  { r with csv := .temp nodeId measurement :: r.csv }

def csvHsSummary (s : Session) (event : CsvEvent) (r : Root) : Root :=
  let m := s.metrics
  (((r.csvEventUnits s.nodeId event m.handshake.handshakeTicksLast m.resource.retries
    m.fragmentation.nackTx m.fragmentation.nackRx 1).csvEventUnits s.nodeId .hsPk
    m.handshake.pkTxTicksLast m.handshake.pkRxTicksLast m.handshake.pkTx
    m.handshake.pkRxComplete 3).csvEventUnits s.nodeId .hsCt m.handshake.ctTxTicksLast
    m.handshake.ctRxTicksLast m.handshake.ctTx m.handshake.ctRxComplete 3).csvEventUnits s.nodeId
    .hsCrypto m.handshake.keypairTicksLast m.handshake.encapsTicksLast
    m.handshake.decapsTicksLast m.handshake.ackWaitTicksLast 15

/-- Which values of a report group are times. -/
def groupSecondsMask : ℕ → ℕ
  | 1 => 1
  | 2 | 3 => 3
  | 4 => 15
  | _ => 0

def csvNodeMetrics (nodeId : UInt16) (report : MetricsReport) (r : Root) : Root :=
  (r.csvEventUnits nodeId (.nodeGroup report.group) (report.value 0) (report.value 1)
    (report.value 2) (report.value 3) (groupSecondsMask report.group)).csvEventUnits nodeId
    .nodeMetricsMeta (UInt32.ofNat report.group) report.seq report.uptimeTicks
    report.version.toUInt32 4

@[simps] def setSession (i : Fin sessionMaxNodes) (s : Session) (r : Root) : Root :=
  { r with sessions := Function.update r.sessions i s }

def mapSession (i : Fin sessionMaxNodes) (g : Session → Session) (r : Root) : Root :=
  r.setSession i (g (r.sessions i))

def sessionManagerFind (nodeId : UInt16) (r : Root) : Option (Fin sessionMaxNodes) :=
  (List.finRange sessionMaxNodes).find? fun i =>
    (r.sessions i).used && (r.sessions i).nodeId == nodeId

def sessionManagerGetOrCreate (nodeId : UInt16) (r : Root) :
    Option (Fin sessionMaxNodes) × Root :=
  match r.sessionManagerFind nodeId with
  | some i => (some i, r)
  | none =>
    match (List.finRange sessionMaxNodes).find? fun i => !(r.sessions i).used with
    | some i => (some i, r.setSession i (Session.sessionInit .root nodeId))
    | none => (none, r)

/-- Session `i` together with the statics and the queue, as the handshake code sees them. -/
@[simps] def fsm (i : Fin sessionMaxNodes) (r : Root) : Fsm := ⟨r.sessions i, r.hs, r.tx, r.obs⟩

/-- The device after the handshake code worked on session `i`. -/
@[simps] def putFsm (i : Fin sessionMaxNodes) (f : Fsm) (r : Root) : Root :=
  { r with
    sessions := Function.update r.sessions i f.s
    hs := f.hs
    tx := f.tx
    obs := f.obs }

def setNodeMetrics (report : MetricsReport) (s : Session) : Session :=
  if h : report.group = 0 ∨ report.group > pqcMetricsGroupCount then s
  else
    { s with
      nodeMetricValues := Function.update s.nodeMetricValues
        ⟨report.group, by push Not at h; omega⟩ report.value
      nodeMetricsMask := s.nodeMetricsMask ||| UInt8.ofNat (2 ^ (report.group - 1)) }

def sessionStoreNodeMetrics (i : Fin sessionMaxNodes) (report : MetricsReport) (r : Root) : Root :=
  r.mapSession i (setNodeMetrics report)

/-- The bits of all seven groups. -/
def requiredMetricsMask : UInt8 := 127

def csvSessionSummaryIfReady (i : Fin sessionMaxNodes) (r : Root) : Root :=
  let s := r.sessions i
  if s.sessionSummaryEmitted ∨ !s.sessionIsEstablished then r
  else if s.nodeMetricsMask &&& requiredMetricsMask ≠ requiredMetricsMask then r
  else
    let root := s.metrics
    let node := s.nodeMetricValues
    ((((((r.csvEventUnits s.nodeId .sessionHs root.handshake.handshakeTicksLast (node 1 0)
      root.resource.retries (node 7 0) 3).csvEventUnits s.nodeId .sessionPk
      root.handshake.pkTxTicksLast (node 2 1) root.handshake.pkTx (node 2 3) 3).csvEventUnits
      s.nodeId .sessionCt (node 3 0) root.handshake.ctRxTicksLast (node 3 2)
      root.handshake.ctRxComplete 3).csvEventUnits s.nodeId .sessionCrypto
      root.handshake.keypairTicksLast (node 4 1) root.handshake.decapsTicksLast (node 4 3)
      15).csvEvent s.nodeId .sessionFrag root.fragmentation.nackTx root.fragmentation.nackRx
      (node 5 2) (node 5 3)).csvEvent s.nodeId .sessionTemp root.temp.tempRxOk
      root.temp.tempRxFail (node 6 0) (node 6 1)).mapSession i fun s =>
        { s with sessionSummaryEmitted := true }

def impactStart (now : ℕ) (targetNodeId : UInt16) (r : Root) : Root :=
  let w := r.impactWindow
  if w.active then
    r.csvEvent w.targetNodeId .impactOverlap targetNodeId.toUInt32
      (UInt32.ofNat w.snapshots.length) 0 0
  else
    let watched := (List.finRange sessionMaxNodes).filter fun i =>
      (r.sessions i).used && (r.sessions i).sessionIsEstablished &&
        (r.sessions i).nodeId != targetNodeId
    let snapshots := watched.map fun i =>
      let s := r.sessions i
      (⟨s.nodeId, s.metrics.temp.tempRxOk, s.metrics.temp.tempRxFail,
        s.metrics.temp.tempCounterResync, s.rxCounter⟩ : ImpactSnapshot)
    { r with impactWindow := ⟨true, targetNodeId, UInt32.ofNat now, snapshots⟩ }.csvEvent
      targetNodeId .impactStart (UInt32.ofNat snapshots.length) 0 0 0

/-- The rows about one watched node. -/
def impactReport (targetNodeId : UInt16) (r : Root) (snapshot : ImpactSnapshot) : Root :=
  match r.sessionManagerFind snapshot.nodeId with
  | none => r.csvEvent snapshot.nodeId .impactNodeLost targetNodeId.toUInt32 0 0 0
  | some i =>
    let s := r.sessions i
    let okDelta := s.metrics.temp.tempRxOk - snapshot.tempRxOk
    let failDelta := s.metrics.temp.tempRxFail - snapshot.tempRxFail
    let resyncDelta := s.metrics.temp.tempCounterResync - snapshot.tempCounterResync
    let rxDelta := s.rxCounter - snapshot.rxCounter
    let gap := if rxDelta > okDelta then rxDelta - okDelta else 0
    (r.csvEvent snapshot.nodeId .impactTemp targetNodeId.toUInt32 okDelta failDelta gap).csvEvent
      snapshot.nodeId .impactResync targetNodeId.toUInt32 resyncDelta rxDelta
      (if s.sessionIsEstablished then 1 else 0)

def impactEnd (P : Platform) (now : ℕ) (targetNodeId : UInt16) (success : Bool) (r : Root) : Root :=
  let w := r.impactWindow
  if !w.active ∨ w.targetNodeId ≠ targetNodeId then r
  else
    let duration := UInt32.ofNat (P.clockSub now w.startedAt.toNat)
    let r := w.snapshots.foldl (impactReport targetNodeId) r
    { r.csvEventUnits targetNodeId .impactEnd duration (UInt32.ofNat w.snapshots.length)
        (if success then 1 else 0) 0 1 with
      impactWindow := ImpactWindow.zero }

variable (P : Platform) (clk : Clock) (rnd : Entropy)

/-- `hs_fsm_start` for session `i`, inside an impact window. -/
def startHandshake (i : Fin sessionMaxNodes) (dst : UdpSendCtx) (r : Root) : Root :=
  let nodeId := (r.sessions i).nodeId
  let r := r.impactStart (clk 20) nodeId
  let res := (r.fsm i).hsFsmStart P clk rnd dst
  let r := r.putFsm i res.2
  if res.1 then r else r.impactEnd P (clk 21) nodeId false

/-- Forget what is queued for a node and start its session over. -/
def dropAndReset (i : Fin sessionMaxNodes) (r : Root) : Root :=
  { r with tx := (r.tx.pqcTxDropNode (r.sessions i).nodeId).2 }.mapSession i Session.sessionReset

def handleGetpk (i : Fin sessionMaxNodes) (sender : IpAddr) (msgId : UInt8) (r : Root) : Root :=
  let nodeId := (r.sessions i).nodeId
  let dst : UdpSendCtx := ⟨some udpConn, some sender⟩
  let r := r.mapSession i (Session.mapMetrics .noteGetpkRx)
  let r :=
    if (r.sessions i).sessionIsFailed then
      ((r.csvEvent nodeId .getpkAfterFail (UInt32.ofNat (r.sessions i).retryCount) 0 0
        0).dropAndReset i).mapSession i (Session.sessionSetPeerAddr sender)
    else r
  let s := r.sessions i
  if s.state = .idle then
    (r.csvEvent nodeId .getpkAccept msgId.toUInt32 0 0 0).startHandshake P clk rnd i dst
  else if s.state = .waitCt ∨ s.sessionIsEstablished then
    (((r.csvEvent nodeId .getpkRestart s.state.ctorIdx.toUInt32 msgId.toUInt32 0
      0).dropAndReset i).mapSession i (Session.sessionSetPeerAddr sender)).startHandshake P clk rnd
      i dst
  else r.csvEvent nodeId .getpkIgnore s.state.ctorIdx.toUInt32 msgId.toUInt32 0 0

/-- The first fragment of a ciphertext ends the transfer of the key. -/
def noteCtStart (i : Fin sessionMaxNodes) (msgType msgId : UInt8) (r : Root) : Root :=
  let s := r.sessions i
  if msgType = pqcMsgCt ∧ s.state = .waitCt ∧ s.pendingMsgType = pqcMsgPk then
    let dropped := r.tx.pqcTxDrop s.nodeId pqcMsgPk s.pendingMsgId
    ({ r with tx := dropped.2 }.csvEvent s.nodeId .ctRxStart msgId.toUInt32
      (UInt32.ofNat dropped.1) 0 0).mapSession i fun s =>
        (s.mapMetrics (.noteCtRxStart (clk 22))).sessionSetPending P (clk 23) pqcMsgCt msgId
  else r

def handleTemp (i : Fin sessionMaxNodes) (data : Bytes) (r : Root) : Root :=
  let nodeId := (r.sessions i).nodeId
  let res := pqcHandleEncryptedTemp P data ⟨0, 0, 0⟩ (r.sessions i)
  let r := r.setSession i res.2.2
  if res.1 then r.csvTemp nodeId res.2.1
  else
    r.csvEvent nodeId .tempDecryptFail (byteAt data pqcHdrMsgId).toUInt32
      (UInt32.ofNat data.length) 0 0

/-- The report of a METRICS packet, if it passes the checks. -/
def metricsReport (data : Bytes) : Option MetricsReport :=
  if data.length = pqcHeaderLen + pqcMetricsReportLen ∧ byteAt data pqcHdrFragIdx = 0 ∧
      byteAt data pqcHdrTotalFrags = 1 ∧
      (byteAt data pqcHdrPayloadLen).toNat = pqcMetricsReportLen then
    pqcMetricsDecodeReport ((data.drop pqcHeaderLen).take pqcMetricsReportLen)
  else none

def handleMetrics (i : Fin sessionMaxNodes) (data : Bytes) (r : Root) : Root :=
  let nodeId := (r.sessions i).nodeId
  match metricsReport data with
  | some report =>
    ((r.csvNodeMetrics nodeId report).sessionStoreNodeMetrics i report).csvSessionSummaryIfReady i
  | none =>
    r.csvEvent nodeId .nodeMetricsInvalid (UInt32.ofNat data.length)
      (byteAt data pqcHdrMsgId).toUInt32 0 0

def handleHandshake (i : Fin sessionMaxNodes) (dst : UdpSendCtx) (data : Bytes) (r : Root) :
    Root :=
  let r' := r.putFsm i
    ((r.fsm i).hsFsmHandleFragment P (.sessions i) clk rnd dst data).2
  if !(r.sessions i).sessionIsEstablished ∧ (r'.sessions i).sessionIsEstablished then
    ((r'.csvHsSummary (r'.sessions i) .hsSuccess).impactEnd P (clk 24)
      (r'.sessions i).nodeId true).csvSessionSummaryIfReady i
  else r'

/-- A packet of session `i`. -/
def dispatch (i : Fin sessionMaxNodes) (sender : IpAddr) (data : Bytes) (r : Root) : Root :=
  let msgType := byteAt data pqcHdrMsgType
  let msgId := byteAt data pqcHdrMsgId
  let r := r.mapSession i (Session.sessionSetPeerAddr sender)
  if msgType = pqcMsgGetpk then r.handleGetpk P clk rnd i sender msgId
  else
    let r := r.noteCtStart P clk i msgType msgId
    if msgType = pqcMsgTemp then r.handleTemp P i data
    else if msgType = pqcMsgMetrics then r.handleMetrics i data
    else r.handleHandshake P clk rnd i ⟨some udpConn, some sender⟩ data

def udpRxCallback (sender : IpAddr) (data : Bytes) (r : Root) : Root :=
  if !pqcHeaderValid data then
    r.csvEvent sessionInvalidNodeId .rxInvalid (UInt32.ofNat data.length) 0 0 0
  else
    let found := r.sessionManagerGetOrCreate (pqcHeaderGetNodeId data)
    match found.1 with
    | none => found.2.csvEvent (pqcHeaderGetNodeId data) .noSessionSlot 0 0 0 0
    | some i => found.2.dispatch P clk rnd i sender data

/-- The part of a retry tick that is about session `i`. -/
def retrySession (i : Fin sessionMaxNodes) (r : Root) : Root :=
  let s := r.sessions i
  if s.used ∧ !s.sessionIsEstablished ∧ s.hasPeerAddr then
    let r := r.putFsm i
      ((r.fsm i).hsFsmRetry P (.sessions i) clk ⟨some udpConn, some s.peerAddr⟩).2
    let s := r.sessions i
    if s.sessionIsFailed then
      (((r.csvHsSummary s .hsFail).impactEnd P (clk 20) s.nodeId false).csvEvent s.nodeId
        .hsFailReset s.state.ctorIdx.toUInt32 (UInt32.ofNat s.retryCount) 0 0).dropAndReset i
    else r
  else r

/-- `PQC_retry_process`: each session has its own readings of the clock. -/
def retryTick (clk : Fin sessionMaxNodes → Clock) (r : Root) : Root :=
  (List.finRange sessionMaxNodes).foldl (fun r i => r.retrySession P (clk i) i) r

/-- `PQC_send_process`, with the packet it hands to the network. -/
def txTick (r : Root) : Option Datagram × Root :=
  ((r.tx.pqcTxProcess).2.1, { r with tx := (r.tx.pqcTxProcess).2.2 })

/-- The device after `PQC_process` has set it up. -/
def boot : Root :=
  let r : Root := ⟨fun _ => Session.zero, HsStatics.zero, pqcTxInit, ImpactWindow.zero, [], []⟩
  let r := (r.csvEvent sessionInvalidNodeId .rootStart 0 0 0 0).csvEvent sessionInvalidNodeId
    .udpListen udpServerPort 0 0 0
  let keypair := r.hs.hsFsmRootInitKeypair P rnd
  let r := { r with hs := keypair.2 }
  if keypair.1 then r.csvEvent sessionInvalidNodeId .rootKeypairReady 0 0 0 0
  else r.csvEvent sessionInvalidNodeId .rootKeypairFail 0 0 0 0

end Root

end PqcContiki
