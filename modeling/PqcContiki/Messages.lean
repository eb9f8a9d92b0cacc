import PqcContiki.Handshake

/-! The other messages of `PQC.c`: GETPK, encrypted TEMP and METRICS reports. -/
namespace PqcContiki

def pqcSendGetpk (conn : UdpConn) (rootAddr : IpAddr) (nodeId : UInt16) (q : TxQueue) :
    Bool × TxQueue :=
  queueSend ⟨some conn, some rootAddr⟩ (pqcHeaderWrite pqcMsgGetpk nodeId 0 0 1 0 pqcFlagNone) q

abbrev pqcTempRxCounterWindow : ℕ := 16
abbrev pqcTempPayloadLen : ℕ := 12

/-- `pqc_temp_payload_t`. -/
structure TempPayload where
  counter : UInt32
  rhMilli : Int32
  tempMilli : Int32
deriving DecidableEq

/-- The bytes of a 32-bit word in memory, least significant first. -/
def wordBytes (x : UInt32) : Bytes :=
  [UInt8.ofNat x.toNat, UInt8.ofNat (x.toNat / 2 ^ 8), UInt8.ofNat (x.toNat / 2 ^ 16),
    UInt8.ofNat (x.toNat / 2 ^ 24)]

/-- The 32-bit word stored at `buf[i]`. -/
def wordAt (buf : Bytes) (i : ℕ) : UInt32 :=
  UInt32.ofNat ((byteAt buf i).toNat + 2 ^ 8 * (byteAt buf (i + 1)).toNat +
    2 ^ 16 * (byteAt buf (i + 2)).toNat + 2 ^ 24 * (byteAt buf (i + 3)).toNat)

/-- The record as `memcpy` sees it. -/
def TempPayload.bytes (t : TempPayload) : Bytes :=
  wordBytes t.counter ++ wordBytes t.rhMilli.toUInt32 ++ wordBytes t.tempMilli.toUInt32

def TempPayload.ofBytes (buf : Bytes) : TempPayload :=
  ⟨wordAt buf 0, ⟨wordAt buf 4⟩, ⟨wordAt buf 8⟩⟩

/-- AES-CTR under the counter's own IV, which encrypts and decrypts. -/
def tempXcrypt (P : Platform) (s : Session) (counter : UInt32) (buf : Bytes) : Bytes :=
  P.cryptoWorkerAesCtrXcrypt s.aesKey (P.cryptoWorkerDeriveAesIv s.ss counter) buf

/-- The packet that carries a measurement under the session's send counter. -/
def tempPacket (P : Platform) (s : Session) (measurement : TempPayload) : Bytes :=
  pqcHeaderWrite pqcMsgTemp s.nodeId s.nextMsgId 0 1 pqcTempPayloadLen pqcFlagNone ++
    tempXcrypt P s s.txCounter { measurement with counter := s.txCounter }.bytes

namespace Session

@[simps!] def countTemp (f : TempMetrics → TempMetrics) (s : Session) : Session :=
  s.mapMetrics fun m => { m with temp := f m.temp }

end Session

def pqcSendEncryptedTemp (P : Platform) (conn : UdpConn) (dest : IpAddr)
    (measurement : TempPayload) (s : Session) (q : TxQueue) : Bool × Session × TxQueue :=
  if !s.sessionIsEstablished ∨ q.pqcTxFreeSlots = 0 then
    (false, s.countTemp fun t => { t with tempTxFail := t.tempTxFail + 1 }, q)
  else
    let r := queueSend ⟨some conn, some dest⟩ (tempPacket P s measurement) q
    let s := s.takeMsgId
    if r.1 then
      (true, (s.setTxCounter (s.txCounter + 1)).countTemp fun t =>
        { t with tempTx := t.tempTx + 1 }, r.2)
    else (false, s.countTemp fun t => { t with tempTxFail := t.tempTxFail + 1 }, r.2)

/-- The payload as it reads under a trial counter. -/
def trialPayload (P : Platform) (s : Session) (data : Bytes) (trial : UInt32) : TempPayload :=
  TempPayload.ofBytes
    (tempXcrypt P s trial ((data.drop pqcHeaderLen).take pqcTempPayloadLen))

/-- The checks a packet passes before it is decrypted. -/
def TempAdmitted (s : Session) (data : Bytes) : Prop :=
  s.sessionIsEstablished ∧ pqcHeaderValid data ∧ byteAt data pqcHdrMsgType = pqcMsgTemp ∧
    byteAt data pqcHdrFragIdx = 0 ∧ byteAt data pqcHdrTotalFrags = 1 ∧
    (byteAt data pqcHdrPayloadLen).toNat = pqcTempPayloadLen

instance (s : Session) (data : Bytes) : Decidable (TempAdmitted s data) :=
  inferInstanceAs (Decidable (_ ∧ _ ∧ _ ∧ _ ∧ _ ∧ _))

/-- Counters from the expected one on are tried until one matches the counter inside. Returns the
result, `*out` and the session. -/
def pqcHandleEncryptedTemp (P : Platform) (data : Bytes) (out : TempPayload) (s : Session) :
    Bool × TempPayload × Session :=
  if ¬ TempAdmitted s data then
    (false, out, s.countTemp fun t => { t with tempRxFail := t.tempRxFail + 1 })
  else
    let s := s.countTemp fun t => { t with tempRx := t.tempRx + 1 }
    match (List.range pqcTempRxCounterWindow).find? fun offset =>
        (trialPayload P s data (s.rxCounter + UInt32.ofNat offset)).counter ==
          s.rxCounter + UInt32.ofNat offset with
    | some offset =>
      let trial := s.rxCounter + UInt32.ofNat offset
      (true, trialPayload P s data trial,
        (s.setRxCounter (trial + 1)).countTemp fun t =>
          { t with
            tempCounterResync := if offset ≠ 0 then t.tempCounterResync + 1 else t.tempCounterResync
            tempRxOk := t.tempRxOk + 1 })
    | none =>
      (false, out, s.countTemp fun t => { t with tempRxFail := t.tempRxFail + 1 })

abbrev pqcMetricsReportLen : ℕ := 26

/-- `pqc_metrics_report_t`. -/
structure MetricsReport where
  version : UInt8
  group : ℕ
  seq : UInt32
  uptimeTicks : UInt32
  value : Fin 4 → UInt32

/-- `write_u32`, most significant byte first. -/
def writeU32 (value : UInt32) : Bytes :=
  [(value >>> 24).toUInt8, (value >>> 16).toUInt8, (value >>> 8).toUInt8, value.toUInt8]

def readU32 (buf : Bytes) (i : ℕ) : UInt32 :=
  (byteAt buf i).toUInt32 <<< 24 ||| (byteAt buf (i + 1)).toUInt32 <<< 16 |||
    (byteAt buf (i + 2)).toUInt32 <<< 8 ||| (byteAt buf (i + 3)).toUInt32

namespace MetricsSnapshot

/-- The four values of a report group; `none` for a group that does not exist. -/
def groupValues (m : MetricsSnapshot) : ℕ → Option (Fin 4 → UInt32)
  | 1 => some ![m.handshake.handshakeTicksLast, m.handshake.success, m.handshake.failure,
      m.handshake.attempts]
  | 2 => some ![m.handshake.pkTxTicksLast, m.handshake.pkRxTicksLast, m.handshake.pkTx,
      m.handshake.pkRxComplete]
  | 3 => some ![m.handshake.ctTxTicksLast, m.handshake.ctRxTicksLast, m.handshake.ctTx,
      m.handshake.ctRxComplete]
  | 4 => some ![m.handshake.keypairTicksLast, m.handshake.encapsTicksLast,
      m.handshake.decapsTicksLast, m.handshake.ackWaitTicksLast]
  | 5 => some ![m.fragmentation.fragmentsTx, m.fragmentation.fragmentsRx, m.fragmentation.nackTx,
      m.fragmentation.nackRx]
  | 6 => some ![m.temp.tempTx, m.temp.tempTxFail, m.temp.tempRxOk, m.temp.tempCounterResync]
  | 7 => some ![m.resource.retries, m.resource.txQueueFull, m.resource.rxSlotFull,
      m.resource.rxSlotTimeout]
  | _ => none

/-- The report, if the group exists, and the snapshot with its sequence number advanced. -/
def pqcMetricsBuildReport (now : ℕ) (group : ℕ) (m : MetricsSnapshot) :
    Option MetricsReport × MetricsSnapshot :=
  match m.groupValues group with
  | none => (none, m)
  | some value =>
    let m := { m with
      version := pqcMetricsSchemaVersion
      seq := m.seq + 1
      uptimeTicks := UInt32.ofNat now }
    (some ⟨m.version, group, m.seq, m.uptimeTicks, value⟩, m)

end MetricsSnapshot

def pqcMetricsEncodeReport (report : MetricsReport) : Bytes :=
  [report.version, UInt8.ofNat report.group] ++ writeU32 report.seq ++
    writeU32 report.uptimeTicks ++ writeU32 (report.value 0) ++ writeU32 (report.value 1) ++
    writeU32 (report.value 2) ++ writeU32 (report.value 3)

def pqcMetricsDecodeReport (buf : Bytes) : Option MetricsReport :=
  let group := (byteAt buf 1).toNat
  if buf.length ≠ pqcMetricsReportLen ∨ byteAt buf 0 ≠ pqcMetricsSchemaVersion ∨ group = 0 ∨
      group > pqcMetricsGroupCount then none
  else
    some ⟨byteAt buf 0, group, readU32 buf 2, readU32 buf 6,
      fun i => readU32 buf (10 + 4 * i.val)⟩

def pqcSendMetricsReport (now : ℕ) (conn : UdpConn) (dest : IpAddr) (group : ℕ) (s : Session)
    (q : TxQueue) : Bool × Session × TxQueue :=
  if !s.sessionIsEstablished ∨ q.pqcTxFreeSlots = 0 then (false, s.mapMetrics .noteTxQueueFull, q)
  else
    let built := s.metrics.pqcMetricsBuildReport now group
    let s := s.mapMetrics fun _ => built.2
    match built.1 with
    | none => (false, s, q)
    | some report =>
      let r := queueSend ⟨some conn, some dest⟩
        (pqcHeaderWrite pqcMsgMetrics s.nodeId s.nextMsgId 0 1 pqcMetricsReportLen pqcFlagNone ++
          pqcMetricsEncodeReport report) q
      if r.1 then (true, s.takeMsgId, r.2)
      else (false, s.takeMsgId.mapMetrics .noteTxQueueFull, r.2)

end PqcContiki
