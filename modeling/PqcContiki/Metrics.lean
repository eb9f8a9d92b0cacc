import PqcContiki.Platform

/-! The metrics a session keeps (`metrics_schema.h`) and their updates (`metrics.c`). -/
namespace PqcContiki

abbrev pqcMetricsSchemaVersion : UInt8 := 1

/-- `pqc_metrics_handshake_t`. -/
structure HandshakeMetrics where
  attempts : UInt32
  success : UInt32
  failure : UInt32
  getpkTx : UInt32
  getpkRx : UInt32
  pkTx : UInt32
  pkRxComplete : UInt32
  ctTx : UInt32
  ctRxComplete : UInt32
  ackTx : UInt32
  ackRx : UInt32
  handshakeStartedAt : UInt32
  pkTxStartedAt : UInt32
  pkRxCompletedAt : UInt32
  ctTxStartedAt : UInt32
  ctRxStartedAt : UInt32
  ctRxCompletedAt : UInt32
  ackRxAt : UInt32
  pkTxTicksLast : UInt32
  pkRxTicksLast : UInt32
  ctTxTicksLast : UInt32
  ctRxTicksLast : UInt32
  ackWaitTicksLast : UInt32
  keypairTicksLast : UInt32
  encapsTicksLast : UInt32
  decapsTicksLast : UInt32
  handshakeTicksLast : UInt32
  handshakeTicksMax : UInt32
deriving DecidableEq, Inhabited

/-- `pqc_metrics_fragmentation_t`. The duplicate and reject counters are written nowhere. -/
structure FragmentationMetrics where
  fragmentsTx : UInt32
  fragmentsRx : UInt32
  nackTx : UInt32
  nackRx : UInt32
  nackRounds : UInt32
  nackRecoveredFragments : UInt32
deriving DecidableEq, Inhabited

/-- `pqc_metrics_temp_t`. -/
structure TempMetrics where
  tempTx : UInt32
  tempTxFail : UInt32
  tempRx : UInt32
  tempRxOk : UInt32
  tempRxFail : UInt32
  tempCounterResync : UInt32
deriving DecidableEq, Inhabited

/-- `pqc_metrics_resource_t`, less two counters that no code touches. -/
structure ResourceMetrics where
  txQueueFull : UInt32
  rxSlotFull : UInt32
  rxSlotTimeout : UInt32
  retries : UInt32
deriving DecidableEq, Inhabited

structure MetricsSnapshot where
  version : UInt8
  nodeId : UInt16
  seq : UInt32
  uptimeTicks : UInt32
  handshake : HandshakeMetrics
  fragmentation : FragmentationMetrics
  temp : TempMetrics
  resource : ResourceMetrics
deriving DecidableEq, Inhabited

def HandshakeMetrics.zero : HandshakeMetrics :=
  ⟨0, 0, 0, 0, 0, 0, 0, 0, 0, 0, 0, 0, 0, 0, 0, 0, 0, 0, 0, 0, 0, 0, 0, 0, 0, 0, 0, 0⟩

def MetricsSnapshot.zero : MetricsSnapshot where
  version := 0
  nodeId := 0
  seq := 0
  uptimeTicks := 0
  handshake := HandshakeMetrics.zero
  fragmentation := ⟨0, 0, 0, 0, 0, 0⟩
  temp := ⟨0, 0, 0, 0, 0, 0⟩
  resource := ⟨0, 0, 0, 0⟩

namespace MetricsSnapshot

def pqcMetricsInit (nodeId : UInt16) : MetricsSnapshot :=
  { zero with version := pqcMetricsSchemaVersion, nodeId }

def pqcMetricsSetNodeId (m : MetricsSnapshot) (nodeId : UInt16) : MetricsSnapshot :=
  { m with version := pqcMetricsSchemaVersion, nodeId }

def pqcMetricsElapsedSince (P : Platform) (now : ℕ) (startedAt : UInt32) : UInt32 :=
  UInt32.ofNat (P.clockSub now startedAt.toNat)

def pqcMetricsHandshakeStart (now : ℕ) (m : MetricsSnapshot) : MetricsSnapshot :=
  { m with
    handshake :=
      { m.handshake with
        attempts := m.handshake.attempts + 1
        handshakeStartedAt := UInt32.ofNat now
        pkTxStartedAt := 0
        pkRxCompletedAt := 0
        ctTxStartedAt := 0
        ctRxStartedAt := 0
        ctRxCompletedAt := 0
        ackRxAt := 0
        pkTxTicksLast := 0
        pkRxTicksLast := 0
        ctTxTicksLast := 0
        ctRxTicksLast := 0
        ackWaitTicksLast := 0
        keypairTicksLast := 0
        encapsTicksLast := 0
        decapsTicksLast := 0
        handshakeTicksLast := 0 } }

/-- The duration both outcomes of a handshake record, if its start is known. -/
def recordDuration (P : Platform) (now : ℕ) (m : MetricsSnapshot) : MetricsSnapshot :=
  if m.handshake.handshakeStartedAt = 0 then m
  else
    let elapsed := pqcMetricsElapsedSince P now m.handshake.handshakeStartedAt
    { m with
      handshake :=
        { m.handshake with
          handshakeTicksLast := elapsed
          handshakeTicksMax :=
            if elapsed > m.handshake.handshakeTicksMax then elapsed
            else m.handshake.handshakeTicksMax } }

def pqcMetricsHandshakeSuccess (P : Platform) (now : ℕ) (m : MetricsSnapshot) : MetricsSnapshot :=
  recordDuration P now { m with handshake.success := m.handshake.success + 1 }

def pqcMetricsHandshakeFailure (P : Platform) (now : ℕ) (m : MetricsSnapshot) : MetricsSnapshot :=
  recordDuration P now { m with handshake.failure := m.handshake.failure + 1 }

section Notes

variable (P : Platform) (m : MetricsSnapshot)

def noteGetpkTx : MetricsSnapshot := { m with handshake.getpkTx := m.handshake.getpkTx + 1 }

def noteGetpkRx : MetricsSnapshot := { m with handshake.getpkRx := m.handshake.getpkRx + 1 }

def noteAckTx : MetricsSnapshot := { m with handshake.ackTx := m.handshake.ackTx + 1 }

def noteNackTx : MetricsSnapshot :=
  { m with
    fragmentation.nackTx := m.fragmentation.nackTx + 1
    fragmentation.nackRounds := m.fragmentation.nackRounds + 1 }

def noteNackRx : MetricsSnapshot :=
  { m with fragmentation.nackRx := m.fragmentation.nackRx + 1 }

def noteRecovered (count : ℕ) (m : MetricsSnapshot) : MetricsSnapshot :=
  { m with
    fragmentation.nackRecoveredFragments :=
      m.fragmentation.nackRecoveredFragments + UInt32.ofNat count }

def noteFragmentRx : MetricsSnapshot :=
  { m with fragmentation.fragmentsRx := m.fragmentation.fragmentsRx + 1 }

def noteRetry : MetricsSnapshot := { m with resource.retries := m.resource.retries + 1 }

def noteTxQueueFull : MetricsSnapshot :=
  { m with resource.txQueueFull := m.resource.txQueueFull + 1 }

def noteKeypair (ticks : ℕ) (m : MetricsSnapshot) : MetricsSnapshot :=
  { m with handshake.keypairTicksLast := UInt32.ofNat ticks }

def noteEncaps (ticks : ℕ) (m : MetricsSnapshot) : MetricsSnapshot :=
  { m with handshake.encapsTicksLast := UInt32.ofNat ticks }

def noteDecaps (ticks : ℕ) (m : MetricsSnapshot) : MetricsSnapshot :=
  { m with handshake.decapsTicksLast := UInt32.ofNat ticks }

def notePkTx (now frags : ℕ) (m : MetricsSnapshot) : MetricsSnapshot :=
  { m with
    handshake.pkTx := m.handshake.pkTx + 1
    handshake.pkTxStartedAt := UInt32.ofNat now
    fragmentation.fragmentsTx := m.fragmentation.fragmentsTx + UInt32.ofNat frags }

def notePkQueued (now : ℕ) (m : MetricsSnapshot) : MetricsSnapshot :=
  { m with
    handshake.pkTxTicksLast := pqcMetricsElapsedSince P now m.handshake.pkTxStartedAt }

def noteCtTx (now frags : ℕ) (m : MetricsSnapshot) : MetricsSnapshot :=
  { m with
    handshake.ctTx := m.handshake.ctTx + 1
    handshake.ctTxStartedAt := UInt32.ofNat now
    fragmentation.fragmentsTx := m.fragmentation.fragmentsTx + UInt32.ofNat frags }

def noteCtQueued (now : ℕ) (m : MetricsSnapshot) : MetricsSnapshot :=
  { m with
    handshake.ctTxTicksLast := pqcMetricsElapsedSince P now m.handshake.ctTxStartedAt }

/-- The time since a mark, if that mark was set. -/
def sinceMark (now : ℕ) (mark last : UInt32) : UInt32 :=
  if mark ≠ 0 then pqcMetricsElapsedSince P now mark else last

def notePkRx (now now' : ℕ) (m : MetricsSnapshot) : MetricsSnapshot :=
  { m with
    handshake.pkRxComplete := m.handshake.pkRxComplete + 1
    handshake.pkRxCompletedAt := UInt32.ofNat now
    handshake.pkRxTicksLast :=
      sinceMark P now' m.handshake.handshakeStartedAt m.handshake.pkRxTicksLast }

def noteCtRxStart (now : ℕ) (m : MetricsSnapshot) : MetricsSnapshot :=
  { m with
    handshake.ctRxStartedAt := UInt32.ofNat now
    handshake.ctRxCompletedAt := 0 }

def noteCtRx (now now' : ℕ) (m : MetricsSnapshot) : MetricsSnapshot :=
  { m with
    handshake.ctRxComplete := m.handshake.ctRxComplete + 1
    handshake.ctRxCompletedAt := UInt32.ofNat now
    handshake.ctRxTicksLast :=
      sinceMark P now' m.handshake.ctRxStartedAt m.handshake.ctRxTicksLast }

def noteAckRx (now now' : ℕ) (m : MetricsSnapshot) : MetricsSnapshot :=
  { m with
    handshake.ackRx := m.handshake.ackRx + 1
    handshake.ackRxAt := UInt32.ofNat now
    handshake.ackWaitTicksLast :=
      sinceMark P now' m.handshake.ctTxStartedAt m.handshake.ackWaitTicksLast }

end Notes

end MetricsSnapshot

end PqcContiki
