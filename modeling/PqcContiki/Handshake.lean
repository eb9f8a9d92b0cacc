import PqcContiki.Session
import PqcContiki.Nack

/-!
The handshake state machine of `handshake_fsm.c`. A function that takes a `session_t *` works
on an `Fsm`: the record behind the pointer, the module's statics and the TX queue. The pointer
itself is compared only, as the owner of a reassembly slot.
-/
namespace PqcContiki

abbrev hsRxSlotCount : ℕ := 2

/-- A `session_t *`. -/
inductive SessionRef where
  | localSession
  | sessions (i : Fin sessionMaxNodes)
deriving DecidableEq

/-- `hs_rx_slot_t`. -/
structure RxSlot where
  active : Bool
  owner : Option SessionRef
  startedAt : ℕ
  lastNackAt : ℕ
  lastNackReceivedFrags : ℕ
  lastNackMissingCount : ℕ
  ctx : FragmentRxCtx

def RxSlot.zero : RxSlot := ⟨false, none, 0, 0, 0, 0, fragmentRxInit⟩

/-- The static variables of `handshake_fsm.c`. -/
structure HsStatics where
  rootPk : PublicKey
  rootSk : SecretKey
  rootHasKeypair : Bool
  nodeCt : Ciphertext
  rootCt : Ciphertext
  rxSlots : Fin hsRxSlotCount → RxSlot

def HsStatics.zero : HsStatics where
  rootPk := Buffer.zero _
  rootSk := Buffer.zero _
  rootHasKeypair := false
  nodeCt := Buffer.zero _
  rootCt := Buffer.zero _
  rxSlots := fun _ => RxSlot.zero

/-- A ciphertext buffer after `crypto_worker_secure_zero`. -/
def zeroCt : Ciphertext := Buffer.zero _

structure Fsm where
  s : Session
  hs : HsStatics
  tx : TxQueue
  obs : List Observation

namespace HsStatics

@[simps] def setNodeCt (ct : Ciphertext) (hs : HsStatics) : HsStatics := { hs with nodeCt := ct }

@[simps] def setRootCt (ct : Ciphertext) (hs : HsStatics) : HsStatics := { hs with rootCt := ct }

@[simps] def setSlot (i : Fin hsRxSlotCount) (slot : RxSlot) (hs : HsStatics) : HsStatics :=
  { hs with rxSlots := Function.update hs.rxSlots i slot }

def slotExpired (P : Platform) (now : ℕ) (slot : RxSlot) : Bool :=
  slot.active && decide (P.clockSub now slot.startedAt > P.hsRxTimeout)

def rxSlotsGc (P : Platform) (now : ℕ) (hs : HsStatics) : HsStatics :=
  { hs with
    rxSlots := fun i => if slotExpired P now (hs.rxSlots i) then RxSlot.zero else hs.rxSlots i }

/-- The test every slot loop makes. -/
def owns (me : SessionRef) (slot : RxSlot) : Bool := slot.active && slot.owner == some me

def rxSlotFind (me : SessionRef) (hs : HsStatics) : Option (Fin hsRxSlotCount) :=
  (List.finRange hsRxSlotCount).find? fun i => owns me (hs.rxSlots i)

/-- The slot of a session, allocated if need be. Reads the clock for the collection and for the
start of a new slot. -/
def rxSlotGet (P : Platform) (gcNow now : ℕ) (me : SessionRef) (hs : HsStatics) :
    Option (Fin hsRxSlotCount) × HsStatics :=
  let hs := hs.rxSlotsGc P gcNow
  match hs.rxSlotFind me with
  | some i => (some i, hs)
  | none =>
    match (List.finRange hsRxSlotCount).find? fun i => !(hs.rxSlots i).active with
    | some i => (some i, hs.setSlot i ⟨true, some me, now, 0, 0, 0, fragmentRxInit⟩)
    | none => (none, hs)

def rxSlotTouch (now : ℕ) (me : SessionRef) (hs : HsStatics) : HsStatics :=
  match hs.rxSlotFind me with
  | some i => hs.setSlot i { hs.rxSlots i with startedAt := now }
  | none => hs

def rxSlotRelease (me : SessionRef) (hs : HsStatics) : HsStatics :=
  match hs.rxSlotFind me with
  | some i => hs.setSlot i RxSlot.zero
  | none => hs

/-- Whether a NACK is due after fragment `fragIdx` was stored in slot `i`. -/
def rxSlotNackDue (P : Platform) (now : ℕ) (me : SessionRef) (i : Fin hsRxSlotCount)
    (fragIdx : ℕ) (hs : HsStatics) : Bool :=
  let slot := hs.rxSlots i
  let rx := slot.ctx
  if rx.totalFrags = 0 ∨ !rx.bitmap (rx.totalFrags - 1) then false
  else if !owns me slot then false
  else if slot.lastNackMissingCount = 0 then fragIdx + 1 == rx.totalFrags
  else if rx.receivedFrags ≥ (slot.lastNackReceivedFrags + slot.lastNackMissingCount) % 2 ^ 8 then
    true
  else decide (P.clockSub now slot.lastNackAt ≥ P.hsNackRepeatDelay)

/-- The global key pair, generated unless the root has one. -/
def hsFsmRootInitKeypair (P : Platform) (rnd : Entropy) (hs : HsStatics) : Bool × HsStatics :=
  if hs.rootHasKeypair then (true, hs)
  else
    let r := P.cryptoWorkerKeypair rnd
    (r.1, { hs with rootPk := r.2.1, rootSk := r.2.2, rootHasKeypair := r.1 })

end HsStatics

namespace Fsm

@[simps] def mapS (g : Session → Session) (f : Fsm) : Fsm := { f with s := g f.s }

@[simps] def mapHs (g : HsStatics → HsStatics) (f : Fsm) : Fsm := { f with hs := g f.hs }

@[simps] def setTx (q : TxQueue) (f : Fsm) : Fsm := { f with tx := q }

@[simps] def observe (o : Observation) (f : Fsm) : Fsm := { f with obs := o :: f.obs }

def rxSlotsGc (P : Platform) (now : ℕ) (f : Fsm) : Fsm := f.mapHs (HsStatics.rxSlotsGc P now)

def rxSlotRelease (me : SessionRef) (f : Fsm) : Fsm := f.mapHs (HsStatics.rxSlotRelease me)

def setFailed (P : Platform) (now : ℕ) (f : Fsm) : Fsm := f.mapS (Session.sessionSetFailed P now)

def zeroNodeCt (f : Fsm) : Fsm := f.mapHs (HsStatics.setNodeCt zeroCt)

def zeroRootCt (f : Fsm) : Fsm := f.mapHs (HsStatics.setRootCt zeroCt)

def rxSlotNoteNack (P : Platform) (now : ℕ) (me : SessionRef) (i : Fin hsRxSlotCount)
    (missingCount : ℕ) (f : Fsm) : Fsm :=
  let slot := f.hs.rxSlots i
  if missingCount = 0 ∨ !HsStatics.owns me slot then f
  else
    (f.mapHs (HsStatics.setSlot i
      { slot with
        lastNackAt := now
        lastNackReceivedFrags := slot.ctx.receivedFrags
        lastNackMissingCount := missingCount })).mapS
      (Session.setRetryDeadline (P.clockAdd now P.hsNackRepeatDelay))

def txHasRoomFor (len : ℕ) (f : Fsm) : Bool :=
  fragmentTxCount len != 0 && decide (f.tx.pqcTxFreeSlots ≥ fragmentTxCount len)

end Fsm

def hsTransferExtra (P : Platform) (transferLen : ℕ) : ℕ :=
  P.hsResponseGrace + fragmentTxCount transferLen * P.sendInterval

/-- The deadline of a transfer: the timeout and the time the fragments need to leave. -/
def hsTransferDeadline (P : Platform) (now transferLen : ℕ) : ℕ :=
  P.clockAdd now (P.sessionRetryTimeout + hsTransferExtra P transferLen)

namespace Session

@[simps!] def hsSetPendingForTransfer (P : Platform) (now : ℕ) (msgType msgId : UInt8)
    (transferLen : ℕ) (s : Session) : Session :=
  (s.sessionSetPending P now msgType msgId).setRetryDeadline (hsTransferDeadline P now transferLen)

/-- One more retry, counted in the session and in its metrics. -/
@[simps] def markRetry (deadline : ℕ) (s : Session) : Session :=
  { s with
    retryCount := (s.retryCount + 1) % 2 ^ 8
    metrics := s.metrics.noteRetry
    retryDeadline := deadline }

def hsMarkRetryForTransfer (P : Platform) (now transferLen : ℕ) (s : Session) : Session :=
  s.markRetry (hsTransferDeadline P now transferLen)

def hsMarkRxRetry (P : Platform) (now : ℕ) (s : Session) : Session :=
  s.markRetry (P.clockAdd now P.sessionRetryTimeout)

end Session

/-- `pqc_udp_send_fragment` with context `dst`, as the `send_fn` of every send. -/
def queueSend (dst : UdpSendCtx) (p : Bytes) (q : TxQueue) : Bool × TxQueue :=
  q.pqcUdpSendFragment (some p) (some dst)

def sendFragmentSlice {σ : Type*} (data : Bytes) (msgType : UInt8) (nodeId : UInt16)
    (msgId : UInt8) (fragIdx totalFrags : ℕ) (flags : UInt8)
    (sendFn : Bytes → σ → Bool × σ) (user : σ) : Bool × σ :=
  if data.length = 0 ∨ totalFrags = 0 ∨ fragIdx ≥ totalFrags then (false, user)
  else
    let offset := fragIdx * fragMaxPayloadLen
    if offset ≥ data.length then (false, user)
    else
      let remaining := data.length - offset
      let fragLen := if remaining > fragMaxPayloadLen then fragMaxPayloadLen else remaining
      sendFn (pqcHeaderWrite msgType nodeId msgId fragIdx totalFrags fragLen flags ++
        (data.drop offset).take fragLen) user

/-- The retransmission loop, which gives up at the first slice that cannot be sent. -/
def sendSlices {σ : Type*} (data : Bytes) (msgType : UInt8) (nodeId : UInt16) (msgId : UInt8)
    (totalFrags : ℕ) (flags : UInt8) (sendFn : Bytes → σ → Bool × σ) :
    List ℕ → σ → Bool × σ
  | [], user => (true, user)
  | i :: is, user =>
    let r := sendFragmentSlice data msgType nodeId msgId i totalFrags flags sendFn user
    if r.1 then sendSlices data msgType nodeId msgId totalFrags flags sendFn is r.2
    else (false, r.2)

namespace Fsm

/-- `fragment_tx` into the TX queue. -/
def fragmentTx (dst : UdpSendCtx) (data : Bytes) (msgType msgId flags : UInt8) (f : Fsm) :
    Bool × Fsm :=
  let r := PqcContiki.fragmentTx data msgType f.s.nodeId msgId flags (queueSend dst) f.tx
  (r.1, f.setTx r.2)

def sendAck (dst : UdpSendCtx) (confirmedMsgId : UInt8) (f : Fsm) : Bool × Fsm :=
  if !f.txHasRoomFor 1 then (false, f)
  else
    let ackMsgId := f.s.nextMsgId
    let r := (f.mapS fun s => s.takeMsgId.mapMetrics .noteAckTx).fragmentTx dst [confirmedMsgId]
      pqcMsgAck ackMsgId pqcFlagNone
    if r.1 then
      (true, r.2.observe (.ack f.s.nodeId
        (fragmentTxPacket [confirmedMsgId] pqcMsgAck f.s.nodeId ackMsgId pqcFlagNone 1 0) f.s.ss))
    else r

/-- Returns the number of fragments the NACK for slot `i` asks for, 0 if none was sent. -/
def sendNack (dst : UdpSendCtx) (i : Fin hsRxSlotCount) (f : Fsm) : ℕ × Fsm :=
  let built := pqcNackBuildFromRx (f.hs.rxSlots i).ctx (pqcNackInit 0 0 0) pqcNackMaxMissing
  if built.1 = 0 then (0, f)
  else
    match pqcNackEncode built.2 pqcNackMaxPayloadLen with
    | none => (0, f)
    | some payload =>
      if !f.txHasRoomFor payload.length then (0, f)
      else
        let r := (f.mapS fun s => s.takeMsgId.mapMetrics .noteNackTx).fragmentTx dst payload
          pqcMsgNack f.s.nextMsgId pqcFlagNone
        if r.1 then (built.2.missingCount, r.2) else (0, r.2)

/-- The message a NACK can ask for: the key at the root, the ciphertext at the node. -/
def nackSource (f : Fsm) : Option Bytes :=
  if f.s.sessionIsRoot ∧ f.s.pendingMsgType = pqcMsgPk then some f.hs.rootPk.toList
  else if f.s.sessionIsNode ∧ f.s.pendingMsgType = pqcMsgCt then some f.hs.nodeCt.toList
  else none

def retransmitNackFragments (P : Platform) (now : ℕ) (dst : UdpSendCtx) (nack : PqcNack)
    (f : Fsm) : Bool × Fsm :=
  let f := f.mapS (Session.mapMetrics .noteNackRx)
  if nack.missingMsgId ≠ f.s.pendingMsgId ∨ nack.missingMsgType ≠ f.s.pendingMsgType then
    (false, f)
  else
    match f.nackSource with
    | none => (false, f)
    | some data =>
      let expectedFrags := fragmentTxCount data.length
      if expectedFrags = 0 ∨ nack.totalFrags ≠ expectedFrags then (false, f)
      else if f.tx.pqcTxFreeSlots < nack.missingCount then
        (true, f.mapS (Session.setRetryDeadline (P.clockAdd now P.hsRetryTxDrainDelay)))
      else
        let r := sendSlices data nack.missingMsgType f.s.nodeId nack.missingMsgId expectedFrags
          pqcFlagRetry (queueSend dst) nack.indices f.tx
        if !r.1 then (false, f.setTx r.2)
        else
          (true, (f.setTx r.2).mapS fun s =>
            (s.mapMetrics (.noteRecovered nack.missingCount)).setRetryDeadline
              (hsTransferDeadline P now data.length))

/-- The GETPK a node repeats while it waits for the key. -/
def sendGetpkRetry (dst : UdpSendCtx) (f : Fsm) : Bool × Fsm :=
  let r := queueSend dst
    (pqcHeaderWrite pqcMsgGetpk f.s.nodeId f.s.pendingMsgId 0 1 0 pqcFlagRetry) f.tx
  (r.1, f.setTx r.2)

/-- The root's session waits for the ciphertext and its PK fragments are queued. -/
def sendPk (P : Platform) (clk : Clock) (dst : UdpSendCtx) (f : Fsm) : Bool × Fsm :=
  let msgId := f.s.nextMsgId
  let r := (f.mapS fun s =>
    (s.takeMsgId.sessionSetWaitCt.hsSetPendingForTransfer P (clk 5) pqcMsgPk msgId
      cwHqcPublicKeyLen).mapMetrics
        (.notePkTx (clk 6) (fragmentTxCount cwHqcPublicKeyLen))).fragmentTx
    dst f.hs.rootPk.toList pqcMsgPk msgId pqcFlagNone
  if !r.1 then (false, r.2.setFailed P (clk 7))
  else (true, r.2.mapS (Session.mapMetrics (.notePkQueued P (clk 8))))

def hsFsmStart (P : Platform) (clk : Clock) (rnd : Entropy) (dst : UdpSendCtx) (f : Fsm) :
    Bool × Fsm :=
  let f := f.rxSlotsGc P (clk 0)
  match f.s.role with
  | .root =>
    let f := f.mapS (Session.mapMetrics (.pqcMetricsHandshakeStart (clk 1)))
    let keypairStartedAt := if f.hs.rootHasKeypair then 0 else clk 2
    let r := f.hs.hsFsmRootInitKeypair P rnd
    let f := f.mapHs fun _ => r.2
    if !r.1 then (false, f.setFailed P (clk 3))
    else
      let f := f.mapS fun s =>
        if keypairStartedAt ≠ 0 then
          s.mapMetrics (.noteKeypair (P.clockSub (clk 4) keypairStartedAt))
        else s
      if !f.txHasRoomFor cwHqcPublicKeyLen then (false, f)
      else f.sendPk P clk dst
  | .node =>
    if f.s.state ≠ .idle ∧ f.s.state ≠ .waitPk then (false, f)
    else (true, f.mapS Session.sessionSetWaitPk)

end Fsm

end PqcContiki
