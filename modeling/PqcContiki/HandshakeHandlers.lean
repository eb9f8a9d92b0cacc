import PqcContiki.Handshake

/-!
`hs_fsm_handle_fragment` and `hs_fsm_retry`. The clock readings of one call are numbered in
program order, and `rnd` is the randomness of the KEM call, if it makes one.
-/
namespace PqcContiki

/-- The buffer of a complete message read as the array a KEM function expects. -/
def rxArray (len : ℕ) (ctx : FragmentRxCtx) : Buffer len := ⟨fun i => ctx.buffer i⟩

namespace Session

/-- A node that does not know its id takes the one of the packet. -/
def adoptNodeId (nodeId : UInt16) (s : Session) : Session :=
  if s.sessionIsNode ∧ s.nodeId = sessionInvalidNodeId then s.setNodeId nodeId else s

theorem adoptNodeId_self (s : Session) : s.adoptNodeId s.nodeId = s := by
  unfold adoptNodeId
  split <;> rfl

theorem adoptNodeId_cases (nodeId : UInt16) (s : Session) :
    s.adoptNodeId nodeId = s ∨ s.adoptNodeId nodeId = s.setNodeId nodeId := by
  unfold adoptNodeId
  split
  · exact Or.inr rfl
  · exact Or.inl rfl

end Session

namespace Fsm

variable (P : Platform) (me : SessionRef) (clk : Clock) (rnd : Entropy) (dst : UdpSendCtx)

/-- The node starts to wait for the acknowledgement and queues its ciphertext. -/
def sendCt (f : Fsm) : Bool × Fsm :=
  let msgId := f.s.nextMsgId
  let r := (f.mapS fun s =>
    (s.sessionClearPending.takeMsgId.sessionSetWaitAck.hsSetPendingForTransfer P (clk 9) pqcMsgCt
      msgId cwHqcCiphertextLen).mapMetrics
      (.noteCtTx (clk 10) (fragmentTxCount cwHqcCiphertextLen))).fragmentTx
    dst f.hs.nodeCt.toList pqcMsgCt msgId pqcFlagNone
  if !r.1 then (false, r.2.zeroNodeCt.setFailed P (clk 11))
  else (true, r.2.mapS (Session.mapMetrics (.noteCtQueued P (clk 12))))

def completePk (ctx : FragmentRxCtx) (f : Fsm) : Bool × Fsm :=
  if fragmentRxLen ctx ≠ cwHqcPublicKeyLen then
    (false, (f.setFailed P (clk 3)).rxSlotRelease me)
  else
    let f := f.mapS (Session.mapMetrics (.notePkRx P (clk 3) (clk 4)))
    let pk : PublicKey := rxArray _ ctx
    let r := P.cryptoWorkerEncapsulate rnd pk
    let f := ((f.mapHs (HsStatics.setNodeCt r.2.1)).mapS
      (Session.setSs r.2.2)).observe (.encapsulate f.s.nodeId pk r.1 r.2.1 r.2.2)
    if !r.1 then (false, (f.setFailed P (clk 6)).rxSlotRelease me)
    else
      let f := (f.mapS fun s =>
        (s.mapMetrics (.noteEncaps (P.clockSub (clk 7) (clk 5)))).setAesKey
          (P.cryptoWorkerDeriveAesKey s.ss)).rxSlotRelease me
      if !f.txHasRoomFor cwHqcCiphertextLen then (false, f.zeroNodeCt.setFailed P (clk 8))
      else f.sendCt P clk dst

def completeAck (ctx : FragmentRxCtx) (f : Fsm) : Bool × Fsm :=
  if fragmentRxLen ctx ≠ 1 ∨ ctx.buffer 0 ≠ f.s.pendingMsgId then (false, f.rxSlotRelease me)
  else
    let f := f.mapS fun s =>
      (s.sessionSetEstablished.mapMetrics (.noteAckRx P (clk 3) (clk 4))).mapMetrics
        (.pqcMetricsHandshakeSuccess P (clk 5))
    (true, f.zeroNodeCt.rxSlotRelease me)

/-- The root decapsulates what it copied into `root_ct` and wiped from the slot. -/
def decapsulateCt (msgId : UInt8) (f : Fsm) : Bool × Fsm :=
  let r := P.cryptoWorkerDecapsulate f.hs.rootSk f.hs.rootCt
  let f := (f.mapS (Session.setSs r.2)).observe
    (.decapsulate f.s.nodeId f.hs.rootCt r.1 r.2)
  if !r.1 then (false, (f.setFailed P (clk 6)).zeroRootCt)
  else
    let f := f.zeroRootCt.mapS fun s =>
      ((s.mapMetrics (.noteDecaps (P.clockSub (clk 7) (clk 5)))).setAesKey
        (P.cryptoWorkerDeriveAesKey s.ss)).sessionSetEstablished.mapMetrics
          (.pqcMetricsHandshakeSuccess P (clk 8))
    f.sendAck dst msgId

def completeCt (msgId : UInt8) (ctx : FragmentRxCtx) (f : Fsm) : Bool × Fsm :=
  if fragmentRxLen ctx ≠ cwHqcCiphertextLen then
    (false, (f.setFailed P (clk 3)).rxSlotRelease me)
  else
    let f := f.mapS (Session.mapMetrics (.noteCtRx P (clk 3) (clk 4)))
    let f := (f.mapHs (HsStatics.setRootCt (rxArray _ ctx))).rxSlotRelease me
    if f.s.sessionIsEstablished then f.zeroRootCt.sendAck dst msgId
    else if f.s.state ≠ .waitCt then (false, f.zeroRootCt)
    else if !f.hs.rootHasKeypair then (false, (f.setFailed P (clk 5)).zeroRootCt)
    else f.decapsulateCt P clk dst msgId

def completeMessage (h : FragmentHeader) (ctx : FragmentRxCtx) (f : Fsm) : Bool × Fsm :=
  if f.s.sessionIsNode ∧ h.msgType = pqcMsgPk then f.completePk P me clk rnd dst ctx
  else if f.s.sessionIsNode ∧ h.msgType = pqcMsgAck then f.completeAck P me clk ctx
  else if f.s.sessionIsRoot ∧ h.msgType = pqcMsgCt then f.completeCt P me clk dst h.msgId ctx
  else (false, f.rxSlotRelease me)

/-- The answer to a fragment that leaves the message incomplete: a NACK, if one is due. -/
def requestMissing (i : Fin hsRxSlotCount) (fragIdx : ℕ) (f : Fsm) : Fsm :=
  if f.hs.rxSlotNackDue P (clk 3) me i fragIdx then
    let r := f.sendNack dst i
    r.2.rxSlotNoteNack P (clk 4) me i r.1
  else f

/-- A fragment goes into the reassembly slot of its session. -/
def storeFragment (h : FragmentHeader) (payload : Bytes) (f : Fsm) : Bool × Fsm :=
  let slot := f.hs.rxSlotGet P (clk 1) (clk 2) me
  let f := f.mapHs fun _ => slot.2
  match slot.1 with
  | none => (false, f)
  | some i =>
    let r := fragmentRxAdd (f.hs.rxSlots i).ctx h.msgType h.nodeId h.msgId h.fragIdx h.totalFrags
      payload
    if !r.1 then (false, f)
    else
      let f := (f.mapHs fun hs => hs.setSlot i { hs.rxSlots i with ctx := r.2 }).mapS
        (Session.mapMetrics .noteFragmentRx)
      if !fragmentRxComplete r.2 then (true, f.requestMissing P me clk dst i h.fragIdx)
      else f.completeMessage P me clk rnd dst h r.2

def handleNack (h : FragmentHeader) (payload : Bytes) (f : Fsm) : Bool × Fsm :=
  if h.fragIdx ≠ 0 ∨ h.totalFrags ≠ 1 then (false, f)
  else
    match pqcNackDecode payload with
    | none => (false, f)
    | some nack => f.retransmitNackFragments P (clk 1) dst nack

/-- A fragment whose header is well formed and names the session's node. -/
def handleParsed (h : FragmentHeader) (payload : Bytes) (f : Fsm) : Bool × Fsm :=
  let s := f.s
  if s.sessionIsNode ∧ h.msgType = pqcMsgPk ∧
      (s.state ≠ .waitPk ∨ s.pendingMsgType ≠ pqcMsgGetpk) then (false, f)
  else if s.sessionIsNode ∧ h.msgType = pqcMsgAck ∧
      (s.state ≠ .waitAck ∨ s.pendingMsgType ≠ pqcMsgCt) then (false, f)
  else if s.sessionIsRoot ∧ s.sessionIsEstablished ∧ h.msgType = pqcMsgCt then
    -- the root confirms again, whatever the fragment carries
    (true, if h.fragIdx = 0 ∨ h.fragIdx + 1 = h.totalFrags then (f.sendAck dst h.msgId).2 else f)
  else if s.sessionIsRoot ∧ h.msgType = pqcMsgCt ∧ s.state ≠ .waitCt then (false, f)
  else if h.msgType = pqcMsgNack then f.handleNack P clk dst h payload
  else f.storeFragment P me clk rnd dst h payload

def hsFsmHandleFragment (data : Bytes) (f : Fsm) : Bool × Fsm :=
  let f := f.rxSlotsGc P (clk 0)
  match parseFragmentHeader data with
  | none => (false, f)
  | some h =>
    if f.s.sessionIsRoot ∧ f.s.nodeId ≠ h.nodeId then (false, f)
    else if f.s.sessionIsNode ∧ f.s.nodeId ≠ sessionInvalidNodeId ∧ f.s.nodeId ≠ h.nodeId then
      (false, f)
    else (f.mapS (Session.adoptNodeId h.nodeId)).handleParsed P me clk rnd dst h (h.payload data)

/-- The root's retry while a ciphertext is on its way: ask for the rest of it. -/
def retryCtReceive (f : Fsm) : Bool × Fsm :=
  let fail (f : Fsm) : Bool × Fsm := (false, (f.setFailed P (clk 8)).rxSlotRelease me)
  match f.hs.rxSlotFind me with
  | none => fail f
  | some i =>
    let rx := (f.hs.rxSlots i).ctx
    if rx.active ∧ !fragmentRxComplete rx then
      let r := f.sendNack dst i
      if r.1 ≠ 0 then
        (true, ((r.2.mapHs (HsStatics.rxSlotTouch (clk 4) me)).rxSlotNoteNack P (clk 5) me i
          r.1).mapS (Session.hsMarkRxRetry P (clk 6)))
      else fail r.2
    else fail f

/-- Send a whole message once more, under the id it has. -/
def retryTransfer (data : Bytes) (msgType : UInt8) (f : Fsm) : Bool × Fsm :=
  if !f.txHasRoomFor data.length then
    (true, f.mapS (Session.setRetryDeadline (P.clockAdd (clk 4) P.hsRetryTxDrainDelay)))
  else
    let r := f.fragmentTx dst data msgType f.s.pendingMsgId pqcFlagRetry
    (r.1, if r.1 then r.2.mapS (Session.hsMarkRetryForTransfer P (clk 5) data.length) else r.2)

/-- A retry that is due, with the queue empty and the budget not spent. -/
def retryPending (f : Fsm) : Bool × Fsm :=
  if f.s.sessionIsRoot ∧ f.s.pendingMsgType = pqcMsgCt then f.retryCtReceive P me clk dst
  else
    let f := f.rxSlotRelease me
    if f.s.sessionIsNode ∧ f.s.pendingMsgType = pqcMsgGetpk then
      let r := f.sendGetpkRetry dst
      (r.1, if r.1 then r.2.mapS (Session.hsMarkRetryForTransfer P (clk 4) pqcHeaderLen) else r.2)
    else if f.s.sessionIsRoot ∧ f.s.pendingMsgType = pqcMsgPk then
      if !f.hs.rootHasKeypair then (false, f.setFailed P (clk 3))
      else f.retryTransfer P clk dst f.hs.rootPk.toList pqcMsgPk
    else if f.s.sessionIsNode ∧ f.s.pendingMsgType = pqcMsgCt then
      f.retryTransfer P clk dst f.hs.nodeCt.toList pqcMsgCt
    else (false, f.observe (.retryWithoutPending f.s.nodeId))

def hsFsmRetry (f : Fsm) : Bool × Fsm :=
  let f := f.rxSlotsGc P (clk 0)
  if !f.s.sessionRetryDue (clk 1) then (true, f)
  else if f.tx.pqcTxHasPending then
    (true, f.mapS (Session.setRetryDeadline (P.clockAdd (clk 2) P.hsRetryTxDrainDelay)))
  else if !f.s.sessionCanRetry then
    let f := (f.setFailed P (clk 3)).rxSlotRelease me
    (false, if f.s.sessionIsNode then f.zeroNodeCt else f)
  else f.retryPending P me clk dst

end Fsm

end PqcContiki
