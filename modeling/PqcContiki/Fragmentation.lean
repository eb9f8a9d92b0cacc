import PqcContiki.Protocol
import PqcContiki.Library.Memory

/-! Splitting a message into fragments and putting it together again (`fragmentation.c`). -/
namespace PqcContiki

abbrev fragMaxMessageLen : ℕ := 4608
abbrev fragMaxPayloadLen : ℕ := 64
abbrev fragMaxFrags : ℕ := (fragMaxMessageLen + fragMaxPayloadLen - 1) / fragMaxPayloadLen
abbrev fragHeaderLen : ℕ := pqcHeaderLen

/-- `fragment_rx_ctx_t`. The counters are a `uint8_t` and a `uint16_t`. -/
structure FragmentRxCtx where
  active : Bool
  msgType : UInt8
  nodeId : UInt16
  msgId : UInt8
  totalFrags : ℕ
  receivedFrags : ℕ
  receivedLen : ℕ
  bitmap : ℕ → Bool
  buffer : ℕ → UInt8

/-- The zeroed context that `fragment_rx_init` and `fragment_rx_reset` leave. -/
def fragmentRxInit : FragmentRxCtx where
  active := false
  msgType := 0
  nodeId := 0
  msgId := 0
  totalFrags := 0
  receivedFrags := 0
  receivedLen := 0
  bitmap := fun _ => false
  buffer := fun _ => 0

namespace FragmentRxCtx

/-- The four fields by which a context recognises the fragments of its message. -/
def Matches (ctx : FragmentRxCtx) (msgType : UInt8) (nodeId : UInt16) (msgId : UInt8)
    (totalFrags : ℕ) : Prop :=
  ctx.msgType = msgType ∧ ctx.nodeId = nodeId ∧ ctx.msgId = msgId ∧ ctx.totalFrags = totalFrags

instance (ctx : FragmentRxCtx) (msgType : UInt8) (nodeId : UInt16) (msgId : UInt8)
    (totalFrags : ℕ) : Decidable (ctx.Matches msgType nodeId msgId totalFrags) :=
  inferInstanceAs (Decidable (_ ∧ _ ∧ _ ∧ _))

/-- The first fragment of a message claims an idle context. -/
def claim (ctx : FragmentRxCtx) (msgType : UInt8) (nodeId : UInt16) (msgId : UInt8)
    (totalFrags : ℕ) : FragmentRxCtx :=
  if ctx.active then ctx
  else { ctx with active := true, msgType, nodeId, msgId, totalFrags }

/-- Copy a fragment in and count it, unless its index was filled before. -/
def store (ctx : FragmentRxCtx) (fragIdx : ℕ) (data : Bytes) : FragmentRxCtx :=
  if ctx.bitmap fragIdx then ctx
  else
    { ctx with
      buffer := Memory.blit ctx.buffer (fragIdx * fragMaxPayloadLen) data
      bitmap := Function.update ctx.bitmap fragIdx true
      receivedFrags := (ctx.receivedFrags + 1) % 2 ^ 8
      receivedLen := (ctx.receivedLen + data.length) % 2 ^ 16 }

end FragmentRxCtx

/-- The bounds `fragment_rx_add` checks before it looks at the context. -/
def FragmentInBounds (fragIdx totalFrags len : ℕ) : Prop :=
  totalFrags ≠ 0 ∧ fragIdx < totalFrags ∧ totalFrags ≤ fragMaxFrags ∧ len ≤ fragMaxPayloadLen ∧
    fragIdx * fragMaxPayloadLen + len ≤ fragMaxMessageLen

instance (fragIdx totalFrags len : ℕ) : Decidable (FragmentInBounds fragIdx totalFrags len) :=
  inferInstanceAs (Decidable (_ ∧ _ ∧ _ ∧ _ ∧ _))

def fragmentRxAdd (ctx : FragmentRxCtx) (msgType : UInt8) (nodeId : UInt16) (msgId : UInt8)
    (fragIdx totalFrags : ℕ) (data : Bytes) : Bool × FragmentRxCtx :=
  if ¬ FragmentInBounds fragIdx totalFrags data.length then (false, ctx)
  else if ctx.active ∧ ¬ ctx.Matches msgType nodeId msgId totalFrags then (false, ctx)
  else (true, (ctx.claim msgType nodeId msgId totalFrags).store fragIdx data)

def fragmentRxComplete (ctx : FragmentRxCtx) : Bool :=
  ctx.active && ctx.receivedFrags == ctx.totalFrags

/-- The buffer of a complete message; `none` is the null pointer. -/
def fragmentRxData (ctx : FragmentRxCtx) : Option (ℕ → UInt8) :=
  if fragmentRxComplete ctx then some ctx.buffer else none

def fragmentRxLen (ctx : FragmentRxCtx) : ℕ :=
  if fragmentRxComplete ctx then ctx.receivedLen else 0

def fragmentTxCount (len : ℕ) : ℕ :=
  if len = 0 then 0
  else
    let totalFrags := (len + fragMaxPayloadLen - 1) / fragMaxPayloadLen
    if totalFrags = 0 ∨ totalFrags > fragMaxFrags then 0 else totalFrags

/-- Header and payload of fragment `fragIdx`, as one pass of the send loop writes them. -/
def fragmentTxPacket (data : Bytes) (msgType : UInt8) (nodeId : UInt16) (msgId flags : UInt8)
    (totalFrags fragIdx : ℕ) : Bytes :=
  let offset := fragIdx * fragMaxPayloadLen
  let remaining := data.length - offset
  let fragLen := if remaining > fragMaxPayloadLen then fragMaxPayloadLen else remaining
  pqcHeaderWrite msgType nodeId msgId fragIdx totalFrags fragLen flags ++
    (data.drop offset).take fragLen

/-- The packets of the send loop from fragment `fragIdx` on, with `n` of them to go. `rest` is what
starts at `&data[offset]`. -/
def fragmentTxPackets (len : ℕ) (msgType : UInt8) (nodeId : UInt16) (msgId flags : UInt8)
    (totalFrags : ℕ) : ℕ → ℕ → Bytes → List Bytes
  | _, 0, _ => []
  | fragIdx, n + 1, rest =>
    let remaining := len - fragIdx * fragMaxPayloadLen
    let fragLen := if remaining > fragMaxPayloadLen then fragMaxPayloadLen else remaining
    (pqcHeaderWrite msgType nodeId msgId fragIdx totalFrags fragLen flags ++ rest.take fragLen) ::
      fragmentTxPackets len msgType nodeId msgId flags totalFrags (fragIdx + 1) n
        (rest.drop fragMaxPayloadLen)

/-- Hand packets to `send_fn` one by one and give up at the first it refuses. -/
def sendAll {σ : Type*} (sendFn : Bytes → σ → Bool × σ) : List Bytes → σ → Bool × σ
  | [], user => (true, user)
  | p :: ps, user =>
    if (sendFn p user).1 then sendAll sendFn ps (sendFn p user).2 else (false, (sendFn p user).2)

def fragmentTx {σ : Type*} (data : Bytes) (msgType : UInt8) (nodeId : UInt16)
    (msgId flags : UInt8) (sendFn : Bytes → σ → Bool × σ) (user : σ) : Bool × σ :=
  if data.length = 0 then (false, user)
  else
    let totalFrags := fragmentTxCount data.length
    if totalFrags = 0 then (false, user)
    else
      sendAll sendFn
        (fragmentTxPackets data.length msgType nodeId msgId flags totalFrags 0 totalFrags data) user

/-- The fields `parse_fragment_header` stores through its out pointers. -/
structure FragmentHeader where
  msgType : UInt8
  nodeId : UInt16
  msgId : UInt8
  fragIdx : ℕ
  totalFrags : ℕ
  fragLen : ℕ
deriving DecidableEq

/-- `parse_fragment_header`, of `handshake_fsm.c`; `none` is its zero return. -/
def parseFragmentHeader (data : Bytes) : Option FragmentHeader :=
  if data.length < fragHeaderLen ∨ byteAt data pqcHdrVersion ≠ pqcProtoVersion then none
  else
    let hdr : FragmentHeader :=
      { msgType := byteAt data pqcHdrMsgType
        nodeId := pqcHeaderGetNodeId data
        msgId := byteAt data pqcHdrMsgId
        fragIdx := (byteAt data pqcHdrFragIdx).toNat
        totalFrags := (byteAt data pqcHdrTotalFrags).toNat
        fragLen := (byteAt data pqcHdrPayloadLen).toNat }
    if hdr.totalFrags = 0 ∨ hdr.totalFrags > fragMaxFrags ∨ hdr.fragIdx ≥ hdr.totalFrags ∨
        hdr.fragLen > fragMaxPayloadLen then none
    else if data.length ≥ fragHeaderLen + hdr.fragLen then some hdr
    else none

/-- The payload that starts at `&data[FRAG_HEADER_LEN]`. -/
def FragmentHeader.payload (hdr : FragmentHeader) (data : Bytes) : Bytes :=
  (data.drop fragHeaderLen).take hdr.fragLen

end PqcContiki
