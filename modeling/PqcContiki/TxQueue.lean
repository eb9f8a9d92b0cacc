import PqcContiki.Fragmentation

/-! The outgoing packet queue of `PQC.c`: 96 slots shared by every session. -/
namespace PqcContiki

abbrev pqcTxQueueSize : ℕ := 96
abbrev pqcTxMaxPacketLen : ℕ := pqcHeaderLen + fragMaxPayloadLen

abbrev pqcTxPriorityHigh : ℕ := 0
abbrev pqcTxPriorityNormal : ℕ := 1
abbrev pqcTxPriorityLow : ℕ := 2

/-- A `struct simple_udp_connection *`; the queue only stores and compares it. -/
abbrev UdpConn := ℕ

/-- A `uip_ipaddr_t`. -/
abbrev IpAddr := BitVec 128

/-- `pqc_tx_entry_t`. The bytes in use of `data`, whose number is the entry's `len`. -/
structure TxEntry where
  active : Bool
  priority : ℕ
  nodeId : UInt16
  udpConn : Option UdpConn
  dest : IpAddr
  data : Bytes

/-- What `memset` leaves of an entry. -/
def TxEntry.zero : TxEntry where
  active := false
  priority := 0
  nodeId := 0
  udpConn := none
  dest := 0
  data := []

structure TxQueue where
  txQueue : Fin pqcTxQueueSize → TxEntry
  txTail : ℕ
  txCount : ℕ
  txLastNodeId : UInt16

/-- `pqc_udp_send_ctx_t`, with its two pointers. -/
structure UdpSendCtx where
  udpConn : Option UdpConn
  dest : Option IpAddr

/-- A call of `simple_udp_sendto`. -/
structure Datagram where
  udpConn : Option UdpConn
  data : Bytes
  dest : IpAddr
deriving DecidableEq

def pqcTxPriorityForMsg (msgType : UInt8) : ℕ :=
  if msgType = pqcMsgAck ∨ msgType = pqcMsgNack ∨ msgType = pqcMsgGetpk then pqcTxPriorityHigh
  else if msgType = pqcMsgPk ∨ msgType = pqcMsgCt ∨ msgType = pqcMsgTemp then pqcTxPriorityNormal
  else pqcTxPriorityLow

def pqcTxInit : TxQueue where
  txQueue := fun _ => TxEntry.zero
  txTail := 0
  txCount := 0
  txLastNodeId := sessionInvalidNodeId

namespace TxQueue

/-- The slot `checked` places after the tail. -/
def slotAfterTail (q : TxQueue) (checked : ℕ) : Fin pqcTxQueueSize :=
  ⟨(q.txTail + checked) % pqcTxQueueSize, Nat.mod_lt _ (by decide)⟩

def pqcTxFindFreeSlot (q : TxQueue) : Option (Fin pqcTxQueueSize) :=
  ((List.range pqcTxQueueSize).map q.slotAfterTail).find? (fun idx => !(q.txQueue idx).active)

/-- The scan of one priority class. `first` is the first candidate met, kept in case every
candidate is for the node that was served last. -/
def pqcTxScanClass (q : TxQueue) (priority : ℕ) :
    List (Fin pqcTxQueueSize) → Option (Fin pqcTxQueueSize) → Option (Fin pqcTxQueueSize)
  | [], first => first
  | i :: is, first =>
    if !(q.txQueue i).active || (q.txQueue i).priority != priority then
      pqcTxScanClass q priority is first
    else if (q.txQueue i).nodeId ≠ q.txLastNodeId then some i
    else pqcTxScanClass q priority is (first.or (some i))

def pqcTxSelectSlot (q : TxQueue) : Option (Fin pqcTxQueueSize) :=
  [pqcTxPriorityHigh, pqcTxPriorityNormal, pqcTxPriorityLow].findSome? fun priority =>
    pqcTxScanClass q priority (List.finRange pqcTxQueueSize) none

def pqcTxClearEntry (q : TxQueue) (idx : Fin pqcTxQueueSize) : TxQueue :=
  if !(q.txQueue idx).active then q
  else
    { q with
      txQueue := Function.update q.txQueue idx TxEntry.zero
      txCount := q.txCount - 1 }

def pqcTxHasPending (q : TxQueue) : Bool := decide (0 < q.txCount)

def pqcTxFreeSlots (q : TxQueue) : ℕ := pqcTxQueueSize - q.txCount

/-- The loop of the two drop functions: clear every entry `hit` accepts and count them. -/
def dropLoop (hit : TxEntry → Bool) (q : TxQueue) : ℕ × TxQueue :=
  (List.finRange pqcTxQueueSize).foldl
    (fun (dropped, q) i =>
      if hit (q.txQueue i) then (dropped + 1, q.pqcTxClearEntry i) else (dropped, q))
    (0, q)

def pqcTxDrop (nodeId : UInt16) (msgType msgId : UInt8) (q : TxQueue) : ℕ × TxQueue :=
  q.dropLoop fun e =>
    e.active && e.nodeId == nodeId && decide (pqcHeaderLen ≤ e.data.length) &&
      byteAt e.data pqcHdrMsgType == msgType && byteAt e.data pqcHdrMsgId == msgId

def pqcTxDropNode (nodeId : UInt16) (q : TxQueue) : ℕ × TxQueue :=
  q.dropLoop fun e => e.active && e.nodeId == nodeId

/-- Returns the result, the datagram handed to the network if any, and the queue. -/
def pqcTxProcess (q : TxQueue) : Bool × Option Datagram × TxQueue :=
  if q.txCount = 0 then (false, none, q)
  else
    match q.pqcTxSelectSlot with
    | none => (false, none, q)
    | some idx =>
      let entry := q.txQueue idx
      let sent : Option Datagram :=
        if entry.active && entry.udpConn.isSome then
          some ⟨entry.udpConn, entry.data, entry.dest⟩
        else none
      (true, sent,
        { q with
          txLastNodeId := entry.nodeId
          txQueue := Function.update q.txQueue idx TxEntry.zero
          txCount := q.txCount - 1 })

/-- The entry a packet takes in slot `idx`, and the move of the tail behind it. -/
def pqcTxPut (idx : Fin pqcTxQueueSize) (data : Bytes) (conn : UdpConn) (dest : IpAddr)
    (q : TxQueue) : TxQueue :=
  { q with
    txQueue := Function.update q.txQueue idx
      { active := true
        priority := pqcTxPriorityForMsg (byteAt data pqcHdrMsgType)
        nodeId := pqcHeaderGetNodeId data
        udpConn := some conn
        dest := dest
        data := data }
    txTail := (idx.val + 1) % pqcTxQueueSize
    txCount := q.txCount + 1 }

/-- `none` stands for a null pointer, in the packet, the context and its two fields. -/
def pqcUdpSendFragment (data : Option Bytes) (user : Option UdpSendCtx) (q : TxQueue) :
    Bool × TxQueue :=
  match data, user with
  | some data, some ⟨some conn, some dest⟩ =>
    if data.length = 0 ∨ data.length > pqcTxMaxPacketLen ∨ q.txCount ≥ pqcTxQueueSize ∨
        ¬ pqcHeaderValid data then (false, q)
    else
      match q.pqcTxFindFreeSlot with
      | none => (false, q)
      | some idx => (true, q.pqcTxPut idx data conn dest)
  | _, _ => (false, q)

end TxQueue

end PqcContiki
