import PqcContiki.Protocol
import PqcContiki.Library.Memory
import PqcContiki.Library.Ring

/-!
The ring of receive buffers of the radio driver: filled by the receive interrupt, emptied by
the main loop through `read`.
-/
namespace PqcContiki

def rxBufCount : ℕ := 4

instance : NeZero rxBufCount := ⟨by decide⟩

structure RxBuffer where
  rssi : Int16
  lqi : Int16
  len : UInt8
  buf : ℕ → UInt8

def RxBuffer.capacity : ℕ := 128

/-- A packet as `read` hands it out: the bytes, and the attributes that go with them. -/
structure RadioPacket where
  payload : Bytes
  rssi : Int16
  lqi : Int16
  deriving DecidableEq

/-- What the radio library says about the oldest packet it holds. -/
structure RailPacket where
  ready : Bool
  bytes : Bytes
  detailsOk : Bool
  crcPassed : Bool
  rssi : Int16
  lqi : Int16

structure RadioRing where
  rxBuf : Fin rxBufCount → RxBuffer
  nextRead : Fin rxBufCount
  nextWrite : Fin rxBufCount
  radioStage : UInt32

namespace RadioRing

def hasPacket (r : RadioRing) : Bool := (r.rxBuf r.nextRead).len > 0

def getFullRxBuf (r : RadioRing) : Option (Fin rxBufCount) × RadioRing :=
  let nr := r.nextRead
  if (r.rxBuf nr).len > 0 then (some nr, { r with nextRead := r.nextRead + 1 }) else (none, r)

def getEmptyRxBuf (r : RadioRing) : Option (Fin rxBufCount) × RadioRing :=
  let nw := r.nextWrite
  if (r.rxBuf nw).len = 0 then (some nw, { r with nextWrite := r.nextWrite + 1 }) else (none, r)

def freeRxBuf (slot : Fin rxBufCount) (r : RadioRing) : RadioRing :=
  { r with rxBuf := Function.update r.rxBuf slot { r.rxBuf slot with len := 0 } }

/-- The receive interrupt: the oldest packet of the radio library goes into an empty buffer. -/
def moveToRxBuffer (packet : Option RailPacket) (r : RadioRing) : RadioRing :=
  match packet with
  | none => { r with radioStage := 0xE1 }
  | some packet =>
    let rawLen := packet.bytes.length
    if !packet.ready then { r with radioStage := 0xE2 }
    else if rawLen < 1 ∨ RxBuffer.capacity < rawLen then { r with radioStage := 0xE3 }
    else
      let payloadLen := rawLen - 1
      if RxBuffer.capacity < payloadLen then { r with radioStage := 0xE7 }
      else if !packet.detailsOk then { r with radioStage := 0xE4 }
      else if !packet.crcPassed then { r with radioStage := 0xE5 }
      else
        match r.getEmptyRxBuf with
        | (none, r) => { r with radioStage := 0xE6 }
        | (some dest, r) =>
          let copied := Memory.blit (r.rxBuf dest).buf 0 packet.bytes
          -- the first byte is the length byte of the frame
          let moved := if payloadLen > 0 then
              Memory.blit copied 0 ((List.range payloadLen).map fun k => copied (k + 1))
            else copied
          let filled : RxBuffer := {
            rssi := packet.rssi
            lqi := packet.lqi
            len := UInt8.ofNat payloadLen
            buf := moved }
          { r with rxBuf := Function.update r.rxBuf dest filled, radioStage := 0x17 }

end RadioRing

/-- Where the main loop stands inside a call of `read`. -/
inductive RadioReader
  | outside
  | claimed (slot : Fin rxBufCount) (bufsize : UInt16)
  | dropping (slot : Fin rxBufCount)
  | copying (slot : Fin rxBufCount) (len : ℕ) (copied : Bytes)
  | copied (slot : Fin rxBufCount) (packet : RadioPacket)

/-- The driver with the packets that found a buffer and those that `read` returned. -/
structure RadioDriver where
  ring : RadioRing
  reader : RadioReader
  accepted : List RadioPacket
  returned : List RadioPacket

inductive RadioEvent
  | interrupt (packet : Option RailPacket)
  | mainLoop (bufsize : UInt16)

namespace RadioDriver

variable {d : RadioDriver}

/-- The packet that the interrupt is about to store, once it has found a buffer. -/
def stores (packet : Option RailPacket) (r : RadioRing) : Option RadioPacket :=
  packet.bind fun p =>
    if p.ready ∧ 1 ≤ p.bytes.length ∧ p.bytes.length ≤ RxBuffer.capacity ∧ p.detailsOk ∧
        p.crcPassed ∧ r.getEmptyRxBuf.1.isSome then
      some ⟨p.bytes.tail, p.rssi, p.lqi⟩
    else none

def interrupt (packet : Option RailPacket) (d : RadioDriver) : RadioDriver :=
  { d with
    ring := d.ring.moveToRxBuffer packet
    accepted := d.accepted ++ (stores packet d.ring).toList }

/-- One step of `read`, which the interrupt may interleave with anywhere. -/
def read (bufsize : UInt16) (d : RadioDriver) : RadioDriver :=
  match d.reader with
  | .outside =>
    if bufsize = 0 then d
    else
      match d.ring.getFullRxBuf with
      | (none, ring) => { d with ring }
      | (some slot, ring) => { d with ring, reader := .claimed slot bufsize }
  | .claimed slot bufsize =>
    let len := (d.ring.rxBuf slot).len.toNat
    if len > bufsize.toNat then { d with reader := .dropping slot }
    else { d with reader := .copying slot len [] }
  | .dropping slot => { d with ring := d.ring.freeRxBuf slot, reader := .outside }
  | .copying slot len bytes =>
    if bytes.length < len then
      { d with reader := .copying slot len (bytes ++ [(d.ring.rxBuf slot).buf bytes.length]) }
    else
      { d with reader := .copied slot ⟨bytes, (d.ring.rxBuf slot).rssi, (d.ring.rxBuf slot).lqi⟩ }
  | .copied slot packet =>
    { d with
      ring := d.ring.freeRxBuf slot
      reader := .outside
      returned := d.returned ++ [packet] }

def step (d : RadioDriver) : RadioEvent → RadioDriver
  | .interrupt packet => d.interrupt packet
  | .mainLoop bufsize => d.read bufsize

def initial : RadioDriver where
  ring :=
    { rxBuf := fun _ => ⟨0, 0, 0, fun _ => 0⟩, nextRead := 0, nextWrite := 0, radioStage := 0 }
  reader := .outside
  accepted := []
  returned := []

def run (events : List RadioEvent) : RadioDriver := events.foldl step initial

/-- The packets that found a buffer and have something to read. -/
def stored (d : RadioDriver) : List RadioPacket := d.accepted.filter (fun p => p.payload ≠ [])

/-- The reads that have taken a buffer, the one going on included. -/
def taken (d : RadioDriver) : ℕ :=
  d.returned.length + match d.reader with
    | .outside => 0
    | _ => 1

/-- A first-in first-out queue: nothing out of turn, nothing hidden and nothing lost. -/
structure Lossless (d : RadioDriver) : Prop where
  inOrder : d.returned <+: d.stored
  visible : d.taken < d.stored.length → d.ring.hasPacket = true
  drains : ∀ bufsize : UInt16, RxBuffer.capacity ≤ bufsize.toNat →
    ∃ k, ((read bufsize)^[k] d).returned = d.stored

end RadioDriver

end PqcContiki
