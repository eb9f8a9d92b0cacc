import PqcContiki.NodeActs
import PqcContiki.RootActs

/-! What the devices hear and do in the concrete runs of later modules. -/
namespace PqcContiki

/-- A packet that asks the root for its key. -/
def getpkFrom (nodeId : UInt16) : Root.Event :=
  .receive (fun _ => 0) 0 nodeId.toNat
    (pqcHeaderWrite pqcMsgGetpk nodeId 0 0 1 0 pqcFlagNone)

namespace Root

/-- A packet that reaches the root from node `nodeId` at time 0. -/
def fromNode (nodeId : UInt16) (data : Bytes) : Event :=
  .receive (fun _ => 0) 0 nodeId.toNat data

/-- Fragment `i` of a ciphertext whose bytes are all `b`. -/
def ctFrom (nodeId : UInt16) (b : UInt8) (i : ℕ) : Event :=
  let fragLen := min fragMaxPayloadLen (cwHqcCiphertextLen - i * fragMaxPayloadLen)
  fromNode nodeId (pqcHeaderWrite pqcMsgCt nodeId 0 i 71 fragLen pqcFlagNone ++
    List.replicate fragLen b)

/-- A handshake in which that ciphertext arrives in order. -/
def handshakeOf (nodeId : UInt16) (b : UInt8) : List Event :=
  getpkFrom nodeId :: (List.range 71).map (ctFrom nodeId b)

/-- A ciphertext without content, which fails the handshake. -/
def emptyCtFrom (nodeId : UInt16) : Event :=
  fromNode nodeId (pqcHeaderWrite pqcMsgCt nodeId 0 0 1 0 pqcFlagNone)

/-- A measurement under the keys that a ciphertext of zeros gives. -/
def tempFrom (nodeId : UInt16) (counter : UInt32) : Event :=
  fromNode nodeId (tempPacket Platform.demo
    ((Session.sessionInit .root nodeId).setTxCounter counter) ⟨0, 0, 0⟩)

/-- A report with its four values. -/
def metricsFrom (nodeId : UInt16) (group : ℕ) (value : Fin 4 → UInt32) : Event :=
  fromNode nodeId
    (pqcHeaderWrite pqcMsgMetrics nodeId 0 0 1 pqcMetricsReportLen pqcFlagNone ++
      pqcMetricsEncodeReport ⟨pqcMetricsSchemaVersion, group, 0, 0, value⟩)

/-- The retry process looks at every session at time 0. -/
def retries : Event := .retry fun _ _ => 0

/-- The root after its boot and these events. -/
def follow (es : List Event) : Root := es.foldl (handle .demo) (boot .demo 0)

end Root

namespace Node

/-- Node 1 asks for the key. -/
def asks : Event := .routing (fun _ => 0) ⟨true, some 5, true⟩

/-- Fragment `i` of a key of zeros. -/
def pkArrives (i : ℕ) : Event :=
  let fragLen := min fragMaxPayloadLen (cwHqcPublicKeyLen - i * fragMaxPayloadLen)
  .receive (fun _ => 0) 7 (pqcHeaderWrite pqcMsgPk 1 0 i 36 fragLen pqcFlagNone ++
    List.replicate fragLen 0)

/-- All fragments of that key, in order. -/
def keyArrives : List Event := (List.range 36).map pkArrives

/-- A key without content, which fails the handshake. -/
def emptyKey : Event :=
  .receive (fun _ => 0) 0 (pqcHeaderWrite pqcMsgPk 1 0 0 1 0 pqcFlagNone)

/-- The acknowledgement of the ciphertext with message id 0. -/
def ackArrives : Event :=
  .receive (fun _ => 0) 0 (pqcHeaderWrite pqcMsgAck 1 0 0 1 1 pqcFlagNone ++ [0])

/-- The retry process at time `now`. -/
def retriesAt (now : ℕ) : Event := .retry (fun _ => now) ⟨true, some 5, true⟩

/-- Node 1 after its boot and these events. -/
def follow (es : List Event) : Node := es.foldl (handle .demo) (boot 1)

end Node

end PqcContiki
