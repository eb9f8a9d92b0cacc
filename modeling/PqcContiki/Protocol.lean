import Mathlib

/-! The wire format of `protocol.h`: message types, flags and the ten-byte header. -/
namespace PqcContiki

abbrev Bytes := List UInt8

abbrev pqcProtoVersion : UInt8 := 1

abbrev pqcMsgPk : UInt8 := 1
abbrev pqcMsgCt : UInt8 := 2
abbrev pqcMsgAck : UInt8 := 3
abbrev pqcMsgTemp : UInt8 := 4
abbrev pqcMsgMetrics : UInt8 := 5
abbrev pqcMsgGetpk : UInt8 := 6
abbrev pqcMsgNack : UInt8 := 7

abbrev pqcFlagNone : UInt8 := 0
abbrev pqcFlagRetry : UInt8 := 1

abbrev pqcHeaderLen : ℕ := 10

abbrev pqcHdrVersion : ℕ := 0
abbrev pqcHdrMsgType : ℕ := 1
abbrev pqcHdrNodeIdH : ℕ := 2
abbrev pqcHdrNodeIdL : ℕ := 3
abbrev pqcHdrMsgId : ℕ := 4
abbrev pqcHdrFragIdx : ℕ := 5
abbrev pqcHdrTotalFrags : ℕ := 6
abbrev pqcHdrPayloadLen : ℕ := 7
abbrev pqcHdrFlags : ℕ := 8

/-- The node id of a session that has not learned its own. -/
abbrev sessionInvalidNodeId : UInt16 := 0xffff

/-- The byte a C access `buf[i]` reads. Every access below stands under a length check. -/
def byteAt (buf : Bytes) (i : ℕ) : UInt8 := buf.getD i 0

def pqcHeaderGetNodeId (buf : Bytes) : UInt16 :=
  ((byteAt buf pqcHdrNodeIdH).toUInt16 <<< 8) ||| (byteAt buf pqcHdrNodeIdL).toUInt16

def pqcHeaderValid (buf : Bytes) : Bool :=
  decide (pqcHeaderLen ≤ buf.length) &&
    byteAt buf pqcHdrVersion == pqcProtoVersion &&
    decide (pqcHeaderLen + (byteAt buf pqcHdrPayloadLen).toNat ≤ buf.length)

/-- The ten bytes `pqc_header_write` stores; the last one is reserved. -/
def pqcHeaderWrite (msgType : UInt8) (nodeId : UInt16) (msgId : UInt8)
    (fragIdx totalFrags payloadLen : ℕ) (flags : UInt8) : Bytes :=
  [pqcProtoVersion, msgType, (nodeId >>> 8).toUInt8, nodeId.toUInt8, msgId,
    UInt8.ofNat fragIdx, UInt8.ofNat totalFrags, UInt8.ofNat payloadLen, flags, 0]

theorem nodeId_bytes (n : UInt16) :
    ((n >>> 8).toUInt8.toUInt16 <<< 8) ||| n.toUInt8.toUInt16 = n := by
  apply UInt16.toNat_inj.mp
  have hn := n.toNat_lt
  have hlow : n.toNat % 256 < 2 ^ 8 := by omega
  have hor := Nat.two_pow_add_eq_or_of_lt hlow (n.toNat / 256)
  have h8 : (8 : UInt16).toNat % 16 = 8 := rfl
  simp only [UInt16.toNat_or, UInt16.toNat_shiftLeft, UInt8.toNat_toUInt16,
    UInt16.toNat_toUInt8, UInt16.toNat_shiftRight, Nat.shiftRight_eq_div_pow,
    Nat.shiftLeft_eq, h8]
  norm_num at hor ⊢
  rw [Nat.mod_eq_of_lt (a := n.toNat / 256) (by omega), Nat.mod_eq_of_lt (by omega),
    Nat.mul_comm, ← hor]
  omega

section Written

variable {msgType msgId flags : UInt8} {nodeId : UInt16} {fragIdx totalFrags payloadLen : ℕ}
  {payload : Bytes}

@[simp] theorem pqcHeaderWrite_length :
    (pqcHeaderWrite msgType nodeId msgId fragIdx totalFrags payloadLen flags).length =
      pqcHeaderLen := rfl

@[simp] theorem pqcHeaderGetNodeId_write :
    pqcHeaderGetNodeId
      (pqcHeaderWrite msgType nodeId msgId fragIdx totalFrags payloadLen flags ++ payload) =
      nodeId :=
  nodeId_bytes nodeId

@[simp] theorem byteAt_version_write :
    byteAt (pqcHeaderWrite msgType nodeId msgId fragIdx totalFrags payloadLen flags ++ payload)
      pqcHdrVersion = pqcProtoVersion := rfl

@[simp] theorem byteAt_msgType_write :
    byteAt (pqcHeaderWrite msgType nodeId msgId fragIdx totalFrags payloadLen flags ++ payload)
      pqcHdrMsgType = msgType := rfl

@[simp] theorem byteAt_msgId_write :
    byteAt (pqcHeaderWrite msgType nodeId msgId fragIdx totalFrags payloadLen flags ++ payload)
      pqcHdrMsgId = msgId := rfl

@[simp] theorem byteAt_fragIdx_write :
    byteAt (pqcHeaderWrite msgType nodeId msgId fragIdx totalFrags payloadLen flags ++ payload)
      pqcHdrFragIdx = UInt8.ofNat fragIdx := rfl

@[simp] theorem byteAt_totalFrags_write :
    byteAt (pqcHeaderWrite msgType nodeId msgId fragIdx totalFrags payloadLen flags ++ payload)
      pqcHdrTotalFrags = UInt8.ofNat totalFrags := rfl

@[simp] theorem byteAt_payloadLen_write :
    byteAt (pqcHeaderWrite msgType nodeId msgId fragIdx totalFrags payloadLen flags ++ payload)
      pqcHdrPayloadLen = UInt8.ofNat payloadLen := rfl

/-- A header followed by the payload it announces passes the header check. -/
theorem pqcHeaderValid_write (hlen : payload.length = payloadLen) :
    pqcHeaderValid
      (pqcHeaderWrite msgType nodeId msgId fragIdx totalFrags payloadLen flags ++ payload) =
      true := by
  have hmod : payloadLen % 256 ≤ payloadLen := Nat.mod_le _ _
  simp only [pqcHeaderValid, byteAt_version_write, byteAt_payloadLen_write, List.length_append,
    pqcHeaderWrite_length, hlen, UInt8.toNat_ofNat', Bool.and_eq_true, decide_eq_true_eq]
  exact ⟨⟨by omega, rfl⟩, by omega⟩

end Written

end PqcContiki
