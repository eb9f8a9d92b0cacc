import PqcContiki.Reassembly

/-! Negative acknowledgements (`nack.c`): building them from a context, and their codec. -/
namespace PqcContiki

open Memory

abbrev pqcNackMaxMissing : ℕ := 16
abbrev pqcNackFixedLen : ℕ := 4
abbrev pqcNackMaxPayloadLen : ℕ := pqcNackFixedLen + pqcNackMaxMissing

/-- `pqc_nack_t`. The first `missingCount` entries of `missing` are in use. -/
structure PqcNack where
  missingMsgType : UInt8
  missingMsgId : UInt8
  totalFrags : ℕ
  missingCount : ℕ
  missing : ℕ → ℕ

def pqcNackInit (missingMsgType missingMsgId : UInt8) (totalFrags : ℕ) : PqcNack :=
  ⟨missingMsgType, missingMsgId, totalFrags, 0, fun _ => 0⟩

namespace PqcNack

/-- The entries in use. -/
def indices (nack : PqcNack) : List ℕ := (List.range nack.missingCount).map nack.missing

/-- `nack->missing[nack->missing_count++] = i`. -/
def push (nack : PqcNack) (i : ℕ) : PqcNack :=
  { nack with
    missing := Function.update nack.missing nack.missingCount i
    missingCount := nack.missingCount + 1 }

end PqcNack

/-- The scan for missing fragments, which stops at `maxMissing` of them. -/
def pqcNackScan (rx : FragmentRxCtx) (maxMissing limit : ℕ) (nack : PqcNack) : PqcNack :=
  (List.range limit).foldl
    (fun nack i => if nack.missingCount < maxMissing ∧ ¬ rx.bitmap i then nack.push i else nack)
    nack

/-- Returns the number of missing fragments listed and the filled `*nack`. -/
def pqcNackBuildFromRx (rx : FragmentRxCtx) (nack : PqcNack) (maxMissing : ℕ) : ℕ × PqcNack :=
  if !rx.active ∨ rx.totalFrags = 0 then (0, nack)
  else
    let maxMissing :=
      if maxMissing = 0 ∨ maxMissing > pqcNackMaxMissing then pqcNackMaxMissing else maxMissing
    let limit := if rx.totalFrags > fragMaxFrags then fragMaxFrags else rx.totalFrags
    let nack := pqcNackScan rx maxMissing limit (pqcNackInit rx.msgType rx.msgId rx.totalFrags)
    (nack.missingCount, nack)

/-- The payload written; `none` is the zero return. -/
def pqcNackEncode (nack : PqcNack) (payloadMaxLen : ℕ) : Option Bytes :=
  if nack.missingCount = 0 ∨ nack.missingCount > pqcNackMaxMissing then none
  else if payloadMaxLen < pqcNackFixedLen + nack.missingCount then none
  else
    some ([nack.missingMsgType, nack.missingMsgId, UInt8.ofNat nack.totalFrags,
      UInt8.ofNat nack.missingCount] ++ nack.indices.map UInt8.ofNat)

def pqcNackDecode (payload : Bytes) : Option PqcNack :=
  if payload.length < pqcNackFixedLen then none
  else
    let count := (byteAt payload 3).toNat
    let totalFrags := (byteAt payload 2).toNat
    if count = 0 ∨ count > pqcNackMaxMissing ∨ totalFrags = 0 ∨ totalFrags > fragMaxFrags ∨
        payload.length ≠ pqcNackFixedLen + count then none
    else if (List.range count).any fun i =>
        decide ((byteAt payload (pqcNackFixedLen + i)).toNat ≥ totalFrags) then none
    else
      some
        { missingMsgType := byteAt payload 0
          missingMsgId := byteAt payload 1
          totalFrags := totalFrags
          missingCount := count
          missing := fun i =>
            if i < count then (byteAt payload (pqcNackFixedLen + i)).toNat else 0 }

/-- The indices below `limit` that a context has not received, in ascending order. -/
def FragmentRxCtx.missing (rx : FragmentRxCtx) (limit : ℕ) : List ℕ :=
  (List.range limit).filter (fun i => !rx.bitmap i)

theorem indices_push (nack : PqcNack) (i : ℕ) : (nack.push i).indices = nack.indices ++ [i] := by
  simp only [PqcNack.indices, PqcNack.push, List.range_succ, List.map_append, List.map_cons,
    List.map_nil, Function.update_self, List.append_cancel_right_eq]
  apply List.map_congr_left
  intro j hj
  rw [Function.update_of_ne (by have := List.mem_range.mp hj; omega)]

theorem length_indices (nack : PqcNack) : nack.indices.length = nack.missingCount := by
  simp [PqcNack.indices]

/-- The scan lists the first missing indices, up to its cap, and writes nothing else. -/
theorem pqcNackScan_spec (rx : FragmentRxCtx) (maxMissing limit : ℕ) (msgType msgId : UInt8)
    (totalFrags : ℕ) :
    let nack := pqcNackScan rx maxMissing limit (pqcNackInit msgType msgId totalFrags)
    nack.indices = (rx.missing limit).take maxMissing ∧ nack.missingMsgType = msgType ∧
      nack.missingMsgId = msgId ∧ nack.totalFrags = totalFrags := by
  induction limit with
  | zero => simp [pqcNackScan, pqcNackInit, PqcNack.indices, FragmentRxCtx.missing]
  | succ limit ih =>
    obtain ⟨hi, ht, hm, hf⟩ := ih
    set nack := pqcNackScan rx maxMissing limit (pqcNackInit msgType msgId totalFrags) with hn
    have hlen := congrArg List.length hi
    rw [length_indices, List.length_take] at hlen
    have hstep : pqcNackScan rx maxMissing (limit + 1) (pqcNackInit msgType msgId totalFrags) =
        if nack.missingCount < maxMissing ∧ ¬ rx.bitmap limit then nack.push limit else nack := by
      rw [hn, pqcNackScan, List.range_succ, List.foldl_append]
      rfl
    have hmiss : rx.missing (limit + 1) =
        rx.missing limit ++ if rx.bitmap limit then [] else [limit] := by
      rw [FragmentRxCtx.missing, List.range_succ, List.filter_append]
      cases hb : rx.bitmap limit <;> simp [FragmentRxCtx.missing, hb]
    rw [hstep, hmiss]
    by_cases hb : rx.bitmap limit = true
    · simp [hb, hi, ht, hm, hf]
    by_cases hcap : nack.missingCount < maxMissing
    · rw [if_pos ⟨hcap, hb⟩, if_neg hb]
      refine ⟨?_, ht, hm, hf⟩
      -- below the cap the list so far is the whole list of missing indices
      have hall : (rx.missing limit).length < maxMissing := by omega
      rw [indices_push, hi, List.take_of_length_le (by omega),
        List.take_of_length_le (by simp; omega)]
    · rw [if_neg (by tauto), if_neg hb]
      refine ⟨?_, ht, hm, hf⟩
      rw [hi, List.take_append_of_le_length (by omega)]

/-- The number of entries the builder allows itself. -/
def nackCap (maxMissing : ℕ) : ℕ :=
  if maxMissing = 0 ∨ maxMissing > pqcNackMaxMissing then pqcNackMaxMissing else maxMissing

theorem nackCap_bounds (maxMissing : ℕ) :
    0 < nackCap maxMissing ∧ nackCap maxMissing ≤ pqcNackMaxMissing := by
  unfold nackCap
  split
  · simp
  · omega

theorem pqcNackBuildFromRx_spec {rx : FragmentRxCtx} (nack : PqcNack) (maxMissing : ℕ)
    (ha : rx.active = true) (h0 : rx.totalFrags ≠ 0) (hle : rx.totalFrags ≤ fragMaxFrags) :
    let r := pqcNackBuildFromRx rx nack maxMissing
    r.2.indices = (rx.missing rx.totalFrags).take (nackCap maxMissing) ∧
      r.1 = r.2.missingCount ∧ r.2.missingMsgType = rx.msgType ∧
      r.2.missingMsgId = rx.msgId ∧ r.2.totalFrags = rx.totalFrags := by
  have hspec := pqcNackScan_spec rx (nackCap maxMissing) rx.totalFrags rx.msgType rx.msgId
    rx.totalFrags
  have hb : ¬ ((!rx.active) = true ∨ rx.totalFrags = 0) := by simp [ha, h0]
  simp only [pqcNackBuildFromRx, if_neg hb, if_neg (not_lt.mpr hle)]
  exact ⟨hspec.1, trivial, hspec.2⟩

/-- The NACKs a decoder admits. -/
structure PqcNack.Encodable (nack : PqcNack) : Prop where
  count_pos : 0 < nack.missingCount
  count_le : nack.missingCount ≤ pqcNackMaxMissing
  total_pos : 0 < nack.totalFrags
  total_le : nack.totalFrags ≤ fragMaxFrags
  index_lt : ∀ i < nack.missingCount, nack.missing i < nack.totalFrags

/-- What the builder makes of a context with gaps can be sent. -/
theorem pqcNackBuildFromRx_encodable {rx : FragmentRxCtx} (nack : PqcNack) (maxMissing : ℕ)
    (ha : rx.active = true) (h0 : rx.totalFrags ≠ 0) (hle : rx.totalFrags ≤ fragMaxFrags)
    (hgap : rx.missing rx.totalFrags ≠ []) :
    (pqcNackBuildFromRx rx nack maxMissing).2.Encodable := by
  obtain ⟨hidx, -, -, -, htot⟩ := pqcNackBuildFromRx_spec nack maxMissing ha h0 hle
  generalize (pqcNackBuildFromRx rx nack maxMissing).2 = built at hidx htot
  have hcap := nackCap_bounds maxMissing
  have hlen := congrArg List.length hidx
  rw [length_indices, List.length_take] at hlen
  have hpos : 0 < (rx.missing rx.totalFrags).length := List.length_pos_iff.mpr hgap
  refine ⟨by omega, by omega, by omega, by omega, ?_⟩
  intro i hi
  have hmem : built.missing i ∈ built.indices := List.mem_map.mpr ⟨i, List.mem_range.mpr hi, rfl⟩
  rw [hidx] at hmem
  have hmiss := List.mem_of_mem_take hmem
  simp only [FragmentRxCtx.missing, List.mem_filter, List.mem_range] at hmiss
  exact htot ▸ hmiss.1

theorem pqcNackEncode_room {nack : PqcNack} (h : nack.Encodable) {payloadMaxLen : ℕ}
    (hroom : pqcNackFixedLen + nack.missingCount ≤ payloadMaxLen) :
    pqcNackEncode nack payloadMaxLen =
      some ([nack.missingMsgType, nack.missingMsgId, UInt8.ofNat nack.totalFrags,
        UInt8.ofNat nack.missingCount] ++ nack.indices.map UInt8.ofNat) := by
  have h0 := h.count_pos
  have h1 := h.count_le
  rw [pqcNackEncode, if_neg (by omega), if_neg (by omega)]

theorem pqcNackEncode_eq {nack : PqcNack} (h : nack.Encodable) :
    pqcNackEncode nack pqcNackMaxPayloadLen =
      some ([nack.missingMsgType, nack.missingMsgId, UInt8.ofNat nack.totalFrags,
        UInt8.ofNat nack.missingCount] ++ nack.indices.map UInt8.ofNat) :=
  pqcNackEncode_room h (Nat.add_le_add_left h.count_le _)

/-- An encoded NACK fits into one fragment. -/
theorem pqcNackEncode_length {nack : PqcNack} {payload : Bytes}
    (h : pqcNackEncode nack pqcNackMaxPayloadLen = some payload) :
    0 < payload.length ∧ payload.length ≤ fragMaxMessageLen := by
  unfold pqcNackEncode at h
  split at h
  · cases h
  · rename_i hcount
    split at h
    · cases h
    · obtain rfl := Option.some.inj h
      push Not at hcount
      have hle := hcount.2
      simp only [pqcNackMaxMissing] at hle
      simp only [List.length_append, List.length_map, length_indices, List.length_cons,
        List.length_nil, fragMaxMessageLen]
      omega

/-- What was encoded is decoded: same header, same indices in use, zeros behind them. -/
theorem pqcNackDecode_encode {nack : PqcNack} (h : nack.Encodable) :
    pqcNackDecode ([nack.missingMsgType, nack.missingMsgId, UInt8.ofNat nack.totalFrags,
        UInt8.ofNat nack.missingCount] ++ nack.indices.map UInt8.ofNat) =
      some { nack with
        missing := fun i => if i < nack.missingCount then nack.missing i else 0 } := by
  obtain ⟨h0, h1, h2, h3, h4⟩ := h
  simp only [pqcNackMaxMissing, fragMaxFrags, fragMaxMessageLen, fragMaxPayloadLen] at h1 h3
  set payload : Bytes := [nack.missingMsgType, nack.missingMsgId, UInt8.ofNat nack.totalFrags,
    UInt8.ofNat nack.missingCount] ++ nack.indices.map UInt8.ofNat with hp
  have hlen : payload.length = 4 + nack.missingCount := by
    simp [hp, length_indices]
    omega
  have hcount : (byteAt payload 3).toNat = nack.missingCount := by
    change (UInt8.ofNat nack.missingCount).toNat = _
    simp only [UInt8.toNat_ofNat']
    omega
  have htotal : (byteAt payload 2).toNat = nack.totalFrags := by
    change (UInt8.ofNat nack.totalFrags).toNat = _
    simp only [UInt8.toNat_ofNat']
    omega
  have hidx : ∀ i < nack.missingCount, (byteAt payload (4 + i)).toNat = nack.missing i := by
    intro i hi
    have hlt := h4 i hi
    have hb : byteAt payload (4 + i) = UInt8.ofNat (nack.missing i) := by
      rw [byteAt, hp, List.getD_append_right _ _ _ _ (by simp),
        List.getD_eq_getElem _ _ (by simp [length_indices]; omega)]
      simp [PqcNack.indices]
    rw [hb, UInt8.toNat_ofNat']
    omega
  have hany : ((List.range nack.missingCount).any fun i =>
      decide ((byteAt payload (4 + i)).toNat ≥ nack.totalFrags)) = false := by
    rw [List.any_eq_false]
    intro i hi
    have hi := List.mem_range.mp hi
    simp only [hidx i hi, decide_eq_true_eq]
    have := h4 i hi
    omega
  simp only [pqcNackDecode, hcount, htotal, hlen, pqcNackFixedLen, pqcNackMaxMissing,
    fragMaxFrags, fragMaxMessageLen, fragMaxPayloadLen, hany]
  rw [if_neg (by omega), if_neg (by omega), if_neg (by simp)]
  refine congrArg some ?_
  have hfun : (fun i => if i < nack.missingCount then (byteAt payload (4 + i)).toNat else 0) =
      fun i => if i < nack.missingCount then nack.missing i else 0 := by
    funext i
    split
    · exact hidx i ‹_›
    · rfl
  rw [hfun]
  rfl

end PqcContiki
