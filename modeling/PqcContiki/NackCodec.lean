import PqcContiki.Nack
import PqcContiki.ReassemblyHoles

/-! What two devices can say to each other in NACKs: the codec loses nothing and adds nothing. -/
namespace PqcContiki

open Memory

variable {nack : PqcNack} {payload : Bytes} {ctx : FragmentRxCtx} {n : ℕ}

/-- A payload that is decoded spells out the NACK. -/
theorem pqcNackDecode_some (h : pqcNackDecode payload = some nack) :
    nack.Encodable ∧ payload.length = pqcNackFixedLen + nack.missingCount ∧
      payload = [nack.missingMsgType, nack.missingMsgId, UInt8.ofNat nack.totalFrags,
        UInt8.ofNat nack.missingCount] ++ nack.indices.map UInt8.ofNat := by
  unfold pqcNackDecode at h
  split at h
  · cases h
  · dsimp only at h
    split at h
    · cases h
    · rename_i hfields
      split at h
      · cases h
      · rename_i hindices
        obtain rfl := Option.some.inj h
        push Not at hfields
        obtain ⟨hcount, hle, htotal, hmax, hlen⟩ := hfields
        have hlt : ∀ i < (byteAt payload 3).toNat,
            (byteAt payload (pqcNackFixedLen + i)).toNat < (byteAt payload 2).toNat := by
          intro i hi
          by_contra hge
          exact hindices (List.any_eq_true.mpr
            ⟨i, List.mem_range.mpr hi, decide_eq_true (not_lt.mp hge)⟩)
        refine ⟨⟨Nat.pos_of_ne_zero hcount, hle, Nat.pos_of_ne_zero htotal, hmax, ?_⟩, hlen, ?_⟩
        · intro i hi
          simpa [hi] using hlt i hi
        · have hlen4 : payload.length = 4 + (byteAt payload 3).toNat := hlen
          apply List.ext_getElem
          · simp only [List.length_append, List.length_cons, List.length_nil, List.length_map,
              length_indices]
            omega
          · intro k hk hk'
            have hbyte : payload[k] = byteAt payload k := (List.getD_eq_getElem _ _ hk).symm
            rw [hbyte]
            by_cases hhead : k < 4
            · interval_cases k <;> simp
            · obtain ⟨j, rfl⟩ := Nat.exists_eq_add_of_le (not_lt.mp hhead)
              have hj : j < (byteAt payload 3).toNat := by omega
              rw [List.getElem_append_right (by simp)]
              simp [PqcNack.indices, hj]

/-- A context after any `fragment_rx_add` calls since it was last initialised or reset. -/
inductive FragmentRxCtx.Reachable : FragmentRxCtx → Prop
  | init : Reachable fragmentRxInit
  | add {ctx : FragmentRxCtx} (c : RxCall) : Reachable ctx → Reachable (c.add ctx).2

theorem FragmentRxCtx.Reachable.tracks (h : ctx.Reachable) : ∃ acc, RxCall.Tracks acc ctx := by
  induction h with
  | init => exact ⟨[], RxCall.tracks_nil⟩
  | add c _ ih =>
    obtain ⟨acc, hacc⟩ := ih
    exact ⟨_, hacc.add c⟩

/-- An active context has a number of fragments, and lacks one of them until it is complete. -/
theorem FragmentRxCtx.Reachable.gap (h : ctx.Reachable) (ha : ctx.active = true)
    (hinc : fragmentRxComplete ctx = false) :
    ctx.totalFrags ≠ 0 ∧ ctx.totalFrags ≤ fragMaxFrags ∧ ctx.missing ctx.totalFrags ≠ [] := by
  obtain ⟨acc, htracks⟩ := h.tracks
  refine ⟨?_, htracks.total, ?_⟩
  · cases hacc : acc with
    | nil =>
      rw [htracks.idle hacc] at ha
      cases ha
    | cons d ds =>
      have hd : d ∈ acc := by simp [hacc]
      have htotal : ctx.totalFrags = d.totalFrags := (htracks.active d hd).2.2.2.2
      rw [htotal]
      exact (htracks.bounds d hd).1
  · intro hnone
    have hall : ∀ i < ctx.totalFrags, ctx.bitmap i = true := by
      intro i hi
      have hi' := List.filter_eq_nil_iff.mp hnone i (List.mem_range.mpr hi)
      simpa using hi'
    have hpop := population_eq_iff.mpr hall
    simp [fragmentRxComplete, ha, htracks.frags, hpop] at hinc

/-- The NACK codec and the builder. Decoding undoes encoding on every NACK within the bounds, what
is decoded is the encoding of such a NACK, and nothing else is decoded. What is built from an
incomplete context is within the bounds and lists the first missing fragments. -/
theorem nack_codec_exact :
    (∀ nack payloadMaxLen, nack.Encodable →
      pqcNackFixedLen + nack.missingCount ≤ payloadMaxLen →
      ∃ payload, pqcNackEncode nack payloadMaxLen = some payload ∧
        pqcNackDecode payload = some { nack with
          missing := fun i => if i < nack.missingCount then nack.missing i else 0 }) ∧
    (∀ payload nack payloadMaxLen, pqcNackDecode payload = some nack →
      payload.length ≤ payloadMaxLen →
      nack.Encodable ∧ pqcNackEncode nack payloadMaxLen = some payload) ∧
    (∀ payload, (∀ nack : PqcNack, nack.Encodable →
        pqcNackEncode nack payload.length ≠ some payload) → pqcNackDecode payload = none) ∧
    (∀ (rx : FragmentRxCtx) nack maxMissing, rx.Reachable → rx.active = true →
      fragmentRxComplete rx = false →
      let r := pqcNackBuildFromRx rx nack maxMissing
      let cap := if maxMissing = 0 ∨ maxMissing > 16 then 16 else maxMissing
      r.2.Encodable ∧ r.1 = r.2.missingCount ∧ r.2.missingMsgType = rx.msgType ∧
        r.2.missingMsgId = rx.msgId ∧ r.2.totalFrags = rx.totalFrags ∧
        r.2.indices = (rx.missing rx.totalFrags).take cap ∧ r.2.indices.Pairwise (· < ·) ∧
        r.2.missingCount = min cap (rx.missing rx.totalFrags).length) := by
  refine ⟨?_, ?_, ?_, ?_⟩
  · intro nack payloadMaxLen henc hroom
    exact ⟨_, pqcNackEncode_room henc hroom, pqcNackDecode_encode henc⟩
  · intro payload nack payloadMaxLen hdec hroom
    obtain ⟨henc, hlen, hbytes⟩ := pqcNackDecode_some hdec
    refine ⟨henc, ?_⟩
    rw [pqcNackEncode_room henc (hlen ▸ hroom), ← hbytes]
  · intro payload hno
    cases hdec : pqcNackDecode payload with
    | none => rfl
    | some nack =>
      obtain ⟨henc, hlen, hbytes⟩ := pqcNackDecode_some hdec
      refine absurd ?_ (hno nack henc)
      rw [pqcNackEncode_room henc hlen.ge, ← hbytes]
  · intro rx nack maxMissing hreach ha hinc r cap
    obtain ⟨h0, hle, hgap⟩ := hreach.gap ha hinc
    obtain ⟨hidx, hcount, htype, hid, htotal⟩ := pqcNackBuildFromRx_spec nack maxMissing ha h0 hle
    refine ⟨pqcNackBuildFromRx_encodable nack maxMissing ha h0 hle hgap, hcount, htype, hid, htotal,
      hidx, ?_, ?_⟩
    · rw [hidx]
      exact ((List.pairwise_lt_range.filter _).sublist (List.take_sublist ..))
    · rw [← length_indices, hidx, List.length_take]
      rfl

end PqcContiki
