import PqcContiki.RadioRing

/-! The ring in terms of its slots. -/
namespace PqcContiki

namespace RadioRing

variable {r : RadioRing} {slot : Fin rxBufCount} {packet : Option RailPacket} {p : RadioPacket}

/-- What a buffer holds; its length says whether it holds anything. -/
def slots (r : RadioRing) (i : Fin rxBufCount) : Option RadioPacket :=
  if (r.rxBuf i).len = 0 then none
  else some ⟨(List.range (r.rxBuf i).len.toNat).map (r.rxBuf i).buf, (r.rxBuf i).rssi,
    (r.rxBuf i).lqi⟩

theorem slots_eq_none_iff : r.slots slot = none ↔ (r.rxBuf slot).len = 0 := by
  simp [slots]

theorem len_pos_iff : (r.rxBuf slot).len > 0 ↔ (r.slots slot).isSome = true := by
  rw [Option.isSome_iff_ne_none, Ne, slots_eq_none_iff]
  exact UInt8.pos_iff_ne_zero

theorem hasPacket_eq (r : RadioRing) : r.hasPacket = (r.slots r.nextRead).isSome := by
  rw [hasPacket, Bool.eq_iff_iff, decide_eq_true_iff]
  exact len_pos_iff

theorem slots_freeRxBuf (slot : Fin rxBufCount) (r : RadioRing) :
    (r.freeRxBuf slot).slots = Function.update r.slots slot none := by
  funext i
  by_cases hi : i = slot
  · subst hi
    simp [slots, freeRxBuf]
  · simp [slots, freeRxBuf, hi]

/-- The packet of an occupied buffer, field by field. -/
theorem slots_eq_some (h : r.slots slot = some p) :
    p.payload.length = (r.rxBuf slot).len.toNat ∧ (r.rxBuf slot).rssi = p.rssi ∧
      (r.rxBuf slot).lqi = p.lqi ∧
      ∀ k (hk : k < p.payload.length), p.payload[k] = (r.rxBuf slot).buf k := by
  unfold slots at h
  split at h
  · cases h
  · cases h
    simp

/-- Once copied and moved, the buffer starts with what follows the length byte. -/
theorem moved_payload (mem : ℕ → UInt8) (bytes : Bytes) :
    let copied := Memory.blit mem 0 bytes
    (List.range (bytes.length - 1)).map (if bytes.length - 1 > 0 then
        Memory.blit copied 0 ((List.range (bytes.length - 1)).map fun k => copied (k + 1))
      else copied) = bytes.tail := by
  apply List.ext_getElem
  · simp
  · intro k hk hk'
    have hlt : k < bytes.length - 1 := by simpa using hk
    have hcopied : Memory.blit mem 0 bytes (k + 1) = bytes[k + 1] :=
      Memory.blit_inside (Nat.zero_le _) (by omega)
    have hpos : bytes.length - 1 > 0 := by omega
    simp only [List.getElem_map, List.getElem_range, hpos, if_true, List.getElem_tail]
    rw [Memory.blit_inside (Nat.zero_le _) (by simpa using hlt)]
    simpa using hcopied

/-- A buffer filled by the interrupt holds the packet, unless nothing follows its length byte. -/
theorem slots_store {bytes : Bytes} {rssi lqi : Int16} {stage : UInt32} (hlo : 1 ≤ bytes.length)
    (hhi : bytes.length ≤ RxBuffer.capacity) (mem : ℕ → UInt8) :
    slots
        { r with
          rxBuf := Function.update r.rxBuf slot
            { rssi, lqi
              len := UInt8.ofNat (bytes.length - 1)
              buf := if bytes.length - 1 > 0 then
                  Memory.blit (Memory.blit mem 0 bytes) 0 ((List.range (bytes.length - 1)).map
                    fun k => Memory.blit mem 0 bytes (k + 1))
                else Memory.blit mem 0 bytes }
          nextWrite := r.nextWrite + 1
          radioStage := stage } =
      Function.update r.slots slot
        (if bytes.tail = [] then none else some ⟨bytes.tail, rssi, lqi⟩) := by
  have hsmall : bytes.length - 1 < 256 := by
    simp only [RxBuffer.capacity] at hhi
    omega
  have hlen : (UInt8.ofNat (bytes.length - 1)).toNat = bytes.length - 1 := by
    simp [Nat.mod_eq_of_lt hsmall]
  have htail : bytes.tail = [] ↔ UInt8.ofNat (bytes.length - 1) = 0 := by
    rw [← List.length_eq_zero_iff, List.length_tail, ← UInt8.toNat_inj, hlen]
    rfl
  funext i
  by_cases hi : i = slot
  · subst hi
    have hmoved := moved_payload mem bytes
    dsimp only at hmoved
    simp only [slots, Function.update_self, hlen, htail, hmoved]
  · simp [slots, hi]

/-- The interrupt stores a packet at the end of the ring, or leaves the ring alone. -/
theorem moveToRxBuffer_cases (packet : Option RailPacket) (r : RadioRing) :
    (r.moveToRxBuffer packet).nextRead = r.nextRead ∧
      ((RadioDriver.stores packet r = none ∧
          (r.moveToRxBuffer packet).nextWrite = r.nextWrite ∧
          (r.moveToRxBuffer packet).rxBuf = r.rxBuf) ∨
        ∃ p, RadioDriver.stores packet r = some p ∧ r.slots r.nextWrite = none ∧
          (r.moveToRxBuffer packet).nextWrite = r.nextWrite + 1 ∧
          (r.moveToRxBuffer packet).slots =
            Function.update r.slots r.nextWrite (if p.payload = [] then none else some p)) := by
  cases packet with
  | none => exact ⟨rfl, Or.inl ⟨rfl, rfl, rfl⟩⟩
  | some rail =>
    by_cases hgood : rail.ready = true ∧ 1 ≤ rail.bytes.length ∧
        rail.bytes.length ≤ RxBuffer.capacity ∧ rail.detailsOk = true ∧ rail.crcPassed = true
    · obtain ⟨hready, hlo, hhi, hdetails, hcrc⟩ := hgood
      have hlong : ¬ (rail.bytes.length < 1 ∨ RxBuffer.capacity < rail.bytes.length) := by omega
      have hfits : ¬ RxBuffer.capacity < rail.bytes.length - 1 := by omega
      by_cases hroom : (r.rxBuf r.nextWrite).len = 0
      · have hempty : r.getEmptyRxBuf =
            (some r.nextWrite, { r with nextWrite := r.nextWrite + 1 }) := by
          simp [getEmptyRxBuf, hroom]
        have hstores : RadioDriver.stores (some rail) r =
            some ⟨rail.bytes.tail, rail.rssi, rail.lqi⟩ := by
          simp [RadioDriver.stores, hready, hlo, hhi, hdetails, hcrc, hempty]
        simp only [moveToRxBuffer, hready, hlong, hfits, hdetails, hcrc, hempty, Bool.not_true,
          if_false, Bool.false_eq_true]
        exact ⟨trivial, Or.inr ⟨_, hstores, slots_eq_none_iff.mpr hroom, trivial,
          slots_store hlo hhi _⟩⟩
      · have hempty : r.getEmptyRxBuf = (none, r) := by simp [getEmptyRxBuf, hroom]
        have hstores : RadioDriver.stores (some rail) r = none := by
          simp [RadioDriver.stores, hempty]
        simp only [moveToRxBuffer, hready, hlong, hfits, hdetails, hcrc, hempty, Bool.not_true,
          if_false, Bool.false_eq_true]
        exact ⟨trivial, Or.inl ⟨hstores, trivial, trivial⟩⟩
    · have hstores : RadioDriver.stores (some rail) r = none := by
        simp only [RadioDriver.stores, Option.bind_some, ite_eq_right_iff]
        rintro ⟨h1, h2, h3, h4, h5, -⟩
        exact absurd ⟨h1, h2, h3, h4, h5⟩ hgood
      have hsame : (r.moveToRxBuffer (some rail)).rxBuf = r.rxBuf ∧
          (r.moveToRxBuffer (some rail)).nextRead = r.nextRead ∧
          (r.moveToRxBuffer (some rail)).nextWrite = r.nextWrite := by
        unfold moveToRxBuffer
        dsimp only
        by_cases hready : rail.ready = true
        · by_cases hlen : rail.bytes.length < 1 ∨ RxBuffer.capacity < rail.bytes.length
          · simp only [hready, hlen, Bool.not_true, if_true, if_false, Bool.false_eq_true, and_self]
          · have hfits : ¬ RxBuffer.capacity < rail.bytes.length - 1 := by omega
            by_cases hdetails : rail.detailsOk = true
            · have hcrc : ¬ rail.crcPassed = true := fun hcrc =>
                hgood ⟨hready, by omega, by omega, hdetails, hcrc⟩
              simp only [hready, hlen, hfits, hdetails, hcrc, Bool.not_true, Bool.not_false,
                if_true, if_false, Bool.false_eq_true, and_self]
            · simp only [hready, hlen, hfits, hdetails, Bool.not_true, Bool.not_false, if_true,
                if_false, Bool.false_eq_true, and_self]
        · simp [hready]
      exact ⟨hsame.2.1, Or.inl ⟨hstores, hsame.2.2, hsame.1⟩⟩

end RadioRing

end PqcContiki
