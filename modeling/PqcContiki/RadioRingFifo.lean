import PqcContiki.RadioRingSlots

/-! The ring as a queue: what the interrupt stores, `read` returns in its order. -/
namespace PqcContiki

namespace RadioDriver

variable {d : RadioDriver} {events : List RadioEvent} {bufsize : UInt16}

/-- Where the main loop stands, against the history of the ring: `freed` packets are done with. -/
def ReaderAt (d : RadioDriver) (history : List RadioPacket) (freed : ℕ) : Prop :=
  match d.reader with
  | .outside => d.ring.nextRead = Fin.ofNat rxBufCount freed
  | .claimed slot size =>
    d.ring.nextRead = Fin.ofNat rxBufCount (freed + 1) ∧ slot = Fin.ofNat rxBufCount freed ∧
      freed < history.length ∧ RxBuffer.capacity ≤ size.toNat
  | .dropping _ => False
  | .copying slot len bytes =>
    d.ring.nextRead = Fin.ofNat rxBufCount (freed + 1) ∧ slot = Fin.ofNat rxBufCount freed ∧
      ∃ h : freed < history.length, len = history[freed].payload.length ∧
        bytes = history[freed].payload.take bytes.length
  | .copied slot packet =>
    d.ring.nextRead = Fin.ofNat rxBufCount (freed + 1) ∧ slot = Fin.ofNat rxBufCount freed ∧
      ∃ h : freed < history.length, packet = history[freed]

/-- The buffers hold the accepted packets that no read has finished with, in order. -/
structure Queued (d : RadioDriver) : Prop where
  follows : Ring.Follows d.ring.slots d.accepted d.returned.length
  nextWrite : d.ring.nextWrite = Fin.ofNat rxBufCount d.accepted.length
  reader : d.ReaderAt d.accepted d.returned.length
  returned : d.returned = d.accepted.take d.returned.length
  solid : ∀ p ∈ d.accepted, p.payload ≠ [] ∧ p.payload.length < RxBuffer.capacity

theorem queued_initial : Queued initial where
  follows := Ring.Follows.empty fun _ => by simp [RadioRing.slots, initial]
  nextWrite := rfl
  reader := rfl
  returned := rfl
  solid := by simp [initial]

/-- The main loop is not disturbed by a packet that arrives. -/
theorem ReaderAt.append {ring : RadioRing} {history : List RadioPacket} {freed : ℕ}
    (accepted more : List RadioPacket) (h : d.ReaderAt history freed)
    (hread : ring.nextRead = d.ring.nextRead) :
    ({ d with ring, accepted } : RadioDriver).ReaderAt (history ++ more) freed := by
  unfold ReaderAt at h ⊢
  cases hr : d.reader with
  | outside =>
    rw [hr] at h
    exact hread.trans h
  | claimed slot size =>
    rw [hr] at h
    obtain ⟨hnext, hslot, hlt, hsize⟩ := h
    exact ⟨hread.trans hnext, hslot, by simp; omega, hsize⟩
  | dropping slot =>
    rw [hr] at h
    exact h.elim
  | copying slot len bytes =>
    rw [hr] at h
    obtain ⟨hnext, hslot, hlt, hlen, hbytes⟩ := h
    refine ⟨hread.trans hnext, hslot, by simp; omega, ?_⟩
    simpa [List.getElem_append_left hlt] using ⟨hlen, hbytes⟩
  | copied slot packet =>
    rw [hr] at h
    obtain ⟨hnext, hslot, hlt, hpacket⟩ := h
    refine ⟨hread.trans hnext, hslot, by simp; omega, ?_⟩
    simpa [List.getElem_append_left hlt] using hpacket

theorem stores_length {packet : Option RailPacket} {r : RadioRing} {p : RadioPacket}
    (h : stores packet r = some p) : p.payload.length < RxBuffer.capacity := by
  cases packet with
  | none => cases h
  | some rail =>
    simp only [stores, Option.bind_some] at h
    split at h
    · rename_i hgood
      cases h
      have hhi := hgood.2.2.1
      simp only [List.length_tail]
      omega
    · cases h

theorem Queued.interrupt (h : d.Queued) (packet : Option RailPacket)
    (hsome : ∀ p, stores packet d.ring = some p → p.payload ≠ []) :
    (d.interrupt packet).Queued := by
  obtain ⟨hread, hnone | ⟨p, hp, hvacant, hwrite, hslots⟩⟩ :=
    RadioRing.moveToRxBuffer_cases packet d.ring
  · obtain ⟨hstores, hwrite, hbuf⟩ := hnone
    have hslots : (d.ring.moveToRxBuffer packet).slots = d.ring.slots := by
      funext i
      simp [RadioRing.slots, hbuf]
    have haccepted : (d.interrupt packet).accepted = d.accepted := by
      simp [RadioDriver.interrupt, hstores]
    refine ⟨?_, ?_, ?_, ?_, ?_⟩
    · rw [haccepted]
      exact hslots ▸ h.follows
    · rw [haccepted]
      exact hwrite.trans h.nextWrite
    · simpa [RadioDriver.interrupt, hstores] using
        h.reader.append d.accepted [] hread
    · rw [haccepted]
      exact h.returned
    · rw [haccepted]
      exact h.solid
  · have hpayload := hsome p hp
    have hroom : d.accepted.length < d.returned.length + rxBufCount := by
      rw [h.nextWrite] at hvacant
      exact h.follows.room_iff.mp hvacant
    have haccepted : (d.interrupt packet).accepted = d.accepted ++ [p] := by
      simp [RadioDriver.interrupt, hp]
    refine ⟨?_, ?_, ?_, ?_, ?_⟩
    · rw [haccepted]
      have hput := h.follows.put (a := p) hroom
      rw [← h.nextWrite] at hput
      have hfilled : (d.ring.moveToRxBuffer packet).slots =
          Function.update d.ring.slots d.ring.nextWrite (some p) := by
        rw [hslots, if_neg hpayload]
      exact hfilled ▸ hput
    · rw [haccepted, List.length_append, List.length_singleton, ← Ring.ofNat_succ, ← h.nextWrite]
      exact hwrite
    · rw [haccepted]
      exact h.reader.append _ _ hread
    · have htake : d.returned = (d.accepted ++ [p]).take d.returned.length := by
        rw [List.take_append_of_le_length h.follows.freed_le]
        exact h.returned
      exact haccepted ▸ htake
    · rw [haccepted]
      intro q hq
      rcases List.mem_append.mp hq with hq | hq
      · exact h.solid q hq
      · rw [List.mem_singleton.mp hq]
        exact ⟨hpayload, stores_length hp⟩

/-- The buffer that a read has taken is still the one it took. -/
theorem Queued.occupied (h : d.Queued) (hlt : d.returned.length < d.accepted.length) :
    d.ring.slots (Fin.ofNat rxBufCount d.returned.length) =
      some d.accepted[d.returned.length] :=
  h.follows.occupied _ hlt le_rfl

/-- How far the main loop is from having read everything, counted in steps. -/
def effort (d : RadioDriver) : ℕ :=
  200 * (d.accepted.length - d.returned.length) + match d.reader with
    | .outside => 199
    | .claimed _ _ => 198
    | .dropping _ => 0
    | .copying _ len bytes => len - bytes.length + 1
    | .copied _ _ => 0

/-- What a step of `read` keeps, and the work it gets done. -/
structure Proceeds (d d' : RadioDriver) : Prop where
  queued : d'.Queued
  accepted : d'.accepted = d.accepted
  effort : d.returned.length < d.accepted.length → d'.effort < d.effort

theorem Queued.read (h : d.Queued) (hsize : RxBuffer.capacity ≤ bufsize.toNat) :
    d.Proceeds (d.read bufsize) := by
  have hreader := h.reader
  unfold ReaderAt at hreader
  unfold RadioDriver.read
  cases hr : d.reader with
  | outside =>
    rw [hr] at hreader
    have hne : bufsize ≠ 0 := by
      rintro rfl
      simp [RxBuffer.capacity] at hsize
    simp only [hne, if_false]
    by_cases hlen : (d.ring.rxBuf d.ring.nextRead).len > 0
    · have hfull : d.ring.getFullRxBuf =
          (some d.ring.nextRead, { d.ring with nextRead := d.ring.nextRead + 1 }) := by
        simp only [RadioRing.getFullRxBuf, hlen, if_true]
      have hlt : d.returned.length < d.accepted.length := by
        rw [RadioRing.len_pos_iff, hreader] at hlen
        exact (h.follows.isSome_iff le_rfl (by simp [rxBufCount])).mp hlen
      rw [hfull]
      refine ⟨⟨h.follows, h.nextWrite, ⟨?_, hreader, hlt, hsize⟩, h.returned, h.solid⟩, rfl, ?_⟩
      · rw [← Ring.ofNat_succ, ← hreader]
      · intro _
        simp [effort, hr]
    · have hempty : d.ring.getFullRxBuf = (none, d.ring) := by
        simp only [RadioRing.getFullRxBuf, hlen, if_false]
      rw [hempty]
      refine ⟨⟨h.follows, h.nextWrite, hreader, h.returned, h.solid⟩, rfl, ?_⟩
      intro hlt
      refine absurd ?_ hlen
      rw [RadioRing.len_pos_iff, hreader]
      exact (h.follows.isSome_iff le_rfl (by simp [rxBufCount])).mpr hlt
  | claimed slot size =>
    rw [hr] at hreader
    obtain ⟨hnext, hslot, hlt, hroom⟩ := hreader
    obtain ⟨hlength, -⟩ := RadioRing.slots_eq_some (h.occupied hlt)
    have hshort := (h.solid _ (List.getElem_mem hlt)).2
    subst hslot
    have hfits : ¬ (d.ring.rxBuf (Fin.ofNat rxBufCount d.returned.length)).len.toNat >
        size.toNat := by omega
    simp only [hfits, if_false]
    refine ⟨⟨h.follows, h.nextWrite, ⟨hnext, rfl, hlt, hlength.symm, by simp⟩, h.returned,
      h.solid⟩, rfl, ?_⟩
    intro _
    simp only [RxBuffer.capacity] at hshort
    simp only [effort, hr, List.length_nil]
    omega
  | dropping slot =>
    rw [hr] at hreader
    exact hreader.elim
  | copying slot len bytes =>
    rw [hr] at hreader
    obtain ⟨hnext, hslot, hlt, hlen, hbytes⟩ := hreader
    obtain ⟨-, hrssi, hlqi, hget⟩ := RadioRing.slots_eq_some (h.occupied hlt)
    subst hslot
    by_cases hmore : bytes.length < len
    · simp only [hmore, if_true]
      have hk : bytes.length < d.accepted[d.returned.length].payload.length := hlen ▸ hmore
      refine ⟨⟨h.follows, h.nextWrite, ⟨hnext, rfl, hlt, hlen, ?_⟩, h.returned, h.solid⟩, rfl, ?_⟩
      · rw [List.length_append, List.length_singleton, ← List.take_concat_get' _ _ hk, ← hbytes,
          hget _ hk]
      · intro _
        simp only [effort, hr, List.length_append, List.length_singleton]
        omega
    · simp only [hmore, if_false]
      have hall : bytes = d.accepted[d.returned.length].payload := by
        rw [hbytes, List.take_of_length_le (by omega)]
      refine ⟨⟨h.follows, h.nextWrite, ⟨hnext, rfl, hlt, ?_⟩, h.returned, h.solid⟩, rfl, ?_⟩
      · rw [hall, hrssi, hlqi]
      · intro _
        simp [effort, hr]
  | copied slot packet =>
    rw [hr] at hreader
    obtain ⟨hnext, hslot, hlt, hpacket⟩ := hreader
    subst hslot
    have hlength : (d.returned ++ [packet]).length = d.returned.length + 1 := by simp
    refine ⟨⟨?_, h.nextWrite, ?_, ?_, h.solid⟩, rfl, ?_⟩
    · rw [RadioRing.slots_freeRxBuf, hlength]
      exact h.follows.free hlt
    · unfold ReaderAt
      rw [hlength]
      exact hnext
    · rw [hlength, List.take_succ_eq_append_getElem hlt, ← h.returned, hpacket]
    · intro _
      simp only [effort, hr, hlength]
      omega

/-- Left alone, the main loop reads all there is. -/
theorem Queued.drains (h : d.Queued) (hsize : RxBuffer.capacity ≤ bufsize.toNat) :
    ∃ k, ((RadioDriver.read bufsize)^[k] d).returned = d.accepted := by
  induction hn : d.effort using Nat.strong_induction_on generalizing d with
  | _ n ih =>
    by_cases hlt : d.returned.length < d.accepted.length
    · have hstep := h.read hsize
      obtain ⟨k, hk⟩ := ih _ (hn ▸ hstep.effort hlt) hstep.queued rfl
      exact ⟨k + 1, hk.trans hstep.accepted⟩
    · refine ⟨0, h.returned.trans (List.take_of_length_le ?_)⟩
      omega

theorem Queued.stored (h : d.Queued) : d.stored = d.accepted := by
  unfold RadioDriver.stored
  refine List.filter_eq_self.mpr ?_
  intro p hp
  simpa using (h.solid p hp).1

/-- The next read takes up where the last one left off. -/
theorem Queued.nextRead (h : d.Queued) : d.ring.nextRead = Fin.ofNat rxBufCount d.taken := by
  have hreader := h.reader
  unfold ReaderAt at hreader
  unfold RadioDriver.taken
  cases hr : d.reader with
  | dropping slot =>
    rw [hr] at hreader
    exact hreader.elim
  | outside =>
    rw [hr] at hreader
    exact hreader
  | claimed slot size =>
    rw [hr] at hreader
    exact hreader.1
  | copying slot len bytes =>
    rw [hr] at hreader
    exact hreader.1
  | copied slot packet =>
    rw [hr] at hreader
    exact hreader.1

theorem taken_le (d : RadioDriver) : d.taken ≤ d.returned.length + 1 := by
  unfold taken
  cases d.reader <;> simp

theorem le_taken (d : RadioDriver) : d.returned.length ≤ d.taken := Nat.le_add_right _ _

theorem Queued.lossless (h : d.Queued) : d.Lossless where
  inOrder := by
    rw [h.stored, h.returned]
    exact List.take_prefix ..
  visible hlt := by
    have htaken := d.taken_le
    rw [h.stored] at hlt
    rw [RadioRing.hasPacket_eq, h.nextRead]
    refine (h.follows.isSome_iff d.le_taken ?_).mpr hlt
    simp only [rxBufCount]
    omega
  drains bufsize hsize := by
    rw [h.stored]
    exact h.drains hsize

/-- The packet in the interrupt is not stored, or has something after its length byte. -/
def Carries (d : RadioDriver) : RadioEvent → Prop
  | .interrupt (some packet) =>
    packet.ready = true → packet.detailsOk = true → packet.crcPassed = true →
      packet.bytes.length = 1 → d.ring.getEmptyRxBuf.1 = none
  | _ => True

theorem stores_some {packet : Option RailPacket} (hcarries : d.Carries (.interrupt packet)) :
    ∀ p, stores packet d.ring = some p → p.payload ≠ [] := by
  intro p hp
  cases packet with
  | none => cases hp
  | some rail =>
    simp only [stores, Option.bind_some] at hp
    split at hp
    · rename_i hgood
      cases hp
      intro hnil
      have htail : rail.bytes.tail = [] := hnil
      have hlen : rail.bytes.length - 1 = 0 := by
        rw [← List.length_tail, htail]
        rfl
      have hnone := hcarries hgood.1 hgood.2.2.2.1 hgood.2.2.2.2.1 (by omega)
      simp [hnone] at hgood
    · cases hp

theorem run_append_singleton (events : List RadioEvent) (event : RadioEvent) :
    run (events ++ [event]) = (run events).step event := by
  simp [run]

/-- As long as no packet without a payload gets a buffer, the ring is a queue. -/
theorem queued_run
    (hbuf : ∀ bufsize, .mainLoop bufsize ∈ events → RxBuffer.capacity ≤ bufsize.toNat)
    (hcarries : ∀ before event after, events = before ++ event :: after →
      (run before).Carries event) : (run events).Queued := by
  induction events using List.reverseRecOn with
  | nil => exact queued_initial
  | append_singleton events event ih =>
    have hqueued : (run events).Queued := by
      apply ih
      · intro bufsize hmem
        exact hbuf bufsize (List.mem_append_left _ hmem)
      · intro before e after heq
        exact hcarries before e (after ++ [event]) (by simp [heq])
    rw [run_append_singleton]
    cases event with
    | interrupt packet =>
      exact hqueued.interrupt packet (stores_some (hcarries events _ [] rfl))
    | mainLoop bufsize => exact (hqueued.read (hbuf bufsize (by simp))).queued

/-- Packets in, packets out: the receive ring is a first-in first-out queue in every run in which
no packet without a payload gets a buffer. -/
theorem radio_ring_fifo
    (hbuf : ∀ bufsize, .mainLoop bufsize ∈ events → RxBuffer.capacity ≤ bufsize.toNat)
    (hcarries : ∀ before event after, events = before ++ event :: after →
      (run before).Carries event) : (run events).Lossless :=
  (queued_run hbuf hcarries).lossless

/-- A packet as it arrives when nothing is wrong with it. -/
def sound (bytes : Bytes) : RadioEvent :=
  .interrupt (some ⟨true, bytes, true, true, -60, 255⟩)

/-- A packet that arrives while the one before it is being read is read next. -/
theorem radio_ring_fifo_overlap :
    (run [sound [3, 65, 66], .mainLoop 128, sound [2, 67], .mainLoop 128]).Lossless := by
  refine radio_ring_fifo ?_ ?_
  · intro bufsize hmem
    have hsize : bufsize = 128 := by simpa [sound] using hmem
    rw [hsize]
    decide
  · intro before event after heq
    have hmem : event ∈ [sound [3, 65, 66], .mainLoop 128, sound [2, 67], .mainLoop 128] := by
      rw [heq]
      simp
    simp only [List.mem_cons, List.not_mem_nil, or_false] at hmem
    rcases hmem with rfl | rfl | rfl | rfl <;> simp [Carries, sound]

/-- A packet that is nothing but its length byte takes a buffer without filling it, and the packet
behind it is not seen: `read` returns nothing, however often it is called. -/
theorem radio_ring_hides :
    (run [sound [1], sound [2, 65]]).stored = [⟨[65], -60, 255⟩] ∧
      (run [sound [1], sound [2, 65]]).ring.hasPacket = false ∧
      ¬ (run [sound [1], sound [2, 65]]).Lossless := by
  have hstored : (run [sound [1], sound [2, 65]]).stored = [⟨[65], -60, 255⟩] := by decide
  have hhidden : (run [sound [1], sound [2, 65]]).ring.hasPacket = false := by decide
  refine ⟨hstored, hhidden, ?_⟩
  intro h
  have hvisible := h.visible (by rw [hstored]; decide)
  rw [hhidden] at hvisible
  cases hvisible

/-- Once everything is read, a packet without a payload hides the next one that has any. -/
theorem not_lossless_after_empty {packet packet' : Option RailPacket} {p q : RadioPacket}
    (h : d.Queued) (hout : d.reader = .outside) (hall : d.returned.length = d.accepted.length)
    (hp : stores packet d.ring = some p) (hempty : p.payload = [])
    (hq : stores packet' (d.interrupt packet).ring = some q) (hfull : q.payload ≠ []) :
    ¬ ((d.interrupt packet).interrupt packet').Lossless := by
  obtain ⟨hread, hnone | ⟨p', hp', hvacant, hwrite, hslots⟩⟩ :=
    RadioRing.moveToRxBuffer_cases packet d.ring
  · rw [hp] at hnone
    cases hnone.1
  · rw [hp] at hp'
    cases hp'
    obtain ⟨hread', hnone' | ⟨q', hq', -, -, hslots'⟩⟩ :=
      RadioRing.moveToRxBuffer_cases packet' (d.interrupt packet).ring
    · rw [hq] at hnone'
      cases hnone'.1
    · rw [hq] at hq'
      cases hq'
      intro hlossless
      have hnext : d.ring.nextRead = d.ring.nextWrite := by
        have hreader := h.reader
        unfold ReaderAt at hreader
        rw [hout] at hreader
        rw [h.nextWrite, ← hall]
        exact hreader
      have hwritten : (d.interrupt packet).ring.nextWrite = d.ring.nextWrite + 1 := hwrite
      have hother : d.ring.nextWrite ≠ d.ring.nextWrite + 1 := by
        generalize d.ring.nextWrite = i
        revert i
        decide
      have hpending : ((d.interrupt packet).interrupt packet').taken <
          ((d.interrupt packet).interrupt packet').stored.length := by
        have hstored : ((d.interrupt packet).interrupt packet').stored = d.accepted ++ [q] := by
          rw [← h.stored]
          simp [RadioDriver.stored, RadioDriver.interrupt, hp, hempty] at hq ⊢
          simp [hq, hfull]
        rw [hstored]
        simp [RadioDriver.taken, RadioDriver.interrupt, hout, hall]
      have hvisible := hlossless.visible hpending
      have hsame : ((d.interrupt packet).interrupt packet').ring.nextRead = d.ring.nextWrite :=
        hread'.trans (hread.trans hnext)
      have hhidden : ((d.interrupt packet).interrupt packet').ring.slots d.ring.nextWrite =
          none := by
        refine (congrFun hslots' _).trans ?_
        rw [hwritten, Function.update_of_ne hother]
        refine (congrFun hslots _).trans ?_
        simp [hempty]
      rw [RadioRing.hasPacket_eq, hsame, hhidden] at hvisible
      cases hvisible

end RadioDriver

end PqcContiki
