import PqcContiki.AtomicSends
import PqcContiki.NackCodec
import PqcContiki.NackRecovery
import PqcContiki.RootTurns
import PqcContiki.SessionIsolation

/-!
One call of `hs_fsm_retry` for a root that waits for a ciphertext: when it asks for what is
missing.
-/
namespace PqcContiki

open TxQueue Runs

/-- `nack` lists the first missing fragments of `rx`, as many as it has room for. -/
structure PqcNack.AsksFor (nack : PqcNack) (rx : FragmentRxCtx) : Prop where
  msgType : nack.missingMsgType = rx.msgType
  msgId : nack.missingMsgId = rx.msgId
  total : nack.totalFrags = rx.totalFrags
  indices : nack.indices = (rx.missing rx.totalFrags).take pqcNackMaxMissing

/-- The ciphertext in `rx` is recovered: one NACK is queued, what was received is kept, and the
session goes on waiting. -/
structure Recovers (me : SessionRef) (i : Fin hsRxSlotCount) (rx : FragmentRxCtx) (dest : IpAddr)
    (f f' : Fsm) : Prop where
  asks : ∃ (nack : PqcNack) (henc : nack.Encodable), nack.AsksFor rx ∧ Queued udpConn dest
    [(nackMessage henc).packet pqcMsgNack f.s.nodeId f.s.nextMsgId pqcFlagNone 0] f.tx f'.tx
  owns : HsStatics.owns me (f'.hs.rxSlots i) = true
  ctx : (f'.hs.rxSlots i).ctx = rx
  retryCount : f'.s.retryCount = f.s.retryCount + 1
  state : f'.s.state = .waitCt

namespace Fsm

variable {P : Platform} {me : SessionRef} {clk : Clock} {f : Fsm} {i : Fin hsRxSlotCount}

theorem sendNack_asks (hreach : (f.hs.rxSlots i).ctx.Reachable)
    (hactive : (f.hs.rxSlots i).ctx.active = true)
    (hinc : fragmentRxComplete (f.hs.rxSlots i).ctx = false) (hq : f.tx.WellFormed)
    (hempty : f.tx.txCount = 0) (dest : IpAddr) :
    ∃ (nack : PqcNack) (henc : nack.Encodable) (q : TxQueue),
      nack.AsksFor (f.hs.rxSlots i).ctx ∧
      f.sendNack ⟨some udpConn, some dest⟩ i = (nack.missingCount,
        (f.mapS fun s => s.takeMsgId.mapMetrics .noteNackTx).setTx q) ∧
      Queued udpConn dest
        [(nackMessage henc).packet pqcMsgNack f.s.nodeId f.s.nextMsgId pqcFlagNone 0] f.tx q := by
  obtain ⟨h0, hle, hgap⟩ := hreach.gap hactive hinc
  have henc :=
    pqcNackBuildFromRx_encodable (pqcNackInit 0 0 0) pqcNackMaxMissing hactive h0 hle hgap
  obtain ⟨hidx, hcount, htype, hid, htotal⟩ := pqcNackBuildFromRx_spec (pqcNackInit 0 0 0)
    pqcNackMaxMissing hactive h0 hle
  generalize hbuilt : pqcNackBuildFromRx (f.hs.rxSlots i).ctx (pqcNackInit 0 0 0)
    pqcNackMaxMissing = built at *
  obtain ⟨count, nack⟩ := built
  obtain rfl : count = nack.missingCount := hcount
  have hone := nackMessage_count henc
  have hroom : f.txHasRoomFor (nackMessage henc).data.length = true := by
    apply txHasRoomFor_iff.mpr
    simp only [Message.count] at hone
    simp only [hone, pqcTxFreeSlots, hempty]
    decide
  obtain ⟨q, hsend, hqueued⟩ := fragmentTx_room
    (f := f.mapS fun s => s.takeMsgId.mapMetrics .noteNackTx) udpConn dest (nackMessage henc)
    pqcMsgNack f.s.nextMsgId pqcFlagNone hq hroom
  refine ⟨nack, henc, q, ⟨htype, hid, htotal, hidx⟩, ?_, ?_⟩
  · have hpos := henc.count_pos
    unfold sendNack
    simp only [hbuilt, encode_eq_nackMessage henc, hroom, hsend, if_neg hpos.ne']
    simp
  · simpa [Message.packets, hone] using hqueued

/-- What the root gets from its retry depends on whether the session still has its slot. -/
theorem hsFsmRetry_ct (hrole : f.s.role = .root) (hpend : f.s.pendingMsgType = pqcMsgCt)
    (hbudget : f.s.retryCount < sessionMaxRetries) (hdue : f.s.sessionRetryDue (clk 1) = true)
    (hp : f.tx.pqcTxHasPending = false) (dst : UdpSendCtx) :
    f.hsFsmRetry P me clk dst = (f.rxSlotsGc P (clk 0)).retryCtReceive P me clk dst := by
  have hs : (f.rxSlotsGc P (clk 0)).s = f.s := rfl
  have htx : (f.rxSlotsGc P (clk 0)).tx = f.tx := rfl
  have hcan : f.s.sessionCanRetry = true := by simpa [Session.sessionCanRetry] using hbudget
  unfold hsFsmRetry retryPending
  simp only [hs, htx, hdue, hp, hcan, hpend, Session.sessionIsRoot, hrole]
  simp

/-- Without a slot the session fails. -/
theorem retryCtReceive_gone (hnone : ∀ j, HsStatics.owns me (f.hs.rxSlots j) = false)
    (dst : UdpSendCtx) : (f.retryCtReceive P me clk dst).2.s.state = .failed := by
  have hfind : f.hs.rxSlotFind me = none := by
    rw [HsStatics.rxSlotFind, List.find?_eq_none]
    intro j _
    simp [hnone j]
  simp only [retryCtReceive, hfind]
  simp [setFailed, rxSlotRelease, Session.sessionSetFailed_state]

variable (P clk) in
theorem retryCtReceive_recovers (hslots : Assigned (fun _ ctx => ctx.Reachable) f.hs.rxSlots)
    (hown : HsStatics.owns me (f.hs.rxSlots i) = true)
    (hactive : (f.hs.rxSlots i).ctx.active = true)
    (hinc : fragmentRxComplete (f.hs.rxSlots i).ctx = false) (hwait : f.s.state = .waitCt)
    (hbudget : f.s.retryCount < sessionMaxRetries) (hq : f.tx.WellFormed)
    (hempty : f.tx.txCount = 0) (dest : IpAddr) :
    Recovers me i (f.hs.rxSlots i).ctx dest f
      (f.retryCtReceive P me clk ⟨some udpConn, some dest⟩).2 := by
  have hfirst : ∀ j < i, HsStatics.owns me (f.hs.rxSlots j) = false := by
    intro j hj
    rw [← Bool.not_eq_true]
    intro hown'
    exact hj.ne (hslots.single j i me hown' hown)
  have hfind := rxSlotFind_eq_some hown hfirst
  obtain ⟨me', -, hreach⟩ := hslots.owned i (owns_iff.mp hown).1
  obtain ⟨nack, henc, q, hasks, hsend, hqueued⟩ := sendNack_asks hreach hactive hinc hq hempty dest
  have hpos := henc.count_pos
  have htouch : f.hs.rxSlotTouch (clk 4) me =
      f.hs.setSlot i { f.hs.rxSlots i with startedAt := clk 4 } := by
    simp only [HsStatics.rxSlotTouch, hfind]
  set slot : RxSlot := { f.hs.rxSlots i with startedAt := clk 4 } with hslot
  have hown' : HsStatics.owns me slot = true := hown
  have hret : (f.retryCtReceive P me clk ⟨some udpConn, some dest⟩).2 =
      ⟨(((f.s.takeMsgId.mapMetrics .noteNackTx).setRetryDeadline
          (P.clockAdd (clk 5) P.hsNackRepeatDelay)).hsMarkRxRetry P (clk 6)),
        f.hs.setSlots (Function.update f.hs.rxSlots i { slot with
          lastNackAt := clk 5
          lastNackReceivedFrags := slot.ctx.receivedFrags
          lastNackMissingCount := nack.missingCount }), q, f.obs⟩ := by
    unfold retryCtReceive
    simp only [hfind, hactive, hinc, hsend]
    simp [rxSlotNoteNack, htouch, hpos.ne', hown', HsStatics.setSlot, HsStatics.setSlots, mapHs,
      mapS]
  rw [hret]
  refine ⟨⟨nack, henc, hasks, hqueued⟩, ?_, ?_, ?_, hwait⟩
  · simp only [HsStatics.slots_setSlots, Function.update_self]
    exact hown
  · simp [hslot]
  · have hlt : f.s.retryCount + 1 < 2 ^ 8 := by
      simp only [sessionMaxRetries] at hbudget
      omega
    exact Nat.mod_eq_of_lt hlt

end Fsm

/-- A retry takes no slot for anybody. -/
theorem Retried.owns {f f' : Fsm} (h : Retried f f') {you : SessionRef} {i : Fin hsRxSlotCount}
    (hown : HsStatics.owns you (f'.hs.rxSlots i) = true) :
    HsStatics.owns you (f.hs.rxSlots i) = true := by
  have hcollected {slots : Slots} (hc : Collected f.hs.rxSlots slots)
      (hi : HsStatics.owns you (slots i) = true) : HsStatics.owns you (f.hs.rxSlots i) = true := by
    rcases hc i with hsame | hzero
    · rwa [hsame] at hi
    · rw [hzero, not_owns_zero] at hi
      cases hi
  cases h with
  | waited _ hc | failed _ _ _ hc _ | resent _ _ hc _ | stray _ hc _ => exact hcollected hc hown
  | @asked s slots tx j slot n _ _ hc _ hnew _ =>
    simp only [HsStatics.slots_setSlots] at hown
    by_cases hij : i = j
    · subst i
      rw [Function.update_self, hnew.owns] at hown
      exact hcollected hc hown
    · rw [Function.update_of_ne hij] at hown
      exact hcollected hc hown

namespace Fsm

variable {P : Platform} {me you : SessionRef} {clk : Clock} {dst : UdpSendCtx} {f : Fsm}
  {i : Fin hsRxSlotCount}

theorem hsFsmRetry_early (h : f.s.sessionRetryDue (clk 1) = false) :
    (f.hsFsmRetry P me clk dst).2 = f.rxSlotsGc P (clk 0) := by
  have hs : (f.rxSlotsGc P (clk 0)).s = f.s := rfl
  simp only [hsFsmRetry, hs, h]
  rfl

/-- Collecting at the same time once more changes nothing. -/
theorem hsFsmRetry_collected : (f.rxSlotsGc P (clk 0)).hsFsmRetry P me clk dst =
    f.hsFsmRetry P me clk dst := by
  have hidem : (f.rxSlotsGc P (clk 0)).rxSlotsGc P (clk 0) = f.rxSlotsGc P (clk 0) := by
    have hhs : (f.hs.rxSlotsGc P (clk 0)).rxSlotsGc P (clk 0) = f.hs.rxSlotsGc P (clk 0) := by
      unfold HsStatics.rxSlotsGc
      dsimp only
      congr 1
      funext i
      by_cases hexp : HsStatics.slotExpired P (clk 0) (f.hs.rxSlots i) = true
      · simp [hexp]
      · simp [hexp]
    exact congrArg (fun hs => (⟨f.s, hs, f.tx, f.obs⟩ : Fsm)) hhs
  simp only [hsFsmRetry, hidem]

/-- Whoever has a slot after a retry had it before, and it had not expired. -/
theorem hsFsmRetry_owns
    (hown : HsStatics.owns you ((f.hsFsmRetry P me clk dst).2.hs.rxSlots i) = true) :
    HsStatics.owns you (f.hs.rxSlots i) = true ∧
      HsStatics.slotExpired P (clk 0) (f.hs.rxSlots i) = false := by
  rw [← hsFsmRetry_collected] at hown
  have hkept := (hsFsmRetry_cases P me clk dst (f.rxSlotsGc P (clk 0))).owns hown
  cases hexp : HsStatics.slotExpired P (clk 0) (f.hs.rxSlots i) with
  | true =>
    have hzero : (f.rxSlotsGc P (clk 0)).hs.rxSlots i = RxSlot.zero := if_pos hexp
    rw [hzero, not_owns_zero] at hkept
    cases hkept
  | false =>
    have hsame : (f.rxSlotsGc P (clk 0)).hs.rxSlots i = f.hs.rxSlots i := if_neg (by simp [hexp])
    rw [hsame] at hkept
    exact ⟨hkept, rfl⟩

end Fsm

end PqcContiki
