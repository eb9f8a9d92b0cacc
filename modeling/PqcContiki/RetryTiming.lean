import PqcContiki.HandshakeHandlers

/-! Retry deadlines against the wrap of the clock. -/
namespace PqcContiki

variable {P : Platform} {t₀ d D : ℕ} {f : Fsm}

/-- The calls that set a retry deadline. -/
inductive RetryTimer where
  | setPending (msgType msgId : UInt8)
  | setPendingForTransfer (msgType msgId : UInt8) (transferLen : ℕ)
  | markRetryForTransfer (transferLen : ℕ)
  | markRxRetry
  | noteNack (me : SessionRef) (i : Fin hsRxSlotCount) (missingCount : ℕ)

namespace RetryTimer

def arm (P : Platform) (now : ℕ) : RetryTimer → Fsm → Fsm
  | setPending msgType msgId, f => f.mapS (Session.sessionSetPending P now msgType msgId)
  | setPendingForTransfer msgType msgId transferLen, f =>
    f.mapS (Session.hsSetPendingForTransfer P now msgType msgId transferLen)
  | markRetryForTransfer transferLen, f => f.mapS (Session.hsMarkRetryForTransfer P now transferLen)
  | markRxRetry, f => f.mapS (Session.hsMarkRxRetry P now)
  | noteNack me i missingCount, f => f.rxSlotNoteNack P now me i missingCount

/-- The timeout the call adds to the clock, as a `clock_time_t`. -/
def timeout (P : Platform) (t : RetryTimer) : ℕ :=
  (match t with
    | setPending _ _ | markRxRetry => P.sessionRetryTimeout
    | setPendingForTransfer _ _ transferLen | markRetryForTransfer transferLen =>
      P.sessionRetryTimeout + hsTransferExtra P transferLen
    | noteNack _ _ _ => P.hsNackRepeatDelay) % 2 ^ P.clockBits

/-- `rx_slot_note_nack` sets a deadline only for a NACK that was sent, from a slot of the
session; the other calls always do. -/
def Sets (f : Fsm) : RetryTimer → Prop
  | noteNack me i missingCount => missingCount ≠ 0 ∧ HsStatics.owns me (f.hs.rxSlots i) = true
  | _ => True

theorem arm_retryDeadline {t : RetryTimer} (hsets : t.Sets f) :
    (t.arm P t₀ f).s.retryDeadline = P.clockAdd t₀ (t.timeout P) := by
  have hwrap (x : ℕ) : P.clockAdd t₀ (x % 2 ^ P.clockBits) = P.clockAdd t₀ x :=
    Nat.add_mod_mod _ _ _
  cases t with
  | setPending => exact (hwrap _).symm
  | setPendingForTransfer => exact (hwrap _).symm
  | markRetryForTransfer => exact (hwrap _).symm
  | markRxRetry => exact (hwrap _).symm
  | noteNack me i missingCount =>
    rw [arm, Fsm.rxSlotNoteNack, if_neg (by simpa [Sets] using hsets)]
    exact (hwrap _).symm

end RetryTimer

namespace Platform

/-- Both ends of an interval that starts at `t₀` lie before the wrap, or both behind it. -/
def SameSide (P : Platform) (t₀ D d : ℕ) : Prop :=
  t₀ + D < 2 ^ P.clockBits ↔ t₀ + d < 2 ^ P.clockBits

instance (P : Platform) (t₀ D d : ℕ) : Decidable (P.SameSide t₀ D d) :=
  inferInstanceAs (Decidable (_ ↔ _))

theorem clockAdd_cases (ht : t₀ < 2 ^ P.clockBits) (hd : d < 2 ^ P.clockBits) :
    t₀ + d < 2 ^ P.clockBits ∧ P.clockAdd t₀ d = t₀ + d ∨
      2 ^ P.clockBits ≤ t₀ + d ∧ P.clockAdd t₀ d = t₀ + d - 2 ^ P.clockBits := by
  rcases Nat.lt_or_ge (t₀ + d) (2 ^ P.clockBits) with h | h
  · exact Or.inl ⟨h, Nat.mod_eq_of_lt h⟩
  · refine Or.inr ⟨h, ?_⟩
    rw [clockAdd, Nat.mod_eq_sub_mod h, Nat.mod_eq_of_lt (by omega)]

/-- The age that `rx_slots_gc` and `rx_slot_nack_due` compute is the time that passed. -/
theorem clockSub_clockAdd (ht : t₀ < 2 ^ P.clockBits) (hd : d < 2 ^ P.clockBits) :
    P.clockSub (P.clockAdd t₀ d) t₀ = d := by
  rw [clockSub, Nat.mod_eq_of_lt ht]
  rcases clockAdd_cases ht hd with ⟨h, hadd⟩ | ⟨h, hadd⟩
  · rw [hadd, show t₀ + d + (2 ^ P.clockBits - t₀) = d + 2 ^ P.clockBits by omega,
      Nat.add_mod_right, Nat.mod_eq_of_lt hd]
  · rw [hadd, show t₀ + d - 2 ^ P.clockBits + (2 ^ P.clockBits - t₀) = d by omega,
      Nat.mod_eq_of_lt hd]

/-- The comparison of `session_retry_due` is the age test exactly on one side of the wrap. -/
theorem deadline_iff (ht : t₀ < 2 ^ P.clockBits) (hd : d < 2 ^ P.clockBits)
    (hD : D < 2 ^ P.clockBits) :
    (P.clockAdd t₀ d ≥ P.clockAdd t₀ D ↔ D ≤ d) ↔ P.SameSide t₀ D d := by
  unfold SameSide
  rcases clockAdd_cases ht hd with ⟨h, hadd⟩ | ⟨h, hadd⟩ <;>
    rcases clockAdd_cases ht hD with ⟨h', hadd'⟩ | ⟨h', hadd'⟩ <;>
    rw [hadd, hadd'] <;> omega

end Platform

/-- A session that is not due is left alone by the retry. -/
theorem Fsm.hsFsmRetry_idle {me : SessionRef} {clk : Clock} {dst : UdpSendCtx}
    (h : f.s.sessionRetryDue (clk 1) = false) : (f.hsFsmRetry P me clk dst).2.s = f.s := by
  rw [hsFsmRetry, if_pos]
  · rfl
  · change (!f.s.sessionRetryDue (clk 1)) = true
    rw [h]
    rfl

theorem sessionRetryDue_iff {t : RetryTimer} (hsets : t.Sets f) (ht : t₀ < 2 ^ P.clockBits)
    (hd : d < 2 ^ (P.clockBits - 1)) :
    ((t.arm P t₀ f).s.sessionRetryDue (P.clockAdd t₀ d) = true ↔ t.timeout P ≤ d) ↔
      (t.arm P t₀ f).s.waitingResponse = true ∧ P.SameSide t₀ (t.timeout P) d ∨
        (t.arm P t₀ f).s.waitingResponse = false ∧ d < t.timeout P := by
  have hpos : 0 < 2 ^ P.clockBits := Nat.two_pow_pos _
  have hhalf : 2 ^ (P.clockBits - 1) ≤ 2 ^ P.clockBits :=
    Nat.pow_le_pow_right (by decide) (Nat.sub_le _ _)
  have hD : t.timeout P < 2 ^ P.clockBits := Nat.mod_lt _ hpos
  rw [← Platform.deadline_iff ht (by omega) hD]
  unfold Session.sessionRetryDue
  rw [RetryTimer.arm_retryDeadline hsets]
  cases (t.arm P t₀ f).s.waitingResponse
  · simp
  · simp

/-- A deadline is kept exactly while it and the clock are on one side of the wrap, and there no
retry is spent before its timeout. -/
theorem retry_timing (P : Platform) (t : RetryTimer) (f : Fsm) (t₀ d : ℕ) (hsets : t.Sets f)
    (ht : t₀ < 2 ^ P.clockBits) (hd : d < 2 ^ (P.clockBits - 1)) :
    (((t.arm P t₀ f).s.sessionRetryDue (P.clockAdd t₀ d) = true ↔ t.timeout P ≤ d) ↔
      (t.arm P t₀ f).s.waitingResponse = true ∧ P.SameSide t₀ (t.timeout P) d ∨
        (t.arm P t₀ f).s.waitingResponse = false ∧ d < t.timeout P) ∧
    P.clockSub (P.clockAdd t₀ d) t₀ = d ∧
    ∀ (me : SessionRef) (clk : Clock) (dst : UdpSendCtx), clk 1 = P.clockAdd t₀ d →
      P.SameSide t₀ (t.timeout P) d →
      ((t.arm P t₀ f).hsFsmRetry P me clk dst).2.s ≠ (t.arm P t₀ f).s → t.timeout P ≤ d := by
  have hhalf : 2 ^ (P.clockBits - 1) ≤ 2 ^ P.clockBits :=
    Nat.pow_le_pow_right (by decide) (Nat.sub_le _ _)
  have hiff := sessionRetryDue_iff hsets ht hd
  refine ⟨hiff, Platform.clockSub_clockAdd ht (by omega), ?_⟩
  intro me clk dst hclk hside hchanged
  have hdue : (t.arm P t₀ f).s.sessionRetryDue (P.clockAdd t₀ d) = true := by
    by_contra hno
    rw [← hclk] at hno
    exact hchanged (Fsm.hsFsmRetry_idle (Bool.eq_false_iff.mpr hno))
  have hwaiting : (t.arm P t₀ f).s.waitingResponse = true := by
    unfold Session.sessionRetryDue at hdue
    rw [Bool.and_eq_true] at hdue
    exact hdue.1
  exact (hiff.mpr (Or.inl ⟨hwaiting, hside⟩)).mp hdue

/-- A node as it is made, with nothing queued. -/
def idleFsm : Fsm := ⟨Session.sessionInit .node 7, HsStatics.zero, pqcTxInit, []⟩

/-- Two minutes after a request, far from the wrap, the retry is due. -/
theorem retry_timing_two_minutes :
    ((RetryTimer.setPending pqcMsgGetpk 0).arm Platform.demo 1000 idleFsm).s.sessionRetryDue
      (Platform.demo.clockAdd 1000 15360) = true := by
  have h := retry_timing Platform.demo (.setPending pqcMsgGetpk 0) idleFsm 1000 15360 trivial
    (by decide) (by decide)
  exact (h.1.mpr (Or.inl ⟨rfl, by decide⟩)).mpr (by decide)

/-- The retries of one tick a second, each with everything transmitted before it. -/
def retriesAt (ticks : List ℕ) (f : Fsm) : Fsm :=
  ticks.foldl (fun f t => ((f.setTx pqcTxInit).hsFsmRetry Platform.demo .localSession (fun _ => t)
    ⟨some 0, some 0⟩).2) f

/-- A request four seconds before the wrap is due at once, and its three retries and the handshake
are gone before the clock wraps. -/
theorem retry_timing_wrap :
    ((RetryTimer.setPending pqcMsgGetpk 0).arm Platform.demo (2 ^ 32 - 512)
        idleFsm).s.sessionRetryDue (Platform.demo.clockAdd (2 ^ 32 - 512) 0) = true ∧
      ¬ (RetryTimer.setPending pqcMsgGetpk 0).timeout Platform.demo ≤ 0 ∧
      (retriesAt [2 ^ 32 - 512, 2 ^ 32 - 384, 2 ^ 32 - 256, 2 ^ 32 - 128]
        ((RetryTimer.setPending pqcMsgGetpk 0).arm Platform.demo (2 ^ 32 - 512)
          idleFsm)).s.state = .failed := by
  decide +kernel

end PqcContiki
