import PqcContiki.RootTurns
import PqcContiki.SessionTable

/-!
Tallies of attempts, successes and failures beside the books of a session: which handshakes are
counted how, and which are lost.
-/
namespace PqcContiki

open Relation Runs

variable {P : Platform} {clk : Clock} {rnd : Entropy} {s s' s'' : Session} {loss loss' : ℕ}

/-- One while a handshake is under way. -/
def inProgress (s : Session) : ℕ := if Pursued s.state then 1 else 0

theorem inProgress_le (s : Session) : inProgress s ≤ 1 := by
  unfold inProgress
  split <;> omega

theorem inProgress_eq_one (h : Pursued s.state) : inProgress s = 1 := if_pos h

theorem inProgress_eq_zero (h : ¬ Pursued s.state) : inProgress s = 0 := if_neg h

theorem inProgress_congr (h : s'.state = s.state) : inProgress s' = inProgress s := by
  rw [inProgress, inProgress, h]

/-- What the counters of a session do not show: the handshakes that never get an outcome, and the
outcomes of the latest one. -/
structure Tally where
  lost : ℕ
  outcomes : ℕ

namespace Tally

def zero : Tally := ⟨0, 0⟩

/-- The tally after a handler that lost `loss` handshakes and took the books from `b` to `b'`. -/
def next (loss : ℕ) (b b' : Books) (t : Tally) : Tally where
  lost := t.lost + loss
  outcomes := (if b'.attempts = b.attempts then t.outcomes else 0) +
    ((b'.success - b.success).toNat + (b'.failure - b.failure).toNat)

end Tally

/-- The books of a session balance, but for the handshakes that were lost. -/
structure Accounts (s : Session) (t : Tally) : Prop where
  balance : s.books.attempts =
    s.books.success + s.books.failure + UInt32.ofNat (inProgress s + t.lost)
  single : t.outcomes + inProgress s ≤ 1

theorem accounts_of_zero (hs : inProgress s = 0) (ha : s.books.attempts = 0)
    (hsuccess : s.books.success = 0) (hfailure : s.books.failure = 0) :
    Accounts s Tally.zero where
  balance := by
    rw [ha, hsuccess, hfailure, hs]
    rfl
  single := by
    rw [hs]
    decide

/-- No handshake began; one that was under way may have come to its end. -/
structure Settles (loss : ℕ) (s s' : Session) (won missed : ℕ) : Prop where
  attempts : s'.books.attempts = s.books.attempts
  success : s'.books.success = s.books.success + UInt32.ofNat won
  failure : s'.books.failure = s.books.failure + UInt32.ofNat missed
  under : inProgress s = won + missed + inProgress s' + loss

/-- A handshake began, and may have failed at once. -/
structure Begins (loss : ℕ) (s s' : Session) (missed : ℕ) : Prop where
  attempts : s'.books.attempts = s.books.attempts + 1
  success : s'.books.success = s.books.success
  failure : s'.books.failure = s.books.failure + UInt32.ofNat missed
  under : inProgress s + 1 = missed + inProgress s' + loss
  single : missed + inProgress s' ≤ 1

theorem gain_toNat (x : UInt32) {k : ℕ} (hk : k ≤ 1) : (x + UInt32.ofNat k - x).toNat = k := by
  rw [UInt32.add_comm, UInt32.add_sub_cancel, UInt32.toNat_ofNat']
  exact Nat.mod_eq_of_lt (by omega)

theorem Settles.accounts {t : Tally} {won missed : ℕ} (h : Settles loss s s' won missed)
    (ha : Accounts s t) :
    Accounts s' (t.next loss s.books s'.books) := by
  have hle := inProgress_le s
  have hunder := h.under
  have hsingle := ha.single
  constructor
  · have hsum : inProgress s + t.lost = won + missed + (inProgress s' + (t.lost + loss)) := by
      omega
    rw [h.attempts, h.success, h.failure, ha.balance, hsum]
    simp only [Tally.next, UInt32.ofNat_add]
    ac_rfl
  · simp only [Tally.next, h.attempts, h.success, h.failure, if_true]
    rw [gain_toNat _ (by omega), gain_toNat _ (by omega)]
    omega

theorem Begins.accounts {t : Tally} {missed : ℕ} (h : Begins loss s s' missed)
    (ha : Accounts s t) : Accounts s' (t.next loss s.books s'.books) := by
  have hunder := h.under
  have hsingle := h.single
  constructor
  · have hsum : inProgress s + t.lost + 1 = missed + (inProgress s' + (t.lost + loss)) := by omega
    have hone : s.books.attempts + 1 =
        s.books.success + s.books.failure + UInt32.ofNat (inProgress s + t.lost + 1) := by
      rw [ha.balance, UInt32.ofNat_add _ 1, ← UInt32.add_assoc]
      rfl
    rw [h.attempts, h.success, h.failure, hone, hsum]
    simp only [Tally.next, UInt32.ofNat_add]
    ac_rfl
  · have hne : s.books.attempts + 1 ≠ s.books.attempts := by
      intro heq
      have hzero : (1 : UInt32) = 0 := by
        have hsub := congrArg (· - s.books.attempts) heq
        simp at hsub
      cases hzero
    simp only [Tally.next, h.attempts, h.success, h.failure, if_neg hne, UInt32.sub_self]
    rw [gain_toNat _ (by omega)]
    simpa using hsingle

theorem Settles.refl (s : Session) : Settles 0 s s 0 0 := ⟨rfl, by simp, by simp, by simp⟩

theorem Settles.trans {k l k' l' : ℕ} (h : Settles loss s s' k l)
    (h' : Settles loss' s' s'' k' l') : Settles (loss + loss') s s'' (k + k') (l + l') where
  attempts := h'.attempts.trans h.attempts
  success := by
    rw [h'.success, h.success, UInt32.ofNat_add]
    ac_rfl
  failure := by
    rw [h'.failure, h.failure, UInt32.ofNat_add]
    ac_rfl
  under := by
    have hunder := h.under
    have hunder' := h'.under
    omega

theorem settles_of_same (hstate : s'.state = s.state)
    (hattempts : s'.books.attempts = s.books.attempts)
    (hsuccess : s'.books.success = s.books.success)
    (hfailure : s'.books.failure = s.books.failure) : Settles 0 s s' 0 0 where
  attempts := hattempts
  success := by simpa using hsuccess
  failure := by simpa using hfailure
  under := by simp [inProgress_congr hstate]

/-- Nothing was lost between the two. -/
def Settled (s s' : Session) : Prop := ∃ won missed, Settles 0 s s' won missed

theorem Settled.refl (s : Session) : Settled s s := ⟨0, 0, Settles.refl s⟩

theorem Settled.trans (h : Settled s s') (h' : Settled s' s'') : Settled s s'' := by
  obtain ⟨k, l, h⟩ := h
  obtain ⟨k', l', h'⟩ := h'
  exact ⟨k + k', l + l', h.trans h'⟩

theorem settled_of_same (hstate : s'.state = s.state)
    (hattempts : s'.books.attempts = s.books.attempts)
    (hsuccess : s'.books.success = s.books.success)
    (hfailure : s'.books.failure = s.books.failure) : Settled s s' :=
  ⟨0, 0, settles_of_same hstate hattempts hsuccess hfailure⟩

theorem Quiet.settled (h : Quiet s s') : Settled s s' :=
  settled_of_same h.state (by rw [h.books]) (by rw [h.books]) (by rw [h.books])

/-- One call of the handshake code settles at most one handshake. -/
theorem Booked.settled (h : Booked s s') : Settled s s' := by
  cases h with
  | quiet hq => exact hq.settled
  | onward hfrom hto _ hb =>
    refine ⟨0, 0, by rw [hb], by simp [hb], by simp [hb], ?_⟩
    rw [inProgress_eq_one (Or.inl hfrom), inProgress_eq_one (Or.inr (Or.inr hto))]
  | failed hfrom hto _ hb =>
    refine ⟨0, 1, by rw [hb]; rfl, by rw [hb]; simp, by rw [hb]; rfl, ?_⟩
    rw [inProgress_eq_one hfrom, inProgress_eq_zero (by simp [hto, Pursued])]
  | succeeded hfrom hto _ hb =>
    refine ⟨1, 0, by rw [hb]; rfl, by rw [hb]; rfl, by rw [hb]; simp, ?_⟩
    rw [inProgress_eq_one hfrom, inProgress_eq_zero (by simp [hto, Pursued])]

/-- A reset forgets a handshake that is under way. -/
theorem settles_sessionReset (s : Session) : Settles (inProgress s) s s.sessionReset 0 0 where
  attempts := rfl
  success := by simp
  failure := by simp
  under := by simp [inProgress_eq_zero (s := s.sessionReset) (by simp [Pursued])]

theorem settled_sessionReset (h : inProgress s = 0) : Settled s s.sessionReset :=
  ⟨0, 0, h ▸ settles_sessionReset s⟩

theorem Settled.begins {m : ℕ} (h : Settled s s') (hzero : inProgress s = 0)
    (hb : Begins loss s' s'' m) : Begins loss s s'' m := by
  obtain ⟨k, l, h⟩ := h
  have hunder := h.under
  have hk : k = 0 := by omega
  have hl : l = 0 := by omega
  subst hk hl
  refine ⟨hb.attempts.trans (by rw [h.attempts]), ?_, ?_, ?_, hb.single⟩
  · rw [hb.success, h.success]
    simp
  · rw [hb.failure, h.failure]
    simp
  · have hunder' := hb.under
    omega

end PqcContiki
