import PqcContiki.FragmentBooks

/-! What retries and new handshakes do to the books of a session. -/
namespace PqcContiki

variable {P : Platform} {me : SessionRef} {clk : Clock} {rnd : Entropy} {dst : UdpSendCtx}
  {h : FragmentHeader} {payload : Bytes} {ctx : FragmentRxCtx} {f : Fsm} {s s' s'' : Session}

namespace Fsm

theorem booked_retryCtReceive (hs : Pursued f.s.state) :
    Booked f.s (f.retryCtReceive P me clk dst).2.s := by
  unfold retryCtReceive
  dsimp only
  split
  · exact Session.booked_sessionSetFailed P (clk 8) hs
  · rename_i i _
    have hnack := quiet_sendNack dst i f
    split
    · split
      · have htouched : Quiet f.s ((f.sendNack dst i).2.mapHs
          (HsStatics.rxSlotTouch (clk 4) me)).s := hnack
        refine .quiet (htouched.trans ?_)
        exact (quiet_rxSlotNoteNack ..).trans ⟨rfl, rfl, rfl⟩
      · apply hnack.booked
        exact Session.booked_sessionSetFailed P (clk 8) (hnack.state ▸ hs)
    · exact Session.booked_sessionSetFailed P (clk 8) hs

theorem quiet_retryTransfer (data : Bytes) (msgType : UInt8) (f : Fsm) :
    Quiet f.s (f.retryTransfer P clk dst data msgType).2.s := by
  unfold retryTransfer
  split
  · exact ⟨rfl, rfl, rfl⟩
  · dsimp only
    split <;> exact ⟨rfl, rfl, rfl⟩

theorem booked_retryPending (hs : Pursued f.s.state) :
    Booked f.s (f.retryPending P me clk dst).2.s := by
  unfold retryPending
  split
  · exact booked_retryCtReceive hs
  · dsimp only
    generalize hf : f.rxSlotRelease me = g
    have hq : Quiet f.s g.s := by rw [← hf]; exact Quiet.refl f.s
    split
    · split <;> exact .quiet (hq.trans ⟨rfl, rfl, rfl⟩)
    · split
      · split
        · exact booked_setFailed hq hs (clk 3)
        · exact .quiet (hq.trans (quiet_retryTransfer _ _ g))
      · split
        · exact .quiet (hq.trans (quiet_retryTransfer _ _ g))
        · exact .quiet hq

theorem booked_hsFsmRetry (P : Platform) (me : SessionRef) (clk : Clock) (dst : UdpSendCtx)
    (hs : f.s.waitingResponse = true → Pursued f.s.state) :
    Booked f.s (f.hsFsmRetry P me clk dst).2.s := by
  unfold hsFsmRetry
  dsimp only
  generalize hf : f.rxSlotsGc P (clk 0) = g
  have hgs : g.s = f.s := by rw [← hf]; rfl
  rw [← hgs] at hs ⊢
  split
  · exact .quiet (Quiet.refl g.s)
  · rename_i hdue
    have hwait : Pursued g.s.state := by
      apply hs
      simp only [Session.sessionRetryDue, Bool.not_eq_true', Bool.not_eq_false,
        Bool.and_eq_true] at hdue
      exact hdue.1
    split
    · exact .quiet ⟨rfl, rfl, rfl⟩
    · split
      · split <;> exact Session.booked_sessionSetFailed P (clk 3) hwait
      · exact booked_retryPending hwait

/-- There is a key pair, or one can be made, but no room for the fragments of the key. -/
def Refuses (P : Platform) (rnd : Entropy) (f : Fsm) : Prop :=
  (f.hs.hsFsmRootInitKeypair P rnd).1 = true ∧ f.txHasRoomFor cwHqcPublicKeyLen = false

instance (P : Platform) (rnd : Entropy) (f : Fsm) : Decidable (f.Refuses P rnd) :=
  inferInstanceAs (Decidable (_ ∧ _))

/-- What `hs_fsm_start` can do at the root to a session that is not failed, and its result. -/
inductive Opened (P : Platform) (rnd : Entropy) (f : Fsm) (ok : Bool) (s' : Session) : Prop
  | sent (hok : ok = true) (hroom : ¬ f.Refuses P rnd) (hto : s'.state = .waitCt)
      (hest : s'.established = f.s.established) (hb : s'.books = f.s.books.attempt)
  | failed (hok : ok = false) (hroom : ¬ f.Refuses P rnd) (hto : s'.state = .failed)
      (hest : s'.established = false) (hb : s'.books = f.s.books.attempt.fail)
  | refused (hok : ok = false) (hroom : f.Refuses P rnd) (hto : s'.state = f.s.state)
      (hest : s'.established = f.s.established) (hb : s'.books = f.s.books.attempt)

theorem opened_sendPk {g : Fsm} (hroom : ¬ f.Refuses P rnd)
    (hest : g.s.established = f.s.established) (hb : g.s.books = f.s.books.attempt) :
    Opened P rnd f (g.sendPk P clk dst).1 (g.sendPk P clk dst).2.s := by
  unfold sendPk
  dsimp only
  generalize hg : g.mapS _ = g'
  have hstate' : g'.s.state = .waitCt := by rw [← hg]; rfl
  have hest' : g'.s.established = f.s.established := by rw [← hg]; exact hest
  have hb' : g'.s.books = f.s.books.attempt := by rw [← hg]; exact hb
  split
  · refine .failed rfl hroom rfl rfl ?_
    rw [← hb']
    exact Session.books_sessionSetFailed P (clk 7) (hstate' ▸ by decide)
  · exact .sent rfl hroom hstate' hest' hb'

theorem opened_hsFsmStart (P : Platform) (clk : Clock) (rnd : Entropy) (dst : UdpSendCtx)
    (hrole : f.s.role = .root) (hs : f.s.state ≠ .failed) :
    Opened P rnd f (f.hsFsmStart P clk rnd dst).1 (f.hsFsmStart P clk rnd dst).2.s := by
  unfold hsFsmStart
  have hgc : (f.rxSlotsGc P (clk 0)).s.role = .root := hrole
  simp only [hgc]
  generalize hg : mapS (Session.mapMetrics _) _ = g
  have hstate : g.s.state = f.s.state := by rw [← hg]; rfl
  have hest : g.s.established = f.s.established := by rw [← hg]; rfl
  have hb : g.s.books = f.s.books.attempt := by rw [← hg]; rfl
  have htx : g.tx = f.tx := by rw [← hg]; rfl
  have hkey : (g.hs.hsFsmRootInitKeypair P rnd).1 = (f.hs.hsFsmRootInitKeypair P rnd).1 := by
    rw [← hg]
    unfold HsStatics.hsFsmRootInitKeypair
    split <;> split <;> first | rfl | contradiction
  split
  · rename_i hfail
    refine .failed rfl ?_ rfl rfl ?_
    · rintro ⟨hok, -⟩
      rw [← hkey] at hok
      simp [hok] at hfail
    · rw [← hb]
      exact Session.books_sessionSetFailed P (clk 3) (hstate ▸ hs)
  · rename_i hok
    have hok : (f.hs.hsFsmRootInitKeypair P rnd).1 = true := by
      rw [← hkey]
      simpa using hok
    generalize ite (g.hs.rootHasKeypair = true) 0 (clk 2) = keypairStartedAt
    generalize hg' : mapS _ (mapHs _ g) = g'
    have hq : Quiet g.s g'.s := by
      rw [← hg']
      simp only [mapS_s, mapHs_s]
      split <;> exact ⟨rfl, rfl, rfl⟩
    have htx' : g'.tx = f.tx := by rw [← hg', ← htx]; rfl
    have hroom : g'.txHasRoomFor cwHqcPublicKeyLen = f.txHasRoomFor cwHqcPublicKeyLen := by
      rw [txHasRoomFor, txHasRoomFor, htx']
    split
    · rename_i hno
      refine .refused rfl ⟨hok, ?_⟩ (hq.state.trans hstate) (hq.established.trans hest)
        (hq.books.trans hb)
      rw [← hroom]
      simpa using hno
    · rename_i hyes
      refine opened_sendPk ?_ (hq.established.trans hest) (hq.books.trans hb)
      rintro ⟨-, hno⟩
      rw [← hroom] at hno
      simp [hno] at hyes

end Fsm

theorem SessionCore.Coherent.pursued (hc : s.core.Coherent) (hw : s.waitingResponse = true) :
    Pursued s.state := by
  rcases hc.isWaiting hw with ⟨-, hs, -⟩ | ⟨-, hs, -⟩ | ⟨-, hs, -⟩
  · exact Or.inr (Or.inl hs)
  · exact Or.inl hs
  · exact Or.inr (Or.inr hs)

end PqcContiki
