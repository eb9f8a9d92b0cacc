import PqcContiki.SessionMachine

/-! What a session counts and reports beside its state, and what a fragment does to it. -/
namespace PqcContiki

/-- The counters of a session that its CSV rows are about, less the handshake's timings. -/
structure Books where
  attempts : UInt32
  success : UInt32
  failure : UInt32
  temp : TempMetrics
  rxCounter : UInt32
  nodeMetricValues : Fin (pqcMetricsGroupCount + 1) → Fin 4 → UInt32
  nodeMetricsMask : UInt8
  sessionSummaryEmitted : Bool

@[simps] def Session.books (s : Session) : Books where
  attempts := s.metrics.handshake.attempts
  success := s.metrics.handshake.success
  failure := s.metrics.handshake.failure
  temp := s.metrics.temp
  rxCounter := s.rxCounter
  nodeMetricValues := s.nodeMetricValues
  nodeMetricsMask := s.nodeMetricsMask
  sessionSummaryEmitted := s.sessionSummaryEmitted

namespace Books

@[simps] def attempt (b : Books) : Books := { b with attempts := b.attempts + 1 }

@[simps] def succeed (b : Books) : Books := { b with success := b.success + 1 }

@[simps] def fail (b : Books) : Books := { b with failure := b.failure + 1 }

/-- What `session_reset` leaves of them. -/
@[simps] def reset (b : Books) : Books :=
  { b with
    rxCounter := 0
    nodeMetricValues := fun _ _ => 0
    nodeMetricsMask := 0
    sessionSummaryEmitted := false }

end Books

variable {P : Platform} {me : SessionRef} {clk : Clock} {rnd : Entropy} {dst : UdpSendCtx}
  {h : FragmentHeader} {payload : Bytes} {ctx : FragmentRxCtx} {f : Fsm} {s s' s'' : Session}

/-- Neither the state of a session nor its books changed. -/
structure Quiet (s s' : Session) : Prop where
  state : s'.state = s.state
  established : s'.established = s.established
  books : s'.books = s.books

/-- A handshake is under way. -/
def Pursued (state : SessionState) : Prop := state = .waitPk ∨ state = .waitCt ∨ state = .waitAck

instance (state : SessionState) : Decidable (Pursued state) :=
  inferInstanceAs (Decidable (_ ∨ _ ∨ _))

/-- What one call of the handshake code can do to a session and its books. -/
inductive Booked (s s' : Session) : Prop
  | quiet (hq : Quiet s s')
  /-- The node has the key and waits for the acknowledgement. -/
  | onward (hfrom : s.state = .waitPk) (hto : s'.state = .waitAck)
      (hest : s'.established = s.established) (hb : s'.books = s.books)
  | failed (hfrom : Pursued s.state) (hto : s'.state = .failed) (hest : s'.established = false)
      (hb : s'.books = s.books.fail)
  | succeeded (hfrom : Pursued s.state) (hto : s'.state = .established)
      (hest : s'.established = true) (hb : s'.books = s.books.succeed)

theorem Quiet.refl (s : Session) : Quiet s s := ⟨rfl, rfl, rfl⟩

theorem Quiet.trans (hq : Quiet s s') (hq' : Quiet s' s'') : Quiet s s'' :=
  ⟨hq'.state.trans hq.state, hq'.established.trans hq.established, hq'.books.trans hq.books⟩

theorem Quiet.sessionIsEstablished (hq : Quiet s s') :
    s'.sessionIsEstablished = s.sessionIsEstablished := by
  rw [Session.sessionIsEstablished, Session.sessionIsEstablished, hq.state, hq.established]

theorem Quiet.booked (hq : Quiet s s') (hb : Booked s' s'') : Booked s s'' := by
  cases hb with
  | quiet hq' => exact .quiet (hq.trans hq')
  | onward hfrom hto hest hb =>
    exact .onward (hq.state ▸ hfrom) hto (hest.trans hq.established) (hb.trans hq.books)
  | failed hfrom hto hest hb => exact .failed (hq.state ▸ hfrom) hto hest (hq.books ▸ hb)
  | succeeded hfrom hto hest hb => exact .succeeded (hq.state ▸ hfrom) hto hest (hq.books ▸ hb)

theorem Booked.then (hb : Booked s s') (hq : Quiet s' s'') : Booked s s'' := by
  cases hb with
  | quiet hq' => exact .quiet (hq'.trans hq)
  | onward hfrom hto hest hb =>
    exact .onward hfrom (hq.state.trans hto) (hq.established.trans hest) (hq.books.trans hb)
  | failed hfrom hto hest hb =>
    exact .failed hfrom (hq.state.trans hto) (hq.established.trans hest) (hq.books.trans hb)
  | succeeded hfrom hto hest hb =>
    exact .succeeded hfrom (hq.state.trans hto) (hq.established.trans hest) (hq.books.trans hb)

namespace Session

theorem books_recordDuration (P : Platform) (now : ℕ) (m : MetricsSnapshot) (s : Session) :
    (s.mapMetrics fun _ => m.recordDuration P now).books = (s.mapMetrics fun _ => m).books := by
  unfold MetricsSnapshot.recordDuration
  split <;> rfl

theorem books_handshakeSuccess (P : Platform) (now : ℕ) (s : Session) :
    (s.mapMetrics (.pqcMetricsHandshakeSuccess P now)).books = s.books.succeed :=
  books_recordDuration P now _ s

theorem books_sessionSetFailed (P : Platform) (now : ℕ) (hs : s.state ≠ .failed) :
    (s.sessionSetFailed P now).books = s.books.fail := by
  unfold sessionSetFailed
  rw [if_pos hs]
  exact books_recordDuration P now _ s

@[simp] theorem books_sessionReset (s : Session) : s.sessionReset.books = s.books.reset := rfl

theorem booked_sessionSetFailed (P : Platform) (now : ℕ) (hs : Pursued s.state) :
    Booked s (s.sessionSetFailed P now) := by
  have hne : s.state ≠ .failed := by
    rcases hs with hs | hs | hs <;> simp [hs]
  exact .failed hs rfl rfl (books_sessionSetFailed P now hne)

theorem quiet_adoptNodeId (nodeId : UInt16) (s : Session) : Quiet s (s.adoptNodeId nodeId) := by
  rcases s.adoptNodeId_cases nodeId with h | h <;> rw [h] <;> exact ⟨rfl, rfl, rfl⟩

end Session

namespace Fsm

theorem booked_setFailed {g : Fsm} (hq : Quiet f.s g.s) (hs : Pursued f.s.state) (now : ℕ) :
    Booked f.s (g.setFailed P now).s :=
  hq.booked (Session.booked_sessionSetFailed P now (hq.state ▸ hs))

theorem quiet_sendAck (dst : UdpSendCtx) (msgId : UInt8) (f : Fsm) :
    Quiet f.s (f.sendAck dst msgId).2.s := by
  unfold sendAck
  split
  · exact Quiet.refl f.s
  · dsimp only
    split <;> exact ⟨rfl, rfl, rfl⟩

theorem quiet_sendNack (dst : UdpSendCtx) (i : Fin hsRxSlotCount) (f : Fsm) :
    Quiet f.s (f.sendNack dst i).2.s := by
  unfold sendNack
  dsimp only
  split
  · exact Quiet.refl f.s
  · split
    · exact Quiet.refl f.s
    · split
      · exact Quiet.refl f.s
      · split <;> exact ⟨rfl, rfl, rfl⟩

theorem quiet_rxSlotNoteNack (now : ℕ) (i : Fin hsRxSlotCount) (n : ℕ) (f : Fsm) :
    Quiet f.s (f.rxSlotNoteNack P now me i n).s := by
  unfold rxSlotNoteNack
  dsimp only
  split <;> exact ⟨rfl, rfl, rfl⟩

theorem quiet_requestMissing (i : Fin hsRxSlotCount) (fragIdx : ℕ) (f : Fsm) :
    Quiet f.s (f.requestMissing P me clk dst i fragIdx).s := by
  unfold requestMissing
  split
  · exact (quiet_sendNack dst i f).trans (quiet_rxSlotNoteNack ..)
  · exact Quiet.refl f.s

theorem quiet_retransmit (now : ℕ) (nack : PqcNack) (f : Fsm) :
    Quiet f.s (f.retransmitNackFragments P now dst nack).2.s := by
  have hnoted : Quiet f.s (f.mapS (Session.mapMetrics .noteNackRx)).s := ⟨rfl, rfl, rfl⟩
  unfold retransmitNackFragments
  dsimp only
  generalize f.mapS (Session.mapMetrics .noteNackRx) = g at hnoted ⊢
  split
  · exact hnoted
  · split
    · exact hnoted
    · split
      · exact hnoted
      · split
        · exact hnoted.trans ⟨rfl, rfl, rfl⟩
        · split
          · exact hnoted
          · exact hnoted.trans ⟨rfl, rfl, rfl⟩

theorem quiet_handleNack (f : Fsm) : Quiet f.s (f.handleNack P clk dst h payload).2.s := by
  unfold handleNack
  split
  · exact Quiet.refl f.s
  · split
    · exact Quiet.refl f.s
    · exact quiet_retransmit ..

theorem booked_sendCt (hs : f.s.state = .waitPk) : Booked f.s (f.sendCt P clk dst).2.s := by
  unfold sendCt
  dsimp only
  generalize hg : f.mapS _ = g
  have hstate : g.s.state = .waitAck := by rw [← hg]; rfl
  have hbooks : g.s.books = f.s.books := by rw [← hg]; rfl
  have hest : g.s.established = f.s.established := by rw [← hg]; rfl
  split
  · refine .failed (Or.inl hs) rfl rfl ?_
    rw [← hbooks]
    exact Session.books_sessionSetFailed P (clk 11) (hstate ▸ by decide)
  · exact .onward hs hstate hest hbooks

theorem booked_completePk (hs : f.s.state = .waitPk) :
    Booked f.s (f.completePk P me clk rnd dst ctx).2.s := by
  have hwait : Pursued f.s.state := Or.inl hs
  unfold completePk
  split
  · exact booked_setFailed (Quiet.refl f.s) hwait (clk 3)
  · dsimp only
    generalize hg : observe _ _ = g
    have hq : Quiet f.s g.s := by rw [← hg]; exact ⟨rfl, rfl, rfl⟩
    split
    · exact booked_setFailed hq hwait (clk 6)
    · generalize hg' : rxSlotRelease me (mapS _ g) = g'
      have hq' : Quiet f.s g'.s := by rw [← hg']; exact hq.trans ⟨rfl, rfl, rfl⟩
      split
      · exact booked_setFailed (g := g'.zeroNodeCt) hq' hwait (clk 8)
      · exact hq'.booked (booked_sendCt (hq'.state.trans hs))

theorem booked_completeAck (hs : f.s.state = .waitAck) :
    Booked f.s (f.completeAck P me clk ctx).2.s := by
  unfold completeAck
  split
  · exact .quiet (Quiet.refl f.s)
  · refine .succeeded (Or.inr (Or.inr hs)) rfl rfl ?_
    exact Session.books_handshakeSuccess P (clk 5) _

theorem booked_decapsulateCt (hs : f.s.state = .waitCt) (msgId : UInt8) :
    Booked f.s (f.decapsulateCt P clk dst msgId).2.s := by
  unfold decapsulateCt
  dsimp only
  split
  · have hset : Quiet f.s (f.s.setSs (P.cryptoWorkerDecapsulate f.hs.rootSk f.hs.rootCt).2) :=
      ⟨rfl, rfl, rfl⟩
    exact hset.booked (Session.booked_sessionSetFailed P (clk 6) (Or.inr (Or.inl hs)))
  · refine Booked.then (.succeeded (Or.inr (Or.inl hs)) rfl rfl ?_) (quiet_sendAck ..)
    exact Session.books_handshakeSuccess P (clk 8) _

theorem booked_completeCt (hs : f.s.state = .waitCt) (msgId : UInt8) :
    Booked f.s (f.completeCt P me clk dst msgId ctx).2.s := by
  have hwait : Pursued f.s.state := Or.inr (Or.inl hs)
  unfold completeCt
  split
  · exact booked_setFailed (Quiet.refl f.s) hwait (clk 3)
  · dsimp only
    generalize hg : rxSlotRelease me _ = g
    have hq : Quiet f.s g.s := by rw [← hg]; exact ⟨rfl, rfl, rfl⟩
    split
    · exact .quiet (hq.trans (quiet_sendAck dst msgId g.zeroRootCt))
    · split
      · exact .quiet hq
      · split
        · exact booked_setFailed hq hwait (clk 5)
        · exact hq.booked (booked_decapsulateCt (hq.state.trans hs) msgId)

/-- The states the guards of `handleParsed` leave for each kind of message. -/
structure Guarded (h : FragmentHeader) (s : Session) : Prop where
  pk : s.sessionIsNode = true → h.msgType = pqcMsgPk → s.state = .waitPk
  ack : s.sessionIsNode = true → h.msgType = pqcMsgAck → s.state = .waitAck
  ct : s.sessionIsRoot = true → h.msgType = pqcMsgCt → s.state = .waitCt

theorem booked_completeMessage (hg : Guarded h f.s) :
    Booked f.s (f.completeMessage P me clk rnd dst h ctx).2.s := by
  unfold completeMessage
  split
  · rename_i hpk
    exact booked_completePk (hg.pk hpk.1 hpk.2)
  · split
    · rename_i hack
      exact booked_completeAck (hg.ack hack.1 hack.2)
    · split
      · rename_i hct
        exact booked_completeCt (hg.ct hct.1 hct.2) h.msgId
      · exact .quiet (Quiet.refl f.s)

theorem booked_storeFragment (hg : Guarded h f.s) :
    Booked f.s (f.storeFragment P me clk rnd dst h payload).2.s := by
  unfold storeFragment
  dsimp only
  split
  · exact .quiet (Quiet.refl f.s)
  · split
    · exact .quiet (Quiet.refl f.s)
    · generalize hf : mapS _ _ = g
      have hs : g.s = f.s.mapMetrics .noteFragmentRx := by rw [← hf]; rfl
      have hq : Quiet f.s g.s := by rw [hs]; exact ⟨rfl, rfl, rfl⟩
      split
      · exact .quiet (hq.trans (quiet_requestMissing _ _ g))
      · have hguard : Guarded h g.s := by rw [hs]; exact ⟨hg.pk, hg.ack, hg.ct⟩
        exact hq.booked (booked_completeMessage hguard)

theorem booked_handleParsed : Booked f.s (f.handleParsed P me clk rnd dst h payload).2.s := by
  unfold handleParsed
  dsimp only
  split
  · exact .quiet (Quiet.refl f.s)
  · rename_i hpk
    split
    · exact .quiet (Quiet.refl f.s)
    · rename_i hack
      split
      · split
        · exact .quiet (quiet_sendAck ..)
        · exact .quiet (Quiet.refl f.s)
      · split
        · exact .quiet (Quiet.refl f.s)
        · rename_i hct
          split
          · exact .quiet (quiet_handleNack f)
          · apply booked_storeFragment
            constructor
            · intro hn hm
              exact by_contra fun hne => hpk ⟨hn, hm, Or.inl hne⟩
            · intro hn hm
              exact by_contra fun hne => hack ⟨hn, hm, Or.inl hne⟩
            · intro hr hm
              exact by_contra fun hne => hct ⟨hr, hm, hne⟩

theorem booked_hsFsmHandleFragment (P : Platform) (me : SessionRef) (clk : Clock) (rnd : Entropy)
    (dst : UdpSendCtx) (data : Bytes) (f : Fsm) :
    Booked f.s (f.hsFsmHandleFragment P me clk rnd dst data).2.s := by
  unfold hsFsmHandleFragment
  dsimp only
  split
  · exact .quiet (Quiet.refl f.s)
  · rename_i h _
    split
    · exact .quiet (Quiet.refl f.s)
    · split
      · exact .quiet (Quiet.refl f.s)
      · generalize hf : mapS _ _ = g
        have hq : Quiet f.s g.s := by rw [← hf]; exact Session.quiet_adoptNodeId h.nodeId f.s
        exact hq.booked booked_handleParsed

end Fsm

end PqcContiki
