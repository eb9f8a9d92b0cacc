import PqcContiki.RootAccounting

/-! Attempts, successes and failures: the balance of the node, and of both programs. -/
namespace PqcContiki

open Relation Runs

variable {P : Platform} {clk : Clock} {rnd : Entropy} {s s' s'' : Session} {loss loss' : ℕ}

namespace Node

variable {n n' : Node}

theorem settled_pqcSendMetricsReport (now : ℕ) (conn : UdpConn) (dest : IpAddr) (group : ℕ)
    (s : Session) (q : TxQueue) :
    Settled s (pqcSendMetricsReport now conn dest group s q).2.1 := by
  have hbuilt :
      Settled s (s.mapMetrics fun _ => (s.metrics.pqcMetricsBuildReport now group).2) := by
    unfold MetricsSnapshot.pqcMetricsBuildReport
    split <;> exact settled_of_same rfl rfl rfl rfl
  unfold pqcSendMetricsReport
  split
  · exact settled_of_same rfl rfl rfl rfl
  · dsimp only
    split
    · exact hbuilt
    · split
      · exact hbuilt.trans (settled_of_same rfl rfl rfl rfl)
      · exact hbuilt.trans (settled_of_same rfl rfl rfl rfl)

theorem settled_sendGroups (clk : Clock) (groups : List ℕ) (n : Node) :
    Settled n.session (n.sendGroups clk groups).session := by
  induction groups generalizing n with
  | nil => exact Settled.refl _
  | cons group groups ih =>
    have hsent := settled_pqcSendMetricsReport (clk (20 + group)) udpConn n.destAddress group
      n.session n.tx
    unfold sendGroups
    split
    · exact Settled.refl _
    · dsimp only
      split
      · refine hsent.trans ?_
        exact ih { n with session := _, tx := _ }
      · exact hsent

theorem settled_udpRxCallback (clk : Clock) (rnd : Entropy) (d : Bytes) (n : Node) :
    Settled n.session (n.udpRxCallback P clk rnd d).session := by
  have hbooked : Settled n.session _ :=
    (Fsm.booked_hsFsmHandleFragment P .localSession clk rnd n.sendCtx d n.fsm).settled
  unfold udpRxCallback
  split
  · exact Settled.refl _
  · dsimp only
    generalize hn₂ : ite (_ ≠ pqcMsgGetpk) _ _ = n₂
    have hsame : Settled n.session n₂.session := by
      rw [← hn₂]
      split <;> exact hbooked
    split
    · refine hsame.trans ?_
      exact settled_sendGroups clk _ { n₂ with metricsPending := true }
    · split
      · exact hsame.trans (settled_sendGroups clk _ n₂)
      · exact hsame

theorem learnRoot_session (routing : Routing) (n : Node) :
    (n.learnRoot routing).2.session = n.session := by
  unfold learnRoot
  split <;> rfl

theorem settled_retryTick (hsound : Sound n) (clk : Clock) (routing : Routing) :
    Settled n.session (n.retryTick P clk routing).session := by
  have hlearned := learnRoot_session routing n
  unfold retryTick
  split
  · exact Settled.refl _
  · generalize n.learnRoot routing = res at hlearned ⊢
    obtain ⟨reached, n₁⟩ := res
    have hpursued : n₁.fsm.s.waitingResponse = true → Pursued n₁.fsm.s.state := by
      have hc : n₁.session.core.Coherent := by
        rw [show n₁.session = n.session from hlearned]
        exact hsound.coherent
      exact hc.pursued
    have hbooked : Settled n₁.session _ :=
      (Fsm.booked_hsFsmRetry P .localSession clk n₁.sendCtx hpursued).settled
    rw [← show n₁.session = n.session from hlearned]
    dsimp only
    split
    · exact Settled.refl _
    · split
      · rename_i hfailed
        refine hbooked.trans (Settled.trans (settled_sessionReset ?_)
          (settled_of_same rfl rfl rfl rfl))
        have hstate : (n₁.fsm.hsFsmRetry P .localSession clk n₁.sendCtx).2.s.state = .failed :=
          eq_of_beq hfailed
        exact inProgress_eq_zero (by simp [Pursued, hstate])
      · exact hbooked

theorem settled_tempTick (measurement : TempPayload) (n : Node) :
    Settled n.session (n.tempTick P measurement).session := by
  unfold tempTick pqcSendEncryptedTemp
  dsimp only
  split
  · split
    · exact settled_of_same rfl rfl rfl rfl
    · split <;> exact settled_of_same rfl rfl rfl rfl
  · exact Settled.refl _

/-- Asking for the key begins a handshake. -/
theorem entry_routingTick (clk : Clock) (routing : Routing) (n : Node) :
    Settled n.session (n.routingTick P clk routing).session ∨
      Begins 0 n.session (n.routingTick P clk routing).session 0 := by
  have hlearned := learnRoot_session routing n
  unfold routingTick
  generalize n.learnRoot routing = res at hlearned ⊢
  obtain ⟨reached, n₁⟩ := res
  rw [← show n₁.session = n.session from hlearned]
  dsimp only
  split
  · rename_i hask
    split
    · have hidle : n₁.session.state = .idle := by
        have hshould := hask.2.2
        simp only [shouldRequestPk, Bool.and_eq_true, beq_iff_eq] at hshould
        exact hshould.1.1.1
      refine Or.inr ⟨rfl, rfl, (UInt32.add_zero _).symm, ?_, ?_⟩
      · rw [inProgress_eq_zero (by simp [hidle, Pursued]), inProgress_eq_one (Or.inl rfl)]
      · rw [inProgress_eq_one (Or.inl rfl)]
    · exact Or.inl (Settled.refl _)
  · exact Or.inl (Settled.refl _)

/-- A reset loses the handshake under way. -/
def losses (n : Node) : Event → ℕ
  | .reset => inProgress n.session
  | _ => 0

/-- The tally of a node; a reboot clears it, as it clears the counters. -/
def tally (P : Platform) (n : Node) (e : Event) (t : Tally) : Tally :=
  match e with
  | .reboot => Tally.zero
  | e => t.next (n.losses e) n.session.books (n.handle P e).session.books

/-- The node, with its tally kept beside it. -/
abbrev LedgerRun (P : Platform) : List (Node × Tally) → Node × Tally → Prop :=
  Run (fun w => (∃ nodeId, w.1 = boot nodeId) ∧ w.2 = Tally.zero)
    fun w e w' => w'.1 = w.1.handle P e ∧ w'.2 = w.1.tally P e w.2

theorem accounts_boot (nodeId : UInt16) : Accounts (boot nodeId).session Tally.zero :=
  accounts_of_zero (inProgress_eq_zero (by simp [boot, Pursued])) rfl rfl rfl

theorem accounts_handle {t : Tally} (hsound : Sound n) (h : Accounts n.session t) (e : Event) :
    Accounts (n.handle P e).session (n.tally P e t) := by
  have hof (hsettled : Settled n.session (n.handle P e).session) :
      Accounts (n.handle P e).session (t.next 0 n.session.books (n.handle P e).session.books) := by
    obtain ⟨k, l, hsettles⟩ := hsettled
    exact hsettles.accounts h
  cases e with
  | receive clk rnd d => exact hof (settled_udpRxCallback clk rnd d n)
  | routing clk routing =>
    rcases entry_routingTick (P := P) clk routing n with hsettled | hbegins
    · exact hof hsettled
    · exact hbegins.accounts h
  | retry clk routing => exact hof (settled_retryTick hsound clk routing)
  | temp measurement => exact hof (settled_tempTick measurement n)
  | transmit => exact hof (Settled.refl _)
  | reset =>
    have hsettles := settles_sessionReset n.session
    exact Settles.accounts ⟨hsettles.attempts, hsettles.success, hsettles.failure,
      hsettles.under⟩ h
  | reboot => exact accounts_boot n.nodeId

theorem LedgerRun.accounts {past : List (Node × Tally)} {w : Node × Tally}
    (h : LedgerRun P past w) : Sound w.1 ∧ Accounts w.1.session w.2 := by
  apply h.invariant (I := fun _ w => Sound w.1 ∧ Accounts w.1.session w.2)
  · rintro ⟨n, t⟩ ⟨⟨nodeId, rfl⟩, rfl⟩
    exact ⟨sound_boot nodeId, accounts_boot nodeId⟩
  · rintro past ⟨n, t⟩ e ⟨n', t'⟩ - ⟨hsound, haccounts⟩ ⟨rfl, rfl⟩
    obtain ⟨rnd, hacts⟩ := handle_acts P n e
    exact ⟨sound_acts hsound hacts, accounts_handle hsound haccounts e⟩

end Node

/-- The counters of a session against the handshakes that ended, are under way or were lost. As
long as they stay below `2 ^ 32` they balance exactly while nothing was lost; and one handshake
never has two outcomes. -/
structure Accounted (s : Session) (t : Tally) : Prop where
  modular : s.metrics.handshake.attempts = s.metrics.handshake.success +
    s.metrics.handshake.failure + UInt32.ofNat (inProgress s + t.lost)
  balance : s.metrics.handshake.success.toNat + s.metrics.handshake.failure.toNat +
      inProgress s + t.lost < 2 ^ 32 →
    (s.metrics.handshake.attempts.toNat = s.metrics.handshake.success.toNat +
      s.metrics.handshake.failure.toNat + inProgress s ↔ t.lost = 0)
  single : t.outcomes + inProgress s ≤ 1

theorem Accounts.accounted {t : Tally} (h : Accounts s t) : Accounted s t where
  modular := h.balance
  balance hsmall := by
    have hmodular := congrArg UInt32.toNat h.balance
    simp only [Session.books, UInt32.toNat_add, UInt32.toNat_ofNat'] at hmodular
    omega
  single := h.single

/-- Handshake accounting of both programs: attempts are successes, failures, the handshake in
progress and the handshakes that were lost. -/
theorem handshake_accounting (P : Platform) :
    (∀ past w, Root.LedgerRun P past w → ∀ i, Accounted (w.1.sessions i) (w.2 i)) ∧
    (∀ past w, Node.LedgerRun P past w → Accounted w.1.session w.2) := by
  refine ⟨?_, ?_⟩
  · intro past w h i
    exact (h.inOrder.accounts i).accounted
  · intro past w h
    exact h.accounts.2.accounted

/-- One handler of the root, with its tallies. -/
def Root.booked (w : Root × (Fin sessionMaxNodes → Tally)) (e : Root.Event) :
    Root × (Fin sessionMaxNodes → Tally) :=
  (w.1.handle .demo e, fun j => (w.2 j).next (losses .demo w.1 e j) (w.1.sessions j).books
    ((w.1.handle .demo e).sessions j).books)

theorem Root.ledgerRun_booked {past : List (Root × (Fin sessionMaxNodes → Tally))}
    {w : Root × (Fin sessionMaxNodes → Tally)} (h : LedgerRun .demo past w) (e : Root.Event) :
    LedgerRun .demo (w :: past) (booked w e) :=
  h.next ⟨rfl, rfl⟩

/-- One event of the node, with its tally. -/
def Node.booked (w : Node × Tally) (e : Node.Event) : Node × Tally :=
  (w.1.handle .demo e, w.1.tally .demo e w.2)

/-- Node 7 completes one handshake, fails the next and has started a third. -/
def threeHandshakes : Root × (Fin sessionMaxNodes → Tally) :=
  (Root.handshakeOf 7 9 ++ [getpkFrom 7, Root.emptyCtFrom 7, Root.retries, getpkFrom 7]).foldl
    Root.booked (Root.boot .demo 0, fun _ => Tally.zero)

/-- It asks for the key once more. -/
def fourHandshakes : Root × (Fin sessionMaxNodes → Tally) :=
  Root.booked threeHandshakes (getpkFrom 7)

/-- A node that fails its first handshake and completes the second. -/
def twoHandshakes : Node × Tally :=
  ([Node.asks, Node.emptyKey, Node.retriesAt 0] ++ Node.asks :: Node.keyArrives ++
    [Node.ackArrives]).foldl Node.booked (Node.boot 1, Tally.zero)

/-- The counters of a session, and what of it is in no counter. -/
def Session.account (s : Session) (t : Tally) : UInt32 × UInt32 × UInt32 × ℕ × ℕ :=
  (s.metrics.handshake.attempts, s.metrics.handshake.success, s.metrics.handshake.failure,
    inProgress s, t.lost)

theorem accounts_reached :
    (threeHandshakes.1.sessions 0).account (threeHandshakes.2 0) = (3, 1, 1, 1, 0) ∧
      (fourHandshakes.1.sessions 0).account (fourHandshakes.2 0) = (4, 1, 1, 1, 1) ∧
      twoHandshakes.1.session.account twoHandshakes.2 = (2, 1, 1, 0, 0) := by
  decide +kernel

/-- The books balance after a success, a failure and with a third handshake under way. They do not
when the fourth takes its place. -/
theorem handshake_accounting_restart :
    (Accounted (threeHandshakes.1.sessions 0) (threeHandshakes.2 0) ∧
      (threeHandshakes.1.sessions 0).account (threeHandshakes.2 0) = (3, 1, 1, 1, 0)) ∧
    (Accounted (fourHandshakes.1.sessions 0) (fourHandshakes.2 0) ∧
      (fourHandshakes.1.sessions 0).account (fourHandshakes.2 0) = (4, 1, 1, 1, 1)) ∧
    Accounted twoHandshakes.1.session twoHandshakes.2 ∧
      twoHandshakes.1.session.account twoHandshakes.2 = (2, 1, 1, 0, 0) := by
  obtain ⟨hthree, hfour, htwo⟩ := accounts_reached
  obtain ⟨hroot, hnode⟩ := handshake_accounting Platform.demo
  obtain ⟨_, hrun⟩ : ∃ past, Root.LedgerRun .demo past threeHandshakes :=
    Run.foldl (.start ⟨⟨0, rfl⟩, rfl⟩) _ fun _ _ _ => ⟨rfl, rfl⟩
  have hnext : Root.LedgerRun .demo _ fourHandshakes := Root.ledgerRun_booked hrun (getpkFrom 7)
  obtain ⟨_, hrun'⟩ : ∃ past, Node.LedgerRun .demo past twoHandshakes :=
    Run.foldl (.start ⟨⟨1, rfl⟩, rfl⟩) _ fun _ _ _ => ⟨rfl, rfl⟩
  exact ⟨⟨hroot _ _ hrun 0, hthree⟩, ⟨hroot _ _ hnext 0, hfour⟩, hnode _ _ hrun', htwo⟩

/-- A node that asks again while the root waits for its ciphertext: two attempts, one handshake
in progress, and the other counted nowhere. -/
theorem handshake_accounting_drift :
    ∃ past r, Root.Reaches Platform.demo past r ∧ (r.sessions 0).used = true ∧
      (r.sessions 0).metrics.handshake.attempts.toNat = 2 ∧
      (r.sessions 0).metrics.handshake.success.toNat +
        (r.sessions 0).metrics.handshake.failure.toNat + inProgress (r.sessions 0) = 1 := by
  refine ⟨_, (((Root.boot Platform.demo 0).handle Platform.demo (getpkFrom 7)).handle
    Platform.demo (getpkFrom 7)), .next (.next (.start ⟨0, rfl⟩) rfl) rfl, ?_⟩
  decide +kernel

end PqcContiki
