import PqcContiki.SlotIsolation

/-!
What a packet or a retry of one session leaves alone: the records, the reassembly slots and the
queued packets of all the others.
-/
namespace PqcContiki

open TxQueue

variable {P : Platform} {me : SessionRef} {clk : Clock} {rnd : Entropy} {dst : UdpSendCtx}
  {f : Fsm} {hs : HsStatics} {slots slots' slots'' : Slots} {i : Fin hsRxSlotCount}

/-- Every packet queued for another node than `nodeId` is still in its place. -/
def SparesQueue (nodeId : UInt16) (q q' : TxQueue) : Prop :=
  ∀ idx, (q.txQueue idx).active = true → (q.txQueue idx).nodeId ≠ nodeId →
    q'.txQueue idx = q.txQueue idx

namespace SparesQueue

variable {nodeId : UInt16} {q q' q'' : TxQueue}

theorem refl (q : TxQueue) : SparesQueue nodeId q q := fun _ _ _ => rfl

theorem trans (h : SparesQueue nodeId q q') (h' : SparesQueue nodeId q' q'') :
    SparesQueue nodeId q q'' := by
  intro idx ha hne
  have heq := h idx ha hne
  rw [← heq] at ha hne ⊢
  exact h' idx ha hne

/-- New packets go where there is none. -/
theorem adds {φ : Bytes → Prop} (h : Adds φ q q') : SparesQueue nodeId q q' := by
  induction h with
  | refl => exact refl q
  | @put q' idx p conn dest _ hidx _ _ ih =>
    refine ih.trans ?_
    intro k ha _
    have hne : k ≠ idx := by
      rintro rfl
      rw [ha] at hidx
      cases hidx
    simp [pqcTxPut, Function.update_of_ne hne]

theorem cleared {hit : TxEntry → Bool} (hhit : ∀ e, hit e = true → e.nodeId = nodeId)
    (q : TxQueue) : SparesQueue nodeId q (q.cleared hit) := by
  intro idx _ hne
  have hmiss : ¬ hit (q.txQueue idx) = true := fun hh => hne (hhit _ hh)
  simp [TxQueue.cleared, hmiss]

theorem dropNode (q : TxQueue) : SparesQueue nodeId q (q.pqcTxDropNode nodeId).2 := by
  unfold pqcTxDropNode
  rw [dropLoop_eq]
  · dsimp only
    refine cleared ?_ q
    intro e he
    simp only [Bool.and_eq_true, beq_iff_eq] at he
    exact he.2
  · intro e he
    simp only [Bool.and_eq_true] at he
    exact he.1

theorem drop (msgType msgId : UInt8) (q : TxQueue) :
    SparesQueue nodeId q (q.pqcTxDrop nodeId msgType msgId).2 := by
  unfold pqcTxDrop
  rw [dropLoop_eq]
  · dsimp only
    refine cleared ?_ q
    intro e he
    simp only [Bool.and_eq_true, beq_iff_eq] at he
    exact he.1.1.1.2
  · intro e he
    simp only [Bool.and_eq_true] at he
    exact he.1.1.1.1

end SparesQueue

theorem hsFsmStart_queue {nodeId : UInt16} (f : Fsm) :
    SparesQueue nodeId f.tx (f.hsFsmStart P clk rnd dst).2.tx := by
  cases hrole : f.s.role with
  | root =>
    obtain ⟨slots, -, hst⟩ := hsFsmStart_cases P clk rnd dst hrole
    exact .adds hst.adds
  | node =>
    have hrole' : (f.rxSlotsGc P (clk 0)).s.role = .node := hrole
    unfold Fsm.hsFsmStart
    simp only [hrole']
    split <;> exact .refl _

theorem hsFsmHandleFragment_queue {nodeId : UInt16} (data : Bytes) (f : Fsm) :
    SparesQueue nodeId f.tx (f.hsFsmHandleFragment P me clk rnd dst data).2.tx := by
  rcases hsFsmHandleFragment_cases P me clk rnd dst data f with ⟨slots, -, heq⟩ | ⟨h, -, -, hh⟩
  · rw [heq]
    exact .refl _
  · exact .adds hh.adds

theorem hsFsmRetry_queue {nodeId : UInt16} (f : Fsm) :
    SparesQueue nodeId f.tx (f.hsFsmRetry P me clk dst).2.tx :=
  .adds (hsFsmRetry_cases P me clk dst f).adds

namespace Root

variable {r r' r'' : Root} {i : Fin sessionMaxNodes} {nodeId : UInt16} {past : List Root}

/-- Work for session `i`, of node `nodeId`, left everything of the others alone. -/
structure Spares (P : Platform) (clk : Clock) (i : Fin sessionMaxNodes) (nodeId : UInt16)
    (r r' : Root) : Prop where
  sessions : ∀ j, j ≠ i → r'.sessions j = r.sessions j
  slots : SparesSlots P clk (.sessions i) r.hs.rxSlots r'.hs.rxSlots
  tx : SparesQueue nodeId r.tx r'.tx

/-- Only rows and the impact window changed. -/
def Reported (r r' : Root) : Prop := r'.sessions = r.sessions ∧ r'.hs = r.hs ∧ r'.tx = r.tx

theorem Reported.refl (r : Root) : Reported r r := ⟨rfl, rfl, rfl⟩

theorem Reported.trans (h : Reported r r') (h' : Reported r' r'') : Reported r r'' :=
  ⟨h'.1.trans h.1, h'.2.1.trans h.2.1, h'.2.2.trans h.2.2⟩

theorem reported_csvEvent (nodeId : UInt16) (event : CsvEvent) (v0 v1 v2 v3 : UInt32) (r : Root) :
    Reported r (r.csvEvent nodeId event v0 v1 v2 v3) := ⟨rfl, rfl, rfl⟩

theorem reported_impactStart (now : ℕ) (nodeId : UInt16) (r : Root) :
    Reported r (r.impactStart now nodeId) := by
  unfold impactStart
  dsimp only
  split <;> exact ⟨rfl, rfl, rfl⟩

theorem reported_impactReports (nodeId : UInt16) (snapshots : List ImpactSnapshot) (r : Root) :
    Reported r (snapshots.foldl (impactReport nodeId) r) := by
  induction snapshots generalizing r with
  | nil => exact .refl r
  | cons snapshot snapshots ih =>
    refine Reported.trans ?_ (ih _)
    unfold impactReport
    cases r.sessionManagerFind snapshot.nodeId <;> exact ⟨rfl, rfl, rfl⟩

theorem reported_impactEnd (P : Platform) (now : ℕ) (nodeId : UInt16) (success : Bool) (r : Root) :
    Reported r (r.impactEnd P now nodeId success) := by
  unfold impactEnd
  dsimp only
  split
  · exact .refl r
  · exact (reported_impactReports nodeId _ r).trans ⟨rfl, rfl, rfl⟩

namespace Spares

theorem refl (r : Root) : Spares P clk i nodeId r r := ⟨fun _ _ => rfl, .refl _, .refl _⟩

theorem trans (h : Spares P clk i nodeId r r') (h' : Spares P clk i nodeId r' r'') :
    Spares P clk i nodeId r r'' :=
  ⟨fun j hj => (h'.sessions j hj).trans (h.sessions j hj), h.slots.trans h'.slots,
    h.tx.trans h'.tx⟩

theorem reported (h : Reported r r') : Spares P clk i nodeId r r' where
  sessions := fun j _ => congrFun h.1 j
  slots := by
    rw [h.2.1]
    exact .refl _
  tx := by
    rw [h.2.2]
    exact .refl _

theorem setSession (s : Session) (r : Root) : Spares P clk i nodeId r (r.setSession i s) :=
  ⟨fun _ hj => Function.update_of_ne hj _ _, .refl _, .refl _⟩

theorem mapSession (g : Session → Session) (r : Root) :
    Spares P clk i nodeId r (r.mapSession i g) := setSession _ r

theorem csvSessionSummaryIfReady (r : Root) :
    Spares P clk i nodeId r (r.csvSessionSummaryIfReady i) := by
  unfold Root.csvSessionSummaryIfReady
  dsimp only
  split
  · exact refl r
  · split
    · exact refl r
    · refine Spares.trans (reported ⟨?_, ?_, ?_⟩) (mapSession _ _)
      · funext j
        simp [csvEvent]
      · simp [csvEvent]
      · simp [csvEvent]

theorem dropAndReset (hid : (r.sessions i).nodeId = nodeId) :
    Spares P clk i nodeId r (r.dropAndReset i) := by
  refine ⟨fun _ hj => Function.update_of_ne hj _ _, .refl _, ?_⟩
  rw [dropAndReset_tx, hid]
  exact .dropNode r.tx

/-- A call of the handshake code on session `i`. -/
theorem putFsm {f : Fsm} (hslots : SparesSlots P clk (.sessions i) r.hs.rxSlots f.hs.rxSlots)
    (htx : SparesQueue nodeId r.tx f.tx) : Spares P clk i nodeId r (r.putFsm i f) :=
  ⟨fun _ hj => Function.update_of_ne hj _ _, hslots, htx⟩

theorem startHandshake (dst : UdpSendCtx) (r : Root) :
    Spares P clk i nodeId r (r.startHandshake P clk rnd i dst) := by
  unfold Root.startHandshake
  dsimp only
  refine (reported (reported_impactStart (clk 20) (r.sessions i).nodeId r)).trans ?_
  set r₁ := r.impactStart (clk 20) (r.sessions i).nodeId with hr₁
  have hput : Spares P clk i nodeId r₁
      (r₁.putFsm i ((r₁.fsm i).hsFsmStart P clk rnd dst).2) := by
    exact putFsm (hsFsmStart_spares (r₁.fsm i)) (hsFsmStart_queue (r₁.fsm i))
  split
  · exact hput
  · exact hput.trans (reported (reported_impactEnd ..))

/-- A session that starts over, as `GETPK` makes it do. -/
theorem restart (row : CsvRow) (sender : IpAddr) (hid : (r.sessions i).nodeId = nodeId) :
    Spares P clk i nodeId r (({ r with csv := row :: r.csv }.dropAndReset i).mapSession i
      (Session.sessionSetPeerAddr sender)) := by
  have hrow : Spares P clk i nodeId r { r with csv := row :: r.csv } := reported ⟨rfl, rfl, rfl⟩
  exact (hrow.trans (dropAndReset hid)).trans (mapSession _ _)

theorem restart_nodeId (row : CsvRow) (sender : IpAddr) (r : Root) :
    ((({ r with csv := row :: r.csv }.dropAndReset i).mapSession i
      (Session.sessionSetPeerAddr sender)).sessions i).nodeId = (r.sessions i).nodeId := by
  simp [Root.mapSession, Root.dropAndReset, Root.setSession]

theorem handleGetpk (sender : IpAddr) (msgId : UInt8) (hid : (r.sessions i).nodeId = nodeId) :
    Spares P clk i nodeId r (r.handleGetpk P clk rnd i sender msgId) := by
  unfold Root.handleGetpk
  dsimp only
  generalize hr₂ : ite ((r.mapSession i _).sessions i).sessionIsFailed _ _ = r₂
  have hfirst : Spares P clk i nodeId r r₂ ∧ (r₂.sessions i).nodeId = nodeId := by
    have hcount : Spares P clk i nodeId r (r.mapSession i (Session.mapMetrics .noteGetpkRx)) :=
      mapSession _ r
    have hid₁ :
        ((r.mapSession i (Session.mapMetrics .noteGetpkRx)).sessions i).nodeId = nodeId := by
      simpa [Root.mapSession] using hid
    rw [← hr₂]
    generalize r.mapSession i (Session.mapMetrics .noteGetpkRx) = r₁ at hcount hid₁ ⊢
    split
    · exact ⟨hcount.trans (restart _ sender hid₁), (restart_nodeId _ sender r₁).trans hid₁⟩
    · exact ⟨hcount, hid₁⟩
  clear hr₂
  obtain ⟨hspares, hid₂⟩ := hfirst
  refine hspares.trans ?_
  split
  · refine Spares.trans ?_ (startHandshake _ _)
    exact reported ⟨rfl, rfl, rfl⟩
  · split
    · exact (restart _ sender hid₂).trans (startHandshake _ _)
    · exact reported ⟨rfl, rfl, rfl⟩

theorem noteCtStart (msgType msgId : UInt8) (hid : (r.sessions i).nodeId = nodeId) :
    Spares P clk i nodeId r (r.noteCtStart P clk i msgType msgId) := by
  have hdrop : ∀ msgType msgId, Spares P clk i nodeId r
      { r with tx := (r.tx.pqcTxDrop (r.sessions i).nodeId msgType msgId).2 } := by
    intro msgType msgId
    refine ⟨fun _ _ => rfl, .refl _, ?_⟩
    dsimp only
    rw [hid]
    exact .drop msgType msgId r.tx
  unfold Root.noteCtStart
  dsimp only
  split
  · refine Spares.trans ((hdrop pqcMsgPk (r.sessions i).pendingMsgId).trans ?_) (mapSession _ _)
    exact reported (reported_csvEvent ..)
  · exact refl r

theorem handleTemp (d : Bytes) (r : Root) : Spares P clk i nodeId r (r.handleTemp P i d) := by
  unfold Root.handleTemp
  dsimp only
  split
  · exact (setSession _ r).trans (reported ⟨rfl, rfl, rfl⟩)
  · exact (setSession _ r).trans (reported ⟨rfl, rfl, rfl⟩)

theorem handleMetrics (d : Bytes) (r : Root) : Spares P clk i nodeId r (r.handleMetrics i d) := by
  unfold Root.handleMetrics
  cases metricsReport d with
  | none => exact reported ⟨rfl, rfl, rfl⟩
  | some report =>
    refine Spares.trans ?_ (csvSessionSummaryIfReady _)
    refine Spares.trans ?_ (mapSession _ _)
    exact reported ⟨rfl, rfl, rfl⟩

theorem handleHandshake (dst : UdpSendCtx) (d : Bytes) (r : Root) :
    Spares P clk i nodeId r (r.handleHandshake P clk rnd i dst d) := by
  have hput : Spares P clk i nodeId r (r.putFsm i
      ((r.fsm i).hsFsmHandleFragment P (.sessions i) clk rnd dst d).2) :=
    putFsm (hsFsmHandleFragment_spares d (r.fsm i)) (hsFsmHandleFragment_queue d (r.fsm i))
  unfold Root.handleHandshake
  dsimp only
  split
  · refine hput.trans (Spares.trans ?_ (csvSessionSummaryIfReady _))
    exact reported (Reported.trans ⟨rfl, rfl, rfl⟩ (reported_impactEnd ..))
  · exact hput

theorem dispatch (sender : IpAddr) (d : Bytes) (hid : (r.sessions i).nodeId = nodeId) :
    Spares P clk i nodeId r (r.dispatch P clk rnd i sender d) := by
  unfold Root.dispatch
  dsimp only
  have hpeer : Spares P clk i nodeId r (r.mapSession i (Session.sessionSetPeerAddr sender)) :=
    mapSession _ r
  have hid₁ : ((r.mapSession i (Session.sessionSetPeerAddr sender)).sessions i).nodeId =
      nodeId := by
    simpa [Root.mapSession] using hid
  refine hpeer.trans ?_
  generalize r.mapSession i (Session.sessionSetPeerAddr sender) = r₁ at hid₁ ⊢
  split
  · exact handleGetpk sender _ hid₁
  · refine (noteCtStart (byteAt d pqcHdrMsgType) (byteAt d pqcHdrMsgId) hid₁).trans ?_
    split
    · exact handleTemp d _
    · split
      · exact handleMetrics d _
      · exact handleHandshake _ d _

theorem retrySession (hid : (r.sessions i).nodeId = nodeId) :
    Spares P clk i nodeId r (r.retrySession P clk i) := by
  unfold Root.retrySession
  dsimp only
  split
  · have hretried := hsFsmRetry_cases P (.sessions i) clk
      ⟨some udpConn, some (r.sessions i).peerAddr⟩ (r.fsm i)
    have hput : Spares P clk i nodeId r (r.putFsm i ((r.fsm i).hsFsmRetry P (.sessions i) clk
        ⟨some udpConn, some (r.sessions i).peerAddr⟩).2) :=
      putFsm (hsFsmRetry_spares (r.fsm i)) (hsFsmRetry_queue (r.fsm i))
    have hid' : ((r.putFsm i ((r.fsm i).hsFsmRetry P (.sessions i) clk
        ⟨some udpConn, some (r.sessions i).peerAddr⟩).2).sessions i).nodeId = nodeId := by
      have hsame := congrArg (fun x => x.2.1) hretried.identity
      simpa [← hid] using hsame
    refine hput.trans ?_
    generalize r.putFsm i _ = r₁ at hid' ⊢
    split
    · have hrows : Reported r₁ (((r₁.csvHsSummary (r₁.sessions i) .hsFail).impactEnd P (clk 20)
          (r₁.sessions i).nodeId false).csvEvent (r₁.sessions i).nodeId .hsFailReset
          (r₁.sessions i).state.ctorIdx.toUInt32 (UInt32.ofNat (r₁.sessions i).retryCount) 0
          0) := by
        have hsummary : Reported r₁ (r₁.csvHsSummary (r₁.sessions i) .hsFail) := ⟨rfl, rfl, rfl⟩
        exact (hsummary.trans (reported_impactEnd P (clk 20) (r₁.sessions i).nodeId false _)).trans
          ⟨rfl, rfl, rfl⟩
      refine (reported hrows).trans (dropAndReset ?_)
      rw [hrows.1]
      exact hid'
    · exact refl r₁
  · exact refl r

end Spares

/-- What belongs to session `j`, its record, its unexpired slot and its queued packets, is the same
in `r'`. -/
structure Untouched (P : Platform) (clk : Clock) (j : Fin sessionMaxNodes) (r r' : Root) :
    Prop where
  session : r'.sessions j = r.sessions j
  slots : ∀ k, (r.hs.rxSlots k).active = true → (r.hs.rxSlots k).owner = some (.sessions j) →
    r'.hs.rxSlots k = r.hs.rxSlots k ∨ ∃ t, HsStatics.slotExpired P (clk t) (r.hs.rxSlots k) = true
  tx : ∀ idx, (r.tx.txQueue idx).active = true →
    (r.tx.txQueue idx).nodeId = (r.sessions j).nodeId → r'.tx.txQueue idx = r.tx.txQueue idx

theorem Spares.untouched {j : Fin sessionMaxNodes} (h : Spares P clk i nodeId r r') (hj : j ≠ i)
    (hid : (r.sessions j).nodeId ≠ nodeId) : Untouched P clk j r r' where
  session := h.sessions j hj
  slots := by
    intro k ha ho
    exact h.slots k (.sessions j) (by simpa using hj) (owns_iff.mpr ⟨ha, ho⟩)
  tx := by
    intro idx ha hsame
    exact h.tx idx ha (by rw [hsame]; exact hid)

theorem Reported.untouched (h : Reported r r') (j : Fin sessionMaxNodes) :
    Untouched P clk j r r' where
  session := congrFun h.1 j
  slots := fun k _ _ => Or.inl (by rw [h.2.1])
  tx := fun idx _ _ => by rw [h.2.2]

/-- A packet works on the session of the node it names, found or made for it, or on none. -/
theorem udpRxCallback_spares (sender : IpAddr) (d : Bytes) (r : Root) :
    Reported r (r.udpRxCallback P clk rnd sender d) ∨
      ∃ i, ((r.sessions i).used = true → (r.sessions i).nodeId = pqcHeaderGetNodeId d) ∧
        Spares P clk i (pqcHeaderGetNodeId d) r (r.udpRxCallback P clk rnd sender d) := by
  unfold udpRxCallback
  split
  · exact Or.inl (reported_csvEvent ..)
  · unfold sessionManagerGetOrCreate
    cases hfind : r.sessionManagerFind (pqcHeaderGetNodeId d) with
    | some i =>
      have hid := (sessionManagerFind_some hfind).2
      exact Or.inr ⟨i, fun _ => hid, .dispatch sender d hid⟩
    | none =>
      dsimp only
      cases hfree : (List.finRange sessionMaxNodes).find? fun i => !(r.sessions i).used with
      | none => exact Or.inl (reported_csvEvent ..)
      | some i =>
        have hunused : (r.sessions i).used = false := by simpa using List.find?_some hfree
        refine Or.inr ⟨i, ?_, (Spares.setSession _ r).trans (.dispatch sender d (by simp))⟩
        intro hused
        rw [hunused] at hused
        cases hused

/-- A packet of one node, or the retry of one session, wherever in a tick it comes, does not touch
what belongs to another session in use. -/
theorem session_isolation (h : Reaches P past r) (clk : Clock) (j : Fin sessionMaxNodes)
    (hj : (r.sessions j).used = true) :
    (∀ rnd sender d, (r.sessions j).nodeId ≠ pqcHeaderGetNodeId d →
      Untouched P clk j r (r.udpRxCallback P clk rnd sender d)) ∧
    (∀ (clks : Fin sessionMaxNodes → Clock) (done : List (Fin sessionMaxNodes)) i, i ≠ j →
      let r' := done.foldl (fun r k => r.retrySession P (clks k) k) r
      Untouched P clk j r' (r'.retrySession P clk i)) := by
  refine ⟨?_, ?_⟩
  · intro rnd sender d hne
    rcases udpRxCallback_spares (P := P) sender d r with hrep | ⟨i, hid, hspares⟩
    · exact hrep.untouched j
    · refine hspares.untouched ?_ hne
      rintro rfl
      exact hne (hid hj)
  · intro clks done i hij r'
    have hacts : Acts P 0 none r r' := retries_acts clks 0 done r
    have hj' : (r'.sessions j).used = true := (keeps_acts hacts j hj).1
    cases hi : (r'.sessions i).used with
    | true =>
      refine (Spares.retrySession rfl).untouched hij.symm ?_
      intro hsame
      exact hij ((table_acts h.table.1 hacts).unique j i hj' hi hsame).symm
    | false =>
      have hidle : r'.retrySession P clk i = r' := by
        simp [retrySession, hi]
      rw [hidle]
      exact (Reported.refl r').untouched j

/-- The session of node 1, in the middle of its handshake, when node 2 asks for the key. -/
theorem session_isolation_two_nodes :
    let r := (boot Platform.demo 0).handle Platform.demo
      (.receive (fun _ => 0) 0 7 (pqcHeaderWrite pqcMsgGetpk 1 0 0 1 0 pqcFlagNone))
    (r.sessions 0).state = .waitCt ∧ Untouched Platform.demo (fun _ => 0) 0 r
      (r.udpRxCallback Platform.demo (fun _ => 0) 0 8
        (pqcHeaderWrite pqcMsgGetpk 2 0 0 1 0 pqcFlagNone)) := by
  intro r
  have hr : Reaches Platform.demo [boot Platform.demo 0] r := .next (.start ⟨0, rfl⟩) rfl
  have hfirst : (r.sessions 0).used = true ∧ (r.sessions 0).nodeId = 1 ∧
      (r.sessions 0).state = .waitCt := by
    decide +kernel
  obtain ⟨hused, hid, hstate⟩ := hfirst
  refine ⟨hstate, (session_isolation hr (fun _ => 0) 0 hused).1 0 8 _ ?_⟩
  rw [hid]
  decide

end Root

end PqcContiki
