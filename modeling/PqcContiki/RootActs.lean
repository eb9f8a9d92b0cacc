import PqcContiki.Root
import PqcContiki.RetryOutcome

/-!
The root device taken apart: every callback and every tick is a sequence of acts on one session,
and between them only rows, metrics, timers and counters change.
-/
namespace PqcContiki

open TxQueue Relation

namespace Root

variable {P : Platform} {clk : Clock} {rnd : Entropy} {r r' r'' : Root} {i : Fin sessionMaxNodes}

/-- The two devices agree on everything the handshake decides on. -/
structure Alike (r r' : Root) : Prop where
  cores : ∀ i, (r'.sessions i).core = (r.sessions i).core
  hs : r'.hs = r.hs
  tx : r'.tx = r.tx
  obs : r'.obs = r.obs

theorem Alike.refl (r : Root) : Alike r r := ⟨fun _ => rfl, rfl, rfl, rfl⟩

theorem Alike.trans (h : Alike r r') (h' : Alike r' r'') : Alike r r'' :=
  ⟨fun i => (h'.cores i).trans (h.cores i), h'.hs.trans h.hs, h'.tx.trans h.tx, h'.obs.trans h.obs⟩

theorem alike_setSession {s : Session} (h : s.core = (r.sessions i).core) :
    Alike r (r.setSession i s) := by
  refine ⟨fun j => ?_, rfl, rfl, rfl⟩
  by_cases hj : j = i
  · subst hj
    simpa using h
  · simp [hj]

theorem alike_mapSession {g : Session → Session}
    (h : (g (r.sessions i)).core = (r.sessions i).core) : Alike r (r.mapSession i g) :=
  alike_setSession h

theorem alike_csvEvent (nodeId : UInt16) (event : CsvEvent) (v0 v1 v2 v3 : UInt32) (r : Root) :
    Alike r (r.csvEvent nodeId event v0 v1 v2 v3) :=
  ⟨fun _ => rfl, rfl, rfl, rfl⟩

theorem alike_csvTemp (nodeId : UInt16) (measurement : TempPayload) (r : Root) :
    Alike r (r.csvTemp nodeId measurement) :=
  ⟨fun _ => rfl, rfl, rfl, rfl⟩

theorem alike_csvHsSummary (s : Session) (event : CsvEvent) (r : Root) :
    Alike r (r.csvHsSummary s event) :=
  ⟨fun _ => rfl, rfl, rfl, rfl⟩

theorem alike_csvNodeMetrics (nodeId : UInt16) (report : MetricsReport) (r : Root) :
    Alike r (r.csvNodeMetrics nodeId report) :=
  ⟨fun _ => rfl, rfl, rfl, rfl⟩

theorem alike_sessionStoreNodeMetrics (i : Fin sessionMaxNodes) (report : MetricsReport)
    (r : Root) : Alike r (r.sessionStoreNodeMetrics i report) := by
  apply alike_setSession
  unfold setNodeMetrics
  split <;> rfl

theorem alike_csvSessionSummaryIfReady (i : Fin sessionMaxNodes) (r : Root) :
    Alike r (r.csvSessionSummaryIfReady i) := by
  unfold csvSessionSummaryIfReady
  dsimp only
  split
  · exact Alike.refl r
  · split
    · exact Alike.refl r
    · refine Alike.trans ?_ (alike_mapSession ?_)
      · exact ⟨fun _ => rfl, rfl, rfl, rfl⟩
      · rfl

theorem alike_impactStart (now : ℕ) (nodeId : UInt16) (r : Root) :
    Alike r (r.impactStart now nodeId) := by
  unfold impactStart
  dsimp only
  split
  · exact alike_csvEvent ..
  · exact ⟨fun _ => rfl, rfl, rfl, rfl⟩

theorem alike_impactReport (nodeId : UInt16) (r : Root) (snapshot : ImpactSnapshot) :
    Alike r (impactReport nodeId r snapshot) := by
  unfold impactReport
  cases r.sessionManagerFind snapshot.nodeId with
  | none => exact alike_csvEvent ..
  | some j => exact ⟨fun _ => rfl, rfl, rfl, rfl⟩

theorem alike_impactReports (nodeId : UInt16) (snapshots : List ImpactSnapshot) (r : Root) :
    Alike r (snapshots.foldl (impactReport nodeId) r) := by
  induction snapshots generalizing r with
  | nil => exact Alike.refl r
  | cons snapshot snapshots ih => exact (alike_impactReport nodeId r snapshot).trans (ih _)

theorem alike_impactEnd (P : Platform) (now : ℕ) (nodeId : UInt16) (success : Bool) (r : Root) :
    Alike r (r.impactEnd P now nodeId success) := by
  unfold impactEnd
  dsimp only
  split
  · exact Alike.refl r
  · exact (alike_impactReports nodeId _ r).trans ⟨fun _ => rfl, rfl, rfl, rfl⟩

/-- What the root can do to a session, in a callback on packet `data` or in a tick. -/
inductive Act (P : Platform) (rnd : Entropy) (data : Option Bytes) : Root → Root → Prop
  | touch {r r' : Root} : Alike r r' → Act P rnd data r r'
  | create {r : Root} {i : Fin sessionMaxNodes} {d : Bytes} :
      data = some d → r.sessionManagerFind (pqcHeaderGetNodeId d) = none →
      (r.sessions i).used = false →
      Act P rnd data r (r.setSession i (Session.sessionInit .root (pqcHeaderGetNodeId d)))
  /-- A failed session starts over, and so does any session when its node asks for the key. -/
  | reset {r : Root} {i : Fin sessionMaxNodes} :
      (r.sessions i).used = true →
      (r.sessions i).state = .failed ∨
        (∃ d, data = some d ∧ IsKind pqcMsgGetpk (r.sessions i).nodeId d) →
      Act P rnd data r (r.dropAndReset i)
  | start {r : Root} {i : Fin sessionMaxNodes} {slots : Slots} {f : Fsm} :
      (r.sessions i).used = true → (r.sessions i).state = .idle →
      Collected r.hs.rxSlots slots →
      Started ((r.hs.setSlots slots).hsFsmRootInitKeypair P rnd).2 (r.fsm i) f →
      Act P rnd data r (r.putFsm i f)
  /-- The first fragment of a ciphertext takes the place of the key as what is pending. -/
  | ctStart {r : Root} {i : Fin sessionMaxNodes} {s : Session} {msgId : UInt8} :
      (r.sessions i).used = true → (r.sessions i).state = .waitCt →
      s.core = (r.sessions i).core.await .waitCt pqcMsgCt msgId →
      Act P rnd data r ({ r with
        tx := (r.tx.pqcTxDrop (r.sessions i).nodeId pqcMsgPk (r.sessions i).pendingMsgId).2
        }.setSession i s)
  | collect {r : Root} {slots : Slots} :
      Collected r.hs.rxSlots slots → Act P rnd data r { r with hs := r.hs.setSlots slots }
  | fragment {r : Root} {i : Fin sessionMaxNodes} {h : FragmentHeader} {d : Bytes} {f : Fsm} :
      data = some d → parseFragmentHeader d = some h → (r.sessions i).used = true →
      (r.sessions i).nodeId = h.nodeId →
      Handled P (.sessions i) rnd h (h.payload d) (r.fsm i) f →
      Act P rnd data r (r.putFsm i f)
  | retry {r : Root} {i : Fin sessionMaxNodes} {f : Fsm} :
      (r.sessions i).used = true → Retried (r.fsm i) f → Act P rnd data r (r.putFsm i f)
  | transmit {r : Root} : Act P rnd data r r.txTick.2

/-- A sequence of acts. -/
abbrev Acts (P : Platform) (rnd : Entropy) (data : Option Bytes) : Root → Root → Prop :=
  ReflTransGen (Act P rnd data)

variable {data : Option Bytes}

/-- Every session in use is the root's end of a handshake. -/
def Rooted (r : Root) : Prop := ∀ i, (r.sessions i).used = true → (r.sessions i).role = .root

theorem Alike.acts (h : Alike r r') : Acts P rnd data r r' := .single (.touch h)

theorem startHandshake_acts (hr : (r.sessions i).role = .root) (hused : (r.sessions i).used = true)
    (hidle : (r.sessions i).state = .idle) (dst : UdpSendCtx) :
    Acts P rnd data r (r.startHandshake P clk rnd i dst) := by
  have hstart := alike_impactStart (clk 20) (r.sessions i).nodeId r
  unfold startHandshake
  dsimp only
  generalize r.impactStart (clk 20) (r.sessions i).nodeId = r₁ at hstart ⊢
  have hc := hstart.cores i
  obtain ⟨slots, hcol, hres⟩ := hsFsmStart_cases (f := r₁.fsm i) P clk rnd dst
    ((congrArg SessionCore.role hc).trans hr)
  have hact : Acts P rnd data r (r₁.putFsm i ((r₁.fsm i).hsFsmStart P clk rnd dst).2) :=
    hstart.acts.tail (.start ((congrArg SessionCore.used hc).trans hused)
      ((congrArg SessionCore.state hc).trans hidle) hcol hres)
  split
  · exact hact
  · exact hact.trans (alike_impactEnd ..).acts

@[simp] theorem mapSession_self (i : Fin sessionMaxNodes) (g : Session → Session) (r : Root) :
    (r.mapSession i g).sessions i = g (r.sessions i) := by
  simp [mapSession]

@[simp] theorem dropAndReset_self (i : Fin sessionMaxNodes) (r : Root) :
    (r.dropAndReset i).sessions i = (r.sessions i).sessionReset := by
  simp [dropAndReset]

theorem csvEvent_mapSession (nodeId : UInt16) (event : CsvEvent) (v0 v1 v2 v3 : UInt32)
    (i : Fin sessionMaxNodes) (g : Session → Session) (r : Root) :
    (r.csvEvent nodeId event v0 v1 v2 v3).mapSession i g =
      (r.mapSession i g).csvEvent nodeId event v0 v1 v2 v3 := rfl

@[simp] theorem csvEvent_sessions (nodeId : UInt16) (event : CsvEvent) (v0 v1 v2 v3 : UInt32)
    (r : Root) : (r.csvEvent nodeId event v0 v1 v2 v3).sessions = r.sessions := rfl

/-- The root's end of the handshake with the node of `data`, in place `i`. -/
structure Serves (i : Fin sessionMaxNodes) (nodeId : UInt16) (r : Root) : Prop where
  used : (r.sessions i).used = true
  role : (r.sessions i).role = .root
  nodeId : (r.sessions i).nodeId = nodeId

variable {nodeId : UInt16} {d : Bytes}

theorem Alike.serves (h : Alike r r') (hs : Serves i nodeId r) : Serves i nodeId r' :=
  ⟨(congrArg SessionCore.used (h.cores i)).trans hs.used,
    (congrArg SessionCore.role (h.cores i)).trans hs.role,
    (congrArg SessionCore.nodeId (h.cores i)).trans hs.nodeId⟩

theorem Serves.start (hs : Serves i nodeId r) (hidle : (r.sessions i).state = .idle)
    (dst : UdpSendCtx) : Acts P rnd data r (r.startHandshake P clk rnd i dst) :=
  startHandshake_acts hs.role hs.used hidle dst

/-- Start over and remember the sender. -/
theorem Serves.restart (P : Platform) (rnd : Entropy) (hs : Serves i nodeId r)
    (hwhy : (r.sessions i).state = .failed ∨ ∃ d, data = some d ∧ IsKind pqcMsgGetpk nodeId d)
    (sender : IpAddr) :
    let r' := (r.dropAndReset i).mapSession i (Session.sessionSetPeerAddr sender)
    Acts P rnd data r r' ∧ Serves i nodeId r' ∧ (r'.sessions i).state = .idle := by
  refine ⟨?_, ⟨by simp, by simp [hs.role], by simp [hs.nodeId]⟩, by simp⟩
  have hreset : Act P rnd data r (r.dropAndReset i) := .reset hs.used (by rwa [hs.nodeId])
  exact (ReflTransGen.single hreset).trans (alike_mapSession (by simp)).acts

theorem handleGetpk_acts (hs : Serves i nodeId r) (hd : data = some d)
    (hkind : IsKind pqcMsgGetpk nodeId d) (sender : IpAddr) (msgId : UInt8) :
    Acts P rnd data r (r.handleGetpk P clk rnd i sender msgId) := by
  unfold handleGetpk
  dsimp only
  have hgetpk : ∃ d, data = some d ∧ IsKind pqcMsgGetpk nodeId d := ⟨d, hd, hkind⟩
  generalize hr₂ : ite ((r.mapSession i _).sessions i).sessionIsFailed _ _ = r₂
  have hfirst : Acts P rnd data r r₂ ∧ Serves i nodeId r₂ := by
    have hcount : Alike r (r.mapSession i (Session.mapMetrics .noteGetpkRx)) :=
      alike_mapSession (by simp)
    rw [← hr₂]
    generalize r.mapSession i (Session.mapMetrics .noteGetpkRx) = r₁ at hcount ⊢
    split
    · have hrow := hcount.trans (alike_csvEvent (r.sessions i).nodeId .getpkAfterFail
        (UInt32.ofNat (r₁.sessions i).retryCount) 0 0 0 r₁)
      obtain ⟨hacts, hserves, -⟩ := (hrow.serves hs).restart P rnd (Or.inr hgetpk)
        sender
      exact ⟨hrow.acts.trans hacts, hserves⟩
    · exact ⟨hcount.acts, hcount.serves hs⟩
  clear hr₂
  obtain ⟨hacts, hserves⟩ := hfirst
  split
  · rename_i hidle
    have hrow := alike_csvEvent (r.sessions i).nodeId .getpkAccept msgId.toUInt32 0 0 0 r₂
    exact (hacts.trans hrow.acts).trans ((hrow.serves hserves).start hidle _)
  · split
    · have hrow := alike_csvEvent (r.sessions i).nodeId .getpkRestart
        (r₂.sessions i).state.ctorIdx.toUInt32 msgId.toUInt32 0 0 r₂
      obtain ⟨hacts', hserves', hidle⟩ := (hrow.serves hserves).restart P rnd
        (Or.inr hgetpk) sender
      exact ((hacts.trans hrow.acts).trans hacts').trans (hserves'.start hidle _)
    · exact hacts.trans (alike_csvEvent ..).acts

theorem noteCtStart_acts (P : Platform) (clk : Clock) (rnd : Entropy) (data : Option Bytes)
    (hs : Serves i nodeId r) (msgType msgId : UInt8) :
    Acts P rnd data r (r.noteCtStart P clk i msgType msgId) ∧
      Serves i nodeId (r.noteCtStart P clk i msgType msgId) := by
  unfold noteCtStart
  dsimp only
  split
  · rename_i hct
    refine ⟨?_, ⟨by simp [hs.used], by simp [hs.role], by simp [hs.nodeId]⟩⟩
    have hcore : (((r.sessions i).mapMetrics (.noteCtRxStart (clk 22))).sessionSetPending P (clk 23)
        pqcMsgCt msgId).core = (r.sessions i).core.await .waitCt pqcMsgCt msgId := by
      simp [hct.2.1]
    rw [csvEvent_mapSession]
    exact .tail (.single (.ctStart hs.used hct.2.1 hcore)) (.touch (alike_csvEvent ..))
  · exact ⟨.refl, hs⟩

theorem core_pqcHandleEncryptedTemp (P : Platform) (d : Bytes) (out : TempPayload) (s : Session) :
    (pqcHandleEncryptedTemp P d out s).2.2.core = s.core := by
  unfold pqcHandleEncryptedTemp
  split
  · rfl
  · dsimp only
    split <;> rfl

theorem alike_handleTemp (P : Platform) (i : Fin sessionMaxNodes) (d : Bytes) (r : Root) :
    Alike r (r.handleTemp P i d) := by
  have hs : Alike r (r.setSession i (pqcHandleEncryptedTemp P d ⟨0, 0, 0⟩ (r.sessions i)).2.2) :=
    alike_setSession (core_pqcHandleEncryptedTemp ..)
  unfold handleTemp
  dsimp only
  split
  · exact hs.trans (alike_csvTemp ..)
  · exact hs.trans (alike_csvEvent ..)

theorem alike_handleMetrics (i : Fin sessionMaxNodes) (d : Bytes) (r : Root) :
    Alike r (r.handleMetrics i d) := by
  unfold handleMetrics
  cases metricsReport d with
  | none => exact alike_csvEvent ..
  | some report =>
    exact ((alike_csvNodeMetrics ..).trans (alike_sessionStoreNodeMetrics ..)).trans
      (alike_csvSessionSummaryIfReady ..)

theorem putFsm_collect (i : Fin sessionMaxNodes) (slots : Slots) (r : Root) :
    r.putFsm i ⟨r.sessions i, r.hs.setSlots slots, r.tx, r.obs⟩ =
      { r with hs := r.hs.setSlots slots } := by
  simp [putFsm]

theorem handleHandshake_acts (hs : Serves i nodeId r) (hd : data = some d) (dst : UdpSendCtx) :
    Acts P rnd data r (r.handleHandshake P clk rnd i dst d) := by
  have hact : Acts P rnd data r
      (r.putFsm i ((r.fsm i).hsFsmHandleFragment P (.sessions i) clk rnd dst d).2) := by
    rcases hsFsmHandleFragment_cases P (.sessions i) clk rnd dst d (r.fsm i) with
      ⟨slots, hcol, hres⟩ | ⟨h, hparse, hname, hhandled⟩
    · rw [hres]
      simp only [fsm_s, fsm_hs, fsm_tx, fsm_obs, putFsm_collect]
      exact .single (.collect hcol)
    · have hnode : (r.sessions i).nodeId = h.nodeId := by
        rcases hname with hname | ⟨hrole, -⟩
        · exact hname
        · simp [hs.role] at hrole
      have hsame : (r.fsm i).mapS (Session.adoptNodeId h.nodeId) = r.fsm i := by
        simp [Fsm.mapS, fsm, ← hnode, Session.adoptNodeId_self]
      rw [hsame] at hhandled
      exact .single (.fragment hd hparse hs.used hnode hhandled)
  unfold handleHandshake
  dsimp only
  split
  · exact hact.trans (((alike_csvHsSummary ..).trans (alike_impactEnd ..)).trans
      (alike_csvSessionSummaryIfReady ..)).acts
  · exact hact

theorem dispatch_acts (hs : Serves i (pqcHeaderGetNodeId d) r) (hd : data = some d)
    (sender : IpAddr) : Acts P rnd data r (r.dispatch P clk rnd i sender d) := by
  have hpeer : Alike r (r.mapSession i (Session.sessionSetPeerAddr sender)) :=
    alike_mapSession (by simp)
  unfold dispatch
  dsimp only
  generalize r.mapSession i (Session.sessionSetPeerAddr sender) = r₁ at hpeer ⊢
  apply hpeer.acts.trans
  have hs₁ := hpeer.serves hs
  split
  · rename_i htype
    exact handleGetpk_acts hs₁ hd ⟨htype, rfl⟩ sender _
  · obtain ⟨hacts, hs₂⟩ := noteCtStart_acts P clk rnd data hs₁
      (byteAt d pqcHdrMsgType) (byteAt d pqcHdrMsgId)
    apply hacts.trans
    split
    · exact (alike_handleTemp ..).acts
    · split
      · exact (alike_handleMetrics ..).acts
      · exact handleHandshake_acts hs₂ hd _

theorem sessionManagerFind_some {j : Fin sessionMaxNodes}
    (h : r.sessionManagerFind nodeId = some j) :
    (r.sessions j).used = true ∧ (r.sessions j).nodeId = nodeId := by
  simpa using List.find?_some h

/-- Every packet is handled by acts on the session of the node it names. -/
theorem udpRxCallback_acts (hr : Rooted r) (sender : IpAddr) (d : Bytes) :
    Acts P rnd (some d) r (r.udpRxCallback P clk rnd sender d) := by
  unfold udpRxCallback
  split
  · exact (alike_csvEvent ..).acts
  · unfold sessionManagerGetOrCreate
    cases hfind : r.sessionManagerFind (pqcHeaderGetNodeId d) with
    | some i =>
      obtain ⟨hused, hnode⟩ := sessionManagerFind_some hfind
      exact dispatch_acts ⟨hused, hr i hused, hnode⟩ rfl sender
    | none =>
      dsimp only
      cases hfree : (List.finRange sessionMaxNodes).find? fun i => !(r.sessions i).used with
      | none => exact (alike_csvEvent ..).acts
      | some i =>
        have hunused : (r.sessions i).used = false := by simpa using List.find?_some hfree
        exact (ReflTransGen.single (Act.create rfl hfind hunused)).trans
          (dispatch_acts ⟨by simp, by simp, by simp⟩ rfl sender)

theorem retrySession_acts (clk : Clock) (rnd : Entropy) (i : Fin sessionMaxNodes) (r : Root) :
    Acts P rnd none r (r.retrySession P clk i) := by
  unfold retrySession
  dsimp only
  split
  · rename_i hused
    have hact : Acts P rnd none r (r.putFsm i ((r.fsm i).hsFsmRetry P (.sessions i) clk
        ⟨some udpConn, some (r.sessions i).peerAddr⟩).2) :=
      .single (.retry hused.1 (hsFsmRetry_cases ..))
    have hused₁ : ((r.putFsm i ((r.fsm i).hsFsmRetry P (.sessions i) clk
        ⟨some udpConn, some (r.sessions i).peerAddr⟩).2).sessions i).used = true := by
      have hid := (hsFsmRetry_cases P (.sessions i) clk
        ⟨some udpConn, some (r.sessions i).peerAddr⟩ (r.fsm i)).identity
      simpa [hused.1] using congrArg Prod.fst hid
    generalize r.putFsm i _ = r₁ at hact hused₁ ⊢
    split
    · rename_i hfailed
      have hrows := ((alike_csvHsSummary (r₁.sessions i) .hsFail r₁).trans
        (alike_impactEnd P (clk 20) (r₁.sessions i).nodeId false _)).trans
        (alike_csvEvent (r₁.sessions i).nodeId .hsFailReset (r₁.sessions i).state.ctorIdx.toUInt32
          (UInt32.ofNat (r₁.sessions i).retryCount) 0 0 _)
      have hc := hrows.cores i
      refine (hact.trans hrows.acts).tail (.reset ?_ (Or.inl ?_))
      · exact (congrArg SessionCore.used hc).trans hused₁
      · exact (congrArg SessionCore.state hc).trans (eq_of_beq hfailed)
    · exact hact
  · exact .refl

/-- A retry tick visits the sessions one after the other, each with acts of its own. -/
theorem retries_acts (clk : Fin sessionMaxNodes → Clock) (rnd : Entropy)
    (is : List (Fin sessionMaxNodes)) (r : Root) :
    Acts P rnd none r (is.foldl (fun r i => r.retrySession P (clk i) i) r) := by
  induction is generalizing r with
  | nil => exact .refl
  | cons i is ih => exact (retrySession_acts (clk i) rnd i r).trans (ih _)

theorem retryTick_acts (clk : Fin sessionMaxNodes → Clock) (r : Root) :
    Acts P rnd none r (r.retryTick P clk) :=
  retries_acts clk rnd (List.finRange sessionMaxNodes) r

/-- What can happen to the root: a packet arrives, or one of its timers fires. -/
inductive Event where
  | receive (clk : Clock) (rnd : Entropy) (sender : IpAddr) (data : Bytes)
  | retry (clk : Fin sessionMaxNodes → Clock)
  | transmit

/-- The root after an event. -/
def handle (P : Platform) (r : Root) : Event → Root
  | .receive clk rnd sender data => r.udpRxCallback P clk rnd sender data
  | .retry clk => r.retryTick P clk
  | .transmit => r.txTick.2

/-- The packet an event brings. -/
def Event.heard : Event → Option Bytes
  | .receive _ _ _ data => some data
  | .retry _ | .transmit => none

/-- The packets the root hands to the network at an event. -/
def sent (r : Root) : Event → List Bytes
  | .transmit => (r.txTick.1.map Datagram.data).toList
  | .receive .. | .retry _ => []

theorem handle_acts (hr : Rooted r) (e : Event) :
    ∃ rnd, Acts P rnd e.heard r (r.handle P e) := by
  cases e with
  | receive clk rnd sender data => exact ⟨rnd, udpRxCallback_acts hr sender data⟩
  | retry clk => exact ⟨0, retryTick_acts clk r⟩
  | transmit => exact ⟨0, .single .transmit⟩

end Root

end PqcContiki
