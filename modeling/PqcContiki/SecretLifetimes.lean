import PqcContiki.RootSecrets

/-! How long secrets live at the node, and so in both programs. -/
namespace PqcContiki

open TxQueue Relation Runs

variable {P : Platform} {me : SessionRef} {clk : Clock} {rnd : Entropy} {conn : UdpConn}
  {dest : IpAddr} {h : FragmentHeader} {payload : Bytes} {ctx : FragmentRxCtx} {f f' f'' : Fsm}
  {s s' : Session}

namespace Node

variable {n n' : Node} {past : List Node}

/-- No secret outlives its use at the node, and the ciphertext it may have to send again is the one
of its secret. -/
structure Clean (P : Platform) (n : Node) : Prop where
  session : n.session.Confined
  rootCt : n.hs.rootCt = zeroCt
  nodeCt : n.session.state ≠ .waitAck → n.hs.nodeCt = zeroCt
  waitAck : n.session.state = .waitAck →
    ∃ rnd pk, P.cryptoWorkerEncapsulate rnd pk = (true, n.hs.nodeCt, n.session.ss)

/-- A packet that completes the key finds room for the ciphertext. -/
def HasRoom (P : Platform) (n : Node) : Event → Prop
  | .receive clk _ data => ∀ ctx, n.session.state = .waitPk →
      n.fsm.Completes P .localSession clk data pqcMsgPk ctx →
      fragmentRxLen ctx = cwHqcPublicKeyLen → n.fsm.txHasRoomFor cwHqcCiphertextLen = true
  | .routing .. | .retry .. | .temp _ | .transmit | .reset | .reboot => True

theorem Clean.of_core {c : SessionCore} (h : Clean P n) (hc : n'.session.core = c)
    (hstate : c.state = n.session.state) (hss : c.ss = n.session.ss)
    (hkey : c.aesKey = n.session.aesKey) (hroot : n'.hs.rootCt = n.hs.rootCt)
    (hnode : n'.hs.nodeCt = n.hs.nodeCt) : Clean P n' := by
  have hstate' : n'.session.state = n.session.state := (congrArg SessionCore.state hc).trans hstate
  have hss' : n'.session.ss = n.session.ss := (congrArg SessionCore.ss hc).trans hss
  refine ⟨h.session.of_core hc hstate hss hkey, hroot.trans h.rootCt, ?_, ?_⟩
  · rw [hstate', hnode]
    exact h.nodeCt
  · rw [hstate', hnode, hss']
    exact h.waitAck

theorem Clean.of_alike (h : Clean P n) (ha : Alike n n') : Clean P n' := by
  obtain ⟨k, hk⟩ := ha.session
  exact h.of_core hk rfl rfl rfl (congrArg HsStatics.rootCt ha.hs) (congrArg HsStatics.nodeCt ha.hs)

/-- A session without keys that does not wait for an acknowledgement. -/
theorem Clean.of_keyless (hk : n.session.Keyless) (hne : n.session.state ≠ .waitAck)
    (hroot : n.hs.rootCt = zeroCt) (hnode : n.hs.nodeCt = zeroCt) : Clean P n :=
  ⟨hk.confined, hroot, fun _ => hnode, fun hw => absurd hw hne⟩

theorem clean_boot (P : Platform) (nodeId : UInt16) : Clean P (boot nodeId) :=
  .of_keyless ⟨rfl, rfl⟩ (by simp) rfl rfl

theorem clean_collect {slots : Slots} (h : Clean P n) :
    Clean P { n with hs := n.hs.setSlots slots } :=
  ⟨h.session, h.rootCt, h.nodeCt, h.waitAck⟩

/-- A fragment that fails the session has to leave its secrets as they were. -/
theorem clean_handled (hh : Handled P me rnd h payload n.fsm f) (hrole : n.session.role = .node)
    (hc : Clean P n) (hfail : FailsCleanly n.fsm f) : Clean P (n.putFsm f) := by
  have hrejected : n.session.state = .waitPk → f.s.state = .failed → f.hs.rootCt = zeroCt →
      Clean P (n.putFsm f) := by
    intro hpk hf hroot
    obtain ⟨hss, hkey, hnode⟩ := hfail hf
    have hk : n.session.Keyless := hc.session (Or.inr (Or.inl hpk))
    refine .of_keyless ⟨hss.trans hk.1, hkey.trans hk.2⟩ ?_ hroot ?_
    · simp [hf]
    · exact hnode.trans (hc.nodeCt (by simp [hpk]))
  cases hh with
  | incomplete hi =>
    cases hi with
    | quiet hs _ | stored hs _ _ _ _ _ =>
      obtain ⟨k, hk⟩ := hs
      exact hc.of_core hk rfl rfl rfl rfl rfl
    | refused _ _ => exact hc.of_core rfl rfl rfl rfl rfl rfl
    | resent hs _ _ => exact hc.of_core hs rfl rfl rfl rfl rfl
  | confirmed hr _ _ _ _ _ | ct hr _ _ _ _ => cases hrole.symm.trans hr
  | pk _ hpk _ _ hpkc =>
    cases hpkc with
    | rejected _ hs | failed _ _ hs _ =>
      exact hrejected hpk (congrArg SessionCore.state hs) hc.rootCt
    | @sent s ct ss _ _ henc hs _ =>
      have hstate : s.state = .waitAck := congrArg SessionCore.state hs
      have hss : s.ss = ss := congrArg SessionCore.ss hs
      refine ⟨Session.confined_of_state (Or.inr hstate), hc.rootCt, ?_, ?_⟩
      · exact fun hne => absurd hstate hne
      · intro _
        rw [← hss] at henc
        exact ⟨rnd, _, henc⟩
  | @ack _ _ s _ _ _ _ _ _ hs =>
    have hstate : s.state = .established := congrArg SessionCore.state hs
    refine ⟨Session.confined_of_state (Or.inl hstate), hc.rootCt, fun _ => rfl, ?_⟩
    intro hw
    cases hstate.symm.trans hw

theorem clean_udpRxCallback (henc : P.Encapsulates) (hsound : Sound n) (hord : Orderly n)
    (hc : Clean P n) (clk : Clock) (rnd : Entropy) (d : Bytes)
    (hroom : HasRoom P n (.receive clk rnd d)) : Clean P (n.udpRxCallback P clk rnd d) := by
  have hfail : FailsCleanly n.fsm
      (n.fsm.hsFsmHandleFragment P .localSession clk rnd n.sendCtx d).2 :=
    hsFsmHandleFragment_failsCleanly (f := n.fsm) henc hord.tx hsound.role hroom udpConn
      n.destAddress
  have hhandled : Clean P
      (n.putFsm (n.fsm.hsFsmHandleFragment P .localSession clk rnd n.sendCtx d).2) := by
    rcases hsFsmHandleFragment_cases P .localSession clk rnd n.sendCtx d n.fsm with
      ⟨slots, -, hres⟩ | ⟨hdr, -, -, hh⟩
    · rw [hres]
      exact clean_collect hc
    · set m : Node := { n with session := n.session.adoptNodeId hdr.nodeId } with hm
      have hadopt : m.session.role = n.session.role ∧ m.session.ss = n.session.ss ∧
          m.session.aesKey = n.session.aesKey ∧ Clean P m := by
        rcases n.session.adoptNodeId_cases hdr.nodeId with ha | ha <;> rw [hm, ha] <;>
          exact ⟨rfl, rfl, rfl, hc.of_core rfl rfl rfl rfl rfl rfl⟩
      obtain ⟨hrole, hss, hkey, hcm⟩ := hadopt
      refine clean_handled (n := m) hh (hrole.trans hsound.role) hcm ?_
      intro hf
      obtain ⟨hss', hkey', hnode⟩ := hfail hf
      exact ⟨hss'.trans hss.symm, hkey'.trans hkey.symm, hnode⟩
  rcases udpRxCallback_turn P clk rnd d n with hsame | halike
  · rw [hsame]
    exact hc
  · exact hhandled.of_alike halike

theorem clean_retryTick (hsound : Sound n) (hc : Clean P n) (clk : Clock) (routing : Routing) :
    Clean P (n.retryTick P clk routing) := by
  unfold retryTick
  split
  · exact hc
  · have hroot := alike_learnRoot routing n
    generalize n.learnRoot routing = res at hroot ⊢
    obtain ⟨reached, n₁⟩ := res
    have hsound₁ := hsound.of_skips hroot.session hroot.obs
    have hc₁ := hc.of_alike hroot
    dsimp only at hsound₁ hc₁ ⊢
    split
    · exact hc₁
    · have hretried := (hsFsmRetry_cases P .localSession clk n₁.sendCtx n₁.fsm).secrets
      generalize (n₁.fsm.hsFsmRetry P .localSession clk n₁.sendCtx).2 = f at hretried ⊢
      -- a session that failed starts over in this tick, so only the buffers matter
      have hbuf : f.s.state = .failed → f.hs.rootCt = zeroCt ∧ f.hs.nodeCt = zeroCt := by
        intro hf
        rcases hretried with ⟨-, -, -, -, hrootCt, hnode⟩ | ⟨hstate, -, -, hrootCt, hnode⟩
        · refine ⟨hrootCt.trans hc₁.rootCt, hnode.trans (if_pos hsound₁.role)⟩
        · refine ⟨hrootCt.trans hc₁.rootCt, hnode.trans (hc₁.nodeCt ?_)⟩
          have hfailed : n₁.session.state = .failed := hstate.symm.trans hf
          simp [hfailed]
      split
      · rename_i hf
        obtain ⟨hrootCt, hnode⟩ := hbuf (eq_of_beq hf)
        exact .of_keyless ⟨rfl, rfl⟩ (by simp [resetSession]) hrootCt hnode
      · rename_i hf
        rcases hretried with ⟨-, hfailed, -⟩ | ⟨hstate, hss, hkey, hrootCt, hnode⟩
        · exact absurd (beq_iff_eq.mpr hfailed) hf
        · exact hc₁.of_core rfl hstate hss hkey hrootCt hnode

theorem clean_routingTick (hc : Clean P n) (clk : Clock) (routing : Routing) :
    Clean P (n.routingTick P clk routing) := by
  have hroot := hc.of_alike (alike_learnRoot routing n)
  unfold routingTick
  generalize n.learnRoot routing = res at hroot ⊢
  obtain ⟨reached, n₁⟩ := res
  dsimp only at hroot ⊢
  split
  · rename_i hreq
    have hidle : n₁.session.state = .idle := by
      have h := hreq.2.2
      simp only [shouldRequestPk, Bool.and_eq_true, beq_iff_eq] at h
      exact h.1.1.1
    split
    · have hk : n₁.session.Keyless := hroot.session (Or.inl hidle)
      exact .of_keyless ⟨hk.1, hk.2⟩ (by simp) hroot.rootCt (hroot.nodeCt (by simp [hidle]))
    · exact hroot.of_core rfl rfl rfl rfl rfl rfl
  · exact hroot

theorem clean_handle (henc : P.Encapsulates) (hsound : Sound n) (hord : Orderly n)
    (hc : Clean P n) (e : Event) (hreset : e ≠ .reset) (hroom : HasRoom P n e) :
    Clean P (n.handle P e) := by
  cases e with
  | receive clk rnd d => exact clean_udpRxCallback henc hsound hord hc clk rnd d hroom
  | routing clk routing => exact clean_routingTick hc clk routing
  | retry clk routing => exact clean_retryTick hsound hc clk routing
  | temp measurement =>
    simp only [handle, tempTick]
    split
    · obtain ⟨hskip, hadds⟩ := pqcSendEncryptedTemp_cases P udpConn n.destAddress measurement
        n.session n.tx
      exact hc.of_alike ⟨hskip, rfl, hadds, rfl, rfl⟩
    · exact hc
  | transmit => exact hc.of_core rfl rfl rfl rfl rfl rfl
  | reset => exact absurd rfl hreset
  | reboot => exact .of_keyless ⟨rfl, rfl⟩ (by simp [handle, reboot]) rfl rfl

/-- `node_main` as long as the queue has room for the ciphertext when the key is complete. -/
abbrev RoomyReaches (P : Platform) : List Node → Node → Prop :=
  Run (fun n => ∃ nodeId, n = boot nodeId)
    (fun n e n' => e ≠ .reset ∧ HasRoom P n e ∧ n' = n.handle P e)

theorem RoomyReaches.clean (henc : P.Encapsulates) (h : RoomyReaches P past n) : Clean P n := by
  apply h.invariant (I := fun _ n => Clean P n)
  · rintro n ⟨nodeId, rfl⟩
    exact clean_boot P nodeId
  · rintro past n e n' hr hc ⟨hreset, hroom, rfl⟩
    have hreaches : Reaches P past n := hr.mono fun _ _ _ h => h.2.2
    exact clean_handle henc hreaches.sound.1 hreaches.orderly hc e hreset hroom

end Node

/-- The root never keeps a secret for too long. Nor does a node that has room for the ciphertext
whenever its key is complete. -/
theorem secret_lifetimes (henc : P.Encapsulates) (hdec : P.MasksFailure) :
    (∀ past r, Root.Reaches P past r → Root.Clean r) ∧
      (∀ past n, Node.RoomyReaches P past n → Node.Clean P n) :=
  ⟨fun _ _ hr => hr.clean hdec, fun _ _ hn => hn.clean henc⟩

theorem demo_encapsulates : Platform.demo.Encapsulates := fun _ _ => rfl

theorem demo_masksFailure : Platform.demo.MasksFailure := fun _ _ hne => absurd rfl hne

namespace Node

/-- An event of `RoomyReaches`, whatever completes the key. -/
def roomy (n : Node) : Event → Bool
  | .receive .. =>
    n.session.state != .waitPk || n.fsm.txHasRoomFor cwHqcCiphertextLen
  | .reset => false
  | .routing .. | .retry .. | .temp _ | .transmit | .reboot => true

theorem of_roomy {e : Event} (h : roomy n e = true) : e ≠ .reset ∧ HasRoom P n e := by
  cases e with
  | receive clk rnd d =>
    refine ⟨by simp, fun ctx hwait _ _ => ?_⟩
    simpa [roomy, hwait] using h
  | reset => cases h
  | routing _ _ | retry _ _ | temp _ | transmit | reboot => exact ⟨by simp, trivial⟩

/-- The node has sent its ciphertext three times more and its queue is empty. -/
def unanswered : List Event :=
  asks :: keyArrives ++ [20000, 40000, 60000].flatMap (fun now =>
    List.replicate 72 .transmit ++ [retriesAt now]) ++ List.replicate 71 .transmit

theorem roomyReaches_follow (es : List Event) (hne : es ≠ [])
    (h : allows roomy (handle .demo) (boot 1) es = true) :
    ∃ past, RoomyReaches .demo past (follow es) := by
  have hboot : RoomyReaches .demo [] (boot 1) := .start ⟨1, rfl⟩
  have hstep : ∀ (n : Node) e, roomy n e = true →
      ∃ e', e' ≠ .reset ∧ HasRoom .demo n e' ∧ n.handle .demo e = n.handle .demo e' := by
    intro n e he
    obtain ⟨hreset, hroom⟩ := of_roomy (P := .demo) he
    exact ⟨e, hreset, hroom, rfl⟩
  obtain ⟨past, hrun, -⟩ := hboot.allows hstep es hne h
  exact ⟨past, hrun⟩

end Node

namespace Node

def established : Node := follow (awaiting ++ [ackArrives])

def exhausted : Node := follow unanswered

def gaveUp : Node := exhausted.handle .demo (retriesAt 80000)

/-- What `roomy` and the secrets of these nodes evaluate to. -/
theorem secrets_reached :
    (allows roomy (handle .demo) (boot 1) (awaiting ++ [ackArrives]) = true ∧
      established.session.state = .established ∧ established.session.ss.get 0 = 7) ∧
    allows roomy (handle .demo) (boot 1) unanswered = true ∧
      exhausted.session.ss.get 0 = 7 ∧ exhausted.hs.nodeCt.get 0 = 7 ∧
      gaveUp.session.state = .idle ∧ gaveUp.session.metrics.handshake.failure = 1 := by
  decide +kernel

end Node

theorem Root.secrets_reached : (mixedOutcomes.sessions 0).ss.get 0 = 9 ∧
    (mixedOutcomes.sessions 1).state = .failed := by
  decide +kernel

/-- The root keeps the secret of the session that is established and none of the one that failed.
The node keeps its secret, and its ciphertext until that is acknowledged; when it gives up it keeps
neither. -/
theorem secret_lifetimes_exits :
    (Root.Clean mixedOutcomes ∧ (mixedOutcomes.sessions 0).ss.get 0 = 9 ∧
      (mixedOutcomes.sessions 1).Keyless) ∧
    (Node.Clean .demo Node.established ∧ Node.established.session.ss.get 0 = 7 ∧
      Node.established.hs.nodeCt = zeroCt) ∧
    (Node.Clean .demo Node.exhausted ∧ Node.exhausted.session.ss.get 0 = 7 ∧
      Node.exhausted.hs.nodeCt.get 0 = 7) ∧
    Node.Clean .demo Node.gaveUp ∧ Node.gaveUp.session.metrics.handshake.failure = 1 ∧
      Node.gaveUp.session.Keyless ∧ Node.gaveUp.hs.nodeCt = zeroCt := by
  obtain ⟨⟨hroom, hest, hss⟩, hroom', hss', hct, hidle, hfailure⟩ := Node.secrets_reached
  obtain ⟨hsecret, hfailed⟩ := Root.secrets_reached
  obtain ⟨hroot, hnode⟩ := secret_lifetimes demo_encapsulates demo_masksFailure
  obtain ⟨_, hr⟩ : ∃ past, Root.Reaches .demo past mixedOutcomes := Root.reaches_follow _
  obtain ⟨_, hn⟩ : ∃ past, Node.RoomyReaches .demo past Node.established :=
    Node.roomyReaches_follow _ (by simp) hroom
  obtain ⟨_, hn'⟩ : ∃ past, Node.RoomyReaches .demo past Node.exhausted :=
    Node.roomyReaches_follow _ (by simp only [Node.unanswered, List.cons_append, ne_eq,
      reduceCtorEq, not_false_eq_true]) hroom'
  have hgaveUp : Node.RoomyReaches .demo _ Node.gaveUp :=
    hn'.next (e := Node.retriesAt 80000) ⟨by simp [Node.retriesAt], trivial, rfl⟩
  have hclean := hroot _ _ hr
  have hclean₁ := hnode _ _ hn
  have hclean₂ := hnode _ _ hgaveUp
  refine ⟨⟨hclean, hsecret, hclean.sessions 1 ?_⟩, ⟨hclean₁, hss, hclean₁.nodeCt ?_⟩,
    ⟨hnode _ _ hn', hss', hct⟩, hclean₂, hfailure, hclean₂.session ?_, hclean₂.nodeCt ?_⟩
  · simp [hfailed]
  · simp [hest]
  · simp [hidle]
  · simp [hidle]

namespace Node

/-- The two fragments of a message of no known type, last one first. Together they leave nothing
but a NACK in the queue. -/
def strayMessage : List Event :=
  [.receive (fun _ => 0) 7 (pqcHeaderWrite 9 1 0 1 2 1 pqcFlagNone ++ [0]),
    .receive (fun _ => 0) 7 (pqcHeaderWrite 9 1 0 0 2 64 pqcFlagNone ++ List.replicate 64 0)]

/-- A GETPK and 25 NACKs wait in the queue when the key is complete. -/
def crowdedEvents : List Event :=
  .routing (fun _ => 0) ⟨true, some 5, true⟩ ::
    ((List.replicate 25 strayMessage).flatten ++ keyArrives)

/-- A node without room for its ciphertext fails, and keeps its secret and its key. -/
theorem secret_outlives_failure :
    ∃ past n, Run (fun n => ∃ nodeId, n = boot nodeId)
        (fun n e n' => e ≠ .reset ∧ n' = n.handle Platform.demo e) past n ∧
      n.session.state = .failed ∧ n.session.ss ≠ Buffer.zero _ ∧
      n.session.aesKey ≠ Buffer.zero _ := by
  have hrun : Run (fun n => ∃ nodeId, n = boot nodeId)
      (fun n e n' => e ≠ .reset ∧ n' = n.handle Platform.demo e) [] (boot 1) := .start ⟨1, rfl⟩
  obtain ⟨past, hreach⟩ := hrun.foldl (f := handle Platform.demo) crowdedEvents (by
    intro n e he
    refine ⟨?_, rfl⟩
    rintro rfl
    simp [crowdedEvents, strayMessage, keyArrives, pkArrives] at he)
  refine ⟨past, _, hreach, ?_⟩
  decide +kernel

end Node

end PqcContiki
