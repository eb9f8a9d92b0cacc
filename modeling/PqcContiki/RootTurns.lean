import PqcContiki.RootWork

/-!
The root's handlers as turns: what each of them does to the books of its session, to the impact
window and to the rows that are about either.
-/
namespace PqcContiki

open Relation

namespace Root

variable {P : Platform} {clk : Clock} {rnd : Entropy} {r r' r'' r₁ : Root}
  {i j : Fin sessionMaxNodes} {nodeId : UInt16} {dst : UdpSendCtx} {sender : IpAddr} {d : Bytes}

/-- `startHandshake` on a session that stands ready. -/
theorem Reopened.launched (hs : Serves i nodeId r) (hr : Reopened i r r₁) (clk : Clock)
    (rnd : Entropy) (dst : UdpSendCtx) :
    ∃ ok r₂, Handed i (r₁.impactStart (clk 20) nodeId) r₂ ∧
      Fsm.Opened P rnd (r₁.fsm i) ok (r₂.sessions i) ∧
      r₁.startHandshake P clk rnd i dst =
        if ok = true then r₂ else r₂.impactEnd P (clk 21) nodeId false := by
  have hid : (r₁.sessions i).nodeId = nodeId := hr.serves.nodeId.trans hs.nodeId
  have hsame : (r₁.impactStart (clk 20) nodeId).fsm i = r₁.fsm i := by
    unfold impactStart
    dsimp only
    split <;> rfl
  have hrole : (r₁.fsm i).s.role = .root := hr.serves.role
  have hstate : (r₁.fsm i).s.state ≠ .failed := by simp [hr.state]
  have hopened := Fsm.opened_hsFsmStart P clk rnd dst hrole hstate
  obtain ⟨slots, -, hstarted⟩ := hsFsmStart_cases P clk rnd dst hrole
  have hidentity : ((r₁.fsm i).hsFsmStart P clk rnd dst).2.s.core.identity =
      ((r₁.impactStart (clk 20) nodeId).sessions i).core.identity := by
    refine hstarted.identity.trans ?_
    rw [← hsame]
    rfl
  refine ⟨((r₁.fsm i).hsFsmStart P clk rnd dst).1, _, handed_putFsm hidentity, ?_, ?_⟩
  · simpa using hopened
  · rw [startHandshake, hid, hsame]

theorem Reopened.turn (hs : Serves i nodeId r) (hr : Reopened i r r₁) (clk : Clock)
    (rnd : Entropy) (dst : UdpSendCtx) : Turn P r (r₁.startHandshake P clk rnd i dst) := by
  obtain ⟨ok, r₂, hh, ho, heq⟩ := hr.launched (P := P) hs clk rnd dst
  rw [heq]
  exact .opened i nodeId (clk 20) (clk 21) hs hr hh ho

theorem handleMetrics_work (P : Platform) (hs : Serves i nodeId r) (d : Bytes) :
    Work P r (r.handleMetrics i d) := by
  unfold handleMetrics
  rw [hs.nodeId]
  dsimp only
  cases metricsReport d with
  | none => exact .calm (calm_row (by rfl) r)
  | some report => exact .reported i nodeId report hs

/-- A fragment of a root's session is handled under the session's own id. -/
theorem identity_hsFsmHandleFragment (clk : Clock) (rnd : Entropy) (hs : Serves i nodeId r)
    (dst : UdpSendCtx) (d : Bytes) :
    ((r.fsm i).hsFsmHandleFragment P (.sessions i) clk rnd dst d).2.s.core.identity =
      (r.sessions i).core.identity := by
  rcases hsFsmHandleFragment_cases P (.sessions i) clk rnd dst d (r.fsm i) with
    ⟨slots, hcol, hres⟩ | ⟨h, hparse, hname, hhandled⟩
  · rw [hres]
    rfl
  · have hnode : (r.sessions i).nodeId = h.nodeId := by
      rcases hname with hname | ⟨hrole, -⟩
      · exact hname
      · simp [hs.role] at hrole
    have hsame : (r.fsm i).mapS (Session.adoptNodeId h.nodeId) = r.fsm i := by
      simp [Fsm.mapS, fsm, ← hnode, Session.adoptNodeId_self]
    rw [hsame] at hhandled
    exact hhandled.identity

theorem sessionIsEstablished_iff {s : Session} (hc : s.core.Coherent) :
    s.sessionIsEstablished = true ↔ s.state = .established := by
  have hest : s.established = true ↔ s.state = .established := hc.established
  rw [Session.sessionIsEstablished, Bool.and_eq_true, beq_iff_eq, hest, and_self]

theorem pursued_root {s : Session} (hc : s.core.Coherent) (hrole : s.role = .root)
    (hp : Pursued s.state) : s.state = .waitCt := by
  rcases hc.root_state hrole with h | h | h | h
  · exact absurd hp (by simp [Pursued, h])
  · exact h
  · exact absurd hp (by simp [Pursued, h])
  · exact absurd hp (by simp [Pursued, h])

/-- A retry goes on waiting or gives up. -/
theorem retried_state {f f' : Fsm} (h : Retried f f') :
    f'.s.state = f.s.state ∨ f'.s.state = .failed := by
  have hof {s : Session} {c : SessionCore} (hcore : s.core = c) : s.state = c.state :=
    congrArg SessionCore.state hcore
  cases h with
  | waited hs _ => exact Or.inl (hof hs)
  | failed _ hs _ _ _ => exact Or.inr (hof hs)
  | asked _ hs _ _ _ _ => exact Or.inl (hof hs)
  | resent _ hs _ _ =>
    rcases hs with hs | hs
    · exact Or.inl (hof hs)
    · exact Or.inl (hof hs)
  | stray _ _ _ => exact Or.inl rfl

theorem handleHandshake_work (hsound : Sound r) (hs : Serves i nodeId r) (dst : UdpSendCtx)
    (d : Bytes) : Work P r (r.handleHandshake P clk rnd i dst d) := by
  have hc := (hsound.sessions i hs.used).2
  have hh := handed_putFsm (i := i) (identity_hsFsmHandleFragment (P := P) clk rnd hs dst d)
  have hb : Booked (r.sessions i) _ :=
    Fsm.booked_hsFsmHandleFragment P (.sessions i) clk rnd dst d (r.fsm i)
  unfold handleHandshake
  dsimp only
  have hself : ((r.putFsm i ((r.fsm i).hsFsmHandleFragment P (.sessions i) clk rnd dst
      d).2).sessions i) = ((r.fsm i).hsFsmHandleFragment P (.sessions i) clk rnd dst d).2.s := by
    simp
  rw [← hself] at hb
  generalize r.putFsm i _ = r₁ at hh hb ⊢
  have hid : (r₁.sessions i).nodeId = nodeId :=
    (congrArg (fun x => x.2.1) hh.identity).trans hs.nodeId
  cases hb with
  | quiet hq =>
    rw [if_neg]
    · exact .calm (hh.calm hq)
    · rw [hq.sessionIsEstablished]
      simp
  | onward hfrom =>
    have hstate := pursued_root hc hs.role (Or.inl hfrom)
    rw [hfrom] at hstate
    cases hstate
  | failed hfrom hto hest hb =>
    have hstate := pursued_root hc hs.role hfrom
    rw [if_neg]
    · exact .failed i nodeId hs hh hstate hto hest hb
    · simp [Session.sessionIsEstablished, hto]
  | succeeded hfrom hto hest hb =>
    have hstate := pursued_root hc hs.role hfrom
    rw [if_pos, hid]
    · exact .succeeded i nodeId (clk 24) hs hh hstate hto hest hb
    · simp [Session.sessionIsEstablished, hstate, hto, hest]

/-- A packet of session `i` other than a request for the key: some calm, and then the handler of
its type. -/
theorem dispatch_cases (clk : Clock) (rnd : Entropy) (hsound : Sound r)
    (hs : Serves i (pqcHeaderGetNodeId d) r) (hkind : byteAt d pqcHdrMsgType ≠ pqcMsgGetpk)
    (sender : IpAddr) :
    ∃ r₁, Calm r r₁ ∧ Sound r₁ ∧ r.dispatch P clk rnd i sender d =
      if byteAt d pqcHdrMsgType = pqcMsgTemp then r₁.handleTemp P i d
      else if byteAt d pqcHdrMsgType = pqcMsgMetrics then r₁.handleMetrics i d
      else r₁.handleHandshake P clk rnd i ⟨some udpConn, some sender⟩ d := by
  have hcalm := calm_setPeer i sender r
  have hpeer : Alike r (r.mapSession i (Session.sessionSetPeerAddr sender)) :=
    alike_mapSession (by simp)
  unfold dispatch
  dsimp only
  have hsound₁ := sound_acts hsound (hpeer.acts : Acts P rnd (some d) r _)
  generalize r.mapSession i (Session.sessionSetPeerAddr sender) = r₁ at hcalm hsound₁ ⊢
  have hs₁ := hcalm.serves hs
  rw [if_neg hkind]
  have hnote := calm_noteCtStart (P := P) clk i (byteAt d pqcHdrMsgType)
    (byteAt d pqcHdrMsgId) r₁
  have hacts := noteCtStart_acts P clk rnd (some d) hs₁ (byteAt d pqcHdrMsgType)
    (byteAt d pqcHdrMsgId)
  exact ⟨_, hcalm.trans hnote, sound_acts hsound₁ hacts.1, rfl⟩

/-- The handler does some work. -/
theorem dispatch_work (clk : Clock) (rnd : Entropy) (hsound : Sound r)
    (hs : Serves i (pqcHeaderGetNodeId d) r) (hkind : byteAt d pqcHdrMsgType ≠ pqcMsgGetpk)
    (sender : IpAddr) :
    ∃ r₁, Calm r r₁ ∧ Work P r₁ (r.dispatch P clk rnd i sender d) := by
  obtain ⟨r₁, hcalm, hsound₁, heq⟩ := dispatch_cases (P := P) clk rnd hsound hs
    hkind sender
  have hs₁ := hcalm.serves hs
  refine ⟨r₁, hcalm, ?_⟩
  rw [heq]
  split
  · exact .heardTemp i _ d hs₁
  · split
    · exact handleMetrics_work P hs₁ d
    · exact handleHandshake_work hsound₁ hs₁ _ d

/-- A request for the key starts a handshake on a session that stands ready for it. -/
theorem dispatch_getpk (clk : Clock) (rnd : Entropy) (hsound : Sound r)
    (hs : Serves i (pqcHeaderGetNodeId d) r) (hkind : byteAt d pqcHdrMsgType = pqcMsgGetpk)
    (sender : IpAddr) :
    ∃ r₁, Reopened i r r₁ ∧ r.dispatch P clk rnd i sender d =
      r₁.startHandshake P clk rnd i ⟨some udpConn, some sender⟩ := by
  have hcalm := calm_setPeer i sender r
  have hc := (hsound.sessions i hs.used).2
  have hc₁ : ((r.mapSession i (Session.sessionSetPeerAddr sender)).sessions i).core.Coherent := by
    rw [mapSession_self]
    exact hc
  have hothers : ∀ j, j ≠ i →
      (r.mapSession i (Session.sessionSetPeerAddr sender)).sessions j = r.sessions j := by
    intro j hj
    simp [mapSession, hj]
  obtain ⟨r₁, hreopened, heq⟩ := handleGetpk_cases (P := P) clk rnd
    (hcalm.serves hs) hc₁ sender (byteAt d pqcHdrMsgId)
  refine ⟨r₁, hreopened.of_calm hcalm rfl rfl hothers, ?_⟩
  unfold dispatch
  dsimp only
  rw [if_pos hkind, heq]

theorem dispatch_turns (hsound : Sound r) (hs : Serves i (pqcHeaderGetNodeId d) r)
    (sender : IpAddr) : Turns P r (r.dispatch P clk rnd i sender d) := by
  by_cases hkind : byteAt d pqcHdrMsgType = pqcMsgGetpk
  · obtain ⟨r₁, hreopened, heq⟩ := dispatch_getpk (P := P) clk rnd hsound hs
      hkind sender
    rw [heq]
    exact .single (hreopened.turn hs clk rnd _)
  · obtain ⟨r₁, hcalm, hwork⟩ := dispatch_work (P := P) clk rnd hsound hs hkind
      sender
    exact (ReflTransGen.single (.work (.calm hcalm))).tail (.work hwork)

/-- Session `i` serves the node in `r₀`, which is `r` with that session created where there was
none. -/
structure Found (nodeId : UInt16) (r : Root) (i : Fin sessionMaxNodes) (r₀ : Root) : Prop where
  serves : Serves i nodeId r₀
  sound : Sound r₀
  how : r₀ = r ∨ ((r.sessions i).used = false ∧ r.sessionManagerFind nodeId = none ∧
    r₀ = r.setSession i (Session.sessionInit .root nodeId))

theorem Found.turns (h : Found nodeId r i r') : Turns P r r' := by
  rcases h.how with rfl | ⟨hfree, hnew, rfl⟩
  · exact .refl
  · exact .single (.create i nodeId hfree hnew)

theorem sessionManagerGetOrCreate_found (hsound : Sound r)
    (h : (r.sessionManagerGetOrCreate nodeId).1 = some i) :
    Found nodeId r i (r.sessionManagerGetOrCreate nodeId).2 := by
  unfold sessionManagerGetOrCreate at h ⊢
  cases hfind : r.sessionManagerFind nodeId with
  | some j =>
    simp only [hfind, Option.some.injEq] at h ⊢
    subst h
    obtain ⟨hused, hnode⟩ := sessionManagerFind_some hfind
    exact ⟨⟨hused, hsound.rooted j hused, hnode⟩, hsound, Or.inl rfl⟩
  | none =>
    simp only [hfind] at h ⊢
    cases hfree : (List.finRange sessionMaxNodes).find? fun i => !(r.sessions i).used with
    | none => simp [hfree] at h
    | some j =>
      simp only [hfree, Option.some.injEq] at h ⊢
      subst h
      have hunused : (r.sessions j).used = false := by simpa using List.find?_some hfree
      refine ⟨⟨by simp, by simp, by simp⟩, ⟨?_, hsound.log⟩, Or.inr ⟨hunused, hfind, rfl⟩⟩
      exact fits_update hsound.sessions (fits_fresh (Session.core_sessionInit ..))

/-- A packet is invalid, finds no session, or is about the session of its node. -/
theorem udpRxCallback_cases (clk : Clock) (rnd : Entropy) (hsound : Sound r) (sender : IpAddr)
    (d : Bytes) :
    (Calm r (r.udpRxCallback P clk rnd sender d) ∧ (pqcHeaderValid d = true →
        (r.sessionManagerGetOrCreate (pqcHeaderGetNodeId d)).1 = none)) ∨
      ∃ i r₀, pqcHeaderValid d = true ∧
        r.sessionManagerGetOrCreate (pqcHeaderGetNodeId d) = (some i, r₀) ∧
        Found (pqcHeaderGetNodeId d) r i r₀ ∧
        r.udpRxCallback P clk rnd sender d = r₀.dispatch P clk rnd i sender d := by
  unfold udpRxCallback
  by_cases hvalid : pqcHeaderValid d = true
  · simp only [hvalid, Bool.not_true, Bool.false_eq_true, if_false]
    cases hfound : (r.sessionManagerGetOrCreate (pqcHeaderGetNodeId d)).1 with
    | none =>
      refine Or.inl ?_
      have hsame : (r.sessionManagerGetOrCreate (pqcHeaderGetNodeId d)).2 = r := by
        unfold sessionManagerGetOrCreate at hfound ⊢
        cases hfind : r.sessionManagerFind (pqcHeaderGetNodeId d) with
        | some j => rfl
        | none =>
          simp only [hfind] at hfound ⊢
          cases hfree : (List.finRange sessionMaxNodes).find? fun i => !(r.sessions i).used with
          | none => rfl
          | some j => simp [hfree] at hfound
      rw [hsame]
      exact ⟨calm_row (by rfl) r, fun _ => rfl⟩
    | some i =>
      exact Or.inr ⟨i, _, trivial, Prod.ext hfound rfl,
        sessionManagerGetOrCreate_found hsound hfound, rfl⟩
  · simp only [hvalid, Bool.not_false, if_true]
    exact Or.inl ⟨calm_row (by rfl) r, fun h => by cases h⟩

theorem udpRxCallback_turns (hsound : Sound r) (sender : IpAddr) (d : Bytes) :
    Turns P r (r.udpRxCallback P clk rnd sender d) := by
  rcases udpRxCallback_cases (P := P) clk rnd hsound sender d with
    ⟨hcalm, -⟩ | ⟨i, r₀, -, -, hfound, heq⟩
  · exact .single (.work (.calm hcalm))
  · rw [heq]
    exact hfound.turns.trans (dispatch_turns hfound.sound hfound.serves sender)

theorem retrySession_cases (clk : Clock) (hsound : Sound r) (i : Fin sessionMaxNodes) :
    Calm r (r.retrySession P clk i) ∨
      GaveUp P i (r.sessions i).nodeId r (r.retrySession P clk i) := by
  unfold retrySession
  dsimp only
  split
  · rename_i hdue
    have hs : Serves i (r.sessions i).nodeId r :=
      ⟨hdue.1, hsound.rooted i hdue.1, rfl⟩
    have hc := (hsound.sessions i hdue.1).2
    have hretried := hsFsmRetry_cases P (.sessions i) clk
      ⟨some udpConn, some (r.sessions i).peerAddr⟩ (r.fsm i)
    have hh := handed_putFsm (i := i) (r := r) hretried.identity
    have hb : Booked (r.sessions i) _ := Fsm.booked_hsFsmRetry P (.sessions i) clk
      ⟨some udpConn, some (r.sessions i).peerAddr⟩ (f := r.fsm i) hc.pursued
    have hself : ((r.putFsm i ((r.fsm i).hsFsmRetry P (.sessions i) clk
        ⟨some udpConn, some (r.sessions i).peerAddr⟩).2).sessions i) =
        ((r.fsm i).hsFsmRetry P (.sessions i) clk
          ⟨some udpConn, some (r.sessions i).peerAddr⟩).2.s := by
      simp
    rw [← hself] at hb
    have hstate := retried_state hretried
    rw [← hself] at hstate
    generalize r.putFsm i _ = r₁ at hh hb hstate ⊢
    have hid : (r₁.sessions i).nodeId = (r.sessions i).nodeId :=
      congrArg (fun x => x.2.1) hh.identity
    rw [hid]
    cases hb with
    | quiet hq =>
      split
      · rename_i hfailed
        have hto : (r₁.sessions i).state = .failed := eq_of_beq hfailed
        exact Or.inr (.intro _ _ _ hs hh hto (Or.inl ⟨hq.state ▸ hto, hq.books⟩))
      · exact Or.inl (hh.calm hq)
    | onward hfrom =>
      have hstate := pursued_root hc hs.role (Or.inl hfrom)
      rw [hfrom] at hstate
      cases hstate
    | failed hfrom hto hest hb =>
      have hstate := pursued_root hc hs.role hfrom
      rw [if_pos (by simp [Session.sessionIsFailed, hto])]
      exact Or.inr (.intro _ _ _ hs hh hto (Or.inr ⟨hstate, hb⟩))
    | succeeded hfrom hto hest hb =>
      rcases hstate with hstay | hfail
      · have hsame : (r.sessions i).state = .established := hstay.symm.trans hto
        exact absurd hfrom (by simp [Pursued, hsame])
      · cases hfail.symm.trans hto
  · exact Or.inl (Calm.refl r)

theorem retrySession_work (clk : Clock) (hsound : Sound r) (i : Fin sessionMaxNodes) :
    Work P r (r.retrySession P clk i) := by
  rcases retrySession_cases (P := P) clk hsound i with hcalm | hgave
  · exact .calm hcalm
  · exact .gaveUp i _ hgave

theorem retryTick_works (hsound : Sound r) (clk : Fin sessionMaxNodes → Clock) :
    Works P r (r.retryTick P clk) := by
  unfold retryTick
  induction List.finRange sessionMaxNodes generalizing r with
  | nil => exact .refl
  | cons i is ih =>
    refine ReflTransGen.head (retrySession_work (clk i) hsound i) ?_
    exact ih (sound_acts hsound (retrySession_acts (clk i) 0 i r))

theorem handle_turns (hsound : Sound r) (e : Event) : Turns P r (r.handle P e) := by
  cases e with
  | receive clk rnd sender data => exact udpRxCallback_turns hsound sender data
  | retry clk => exact (retryTick_works hsound clk).turns
  | transmit => exact .single (.work <| .calm ⟨fun _ => Idle.refl _, rfl, Logs.refl _⟩)

end Root

end PqcContiki
