import PqcContiki.EncapsulationTraces

/-!
Agreement on keys between a node and the root, in one handshake of the node and across restarts,
and how long it lasts.
-/
namespace PqcContiki

open TxQueue Relation Runs

variable {P : Platform} {rnd : Entropy} {data : Option Bytes} {id : UInt16} {D : Directory}
  {cur : Option Encapsulation} {x : Encapsulation} {obs obs' : List Observation} {p : Bytes}

namespace World

variable {ι : Type*} [DecidableEq ι] {k : Network} {a : Addresses ι} {w w' : World ι}
  {past : List (World ι)} {i : ι} {e : Event ι}

theorem Reaches.traces_once (hcorrect : P.Correct) (h : Reaches P k a past w)
    (honce : (encapsulated (w.node i).obs).length ≤ 1) :
    (∃ cur, Traces P a i cur w) ∧ ((w.node i).session.state = .established →
      ∃ x ∈ past, ∃ j, x.root.Established (a.nodeId i) j ∧
        (x.root.sessions j).ss = (w.node i).session.ss) := by
  revert honce
  apply h.invariant (I := fun past w => (encapsulated (w.node i).obs).length ≤ 1 →
    (∃ cur, Traces P a i cur w) ∧ ((w.node i).session.state = .established →
      ∃ x ∈ past, ∃ j, x.root.Established (a.nodeId i) j ∧
        (x.root.sessions j).ss = (w.node i).session.ss))
  · intro w hi _
    refine ⟨⟨none, traces_initial hi i⟩, ?_⟩
    obtain ⟨rnd, -, rfl⟩ := hi
    intro hest
    cases hest
  · intro past w e w' hrun ih hstep honce
    have hs := Reaches.sound hrun
    have hd := Reaches.distributed hrun i
    have hsuffix := encapsulated_suffix (i := i) hs hstep
    obtain ⟨⟨cur, htraces⟩, hpast⟩ := ih (hsuffix.length_le.trans honce)
    refine ⟨?_, ?_⟩
    · have hready : ∀ x, Encapsulates P a i w e x.ct →
          x.msgId = (w.node i).session.nextMsgId → Ready a i x w := by
        intro x henc _
        cases cur with
        | none => exact htraces.ready_first x
        | some y =>
          exfalso
          obtain ⟨pk, hmem⟩ := htraces.made y rfl
          have hpos : y.ct ∈ encapsulated (w.node i).obs := by
            simp only [encapsulated, List.mem_filterMap]
            exact ⟨_, hmem, rfl⟩
          have hlen := List.length_pos_of_mem hpos
          rcases encapsulated_step (i := i) hs hstep with ⟨-, hno⟩ | ⟨ct, ho, -⟩
          · exact hno x.ct henc
          · rw [ho, List.length_cons] at honce
            omega
      rcases traces_step hcorrect hs hd htraces hstep hready with h' | ⟨x, -, h'⟩
      · exact ⟨cur, h'⟩
      · exact ⟨some x, h'⟩
    · intro hest
      obtain ⟨hss, hwas⟩ := established_step hs htraces hstep hest
      rw [hss]
      rcases hwas with hwas | ⟨-, clk, rnd, d, l₁, l₂, -, hobs, -⟩
      · obtain ⟨x, hx, hj⟩ := hpast hwas
        exact ⟨x, List.mem_cons_of_mem _ hx, hj⟩
      · exact Reaches.acked hrun (p := d) (by simp [hobs])

/-- In a run in which node `i` encapsulates at most once, the root agrees with it on no secret but
that of this encapsulation, and the node is established only after the root was. -/
theorem key_agreement (hcorrect : P.Correct) (h : Reaches P k a past w)
    (honce : (encapsulated (w.node i).obs).length ≤ 1) :
    let n := w.node i
    (∀ j, w.root.Established (a.nodeId i) j → ∃ pk ct ss,
      .encapsulate (a.nodeId i) pk true ct ss ∈ n.obs ∧ (w.root.sessions j).ss = ss ∧
      (w.root.sessions j).aesKey = P.cryptoWorkerDeriveAesKey ss ∧
      (n.session.state = .waitAck ∨ n.session.state = .established →
        n.session.ss = ss ∧ n.session.aesKey = P.cryptoWorkerDeriveAesKey ss)) ∧
      (n.session.state = .established → ∃ x ∈ past, ∃ j, x.root.Established (a.nodeId i) j ∧
        (x.root.sessions j).ss = n.session.ss) := by
  obtain ⟨⟨cur, htraces⟩, hpast⟩ := h.traces_once hcorrect honce
  refine ⟨?_, hpast⟩
  intro j hj
  obtain ⟨x, hcur, -, hss, hkey⟩ := htraces.root.agreed j hj
  obtain ⟨pk, hmem⟩ := htraces.made x hcur
  refine ⟨pk, x.ct, x.ss, hmem, hss, hkey, ?_⟩
  intro hstate
  obtain ⟨y, hcur', hss', hkey', -⟩ := htraces.node hstate
  obtain rfl := Option.some.inj (hcur.symm.trans hcur')
  exact ⟨hss', hkey'⟩

theorem key_agreement_confirmed : ∃ past, Reaches .demo .unordered oneNode past confirmed ∧
    (confirmed.node ()).session.ss = (confirmed.root.sessions 0).ss ∧
    ∃ x ∈ past, ∃ j, x.root.Established (oneNode.nodeId ()) j ∧
      (x.root.sessions j).ss = (confirmed.node ()).session.ss := by
  obtain ⟨past, hrun⟩ := reaches_confirmed
  obtain ⟨hnode, hroot, -, honce, -⟩ := rehearsal.2.1
  obtain ⟨hagree, hearlier⟩ := key_agreement Platform.demo_correct hrun honce
  obtain ⟨_, _, ss, -, hss, -, hsame⟩ := hagree 0 hroot
  refine ⟨past, hrun, ?_, hearlier hnode⟩
  exact (hsame (Or.inr hnode)).1.trans hss.symm

theorem vouched_next (hp : Vouched id (Confirms id cur obs) p)
    (hno : ¬ Acknowledges id x.msgId p) : Vouched id (Confirms id (some x) obs) p := by
  intro hk
  obtain ⟨msgId, confirmedMsgId, rfl, -⟩ := hp hk
  refine ⟨msgId, confirmedMsgId, rfl, x, rfl, ?_⟩
  rintro rfl
  exact absurd ⟨hk, rfl⟩ hno

omit [DecidableEq ι] in
theorem Traces.ready_atRest (h : Traces P a i cur w) (hr : AtRest a i w)
    (hid : x.msgId = (w.node i).session.nextMsgId) : Ready a i x w where
  listed := hr.drained.listed h.listed
  unsettled := hr.unsettled
  tx := fun s hs => vouched_next (h.root.tx s hs) (hid ▸ hr.tx s hs)
  toNode := fun p hp => vouched_next (h.toNode p hp) (hid ▸ hr.toNode p hp)

/-- Runs in which nothing is left of node `i`'s earlier handshakes when a key reaches it. -/
abbrev RestingReaches (P : Platform) (k : Network) (a : Addresses ι) (i : ι) :
    List (World ι) → World ι → Prop :=
  Run (Initial P a) fun w e w' => Step P k w e w' ∧ (CompletesKey P i w e → AtRest a i w)

theorem RestingReaches.reaches (h : RestingReaches P k a i past w) : Reaches P k a past w :=
  h.mono fun _ _ _ hs => hs.1

theorem RestingReaches.traces (hcorrect : P.Correct) (h : RestingReaches P k a i past w) :
    ∃ cur, Traces P a i cur w := by
  apply h.invariant (I := fun _ w => ∃ cur, Traces P a i cur w)
  · intro w hi
    exact ⟨none, traces_initial hi i⟩
  · rintro past w e w' hrun ⟨cur, htraces⟩ hstep
    have hreaches := RestingReaches.reaches hrun
    have hs := Reaches.sound hreaches
    have hready : ∀ x, Encapsulates P a i w e x.ct →
        x.msgId = (w.node i).session.nextMsgId → Ready a i x w := fun x henc hid =>
      htraces.ready_atRest (hstep.2 (henc.completesKey hs)) hid
    rcases traces_step hcorrect hs (Reaches.distributed hreaches i) htraces hstep.1 hready with
      h' | ⟨x, -, h'⟩
    · exact ⟨cur, h'⟩
    · exact ⟨some x, h'⟩

/-- If nothing is left of a node's earlier handshakes whenever a key reaches it, what establishes
the node is an acknowledgement that the root sent after it had opened the very ciphertext the node
waits on. -/
theorem ack_soundness (hcorrect : P.Correct) (h : RestingReaches P k a i past w)
    (hstep : Step P k w e w') (hwait : (w.node i).session.state = .waitAck)
    (hest : (w'.node i).session.state = .established) :
    let ss := (w'.node i).session.ss
    ∃ clk rnd d l₁ l₂, e = .node i (.receive clk rnd d) ∧
      w.root.obs = l₁ ++ .ack (a.nodeId i) d ss :: l₂ ∧
      .decapsulate (a.nodeId i) (w.node i).hs.nodeCt true ss ∈ l₂ := by
  obtain ⟨cur, htraces⟩ := h.traces hcorrect
  obtain ⟨hss, hwas⟩ := established_step h.reaches.sound htraces hstep hest
  rw [hss]
  rcases hwas with hwas | ⟨-, hack⟩
  · cases hwait.symm.trans hwas
  · exact hack

/-- The node's queue has wrapped around, so the root asks twice for fragments that are on their
way before it acknowledges the second ciphertext. -/
def ackedAnew : List (Move Unit) := anew ++ [.rootSends, .rootSends, .rootSends]

/-- The second acknowledgement is under way, and nothing of the first handshake. -/
def reacked : World Unit := follow .unordered ackedAnew acked

/-- The node has heard it. -/
def reconfirmed : World Unit := reacked.play .demo .unordered (.nodeHears () 38 stopped 9)

set_option maxRecDepth 100000 in
theorem rehearsal_again :
    allows (heeds () (AtRest oneNode ())) (play .demo .unordered) acked ackedAnew = true ∧
      (reacked.node ()).session.state = .waitAck ∧
      (reconfirmed.node ()).session.state = .established ∧
      (reconfirmed.node ()).session.ss.get 0 = 9 ∧
      ((encapsulated (reacked.node ()).obs).map fun ct => ct.get 0) = [9, 5] := by
  decide +kernel

/-- The second acknowledgement establishes the node with the secret of its second ciphertext. -/
theorem ack_soundness_again :
    ∃ past, RestingReaches .demo .unordered oneNode () past reacked ∧ acked ∈ past ∧
      ((encapsulated (reacked.node ()).obs).map fun ct => ct.get 0) = [9, 5] ∧
      let ss := (reconfirmed.node ()).session.ss
      ss.get 0 = 9 ∧ ∃ d l₁ l₂, reacked.root.obs = l₁ ++ .ack (oneNode.nodeId ()) d ss :: l₂ ∧
        .decapsulate (oneNode.nodeId ()) (reacked.node ()).hs.nodeCt true ss ∈ l₂ := by
  obtain ⟨⟨hrest, -⟩, -⟩ := rehearsal
  obtain ⟨hrest', hwait, hest, hss, hmade⟩ := rehearsal_again
  have hmove : ∀ (w : World Unit) m, heeds () (AtRest oneNode ()) w m = true →
      ∃ e, Step .demo .unordered w e (w.play .demo .unordered m) ∧
        (CompletesKey .demo () w e → AtRest oneNode () w) := fun w m h =>
    ⟨_, play_step _ _ w m, of_heeds h⟩
  obtain ⟨_, hagreed⟩ : ∃ past, RestingReaches .demo .unordered oneNode () past agreed :=
    run_agreed initial_booted hmove rfl rfl hrest
  obtain ⟨e, hstep⟩ := hmove agreed .rootSends rfl
  have hacked : RestingReaches .demo .unordered oneNode () _ acked := Run.next hagreed hstep
  obtain ⟨past, hreacked, hsuffix⟩ :
      ∃ past, RestingReaches .demo .unordered oneNode () past reacked ∧ acked :: _ <:+ past :=
    Run.allows hacked hmove ackedAnew (by simp [ackedAnew]) hrest'
  have hlast : Step .demo .unordered reacked _ reconfirmed := play_step _ _ _ _
  obtain ⟨_, _, d, l₁, l₂, -, hack⟩ :=
    ack_soundness Platform.demo_correct hreacked hlast hwait hest
  exact ⟨past, hreacked, hsuffix.subset (List.mem_cons_self ..), hmade, hss, d, l₁, l₂, hack⟩

theorem reaches_waiting : ∃ past, Reaches .demo .unordered oneNode past waiting := by
  obtain ⟨_, hacked⟩ := reaches_acked
  obtain ⟨_, hrebooted, -⟩ :=
    Reaches.follow hacked (.lose 0 37 :: .nodeResets () :: request) (by simp)
  have hreopened := Run.next hrebooted (play_step _ _ _ (rootHears 0))
  obtain ⟨past, hwaiting, -⟩ := Reaches.follow hreopened (keyHeard 9) (by simp [keyHeard])
  exact ⟨past, hwaiting⟩

/-- Without the condition a node is established by the acknowledgement of an earlier ciphertext. -/
theorem ack_of_earlier_ciphertext : ¬ ∀ past w e w', Reaches .demo .unordered oneNode past w →
    Step .demo .unordered w e w' → (w.node ()).session.state = .waitAck →
    (w'.node ()).session.state = .established →
    let ss := (w'.node ()).session.ss
    ∃ clk rnd d l₁ l₂, e = .node () (.receive clk rnd d) ∧
      w.root.obs = l₁ ++ .ack (oneNode.nodeId ()) d ss :: l₂ ∧
      .decapsulate (oneNode.nodeId ()) (w.node ()).hs.nodeCt true ss ∈ l₂ := by
  intro hclaim
  obtain ⟨-, -, -, -, ⟨hwait, hest, hother⟩, -⟩ := rehearsal
  obtain ⟨past, hwaiting⟩ := reaches_waiting
  have hlast : Step .demo .unordered waiting _ misled := play_step _ _ _ _
  obtain ⟨_, _, _, l₁, l₂, -, hobs, hmem⟩ := hclaim past waiting _ misled hwaiting hlast hwait hest
  have hopened : .decapsulate (oneNode.nodeId ()) (waiting.node ()).hs.nodeCt true
      (misled.node ()).session.ss ∈ waiting.root.obs := by
    rw [hobs]
    exact List.mem_append_right l₁ (List.mem_cons_of_mem _ hmem)
  exact hother (secret_mem hopened)

/-- Steps in which the root does not hear node `i` ask for the key. -/
abbrev UnaskedStep (P : Platform) (k : Network) (a : Addresses ι) (i : ι) (w : World ι)
    (e : Event ι) (w' : World ι) : Prop :=
  Step P k w e w' ∧ ¬ Asks a i e

theorem lasts_step (hs : Sound a w) (hl : Listed a i D w) (hstep : UnaskedStep P k a i w e w') :
    Root.Inherits (a.nodeId i) w'.root w.root := by
  obtain ⟨hstep, hno⟩ := hstep
  cases hstep with
  | @root e rest hdel =>
    obtain ⟨rnd, ha⟩ := Root.handle_acts (P := P) hs.root.rooted e
    refine Root.lasts_acts hs.root hl.root (fun d he =>
      hl.toRoot d (he ▸ hdel : k.Delivers w.toRoot (some d) rest).mem) ?_ ha
    intro d he hkind
    cases e with
    | receive clk rnd sender d' =>
      obtain rfl := Option.some.inj he
      exact hno ⟨clk, rnd, sender, d', rfl, hkind⟩
    | retry _ | transmit => cases he
  | node _ | lose _ _ => exact fun j hj => ⟨hj, rfl, rfl⟩

/-- Once the root has a session established with node `i`, nothing but a request for the key that
reaches the root ends it or changes its keys. -/
theorem session_lasts {w₀ : World ι} {past₀ : List (World ι)} (h₀ : Reaches P k a past₀ w₀)
    (h : Run (· = w₀) (UnaskedStep P k a i) past w) {j : Fin sessionMaxNodes}
    (hest : w₀.root.Established (a.nodeId i) j) :
    w.root.Established (a.nodeId i) j ∧ (w.root.sessions j).ss = (w₀.root.sessions j).ss ∧
      (w.root.sessions j).aesKey = (w₀.root.sessions j).aesKey := by
  have hall : (∃ past, Reaches P k a past w) ∧ Root.Inherits (a.nodeId i) w.root w₀.root := by
    apply h.invariant (I := fun _ w =>
      (∃ past, Reaches P k a past w) ∧ Root.Inherits (a.nodeId i) w.root w₀.root)
    · rintro w rfl
      exact ⟨⟨past₀, h₀⟩, fun j hj => ⟨hj, rfl, rfl⟩⟩
    · rintro past w e w' - ⟨⟨past', hreaches⟩, hlasts⟩ hstep
      refine ⟨⟨_, hreaches.next hstep.1⟩, ?_⟩
      intro j hj
      obtain ⟨hj', hss, hkey⟩ := hlasts j hj
      obtain ⟨hj'', hss', hkey'⟩ :=
        lasts_step (Reaches.sound hreaches) (Reaches.listed_all hreaches i) hstep j hj'
      exact ⟨hj'', hss.trans hss', hkey.trans hkey'⟩
  obtain ⟨hj, hss, hkey⟩ := hall.2 j hest
  exact ⟨hj, hss.symm, hkey.symm⟩

/-- A copy of a fragment of the ciphertext does it no harm. -/
theorem session_lasts_confirmed :
    let w := confirmed.play .demo .unordered (rootHears 1)
    w.root.Established (oneNode.nodeId ()) 0 ∧
      (w.root.sessions 0).ss = (confirmed.root.sessions 0).ss := by
  obtain ⟨-, ⟨-, hest, -, -, hquiet⟩, -⟩ := rehearsal
  obtain ⟨_, hconfirmed⟩ := reaches_confirmed
  have hrun : Run (· = confirmed) (UnaskedStep .demo .unordered oneNode ()) [confirmed]
      (confirmed.play .demo .unordered (rootHears 1)) :=
    .next (.start rfl) ⟨play_step _ _ _ _, not_asks hquiet⟩
  obtain ⟨hlasts, hss, -⟩ := session_lasts hconfirmed hrun hest
  exact ⟨hlasts, hss⟩

/-- Steps in which the node neither starts over nor reboots. -/
abbrev SteadyStep (w : World Unit) (e : Event Unit) (w' : World Unit) : Prop :=
  Step .demo .unordered w e w' ∧ e ≠ .node () .reset ∧ e ≠ .node () .reboot

/-- A copy of the request for the key ends the session at the root, though nothing has started
over. -/
theorem session_torn : ¬ ∀ past₀ past (w₀ w : World Unit) j,
    Run (Initial .demo oneNode) SteadyStep past₀ w₀ → Run (· = w₀) SteadyStep past w →
    (w₀.node ()).session.state = .established → w₀.root.Established (oneNode.nodeId ()) j →
    (w₀.node ()).session.ss = (w₀.root.sessions j).ss → (w.node ()).session.state = .established →
    w.root.Established (oneNode.nodeId ()) j := by
  intro hclaim
  obtain ⟨-, ⟨hnode, hroot, hss, -⟩, -, ⟨hnode', htorn⟩, -⟩ := rehearsal
  have hmove : ∀ (w : World Unit) (m : Move Unit), m.keepsOn = true →
      ∃ e, SteadyStep w e (w.play .demo .unordered m) := fun w m h =>
    ⟨_, play_step _ _ w m, keepsOn_event h⟩
  obtain ⟨_, hagreed⟩ : ∃ past, Run (Initial .demo oneNode) SteadyStep past agreed :=
    run_agreed initial_booted hmove rfl (allows_all _ _ rfl) (allows_all _ _ (by decide +kernel))
  obtain ⟨_, hacked⟩ := hmove agreed .rootSends rfl
  obtain ⟨_, hconfirmed⟩ := hmove acked (.nodeHears () 36 stopped 5) rfl
  obtain ⟨_, hlast⟩ := hmove confirmed (rootHears 0) rfl
  have hrun := (hagreed.next hacked).next hconfirmed
  exact htorn 0 (hclaim _ _ confirmed torn 0 hrun (.next (.start rfl) hlast) hnode hroot hss
    hnode')

end World

end PqcContiki
