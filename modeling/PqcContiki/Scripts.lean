import PqcContiki.KeyDistribution

/-!
Runs that follow a script, and the moves of one handshake on the demonstration platform, from which
the concrete runs of later modules are made.
-/
namespace PqcContiki

open TxQueue Relation Runs

/-- The packet a device hears next: the one with number `n`, or the first if they come in order. -/
def Network.pick (k : Network) (ps : List Bytes) (n : ℕ) : Option (Bytes × List Bytes) :=
  match k, ps with
  | .unordered, ps => ps[n]?.map fun d => (d, ps)
  | .inOrder, d :: rest => some (d, rest)
  | .inOrder, [] => none

/-- One step of a script. A device hears the packet with the number `n`, or something happens to
it that needs no packet, or all but the first few packets are lost. -/
inductive Move (ι : Type*) where
  | rootHears (n : ℕ) (clk : Clock) (rnd : Entropy) (sender : IpAddr)
  | rootSends
  | nodeHears (i : ι) (n : ℕ) (clk : Clock) (rnd : Entropy)
  | nodeAsks (i : ι) (clk : Clock)
  | nodeMeasures (i : ι) (measurement : TempPayload)
  | nodeSends (i : ι)
  | nodeResets (i : ι)
  | lose (toRoot toNode : ℕ)

/-- No node starts over. -/
def Move.keepsOn {ι : Type*} : Move ι → Bool
  | .nodeResets _ => false
  | .rootHears .. | .rootSends | .nodeHears .. | .nodeAsks .. | .nodeMeasures .. | .nodeSends _
  | .lose .. => true

namespace World

variable {ι : Type*} [DecidableEq ι]

/-- The event behind a step of a script. A step that is impossible loses nothing. -/
def event (k : Network) (w : World ι) : Move ι → Event ι
  | .rootHears n clk rnd sender =>
    match k.pick w.toRoot n with
    | some (d, _) => .root (.receive clk rnd sender d)
    | none => .lose
  | .rootSends => .root .transmit
  | .nodeHears i n clk rnd =>
    match k.pick w.toNode n with
    | some (d, _) => .node i (.receive clk rnd d)
    | none => .lose
  | .nodeAsks i clk => .node i (.routing clk ⟨true, some 5, true⟩)
  | .nodeMeasures i measurement => .node i (.temp measurement)
  | .nodeSends i => .node i .transmit
  | .nodeResets i => .node i .reset
  | .lose _ _ => .lose

def afterRoot (P : Platform) (w : World ι) (e : Root.Event) (rest : List Bytes) : World ι :=
  { w with root := w.root.handle P e, toRoot := rest, toNode := w.toNode ++ w.root.sent e }

def afterNode (P : Platform) (w : World ι) (i : ι) (e : Node.Event) (rest : List Bytes) : World ι :=
  { w with
    node := Function.update w.node i ((w.node i).handle P e)
    toRoot := w.toRoot ++ (w.node i).sent e
    toNode := rest }

/-- The world after a step of a script. -/
def play (P : Platform) (k : Network) (w : World ι) : Move ι → World ι
  | .rootHears n clk rnd sender =>
    match k.pick w.toRoot n with
    | some (d, rest) => w.afterRoot P (.receive clk rnd sender d) rest
    | none => w
  | .rootSends => w.afterRoot P .transmit w.toRoot
  | .nodeHears i n clk rnd =>
    match k.pick w.toNode n with
    | some (d, rest) => w.afterNode P i (.receive clk rnd d) rest
    | none => w
  | .nodeAsks i clk => w.afterNode P i (.routing clk ⟨true, some 5, true⟩) w.toNode
  | .nodeMeasures i measurement => w.afterNode P i (.temp measurement) w.toNode
  | .nodeSends i => w.afterNode P i .transmit w.toNode
  | .nodeResets i => w.afterNode P i .reset w.toNode
  | .lose toRoot toNode =>
    { w with toRoot := w.toRoot.take toRoot, toNode := w.toNode.take toNode }

theorem pick_delivers {k : Network} {ps rest : List Bytes} {n : ℕ} {d : Bytes}
    (h : k.pick ps n = some (d, rest)) : k.Delivers ps (some d) rest := by
  cases k with
  | unordered =>
    simp only [Network.pick, Option.map_eq_some_iff, Prod.mk.injEq] at h
    obtain ⟨d', hd, rfl, rfl⟩ := h
    exact ⟨List.mem_of_getElem? hd, rfl⟩
  | inOrder =>
    cases ps with
    | nil => cases h
    | cons d' ps =>
      obtain ⟨rfl, rfl⟩ := Prod.mk.inj (Option.some.inj h)
      rfl

theorem play_step (P : Platform) (k : Network) (w : World ι) (m : Move ι) :
    Step P k w (w.event k m) (w.play P k m) := by
  have hstay : Step P k w .lose w := .lose (List.Sublist.refl _) (List.Sublist.refl _)
  cases m with
  | rootHears n clk rnd sender =>
    simp only [event, play]
    cases hpick : k.pick w.toRoot n with
    | none => exact hstay
    | some x => exact .root (e := .receive clk rnd sender x.1) (pick_delivers hpick)
  | nodeHears i n clk rnd =>
    simp only [event, play]
    cases hpick : k.pick w.toNode n with
    | none => exact hstay
    | some x => exact .node (e := .receive clk rnd x.1) (pick_delivers hpick)
  | rootSends => exact .root (e := .transmit) rfl
  | nodeAsks i clk => exact .node (e := .routing clk ⟨true, some 5, true⟩) rfl
  | nodeMeasures i measurement => exact .node (e := .temp measurement) rfl
  | nodeSends i => exact .node (e := .transmit) rfl
  | nodeResets i => exact .node (e := .reset) rfl
  | lose toRoot toNode => exact .lose (List.take_sublist ..) (List.take_sublist ..)

section Decidable

variable {φ : Bytes → Prop} [DecidablePred φ]

instance (q : TxQueue) : Decidable (q.Holds φ) :=
  inferInstanceAs (Decidable (∀ i, (q.txQueue i).active = true → φ (q.txQueue i).data))

instance (msgType : UInt8) (nodeId : UInt16) (p : Bytes) : Decidable (IsKind msgType nodeId p) :=
  inferInstanceAs (Decidable (_ ∧ _))

instance (id : UInt16) (msgId : UInt8) (p : Bytes) : Decidable (Acknowledges id msgId p) :=
  inferInstanceAs (Decidable (_ ∧ _))

instance (id : UInt16) (r : Root) (j : Fin sessionMaxNodes) : Decidable (r.Established id j) :=
  decidable_of_iff
    ((r.sessions j).used = true ∧ (r.sessions j).nodeId = id ∧ (r.sessions j).state = .established)
    ⟨fun h => ⟨h.1, h.2.1, h.2.2⟩, fun h => ⟨h.used, h.nodeId, h.state⟩⟩

instance (a : Addresses ι) (i : ι) (w : World ι) : Decidable (Drained a i w) :=
  decidable_of_iff
    ((w.node i).session.state ≠ .waitAck ∧
      (w.node i).tx.Holds (fun p => ¬ IsKind pqcMsgCt (a.nodeId i) p) ∧
      (∀ p ∈ w.toRoot, ¬ IsKind pqcMsgCt (a.nodeId i) p) ∧
      ∀ s, (w.root.hs.rxSlots s).ctx.active = true →
        (w.root.hs.rxSlots s).ctx.msgType = pqcMsgCt →
        (w.root.hs.rxSlots s).ctx.nodeId ≠ a.nodeId i)
    ⟨fun h => ⟨h.1, h.2.1, h.2.2.1, h.2.2.2⟩, fun h => ⟨h.node, h.tx, h.toRoot, h.root⟩⟩

instance (a : Addresses ι) (i : ι) (w : World ι) : Decidable (AtRest a i w) :=
  decidable_of_iff
    (Drained a i w ∧ (∀ j, ¬ w.root.Established (a.nodeId i) j) ∧
      (w.root.tx.Holds fun p => ¬ Acknowledges (a.nodeId i) (w.node i).session.nextMsgId p) ∧
      ∀ p ∈ w.toNode, ¬ Acknowledges (a.nodeId i) (w.node i).session.nextMsgId p)
    ⟨fun h => ⟨h.1, h.2.1, h.2.2.1, h.2.2.2⟩, fun h => ⟨h.drained, h.unsettled, h.tx, h.toNode⟩⟩

end Decidable

section Conditions

variable {P : Platform} {k : Network} {a : Addresses ι} {w : World ι} {i : ι} {m : Move ι}
  {φ : World ι → Prop} [DecidablePred φ]

/-- The root does not hear a request for the key. -/
def unasked (k : Network) (w : World ι) : Move ι → Bool
  | .rootHears n _ _ _ => (k.pick w.toRoot n).all fun x => byteAt x.1 pqcHdrMsgType != pqcMsgGetpk
  | .rootSends | .nodeHears .. | .nodeAsks .. | .nodeMeasures .. | .nodeSends _ | .nodeResets _
  | .lose .. => true

omit [DecidableEq ι] in
theorem not_asks (h : unasked k w m = true) : ¬ Asks a i (w.event k m) := by
  rintro ⟨clk, rnd, sender, d, he, htype, -⟩
  cases m with
  | rootHears n clk' rnd' sender' =>
    simp only [event, unasked] at he h
    cases hpick : k.pick w.toRoot n with
    | none => simp [hpick] at he
    | some x =>
      rw [hpick] at he h
      injection he with he
      injection he with _ _ _ hd
      rw [← hd] at htype
      simp [htype] at h
  | nodeHears j n clk' rnd' =>
    simp only [event] at he
    split at he <;> cases he
  | rootSends | nodeAsks _ _ | nodeMeasures _ _ | nodeSends _ | nodeResets _ | lose _ _ => cases he

/-- If the root hears a request for the key, it has no agreement with node `i` of whose ciphertext
something is left. -/
def asksDrained (a : Addresses ι) (i : ι) (k : Network) (w : World ι) (m : Move ι) : Bool :=
  unasked k w m || decide ((∃ j, w.root.Established (a.nodeId i) j) → Drained a i w)

omit [DecidableEq ι] in
theorem of_asksDrained (h : asksDrained a i k w m = true) (hasks : Asks a i (w.event k m))
    (hest : ∃ j, w.root.Established (a.nodeId i) j) : Drained a i w := by
  rw [asksDrained, Bool.or_eq_true, decide_eq_true_eq] at h
  rcases h with hquiet | hdrained
  · exact absurd hasks (not_asks hquiet)
  · exact hdrained hest

/-- When node `i` waits for the key and hears something, `φ` holds. -/
def heeds (i : ι) (φ : World ι → Prop) [DecidablePred φ] (w : World ι) : Move ι → Bool
  | .nodeHears j _ _ _ => decide (j = i → (w.node i).session.state = .waitPk → φ w)
  | .rootHears .. | .rootSends | .nodeAsks .. | .nodeMeasures .. | .nodeSends _ | .nodeResets _
  | .lose .. => true

theorem of_heeds (h : heeds i φ w m = true) (hkey : CompletesKey P i w (w.event k m)) : φ w := by
  obtain ⟨clk, rnd, d, ctx, he, hwait, -, -⟩ := hkey
  cases m with
  | nodeHears j n clk' rnd' =>
    simp only [event, heeds, decide_eq_true_eq] at he h
    split at he
    · injection he with hj _
      exact h hj hwait
    · cases he
  | rootHears n clk' rnd' sender =>
    simp only [event] at he
    split at he <;> cases he
  | rootSends | nodeAsks _ _ | nodeMeasures _ _ | nodeSends _ | nodeResets _ | lose _ _ => cases he

omit [DecidableEq ι] in
theorem keepsOn_event (h : m.keepsOn = true) :
    w.event k m ≠ .node i .reset ∧ w.event k m ≠ .node i .reboot := by
  cases m with
  | nodeResets j => cases h
  | rootHears n clk rnd sender | nodeHears j n clk rnd =>
    simp only [event]
    split <;> simp
  | rootSends | nodeAsks _ _ | nodeMeasures _ _ | nodeSends _ | lose _ _ => simp [event]

end Conditions

def stopped : Clock := fun _ => 0

def oneNode : Addresses Unit where
  nodeId _ := 1
  injective _ _ _ := rfl
  valid _ := by decide

def booted : World Unit := ⟨Root.boot .demo 0, fun _ => Node.boot 1, [], []⟩

theorem initial_booted : Initial .demo oneNode booted := ⟨0, rfl, rfl⟩

def request : List (Move Unit) := [.nodeAsks () stopped, .nodeSends ()]

def rootHears (n : ℕ) : Move Unit := .rootHears n stopped 0 7

def keySent : List (Move Unit) := List.replicate 36 .rootSends

def keyHeard (rnd : Entropy) : List (Move Unit) :=
  (List.range 36).map fun n => .nodeHears () n stopped rnd

def ctSent : List (Move Unit) := List.replicate 71 (.nodeSends ())

/-- The packet with number 0 is the request for the key. -/
def ctHeard : List (Move Unit) := (List.range 71).map fun n => rootHears (n + 1)

/-- All packets are lost, the node starts over, and the root hears its next ciphertext. -/
def anew : List (Move Unit) :=
  .lose 0 0 :: .nodeResets () :: request ++ rootHears 0 :: keySent ++ keyHeard 9 ++ ctSent ++
    ctHeard

abbrev follow (k : Network) (ms : List (Move Unit)) (w : World Unit) : World Unit :=
  ms.foldl (play .demo k) w

theorem Reaches.follow {k : Network} {past : List (World Unit)} {w : World Unit}
    (h : Reaches .demo k oneNode past w) (ms : List (Move Unit)) (hms : ms ≠ []) :
    ∃ past', Reaches .demo k oneNode past' (follow k ms w) ∧ w :: past <:+ past' :=
  h.script (fun w m => ⟨_, play_step .demo k w m⟩) ms hms

/-- The node has asked for the key. -/
def requested : World Unit := follow .unordered request booted

/-- The key is under way. -/
def keyOut : World Unit := follow .unordered (rootHears 0 :: keySent) requested

/-- The root has opened the node's ciphertext. -/
def agreed : World Unit := follow .unordered (keyHeard 5 ++ ctSent ++ ctHeard) keyOut

/-- The acknowledgement is under way. -/
def acked : World Unit := agreed.play .demo .unordered .rootSends

/-- The node has heard it. -/
def confirmed : World Unit := acked.play .demo .unordered (.nodeHears () 36 stopped 5)

section Agreed

variable {init : World Unit → Prop} {step : World Unit → Event Unit → World Unit → Prop}
  {p : World Unit → Move Unit → Bool}

/-- The root comes to open the ciphertext in every kind of run that allows it to. -/
theorem run_agreed (hinit : init booted)
    (hmove : ∀ w m, p w m = true → ∃ e, step w e (w.play .demo .unordered m))
    (hrequest : allows p (play .demo .unordered) booted request = true)
    (hkey : allows p (play .demo .unordered) requested (rootHears 0 :: keySent) = true)
    (hct : allows p (play .demo .unordered) keyOut (keyHeard 5 ++ ctSent ++ ctHeard) = true) :
    ∃ past, Run init step past agreed := by
  have hbooted : Run init step [] booted := .start hinit
  obtain ⟨_, hrequested, -⟩ := hbooted.allows hmove _ (by simp [request]) hrequest
  obtain ⟨_, hkeyOut, -⟩ := Run.allows hrequested hmove _ (by simp) hkey
  obtain ⟨past, hagreed, -⟩ := Run.allows hkeyOut hmove _ (by simp [ctSent]) hct
  exact ⟨past, hagreed⟩

end Agreed

theorem reaches_agreed : ∃ past, Reaches .demo .unordered oneNode past agreed :=
  run_agreed (p := fun _ _ => true) initial_booted (fun w m _ => ⟨_, play_step _ _ w m⟩)
    (allows_all _ _ (by decide)) (allows_all _ _ (by simp)) (allows_all _ _ (by simp))

theorem reaches_acked : ∃ past, Reaches .demo .unordered oneNode past acked := by
  obtain ⟨_, hagreed⟩ := reaches_agreed
  exact ⟨_, hagreed.next (play_step _ _ _ .rootSends)⟩

theorem reaches_confirmed : ∃ past, Reaches .demo .unordered oneNode past confirmed := by
  obtain ⟨_, hacked⟩ := reaches_acked
  exact ⟨_, hacked.next (play_step _ _ _ (.nodeHears () 36 stopped 5))⟩

/-- A copy of the request reaches the root. -/
def asked : World Unit := agreed.play .demo .unordered (rootHears 0)

/-- And then copies of the old ciphertext. -/
def replayed : World Unit := follow .unordered ctHeard asked

/-- A copy of the request reaches the root of an established node. -/
def torn : World Unit := confirmed.play .demo .unordered (rootHears 0)

/-- The node starts over before it hears the acknowledgement, and the old ciphertext is lost. -/
def rebooted : World Unit := follow .unordered (.lose 0 37 :: .nodeResets () :: request) acked

/-- The root starts over too. -/
def reopened : World Unit := rebooted.play .demo .unordered (rootHears 0)

/-- The node has made a second ciphertext. -/
def waiting : World Unit := follow .unordered (keyHeard 9) reopened

/-- The acknowledgement of the first one establishes the node. -/
def misled : World Unit := waiting.play .demo .unordered (.nodeHears () 36 stopped 9)

/-- The second ciphertext reaches the root instead. -/
def settled : World Unit := follow .unordered (ctSent ++ ctHeard) waiting

set_option maxRecDepth 100000 in
/-- How these runs end. They are evaluated together, since they have most of their steps in
common. -/
theorem rehearsal :
    (allows (heeds () (AtRest oneNode ())) (play .demo .unordered) keyOut
        (keyHeard 5 ++ ctSent ++ ctHeard) = true ∧
      agreed.root.Established (oneNode.nodeId ()) 0 ∧
      (acked.node ()).session.state = .waitAck) ∧
    ((confirmed.node ()).session.state = .established ∧
      confirmed.root.Established (oneNode.nodeId ()) 0 ∧
      (confirmed.node ()).session.ss = (confirmed.root.sessions 0).ss ∧
      (encapsulated (confirmed.node ()).obs).length ≤ 1 ∧
      unasked .unordered confirmed (rootHears 1) = true) ∧
    ((∀ j, ¬ asked.root.Established (oneNode.nodeId ()) j) ∧
      replayed.root.Established (oneNode.nodeId ()) 0 ∧
      (replayed.root.sessions 0).ss = (agreed.root.sessions 0).ss) ∧
    ((torn.node ()).session.state = .established ∧
      ∀ j, ¬ torn.root.Established (oneNode.nodeId ()) j) ∧
    ((waiting.node ()).session.state = .waitAck ∧
      (misled.node ()).session.state = .established ∧
      (misled.node ()).session.ss ∉
        (successes (oneNode.nodeId ()) waiting.root.obs).map Prod.snd) ∧
    (allows (asksDrained oneNode () .unordered) (play .demo .unordered) keyOut
        (keyHeard 5 ++ ctSent ++ ctHeard) = true ∧
      asksDrained oneNode () .unordered rebooted (rootHears 0) = true ∧
      (∀ j, ¬ reopened.root.Established (oneNode.nodeId ()) j) ∧
      allows (asksDrained oneNode () .unordered) (play .demo .unordered) waiting
        (ctSent ++ ctHeard) = true) ∧
    settled.root.Established (oneNode.nodeId ()) 0 ∧
      ((encapsulated (settled.node ()).obs).Pairwise fun ct ct' => ct.get 0 ≠ ct'.get 0) ∧
      (successes (oneNode.nodeId ()) settled.root.obs).Pairwise
        fun x y => x.2.get 0 ≠ y.2.get 0 := by
  -- in two parts, so that neither evaluation grows too large
  rw [← and_assoc, ← and_assoc, ← and_assoc]
  constructor
  · decide +kernel
  · decide +kernel

end World

end PqcContiki
