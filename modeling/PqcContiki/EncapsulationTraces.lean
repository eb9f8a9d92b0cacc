import PqcContiki.Acknowledgements
import PqcContiki.Scripts

/-!
The traces of one encapsulation: as long as only the ciphertext of the node's latest one is out, the
root can come to no other secret, and confirms no other ciphertext.
-/
namespace PqcContiki

open TxQueue Relation Runs

variable {P : Platform} {rnd : Entropy} {data : Option Bytes} {id : UInt16} {D : Directory}
  {cur : Option Encapsulation} {x : Encapsulation} {obs obs' : List Observation} {p : Bytes}

/-- The ciphertext of the encapsulation, if there is one, and no other. -/
def onlyCt (cur : Option Encapsulation) : Directory := fun _ ct => ∃ x, cur = some x ∧ ct = x.ct

theorem Pieced.only {ct : Ciphertext} (hp : Pieced (onlyCt cur) ct) :
    ∃ x, cur = some x ∧ ct = x.ct := by
  have hone : ∀ msgId ct ct', onlyCt cur msgId ct → onlyCt cur msgId ct' → ct = ct' := by
    rintro - ct ct' ⟨x, hx, rfl⟩ ⟨x', hx', rfl⟩
    rw [Option.some.inj (hx.symm.trans hx')]
  obtain ⟨_, hct⟩ := hp.eq hone
  exact hct

/-- If it is the encapsulation that is confirmed, the root had opened its ciphertext when it logged
the acknowledgement, with the secret of the session it sent it for. -/
def Confirms (id : UInt16) (cur : Option Encapsulation) (obs : List Observation)
    (confirmedMsgId : UInt8) (p : Bytes) : Prop :=
  ∃ x, cur = some x ∧ (confirmedMsgId = x.msgId →
    ∃ l₁ l₂, obs = l₁ ++ .ack id p x.ss :: l₂ ∧ .decapsulate id x.ct true x.ss ∈ l₂)

theorem Confirms.mono {confirmedMsgId : UInt8} (h : Confirms id cur obs confirmedMsgId p)
    (hlog : obs <:+ obs') : Confirms id cur obs' confirmedMsgId p := by
  obtain ⟨x, hcur, hack⟩ := h
  refine ⟨x, hcur, ?_⟩
  intro hid
  obtain ⟨l₁, l₂, rfl, hmem⟩ := hack hid
  obtain ⟨l, rfl⟩ := hlog
  exact ⟨l ++ l₁, l₂, (List.append_assoc ..).symm, hmem⟩

namespace Root

variable {r r' : Root}

/-- What the root has agreed on with node `id`, and acknowledged to it, is the encapsulation. -/
structure Follows (P : Platform) (id : UInt16) (cur : Option Encapsulation) (r : Root) : Prop where
  keyed : r.hs.rootHasKeypair = true
  opens : ∀ x, cur = some x → P.cryptoWorkerDecapsulate r.hs.rootSk x.ct = (true, x.ss)
  agreed : ∀ j, Established id r j → ∃ x, cur = some x ∧
    .decapsulate id x.ct true x.ss ∈ r.obs ∧ (r.sessions j).ss = x.ss ∧
    (r.sessions j).aesKey = P.cryptoWorkerDeriveAesKey x.ss
  tx : r.tx.Holds (Vouched id (Confirms id cur r.obs))

theorem follows_act (hs : Sound r) (hg : Gathers id (onlyCt cur) r) (h : Follows P id cur r)
    (hd : ∀ d, data = some d → CarriesCt id (onlyCt cur) d) (ha : Act P rnd data r r') :
    Follows P id cur r' := by
  have hpair := keypair_act h.keyed ha
  have hsk : r'.hs.rootSk = r.hs.rootSk := congrArg (fun x => x.2.2) hpair
  have hlog := log_act ha
  have hagreed : ∀ j, Established id r' j → ∃ x, cur = some x ∧
      .decapsulate id x.ct true x.ss ∈ r'.obs ∧ (r'.sessions j).ss = x.ss ∧
      (r'.sessions j).aesKey = P.cryptoWorkerDeriveAesKey x.ss := by
    intro j hj
    rcases agreement_act hs hg hd ha with
      ⟨-, hkept, -⟩ | ⟨-, -, -, -, -, hpieced, hdec, hobs, -, hss, hkey, hothers⟩
    · obtain ⟨hj₀, hss, hkey⟩ := hkept j hj
      obtain ⟨x, hcur, hmem, hss₀, hkey₀⟩ := h.agreed j hj₀
      exact ⟨x, hcur, hlog.subset hmem, hss.trans hss₀, hkey.trans hkey₀⟩
    · rename_i j₀ ct ss d
      by_cases hjj : j = j₀
      · subst j
        obtain ⟨x, hcur, rfl⟩ := hpieced.only
        obtain rfl : x.ss = ss := congrArg Prod.snd ((h.opens x hcur).symm.trans hdec)
        exact ⟨x, hcur, mem_successes (hobs ▸ List.mem_cons_self ..), hss, hkey⟩
      · have hsame := hothers j hjj
        have hj₀ : Established id r j := ⟨hsame ▸ hj.used, hsame ▸ hj.nodeId, hsame ▸ hj.state⟩
        obtain ⟨x, hcur, hmem, hss₀, hkey₀⟩ := h.agreed j hj₀
        exact ⟨x, hcur, hlog.subset hmem, hsame ▸ hss₀, hsame ▸ hkey₀⟩
  refine ⟨(congrArg Prod.fst hpair).trans h.keyed, hsk ▸ h.opens, hagreed, ?_⟩
  refine acks_act (h.tx.mono fun p hp => hp.mono fun _ _ hc => hc.mono hlog) ha ?_
  -- what is acknowledged now is acknowledged for a session established in the new state
  intro j msgId confirmedMsgId obs hj hobs
  obtain ⟨x, hcur, hmem, hss, -⟩ := hagreed j hj
  rw [hss] at hobs
  refine ⟨x, hcur, fun _ => ⟨[], obs, hobs, ?_⟩⟩
  simpa [hobs] using hmem

theorem follows_acts (hs : Sound r) (hg : Gathers id (onlyCt cur) r) (h : Follows P id cur r)
    (hd : ∀ d, data = some d → CarriesCt id (onlyCt cur) d) (ha : Acts P rnd data r r') :
    Follows P id cur r' ∧ r.obs <:+ r'.obs := by
  have hall : Sound r' ∧ Gathers id (onlyCt cur) r' ∧ Follows P id cur r' ∧ r.obs <:+ r'.obs := by
    induction ha with
    | refl => exact ⟨hs, hg, h, List.suffix_rfl⟩
    | tail _ hlast ih =>
      obtain ⟨hs', hg', h', hlog⟩ := ih
      exact ⟨sound_act hs' hlast, gathers_act hg' hlast hd, follows_act hs' hg' h' hd hlast,
        hlog.trans (log_act hlast)⟩
  exact hall.2.2

theorem follows_boot (hok : (P.cryptoKemKeypair rnd).1 = 0) :
    Follows P id none (boot P rnd) := by
  refine ⟨(keyed_boot hok).rootHasKeypair, (fun _ hcur => by cases hcur), ?_, ?_⟩
  · intro j hj
    have hsessions : (boot P rnd).sessions = fun _ => Session.zero := by
      unfold boot
      dsimp only
      split <;> rfl
    have hused := hj.used
    rw [hsessions] at hused
    cases hused
  · rw [boot_tx]
    exact holds_init

end Root

namespace World

variable {ι : Type*} [DecidableEq ι] {k : Network} {a : Addresses ι} {w w' : World ι}
  {past : List (World ι)} {i : ι} {e : Event ι}

/-- All that is out between node `i` and the root comes from the node's encapsulation `cur`. -/
structure Traces (P : Platform) (a : Addresses ι) (i : ι) (cur : Option Encapsulation)
    (w : World ι) : Prop where
  made : ∀ x, cur = some x →
    ∃ pk, .encapsulate (a.nodeId i) pk true x.ct x.ss ∈ (w.node i).obs
  node : (w.node i).HoldsTo P cur
  slots : Assigned (fun _ => AckFree (a.nodeId i)) (w.node i).hs.rxSlots
  listed : Listed a i (onlyCt cur) w
  root : w.root.Follows P (a.nodeId i) cur
  toNode : ∀ p ∈ w.toNode, Vouched (a.nodeId i) (Confirms (a.nodeId i) cur w.root.obs) p

omit [DecidableEq ι] in
theorem traces_initial (h : Initial P a w) (i : ι) : Traces P a i none w := by
  have hl := listed_initial h i (onlyCt none)
  obtain ⟨rnd, hok, rfl⟩ := h
  refine ⟨(fun _ hcur => by cases hcur), ?_, assigned_zero _, hl, Root.follows_boot hok, by simp⟩
  have hidle : (Node.boot (a.nodeId i)).session.state = .idle := rfl
  exact Node.holdsTo_of_state hidle (by decide)

/-- Nothing is in the way of the encapsulation `x` of node `i`. -/
structure Ready (a : Addresses ι) (i : ι) (x : Encapsulation) (w : World ι) : Prop where
  listed : Listed a i (onlyCt (some x)) w
  unsettled : ∀ j, ¬ w.root.Established (a.nodeId i) j
  tx : w.root.tx.Holds (Vouched (a.nodeId i) (Confirms (a.nodeId i) (some x) w.root.obs))
  toNode : ∀ p ∈ w.toNode, Vouched (a.nodeId i) (Confirms (a.nodeId i) (some x) w.root.obs) p

omit [DecidableEq ι] in
theorem Traces.ready_first (h : Traces P a i none w) (x : Encapsulation) : Ready a i x w := by
  have hnone : ∀ c p, Confirms (a.nodeId i) none w.root.obs c p →
      Confirms (a.nodeId i) (some x) w.root.obs c p := by
    rintro c p ⟨_, hcur, -⟩
    cases hcur
  refine ⟨?_, ?_, ?_, ?_⟩
  · exact h.listed.mono fun _ _ ⟨_, hcur, _⟩ => by cases hcur
  · intro j hj
    obtain ⟨_, hcur, -⟩ := h.root.agreed j hj
    cases hcur
  · exact h.root.tx.mono fun p hp => hp.mono hnone
  · exact fun p hp => (h.toNode p hp).mono hnone

theorem traces_root {e : Root.Event} {rest : List Bytes} (hs : Sound a w) (h : Traces P a i cur w)
    (hdel : k.Delivers w.toRoot e.heard rest) :
    Traces P a i cur { w with
      root := w.root.handle P e, toRoot := rest, toNode := w.toNode ++ w.root.sent e } := by
  have hheard : ∀ d, e.heard = some d → CarriesCt (a.nodeId i) (onlyCt cur) d := fun d he =>
    h.listed.toRoot d (he ▸ hdel : k.Delivers w.toRoot (some d) rest).mem
  obtain ⟨rnd, ha⟩ := Root.handle_acts (P := P) hs.root.rooted e
  obtain ⟨hfollows, hlog⟩ := Root.follows_acts hs.root h.listed.root h.root hheard ha
  have hmono : ∀ c p, Confirms (a.nodeId i) cur w.root.obs c p →
      Confirms (a.nodeId i) cur (w.root.handle P e).obs c p := fun _ _ hc => hc.mono hlog
  refine ⟨h.made, h.node, h.slots, ?_, hfollows, ?_⟩
  · refine (listed_step hs h.listed (.root hdel) ?_).1
    rintro ct ⟨_, _, _, he, _⟩
    cases he
  · intro p hp
    rcases List.mem_append.mp hp with hp | hp
    · exact (h.toNode p hp).mono hmono
    · exact (Root.sent_holds h.root.tx e p hp).mono hmono

/-- A step of a node, if node `i` makes nothing new in it. -/
theorem traces_quiet {j : ι} {e : Node.Event} {rest : List Bytes} (hs : Sound a w)
    (h : Traces P a i cur w) (hdel : k.Delivers w.toNode e.heard rest)
    (hno : ∀ ct, ¬ Encapsulates P a i w (.node j e) ct)
    (hholds : j = i → ((w.node i).handle P e).HoldsTo P cur) :
    Traces P a i cur { w with
      node := Function.update w.node j ((w.node j).handle P e)
      toRoot := w.toRoot ++ (w.node j).sent e
      toNode := rest } := by
  have hlisted := (listed_step hs h.listed (.node hdel) fun ct hct => absurd hct (hno ct)).1
  have hrest : ∀ p ∈ rest, Vouched (a.nodeId i) (Confirms (a.nodeId i) cur w.root.obs) p :=
    fun p hp => h.toNode p (hdel.subset p hp)
  by_cases hj : j = i
  · subst j
    have hself : Function.update w.node i ((w.node i).handle P e) i = (w.node i).handle P e := by
      simp
    have hslots := Node.ackFree_handle (P := P) h.slots e fun d he =>
      h.toNode d (he ▸ hdel : k.Delivers w.toNode (some d) rest).mem
    refine ⟨?_, ?_, ?_, hlisted, h.root, hrest⟩
    · intro x hcur
      obtain ⟨pk, hmem⟩ := h.made x hcur
      simp only [hself]
      exact ⟨pk, (Node.log_handle P _ e).subset hmem⟩
    · simpa only [hself] using hholds rfl
    · simpa only [hself] using hslots
  · have hsame : Function.update w.node j ((w.node j).handle P e) i = w.node i := by
      simp [Function.update_of_ne (Ne.symm hj)]
    refine ⟨?_, ?_, ?_, hlisted, h.root, hrest⟩
    · simpa only [hsame] using h.made
    · simpa only [hsame] using h.node
    · simpa only [hsame] using h.slots

/-- From an encapsulation that nothing is in the way of, all traces are of it. -/
theorem traces_next {e : Node.Event} {rest : List Bytes} {pk : PublicKey} {ct : Ciphertext}
    {ss : SharedSecret} (hcorrect : P.Correct) (hs : Sound a w) (hd : Distributed P a i w)
    (h : Traces P a i cur w) (hdel : k.Delivers w.toNode e.heard rest)
    (ho : ((w.node i).handle P e).obs =
      .encapsulate (a.nodeId i) pk true ct ss :: (w.node i).obs)
    (hready : Ready a i ⟨(w.node i).session.nextMsgId, ct, ss⟩ w) :
    Traces P a i (some ⟨(w.node i).session.nextMsgId, ct, ss⟩) { w with
      node := Function.update w.node i ((w.node i).handle P e)
      toRoot := w.toRoot ++ (w.node i).sent e
      toNode := rest } := by
  have hself : Function.update w.node i ((w.node i).handle P e) i = (w.node i).handle P e := by
    simp
  have hslots := Node.ackFree_handle (P := P) h.slots e fun d he =>
    h.toNode d (he ▸ hdel : k.Delivers w.toNode (some d) rest).mem
  have hd' := distributed_step hs hd (.node (i := i) hdel)
  refine ⟨?_, ?_, ?_, ?_, ?_, fun p hp => hready.toNode p (hdel.subset p hp)⟩
  · rintro x hcur
    obtain rfl := Option.some.inj hcur
    simp only [hself, ho]
    exact ⟨pk, List.mem_cons_self ..⟩
  · simp only [hself]
    exact (Node.encapsulates_handle (a.valid i) (hs.node i) (hs.named i) e ho).1
  · simpa only [hself] using hslots
  · refine (listed_step hs hready.listed (.node hdel) ?_).1
    rintro ct' ⟨e', pk', ss', he, ho'⟩
    cases he
    injection ho.symm.trans ho' with hhead
    injection hhead with _ _ _ hct
    exact ⟨_, rfl, hct.symm⟩
  · refine ⟨h.root.keyed, ?_, fun j hj => absurd hj (hready.unsettled j), hready.tx⟩
    rintro x hcur
    obtain rfl := Option.some.inj hcur
    have hmem : .encapsulate (a.nodeId i) pk true ct ss ∈ ((w.node i).handle P e).obs :=
      ho ▸ List.mem_cons_self ..
    rw [← hself] at hmem
    exact hd'.opens hcorrect hmem

/-- Through every step there is one encapsulation that all traces are of. -/
theorem traces_step (hcorrect : P.Correct) (hs : Sound a w) (hd : Distributed P a i w)
    (h : Traces P a i cur w) (hstep : Step P k w e w')
    (hready : ∀ x, Encapsulates P a i w e x.ct → x.msgId = (w.node i).session.nextMsgId →
      Ready a i x w) :
    Traces P a i cur w' ∨ ∃ x, Encapsulates P a i w e x.ct ∧ Traces P a i (some x) w' := by
  cases hstep with
  | root hdel => exact Or.inl (traces_root hs h hdel)
  | @lose toRoot toNode hsub hsub' =>
    have hl := h.listed
    exact Or.inl ⟨h.made, h.node, h.slots,
      ⟨hl.node, fun p hp => hl.toRoot p (hsub.subset hp), hl.root⟩, h.root,
      fun p hp => h.toNode p (hsub'.subset hp)⟩
  | @node j e rest hdel =>
    by_cases hj : j = i
    · subst j
      rcases Node.encapsulated_handle (a.valid i) (hs.node i) (hs.named i) P e with
        ho | ⟨pk, ok, ct, ss, ho⟩
      · refine Or.inl (traces_quiet hs h hdel ?_ fun _ =>
          Node.holdsTo_handle (a.valid i) (hs.node i) (hs.named i) h.node e ho)
        rintro ct ⟨e', pk, ss, he, ho'⟩
        cases he
        exact Node.not_encapsulates ho _ _ _ _ ho'
      · cases ok with
        | false =>
          obtain ⟨-, hfailed⟩ :=
            Node.encapsulates_handle (a.valid i) (hs.node i) (hs.named i) e ho
          refine Or.inl (traces_quiet hs h hdel ?_ fun _ =>
            Node.holdsTo_of_state (hfailed rfl) (by decide))
          rintro ct' ⟨e', pk', ss', he, ho'⟩
          cases he
          injection ho.symm.trans ho' with hhead
          injection hhead with _ _ hok
          cases hok
        | true =>
          have henc : Encapsulates P a i w (.node i e) ct := ⟨e, pk, ss, rfl, ho⟩
          exact Or.inr ⟨⟨(w.node i).session.nextMsgId, ct, ss⟩, henc,
            traces_next hcorrect hs hd h hdel ho (hready _ henc rfl)⟩
    · refine Or.inl (traces_quiet hs h hdel ?_ fun he => absurd he hj)
      rintro ct ⟨_, _, _, he, _⟩
      cases he
      exact hj rfl

/-- What establishes a node is an acknowledgement of its encapsulation. -/
theorem established_step (hs : Sound a w) (h : Traces P a i cur w) (hstep : Step P k w e w')
    (hest : (w'.node i).session.state = .established) :
    let ss := (w.node i).session.ss
    (w'.node i).session.ss = ss ∧ ((w.node i).session.state = .established ∨
      (w.node i).session.state = .waitAck ∧ ∃ clk rnd d l₁ l₂,
        e = .node i (.receive clk rnd d) ∧ w.root.obs = l₁ ++ .ack (a.nodeId i) d ss :: l₂ ∧
        .decapsulate (a.nodeId i) (w.node i).hs.nodeCt true ss ∈ l₂) := by
  cases hstep with
  | root _ | lose _ _ => exact ⟨rfl, Or.inl hest⟩
  | @node j e rest hdel =>
    by_cases hj : j = i
    · subst j
      simp only [Function.update_self] at hest ⊢
      obtain ⟨hss, hwas⟩ := Node.established_handle (P := P) (a.valid i) (hs.node i) (hs.named i)
        h.slots e (fun d he => h.toNode d (he ▸ hdel : k.Delivers w.toNode (some d) rest).mem) hest
      refine ⟨hss, ?_⟩
      rcases hwas with hwas | ⟨hwait, msgId, he, y, hcur, hack⟩
      · exact Or.inl hwas
      · obtain ⟨x, hcur', hss', -, hpend⟩ := h.node (Or.inl hwait)
        obtain rfl := Option.some.inj (hcur.symm.trans hcur')
        obtain ⟨hpend, hct⟩ := hpend hwait
        obtain ⟨l₁, l₂, hobs, hmem⟩ := hack hpend
        rw [hss', hct]
        cases e with
        | receive clk rnd d =>
          obtain rfl := Option.some.inj he
          exact Or.inr ⟨hwait, clk, rnd, _, l₁, l₂, rfl, hobs, hmem⟩
        | routing _ _ | retry _ _ | temp _ | transmit | reset | reboot => cases he
    · have hsame : Function.update w.node j ((w.node j).handle P e) i = w.node i := by
        simp [Function.update_of_ne (Ne.symm hj)]
      simp only [hsame] at hest
      exact ⟨congrArg (fun n => n.session.ss) hsame, Or.inl hest⟩

/-- An acknowledgement in the log means that its session was established at that time. -/
theorem Reaches.acked (h : Reaches P k a past w) {ss : SharedSecret}
    (hmem : .ack (a.nodeId i) p ss ∈ w.root.obs) :
    ∃ x ∈ w :: past, ∃ j, x.root.Established (a.nodeId i) j ∧ (x.root.sessions j).ss = ss := by
  revert hmem
  apply h.invariant (I := fun past w => .ack (a.nodeId i) p ss ∈ w.root.obs →
    ∃ x ∈ w :: past, ∃ j, x.root.Established (a.nodeId i) j ∧ (x.root.sessions j).ss = ss)
  · rintro w ⟨rnd, -, rfl⟩ hmem
    have hboot : (Root.boot P rnd).obs = [] := by
      unfold Root.boot
      dsimp only
      split <;> rfl
    rw [hboot] at hmem
    cases hmem
  · intro past w e w' hrun ih hstep hmem
    have hs := Reaches.sound hrun
    have hl := Reaches.listed_all hrun i
    have hold : .ack (a.nodeId i) p ss ∈ w.root.obs → ∃ x ∈ w' :: w :: past, ∃ j,
        x.root.Established (a.nodeId i) j ∧ (x.root.sessions j).ss = ss := by
      intro hmem
      obtain ⟨x, hx, hj⟩ := ih hmem
      exact ⟨x, List.mem_cons_of_mem _ hx, hj⟩
    cases hstep with
    | @root e rest hdel =>
      obtain ⟨rnd, ha⟩ := Root.handle_acts (P := P) hs.root.rooted e
      rcases Root.ack_acts hs.root hl.root (fun d he =>
          hl.toRoot d (he ▸ hdel : k.Delivers w.toRoot (some d) rest).mem) ha hmem with hmem | hnew
      · exact hold hmem
      · exact ⟨_, List.mem_cons_self .., hnew⟩
    | node _ | lose _ _ => exact hold hmem

end World

end PqcContiki
