import PqcContiki.RootAgreement
import PqcContiki.World

/-!
How the root's key gets to the nodes: no fragments of keys are under way but those of its one key,
so a node encapsulates to that key.
-/
namespace PqcContiki

open TxQueue Relation Runs

variable {P : Platform} {me : SessionRef} {rnd : Entropy} {data : Option Bytes}
  {h : FragmentHeader} {payload : Bytes} {f f' : Fsm} {p : Bytes} {id : UInt16} {pk : PublicKey}

/-- What is assumed of the KEM: the secret key opens what was encapsulated to its public key. -/
def Platform.Correct (P : Platform) : Prop :=
  ∀ rnd, (P.cryptoKemKeypair rnd).1 = 0 → ∀ rnd' ct ss,
    P.cryptoWorkerEncapsulate rnd' (P.cryptoKemKeypair rnd).2.1 = (true, ct, ss) →
    P.cryptoWorkerDecapsulate (P.cryptoKemKeypair rnd).2.2 ct = (true, ss)

theorem Platform.demo_correct : Platform.demo.Correct := by
  intro rnd _ rnd' ct ss henc
  injection henc with _ hpair
  injection hpair with hct hss
  rw [← hct, ← hss]
  rfl

/-- One key, whatever message id it is sent under. -/
def pkSource (pk : PublicKey) (_msgId : UInt8) (m : Message) : Prop := m = pkMessage pk

theorem pkSource_count (msgId : UInt8) (m : Message) (hm : pkSource pk msgId m) : m.count = 36 := by
  rw [hm]
  exact pkMessage_count pk

abbrev CarriesPk (id : UInt16) (pk : PublicKey) : Bytes → Prop := Carries pqcMsgPk id (pkSource pk)

abbrev CollectsPk (id : UInt16) (pk : PublicKey) : FragmentRxCtx → Prop :=
  Collects pqcMsgPk id 36 (pkSource pk)

/-- A key that arrives whole is the one key. -/
theorem Finishes.key {slots slots' : Slots} {ctx : FragmentRxCtx}
    (hf : Finishes me h payload slots ctx slots') (ha : Assigned (fun _ => CollectsPk id pk) slots)
    (hs : Storable (fun _ => CollectsPk id pk) me h payload) (hid : h.nodeId = id)
    (htype : h.msgType = pqcMsgPk) : rxArray _ ctx = pk := by
  obtain ⟨hpatch, hcomplete⟩ := hf.patchwork ha hs hid htype
  have hlen : (pkMessage pk).data.length = cwHqcPublicKeyLen := Buffer.length_toList _
  ext k
  have hbyte := hpatch.byte_of_complete hcomplete (fun m' hm' => hm') (pkMessage_count pk)
    (by rw [hlen]; exact k.isLt)
  exact congrArg UInt8.toNat (hbyte.trans (pk.getD_toList k))

namespace Root

variable {r r' : Root}

/-- The keys a root with a key pair sends are its own. -/
theorem distributes_act (hk : r.hs.rootHasKeypair = true) (hs : Sound r)
    (hq : r.tx.Holds (CarriesPk id r.hs.rootPk)) (ha : Act P rnd data r r') :
    r'.tx.Holds (CarriesPk id r.hs.rootPk) := by
  have hpending : ∀ {i : Fin sessionMaxNodes} {p : Bytes}, (r.sessions i).used = true →
      IsPendingFragment (r.fsm i) p → CarriesPk id r.hs.rootPk p := by
    intro i p hu hp
    rcases hp with ⟨-, -, hp⟩ | ⟨hr, -, -⟩
    · exact carries_of_fragment hp fun _ _ => rfl
    · cases (hs.sessions i hu).1.symm.trans hr
  cases ha with
  | touch hal => exact hal.tx ▸ hq
  | create _ _ _ | collect _ => exact hq
  | reset _ _ =>
    rw [dropAndReset_tx]
    exact hq.dropNode _
  | @start _ slots _ _ _ _ hst =>
    have hpk : ((r.hs.setSlots slots).hsFsmRootInitKeypair P rnd).2.rootPk = r.hs.rootPk := by
      rw [HsStatics.hsFsmRootInitKeypair, if_pos (by exact hk)]
      rfl
    generalize ((r.hs.setSlots slots).hsFsmRootInitKeypair P rnd).2 = hs at hst hpk
    cases hst with
    | refused _ => exact hq
    | failed _ hadds | sent _ hadds =>
      exact hadds.holds hq fun p hp => carries_of_fragment hp fun _ _ => congrArg pkMessage hpk
  | @ctStart i _ _ _ _ _ =>
    rw [setSession_tx]
    dsimp only
    exact hq.drop (r.sessions i).nodeId pqcMsgPk (r.sessions i).pendingMsgId
  | fragment _ _ hu _ hh =>
    refine hh.sends.holds hq ?_
    intro p hp
    cases hp with
    | nack hp => exact carries_of_kind hp.isKind (by decide)
    | pending hp => exact hpending hu hp
    | ct hr _ _ => cases (hs.sessions _ hu).1.symm.trans hr
    | ack _ hp _ _ => exact hp ▸ carries_of_kind ackPacket_isKind (by decide)
  | retry hu hr =>
    refine hr.sends.holds hq ?_
    rintro p (hp | hp | ⟨-, hp⟩)
    · exact carries_of_kind hp.isKind (by decide)
    · exact hpending hu hp
    · exact carries_of_kind hp (by decide)
  | transmit => exact hq.process.1

theorem distributes_acts (hk : Keyed P r) (hs : Sound r)
    (hq : r.tx.Holds (CarriesPk id r.hs.rootPk)) (ha : Acts P rnd data r r') :
    r'.hs.keypair = r.hs.keypair ∧ r'.tx.Holds (CarriesPk id r.hs.rootPk) := by
  have hall : Sound r' ∧ r'.hs.keypair = r.hs.keypair ∧
      r'.tx.Holds (CarriesPk id r.hs.rootPk) := by
    induction ha with
    | refl => exact ⟨hs, rfl, hq⟩
    | tail _ hlast ih =>
      obtain ⟨hs', hpair, hq'⟩ := ih
      have hhas := (congrArg Prod.fst hpair).trans hk.rootHasKeypair
      have hpk := congrArg (fun x => x.2.1) hpair
      refine ⟨sound_act hs' hlast, (keypair_act hhas hlast).trans hpair, ?_⟩
      rw [show r.hs.rootPk = _ from hpk.symm] at hq' ⊢
      exact distributes_act hhas hs' hq' hlast
  exact hall.2

end Root

namespace Node

variable {n n' : Node}

/-- The node has met no key but `pk`. -/
structure Learns (P : Platform) (id : UInt16) (pk : PublicKey) (n : Node) : Prop where
  slots : Assigned (fun _ => CollectsPk id pk) n.hs.rxSlots
  obs : ∀ nodeId pk' ok ct ss, .encapsulate nodeId pk' ok ct ss ∈ n.obs →
    pk' = pk ∧ ∃ rnd, P.cryptoWorkerEncapsulate rnd pk = (ok, ct, ss)

theorem learns_boot (nodeId : UInt16) : Learns P id pk (boot nodeId) :=
  ⟨assigned_zero _, by simp⟩

theorem learns_act (hv : id ≠ sessionInvalidNodeId) (hs : Sound n) (hn : Named id n)
    (hl : Learns P id pk n) (hd : ∀ d, data = some d → CarriesPk id pk d)
    (ha : Act P rnd data n n') : Learns P id pk n' := by
  have hstorable : ∀ h d, data = some d → parseFragmentHeader d = some h →
      Storable (fun _ => CollectsPk id pk) .localSession h (h.payload d) := fun h d he hparse =>
    storable_collects pkSource_count (hd d he) hparse .localSession
  refine ⟨slots_act hl.slots ha collects_init fun h d he hparse _ ctx ctx' hctx hadd _ =>
    (hstorable h d he hparse).add ctx ctx' hctx hadd, ?_⟩
  cases ha with
  | touch hal => exact hal.obs ▸ hl.obs
  | request _ _ _ | requested _ | collect _ | reset | reboot | transmit => exact hl.obs
  | retry hr =>
    rw [putFsm_obs, (hr.coherent hs.coherent).2]
    exact hl.obs
  | fragment he hparse hname hh =>
    rw [hn.mapS_adopt hv] at hh
    cases hh with
    | incomplete hi => cases hi <;> exact hl.obs
    | confirmed hr _ _ _ _ _ | ct hr _ _ _ _ => cases hs.role.symm.trans hr
    | ack _ _ _ _ _ _ _ => exact hl.obs
    | pk _ _ htype hf hc =>
      have hkey := hf.key hl.slots (hstorable _ _ he hparse) (hn.names hv hname) htype
      cases hc with
      | rejected _ _ => exact hl.obs
      | failed _ henc _ _ _ | sent _ henc _ _ =>
        rw [hkey] at henc
        intro nodeId pk' ok ct ss hmem
        rcases List.mem_cons.mp hmem with heq | hmem
        · injection heq with _ hpk hok hct hss
          subst hok hct hss
          exact ⟨hpk.trans hkey, _, henc⟩
        · exact hl.obs _ _ _ _ _ hmem

theorem learns_handle (hv : id ≠ sessionInvalidNodeId) (hs : Sound n) (hn : Named id n)
    (hl : Learns P id pk n) (e : Event) (hd : ∀ d, e.heard = some d → CarriesPk id pk d) :
    Learns P id pk (n.handle P e) := by
  obtain ⟨rnd, ha⟩ := handle_acts P n e
  have hall : Sound (n.handle P e) ∧ Named id (n.handle P e) ∧ Learns P id pk (n.handle P e) := by
    generalize n.handle P e = n' at ha
    induction ha with
    | refl => exact ⟨hs, hn, hl⟩
    | tail _ hlast ih =>
      obtain ⟨hs', hn', hl'⟩ := ih
      exact ⟨sound_act hs' hlast, named_act hv hn' hlast, learns_act hv hs' hn' hl' hd hlast⟩
  exact hall.2.2

end Node

namespace World

variable {ι : Type*} [DecidableEq ι] {k : Network} {a : Addresses ι} {w w' : World ι}
  {past : List (World ι)} {i : ι} {e : Event ι}

/-- Every key for node `i` that is under way, or has arrived, is the root's own. -/
structure Distributed (P : Platform) (a : Addresses ι) (i : ι) (w : World ι) : Prop where
  keyed : w.root.Keyed P
  tx : w.root.tx.Holds (CarriesPk (a.nodeId i) w.root.hs.rootPk)
  toNode : ∀ p ∈ w.toNode, CarriesPk (a.nodeId i) w.root.hs.rootPk p
  node : (w.node i).Learns P (a.nodeId i) w.root.hs.rootPk

omit [DecidableEq ι] in
theorem distributed_initial (h : Initial P a w) (i : ι) : Distributed P a i w := by
  obtain ⟨rnd, hok, rfl⟩ := h
  refine ⟨Root.keyed_boot hok, ?_, by simp, Node.learns_boot _⟩
  rw [Root.boot_tx]
  exact holds_init

theorem distributed_step (hs : Sound a w) (h : Distributed P a i w)
    (hstep : Step P k w e w') : Distributed P a i w' := by
  cases hstep with
  | @root e rest hdel =>
    obtain ⟨rnd, ha⟩ := Root.handle_acts (P := P) hs.root.rooted e
    obtain ⟨hpair, hq⟩ := Root.distributes_acts h.keyed hs.root h.tx ha
    have hpk : (w.root.handle P e).hs.rootPk = w.root.hs.rootPk := congrArg (fun x => x.2.1) hpair
    obtain ⟨rnd', hok, hkey⟩ := h.keyed
    refine ⟨⟨rnd', hok, hpair.trans hkey⟩, hpk ▸ hq, ?_, hpk ▸ h.node⟩
    intro p hp
    rw [hpk]
    rcases List.mem_append.mp hp with hp | hp
    · exact h.toNode p hp
    · exact Root.sent_holds h.tx e p hp
  | @node j e rest hdel =>
    refine ⟨h.keyed, h.tx, fun p hp => h.toNode p (hdel.subset p hp), ?_⟩
    by_cases hj : j = i
    · subst j
      simp only [Function.update_self]
      exact Node.learns_handle (a.valid i) (hs.node i) (hs.named i) h.node e fun d he =>
        h.toNode d (he ▸ hdel : k.Delivers w.toNode (some d) rest).mem
    · simpa [Function.update_of_ne (Ne.symm hj)] using h.node
  | lose _ hsub => exact ⟨h.keyed, h.tx, fun p hp => h.toNode p (hsub.subset hp), h.node⟩

theorem Reaches.distributed (h : Reaches P k a past w) (i : ι) : Distributed P a i w := by
  apply h.invariant (I := fun _ w => Distributed P a i w)
  · intro w hi
    exact distributed_initial hi i
  · intro past w e w' hrun hd hstep
    exact distributed_step (Reaches.sound hrun) hd hstep

omit [DecidableEq ι] in
/-- The root can open whatever node `i` has encapsulated. -/
theorem Distributed.opens (h : Distributed P a i w) (hcorrect : P.Correct) {nodeId : UInt16}
    {pk : PublicKey} {ct : Ciphertext} {ss : SharedSecret}
    (hmem : .encapsulate nodeId pk true ct ss ∈ (w.node i).obs) :
    P.cryptoWorkerDecapsulate w.root.hs.rootSk ct = (true, ss) := by
  obtain ⟨-, rnd', henc⟩ := h.node.obs _ _ _ _ _ hmem
  obtain ⟨rnd, hok, hkey⟩ := h.keyed
  have hpk : w.root.hs.rootPk = (P.cryptoKemKeypair rnd).2.1 := congrArg (fun x => x.2.1) hkey
  have hsk : w.root.hs.rootSk = (P.cryptoKemKeypair rnd).2.2 := congrArg (fun x => x.2.2) hkey
  rw [hpk] at henc
  rw [hsk]
  exact hcorrect rnd hok rnd' ct ss henc

/-- Node `i` waits for the key, and the packet it hears completes one of the right length. -/
def CompletesKey (P : Platform) (i : ι) (w : World ι) (e : Event ι) : Prop :=
  ∃ clk rnd d ctx, e = .node i (.receive clk rnd d) ∧ (w.node i).session.state = .waitPk ∧
    (w.node i).fsm.Completes P .localSession clk d pqcMsgPk ctx ∧
    fragmentRxLen ctx = cwHqcPublicKeyLen

omit [DecidableEq ι] in
/-- Only a complete key makes a node encapsulate. -/
theorem Encapsulates.completesKey {ct : Ciphertext} (hs : Sound a w)
    (h : Encapsulates P a i w e ct) : CompletesKey P i w e := by
  obtain ⟨e', pk, ss, rfl, ho⟩ := h
  have hdeaf {n' : Node} (ha : Node.Acts P 0 none (w.node i) n')
      (ho : n'.obs = .encapsulate (a.nodeId i) pk true ct ss :: (w.node i).obs) :
      CompletesKey P i w (.node i e') :=
    absurd ho (Node.not_encapsulates (Node.encapsulated_acts ha) _ _ _ _)
  cases e' with
  | receive clk rnd d =>
    rw [Node.handle] at ho
    rcases Node.udpRxCallback_turn P clk rnd d (w.node i) with hsame | halike
    · rw [hsame] at ho
      exact absurd ho.symm (List.cons_ne_self _ _)
    · have hobs : ((w.node i).fsm.hsFsmHandleFragment P .localSession clk rnd
          (w.node i).sendCtx d).2.obs ≠ (w.node i).fsm.obs := by
        intro hsame
        rw [halike.obs, Node.putFsm_obs, hsame] at ho
        exact absurd ho.symm (List.cons_ne_self _ _)
      obtain ⟨hstate, ctx, hcomp, hlen⟩ :=
        hsFsmHandleFragment_encapsulates (hs.node i).role hobs
      exact ⟨clk, rnd, d, ctx, rfl, hstate, hcomp, hlen⟩
  | routing clk routing => exact hdeaf (Node.routingTick_acts P clk routing _) ho
  | retry clk routing => exact hdeaf (Node.retryTick_acts P clk routing _) ho
  | temp measurement => exact hdeaf (Node.tempTick_acts P measurement _) ho
  | transmit => exact hdeaf (.single .transmit) ho
  | reset => exact hdeaf (.single .reset) ho
  | reboot => exact hdeaf (.single .reboot) ho

end World

end PqcContiki
