import PqcContiki.SecretHistories

/-! Key freshness at the root: the old ciphertexts must be gone when it starts over. -/
namespace PqcContiki

open TxQueue Relation Runs

namespace World

variable {ι : Type*} [DecidableEq ι] {P : Platform} {k : Network} {a : Addresses ι}
  {w w' : World ι} {past : List (World ι)} {i : ι} {e : Event ι} {D D' : Directory}
  {old new : List Ciphertext}

/-- The root has an agreement with node `i` when the node asks for the key again. -/
def Restarts (a : Addresses ι) (i : ι) (w : World ι) (e : Event ι) : Prop :=
  Asks a i e ∧ ∃ j, w.root.Established (a.nodeId i) j

/-- The ciphertexts of node `i` in two parts: only those in `new` may still be under way. -/
structure Apart (P : Platform) (a : Addresses ι) (i : ι) (old new : List Ciphertext)
    (w : World ι) : Prop where
  split : encapsulated (w.node i).obs = new ++ old
  listed : Listed a i (fun _ ct => ct ∈ new) w
  distinct : w.root.Distinct P (a.nodeId i) old new

omit [DecidableEq ι] in
theorem apart_initial (h : Initial P a w) (i : ι) : Apart P a i [] [] w := by
  have hl := listed_initial h i fun _ ct => ct ∈ []
  obtain ⟨rnd, -, rfl⟩ := h
  exact ⟨rfl, hl, Root.distinct_boot⟩

omit [DecidableEq ι] in
/-- A request for the key that ends an agreement finds nothing new; other packets leave it. -/
theorem apart_root {e : Root.Event} (hbind : (w.root.handle P e).Binds (a.nodeId i))
    (hs : Sound a w) (h : Apart P a i old new w) (hdrain : Restarts a i w (.root e) → Drained a i w)
    (hfresh : (new ++ old).Pairwise fun ct ct' => ¬ SameStart ct ct')
    (hd : ∀ d, e.heard = some d → d ∈ w.toRoot) :
    ∃ old' new', new' ++ old' = new ++ old ∧ Listed a i (fun _ ct => ct ∈ new') w ∧
      (w.root.handle P e).Distinct P (a.nodeId i) old' new' := by
  obtain ⟨rnd, ha⟩ := Root.handle_acts (P := P) hs.root.rooted e
  have hapart := (List.pairwise_append.mp hfresh).2.2
  have hheard : ∀ {D}, Listed a i D w → ∀ d, e.heard = some d → CarriesCt (a.nodeId i) D d :=
    fun hl d he => hl.toRoot d (hd d he)
  by_cases hasks : ∃ d, e.heard = some d ∧ IsKind pqcMsgGetpk (a.nodeId i) d
  · obtain ⟨d, he, hkind⟩ := hasks
    by_cases hest : ∃ j, Root.Established (a.nodeId i) w.root j
    · have hrestarts : Restarts a i w (.root e) := by
        cases e with
        | receive clk rnd' sender d' =>
          obtain rfl := Option.some.inj he
          exact ⟨⟨clk, rnd', sender, d', rfl, hkind⟩, hest⟩
        | retry _ | transmit => cases he
      have hl : Listed a i (fun _ ct => ct ∈ []) w := (hdrain hrestarts).listed h.listed
      have hdist : w.root.Distinct P (a.nodeId i) (new ++ old) [] :=
        h.distinct.mono (fun ct hct => List.mem_append_right _ hct)
          fun _ ct hct => Or.inr (List.mem_append_left _ hct)
      exact ⟨new ++ old, [], rfl, hl, Root.distinct_acts hbind hs.root hs.table hl.root hdist
        (hheard hl) (fun _ => rfl) (fun _ _ _ hct => hct) (by simp) ha⟩
    · have hdist : w.root.Distinct P (a.nodeId i) old [] :=
        h.distinct.mono (fun ct hct => hct) fun hex => absurd hex hest
      have hdist' := Root.distinct_acts hbind hs.root hs.table h.listed.root hdist
        (hheard h.listed) (fun _ => rfl) (fun hno => absurd hkind (hno d he)) (by simp) ha
      exact ⟨old, new, rfl, h.listed, hdist'.mono (fun ct hct => hct) fun _ ct hct => by cases hct⟩
  · have hdist := Root.distinct_acts hbind hs.root hs.table h.listed.root h.distinct
      (hheard h.listed) (fun hex => absurd hex hasks) (fun _ _ _ hct => hct)
      (fun ct hct ct' hct' => hapart ct' hct' ct hct) ha
    exact ⟨old, new, rfl, h.listed, hdist⟩

theorem apart_step (hbind : w'.root.Binds (a.nodeId i)) (hs : Sound a w)
    (h : ∃ old new, Apart P a i old new w) (hstep : Step P k w e w')
    (hdrain : Restarts a i w e → Drained a i w)
    (hfresh : (encapsulated (w'.node i).obs).Pairwise fun ct ct' => ¬ SameStart ct ct') :
    ∃ old new, Apart P a i old new w' := by
  obtain ⟨old, new, h⟩ := h
  have hgrow : ∃ new', encapsulated (w'.node i).obs = new' ++ old ∧ (∀ ct ∈ new, ct ∈ new') ∧
      ∀ ct, Encapsulates P a i w e ct → ct ∈ new' := by
    rcases encapsulated_step (i := i) hs hstep with ⟨ho, hno⟩ | ⟨ct, ho, hall⟩
    · exact ⟨new, ho.trans h.split, fun _ hct => hct, fun ct hct => absurd hct (hno ct)⟩
    · refine ⟨ct :: new, by rw [ho, h.split]; rfl, fun _ hct => List.mem_cons_of_mem _ hct, ?_⟩
      intro ct' hct'
      simp [hall ct' hct']
  cases hstep with
  | @root e rest hdel =>
    have hfresh' : (new ++ old).Pairwise fun ct ct' => ¬ SameStart ct ct' := h.split ▸ hfresh
    obtain ⟨old', new', hsplit, hl, hdist⟩ := apart_root hbind hs h hdrain hfresh' fun d he =>
      (he ▸ hdel : k.Delivers w.toRoot (some d) rest).mem
    refine ⟨old', new', h.split.trans hsplit.symm, ?_, hdist⟩
    refine (listed_step hs hl (.root hdel) ?_).1
    rintro ct ⟨_, _, _, he, _⟩
    cases he
  | @node j e rest hdel =>
    obtain ⟨new', hsplit, hsub, henc⟩ := hgrow
    refine ⟨old, new', hsplit, ?_, ?_⟩
    · exact (listed_step hs (h.listed.mono fun _ ct hct => hsub ct hct) (.node hdel) henc).1
    · exact h.distinct.mono (fun _ hct => hct) fun _ ct hct => Or.inl (hsub ct hct)
  | lose hsub hsub' =>
    have hl := h.listed
    exact ⟨old, new, h.split, ⟨hl.node, fun p hp => hl.toRoot p (hsub.subset hp), hl.root⟩,
      h.distinct⟩

theorem advances_step (hs : Sound a w) (hl : Listed a i D w) (hstep : Step P k w e w') :
    w.root.Advances (a.nodeId i) w'.root := by
  cases hstep with
  | @root e rest hdel =>
    obtain ⟨rnd, ha⟩ := Root.handle_acts (P := P) hs.root.rooted e
    exact Root.advances_acts hs.root hl.root
      (fun d he => hl.toRoot d (he ▸ hdel : k.Delivers w.toRoot (some d) rest).mem) ha
  | node _ | lose _ _ => exact Root.Advances.refl _

/-- Runs in which the root is asked again only when nothing is left of the old ciphertexts. -/
abbrev DrainedReaches (P : Platform) (k : Network) (a : Addresses ι) (i : ι) :
    List (World ι) → World ι → Prop :=
  Run (Initial P a) fun w e w' => Step P k w e w' ∧ (Restarts a i w e → Drained a i w)

theorem DrainedReaches.reaches (h : DrainedReaches P k a i past w) : Reaches P k a past w :=
  h.mono fun _ _ _ hs => hs.1

/-- The root's history with node `i`, newest state first: its openings only grow. -/
theorem DrainedReaches.history (h : DrainedReaches P k a i past w)
    (hbind : w.root.Binds (a.nodeId i))
    (hfresh : (encapsulated (w.node i).obs).Pairwise fun ct ct' => ¬ SameStart ct ct') :
    (∀ x ∈ w :: past, ∃ old new, Apart P a i old new x) ∧
      (w :: past).Pairwise fun x y => y.root.Advances (a.nodeId i) x.root := by
  revert hbind hfresh
  apply h.invariant (I := fun past w => w.root.Binds (a.nodeId i) →
    ((encapsulated (w.node i).obs).Pairwise fun ct ct' => ¬ SameStart ct ct') →
      (∀ x ∈ w :: past, ∃ old new, Apart P a i old new x) ∧
        (w :: past).Pairwise fun x y => y.root.Advances (a.nodeId i) x.root)
  · intro w hi _ _
    refine ⟨?_, List.pairwise_singleton _ _⟩
    intro x hx
    obtain rfl := List.mem_singleton.mp hx
    exact ⟨[], [], apart_initial hi i⟩
  · intro past w e w' hrun ih hstep hbind hfresh
    have hreaches := DrainedReaches.reaches hrun
    have hs := Reaches.sound hreaches
    have hsuffix := encapsulated_suffix (i := i) hs hstep.1
    have hadv := advances_step hs (Reaches.listed_all hreaches i) hstep.1
    obtain ⟨hpast, hpair⟩ := ih (hbind.of_suffix hadv.suffix) (hfresh.sublist hsuffix.sublist)
    have hw := hpast w (List.mem_cons_self ..)
    refine ⟨?_, List.pairwise_cons.mpr ⟨?_, hpair⟩⟩
    · intro x hx
      rcases List.mem_cons.mp hx with rfl | hx
      · exact apart_step hbind hs hw hstep.1 hstep.2 hfresh
      · exact hpast x hx
    · intro x hx
      rcases List.mem_cons.mp hx with rfl | hx
      · exact hadv
      · exact ((List.pairwise_cons.mp hpair).1 x hx).trans hadv

/-- If the root is never asked for the key again while something is left of the ciphertexts behind
an agreement, no two agreements with node `i` have the same secret. Nor then the same AES key, if
the derivation tells the two secrets apart, and what was sealed for the one is refused by the
other. -/
theorem key_freshness (h : DrainedReaches P k a i past w) (hbind : w.root.Binds (a.nodeId i))
    (hfresh : (encapsulated (w.node i).obs).Pairwise fun ct ct' => ¬ SameStart ct ct')
    {w₀ w₁ : World ι} (hpast : [w₁, w₀].Sublist past) {j₀ j : Fin sessionMaxNodes}
    (hest₀ : w₀.root.Established (a.nodeId i) j₀)
    (hreset : ∀ j, ¬ w₁.root.Established (a.nodeId i) j)
    (hest : w.root.Established (a.nodeId i) j) :
    let s₀ := w₀.root.sessions j₀
    let s := w.root.sessions j
    s.ss ≠ s₀.ss ∧
      ((P.cryptoWorkerDeriveAesKey s.ss = P.cryptoWorkerDeriveAesKey s₀.ss → s.ss = s₀.ss) →
        s.aesKey ≠ s₀.aesKey) ∧
      ∀ n sender measurement out, P.NoCrossMatch s₀.ss s.ss n → sender.ss = s₀.ss →
        sender.aesKey = s₀.aesKey → sender.txCounter.toNat < n → s.rxCounter.toNat ≤ n →
        (pqcHandleEncryptedTemp P (tempPacket P sender measurement) out s).1 = false := by
  obtain ⟨hpart, hpair⟩ := h.history hbind hfresh
  obtain ⟨old, new, hw⟩ := hpart w (List.mem_cons_self ..)
  obtain ⟨old₀, new₀, hw₀⟩ := hpart w₀ (List.mem_cons_of_mem _ (hpast.subset (by simp)))
  have hadv := hpair.sublist (hpast.cons_cons w)
  simp only [List.pairwise_cons, List.mem_cons, forall_eq_or_imp] at hadv
  obtain ⟨⟨hadv₁, -⟩, ⟨hadv₀, -⟩, -⟩ := hadv
  obtain ⟨hhead, hkey⟩ := hw.distinct.current j hest
  obtain ⟨hhead₀, hkey₀⟩ := hw₀.distinct.current j₀ hest₀
  have hne : (w.root.sessions j).ss ≠ (w₀.root.sessions j₀).ss := by
    have hlt := hadv₁.opens ⟨j, hest⟩ hreset
    have hsuffix := hadv₀.suffix.trans hadv₁.suffix
    have hnodup := hw.distinct.nodup
    have hmem₀ := List.mem_of_mem_head? hhead₀
    cases hobs : successes (a.nodeId i) w.root.obs with
    | nil => simp [hobs] at hhead
    | cons x rest =>
      rw [hobs] at hlt hsuffix hnodup hhead
      have hshort := hadv₀.suffix.length_le
      have hrest : successes (a.nodeId i) w₀.root.obs <:+ rest := by
        rcases List.suffix_cons_iff.mp hsuffix with heq | hrest
        · have hlen := congrArg List.length heq
          omega
        · exact hrest
      have hx : x.2 = (w.root.sessions j).ss := by simpa using hhead
      rw [← hx]
      intro heq
      rw [List.map_cons, List.nodup_cons] at hnodup
      exact hnodup.1 (heq ▸ (hrest.map Prod.snd).subset hmem₀)
  refine ⟨hne, ?_, ?_⟩
  · intro hderive heq
    rw [hkey, hkey₀] at heq
    exact hne (hderive heq)
  · intro n sender measurement out hno hss hsender hn hn'
    rw [← hss] at hno hne
    exact hno.refuses hne (by rw [hsender, hkey₀, hss]) hkey hn hn' measurement out

theorem pairwise_ne {α β : Type*} {f : α → β} {l : List α} (h : l.Pairwise fun x y => f x ≠ f y)
    {x y : α} (hx : x ∈ l) (hy : y ∈ l) (hf : f x = f y) : x = y := by
  have hsymm : Std.Symm fun x y => f x ≠ f y := ⟨fun _ _ hne => hne.symm⟩
  by_contra hne
  exact h.forall hx hy hne hf

theorem key_freshness_settled : ∃ past, DrainedReaches .demo .unordered oneNode () past settled ∧
    [reopened, agreed].Sublist past ∧
    (settled.root.sessions 0).ss ≠ (agreed.root.sessions 0).ss := by
  obtain ⟨⟨-, hest₀, -⟩, -, -, -, -, ⟨hfirst, hdrained, hreset, hsecond⟩, hest, hmade, hopened⟩ :=
    rehearsal
  have hmove : ∀ (w : World Unit) m, asksDrained oneNode () .unordered w m = true →
      ∃ e, Step .demo .unordered w e (w.play .demo .unordered m) ∧
        (Restarts oneNode () w e → Drained oneNode () w) := fun w m h =>
    ⟨_, play_step _ _ w m, fun hr => of_asksDrained h hr.1 hr.2⟩
  obtain ⟨past, hagreed⟩ : ∃ past, DrainedReaches .demo .unordered oneNode () past agreed :=
    run_agreed initial_booted hmove rfl (by decide +kernel) hfirst
  obtain ⟨e, hstep⟩ := hmove agreed .rootSends rfl
  have hacked : DrainedReaches .demo .unordered oneNode () (agreed :: past) acked :=
    hagreed.next hstep
  obtain ⟨past₁, hrebooted, hsuffix₁⟩ :=
    Run.allows hacked hmove (.lose 0 37 :: .nodeResets () :: request) (by simp) rfl
  obtain ⟨e', hstep'⟩ := hmove rebooted (rootHears 0) hdrained
  have hreopened : DrainedReaches .demo .unordered oneNode () (rebooted :: past₁) reopened :=
    Run.next hrebooted hstep'
  obtain ⟨past₂, hwaiting, hsuffix₂⟩ :=
    Run.allows hreopened hmove (keyHeard 9) (by simp [keyHeard]) rfl
  obtain ⟨past₃, hsettled, hsuffix₃⟩ :
      ∃ past₃, DrainedReaches .demo .unordered oneNode () past₃ settled ∧
        waiting :: past₂ <:+ past₃ :=
    Run.allows hwaiting hmove (ctSent ++ ctHeard) (by simp [ctSent]) hsecond
  have hpast : [reopened, agreed].Sublist past₃ := by
    have hfirst : [agreed].Sublist past₁ :=
      (((List.nil_sublist past).cons_cons agreed).cons acked).trans hsuffix₁.sublist
    have hboth : [reopened, agreed].Sublist past₂ :=
      ((hfirst.cons rebooted).cons_cons reopened).trans hsuffix₂.sublist
    exact (hboth.cons waiting).trans hsuffix₃.sublist
  have hbind : settled.root.Binds (oneNode.nodeId ()) := by
    intro x hx y hy hss
    rw [pairwise_ne hopened hx hy (congrArg (fun ss => ss.get 0) hss)]
    exact fun _ _ => rfl
  have hfresh : (encapsulated (settled.node ()).obs).Pairwise fun ct ct' => ¬ SameStart ct ct' :=
    hmade.imp fun hne hsame => hne (hsame 0 (by decide))
  exact ⟨past₃, hsettled, hpast,
    (key_freshness hsettled hbind hfresh hpast hest₀ hreset hest).1⟩

/-- Otherwise copies of an old ciphertext lead the root back to the old secret. -/
theorem key_reused : ¬ ∀ past (w₀ w₁ w : World Unit) j₀ j,
    Reaches .demo .unordered oneNode past w → [w₁, w₀].Sublist past →
    w₀.root.Established (oneNode.nodeId ()) j₀ →
    (∀ j, ¬ w₁.root.Established (oneNode.nodeId ()) j) →
    w.root.Established (oneNode.nodeId ()) j →
    (w.root.sessions j).ss ≠ (w₀.root.sessions j₀).ss := by
  intro hclaim
  obtain ⟨⟨-, hest₀, -⟩, -, ⟨hreset, hest, hss⟩, -⟩ := rehearsal
  obtain ⟨past, hagreed⟩ := reaches_agreed
  have hasked : Reaches .demo .unordered oneNode (agreed :: past) asked :=
    hagreed.next (play_step _ _ _ _)
  obtain ⟨past', hreplayed, hsuffix⟩ := hasked.follow ctHeard (by simp [ctHeard])
  have hpast : [asked, agreed].Sublist past' :=
    (((List.nil_sublist past).cons_cons agreed).cons_cons asked).trans hsuffix.sublist
  exact hclaim past' agreed asked replayed 0 0 hreplayed hpast hest₀ hreset hest hss

end World

end PqcContiki
