import PqcContiki.TelemetryRecords

/-!
Measurements from a node to the rows the root prints: over the whole system the rows since a
session's last restart are measurements the node sent, none of them twice and in their order.
-/
namespace PqcContiki

open TxQueue Relation Runs

namespace World

variable {ι : Type*} [DecidableEq ι] {P : Platform} {k : Network} {a : Addresses ι}
  {w w' : World ι} {past : List (World ι)} {i : ι} {id : UInt16} {e : Event ι}
  {cur cur' : Option Encapsulation} {x : Encapsulation} {sent : List TempPayload}
  {t : TempPayload} {p : Bytes} {n : ℕ}

omit [DecidableEq ι] in
/-- Where a node encapsulates at most once, nothing traces back to an earlier encapsulation. -/
theorem Traces.untouched {ct : Ciphertext} (h : Traces P a i cur w)
    (honce : (encapsulated (w'.node i).obs).length ≤ 1)
    (hnew : encapsulated (w'.node i).obs = ct :: encapsulated (w.node i).obs) : cur = none := by
  cases cur with
  | none => rfl
  | some y =>
    exfalso
    obtain ⟨pk, hmem⟩ := h.made y rfl
    have hpos : y.ct ∈ encapsulated (w.node i).obs := by
      simp only [encapsulated, List.mem_filterMap]
      exact ⟨_, hmem, rfl⟩
    have hlen := List.length_pos_of_mem hpos
    rw [hnew, List.length_cons] at honce
    omega

theorem Encapsulates.new {ct : Ciphertext} (h : Encapsulates P a i w e ct) (hs : Sound a w)
    (hstep : Step P k w e w') :
    encapsulated (w'.node i).obs = ct :: encapsulated (w.node i).obs := by
  rcases encapsulated_step (i := i) hs hstep with ⟨-, hno⟩ | ⟨ct', ho, honly⟩
  · exact absurd h (hno ct)
  · rw [ho, honly ct h]

theorem issued_step (hs : Sound a w) (htraces : Traces P a i cur w) (h : Issued P a i cur sent w)
    (hstep : Step P k w e w') (honce : (encapsulated (w'.node i).obs).length ≤ 1)
    (hcur : cur' = cur ∨ ∃ x, cur' = some x ∧ Encapsulates P a i w e x.ct)
    (hlen : (sent ++ (measured P i w e).toList).length < 2 ^ 32) :
    Issued P a i cur' (sent ++ (measured P i w e).toList) w' := by
  have hest := established_step hs htraces hstep
  have hnew {ct : Ciphertext} (ho : encapsulated (w'.node i).obs =
      ct :: encapsulated (w.node i).obs) : cur = none := htraces.untouched honce ho
  have henc {ct : Ciphertext} (h : Encapsulates P a i w e ct) := h.new hs hstep
  have hquiet (hno : ∀ ct, ¬ Encapsulates P a i w e ct) : cur' = cur := by
    rcases hcur with hcur | ⟨x, -, henc⟩
    · exact hcur
    · exact absurd henc (hno x.ct)
  cases hstep with
  | @root e rest hdel =>
    obtain rfl : cur' = cur := hquiet fun _ ⟨_, _, _, he, _⟩ => by cases he
    simp only [measured, Option.toList_none, List.append_nil]
    exact h.frame rfl fun p hp => Or.inl (hdel.subset p hp)
  | lose hsub _ =>
    obtain rfl : cur' = cur := hquiet fun _ ⟨_, _, _, he, _⟩ => by cases he
    simp only [measured, Option.toList_none, List.append_nil]
    exact h.frame rfl fun p hp => Or.inl (hsub.subset hp)
  | @node j e rest hdel =>
    by_cases hj : j = i
    · subst j
      simp only [measured, if_true] at hlen ⊢
      cases hm : (w.node i).measures P e with
      | some t =>
        obtain ⟨-, -, -, -, hobs, -⟩ := Node.handle_measured hm
        obtain rfl : cur' = cur := hquiet fun ct ⟨e', pk, ss, he, ho⟩ => by
          cases he
          exact List.cons_ne_self _ _ (ho.symm.trans hobs)
        rw [hm] at hlen
        exact issued_measured h htraces.node (hs.node i).coherent hm (by simpa using hlen)
      | none =>
        simp only [Option.toList_none, List.append_nil]
        simp only [Function.update_self] at hest hnew henc
        refine issued_unmeasured h hm ?_ ?_ ?_ ?_
        · intro hw
          rcases Node.encapsulated_handle (a.valid i) (hs.node i) (hs.named i) P e with
            ho | ⟨pk, ok, ct, ss, ho⟩
          · exact Or.inl (Node.waitAck_handle (a.valid i) (hs.node i) (hs.named i) e ho hw)
          · have hmade : encapsulated ((w.node i).handle P e).obs =
                ct :: encapsulated (w.node i).obs := by
              rw [ho]
              rfl
            exact Or.inr (hnew hmade)
        · intro hnow
          rcases (hest hnow).2 with hwas | ⟨hwas, -⟩
          · exact Or.inl hwas
          · exact Or.inr hwas
        · rintro rfl
          rcases hcur with hcur | ⟨x, hcur, -⟩
          · exact hcur.symm
          · cases hcur
        · rcases hcur with hcur | ⟨x, -, henc'⟩
          · exact Or.inl hcur.symm
          · exact Or.inr (hnew (henc henc'))
    · obtain rfl : cur' = cur := hquiet fun _ ⟨_, _, _, he, _⟩ => by
        cases he
        exact hj rfl
      simp only [measured, if_neg hj, Option.toList_none, List.append_nil]
      refine h.frame (Function.update_of_ne (Ne.symm hj) ..) ?_
      intro p hp
      rcases List.mem_append.mp hp with hp | hp
      · exact Or.inl hp
      · exact Or.inr (issues_other hj (Node.sent_holds (hs.named j).tx e p hp))

theorem tallied_step (hs : Sound a w) (hsum : w.root.SummarySound ∧ w.root.Rested)
    (htraces : Traces P a i cur w) (hissued : Issued P a i cur sent w)
    (h : Root.Tallied (a.nodeId i) sent w.root) (hstep : Step P k w e w')
    (hk : ∀ x, cur = some x → NoFalseMatch P x.ss (P.cryptoWorkerDeriveAesKey x.ss) n)
    (hsent : sent.length ≤ n) (hn : n + pqcTempRxCounterWindow ≤ 2 ^ 32) :
    Root.Tallied (a.nodeId i) sent w'.root := by
  cases hstep with
  | node _ | lose _ _ => exact h
  | @root e rest hdel =>
    have hmem {d : Bytes} (he : e.heard = some d) : d ∈ w.toRoot :=
      (he ▸ hdel : k.Delivers w.toRoot (some d) rest).mem
    cases cur with
    | none =>
      -- there is no key yet, so there is nothing to be read
      obtain ⟨rfl, -⟩ := hissued.untouched rfl
      have hkeys (j : Fin sessionMaxNodes) (hj : w.root.Established (a.nodeId i) j) :
          (w.root.sessions j).ss = (w.node i).session.ss ∧ (w.root.sessions j).aesKey =
            P.cryptoWorkerDeriveAesKey (w.node i).session.ss := by
        obtain ⟨x, hcur, -⟩ := htraces.root.agreed j hj
        cases hcur
      refine Root.tallied_handle h hs.root hsum.1.unique hsum.2 hkeys
        (fun hne => absurd rfl hne) hsent hn (by simp) e ?_
      intro d he ht hid
      obtain ⟨x, hcur, -⟩ := hissued.toRoot d (hmem he) ht hid
      cases hcur
    | some x =>
      refine Root.tallied_handle h hs.root hsum.1.unique hsum.2 ?_ (fun _ => hk x rfl) hsent hn
        (fun t => hissued.bounded) e ?_
      · intro j hj
        obtain ⟨y, hcur, -, hss, hkey⟩ := htraces.root.agreed j hj
        obtain rfl := Option.some.inj hcur
        exact ⟨hss, hkey⟩
      · intro d he
        exact (hissued.toRoot d (hmem he)).genuine

omit [DecidableEq ι] in
theorem tallied_initial (h : Initial P a w) (i : ι) : Root.Tallied (a.nodeId i) [] w.root := by
  obtain ⟨rnd, -, rfl⟩ := h
  have hsessions : (Root.boot P rnd).sessions = fun _ => Session.zero := by
    unfold Root.boot
    dsimp only
    split <;> rfl
  have hnone : ∀ j, ¬ (Root.boot P rnd).Established (a.nodeId i) j := by
    intro j hj
    have hused := hj.used
    rw [hsessions] at hused
    cases hused
  have hrows : ∀ row ∈ (Root.boot P rnd).csv, ∀ id, row.measurement id = none := by
    unfold Root.boot
    dsimp only
    split <;> simp [Root.csvEvent, CsvRow.measurement]
  have hsince : Root.temps (a.nodeId i) (Root.since (a.nodeId i) (Root.boot P rnd).csv) = [] :=
    Root.temps_eq_nil (fun row hrow => hrows row (Root.since_subset hrow)) _
  refine ⟨?_, ?_, fun j hj => absurd hj (hnone j), fun _ => hsince, fun j hj => absurd hj (hnone j)⟩
  · rw [Root.temps_eq_nil hrows]
    simp
  · rw [hsince]
    exact List.Pairwise.nil

theorem node_log (hstep : Step P k w e w') (i : ι) : (w.node i).obs <:+ (w'.node i).obs := by
  cases hstep with
  | root _ | lose _ _ => exact List.suffix_rfl
  | @node j e rest _ =>
    by_cases hj : j = i
    · subst j
      simpa using Node.log_handle P (w.node i) e
    · simp [Function.update_of_ne (Ne.symm hj)]

theorem Measuring.books {xs : List (World ι × List TempPayload)} (hcorrect : P.Correct)
    (hn : n + pqcTempRxCounterWindow ≤ 2 ^ 32) (h : Measuring P k a i xs (w, sent))
    (honce : (encapsulated (w.node i).obs).length ≤ 1)
    (hk : ∀ pk ct ss, .encapsulate (a.nodeId i) pk true ct ss ∈ (w.node i).obs →
      NoFalseMatch P ss (P.cryptoWorkerDeriveAesKey ss) n)
    (hsent : sent.length ≤ n) :
    ∃ cur, Traces P a i cur w ∧ Issued P a i cur sent w ∧
      Root.Tallied (a.nodeId i) sent w.root := by
  generalize hy : (w, sent) = y at h
  obtain ⟨rfl, rfl⟩ : w = y.1 ∧ sent = y.2 := by subst hy; exact ⟨rfl, rfl⟩
  clear hy
  revert honce hk hsent
  apply h.invariant (I := fun _ y => (encapsulated (y.1.node i).obs).length ≤ 1 →
    (∀ pk ct ss, .encapsulate (a.nodeId i) pk true ct ss ∈ (y.1.node i).obs →
      NoFalseMatch P ss (P.cryptoWorkerDeriveAesKey ss) n) → y.2.length ≤ n →
    ∃ cur, Traces P a i cur y.1 ∧ Issued P a i cur y.2 y.1 ∧
      Root.Tallied (a.nodeId i) y.2 y.1.root)
  · rintro ⟨w, sent⟩ ⟨hi, hnil⟩ - - -
    dsimp only at hi hnil ⊢
    subst hnil
    exact ⟨none, traces_initial hi i, issued_initial hi i, tallied_initial hi i⟩
  · rintro past ⟨w, sent⟩ e ⟨w', sent'⟩ hrun ih ⟨hstep, hsent'⟩ honce hk hlen
    dsimp only at ih hstep hsent' honce hk hlen ⊢
    subst hsent'
    have hreach := Measuring.reaches hrun
    have hs := Reaches.sound hreach
    have hlog := node_log hstep i
    have hle : sent.length ≤ n := by
      rw [List.length_append] at hlen
      omega
    obtain ⟨cur, htraces, hissued, htallied⟩ := ih
      ((encapsulated_suffix (i := i) hs hstep).length_le.trans honce)
      (fun pk ct ss hmem => hk pk ct ss (hlog.subset hmem)) hle
    have hready : ∀ x, Encapsulates P a i w e x.ct →
        x.msgId = (w.node i).session.nextMsgId → Ready a i x w := by
      intro x henc _
      obtain rfl := htraces.untouched honce (henc.new hs hstep)
      exact htraces.ready_first x
    have hcur : ∃ cur', Traces P a i cur' w' ∧
        (cur' = cur ∨ ∃ x, cur' = some x ∧ Encapsulates P a i w e x.ct) := by
      rcases traces_step hcorrect hs (Reaches.distributed hreach i) htraces hstep hready with
        h' | ⟨x, henc, h'⟩
      · exact ⟨cur, h', Or.inl rfl⟩
      · exact ⟨some x, h', Or.inr ⟨x, rfl, henc⟩⟩
    obtain ⟨cur', htraces', hnext⟩ := hcur
    have hsecret : ∀ x, cur = some x → NoFalseMatch P x.ss (P.cryptoWorkerDeriveAesKey x.ss) n := by
      intro x hx
      obtain ⟨pk, hmem⟩ := htraces.made x hx
      exact hk pk x.ct x.ss (hlog.subset hmem)
    refine ⟨cur', htraces', issued_step hs htraces hissued hstep honce hnext ?_, ?_⟩
    · simp only [pqcTempRxCounterWindow] at hn
      omega
    · exact (tallied_step hs (Reaches.summaries hreach) htraces hissued htallied hstep hsecret hle
        hn).mono (List.prefix_append ..)

/-- In a run in which node `i` encapsulates at most once, every measurement the root prints for it
is one it sent, and those printed since the last restart of its session came in the order in which
it sent them, none of them twice. -/
theorem telemetry_in_order {xs : List (World ι × List TempPayload)} (hcorrect : P.Correct)
    (hn : n ≤ 2 ^ 32 - 16) (h : Measuring P k a i xs (w, sent))
    (honce : (encapsulated (w.node i).obs).length ≤ 1)
    (hk : ∀ pk ct ss, .encapsulate (a.nodeId i) pk true ct ss ∈ (w.node i).obs →
      NoFalseMatch P ss (P.cryptoWorkerDeriveAesKey ss) n)
    (hsent : sent.length ≤ n) :
    sent.map (fun t => t.counter.toNat) = List.range sent.length ∧
      (∀ t ∈ Root.temps (a.nodeId i) w.root.csv, t ∈ sent) ∧
      (Root.temps (a.nodeId i) (Root.since (a.nodeId i) w.root.csv)).reverse.Sublist sent := by
  have hn' : n + pqcTempRxCounterWindow ≤ 2 ^ 32 := by
    simp only [pqcTempRxCounterWindow]
    omega
  obtain ⟨cur, -, hissued, htallied⟩ := h.books hcorrect hn' honce hk hsent
  refine ⟨hissued.numbered, htallied.genuine, sublist_of_numbered hissued.numbered ?_ ?_⟩
  · intro t ht
    have hsince : t ∈ Root.temps (a.nodeId i) (Root.since (a.nodeId i) w.root.csv) :=
      List.mem_reverse.mp ht
    obtain ⟨row, hrow, hread⟩ := List.mem_filterMap.mp hsince
    exact htallied.genuine t (List.mem_filterMap.mpr ⟨row, Root.since_subset hrow, hread⟩)
  · exact List.pairwise_reverse.mpr htallied.increasing

section Measured

/-- A step of a script, with what node 1 queues in it. -/
def measuring (k : Network) (x : World Unit × List TempPayload) (m : Move Unit) :
    World Unit × List TempPayload :=
  (x.1.play .demo k m, x.2 ++ (measured .demo () x.1 (x.1.event k m)).toList)

/-- Node 1 completes its handshake and measures four times. Its second measurement is lost, and
the first and the third reach the root twice. -/
def daylong : List (Move Unit) :=
  request ++ rootHears 0 :: keySent ++ keyHeard 5 ++ ctSent ++ ctHeard ++
    [.rootSends, .nodeHears () 36 stopped 5,
      .nodeMeasures () ⟨0, 45000, 21500⟩, .nodeSends (),
      .nodeMeasures () ⟨0, 44000, -1250⟩, .nodeSends (), .lose 73 0,
      .nodeMeasures () ⟨0, 43000, 900⟩, .nodeSends (),
      rootHears 72, rootHears 73, rootHears 72, rootHears 73,
      .nodeMeasures () ⟨0, 42000, -1⟩, .nodeSends (), rootHears 74]

def reported : World Unit × List TempPayload := daylong.foldl (measuring .unordered) (booted, [])

set_option maxRecDepth 100000 in
theorem reported_temps :
    reported.2 = [⟨0, 45000, 21500⟩, ⟨1, 44000, -1250⟩, ⟨2, 43000, 900⟩, ⟨3, 42000, -1⟩] ∧
      Root.temps (oneNode.nodeId ()) reported.1.root.csv =
        [⟨3, 42000, -1⟩, ⟨2, 43000, 900⟩, ⟨0, 45000, 21500⟩] ∧
      Root.temps (oneNode.nodeId ()) (Root.since (oneNode.nodeId ()) reported.1.root.csv) =
        [⟨3, 42000, -1⟩, ⟨2, 43000, 900⟩, ⟨0, 45000, 21500⟩] ∧
      (encapsulated (reported.1.node ()).obs).length ≤ 1 := by
  decide +kernel

/-- Three of the four measurements are printed, in order. -/
theorem telemetry_in_order_reported : ∃ xs,
    Measuring .demo .unordered oneNode () xs reported ∧
      reported.2 = [⟨0, 45000, 21500⟩, ⟨1, 44000, -1250⟩, ⟨2, 43000, 900⟩, ⟨3, 42000, -1⟩] ∧
      Root.temps (oneNode.nodeId ()) (Root.since (oneNode.nodeId ()) reported.1.root.csv) =
        [⟨3, 42000, -1⟩, ⟨2, 43000, 900⟩, ⟨0, 45000, 21500⟩] ∧
      (∀ t ∈ Root.temps (oneNode.nodeId ()) reported.1.root.csv, t ∈ reported.2) ∧
      (Root.temps (oneNode.nodeId ())
        (Root.since (oneNode.nodeId ()) reported.1.root.csv)).reverse.Sublist reported.2 := by
  obtain ⟨hqueued, -, hprinted, honce⟩ := reported_temps
  have hbooted : Measuring .demo .unordered oneNode () [] (booted, []) :=
    .start ⟨initial_booted, rfl⟩
  obtain ⟨xs, hrun, -⟩ : ∃ xs, Measuring .demo .unordered oneNode () xs reported ∧ _ :=
    Run.script hbooted (fun x m => ⟨_, play_step .demo .unordered x.1 m, rfl⟩) daylong
      (by simp [daylong, request])
  have hlength : reported.2.length ≤ 4 := by
    rw [hqueued]
    decide
  have hpair : Measuring .demo .unordered oneNode () xs (reported.1, reported.2) := by
    rw [Prod.mk.eta]
    exact hrun
  obtain ⟨-, hgenuine, hordered⟩ := telemetry_in_order (n := 4) Platform.demo_correct (by norm_num)
    hpair honce (fun _ _ ss _ => TempHistory.demo_noFalseMatch ss _ 4) hlength
  exact ⟨xs, hrun, hqueued, hprinted, hgenuine, hordered⟩

end Measured

end World

end PqcContiki
