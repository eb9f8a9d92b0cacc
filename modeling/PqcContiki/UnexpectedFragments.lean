import PqcContiki.FragmentReception

/-!
Fragments of a type the session cannot wait for. No guard stops them: they reach the reassembly
like any other, and are harmless only when it has no use for them.
-/
namespace PqcContiki

open TxQueue

variable {P : Platform} {me : SessionRef} {clk : Clock} {rnd : Entropy} {conn : UdpConn}
  {dest : IpAddr} {h : FragmentHeader} {payload : Bytes} {f f' : Fsm} {hs : HsStatics}
  {i : Fin hsRxSlotCount} {ctx : FragmentRxCtx}

theorem hsFsmHandleFragment_dropped {data : Bytes} (hd : Dropped data f.s) (dst : UdpSendCtx) :
    (f.hsFsmHandleFragment P me clk rnd dst data).2 = f.rxSlotsGc P (clk 0) := by
  unfold Fsm.hsFsmHandleFragment
  dsimp only
  cases hparse : parseFragmentHeader data with
  | none => rfl
  | some h =>
    have hnot := hd h hparse
    simp only [Names, not_or, not_and] at hnot
    cases hr : f.s.role with
    | root =>
      have hne : f.s.nodeId ≠ h.nodeId := hnot.1
      simp [Fsm.rxSlotsGc, Session.sessionIsRoot, hr, hne]
    | node =>
      have hinv : f.s.nodeId ≠ sessionInvalidNodeId := hnot.2 hr
      simp [Fsm.rxSlotsGc, Session.sessionIsRoot, Session.sessionIsNode, hr, hnot.1, hinv]

theorem hsFsmHandleFragment_named {data : Bytes} (hp : parseFragmentHeader data = some h)
    (hn : Names h f.s) (dst : UdpSendCtx) :
    f.hsFsmHandleFragment P me clk rnd dst data =
      ((f.rxSlotsGc P (clk 0)).mapS (Session.adoptNodeId h.nodeId)).handleParsed P me clk rnd dst h
        (h.payload data) := by
  have hs : (f.rxSlotsGc P (clk 0)).s = f.s := rfl
  unfold Fsm.hsFsmHandleFragment
  simp only [hp, hs]
  rcases hn with hid | ⟨hr, hinv⟩
  · rw [if_neg (by simp [hid]), if_neg (by simp [hid])]
  · rw [if_neg (by simp [Session.sessionIsRoot, hr]), if_neg (by simp [hinv])]

theorem tidy_rxSlotsGc (P : Platform) (now : ℕ) (htidy : ∀ i, (hs.rxSlots i).active = false →
    hs.rxSlots i = RxSlot.zero) (i : Fin hsRxSlotCount)
    (hi : ((hs.rxSlotsGc P now).rxSlots i).active = false) :
    (hs.rxSlotsGc P now).rxSlots i = RxSlot.zero := by
  simp only [HsStatics.rxSlotsGc] at hi ⊢
  split
  · rfl
  · rename_i hkept
    rw [if_neg hkept] at hi
    exact htidy i hi

/-- An unexpected fragment is harmless exactly when it is dropped or of no use. -/
theorem harmless_iff {data : Bytes} (hu : ¬ Expected f.s.role (byteAt data pqcHdrMsgType))
    (hq : f.tx.WellFormed)
    (htidy : ∀ i, (f.hs.rxSlots i).active = false → f.hs.rxSlots i = RxSlot.zero)
    (conn : UdpConn) (dest : IpAddr) :
    Harmless P clk data f (f.hsFsmHandleFragment P me clk rnd ⟨some conn, some dest⟩ data).2 ↔
      Spared P me clk data f := by
  by_cases hd : Dropped data f.s
  · rw [hsFsmHandleFragment_dropped hd]
    constructor
    · intro _ h hp hn
      exact absurd hn (hd h hp)
    · intro _
      exact ⟨Or.inl ⟨hd, rfl⟩, rfl, rfl, rfl, rfl, rfl, rfl, rfl, rfl, rfl⟩
  · have hsome := hd
    unfold Dropped at hsome
    push Not at hsome
    obtain ⟨h, hp, hn⟩ := hsome
    set g := (f.rxSlotsGc P (clk 0)).mapS (Session.adoptNodeId h.nodeId) with hg
    have hrole : g.s.role = f.s.role := by
      rw [hg, Fsm.mapS_s, Session.adoptNodeId]
      split <;> rfl
    rw [(isKind_of_parse hp).1, ← hrole] at hu
    rw [hsFsmHandleFragment_named hp hn, ← hg, handleParsed_unexpected hu]
    have hb := inBounds_of_parse hp
    have htidy' := tidy_rxSlotsGc P (clk 1) (tidy_rxSlotsGc P (clk 0) htidy)
    constructor
    · intro hharm h' hp' _
      obtain rfl := Option.some.inj (hp.symm.trans hp')
      by_contra huse
      rcases storeFragment_useful rnd hu hq hb conn dest huse with hslots | htx
      · rcases hharm.slots with ⟨hdrop, -⟩ | ⟨-, heq⟩
        · exact hd hdrop
        · exact hslots heq
      · exact htx hharm.tx
    · intro hsp
      obtain ⟨hslots, htx, m, hs⟩ := storeFragment_useless rnd hu hb
        ⟨some conn, some dest⟩ htidy' (hsp h hp hn)
      have hadopt : g.s = f.s ∨ g.s = f.s.setNodeId h.nodeId := f.s.adoptNodeId_cases h.nodeId
      rcases hadopt with hadopt | hadopt
      · refine ⟨Or.inr ⟨hd, hslots⟩, htx, ?_, ?_, ?_, ?_, ?_, ?_, ?_, ?_⟩ <;> rw [hs, hadopt] <;>
          rfl
      · refine ⟨Or.inr ⟨hd, hslots⟩, htx, ?_, ?_, ?_, ?_, ?_, ?_, ?_, ?_⟩ <;> rw [hs, hadopt] <;>
          rfl

/-- A fragment of a type its session cannot wait for, on either device: exactly the spared ones
leave slots, queue, state and keys alone. The root may hand it to any of its session records. -/
theorem unexpected_fragments (P : Platform) :
    (∀ past r, Root.Reaches P past r → ∀ i (s : Session), s.role = .root → ∀ clk rnd sender data,
      ¬ Expected .root (byteAt data pqcHdrMsgType) →
      let f : Fsm := ⟨s, r.hs, r.tx, r.obs⟩
      Harmless P clk data f
          (f.hsFsmHandleFragment P (.sessions i) clk rnd ⟨some udpConn, some sender⟩ data).2 ↔
        Spared P (.sessions i) clk data f) ∧
    (∀ past n, Node.Reaches P past n → ∀ clk rnd data,
      ¬ Expected .node (byteAt data pqcHdrMsgType) →
      (Harmless P clk data n.fsm
          (n.fsm.hsFsmHandleFragment P .localSession clk rnd n.sendCtx data).2 ↔
        Spared P .localSession clk data n.fsm)) := by
  refine ⟨?_, ?_⟩
  · intro past r hr i s hrole clk rnd sender data hu f
    exact harmless_iff (f := f) (hrole ▸ hu) hr.wellFormed hr.table.1.slots.idle udpConn sender
  · intro past n hn clk rnd data hu
    have hrole : n.fsm.s.role = .node := (Node.Reaches.sound hn).1.role
    exact harmless_iff (hrole ▸ hu) hn.orderly.tx hn.orderly.slots.idle udpConn n.destAddress

/-- A single fragment of an unknown type is taken in and given back at once. -/
theorem unexpected_fragments_single :
    let f : Fsm := ⟨Session.sessionInit .root 1, (Root.boot Platform.demo 0).hs, pqcTxInit, []⟩
    let data := pqcHeaderWrite 9 1 0 0 1 0 pqcFlagNone
    Harmless Platform.demo (fun _ => 0) data f (f.hsFsmHandleFragment Platform.demo (.sessions 0)
      (fun _ => 0) 0 ⟨some udpConn, some 7⟩ data).2 := by
  intro f data
  have hr : Root.Reaches Platform.demo [] (Root.boot Platform.demo 0) := .start ⟨0, rfl⟩
  have hspared : Spared Platform.demo (.sessions 0) (fun _ => 0) data f := by
    intro h hp _
    obtain rfl := Option.some.inj hp
    exact Or.inl rfl
  exact ((unexpected_fragments Platform.demo).1 _ _ hr 0 (Session.sessionInit .root 1) rfl
    (fun _ => 0) 0 7 data (by unfold Expected; decide)).mpr hspared

/-- The first of two such fragments keeps a slot that was free. -/
theorem unexpected_fragment_takes_slot :
    let r := Root.boot Platform.demo 0
    let f : Fsm := ⟨Session.sessionInit .root 1, r.hs, r.tx, r.obs⟩
    let data := pqcHeaderWrite 9 1 0 0 2 0 pqcFlagNone
    let f' := (f.hsFsmHandleFragment Platform.demo (.sessions 0) (fun _ => 0) 0
      ⟨some udpConn, some 7⟩ data).2
    Root.Reaches Platform.demo [] r ∧ ¬ Expected .root (byteAt data pqcHdrMsgType) ∧
      (f.hs.rxSlots 0).active = false ∧ (f'.hs.rxSlots 0).active = true ∧
      ¬ Harmless Platform.demo (fun _ => 0) data f f' := by
  have htaken : ((Fsm.hsFsmHandleFragment Platform.demo (.sessions 0) (fun _ => 0) 0
      ⟨some udpConn, some 7⟩ (pqcHeaderWrite 9 1 0 0 2 0 pqcFlagNone)
      ⟨Session.sessionInit .root 1, (Root.boot Platform.demo 0).hs, (Root.boot Platform.demo 0).tx,
        (Root.boot Platform.demo 0).obs⟩).2.hs.rxSlots 0).active = true := by decide
  refine ⟨.start ⟨0, rfl⟩, by unfold Expected; decide, rfl, htaken, ?_⟩
  intro hharm
  rcases hharm.slots with ⟨-, hs⟩ | ⟨-, hs⟩
  · rw [hs] at htaken
    cases htaken
  · rw [hs] at htaken
    cases htaken

end PqcContiki
