import PqcContiki.NodeTraffic

/-! What the root puts into its queue and slots, given what it hears. -/
namespace PqcContiki

open TxQueue Relation

variable {P : Platform} {me : SessionRef} {rnd : Entropy} {data : Option Bytes}
  {h : FragmentHeader} {payload : Bytes} {f f' : Fsm} {p : Bytes} {id : UInt16}

/-- Each fragment of the bytes is that of a ciphertext out under one and the same message id. -/
def Pieced (D : Directory) (ct : Ciphertext) : Prop :=
  ∃ msgId, ∀ i < 71, ∃ ct', D msgId ct' ∧
    ∀ k : Fin cwHqcCiphertextLen, k.val / 64 = i → ct.get k = ct'.get k

theorem Buffer.getD_toList {n : ℕ} (buf : Buffer n) (k : Fin n) :
    buf.toList.getD k 0 = buf.get k := by
  simp [Buffer.toList]

theorem pieced_of_patchwork {D : Directory} {msgId : UInt8} {ctx : FragmentRxCtx}
    (hp : Patchwork (ctSource D msgId) 71 ctx) (hc : fragmentRxComplete ctx = true) :
    Pieced D (rxArray _ ctx) := by
  refine ⟨msgId, ?_⟩
  intro i hi
  obtain ⟨m, ⟨ct, hct, rfl⟩, hpiece⟩ := hp.piece_of_complete hc hi
  refine ⟨ct, hct, ?_⟩
  intro k hk
  have hlen := (ctMessage ct).payload_length i
  have hdata : (ctMessage ct).data.length = cwHqcCiphertextLen := Buffer.length_toList _
  have hlt := k.isLt
  have hbyte := hpiece k (by omega) (by omega)
  exact hbyte.trans (ct.getD_toList k)

/-- If only one ciphertext is out under each message id, the bytes are one of them. -/
theorem Pieced.eq {D : Directory} {ct : Ciphertext} (hp : Pieced D ct)
    (hone : ∀ msgId ct ct', D msgId ct → D msgId ct' → ct = ct') : ∃ msgId, D msgId ct := by
  obtain ⟨msgId, hp⟩ := hp
  obtain ⟨ct₀, hct₀, -⟩ := hp 0 (by omega)
  refine ⟨msgId, ?_⟩
  have heq : ct = ct₀ := by
    ext k
    have hlt : k.val < 4481 := k.isLt
    obtain ⟨ct', hct', hbytes⟩ := hp (k / 64) (by omega)
    rw [hbytes k rfl, hone msgId ct' ct₀ hct' hct₀]
  rwa [heq]

theorem Finishes.pieced {D : Directory} {slots slots' : Slots} {ctx : FragmentRxCtx}
    (hf : Finishes me h payload slots ctx slots') (ha : Assigned (fun _ => CollectsCt id D) slots)
    (hs : Storable (fun _ => CollectsCt id D) me h payload) (hid : h.nodeId = id)
    (htype : h.msgType = pqcMsgCt) : Pieced D (rxArray _ ctx) := by
  obtain ⟨hpatch, hcomplete⟩ := hf.patchwork ha hs hid htype
  exact pieced_of_patchwork hpatch hcomplete

namespace Root

variable {r r' : Root} {D : Directory}

/-- What the root's slots hold of node `id` belongs to the directory. -/
abbrev Gathers (id : UInt16) (D : Directory) (r : Root) : Prop :=
  Assigned (fun _ => CollectsCt id D) r.hs.rxSlots

theorem sent_holds {φ : Bytes → Prop} (hq : r.tx.Holds φ) (e : Event) : ∀ p ∈ r.sent e, φ p := by
  cases e with
  | transmit =>
    intro p hp
    simp only [sent, txTick, Option.mem_toList, Option.map_eq_some_iff] at hp
    obtain ⟨d, hd, rfl⟩ := hp
    exact hq.process.2 d hd
  | receive _ _ _ _ | retry _ =>
    intro p hp
    cases hp

theorem storable_heard {d : Bytes} (hd : CarriesCt id D d) (hparse : parseFragmentHeader d = some h)
    (me : SessionRef) : Storable (fun _ => CollectsCt id D) me h (h.payload d) :=
  storable_collects (fun _ _ hm => ctSource_count hm) hd hparse me

theorem gathers_act (hg : Gathers id D r) (ha : Act P rnd data r r')
    (hd : ∀ d, data = some d → CarriesCt id D d) : Gathers id D r' :=
  slots_act hg ha fun _ _ d he hparse _ _ => storable_heard (hd d he) hparse _

/-- The root decapsulates nothing for node `id` but what is pieced together from the directory. -/
theorem decapsulate_act (hg : Gathers id D r) (ha : Act P rnd data r r')
    (hd : ∀ d, data = some d → CarriesCt id D d) {ct : Ciphertext} {ok : Bool} {ss : SharedSecret}
    (hmem : .decapsulate id ct ok ss ∈ r'.obs) :
    .decapsulate id ct ok ss ∈ r.obs ∨ Pieced D ct := by
  cases ha with
  | touch hal => exact Or.inl (hal.obs ▸ hmem)
  | create _ _ _ | reset _ _ | ctStart _ _ _ | transmit | collect _ => exact Or.inl hmem
  | start _ _ _ hst =>
    rw [putFsm_obs, hst.obs] at hmem
    exact Or.inl hmem
  | @fragment i hdr d f he hparse hu hid hh =>
    cases hh with
    | incomplete hi => cases hi <;> exact Or.inl hmem
    | confirmed _ _ _ _ _ hack =>
      rcases hack with ⟨-, rfl⟩ | ⟨-, rfl⟩
      · exact Or.inl hmem
      · simp only [putFsm_obs, List.mem_cons, reduceCtorEq, false_or] at hmem
        exact Or.inl hmem
    | ct _ _ htype hf hc =>
      have hpieced : (r.sessions i).nodeId = id → Pieced D (rxArray _ _) := fun hname =>
        hf.pieced hg (storable_heard (hd d he) hparse _) (hid.symm.trans hname) htype
      have hnew : ∀ (ok' : Bool) (ss' : SharedSecret) (ctx : FragmentRxCtx),
          ((r.sessions i).nodeId = id → Pieced D (rxArray _ ctx)) →
          .decapsulate id ct ok ss ∈ (.decapsulate (r.sessions i).nodeId (rxArray _ ctx) ok' ss' ::
            r.obs) → .decapsulate id ct ok ss ∈ r.obs ∨ Pieced D ct := by
        intro ok' ss' ctx hp hmem
        rcases List.mem_cons.mp hmem with heq | hmem
        · injection heq with hname hct
          rw [hct]
          exact Or.inr (hp hname.symm)
        · exact Or.inl hmem
      cases hc with
      | rejected _ _ => exact Or.inl hmem
      | failed _ _ _ => exact hnew _ _ _ hpieced hmem
      | established _ _ _ _ hack =>
        rcases hack with ⟨-, rfl⟩ | ⟨-, rfl⟩
        · exact hnew _ _ _ hpieced hmem
        · simp only [putFsm_obs, List.mem_cons, reduceCtorEq, false_or] at hmem
          exact hnew _ _ _ hpieced (List.mem_cons.mpr hmem)
    | pk _ _ _ _ hc =>
      cases hc with
      | rejected _ _ => exact Or.inl hmem
      | failed _ _ _ _ | sent _ _ _ _ =>
        simp only [putFsm_obs, List.mem_cons, reduceCtorEq, false_or] at hmem
        exact Or.inl hmem
    | ack _ _ _ _ _ _ _ => exact Or.inl hmem
  | retry _ hr =>
    cases hr with
    | stray _ _ _ =>
      simp only [putFsm_obs, List.mem_cons, reduceCtorEq, false_or] at hmem
      exact Or.inl hmem
    | waited _ _ | failed _ _ _ _ _ | asked _ _ _ _ _ _ | resent _ _ _ _ => exact Or.inl hmem

theorem gathers_acts (hg : Gathers id D r) (ha : Acts P rnd data r r')
    (hd : ∀ d, data = some d → CarriesCt id D d) :
    Gathers id D r' ∧ ∀ ct ok ss, .decapsulate id ct ok ss ∈ r'.obs →
      .decapsulate id ct ok ss ∈ r.obs ∨ Pieced D ct := by
  induction ha with
  | refl => exact ⟨hg, fun _ _ _ => Or.inl⟩
  | tail _ hlast ih =>
    obtain ⟨hg', hobs⟩ := ih
    refine ⟨gathers_act hg' hlast hd, ?_⟩
    intro ct ok ss hmem
    rcases decapsulate_act hg' hlast hd hmem with hmem | hp
    · exact hobs ct ok ss hmem
    · exact Or.inr hp

end Root

end PqcContiki
