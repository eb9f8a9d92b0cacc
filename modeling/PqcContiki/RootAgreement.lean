import PqcContiki.SecretLifetimes
import PqcContiki.Traffic

/-!
How the root comes to agree on keys with a node: each act leaves its established sessions as they
are, or establishes one by decapsulating what it has put together.
-/
namespace PqcContiki

open TxQueue Relation

/-- The ciphertext and the secret of every successful decapsulation for node `id`, newest first. -/
def successes (id : UInt16) (obs : List Observation) : List (Ciphertext × SharedSecret) :=
  obs.filterMap fun
    | .decapsulate nodeId ct true ss => if nodeId = id then some (ct, ss) else none
    | _ => none

section Successes

variable {id nodeId : UInt16} {obs obs' : List Observation} {ct : Ciphertext} {ss : SharedSecret}

theorem successes_failed : successes id
    (.decapsulate nodeId ct false ss :: obs) = successes id obs :=
  rfl

theorem successes_other (hne : nodeId ≠ id) :
    successes id (.decapsulate nodeId ct true ss :: obs) = successes id obs := by
  simp [successes, hne]

theorem successes_own :
    successes id (.decapsulate id ct true ss :: obs) = (ct, ss) :: successes id obs := by
  simp [successes]

/-- Acknowledgements do not count. -/
theorem AckSent.successes {msgId confirmedMsgId : UInt8} {tx tx' : TxQueue}
    (ha : AckSent nodeId msgId confirmedMsgId ss tx tx' obs obs') :
    successes id obs' = PqcContiki.successes id obs := by
  rcases ha with ⟨-, rfl⟩ | ⟨-, rfl⟩ <;> rfl

theorem mem_successes (hmem : (ct, ss) ∈ successes id obs) : .decapsulate id ct true ss ∈ obs := by
  simp only [successes, List.mem_filterMap] at hmem
  obtain ⟨o, ho, hsome⟩ := hmem
  split at hsome
  · split at hsome
    · rename_i heq
      obtain ⟨rfl, rfl⟩ := Prod.mk.inj (Option.some.inj hsome)
      exact heq ▸ ho
    · cases hsome
  · cases hsome

theorem secret_mem (hmem : .decapsulate id ct true ss ∈ obs) :
    ss ∈ (successes id obs).map Prod.snd := by
  refine List.mem_map.mpr ⟨(ct, ss), ?_, rfl⟩
  simp only [successes, List.mem_filterMap]
  exact ⟨_, hmem, if_pos rfl⟩

end Successes

namespace Root

variable {P : Platform} {rnd : Entropy} {data : Option Bytes} {r r' : Root} {id : UInt16}
  {D : Directory} {i j : Fin sessionMaxNodes} {f : Fsm}

/-- Session `j` is the root's end of an agreement with node `id`. -/
structure Established (id : UInt16) (r : Root) (j : Fin sessionMaxNodes) : Prop where
  used : (r.sessions j).used = true
  nodeId : (r.sessions j).nodeId = id
  state : (r.sessions j).state = .established

/-- Every agreement of `r'` is one of `r`, on the same keys. -/
def Inherits (id : UInt16) (r r' : Root) : Prop :=
  ∀ j, Established id r' j → Established id r j ∧ (r'.sessions j).ss = (r.sessions j).ss ∧
    (r'.sessions j).aesKey = (r.sessions j).aesKey

/-- What an act does to the agreements with node `id`. -/
inductive Agreement (P : Platform) (data : Option Bytes) (id : UInt16) (D : Directory)
    (r r' : Root) : Prop
  | kept : successes id r'.obs = successes id r.obs → Inherits id r r' →
      ((∀ d, data = some d → ¬ IsKind pqcMsgGetpk id d) → Inherits id r' r) →
      Agreement P data id D r r'
  | gained {j : Fin sessionMaxNodes} {ct : Ciphertext} {ss : SharedSecret} {d : Bytes} :
      data = some d → IsKind pqcMsgCt id d → (r.sessions j).used = true →
      (r.sessions j).nodeId = id → (r.sessions j).state = .waitCt → Pieced D ct →
      P.cryptoWorkerDecapsulate r.hs.rootSk ct = (true, ss) →
      successes id r'.obs = (ct, ss) :: successes id r.obs → Established id r' j →
      (r'.sessions j).ss = ss → (r'.sessions j).aesKey = P.cryptoWorkerDeriveAesKey ss →
      (∀ k, k ≠ j → r'.sessions k = r.sessions k) → Agreement P data id D r r'

/-- The part of a session that an agreement consists of. -/
def SameAgreement (s s' : Session) : Prop :=
  s'.used = s.used ∧ s'.nodeId = s.nodeId ∧ s'.state = s.state ∧ s'.ss = s.ss ∧
    s'.aesKey = s.aesKey

theorem SameAgreement.refl (s : Session) : SameAgreement s s := ⟨rfl, rfl, rfl, rfl, rfl⟩

theorem sameAgreement_of_core {s s' : Session} {c : SessionCore} (hc : s'.core = c)
    (hid : c.identity = s.core.identity) (hstate : c.state = s.state) (hss : c.ss = s.ss)
    (hkey : c.aesKey = s.aesKey) : SameAgreement s s' := by
  subst hc
  exact ⟨congrArg Prod.fst hid, congrArg (fun x => x.2.1) hid, hstate, hss, hkey⟩

theorem sameAgreement_of_skips {s s' : Session} (hs : Skips s s') : SameAgreement s s' := by
  obtain ⟨n, hn⟩ := hs
  exact sameAgreement_of_core hn rfl rfl rfl rfl

/-- No agreement with node `id`. -/
def Unsettled (id : UInt16) (s : Session) : Prop :=
  s.used = true → s.nodeId = id → s.state ≠ .established

theorem unsettled_of_core {s : Session} {c : SessionCore} (hc : s.core = c)
    (hstate : c.state ≠ .established) : Unsettled id s := by
  subst hc
  intro _ _
  exact hstate

theorem unsettled_of_waitCt {s : Session} (hwait : s.state = .waitCt) : Unsettled id s := by
  intro _ _ hest
  cases hwait.symm.trans hest

theorem inherits_of_same
    (h : ∀ j, SameAgreement (r.sessions j) (r'.sessions j) ∨
      Unsettled id (r.sessions j) ∧ Unsettled id (r'.sessions j)) :
    Inherits id r r' ∧ Inherits id r' r := by
  constructor
  · intro j hest
    rcases h j with ⟨hused, hnode, hstate, hss, hkey⟩ | ⟨-, hne⟩
    · exact ⟨⟨hused.symm.trans hest.used, hnode.symm.trans hest.nodeId,
        hstate.symm.trans hest.state⟩, hss, hkey⟩
    · exact absurd hest.state (hne hest.used hest.nodeId)
  · intro j hest
    rcases h j with ⟨hused, hnode, hstate, hss, hkey⟩ | ⟨hne, -⟩
    · exact ⟨⟨hused.trans hest.used, hnode.trans hest.nodeId, hstate.trans hest.state⟩, hss.symm,
        hkey.symm⟩
    · exact absurd hest.state (hne hest.used hest.nodeId)

theorem agreement_of_same (hobs : successes id r'.obs = successes id r.obs)
    (h : ∀ j, SameAgreement (r.sessions j) (r'.sessions j) ∨
      Unsettled id (r.sessions j) ∧ Unsettled id (r'.sessions j)) : Agreement P data id D r r' :=
  .kept hobs (inherits_of_same h).1 fun _ => (inherits_of_same h).2

/-- An act on session `i` that neither makes nor ends an agreement with node `id`. -/
theorem agreement_of_update {s : Session}
    (hobs : successes id r'.obs = successes id r.obs)
    (hsessions : r'.sessions = Function.update r.sessions i s)
    (hs : SameAgreement (r.sessions i) s ∨ Unsettled id (r.sessions i) ∧ Unsettled id s) :
    Agreement P data id D r r' := by
  apply agreement_of_same hobs
  intro j
  rw [hsessions]
  by_cases hj : j = i
  · subst j
    simpa using hs
  · rw [Function.update_of_ne hj]
    exact Or.inl ⟨rfl, rfl, rfl, rfl, rfl⟩

/-- A fragment of a ciphertext may establish the session it is for; nothing else does. -/
theorem agreement_fragment {h : FragmentHeader} {d : Bytes} (hs : Sound r) (hg : Gathers id D r)
    (hd : CarriesCt id D d) (hparse : parseFragmentHeader d = some h)
    (hu : (r.sessions i).used = true) (hid : (r.sessions i).nodeId = h.nodeId)
    (hh : Handled P (.sessions i) rnd h (h.payload d) (r.fsm i) f) :
    Agreement P (some d) id D r (r.putFsm i f) := by
  have hrole : (r.sessions i).role = .root := (hs.sessions i hu).1
  cases hh with
  | incomplete hi =>
    cases hi with
    | quiet hskip _ | stored hskip _ _ _ _ _ =>
      exact agreement_of_update rfl rfl (Or.inl (sameAgreement_of_skips hskip))
    | refused _ _ => exact agreement_of_update rfl rfl (Or.inl (SameAgreement.refl _))
    | resent hc _ _ =>
      exact agreement_of_update rfl rfl (Or.inl (sameAgreement_of_core hc rfl rfl rfl rfl))
  | confirmed _ _ _ hskip _ hack =>
    exact agreement_of_update hack.successes rfl (Or.inl (sameAgreement_of_skips hskip))
  | ct _ hwait htype hf hc =>
    have hopen : Unsettled id (r.sessions i) := unsettled_of_waitCt hwait
    cases hc with
    | rejected hc _ =>
      exact agreement_of_update rfl rfl (Or.inr ⟨hopen, unsettled_of_core hc (by simp)⟩)
    | failed _ _ hc =>
      exact agreement_of_update successes_failed rfl
        (Or.inr ⟨hopen, unsettled_of_core hc (by simp)⟩)
    | @established s ss tx obs _ _ hdec hc hack =>
      obtain ⟨n, hn⟩ := hc
      have hnode : s.nodeId = (r.sessions i).nodeId := congrArg SessionCore.nodeId hn
      by_cases hname : (r.sessions i).nodeId = id
      · have hkind : IsKind pqcMsgCt id d := by
          have hk := isKind_of_parse hparse
          exact ⟨hk.1.trans htype, hk.2.trans (hid.symm.trans hname)⟩
        have hused : s.used = (r.sessions i).used := congrArg SessionCore.used hn
        refine .gained rfl hkind hu hname hwait
          (hf.pieced hg (storable_heard hd hparse _) (hid.symm.trans hname) htype) hdec ?_
          (j := i) ⟨?_, ?_, ?_⟩ ?_ ?_ ?_
        · rw [putFsm_obs, hack.successes, fsm_s, hname]
          exact successes_own
        · simpa using hused.trans hu
        · simpa using hnode.trans hname
        · simpa using congrArg SessionCore.state hn
        · simpa using congrArg SessionCore.ss hn
        · simpa using congrArg SessionCore.aesKey hn
        · intro k hk
          simp [hk]
      · refine agreement_of_update ?_ rfl (Or.inr ⟨hopen, ?_⟩)
        · rw [putFsm_obs, hack.successes]
          exact successes_other hname
        · intro _ hown
          exact absurd (hnode.symm.trans hown) hname
  | pk hr _ _ _ _ | ack hr _ _ _ _ _ _ => cases hrole.symm.trans hr

theorem agreement_start {hs : HsStatics} (hst : Started hs (r.fsm i) f)
    (hidle : (r.sessions i).state = .idle) : Agreement P data id D r (r.putFsm i f) := by
  have hopen : Unsettled id (r.sessions i) := unsettled_of_core rfl (by simp [hidle])
  refine agreement_of_update (by rw [putFsm_obs, hst.obs, fsm_obs]) rfl (Or.inr ⟨hopen, ?_⟩)
  cases hst with
  | refused hc =>
    rcases hc with hc | hc
    · exact unsettled_of_core hc (by simp [hidle])
    · exact unsettled_of_core hc (by simp)
  | failed hc _ | sent hc _ => exact unsettled_of_core hc (by simp)

/-- A session that fails while it waits had no agreement yet. -/
theorem agreement_retry (hs : Sound r) (hu : (r.sessions i).used = true)
    (hr : Retried (r.fsm i) f) : Agreement P data id D r (r.putFsm i f) := by
  have hcoh : (r.sessions i).core.Coherent := (hs.sessions i hu).2
  cases hr with
  | waited hc _ =>
    exact agreement_of_update rfl rfl (Or.inl (sameAgreement_of_core hc rfl rfl rfl rfl))
  | failed hw hc _ _ _ =>
    have hopen : Unsettled id (r.sessions i) := by
      intro _ _ hest
      have hwait := hcoh.isWaiting hw
      simp [SessionCore.Awaits, hest] at hwait
    exact agreement_of_update rfl rfl (Or.inr ⟨hopen, unsettled_of_core hc (by simp)⟩)
  | asked _ hc _ _ _ _ =>
    exact agreement_of_update rfl rfl (Or.inl (sameAgreement_of_core hc rfl rfl rfl rfl))
  | resent _ hc _ _ =>
    rcases hc with hc | hc
    · exact agreement_of_update rfl rfl (Or.inl (sameAgreement_of_core hc rfl rfl rfl rfl))
    · exact agreement_of_update rfl rfl (Or.inl (sameAgreement_of_core hc rfl rfl rfl rfl))
  | stray _ _ _ => exact agreement_of_update rfl rfl (Or.inl (SameAgreement.refl _))

/-- A reset ends an agreement only if its node asks for the key. -/
theorem agreement_reset
    (hwhy : (r.sessions i).state = .failed ∨
      ∃ d, data = some d ∧ IsKind pqcMsgGetpk (r.sessions i).nodeId d) :
    Agreement P data id D r (r.dropAndReset i) := by
  have hfresh : Unsettled id (r.sessions i).sessionReset :=
    unsettled_of_core (Session.core_sessionReset _) (by simp)
  by_cases hopen : Unsettled id (r.sessions i)
  · exact agreement_of_update rfl rfl (Or.inr ⟨hopen, hfresh⟩)
  · simp only [Unsettled, not_forall, not_not] at hopen
    obtain ⟨-, hname, hest⟩ := hopen
    refine .kept rfl ?_ ?_
    · intro j hj
      by_cases hji : j = i
      · subst j
        have hidle := hj.state
        simp at hidle
      · have hsame : (r.dropAndReset i).sessions j = r.sessions j := by
          simp [dropAndReset, mapSession, hji]
        exact ⟨⟨hsame ▸ hj.used, hsame ▸ hj.nodeId, hsame ▸ hj.state⟩, by rw [hsame], by rw [hsame]⟩
    · intro hno
      rcases hwhy with hfailed | ⟨d, hdata, hkind⟩
      · cases hfailed.symm.trans hest
      · exact absurd (hname ▸ hkind) (hno d hdata)

theorem agreement_act (hs : Sound r) (hg : Gathers id D r)
    (hd : ∀ d, data = some d → CarriesCt id D d) (ha : Act P rnd data r r') :
    Agreement P data id D r r' := by
  cases ha with
  | touch hal =>
    exact agreement_of_same (by rw [hal.obs]) fun j =>
      Or.inl (sameAgreement_of_core (hal.cores j) rfl rfl rfl rfl)
  | create _ _ hfree =>
    refine agreement_of_update rfl rfl
      (Or.inr ⟨?_, unsettled_of_core (Session.core_sessionInit ..) (by simp)⟩)
    intro hu
    rw [hfree] at hu
    cases hu
  | reset _ hwhy => exact agreement_reset hwhy
  | start _ hidle _ hst => exact agreement_start hst hidle
  | ctStart _ hwait hc =>
    exact agreement_of_update rfl rfl
      (Or.inr ⟨unsettled_of_waitCt hwait, unsettled_of_core hc (by simp)⟩)
  | collect _ | transmit => exact agreement_of_same rfl fun _ => Or.inl (SameAgreement.refl _)
  | fragment he hparse hu hid hh =>
    subst he
    exact agreement_fragment hs hg (hd _ rfl) hparse hu hid hh
  | retry hu hr => exact agreement_retry hs hu hr

end Root

/-- The root's key pair and whether there is one. -/
def HsStatics.keypair (hs : HsStatics) : Bool × PublicKey × SecretKey :=
  (hs.rootHasKeypair, hs.rootPk, hs.rootSk)

section Keypair

variable {P : Platform} {me : SessionRef} {rnd : Entropy} {h : FragmentHeader} {payload : Bytes}
  {f f' : Fsm}

theorem Handled.keypair (hh : Handled P me rnd h payload f f') : f'.hs.keypair = f.hs.keypair := by
  cases hh with
  | incomplete hi => cases hi <;> rfl
  | confirmed _ _ _ _ _ _ | ack _ _ _ _ _ _ _ => rfl
  | ct _ _ _ _ hc => cases hc <;> rfl
  | pk _ _ _ _ hc => cases hc <;> rfl

theorem Retried.keypair (hr : Retried f f') : f'.hs.keypair = f.hs.keypair := by
  cases hr <;> rfl

end Keypair

namespace Root

variable {P : Platform} {rnd : Entropy} {data : Option Bytes} {r r' : Root}

/-- The key pair is one the generator made. -/
def Keyed (P : Platform) (r : Root) : Prop :=
  ∃ rnd, (P.cryptoKemKeypair rnd).1 = 0 ∧ r.hs.keypair = (true, (P.cryptoKemKeypair rnd).2)

theorem Keyed.rootHasKeypair (hk : Keyed P r) : r.hs.rootHasKeypair = true := by
  obtain ⟨rnd, -, hpair⟩ := hk
  exact congrArg Prod.fst hpair

theorem keyed_boot (hok : (P.cryptoKemKeypair rnd).1 = 0) : Keyed P (boot P rnd) := by
  refine ⟨rnd, hok, ?_⟩
  have hpair : (HsStatics.zero.hsFsmRootInitKeypair P rnd).2.keypair =
      (true, (P.cryptoKemKeypair rnd).2) := by
    simp [HsStatics.hsFsmRootInitKeypair, HsStatics.keypair, HsStatics.zero,
      Platform.cryptoWorkerKeypair, hok]
  unfold boot
  dsimp only
  split <;> exact hpair

/-- A root that has a key pair keeps it. -/
theorem keypair_act (hk : r.hs.rootHasKeypair = true) (ha : Act P rnd data r r') :
    r'.hs.keypair = r.hs.keypair := by
  cases ha with
  | touch hal => rw [hal.hs]
  | create _ _ _ | reset _ _ | ctStart _ _ _ | transmit | collect _ => rfl
  | start _ _ _ hst =>
    rw [putFsm_hs, hst.statics, HsStatics.hsFsmRootInitKeypair, if_pos (by exact hk)]
    rfl
  | fragment _ _ _ _ hh => exact hh.keypair
  | retry _ hr => exact hr.keypair

end Root

end PqcContiki
