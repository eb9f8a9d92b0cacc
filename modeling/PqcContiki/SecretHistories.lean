import PqcContiki.Scripts
import PqcContiki.TempChannel

/-!
The secrets of one root. Its key pair never changes and nothing in a handshake is new on its
side, so a new secret can only come from a new ciphertext.
-/
namespace PqcContiki

open TxQueue Relation Runs

/-- The first fragments of the two agree. -/
def SameStart (ct ct' : Ciphertext) : Prop :=
  ∀ k : Fin cwHqcCiphertextLen, k.val < 64 → ct.get k = ct'.get k

theorem Pieced.start {D : Directory} {ct : Ciphertext} (hp : Pieced D ct) :
    ∃ msgId ct', D msgId ct' ∧ SameStart ct ct' := by
  obtain ⟨msgId, hp⟩ := hp
  obtain ⟨ct', hct', hbytes⟩ := hp 0 (by omega)
  refine ⟨msgId, ct', hct', ?_⟩
  intro k hk
  exact hbytes k (Nat.div_eq_of_lt hk)

/-- What is assumed of SHAKE256 and AES: a packet sealed under `ss` with one of the first `n`
counters does not show, under another secret `ss'`, a counter it is tried with. -/
def Platform.NoCrossMatch (P : Platform) (ss ss' : SharedSecret) (n : ℕ) : Prop :=
  ss' ≠ ss → ∀ (payload : TempPayload) (trial : UInt32), payload.counter.toNat < n →
    trial.toNat < n + pqcTempRxCounterWindow →
    (TempPayload.ofBytes (P.cryptoWorkerAesCtrXcrypt (P.cryptoWorkerDeriveAesKey ss')
      (P.cryptoWorkerDeriveAesIv ss' trial)
      (P.cryptoWorkerAesCtrXcrypt (P.cryptoWorkerDeriveAesKey ss)
        (P.cryptoWorkerDeriveAesIv ss payload.counter) payload.bytes))).counter ≠ trial

/-- A session with another secret refuses the packet. -/
theorem Platform.NoCrossMatch.refuses {P : Platform} {s s' : Session} {n : ℕ}
    (hno : P.NoCrossMatch s.ss s'.ss n) (hne : s'.ss ≠ s.ss)
    (hkey : s.aesKey = P.cryptoWorkerDeriveAesKey s.ss)
    (hkey' : s'.aesKey = P.cryptoWorkerDeriveAesKey s'.ss) (hn : s.txCounter.toNat < n)
    (hn' : s'.rxCounter.toNat ≤ n) (measurement out : TempPayload) :
    (pqcHandleEncryptedTemp P (tempPacket P s measurement) out s').1 = false := by
  rcases TempHistory.handle_cases P (tempPacket P s measurement) out s' with
    ⟨f, hres⟩ | ⟨offset, f, hlt, hshow, -⟩
  · rw [hres]
  · exfalso
    refine hno hne { measurement with counter := s.txCounter }
      (s'.rxCounter + UInt32.ofNat offset) hn ?_ ?_
    · have hadd : (s'.rxCounter + UInt32.ofNat offset).toNat ≤ s'.rxCounter.toNat + offset := by
        rw [UInt32.toNat_add, UInt32.toNat_ofNat']
        omega
      omega
    · rw [trialPayload, tempPacket_sealed, tempXcrypt, tempXcrypt, hkey, hkey'] at hshow
      exact hshow

namespace Root

variable {P : Platform} {rnd : Entropy} {data : Option Bytes} {r r' r'' : Root} {id : UInt16}
  {D : Directory} {j : Fin sessionMaxNodes} {old new : List Ciphertext}

/-- The ciphertexts of node `id` that the root opened to one and the same secret start alike. -/
def Binds (id : UInt16) (r : Root) : Prop :=
  ∀ x ∈ successes id r.obs, ∀ y ∈ successes id r.obs, x.2 = y.2 → SameStart x.1 y.1

/-- The root opens more and more, and agrees with node `id` again only by opening something. -/
structure Advances (id : UInt16) (r r' : Root) : Prop where
  suffix : successes id r.obs <:+ successes id r'.obs
  opens : (∃ j, Established id r' j) → (∀ j, ¬ Established id r j) →
    (successes id r.obs).length < (successes id r'.obs).length

theorem Advances.refl (r : Root) : Advances id r r :=
  ⟨List.suffix_rfl, fun ⟨j, hj⟩ hno => absurd hj (hno j)⟩

theorem Advances.trans (h : Advances id r r') (h' : Advances id r' r'') : Advances id r r'' := by
  refine ⟨h.suffix.trans h'.suffix, ?_⟩
  intro hest hno
  by_cases hmid : ∃ j, Established id r' j
  · exact (h.opens hmid hno).trans_le h'.suffix.length_le
  · push Not at hmid
    exact h.suffix.length_le.trans_lt (h'.opens hest hmid)

theorem advances_act (hs : Sound r) (hg : Gathers id D r)
    (hd : ∀ d, data = some d → CarriesCt id D d) (ha : Act P rnd data r r') : Advances id r r' := by
  rcases agreement_act hs hg hd ha with ⟨hobs, hkept, -⟩ | ⟨-, -, -, -, -, -, -, hobs, -, -, -, -⟩
  · refine ⟨by rw [hobs], ?_⟩
    rintro ⟨j, hj⟩ hno
    exact absurd (hkept j hj).1 (hno j)
  · refine ⟨by rw [hobs]; exact List.suffix_cons .., ?_⟩
    intro _ _
    simp [hobs]

theorem advances_acts (hs : Sound r) (hg : Gathers id D r)
    (hd : ∀ d, data = some d → CarriesCt id D d) (ha : Acts P rnd data r r') :
    Advances id r r' := by
  have hall : Sound r' ∧ Gathers id D r' ∧ Advances id r r' := by
    induction ha with
    | refl => exact ⟨hs, hg, Advances.refl r⟩
    | tail _ hlast ih =>
      obtain ⟨hs', hg', hadv⟩ := ih
      exact ⟨sound_act hs' hlast, gathers_act hg' hlast hd,
        hadv.trans (advances_act hs' hg' hd hlast)⟩
  exact hall.2.2

theorem Binds.of_suffix (h : Binds id r') (hsuffix : successes id r.obs <:+ successes id r'.obs) :
    Binds id r :=
  fun x hx y hy hss => h x (hsuffix.subset hx) y (hsuffix.subset hy) hss

/-- What the root opened for node `id`: ciphertexts that start like one in `old`, and, while there
is an agreement with the node, ones that start like one in `new`. -/
structure Distinct (P : Platform) (id : UInt16) (old new : List Ciphertext) (r : Root) : Prop where
  starts : ∀ x ∈ successes id r.obs, (∃ ct ∈ old, SameStart x.1 ct) ∨
    ((∃ ct ∈ new, SameStart x.1 ct) ∧ ∃ j, Established id r j)
  nodup : ((successes id r.obs).map Prod.snd).Nodup
  current : ∀ j, Established id r j →
    ((successes id r.obs).map Prod.snd).head? = some (r.sessions j).ss ∧
      (r.sessions j).aesKey = P.cryptoWorkerDeriveAesKey (r.sessions j).ss

theorem Distinct.mono {old' new' : List Ciphertext} (h : Distinct P id old new r)
    (hold : ∀ ct ∈ old, ct ∈ old')
    (hnew : (∃ j, Established id r j) → ∀ ct ∈ new, ct ∈ new' ∨ ct ∈ old') :
    Distinct P id old' new' r where
  starts := by
    intro x hx
    rcases h.starts x hx with ⟨ct, hct, hstart⟩ | ⟨⟨ct, hct, hstart⟩, hest⟩
    · exact Or.inl ⟨ct, hold ct hct, hstart⟩
    · rcases hnew hest ct hct with hct | hct
      · exact Or.inr ⟨⟨ct, hct, hstart⟩, hest⟩
      · exact Or.inl ⟨ct, hct, hstart⟩
  nodup := h.nodup
  current := h.current

theorem distinct_boot : Distinct P id old new (boot P rnd) := by
  have hboot : (boot P rnd).obs = [] ∧ (boot P rnd).sessions = fun _ => Session.zero := by
    unfold boot
    dsimp only
    split <;> exact ⟨rfl, rfl⟩
  refine ⟨?_, ?_, ?_⟩
  · simp [hboot.1, successes]
  · simp [hboot.1, successes]
  · intro j hj
    have hused := hj.used
    rw [hboot.2] at hused
    cases hused

/-- Acts on a packet keep the secrets apart, provided that a request for the key finds nothing new
and that what is new starts unlike what is old. -/
theorem distinct_act (hbind : Binds id r') (hs : Sound r) (ht : Table r) (hg : Gathers id D r)
    (h : Distinct P id old new r) (hd : ∀ d, data = some d → CarriesCt id D d)
    (hasks : (∃ d, data = some d ∧ IsKind pqcMsgGetpk id d) → new = [])
    (hnew : (∀ d, data = some d → ¬ IsKind pqcMsgGetpk id d) → ∀ msgId ct, D msgId ct → ct ∈ new)
    (hapart : ∀ ct ∈ old, ∀ ct' ∈ new, ¬ SameStart ct' ct) (ha : Act P rnd data r r') :
    Distinct P id old new r' := by
  rcases agreement_act hs hg hd ha with ⟨hobs, hkept, hback⟩ |
    ⟨hdata, hkind, hused, hname, hwait, hpieced, hdec, hobs, hest, hss, hkey, hothers⟩
  · refine ⟨?_, ?_, ?_⟩
    · rw [hobs]
      intro x hx
      rcases h.starts x hx with hold | ⟨⟨ct, hct, hstart⟩, j, hj⟩
      · exact Or.inl hold
      · by_cases hask : ∃ d, data = some d ∧ IsKind pqcMsgGetpk id d
        · rw [hasks hask] at hct
          cases hct
        · push Not at hask
          exact Or.inr ⟨⟨ct, hct, hstart⟩, j, (hback hask j hj).1⟩
    · rw [hobs]
      exact h.nodup
    · intro j hj
      obtain ⟨hj₀, hss, hkey⟩ := hkept j hj
      rw [hobs, hss, hkey]
      exact h.current j hj₀
  · rename_i j ct ss d
    have hopen : ∀ k, ¬ Established id r k := by
      intro k hk
      obtain rfl := ht.unique k j hk.used hused (hk.nodeId.trans hname.symm)
      cases hwait.symm.trans hk.state
    have hold : ∀ x ∈ successes id r.obs, ∃ ct ∈ old, SameStart x.1 ct := by
      intro x hx
      rcases h.starts x hx with hstart | ⟨-, k, hk⟩
      · exact hstart
      · exact absurd hk (hopen k)
    have hquiet : ∀ d, data = some d → ¬ IsKind pqcMsgGetpk id d := by
      rintro d' hd' ⟨htype, -⟩
      obtain rfl := Option.some.inj (hdata.symm.trans hd')
      exact absurd (hkind.1.symm.trans htype) (by decide)
    obtain ⟨msgId, ct', hct', hstart⟩ := hpieced.start
    have hmem := hnew hquiet msgId ct' hct'
    have hfresh : ss ∉ (successes id r.obs).map Prod.snd := by
      intro hss
      obtain ⟨x, hx, rfl⟩ := List.mem_map.mp hss
      obtain ⟨ct₀, hct₀, hstart₀⟩ := hold x hx
      have hsame : SameStart x.1 ct :=
        hbind x (hobs ▸ List.mem_cons_of_mem _ hx) (ct, x.2) (hobs ▸ List.mem_cons_self ..) rfl
      exact hapart ct₀ hct₀ ct' hmem fun k hk =>
        (hstart k hk).symm.trans ((hsame k hk).symm.trans (hstart₀ k hk))
    refine ⟨?_, ?_, ?_⟩
    · rw [hobs]
      intro x hx
      rcases List.mem_cons.mp hx with rfl | hx
      · exact Or.inr ⟨⟨ct', hmem, hstart⟩, j, hest⟩
      · exact Or.inl (hold x hx)
    · rw [hobs]
      exact List.nodup_cons.mpr ⟨hfresh, h.nodup⟩
    · intro k hk
      have hkj : k = j := by
        by_contra hne
        have hsame := hothers k hne
        exact hopen k ⟨hsame ▸ hk.used, hsame ▸ hk.nodeId, hsame ▸ hk.state⟩
      subst k
      rw [hobs, hkey, hss]
      exact ⟨rfl, rfl⟩

/-- All that stays true of the root through the acts of one event. -/
theorem distinct_acts (hbind : Binds id r') (hs : Sound r) (ht : Table r) (hg : Gathers id D r)
    (h : Distinct P id old new r) (hd : ∀ d, data = some d → CarriesCt id D d)
    (hasks : (∃ d, data = some d ∧ IsKind pqcMsgGetpk id d) → new = [])
    (hnew : (∀ d, data = some d → ¬ IsKind pqcMsgGetpk id d) → ∀ msgId ct, D msgId ct → ct ∈ new)
    (hapart : ∀ ct ∈ old, ∀ ct' ∈ new, ¬ SameStart ct' ct) (ha : Acts P rnd data r r') :
    Distinct P id old new r' := by
  have hall : Sound r' ∧ Table r' ∧ Gathers id D r' ∧ (Binds id r' → Distinct P id old new r') := by
    clear hbind
    induction ha with
    | refl => exact ⟨hs, ht, hg, fun _ => h⟩
    | tail _ hlast ih =>
      obtain ⟨hs', ht', hg', h'⟩ := ih
      refine ⟨sound_act hs' hlast, table_act ht' hlast, gathers_act hg' hlast hd, ?_⟩
      intro hbind
      have hearlier := h' (hbind.of_suffix (advances_act hs' hg' hd hlast).suffix)
      exact distinct_act hbind hs' ht' hg' hearlier hd hasks hnew hapart hlast
  exact hall.2.2.2 hbind

end Root

end PqcContiki
