import PqcContiki.ExpectedCounters

/-!
The root's rows of measurements: only a TEMP packet adds one, and they are what its session
accepted.
-/
namespace PqcContiki

open TxQueue Relation

namespace Root

variable {P : Platform} {clk : Clock} {rnd : Entropy} {r r' r'' r₀ r₁ r₂ : Root}
  {i j : Fin sessionMaxNodes} {nodeId id : UInt16} {csv csv' csv'' : List CsvRow} {row : CsvRow}
  {kinds : List CsvEvent} {sender : IpAddr} {dst : UdpSendCtx} {d : Bytes}

/-- A TEMP packet prints its measurement, or changes nothing about the agreements. -/
theorem handleTemp_cases (hs : Serves i nodeId r) (P : Platform) (d : Bytes) :
    ((∀ id, Carried id r (r.handleTemp P i d)) ∧ Unmeasured r.csv (r.handleTemp P i d).csv) ∨
    ∃ offset, offset < pqcTempRxCounterWindow ∧ TempAdmitted (r.sessions i) d ∧
      (trialPayload P (r.sessions i) d ((r.sessions i).rxCounter + UInt32.ofNat offset)).counter =
        (r.sessions i).rxCounter + UInt32.ofNat offset ∧
      (r.handleTemp P i d).csv = .temp nodeId (trialPayload P (r.sessions i) d
        ((r.sessions i).rxCounter + UInt32.ofNat offset)) :: r.csv ∧
      ((r.handleTemp P i d).sessions i).rxCounter =
        (r.sessions i).rxCounter + UInt32.ofNat offset + 1 := by
  have howners := work_owners (P := P) (.heardTemp i nodeId d hs)
  rcases TempHistory.handle_cases P d ⟨0, 0, 0⟩ (r.sessions i) with
    ⟨f, hno⟩ | ⟨offset, f, hoff, hshow, hyes⟩
  · left
    have hcsv : (r.handleTemp P i d).csv = .event nodeId .tempDecryptFail
        (byteAt d pqcHdrMsgId).toUInt32 (UInt32.ofNat d.length) 0 0 0 :: r.csv := by
      simp only [handleTemp, hno, Bool.false_eq_true, if_false, hs.nodeId]
      rfl
    have hsame (j : Fin sessionMaxNodes) :
        ((r.handleTemp P i d).sessions j).state = (r.sessions j).state ∧
          ((r.handleTemp P i d).sessions j).rxCounter = (r.sessions j).rxCounter := by
      rw [handleTemp_sessions, hno]
      by_cases hj : j = i
      · subst j
        simp
      · simp [Function.update_of_ne hj]
    refine ⟨fun id => carried_still ?_ (fun j _ => (hsame j).2) ?_, ?_⟩
    · intro j
      apply howners.established_iff
      rw [(hsame j).1]
    · rw [hcsv]
      exact Logs.row (by simp [CsvRow.IsReset])
    · rw [hcsv]
      exact Logs.row fun _ => rfl
  · right
    refine ⟨offset, hoff, ?_, hshow, ?_, ?_⟩
    · by_contra hadm
      rw [pqcHandleEncryptedTemp, if_pos hadm] at hyes
      cases congrArg Prod.fst hyes
    · simp only [handleTemp, hyes, if_true, hs.nodeId]
      rfl
    · rw [handleTemp_sessions, hyes, Function.update_self]
      rfl

theorem handleTemp_measures (hs : Serves i nodeId r) (P : Platform) (d : Bytes)
    (hrows : Unmeasured r.csv (r.handleTemp P i d).csv) (id : UInt16) :
    Carried id r (r.handleTemp P i d) := by
  rcases handleTemp_cases hs P d with ⟨h, -⟩ | ⟨offset, -, -, -, hcsv, -⟩
  · exact h id
  · rw [hcsv] at hrows
    obtain ⟨rows, heq, hnone⟩ := hrows
    have hone : [_] = rows := (List.append_left_inj r.csv).mp heq
    subst hone
    have hrow := hnone _ (List.mem_singleton_self _) nodeId
    simp [CsvRow.measurement] at hrow

theorem carried_turns (ht : Turns P r r') (hu : Unique r) (hrest : Rested r)
    (hrows : Unmeasured r.csv r'.csv) (id : UInt16) : Carried id r r' := by
  have hgrows {r r' : Root} (ht : Turn P r r') (hu : Unique r) (hrest : Rested r) :
      Logs (fun _ => True) r.csv r'.csv := by
    rcases carried_turn ht hu hrest with h | ⟨i, nodeId, d, hs, rfl⟩
    · exact (h id).grows
    · exact (handleTemp_plainly P i d r).mono fun _ _ => trivial
  have hall : Unique r' ∧ Rested r' ∧ Logs (fun _ => True) r.csv r'.csv ∧
      (Unmeasured r.csv r'.csv → Carried id r r') := by
    clear hrows
    induction ht with
    | refl => exact ⟨hu, hrest, Logs.refl _, fun _ => (Calm.refl r).carried id⟩
    | tail _ hlast ih =>
      obtain ⟨hu', hrest', hlogs, hcarried⟩ := ih
      have hlogs' := hgrows hlast hu' hrest'
      refine ⟨unique_turn hlast hu', rested_turn hlast hrest', hlogs.trans hlogs', ?_⟩
      intro hrows
      obtain ⟨hrows₁, hrows₂⟩ := Logs.parts hlogs hlogs' hrows
      refine (hcarried hrows₁).trans ?_
      rcases carried_turn hlast hu' hrest' with h | ⟨i, nodeId, d, hs, rfl⟩
      · exact h id
      · exact handleTemp_measures hs P d hrows₂ id
  exact hall.2.2.2 hrows

theorem since_unbroken (h : Unbroken id csv csv') :
    ∃ rows, csv' = rows ++ csv ∧ since id csv' = rows ++ since id csv := by
  obtain ⟨rows, rfl, hrows⟩ := h
  refine ⟨rows, rfl, ?_⟩
  apply List.takeWhile_append_of_pos
  intro row hrow
  simpa using hrows row hrow

theorem since_broken (hgrows : Logs (fun _ => True) csv csv') (h : ¬ Unbroken id csv csv') :
    ∃ rows, csv' = rows ++ csv ∧ since id csv' = since id rows := by
  obtain ⟨rows, rfl, -⟩ := hgrows
  refine ⟨rows, rfl, ?_⟩
  rw [since, List.takeWhile_append, if_neg]
  · rfl
  · intro hlen
    have hall := (List.takeWhile_sublist _).eq_of_length hlen
    refine h ⟨rows, rfl, ?_⟩
    intro row hrow
    simpa using List.takeWhile_eq_self_iff.mp hall row hrow

theorem temps_eq_nil {rows : List CsvRow} (h : ∀ row ∈ rows, ∀ id, row.measurement id = none)
    (id : UInt16) : temps id rows = [] := by
  apply List.filterMap_eq_nil_iff.mpr
  intro row hrow
  exact h row hrow id

/-- The measurements printed for node `id` are among those it sent, and since the last restart of
its session they came in the order of their counters, all below the one expected next. -/
structure Tallied (id : UInt16) (sent : List TempPayload) (r : Root) : Prop where
  genuine : ∀ t ∈ temps id r.csv, t ∈ sent
  increasing : (temps id (since id r.csv)).Pairwise fun t t' => t'.counter.toNat < t.counter.toNat
  below : ∀ j, Established id r j →
    ∀ t ∈ temps id (since id r.csv), t.counter.toNat < (r.sessions j).rxCounter.toNat
  unsettled : (∀ j, ¬ Established id r j) → temps id (since id r.csv) = []
  rxCounter : ∀ j, Established id r j → (r.sessions j).rxCounter.toNat ≤ sent.length

variable {sent sent' : List TempPayload} {ss : SharedSecret} {n : ℕ}

theorem Tallied.mono (h : Tallied id sent r) (hsub : sent <+: sent') : Tallied id sent' r where
  genuine := fun t ht => hsub.subset (h.genuine t ht)
  increasing := h.increasing
  below := h.below
  unsettled := h.unsettled
  rxCounter := fun j hj => (h.rxCounter j hj).trans hsub.length_le

theorem Tallied.carried (h : Tallied id sent r) (hc : Carried id r r')
    (hrows : Unmeasured r.csv r'.csv) : Tallied id sent r' := by
  have hrx : ∀ j, Established id r' j → (r'.sessions j).rxCounter.toNat ≤ sent.length := by
    intro j hj
    rcases hc.fresh j hj with ⟨-, hj₀, hrx⟩ | ⟨hrx, -⟩
    · rw [hrx]
      exact h.rxCounter j hj₀
    · simp [hrx]
  by_cases hall : Unbroken id r.csv r'.csv
  · obtain ⟨rows, hcsv, hsince⟩ := since_unbroken hall
    obtain ⟨rows', hcsv', hnone⟩ := hrows
    obtain rfl := (List.append_left_inj r.csv).mp (hcsv'.symm.trans hcsv)
    have htemps : temps id r'.csv = temps id r.csv := by
      rw [hcsv, temps, List.filterMap_append]
      exact (congrArg (· ++ _) (temps_eq_nil hnone id)).trans (List.nil_append _)
    have hlatest : temps id (since id r'.csv) = temps id (since id r.csv) := by
      rw [hsince, temps, List.filterMap_append]
      exact (congrArg (· ++ _) (temps_eq_nil hnone id)).trans (List.nil_append _)
    refine ⟨htemps ▸ h.genuine, hlatest ▸ h.increasing, ?_, ?_, hrx⟩
    · rw [hlatest]
      intro j hj t ht
      rcases hc.fresh j hj with ⟨-, hj₀, hrx⟩ | ⟨-, hnone⟩
      · rw [hrx]
        exact h.below j hj₀ t ht
      · rw [h.unsettled (hnone hall)] at ht
        cases ht
    · rw [hlatest]
      intro hno
      exact h.unsettled fun j hj => hno j (hc.kept hall j hj).1
  · obtain ⟨rows, hcsv, hsince⟩ := since_broken hc.grows hall
    obtain ⟨rows', hcsv', hnone⟩ := hrows
    obtain rfl := (List.append_left_inj r.csv).mp (hcsv'.symm.trans hcsv)
    have htemps : temps id r'.csv = temps id r.csv := by
      rw [hcsv, temps, List.filterMap_append]
      exact (congrArg (· ++ _) (temps_eq_nil hnone id)).trans (List.nil_append _)
    have hlatest : temps id (since id r'.csv) = [] := by
      rw [hsince]
      exact temps_eq_nil (fun row hrow => hnone row (List.takeWhile_subset _ hrow)) id
    refine ⟨htemps ▸ h.genuine, ?_, ?_, fun _ => hlatest, hrx⟩
    · rw [hlatest]
      exact List.Pairwise.nil
    · intro j _ t ht
      rw [hlatest] at ht
      cases ht

/-- A TEMP packet of node `id` carries a measurement it sent, under the secret `ss`. -/
def Genuine (P : Platform) (id : UInt16) (ss : SharedSecret) (sent : List TempPayload)
    (p : Bytes) : Prop :=
  byteAt p pqcHdrMsgType = pqcMsgTemp → pqcHeaderGetNodeId p = id →
    ∃ t ∈ sent, TempHistory.Sealed P ss (P.cryptoWorkerDeriveAesKey ss) ⟨t, p⟩

theorem tallied_handleTemp (h : Tallied id sent r) (hs : Serves i (pqcHeaderGetNodeId d) r)
    (hcoherent : (r.sessions i).core.Coherent) (hu : Unique r)
    (hkeys : ∀ j, Established id r j → (r.sessions j).ss = ss ∧
      (r.sessions j).aesKey = P.cryptoWorkerDeriveAesKey ss)
    (hd : Genuine P id ss sent d)
    (hk : sent ≠ [] → NoFalseMatch P ss (P.cryptoWorkerDeriveAesKey ss) n) (hsent : sent.length ≤ n)
    (hn : n + pqcTempRxCounterWindow ≤ 2 ^ 32)
    (hcounters : ∀ t ∈ sent, t.counter.toNat < sent.length) :
    Tallied id sent (r.handleTemp P i d) := by
  have howners := work_owners (P := P) (.heardTemp i _ d hs)
  rcases handleTemp_cases hs P d with ⟨hc, hrows⟩ | ⟨offset, hoff, hadm, hshow, hcsv, hrx⟩
  · exact h.carried (hc id) hrows
  · have hothers (j : Fin sessionMaxNodes) (hj : j ≠ i) :
        (r.handleTemp P i d).sessions j = r.sessions j := by
      rw [handleTemp_sessions, Function.update_of_ne hj]
    have hstate : ((r.handleTemp P i d).sessions i).state = (r.sessions i).state := by
      rw [handleTemp_sessions, Function.update_self]
      exact congrArg SessionCore.state (core_pqcHandleEncryptedTemp P d ⟨0, 0, 0⟩ (r.sessions i))
    have hsince : since id (r.handleTemp P i d).csv =
        .temp (pqcHeaderGetNodeId d) (trialPayload P (r.sessions i) d
          ((r.sessions i).rxCounter + UInt32.ofNat offset)) :: since id r.csv := by
      rw [hcsv, since, List.takeWhile_cons_of_pos (by simp [CsvRow.IsReset])]
      rfl
    by_cases hid : pqcHeaderGetNodeId d = id
    · subst hid
      have hest : Established (pqcHeaderGetNodeId d) r i :=
        ⟨hs.used, hs.nodeId, (sessionIsEstablished_iff hcoherent).mp hadm.1⟩
      obtain ⟨hss, hkey⟩ := hkeys i hest
      obtain ⟨t, ht, hseal⟩ := hd hadm.2.2.1 rfl
      have hrx₀ := h.rxCounter i hest
      have htrial : ((r.sessions i).rxCounter + UInt32.ofNat offset).toNat =
          (r.sessions i).rxCounter.toNat + offset := by
        rw [UInt32.toNat_add, UInt32.toNat_ofNat']
        simp only [pqcTempRxCounterWindow] at hn hoff
        omega
      have hopen : trialPayload P (r.sessions i) d
          ((r.sessions i).rxCounter + UInt32.ofNat offset) = t :=
        hseal.trialPayload_eq (hk (List.ne_nil_of_mem ht)) ((hcounters t ht).trans_le hsent) hss
          hkey (by rw [htrial]; omega) hshow
      rw [hopen] at hshow hsince hcsv
      have hcounter : t.counter.toNat = (r.sessions i).rxCounter.toNat + offset := by
        rw [hshow, htrial]
      have hlt := hcounters t ht
      have hmove : ((r.handleTemp P i d).sessions i).rxCounter.toNat = t.counter.toNat + 1 := by
        rw [hrx, ← hshow, UInt32.toNat_add]
        exact Nat.mod_eq_of_lt (by simp only [UInt32.reduceToNat]; omega)
      have htemps (csv : List CsvRow) : temps (pqcHeaderGetNodeId d)
          (.temp (pqcHeaderGetNodeId d) t :: csv) = t :: temps (pqcHeaderGetNodeId d) csv := by
        simp [temps, CsvRow.measurement]
      have honly {j : Fin sessionMaxNodes}
          (hj : Established (pqcHeaderGetNodeId d) (r.handleTemp P i d) j) : j = i := by
        by_contra hne
        exact hne (((established_congr (hothers j hne)).mp hj).eq hs hu)
      constructor
      case genuine =>
        rw [hcsv, htemps]
        intro t' ht'
        rcases List.mem_cons.mp ht' with rfl | ht'
        · exact ht
        · exact h.genuine t' ht'
      case increasing =>
        rw [hsince, htemps]
        refine List.pairwise_cons.mpr ⟨?_, h.increasing⟩
        intro t' ht'
        have hbelow := h.below i hest t' ht'
        omega
      case below =>
        intro j hj t' ht'
        rw [honly hj, hmove]
        rw [hsince, htemps] at ht'
        rcases List.mem_cons.mp ht' with rfl | ht'
        · omega
        · have hbelow := h.below i hest t' ht'
          omega
      case unsettled =>
        intro hno
        exact absurd ((howners.established_iff (by rw [hstate])).mpr hest) (hno i)
      case rxCounter =>
        intro j hj
        rw [honly hj, hmove]
        omega
    · have htemps (csv : List CsvRow) (t : TempPayload) : temps id
          (.temp (pqcHeaderGetNodeId d) t :: csv) = temps id csv := by
        simp [temps, CsvRow.measurement, hid]
      have hsame (j : Fin sessionMaxNodes) :
          Established id (r.handleTemp P i d) j → Established id r j ∧
            (r.handleTemp P i d).sessions j = r.sessions j := by
        intro hj
        have hne : j ≠ i := by
          rintro rfl
          exact hid (hs.nodeId.symm.trans ((howners.nodeId j).symm.trans hj.nodeId))
        exact ⟨(established_congr (hothers j hne)).mp hj, hothers j hne⟩
      constructor
      case genuine =>
        rw [hcsv, htemps]
        exact h.genuine
      case increasing =>
        rw [hsince, htemps]
        exact h.increasing
      case below =>
        rw [hsince, htemps]
        intro j hj
        obtain ⟨hj₀, heq⟩ := hsame j hj
        rw [heq]
        exact h.below j hj₀
      case unsettled =>
        rw [hsince, htemps]
        intro hno
        apply h.unsettled
        intro j hj
        exact hno j ((howners.established_iff (by
          by_cases hji : j = i
          · rw [hji, hstate]
          · rw [hothers j hji])).mpr hj)
      case rxCounter =>
        intro j hj
        obtain ⟨hj₀, heq⟩ := hsame j hj
        rw [heq]
        exact h.rxCounter j hj₀

theorem unmeasured_sessionless (P : Platform) (clk : Clock) (rnd : Entropy) (sender : IpAddr)
    (hnone : pqcHeaderValid d = true →
      (r.sessionManagerGetOrCreate (pqcHeaderGetNodeId d)).1 = none) :
    Unmeasured r.csv (r.udpRxCallback P clk rnd sender d).csv := by
  unfold udpRxCallback
  split
  · exact unmeasured_event
  · rename_i hvalid
    rw [← getOrCreate_csv (pqcHeaderGetNodeId d) r]
    dsimp only
    rw [hnone (by simpa using hvalid)]
    exact unmeasured_event

/-- A session that had to be created has not agreed on anything. -/
theorem Found.kept (h : Found nodeId r i r₀) : r₀.csv = r.csv ∧ ∀ id j, Established id r₀ j →
    Established id r j ∧ r₀.sessions j = r.sessions j := by
  rcases h.how with rfl | ⟨-, -, rfl⟩
  · exact ⟨rfl, fun _ _ hj => ⟨hj, rfl⟩⟩
  · refine ⟨rfl, ?_⟩
    intro id j hj
    have hne : j ≠ i := by
      rintro rfl
      have hidle := hj.state
      rw [setSession_sessions, Function.update_self] at hidle
      cases hidle
    have hsame : (r.setSession i (Session.sessionInit .root nodeId)).sessions j = r.sessions j := by
      rw [setSession_sessions, Function.update_of_ne hne]
    exact ⟨(established_congr hsame).mp hj, hsame⟩

/-- Whatever the root hears, if it is genuine, the tally stays right. -/
theorem tallied_handle (h : Tallied id sent r) (hsound : Sound r) (hu : Unique r)
    (hrest : Rested r)
    (hkeys : ∀ j, Established id r j → (r.sessions j).ss = ss ∧
      (r.sessions j).aesKey = P.cryptoWorkerDeriveAesKey ss)
    (hk : sent ≠ [] → NoFalseMatch P ss (P.cryptoWorkerDeriveAesKey ss) n) (hsent : sent.length ≤ n)
    (hn : n + pqcTempRxCounterWindow ≤ 2 ^ 32)
    (hcounters : ∀ t ∈ sent, t.counter.toNat < sent.length) (e : Event)
    (hd : ∀ d, e.heard = some d → Genuine P id ss sent d) : Tallied id sent (r.handle P e) := by
  have hplain (hkind : ∀ d, e.heard = some d → byteAt d pqcHdrMsgType ≠ pqcMsgTemp) :
      Tallied id sent (r.handle P e) := by
    have hrows := unmeasured_handle P r e hkind
    exact h.carried (carried_turns (handle_turns hsound e) hu hrest hrows id) hrows
  cases e with
  | retry clk => exact hplain fun d he => by cases he
  | transmit => exact hplain fun d he => by cases he
  | receive clk rnd sender d =>
    by_cases hkind : byteAt d pqcHdrMsgType = pqcMsgTemp
    · simp only [handle]
      rcases udpRxCallback_cases (P := P) clk rnd hsound sender d with
        ⟨hcalm, hnone⟩ | ⟨i, r₀, -, -, hfound, heq⟩
      · exact h.carried (hcalm.carried id) (unmeasured_sessionless P clk rnd sender hnone)
      · rw [heq, dispatch_temp hkind]
        obtain ⟨hcsv, hfrom⟩ := hfound.kept
        have hrows₀ : Unmeasured r.csv r₀.csv := hcsv ▸ Logs.refl _
        have hcalm := calm_setPeer i sender r₀
        have hcarried := carried_turns (P := P) (hfound.turns.tail (.work (.calm hcalm))) hu hrest
          hrows₀ id
        refine tallied_handleTemp (h.carried hcarried hrows₀) (hcalm.serves hfound.serves) ?_ ?_ ?_
          (hd d rfl) hk hsent hn hcounters
        · have hcoherent := (hfound.sound.sessions i hfound.serves.used).2
          rw [mapSession_self]
          exact hcoherent
        · apply SameOwners.unique (fun j => (hcalm.sessions j).identity)
          rcases hfound.how with rfl | ⟨-, hnew, rfl⟩
          · exact hu
          · exact unique_create hu hnew
        · intro j hj
          have hj₀ : Established id r₀ j :=
            (SameOwners.established_iff (fun j => (hcalm.sessions j).identity)
              (by rw [(hcalm.sessions j).quiet.state])).mp hj
          obtain ⟨hj₁, hsame⟩ := hfrom id j hj₀
          have hkeys₀ := hkeys j hj₁
          rw [← hsame] at hkeys₀
          by_cases hji : j = i
          · subst j
            rw [mapSession_self]
            exact hkeys₀
          · rw [mapSession, setSession_sessions, Function.update_of_ne hji]
            exact hkeys₀
    · exact hplain fun d' he => by
        obtain rfl := Option.some.inj he
        exact hkind

end Root

end PqcContiki
