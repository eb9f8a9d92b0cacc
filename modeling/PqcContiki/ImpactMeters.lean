import PqcContiki.ImpactReports

/-!
What the root reports of the nodes that an impact window watched, against what became of their
TEMP packets since the window opened.
-/
namespace PqcContiki

open Relation Runs

namespace Root

variable {P : Platform} {clk : Clock} {rnd : Entropy} {r r' r'' r₀ r₁ r₂ : Root}
  {i j : Fin sessionMaxNodes} {nodeId : UInt16} {csv csv' rows : List CsvRow} {row : CsvRow}
  {s s' s'' : Session} {past : List Root} {m : Meter} {snapshot : ImpactSnapshot}
  {snapshots : List ImpactSnapshot} {now : ℕ} {success : Bool} {sender : IpAddr} {d : Bytes}

/-- The meters after the handler of an event. A window that opens starts them over. -/
def meters (P : Platform) (r : Root) (e : Event) (m : Fin sessionMaxNodes → Meter) :
    Fin sessionMaxNodes → Meter := fun j =>
  if r.impactWindow.active = false ∧ (r.handle P e).impactWindow.active = true then Meter.zero
  else (m j).next (r.hears P j e) (r.clears j e)

/-- The root, with the meters of the impact window kept beside it. -/
abbrev MeterRun (P : Platform) :
    List (Root × (Fin sessionMaxNodes → Meter)) → Root × (Fin sessionMaxNodes → Meter) → Prop :=
  Run (fun w => (∃ rnd, w.1 = boot P rnd) ∧ w.2 = fun _ => Meter.zero)
    fun w e w' => w'.1 = w.1.handle P e ∧ w'.2 = w.1.meters P e w.2

/-- Every watched session differs from its snapshot by its meter. -/
def Metered (r : Root) (m : Fin sessionMaxNodes → Meter) : Prop :=
  ∀ snapshot ∈ r.impactWindow.snapshots, ∃ j, (r.sessions j).used = true ∧
    (r.sessions j).nodeId = snapshot.nodeId ∧ Since snapshot (m j) (r.sessions j)

theorem Metered.allFound {m : Fin sessionMaxNodes → Meter} (h : Metered r m) : AllFound r := by
  intro snapshot hmem
  obtain ⟨j, hused, hid, -⟩ := h snapshot hmem
  exact ⟨j, hused, hid⟩

theorem MeterRun.reaches {past : List (Root × (Fin sessionMaxNodes → Meter))}
    {w : Root × (Fin sessionMaxNodes → Meter)} (h : MeterRun P past w) :
    Reaches P (past.map Prod.fst) w.1 := by
  induction h with
  | start hinit => exact .start hinit.1
  | next _ hstep ih => exact .next ih hstep.1

theorem metered_handle {e : Event} {m : Fin sessionMaxNodes → Meter} (hsound : Sound r)
    (hrested : Rested r)
    (h : Metered r m) : Metered (r.handle P e) (r.meters P e m) := by
  intro snapshot hmem
  cases handle_window (P := P) hsound e with
  | kept hsame =>
    rw [hsame] at hmem
    obtain ⟨j, hused, hid, hsince⟩ := h snapshot hmem
    have hmeter : r.meters P e m j = (m j).next (r.hears P j e) (r.clears j e) := by
      refine if_neg ?_
      rintro ⟨hclosed, hopen⟩
      rw [hsame, hclosed] at hopen
      cases hopen
    obtain ⟨hused', hid'⟩ := keeps_handle hsound e j hused
    refine ⟨j, hused', hid'.trans hid, ?_⟩
    rw [hmeter]
    exact hsince.next (moves_handle hsound hrested e hused)
  | closed hzero =>
    rw [hzero] at hmem
    cases hmem
  | opened hclosed hopen hwatched =>
    obtain ⟨j, ⟨hused, -, -, rfl⟩, hsame⟩ := hwatched snapshot hmem
    have hmeter : r.meters P e m j = Meter.zero := if_pos ⟨hclosed, hopen⟩
    obtain ⟨hused', hid'⟩ := keeps_handle (P := P) hsound e j hused
    refine ⟨j, hused', hid', ?_⟩
    rw [hmeter, hsame]
    exact since_snapshot _

theorem MeterRun.metered {past : List (Root × (Fin sessionMaxNodes → Meter))}
    {w : Root × (Fin sessionMaxNodes → Meter)} (h : MeterRun P past w) : Metered w.1 w.2 := by
  apply h.invariant (I := fun _ w => Metered w.1 w.2)
  · rintro ⟨r, m⟩ ⟨⟨rnd, rfl⟩, rfl⟩ snapshot hmem
    rw [boot_impactWindow] at hmem
    cases hmem
  · rintro past ⟨r, m⟩ e ⟨r', m'⟩ hr hmetered ⟨rfl, rfl⟩
    have hreach := MeterRun.reaches hr
    exact metered_handle hreach.sound hreach.rested hmetered

/-- The meters of the window whose end a handler reports: those that are kept, or fresh ones if
it opened the window itself. -/
def windowMeters (r : Root) (m : Fin sessionMaxNodes → Meter) : Fin sessionMaxNodes → Meter :=
  if r.impactWindow.active = true then m else fun _ => Meter.zero

theorem since_reported {m : Fin sessionMaxNodes → Meter} (h : Metered r m) (hu : Unique r)
    (hr : ReportedOn r snapshots) (hmem : snapshot ∈ snapshots) (hused : (r.sessions j).used = true)
    (hid : (r.sessions j).nodeId = snapshot.nodeId) :
    Since snapshot (r.windowMeters m j) (r.sessions j) := by
  unfold windowMeters
  cases hactive : r.impactWindow.active with
  | true =>
    rw [if_pos rfl]
    rw [hr.found hactive] at hmem
    obtain ⟨k, hk, hkid, hsince⟩ := h snapshot hmem
    obtain rfl : k = j := hu k j hk hused (hkid.trans hid.symm)
    exact hsince
  | false =>
    rw [if_neg Bool.false_ne_true]
    obtain ⟨k, hk, rfl⟩ := hr.fresh hactive snapshot hmem
    obtain rfl : k = j := hu k j hk hused hid.symm
    exact since_snapshot _

/-- What the two rows about a watched node say, in terms of its meter. -/
structure Accurate (m : Meter) (ok gap rx : UInt32) : Prop where
  accepted : ok = UInt32.ofNat m.ok
  delta : rx = m.rxDelta
  difference : gap = if rx > ok then rx - ok else 0

/-- The gap is the number of skipped counters exactly where nothing was cleared and nothing
wrapped. -/
theorem Accurate.gap_iff {ok gap rx : UInt32} (h : Accurate m ok gap rx) (hok : m.ok < 2 ^ 32) :
    (ok ≤ rx ∧ gap.toNat = m.skipped) ↔ m.ok + m.skipped < 2 ^ 32 ∧ m.cleared = 0 := by
  obtain ⟨rfl, rfl, rfl⟩ := h
  have hokNat : (UInt32.ofNat m.ok).toNat = m.ok := by
    rw [UInt32.toNat_ofNat']
    exact Nat.mod_eq_of_lt hok
  generalize hrx : m.rxDelta = rx
  have hgap : (UInt32.ofNat m.ok ≤ rx) → (if rx > UInt32.ofNat m.ok then rx - UInt32.ofNat m.ok
      else 0).toNat = rx.toNat - m.ok := by
    intro hle
    have hleNat := UInt32.le_iff_toNat_le.mp hle
    rw [hokNat] at hleNat
    split
    · rw [UInt32.toNat_sub_of_le _ _ hle, hokNat]
    · rename_i hlt
      have hltNat := mt UInt32.lt_iff_toNat_lt.mpr hlt
      rw [hokNat] at hltNat
      simp only [UInt32.toNat_zero]
      omega
  have hbound := rx.toNat_lt
  constructor
  · rintro ⟨hle, heq⟩
    have hleNat := UInt32.le_iff_toNat_le.mp hle
    rw [hgap hle] at heq
    rw [hokNat] at hleNat
    have htotal : m.ok + m.skipped = rx.toNat := by omega
    refine ⟨by omega, ?_⟩
    have hofNat : UInt32.ofNat (m.ok + m.skipped) = rx := by
      rw [htotal]
      simp
    rw [Meter.rxDelta, hofNat] at hrx
    grind
  · rintro ⟨hsmall, hcleared⟩
    have hrxNat : rx.toNat = m.ok + m.skipped := by
      rw [← hrx, Meter.rxDelta, hcleared, UInt32.sub_zero, UInt32.toNat_ofNat']
      exact Nat.mod_eq_of_lt hsmall
    have hle : UInt32.ofNat m.ok ≤ rx := by
      rw [UInt32.le_iff_toNat_le, hokNat]
      omega
    refine ⟨hle, ?_⟩
    rw [hgap hle]
    omega

/-- Every report about a node that an impact window watched: when the change of `rx_counter` is
no less than the accepted packets, and the gap is the number of counters they skipped. -/
theorem impact_gap_counts {past : List (Root × (Fin sessionMaxNodes → Meter))}
    {w : Root × (Fin sessionMaxNodes → Meter)} (h : MeterRun P past w) (e : Event) :
    ∃ rows, (w.1.handle P e).csv = rows ++ w.1.csv ∧
      ∀ id target ok fail gap target' resync rx established,
        .event id .impactTemp target ok fail gap 0 ∈ rows →
        .event id .impactResync target' resync rx established 0 ∈ rows →
        ∃ j, (w.1.sessions j).used = true ∧ (w.1.sessions j).nodeId = id ∧
          ok = UInt32.ofNat (w.1.windowMeters w.2 j).ok ∧ ((w.1.windowMeters w.2 j).ok < 2 ^ 32 →
            ((ok ≤ rx ∧ gap.toNat = (w.1.windowMeters w.2 j).skipped) ↔
              (w.1.windowMeters w.2 j).ok + (w.1.windowMeters w.2 j).skipped < 2 ^ 32 ∧
                (w.1.windowMeters w.2 j).cleared = 0)) := by
  have hreach := h.reaches
  have hmetered := h.metered
  have hw := hreach.windowSound
  obtain ⟨snapshots, hreported, rows, hcsv, hrows⟩ := told_handle (P := P) hreach.sound hw
    hreach.rested hmetered.allFound e
  refine ⟨rows, hcsv, ?_⟩
  intro id target ok fail gap target' resync rx established htemp hresync
  obtain ⟨snapshot, hmem, j, hused, hid, rfl, hok, hgap⟩ := hrows _ htemp (Or.inl rfl)
  obtain ⟨snapshot', hmem', k, hused', hid', hsame, hrx⟩ := hrows _ hresync (Or.inr rfl)
  obtain rfl : k = j := hw.unique k j hused' hused (by rw [hid', hid, hsame])
  have hsince := since_reported hmetered hw.unique hreported hmem hused hid
  have hsince' := since_reported hmetered hw.unique hreported hmem' hused' hid'
  have hokMeter : ok = UInt32.ofNat (w.1.windowMeters w.2 k).ok := by
    rw [hok, hsince.ok]
    grind
  have hdelta : (w.1.sessions k).rxCounter - snapshot.rxCounter =
      (w.1.windowMeters w.2 k).rxDelta := by
    rw [hsince.rx]
    grind
  have hrxMeter : rx = (w.1.windowMeters w.2 k).rxDelta := by
    rw [hrx, hsince'.rx]
    grind
  have haccurate : Accurate (w.1.windowMeters w.2 k) ok gap rx := by
    refine ⟨hokMeter, hrxMeter, ?_⟩
    rw [hgap, hdelta, ← hrxMeter]
  exact ⟨k, hused, hid, hokMeter, haccurate.gap_iff⟩

/-- One handler, with its meters. -/
def metered (P : Platform) (w : Root × (Fin sessionMaxNodes → Meter)) (e : Event) :
    Root × (Fin sessionMaxNodes → Meter) :=
  (w.1.handle P e, w.1.meters P e w.2)

theorem meterRun_foldl (es : List Event) : ∃ past, MeterRun P past
    (es.foldl (metered P) (boot P rnd, fun _ => Meter.zero)) := by
  induction es using List.reverseRecOn with
  | nil => exact ⟨[], .start ⟨⟨rnd, rfl⟩, rfl⟩⟩
  | append_singleton es e ih =>
    obtain ⟨past, hrun⟩ := ih
    rw [List.foldl_append]
    exact ⟨_, .next hrun ⟨rfl, rfl⟩⟩

/-- Node 7 completes its handshake and sends a measurement. Then node 8 asks for the key, and in
the end it sends a ciphertext without content; in between is its window. -/
def watchedRun (between : List Event) : Root × (Fin sessionMaxNodes → Meter) :=
  (handshakeOf 7 0 ++ tempFrom 7 0 :: getpkFrom 8 :: between ++ [emptyCtFrom 8]).foldl
    (metered Platform.demo) (boot Platform.demo 0, fun _ => Meter.zero)

theorem meterRun_watched (between : List Event) :
    ∃ past, MeterRun Platform.demo past (watchedRun between) :=
  meterRun_foldl _

/-- The rows of the retry tick that gives up the handshake of node 8, newest first. -/
def closingRows (ok gap resync rx established : UInt32) : List CsvRow :=
  [.event 8 .hsFailReset 6 0 0 0 0, .event 8 .impactEnd 0 1 0 0 1,
    .event 7 .impactResync 8 resync rx established 0, .event 7 .impactTemp 8 ok 0 gap 0,
    .event 8 .hsCrypto 0 0 0 0 15, .event 8 .hsCt 0 0 0 0 3, .event 8 .hsPk 0 0 1 0 3,
    .event 8 .hsFail 0 0 0 0 1]

/-- A retry tick that closes the window prints `rows`, and so much went through the meter of
node 7, which has session 0. -/
def Ends (w : Root × (Fin sessionMaxNodes → Meter)) (rows : List CsvRow) (ok skipped : ℕ)
    (cleared : UInt32) : Prop :=
  (w.1.handle Platform.demo (.retry fun _ _ => 0)).csv = rows ++ w.1.csv ∧
    (∀ j, (w.1.sessions j).nodeId = 7 → j = 0) ∧ (w.1.sessions 0).nodeId = 7 ∧
    (w.1.windowMeters w.2 0).ok = ok ∧ (w.1.windowMeters w.2 0).skipped = skipped ∧
    (w.1.windowMeters w.2 0).cleared = cleared

instance (w : Root × (Fin sessionMaxNodes → Meter)) (rows : List CsvRow) (ok skipped : ℕ)
    (cleared : UInt32) : Decidable (Ends w rows ok skipped cleared) :=
  inferInstanceAs (Decidable (_ ∧ _ ∧ _ ∧ _ ∧ _ ∧ _))

/-- In one window node 7 asks for the key again, in the other it sends two measurements, the
second with two counters skipped. They are computed together, as they begin alike. -/
theorem watched_runs :
    Ends (watchedRun [getpkFrom 7]) (closingRows 0 4294967295 0 4294967295 0) 0 0 1 ∧
      Ends (watchedRun [tempFrom 7 1, tempFrom 7 4]) (closingRows 2 2 1 4 1) 2 2 0 := by
  decide +kernel

/-- Two measurements are accepted and two counters skipped, and that is what the rows say. -/
theorem impact_gap_counts_resync :
    let w := watchedRun [tempFrom 7 1, tempFrom 7 4]
    (w.1.windowMeters w.2 0).ok = 2 ∧ (w.1.windowMeters w.2 0).cleared = 0 ∧
      (2 : UInt32) ≤ 4 ∧ (2 : UInt32).toNat = (w.1.windowMeters w.2 0).skipped := by
  intro w
  obtain ⟨hcsv, honly, -, hok, hskipped, hcleared⟩ := watched_runs.2
  obtain ⟨past, hrun⟩ := meterRun_watched [tempFrom 7 1, tempFrom 7 4]
  obtain ⟨rows, hrows, hreports⟩ := impact_gap_counts hrun (.retry fun _ _ => 0)
  obtain rfl : rows = closingRows 2 2 1 4 1 := List.append_cancel_right (hrows.symm.trans hcsv)
  obtain ⟨j, hused, hid, -, hiff⟩ := hreports 7 8 2 0 2 8 1 4 1 (by simp [closingRows])
    (by simp [closingRows])
  obtain rfl : j = 0 := honly j hid
  refine ⟨hok, hcleared, (hiff ?_).mpr ⟨?_, hcleared⟩⟩
  · rw [hok]
    decide
  · rw [hok, hskipped]
    decide

/-- A watched node asks for the key again: no counter was skipped in the window, and the row says
that 2 ^ 32 - 1 were. -/
theorem impact_gap_restart :
    ∃ past w rows, MeterRun Platform.demo past w ∧
      (w.1.handle Platform.demo (.retry fun _ _ => 0)).csv = rows ++ w.1.csv ∧
      .event 7 .impactTemp 8 0 0 4294967295 0 ∈ rows ∧ (w.1.sessions 0).nodeId = 7 ∧
      (w.1.windowMeters w.2 0).ok = 0 ∧ (w.1.windowMeters w.2 0).skipped = 0 := by
  obtain ⟨past, hrun⟩ := meterRun_watched [getpkFrom 7]
  have hends := watched_runs.1
  generalize watchedRun [getpkFrom 7] = w at hrun hends
  obtain ⟨hcsv, -, hid, hok, hskipped, -⟩ := hends
  refine ⟨past, w, closingRows 0 4294967295 0 4294967295 0, hrun, hcsv, ?_, hid, hok, hskipped⟩
  simp [closingRows]

end Root

end PqcContiki
