import PqcContiki.SessionBooks
import PqcContiki.SessionTable

/-!
How the root restarts a session: calm turns, which no row and no book sees, and the two ways in
which a session comes to stand ready.
-/
namespace PqcContiki

open Relation

/-- The events of rows that tell of reports, restarts and impact windows. -/
def CsvEvent.tracked : CsvEvent → Bool
  | .getpkAfterFail | .getpkRestart | .hsFailReset | .nodeGroup _ | .sessionHs | .sessionPk
  | .sessionCt | .sessionCrypto | .sessionFrag | .sessionTemp | .impactStart | .impactNodeLost
  | .impactTemp | .impactResync | .impactEnd => true
  | _ => false

def CsvRow.Plain : CsvRow → Prop
  | .event _ kind _ _ _ _ _ => kind.tracked = false
  | .temp _ _ => True

/-- The row of a restart of node `nodeId`'s session. -/
def CsvRow.IsReset (nodeId : UInt16) : CsvRow → Prop
  | .event id kind _ _ _ _ _ =>
    id = nodeId ∧ (kind = .getpkAfterFail ∨ kind = .getpkRestart ∨ kind = .hsFailReset)
  | .temp _ _ => False

/-- A row of one of the given kinds. -/
def CsvRow.Among (kinds : List CsvEvent) : CsvRow → Prop
  | .event _ kind _ _ _ _ _ => kind ∈ kinds
  | .temp _ _ => False

namespace Root

variable {P : Platform} {clk : Clock} {rnd : Entropy} {r r' r'' r₁ : Root}
  {i j : Fin sessionMaxNodes} {nodeId : UInt16} {dst : UdpSendCtx} {sender : IpAddr} {d : Bytes}

/-- The same session, with its state and its books as they were. -/
structure Idle (s s' : Session) : Prop where
  quiet : Quiet s s'
  identity : s'.core.identity = s.core.identity

theorem Idle.refl (s : Session) : Idle s s := ⟨Quiet.refl s, rfl⟩

/-- More rows, all of one sort. -/
def Logs (p : CsvRow → Prop) (csv csv' : List CsvRow) : Prop :=
  ∃ rows, csv' = rows ++ csv ∧ ∀ row ∈ rows, p row

theorem Logs.refl {p : CsvRow → Prop} (csv : List CsvRow) : Logs p csv csv := ⟨[], rfl, by simp⟩

theorem Logs.trans {p : CsvRow → Prop} {csv csv' csv'' : List CsvRow} (h : Logs p csv csv')
    (h' : Logs p csv' csv'') : Logs p csv csv'' := by
  obtain ⟨rows, rfl, hrows⟩ := h
  obtain ⟨rows', rfl, hrows'⟩ := h'
  refine ⟨rows' ++ rows, by simp, ?_⟩
  intro row hrow
  rcases List.mem_append.mp hrow with hrow | hrow
  · exact hrows' row hrow
  · exact hrows row hrow

theorem Logs.row {p : CsvRow → Prop} {csv : List CsvRow} {row : CsvRow} (h : p row) :
    Logs p csv (row :: csv) :=
  ⟨[row], rfl, by simpa using h⟩

theorem Logs.mono {p q : CsvRow → Prop} {csv csv' : List CsvRow} (h : Logs p csv csv')
    (hpq : ∀ row, p row → q row) : Logs q csv csv' := by
  obtain ⟨rows, rfl, hrows⟩ := h
  exact ⟨rows, rfl, fun row hrow => hpq row (hrows row hrow)⟩

/-- More rows, none of them tracked. -/
abbrev Plainly : List CsvRow → List CsvRow → Prop := Logs CsvRow.Plain

/-- Nothing happened that a row below is about. -/
structure Calm (r r' : Root) : Prop where
  sessions : ∀ j, Idle (r.sessions j) (r'.sessions j)
  window : r'.impactWindow = r.impactWindow
  rows : Plainly r.csv r'.csv

theorem Calm.refl (r : Root) : Calm r r := ⟨fun _ => Idle.refl _, rfl, Logs.refl _⟩

theorem Calm.trans (h : Calm r r') (h' : Calm r' r'') : Calm r r'' where
  sessions j := ⟨(h.sessions j).quiet.trans (h'.sessions j).quiet,
    (h'.sessions j).identity.trans (h.sessions j).identity⟩
  window := h'.window.trans h.window
  rows := h.rows.trans h'.rows

theorem Calm.sameUsed (h : Calm r r') (j : Fin sessionMaxNodes) :
    (r'.sessions j).used = (r.sessions j).used :=
  congrArg (fun x => x.1) (h.sessions j).identity

theorem Calm.sameNodeId (h : Calm r r') (j : Fin sessionMaxNodes) :
    (r'.sessions j).nodeId = (r.sessions j).nodeId :=
  congrArg (fun x => x.2.1) (h.sessions j).identity

theorem Calm.serves (h : Calm r r') (hs : Serves i nodeId r) : Serves i nodeId r' where
  used := (h.sameUsed i).trans hs.used
  role := (congrArg (fun x => x.2.2) (h.sessions i).identity).trans hs.role
  nodeId := (h.sameNodeId i).trans hs.nodeId

theorem calm_update {s : Session} {hs : HsStatics} {tx : TxQueue} {obs : List Observation}
    (h : Idle (r.sessions i) s) :
    Calm r { r with sessions := Function.update r.sessions i s, hs, tx, obs } := by
  refine ⟨?_, rfl, Logs.refl _⟩
  intro j
  by_cases hj : j = i
  · subst hj
    simpa using h
  · simpa [Function.update_of_ne hj] using Idle.refl (r.sessions j)

theorem calm_row {row : CsvRow} (h : row.Plain) (r : Root) :
    Calm r { r with csv := row :: r.csv } :=
  ⟨fun _ => Idle.refl _, rfl, Logs.row h⟩

theorem calm_setPeer (i : Fin sessionMaxNodes) (sender : IpAddr) (r : Root) :
    Calm r (r.mapSession i (Session.sessionSetPeerAddr sender)) :=
  calm_update ⟨⟨rfl, rfl, rfl⟩, rfl⟩

theorem calm_noteGetpkRx (i : Fin sessionMaxNodes) (r : Root) :
    Calm r (r.mapSession i (Session.mapMetrics .noteGetpkRx)) :=
  calm_update ⟨⟨rfl, rfl, rfl⟩, rfl⟩

theorem calm_noteCtStart (clk : Clock) (i : Fin sessionMaxNodes) (msgType msgId : UInt8)
    (r : Root) :
    Calm r (r.noteCtStart P clk i msgType msgId) := by
  unfold noteCtStart
  dsimp only
  split
  · rw [csvEvent_mapSession]
    refine Calm.trans ?_ (calm_row (by rfl) _)
    exact calm_update ⟨⟨rfl, rfl, rfl⟩, rfl⟩
  · exact Calm.refl r

/-- Session `i` stands ready for a new handshake: it was idle, or it started over. -/
structure Reopened (i : Fin sessionMaxNodes) (r r₁ : Root) : Prop where
  serves : Serves i (r.sessions i).nodeId r₁
  state : (r₁.sessions i).state = .idle
  established : (r₁.sessions i).established = false
  others : ∀ j, j ≠ i → r₁.sessions j = r.sessions j
  window : r₁.impactWindow = r.impactWindow
  how : ((r.sessions i).state = .idle ∧ (r₁.sessions i).books = (r.sessions i).books ∧
      r₁.tx = r.tx ∧ Plainly r.csv r₁.csv) ∨
    ((r.sessions i).state ≠ .idle ∧ (r₁.sessions i).books = (r.sessions i).books.reset ∧
      r₁.tx = (r.tx.pqcTxDropNode (r.sessions i).nodeId).2 ∧
      ∃ row csv, row.IsReset (r.sessions i).nodeId ∧ Plainly r.csv csv ∧
        Plainly (row :: csv) r₁.csv)
  hs : r₁.hs = r.hs

/-- The device after a restart of session `i`, with the sender remembered. -/
def restarted (i : Fin sessionMaxNodes) (sender : IpAddr) (event : CsvEvent) (v0 v1 : UInt32)
    (r : Root) : Root :=
  ((r.csvEvent (r.sessions i).nodeId event v0 v1 0 0).dropAndReset i).mapSession i
    (Session.sessionSetPeerAddr sender)

theorem reopened_restarted (hs : Serves i nodeId r) (hstate : (r.sessions i).state ≠ .idle)
    {event : CsvEvent} (hreset : event = .getpkAfterFail ∨ event = .getpkRestart)
    (sender : IpAddr) (v0 v1 : UInt32) :
    Reopened i r (r.restarted i sender event v0 v1) where
  serves := ⟨by simp [restarted], by simp [restarted, hs.role], by simp [restarted]⟩
  state := by simp [restarted]
  established := by simp [restarted]
  others j hj := by simp [restarted, dropAndReset, mapSession, hj]
  window := rfl
  how := by
    refine Or.inr ⟨hstate, ?_, ?_, .event (r.sessions i).nodeId event v0 v1 0 0 0, r.csv,
      ⟨rfl, ?_⟩, Logs.refl _, Logs.refl _⟩
    · rw [restarted, mapSession_self, dropAndReset_self]
      rfl
    · simp [restarted, dropAndReset, mapSession, csvEvent]
    · exact hreset.elim Or.inl fun h => Or.inr (Or.inl h)
  hs := rfl

/-- A calm start changes nothing about a restart. -/
theorem Reopened.of_calm (hq : Calm r r') (htx : r'.tx = r.tx) (hhs : r'.hs = r.hs)
    (hsame : ∀ j, j ≠ i → r'.sessions j = r.sessions j) (h : Reopened i r' r₁) :
    Reopened i r r₁ := by
  have hid := hq.sameNodeId i
  have hquiet := (hq.sessions i).quiet
  refine ⟨hid ▸ h.serves, h.state, h.established, ?_, h.window.trans hq.window, ?_,
    h.hs.trans hhs⟩
  · intro j hj
    exact (h.others j hj).trans (hsame j hj)
  · rcases h.how with ⟨hstate, hbooks, htx', hcsv⟩ | ⟨hstate, hbooks, htx', row, csv, hreset,
      hbelow, hcsv⟩
    · exact Or.inl ⟨hquiet.state ▸ hstate, hbooks.trans hquiet.books, htx'.trans htx,
        hq.rows.trans hcsv⟩
    · rw [htx, hid] at htx'
      rw [hquiet.books] at hbooks
      exact Or.inr ⟨hquiet.state ▸ hstate, hbooks, htx', row, csv, hid ▸ hreset,
        hq.rows.trans hbelow, hcsv⟩

/-- A row below the handshake changes nothing about a restart either. -/
theorem Reopened.row {row : CsvRow} (h : Reopened i r r₁) (hrow : row.Plain) :
    Reopened i r { r₁ with csv := row :: r₁.csv } where
  serves := ⟨h.serves.used, h.serves.role, h.serves.nodeId⟩
  state := h.state
  established := h.established
  others := h.others
  window := h.window
  how := by
    rcases h.how with ⟨hstate, hbooks, htx, hcsv⟩ | ⟨hstate, hbooks, htx, reset, csv, hreset,
      hbelow, hcsv⟩
    · exact Or.inl ⟨hstate, hbooks, htx, hcsv.trans (Logs.row hrow)⟩
    · exact Or.inr ⟨hstate, hbooks, htx, reset, csv, hreset, hbelow,
        hcsv.trans (Logs.row hrow)⟩
  hs := h.hs

/-- A request for the key starts a handshake, whatever state its session is in. -/
theorem handleGetpk_cases (clk : Clock) (rnd : Entropy) (hs : Serves i nodeId r)
    (hc : (r.sessions i).core.Coherent) (sender : IpAddr) (msgId : UInt8) :
    ∃ r₁, Reopened i r r₁ ∧ r.handleGetpk P clk rnd i sender msgId =
      r₁.startHandshake P clk rnd i ⟨some udpConn, some sender⟩ := by
  have hcalm := calm_noteGetpkRx i r
  have hothers : ∀ j, j ≠ i →
      (r.mapSession i (Session.mapMetrics .noteGetpkRx)).sessions j = r.sessions j := by
    intro j hj
    simp [mapSession, hj]
  have hs₀ := hcalm.serves hs
  have hstate₀ : ((r.mapSession i (Session.mapMetrics .noteGetpkRx)).sessions i).state =
      (r.sessions i).state := (hcalm.sessions i).quiet.state
  have hest₀ : ((r.mapSession i (Session.mapMetrics .noteGetpkRx)).sessions i).established =
      (r.sessions i).established := (hcalm.sessions i).quiet.established
  have hid : ((r.mapSession i (Session.mapMetrics .noteGetpkRx)).sessions i).nodeId =
      (r.sessions i).nodeId := hcalm.sameNodeId i
  have hof {r₁ : Root} (h : Reopened i (r.mapSession i (Session.mapMetrics .noteGetpkRx)) r₁) :
      Reopened i r r₁ := h.of_calm hcalm rfl rfl hothers
  unfold handleGetpk
  dsimp only
  rw [← hid]
  generalize r.mapSession i (Session.mapMetrics .noteGetpkRx) = r₀ at hof hs₀ hstate₀ hest₀ ⊢
  have hfailed : (r₀.sessions i).sessionIsFailed = ((r.sessions i).state == .failed) := by
    rw [Session.sessionIsFailed, hstate₀]
  rcases hc.root_state hs.role with hst | hst | hst | hst
  · have hidle : (r₀.sessions i).state = .idle := hstate₀.trans hst
    rw [hst] at hfailed
    simp only [hfailed, hidle, reduceCtorEq, beq_iff_eq, if_false, if_true]
    refine ⟨_, hof ?_, rfl⟩
    refine ⟨⟨hs₀.used, hs₀.role, rfl⟩, hidle, ?_, fun _ _ => rfl, rfl,
      Or.inl ⟨hidle, rfl, rfl, Logs.row rfl⟩, rfl⟩
    exact hest₀.trans (hc.not_established (by simp [hst]))
  · have hne : (r₀.sessions i).state ≠ .idle := by simp [hstate₀, hst]
    rw [hst] at hfailed
    simp only [hfailed, hstate₀, hst, reduceCtorEq, beq_iff_eq, if_false, if_true, true_or]
    exact ⟨_, hof (reopened_restarted hs₀ hne (Or.inr rfl) sender _ _), rfl⟩
  · have hne : (r₀.sessions i).state ≠ .idle := by simp [hstate₀, hst]
    have hflag : (r.sessions i).established = true := hc.established.mpr hst
    have hestablished : (r₀.sessions i).sessionIsEstablished = true := by
      rw [Session.sessionIsEstablished, hstate₀, hest₀, hst, hflag]
      rfl
    rw [hst] at hfailed
    simp only [hfailed, hestablished, hstate₀, hst, reduceCtorEq, beq_iff_eq, if_false, if_true,
      or_true]
    exact ⟨_, hof (reopened_restarted hs₀ hne (Or.inr rfl) sender _ _), rfl⟩
  · have hne : (r₀.sessions i).state ≠ .idle := by simp [hstate₀, hst]
    rw [hst] at hfailed
    have hreopened := reopened_restarted hs₀ hne (Or.inl rfl) sender
      (UInt32.ofNat (r₀.sessions i).retryCount) 0
    simp only [hfailed, beq_self_eq_true, if_true, mapSession_self, dropAndReset_self,
      Session.sessionSetPeerAddr_state, Session.sessionReset_state]
    exact ⟨_, hof (hreopened.row (by rfl)), rfl⟩

end Root

end PqcContiki
