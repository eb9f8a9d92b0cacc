import PqcContiki.TempChannel
import PqcContiki.Library.Runs

/-!
The TEMP channel over a link that keeps the order and may lose packets: a gap of up to fifteen
packets is bridged, a longer one is never.
-/
namespace PqcContiki

open Runs

/-- What became of a packet. -/
inductive Fate where
  | lost
  | accepted
  | rejected
deriving DecidableEq

/-- Both ends of the channel, and the fate of each packet the link is done with, newest first. -/
structure TempLink where
  history : TempHistory
  fates : List Fate

namespace TempLink

variable {P : Platform} {l l' : TempLink} {node root : Session} {n : ℕ} {past : List TempLink}

/-- The oldest packet still on the link. -/
def front (l : TempLink) : Option SentTemp := l.history.sent[l.fates.length]?

inductive Event where
  | send (conn : UdpConn) (dest : IpAddr) (measurement : TempPayload) (q : TxQueue)
  | lose
  | deliver (out : TempPayload)

def handle (P : Platform) (l : TempLink) : Event → TempLink
  | .send conn dest measurement q =>
    { l with history := l.history.send P conn dest measurement q }
  | .lose =>
    match l.front with
    | none => l
    | some _ => { l with fates := .lost :: l.fates }
  | .deliver out =>
    match l.front with
    | none => l
    | some x =>
      { history := l.history.deliver P x.packet out
        fates := (if (pqcHandleEncryptedTemp P x.packet out l.history.receiver).1 then .accepted
          else .rejected) :: l.fates }

def initial (node root : Session) : TempLink := ⟨.initial node root, []⟩

/-- A run of the link between two sessions. -/
def Reaches (P : Platform) (node root : Session) (past : List TempLink) (l : TempLink) : Prop :=
  Run (· = initial node root) (fun l e l' => l' = l.handle P e) past l

theorem mem_of_front {x : SentTemp} (h : l.front = some x) : x ∈ l.history.sent :=
  List.mem_of_getElem? h

theorem Reaches.reach (hr : Reaches P node root past l) :
    TempHistory.Reach P (.initial node root) l.history := by
  induction hr with
  | start hi =>
    obtain rfl := hi
    exact .start
  | @next _ l _ e _ hs ih =>
    obtain rfl := hs
    cases e with
    | send conn dest measurement q => exact ih.send conn dest measurement q
    | lose =>
      simp only [handle]
      split
      · exact ih
      · exact ih
    | deliver out =>
      simp only [handle]
      split
      · exact ih
      · exact ih.deliver out (mem_of_front ‹_›)

section Delivery

variable {h : TempHistory} {x : SentTemp} {ss : SharedSecret} {key : AesKey}

/-- A packet that was refused showed none of the sixteen counters. -/
theorem trials_of_refused {data : Bytes} {s : Session} (out : TempPayload)
    (ha : TempAdmitted s data) (hno : (pqcHandleEncryptedTemp P data out s).1 = false) :
    ∀ offset < pqcTempRxCounterWindow,
      (trialPayload P s data (s.rxCounter + UInt32.ofNat offset)).counter ≠
        s.rxCounter + UInt32.ofNat offset := by
  intro offset hoff
  simp only [pqcHandleEncryptedTemp, if_neg (not_not.mpr ha), TempHistory.trialPayload_countTemp,
    Session.countTemp_rxCounter] at hno
  split at hno
  · cases hno
  · rename_i hnone
    have hfail := List.find?_eq_none.mp hnone offset (List.mem_range.mpr hoff)
    simpa using hfail

/-- A packet that is not behind the receiver is accepted exactly within the window, and the
receiver then expects the counter after it. -/
theorem handle_iff (hi : TempHistory.Inv P ss key h) (hk : NoFalseMatch P ss key n)
    (hsent : h.sent.length ≤ n) (hn : n + pqcTempRxCounterWindow ≤ 2 ^ 32) (hx : x ∈ h.sent)
    (hahead : h.receiver.rxCounter.toNat ≤ x.payload.counter.toNat) (out : TempPayload) :
    let r := pqcHandleEncryptedTemp P x.packet out h.receiver
    (r.1 = true ↔
      x.payload.counter.toNat - h.receiver.rxCounter.toNat < pqcTempRxCounterWindow) ∧
    (r.1 = true → r.2.2.rxCounter = x.payload.counter + 1) ∧
    (r.1 = false → r.2.2.rxCounter = h.receiver.rxCounter) := by
  have hxlt : x.payload.counter.toNat < h.sent.length := by
    apply List.mem_range.mp
    rw [← hi.counters]
    exact List.mem_map.mpr ⟨x, hx, rfl⟩
  have htrial : ∀ offset, offset < pqcTempRxCounterWindow →
      (h.receiver.rxCounter + UInt32.ofNat offset).toNat =
        h.receiver.rxCounter.toNat + offset := by
    intro offset hoff
    have hrx := hi.rxCounter
    rw [UInt32.toNat_add, UInt32.toNat_ofNat']
    simp only [pqcTempRxCounterWindow] at hn hoff
    omega
  intro r
  rcases TempHistory.handle_cases P x.packet out h.receiver with
    ⟨f, hno⟩ | ⟨offset, f, hoff, hshow, hyes⟩
  · have hr : r = (false, out, h.receiver.countTemp f) := hno
    rw [hr]
    refine ⟨?_, by simp, by simp⟩
    simp only [Bool.false_eq_true, false_iff, not_lt]
    by_contra hnear
    push Not at hnear
    -- the trial at this very distance would have shown the packet's own counter
    have hfail := trials_of_refused (P := P) out ((hi.seals x hx).admitted hi.established)
      (by rw [hno]) _ hnear
    have heq : h.receiver.rxCounter +
        UInt32.ofNat (x.payload.counter.toNat - h.receiver.rxCounter.toNat) =
          x.payload.counter := by
      apply UInt32.toNat_inj.mp
      rw [htrial _ hnear]
      omega
    rw [heq, (hi.seals x hx).own hi.receiverSs hi.receiverKey] at hfail
    exact hfail rfl
  · have hopen := (hi.seals x hx).trialPayload_eq hk (hxlt.trans_le hsent) hi.receiverSs
      hi.receiverKey (by rw [htrial offset hoff]; have := hi.rxCounter; omega) hshow
    rw [hopen] at hshow
    have hr : r = (true, trialPayload P h.receiver x.packet
        (h.receiver.rxCounter + UInt32.ofNat offset),
        (h.receiver.setRxCounter (h.receiver.rxCounter + UInt32.ofNat offset + 1)).countTemp f) :=
      hyes
    rw [hr]
    refine ⟨?_, by simp [hshow], by simp⟩
    simp only [true_iff]
    rw [hshow, htrial offset hoff]
    omega

end Delivery

/-- How many packets the link was done with when the last one was accepted. -/
def settled (fates : List Fate) : ℕ := (fates.dropWhile (· != .accepted)).length

theorem settled_le (fates : List Fate) : settled fates ≤ fates.length :=
  (List.dropWhile_sublist _).length_le

theorem settled_after {gap : List Fate} (rest : List Fate) (hgap : Fate.accepted ∉ gap) :
    settled (gap ++ rest) = settled rest := by
  rw [settled, List.dropWhile_append_of_pos]
  · rfl
  · intro f hf
    rw [bne_iff_ne]
    rintro rfl
    exact hgap hf

/-- Nothing was settled yet, or the newest packet was. -/
def UpToDate (fates : List Fate) : Prop := fates = [] ∨ fates.head? = some .accepted

theorem settled_of_upToDate {fates : List Fate} (h : UpToDate fates) :
    settled fates = fates.length := by
  rcases h with rfl | h
  · rfl
  · obtain ⟨rest, rfl⟩ := List.head?_eq_some_iff.mp h
    simp [settled]

/-- Sixteen packets in a row were lost, and `later` is what came of those after them. -/
def Severed (fates later : List Fate) : Prop :=
  ∃ k earlier, pqcTempRxCounterWindow ≤ k ∧ fates = later ++ List.replicate k .lost ++ earlier

/-- What a run keeps: the receiver waits for the packet after the last accepted one, and accepts
none after sixteen losses in a row. -/
structure Tracks (l : TempLink) : Prop where
  behind : l.fates.length ≤ l.history.sent.length
  expects : l.history.receiver.rxCounter.toNat = settled l.fates
  severed : ∀ later, Severed l.fates later → Fate.accepted ∉ later

section Steps

variable {ss : SharedSecret} {key : AesKey} {x : SentTemp}

theorem front_counter (hi : TempHistory.Inv P ss key l.history) (hx : l.front = some x) :
    x.payload.counter.toNat = l.fates.length := by
  have hmap : (l.history.sent.map (fun x => x.payload.counter.toNat))[l.fates.length]? =
      some x.payload.counter.toNat := by
    rw [List.getElem?_map, show l.history.sent[l.fates.length]? = some x from hx]
    rfl
  rw [hi.counters] at hmap
  obtain ⟨_, hget⟩ := List.getElem?_eq_some_iff.mp hmap
  simpa using hget.symm

/-- The front packet is accepted if fewer than sixteen have gone by since the last accepted. -/
theorem Tracks.front_iff (ht : Tracks l) (hi : TempHistory.Inv P ss key l.history)
    (hk : NoFalseMatch P ss key n) (hsent : l.history.sent.length ≤ n)
    (hn : n + pqcTempRxCounterWindow ≤ 2 ^ 32) (hx : l.front = some x) (out : TempPayload) :
    let r := pqcHandleEncryptedTemp P x.packet out l.history.receiver
    (r.1 = true ↔ l.fates.length - settled l.fates < pqcTempRxCounterWindow) ∧
    (r.1 = true → r.2.2.rxCounter = x.payload.counter + 1) ∧
    (r.1 = false → r.2.2.rxCounter = l.history.receiver.rxCounter) := by
  have hc := front_counter hi hx
  have hle := settled_le l.fates
  have hiff := handle_iff hi hk hsent hn (mem_of_front hx) (by rw [ht.expects, hc]; exact hle) out
  rwa [ht.expects, hc] at hiff

/-- After sixteen losses in a row the gap stays too wide. -/
theorem gap_of_severed {fates later : List Fate} (hs : Severed fates later)
    (hlater : Fate.accepted ∉ later) : pqcTempRxCounterWindow ≤ fates.length - settled fates := by
  obtain ⟨k, earlier, hk, rfl⟩ := hs
  have hgap : Fate.accepted ∉ later ++ List.replicate k .lost := by
    simp [List.mem_replicate, hlater]
  have hle := settled_le earlier
  rw [settled_after _ hgap]
  simp only [List.length_append, List.length_replicate]
  omega

/-- The next fate extends a severed run only if it is not an acceptance. -/
theorem severed_cons {fates : List Fate} {f : Fate}
    (h : ∀ later, Severed fates later → Fate.accepted ∉ later)
    (hf : f = .accepted → fates.length - settled fates < pqcTempRxCounterWindow) :
    ∀ later, Severed (f :: fates) later → Fate.accepted ∉ later := by
  rintro later ⟨k, earlier, hk, heq⟩
  cases later with
  | nil => simp
  | cons g later =>
    simp only [List.cons_append, List.cons.injEq] at heq
    obtain ⟨rfl, heq⟩ := heq
    have hs : Severed fates later := ⟨k, earlier, hk, heq⟩
    have hgap := gap_of_severed hs (h later hs)
    intro hmem
    rcases List.mem_cons.mp hmem with heq | hmem
    · have := hf heq.symm
      omega
    · exact h later hs hmem

theorem Tracks.lose (ht : Tracks l) (hx : l.front = some x) :
    Tracks { l with fates := .lost :: l.fates } where
  behind := (List.getElem?_eq_some_iff.mp hx).1
  expects := by
    rw [ht.expects]
    exact (settled_after l.fates (by decide : Fate.accepted ∉ [Fate.lost])).symm
  severed := severed_cons ht.severed (by simp)

theorem Tracks.deliver (ht : Tracks l) (hi : TempHistory.Inv P ss key l.history)
    (hk : NoFalseMatch P ss key n) (hsent : l.history.sent.length ≤ n)
    (hn : n + pqcTempRxCounterWindow ≤ 2 ^ 32) (hx : l.front = some x) (out : TempPayload) :
    Tracks { history := l.history.deliver P x.packet out
             fates := (if (pqcHandleEncryptedTemp P x.packet out l.history.receiver).1 then
               .accepted else .rejected) :: l.fates } := by
  obtain ⟨hiff, hyes, hno⟩ := ht.front_iff hi hk hsent hn hx out
  have hlt := (List.getElem?_eq_some_iff.mp hx).1
  cases hr : (pqcHandleEncryptedTemp P x.packet out l.history.receiver).1 with
  | true =>
    refine ⟨hlt, ?_, severed_cons ht.severed (fun _ => hiff.mp hr)⟩
    have hc := front_counter hi hx
    simp only [pqcTempRxCounterWindow] at hn
    simp only [TempHistory.deliver, if_true, settled, hyes hr, UInt32.toNat_add, hc]
    simp
    omega
  | false =>
    refine ⟨hlt, ?_, severed_cons ht.severed (by simp)⟩
    simp only [TempHistory.deliver, hno hr, ht.expects]
    exact (settled_after l.fates (by decide : Fate.accepted ∉ [Fate.rejected])).symm

end Steps

theorem tracks_initial (hf : TempHistory.Fresh node root) : Tracks (initial node root) where
  behind := le_rfl
  expects := by
    rw [initial, TempHistory.initial, hf.rxCounter]
    rfl
  severed := by
    rintro later ⟨k, earlier, hk, heq⟩
    have hlen := congrArg List.length heq
    simp only [initial, List.length_nil, List.length_append, List.length_replicate,
      pqcTempRxCounterWindow] at hlen hk
    omega

theorem Reaches.tracks (hf : TempHistory.Fresh node root)
    (hk : NoFalseMatch P node.ss node.aesKey n) (hn : n + pqcTempRxCounterWindow ≤ 2 ^ 32)
    (hr : Reaches P node root past l) (hsent : l.history.sent.length ≤ n) : Tracks l := by
  induction hr with
  | start hi =>
    obtain rfl := hi
    exact tracks_initial hf
  | @next _ l _ e hr hs ih =>
    obtain rfl := hs
    cases e with
    | send conn dest measurement q =>
      have hle := TempHistory.length_send_le (P := P) (h := l.history) conn dest measurement q
      have ht := ih (hle.trans hsent)
      exact ⟨ht.behind.trans hle, ht.expects, ht.severed⟩
    | lose =>
      simp only [handle] at hsent ⊢
      split at hsent
      · exact ih hsent
      · exact (ih hsent).lose ‹_›
    | deliver out =>
      simp only [handle] at hsent ⊢
      split at hsent
      · exact ih hsent
      · have hi := Reaches.reach hr |>.inv hf hk hn hsent
        exact (ih hsent).deliver hi hk hsent hn ‹_› out

/-- The packet delivered after exactly `k` losses since the last accepted one is accepted, and
the receiver resynchronised, exactly if `k` is less than sixteen; after sixteen losses in a row
nothing is accepted any more. -/
theorem temp_loss_tolerance (hf : TempHistory.Fresh node root)
    (hk : NoFalseMatch P node.ss node.aesKey n) (hn : n ≤ 2 ^ 32 - 16)
    (hr : Reaches P node root past l) (hsent : l.history.sent.length ≤ n) :
    (∀ k rest x out, l.fates = List.replicate k .lost ++ rest → UpToDate rest →
      l.front = some x →
      let r := pqcHandleEncryptedTemp P x.packet out l.history.receiver
      (r.1 = true ↔ k < pqcTempRxCounterWindow) ∧
        (r.1 = true → r.2.2.rxCounter = x.payload.counter + 1)) ∧
    ∀ later, Severed l.fates later → Fate.accepted ∉ later := by
  have hn : n + pqcTempRxCounterWindow ≤ 2 ^ 32 := by
    simp only [pqcTempRxCounterWindow]
    omega
  have ht := hr.tracks hf hk hn hsent
  have hi := hr.reach.inv hf hk hn hsent
  refine ⟨?_, ht.severed⟩
  intro k rest x out hfates hrest hx r
  obtain ⟨hiff, hyes, -⟩ := ht.front_iff hi hk hsent hn hx out
  have hgap : l.fates.length - settled l.fates = k := by
    rw [hfates, settled_after rest (by simp [List.mem_replicate]), settled_of_upToDate hrest]
    simp
  rw [hgap] at hiff
  exact ⟨hiff, hyes⟩

theorem send_established (conn : UdpConn) (dest : IpAddr) (measurement : TempPayload)
    (s : Session) (q : TxQueue) :
    (pqcSendEncryptedTemp P conn dest measurement s q).2.1.sessionIsEstablished =
      s.sessionIsEstablished := by
  unfold pqcSendEncryptedTemp
  split
  · rfl
  · dsimp only
    split <;> rfl

/-- A history in which the first of two measurements is lost and the second is on its way. -/
theorem exists_reaches_gap (hf : TempHistory.Fresh node root) (measurement : TempPayload) :
    ∃ past l x, Reaches P node root past l ∧ l.history.sent.length = 2 ∧ l.fates = [.lost] ∧
      l.front = some x := by
  have hempty : pqcTxInit.txCount < pqcTxQueueSize := by decide
  have hq := TxQueue.wellFormed_init
  let l1 := (initial node root).handle P (.send 0 0 measurement pqcTxInit)
  have hsent1 : l1.history.sent.length = 1 := by
    have hok := TempHistory.send_queued (P := P) hf.nodeEstablished hq hempty 0 0 measurement
    have hs := TempHistory.sent_send (h := .initial node root) hok
    exact congrArg List.length hs
  obtain ⟨x0, hx0⟩ : ∃ x, l1.front = some x :=
    ⟨_, List.getElem?_eq_getElem (by rw [hsent1]; exact Nat.one_pos)⟩
  let l2 := l1.handle P .lose
  have hl2 : l2 = { l1 with fates := [.lost] } := by
    simp only [l2, handle, hx0]
    rfl
  have hestablished : l1.history.sender.sessionIsEstablished = true :=
    (send_established 0 0 measurement node pqcTxInit).trans hf.nodeEstablished
  let l3 := l2.handle P (.send 0 0 measurement pqcTxInit)
  have hsent3 : l3.history.sent.length = 2 := by
    have hok := TempHistory.send_queued (P := P) hestablished hq hempty 0 0 measurement
    have hs := congrArg List.length (TempHistory.sent_send (h := l1.history) hok)
    simp only [l3, hl2, handle]
    rw [hs, List.length_append, hsent1]
    rfl
  have hfates : l3.fates = [.lost] := by
    simp only [l3, hl2, handle]
  refine ⟨_, l3, _, .next (.next (.next (.start rfl) rfl) rfl) rfl, hsent3, hfates,
    List.getElem?_eq_getElem (by rw [hsent3, hfates]; decide)⟩

theorem temp_loss_tolerance_one :
    let node := (Session.sessionInit .node 1).sessionSetEstablished
    let root := (Session.sessionInit .root 1).sessionSetEstablished
    ∃ past l x, Reaches Platform.demo node root past l ∧ l.fates = [.lost] ∧ l.front = some x ∧
      ∀ out, (pqcHandleEncryptedTemp Platform.demo x.packet out l.history.receiver).1 = true := by
  intro node root
  have hf : TempHistory.Fresh node root := ⟨rfl, rfl, rfl, rfl, rfl, rfl⟩
  obtain ⟨past, l, x, hr, hsent, hfates, hx⟩ :=
    exists_reaches_gap (P := Platform.demo) hf ⟨0, 45000, 21500⟩
  have htol := temp_loss_tolerance hf (TempHistory.demo_noFalseMatch _ _ 2) (by norm_num) hr
    hsent.le
  refine ⟨past, l, x, hr, hfates, hx, ?_⟩
  intro out
  exact (htol.1 1 [] x out hfates (Or.inl rfl) hx).1.mpr (by decide)

end TempLink

end PqcContiki
