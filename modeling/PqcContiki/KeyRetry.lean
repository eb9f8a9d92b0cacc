import PqcContiki.AtomicSends
import PqcContiki.QueueSoundness

/-!
The node's retry while the key arrives. The root asks for the rest of a ciphertext; the node gives
its slot back and asks for the whole key again.
-/
namespace PqcContiki

open TxQueue

variable {P : Platform} {me : SessionRef} {clk : Clock} {dest : IpAddr} {f : Fsm} {slots : Slots}
  {i : Fin hsRxSlotCount} {may : SessionRef → FragmentRxCtx → Prop}

/-- Nothing is left of a session's slot once it was given back. -/
theorem Assigned.owns_released (h : Assigned may slots) (me : SessionRef) (j : Fin hsRxSlotCount) :
    HsStatics.owns me (released me slots j) = false := by
  unfold released
  cases hfind : (List.finRange hsRxSlotCount).find? fun k => HsStatics.owns me (slots k) with
  | none => simpa using List.find?_eq_none.mp hfind j (List.mem_finRange j)
  | some k =>
    have hk := List.find?_some hfind
    dsimp only
    by_cases hj : j = k
    · rw [hj, Function.update_self]
      rfl
    · rw [Function.update_of_ne hj, ← Bool.not_eq_true]
      intro hown
      exact hj (h.single j k me hown hk)

/-- The GETPK a node sends when it retries. -/
def getpkRetry (s : Session) : Bytes :=
  pqcHeaderWrite pqcMsgGetpk s.nodeId s.pendingMsgId 0 1 0 pqcFlagRetry

theorem getpkRetry_sendable (s : Session) : Sendable (getpkRetry s) := by
  have hv : pqcHeaderValid (getpkRetry s ++ []) = true := pqcHeaderValid_write rfl
  refine ⟨?_, by simpa using hv⟩
  rw [getpkRetry, pqcHeaderWrite_length]
  decide

namespace Fsm

theorem sendGetpkRetry_room (hq : f.tx.WellFormed) (hempty : f.tx.txCount = 0) (dest : IpAddr) :
    ∃ q, f.sendGetpkRetry ⟨some udpConn, some dest⟩ = (true, f.setTx q) ∧
      Queued udpConn dest [getpkRetry f.s] f.tx q := by
  have hsendable : ∀ p ∈ [getpkRetry f.s], Sendable p := by
    simpa using getpkRetry_sendable f.s
  obtain ⟨q, hsend, -, hcont⟩ := sendAll_queueSend udpConn dest hsendable hq (by simp [hempty])
  rw [sendAll_singleton] at hsend
  refine ⟨q, ?_, hcont⟩
  rw [sendGetpkRetry]
  exact congrArg (fun r => (r.1, f.setTx r.2)) hsend

/-- With packets still to be sent, a retry that is due waits. -/
theorem hsFsmRetry_postponed (hdue : f.s.sessionRetryDue (clk 1) = true)
    (hp : f.tx.pqcTxHasPending = true) (dst : UdpSendCtx) :
    (f.hsFsmRetry P me clk dst).2 = (f.rxSlotsGc P (clk 0)).mapS
      (Session.setRetryDeadline (P.clockAdd (clk 2) P.hsRetryTxDrainDelay)) := by
  unfold hsFsmRetry
  have hs : (f.rxSlotsGc P (clk 0)).s = f.s := rfl
  have htx : (f.rxSlotsGc P (clk 0)).tx = f.tx := rfl
  simp only [hs, htx, hdue, hp, Bool.not_true, Bool.false_eq_true, if_false, if_true]

/-- With nothing to be sent, the node gives its slot back and asks for the key. -/
theorem hsFsmRetry_getpk (me : SessionRef) (hrole : f.s.role = .node)
    (hpend : f.s.pendingMsgType = pqcMsgGetpk) (hbudget : f.s.retryCount < sessionMaxRetries)
    (hdue : f.s.sessionRetryDue (clk 1) = true)
    (hp : f.tx.pqcTxHasPending = false) (hq : f.tx.WellFormed) (dest : IpAddr) :
    let f' := (f.hsFsmRetry P me clk ⟨some udpConn, some dest⟩).2
    f'.hs.rxSlots = released me (f.hs.rxSlotsGc P (clk 0)).rxSlots ∧
      Queued udpConn dest [getpkRetry f.s] f.tx f'.tx := by
  have hempty : f.tx.txCount = 0 := by simpa [pqcTxHasPending] using hp
  set g := (f.rxSlotsGc P (clk 0)).rxSlotRelease me with hg
  obtain ⟨q, hsend, hqueued⟩ := sendGetpkRetry_room (f := g) hq hempty dest
  have hs : (f.rxSlotsGc P (clk 0)).s = f.s := rfl
  have htx : (f.rxSlotsGc P (clk 0)).tx = f.tx := rfl
  have hgs : g.s = f.s := rfl
  have hcan : f.s.sessionCanRetry = true := by simpa [Session.sessionCanRetry] using hbudget
  intro f'
  have hf' : f' = (g.setTx q).mapS (Session.hsMarkRetryForTransfer P (clk 4) pqcHeaderLen) := by
    unfold f' hsFsmRetry retryPending
    simp only [hs, htx, hdue, hp, hcan, ← hg, hgs, hsend, hpend, Session.sessionIsRoot,
      Session.sessionIsNode, hrole]
    simp
  rw [hf']
  refine ⟨?_, hqueued⟩
  rw [mapS_hs, setTx_hs, hg, rxSlotRelease_eq]
  rfl

end Fsm

namespace Node

variable {n : Node} {past : List Node}

/-- Part of the key has arrived in slot `i`, and a NACK for the rest was sent. -/
structure Recovering (n : Node) (i : Fin hsRxSlotCount) : Prop where
  state : n.session.state = .waitPk
  budget : n.session.retryCount < sessionMaxRetries
  slot : HsStatics.owns .localSession (n.hs.rxSlots i) = true
  active : (n.hs.rxSlots i).ctx.active = true
  msgType : (n.hs.rxSlots i).ctx.msgType = pqcMsgPk
  incomplete : fragmentRxComplete (n.hs.rxSlots i).ctx = false
  asked : 0 < (n.hs.rxSlots i).lastNackMissingCount

/-- The fragments in slot `i` are still there, and unless the retry waits for the queue the missing
ones were asked for. -/
structure Persists (i : Fin hsRxSlotCount) (dest : IpAddr) (f f' : Fsm) : Prop where
  slot : HsStatics.owns .localSession (f'.hs.rxSlots i) = true
  ctx : (f'.hs.rxSlots i).ctx = (f.hs.rxSlots i).ctx
  asks : f.tx.pqcTxHasPending = false →
    ∃ p, IsNack f.s.nodeId p ∧ Queued udpConn dest [p] f.tx f'.tx

theorem Recovering.pending (h : Recovering n i) (hs : Sound n) :
    n.session.pendingMsgType = pqcMsgGetpk := by
  rcases hs.coherent.pending with ⟨hrest, -⟩ | ⟨hawaits, -⟩
  · simp [SessionCore.AtRest, h.state] at hrest
  · simp only [SessionCore.Awaits, Session.core_role, Session.core_state, hs.role, h.state,
      Session.core_pendingMsgType] at hawaits
    simpa using hawaits

theorem Recovering.abandons (h : Recovering n i) (hn : Reaches P past n) (clk : Clock)
    (hdue : n.session.sessionRetryDue (clk 1) = true) (hp : n.tx.pqcTxHasPending = false)
    (dest : IpAddr) :
    let f' := (n.fsm.hsFsmRetry P .localSession clk ⟨some udpConn, some dest⟩).2
    (∀ j, HsStatics.owns .localSession (f'.hs.rxSlots j) = false) ∧
      Queued udpConn dest [getpkRetry n.session] n.tx f'.tx := by
  have hs := hn.sound.1
  obtain ⟨hslots, hqueued⟩ := Fsm.hsFsmRetry_getpk (P := P) (f := n.fsm) .localSession hs.role
    (h.pending hs) h.budget hdue hp hn.orderly.tx dest
  refine ⟨?_, hqueued⟩
  intro j
  rw [hslots]
  obtain ⟨slots, hgc, hcol⟩ := rxSlotsGc_eq P (clk 0) n.fsm.hs
  rw [hgc]
  exact (hn.orderly.slots.collect hcol).owns_released _ j

theorem Recovering.postpones (h : Recovering n i) (hdue : n.session.sessionRetryDue (clk 1) = true)
    (hp : n.tx.pqcTxHasPending = true) (dest : IpAddr) :
    Persists i dest n.fsm (n.fsm.hsFsmRetry P .localSession clk ⟨some udpConn, some dest⟩).2 ↔
      HsStatics.slotExpired P (clk 0) (n.hs.rxSlots i) = false := by
  rw [Fsm.hsFsmRetry_postponed (f := n.fsm) hdue hp]
  have hslot : ((n.fsm.rxSlotsGc P (clk 0)).mapS (Session.setRetryDeadline
      (P.clockAdd (clk 2) P.hsRetryTxDrainDelay))).hs.rxSlots i =
      if HsStatics.slotExpired P (clk 0) (n.hs.rxSlots i) then RxSlot.zero
      else n.hs.rxSlots i := rfl
  cases hexp : HsStatics.slotExpired P (clk 0) (n.hs.rxSlots i) with
  | true =>
    rw [hexp, if_pos rfl] at hslot
    refine ⟨?_, fun hno => by cases hno⟩
    intro hper
    have hown := hper.slot
    rw [hslot] at hown
    cases hown
  | false =>
    rw [hexp, if_neg (by simp)] at hslot
    refine ⟨fun _ => rfl, fun _ => ⟨by rw [hslot]; exact h.slot, by rw [hslot]; rfl, ?_⟩⟩
    intro hno
    rw [fsm_tx, hp] at hno
    cases hno

/-- A due retry keeps the fragments of the key only while it waits for the queue and the slot has
not expired. Otherwise the key is asked for from the start. -/
theorem key_retry_persists (hn : Reaches P past n) (h : Recovering n i) (clk : Clock)
    (hdue : n.session.sessionRetryDue (clk 1) = true) (dest : IpAddr) :
    let f' := (n.fsm.hsFsmRetry P .localSession clk ⟨some udpConn, some dest⟩).2
    (Persists i dest n.fsm f' ↔ n.tx.pqcTxHasPending = true ∧
      HsStatics.slotExpired P (clk 0) (n.hs.rxSlots i) = false) ∧
    (n.tx.pqcTxHasPending = false →
      (∀ j, HsStatics.owns .localSession (f'.hs.rxSlots j) = false) ∧
        Queued udpConn dest [getpkRetry n.session] n.tx f'.tx) := by
  intro f'
  cases hp : n.tx.pqcTxHasPending with
  | true =>
    refine ⟨?_, fun hno => by cases hno⟩
    rw [h.postpones hdue hp dest]
    simp
  | false =>
    have hab := h.abandons hn clk hdue hp dest
    refine ⟨?_, fun _ => hab⟩
    constructor
    · intro hper
      have hown := hper.slot
      rw [hab.1 i] at hown
      cases hown
    · intro hno
      cases hno.1

def lastFragment : Bytes := pqcHeaderWrite pqcMsgPk 1 0 35 36 9 pqcFlagNone ++ List.replicate 9 0

def afterLastFragment : Node :=
  ((((boot 1).handle Platform.demo (.routing (fun _ => 0) ⟨true, some 5, true⟩)).handle
    Platform.demo .transmit).handle Platform.demo (.receive (fun _ => 0) 0 lastFragment)).handle
    Platform.demo .transmit

theorem reaches_afterLastFragment : ∃ past, Reaches Platform.demo past afterLastFragment :=
  ⟨_, .next (.next (.next (.next (.start ⟨1, rfl⟩) rfl) rfl) rfl) rfl⟩

theorem recovering_afterLastFragment : Recovering afterLastFragment 0 := by
  constructor <;> decide +kernel

/-- Its NACK has left the queue when the retry is due, so the fragment is lost. -/
theorem key_retry_persists_last :
    let n := afterLastFragment
    ¬ Persists 0 5 n.fsm
      (n.fsm.hsFsmRetry Platform.demo .localSession (fun _ => 512) ⟨some udpConn, some 5⟩).2 := by
  intro n hper
  obtain ⟨past, hn⟩ := reaches_afterLastFragment
  have hdue : n.session.sessionRetryDue 512 = true := by decide +kernel
  have hall := key_retry_persists hn recovering_afterLastFragment (fun _ => 512) hdue 5
  have hpending := (hall.1.mp hper).1
  revert hpending
  decide +kernel

/-- The retry gives the slot of the reassembly back and queues another GETPK. -/
theorem key_retry_discards_fragment :
    let n := afterLastFragment
    let f' := (n.fsm.hsFsmRetry Platform.demo .localSession (fun _ => 512)
      ⟨some udpConn, some 5⟩).2
    (∃ past, Reaches Platform.demo past n) ∧ Recovering n 0 ∧
      n.session.sessionRetryDue 512 = true ∧ (n.hs.rxSlots 0).ctx.receivedFrags = 1 ∧
      (f'.hs.rxSlots 0).active = false ∧
      Queued udpConn 5 [getpkRetry n.session] n.tx f'.tx ∧ ¬ Persists 0 5 n.fsm f' := by
  obtain ⟨past, hn⟩ := reaches_afterLastFragment
  have hdue : afterLastFragment.session.sessionRetryDue 512 = true := by decide +kernel
  have hempty : afterLastFragment.tx.pqcTxHasPending = false := by decide +kernel
  have hab := recovering_afterLastFragment.abandons hn (fun _ => 512) hdue hempty 5
  dsimp only at hab ⊢
  refine ⟨⟨past, hn⟩, recovering_afterLastFragment, hdue, by decide +kernel, by decide +kernel,
    hab.2, ?_⟩
  intro hper
  have hown := hper.slot
  rw [hab.1 0] at hown
  cases hown

end Node

end PqcContiki
