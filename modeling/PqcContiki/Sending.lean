import PqcContiki.HandshakeHandlers
import PqcContiki.FragmentationRoundTrip
import PqcContiki.TxQueueSafety

/-!
What the sends of the handshake put into the TX queue: which packets can be there, and, when
there is room, exactly which are added.
-/
namespace PqcContiki

namespace TxQueue

variable {φ ψ : Bytes → Prop} {q q' q'' : TxQueue}

/-- Every packet that waits in the queue satisfies `φ`. -/
def Holds (φ : Bytes → Prop) (q : TxQueue) : Prop :=
  ∀ i, (q.txQueue i).active = true → φ (q.txQueue i).data

/-- `q'` is `q` after some packets, all of which satisfy `φ`, were accepted. -/
inductive Adds (φ : Bytes → Prop) (q : TxQueue) : TxQueue → Prop where
  | refl : Adds φ q q
  | put {q' : TxQueue} {idx : Fin pqcTxQueueSize} {p : Bytes} (conn : UdpConn) (dest : IpAddr) :
      Adds φ q q' → (q'.txQueue idx).active = false → Sendable p → φ p →
        Adds φ q (q'.pqcTxPut idx p conn dest)

theorem Adds.trans (h : Adds φ q q') (h' : Adds φ q' q'') : Adds φ q q'' := by
  induction h' with
  | refl => exact h
  | put conn dest _ hidx hs hp ih => exact .put conn dest ih hidx hs hp

theorem Adds.mono (h : Adds φ q q') (hφ : ∀ p, φ p → ψ p) : Adds ψ q q' := by
  induction h with
  | refl => exact .refl
  | put conn dest _ hidx hs hp ih => exact .put conn dest ih hidx hs (hφ _ hp)

theorem Adds.wellFormed (h : Adds φ q q') (hq : q.WellFormed) : q'.WellFormed := by
  induction h with
  | refl => exact hq
  | put conn dest _ hidx hs _ ih => exact wellFormed_put conn dest ih hidx hs.2 hs.1

theorem Adds.holds (h : Adds φ q q') (hq : q.Holds ψ) (hφ : ∀ p, φ p → ψ p) : q'.Holds ψ := by
  induction h with
  | refl => exact hq
  | @put q' idx p conn dest _ hidx hs hp ih =>
    intro i hi
    by_cases hne : i = idx
    · subst hne
      simpa [pqcTxPut] using hφ p hp
    · simp only [pqcTxPut, Function.update_of_ne hne] at hi ⊢
      exact ih i hi

theorem Holds.mono (h : q.Holds φ) (hφ : ∀ p, φ p → ψ p) : q.Holds ψ :=
  fun i hi => hφ _ (h i hi)

theorem holds_init : Holds φ pqcTxInit := by
  intro i hi
  simp [pqcTxInit, TxEntry.zero] at hi

theorem Holds.update (h : q.Holds φ) (idx : Fin pqcTxQueueSize) (tail count : ℕ)
    (last : UInt16) : Holds φ ⟨Function.update q.txQueue idx TxEntry.zero, tail, count, last⟩ := by
  intro i hi
  by_cases hne : i = idx
  · subst hne
    simp [TxEntry.zero] at hi
  · simp only [Function.update_of_ne hne] at hi ⊢
    exact h i hi

theorem Holds.cleared (h : q.Holds φ) (hit : TxEntry → Bool) : (q.cleared hit).Holds φ := by
  intro i hi
  simp only [TxQueue.cleared] at hi ⊢
  split at hi
  · simp [TxEntry.zero] at hi
  · rename_i hne
    rw [if_neg hne]
    exact h i hi

theorem Holds.drop (h : q.Holds φ) (nodeId : UInt16) (msgType msgId : UInt8) :
    (q.pqcTxDrop nodeId msgType msgId).2.Holds φ := by
  rw [pqcTxDrop, dropLoop_eq (by simp +contextual)]
  dsimp only
  exact h.cleared _

theorem Holds.dropNode (h : q.Holds φ) (nodeId : UInt16) :
    (q.pqcTxDropNode nodeId).2.Holds φ := by
  rw [pqcTxDropNode, dropLoop_eq (by simp +contextual)]
  dsimp only
  exact h.cleared _

/-- A packet that leaves was in the queue, and the others stay. -/
theorem Holds.process (h : q.Holds φ) :
    (q.pqcTxProcess).2.2.Holds φ ∧ ∀ d, (q.pqcTxProcess).2.1 = some d → φ d.data := by
  unfold pqcTxProcess
  split
  · exact ⟨h, by simp⟩
  · cases hs : q.pqcTxSelectSlot with
    | none => exact ⟨h, by simp⟩
    | some idx =>
      refine ⟨h.update idx _ _ _, ?_⟩
      intro d hd
      dsimp only at hd
      split at hd
      · obtain rfl := Option.some.inj hd
        exact h idx (active_of_selectSlot hs)
      · cases hd

end TxQueue

open TxQueue

variable {φ : Bytes → Prop} {q : TxQueue} {dst : UdpSendCtx}

theorem sendAll_singleton {σ : Type*} (sendFn : Bytes → σ → Bool × σ) (p : Bytes) (user : σ) :
    sendAll sendFn [p] user = sendFn p user := by
  rcases h : sendFn p user with ⟨ok, user'⟩
  cases ok <;> simp [sendAll, h]

/-- One call of `send_fn` adds its packet or nothing. -/
theorem queueSend_adds (dst : UdpSendCtx) {p : Bytes} (hp : φ p) (q : TxQueue) :
    Adds φ q (queueSend dst p q).2 := by
  rcases pqcUdpSendFragment_cases q (some p) (some dst) with
    h | ⟨p', conn, dest, idx, hp', -, hs, -, hf, h⟩
  · rw [queueSend, h]
    exact .refl
  · obtain rfl := Option.some.inj hp'
    rw [queueSend, h]
    exact .put conn dest .refl (inactive_of_findFreeSlot hf) hs hp

theorem sendAll_adds (dst : UdpSendCtx) {ps : List Bytes} (hps : ∀ p ∈ ps, φ p) (q : TxQueue) :
    Adds φ q (sendAll (queueSend dst) ps q).2 := by
  induction ps generalizing q with
  | nil => exact .refl
  | cons p ps ih =>
    have hhead := queueSend_adds dst (hps p (by simp)) q
    unfold sendAll
    split
    · exact hhead.trans (ih (fun x hx => hps x (by simp [hx])) _)
    · exact hhead

theorem Message.packet_sendable (m : Message) (msgType : UInt8) (nodeId : UInt16)
    (msgId flags : UInt8) (i : ℕ) : Sendable (m.packet msgType nodeId msgId flags i) := by
  have hp := m.payload_length_le i
  refine ⟨?_, Message.valid_packet⟩
  simp only [Message.packet, List.length_append, pqcHeaderWrite_length, pqcTxMaxPacketLen,
    pqcHeaderLen, fragMaxPayloadLen] at hp ⊢
  omega

/-- The public key as a message. -/
def pkMessage (pk : PublicKey) : Message :=
  ⟨pk.toList, by simp, by simp [cwHqcPublicKeyLen, fragMaxMessageLen]⟩

/-- A ciphertext as a message. -/
def ctMessage (ct : Ciphertext) : Message :=
  ⟨ct.toList, by simp, by simp [cwHqcCiphertextLen, fragMaxMessageLen]⟩

theorem pkMessage_count (pk : PublicKey) : (pkMessage pk).count = 36 := by
  rw [Message.count_eq]
  simp [pkMessage, cwHqcPublicKeyLen]

theorem ctMessage_count (ct : Ciphertext) : (ctMessage ct).count = 71 := by
  rw [Message.count_eq]
  simp [ctMessage, cwHqcCiphertextLen]

/-- A retransmitted slice is the fragment of the first transmission. -/
theorem sendFragmentSlice_eq {σ : Type*} (m : Message) (msgType : UInt8) (nodeId : UInt16)
    (msgId flags : UInt8) {i : ℕ} (hi : i < m.count) (sendFn : Bytes → σ → Bool × σ) (user : σ) :
    sendFragmentSlice m.data msgType nodeId msgId i m.count flags sendFn user =
      sendFn (m.packet msgType nodeId msgId flags i) user := by
  have hl := m.length_pos
  have hc := m.count_eq
  simp only [sendFragmentSlice, fragMaxPayloadLen]
  rw [if_neg (by omega), if_neg (by omega), ← m.fragmentTxPacket_eq]
  rfl

theorem sendSlices_eq {σ : Type*} (m : Message) (msgType : UInt8) (nodeId : UInt16)
    (msgId flags : UInt8) (sendFn : Bytes → σ → Bool × σ) {is : List ℕ}
    (his : ∀ i ∈ is, i < m.count) (user : σ) :
    sendSlices m.data msgType nodeId msgId m.count flags sendFn is user =
      sendAll sendFn (is.map (m.packet msgType nodeId msgId flags)) user := by
  induction is generalizing user with
  | nil => rfl
  | cons i is ih =>
    simp only [sendSlices, List.map_cons, sendAll,
      sendFragmentSlice_eq m msgType nodeId msgId flags (his i (by simp))]
    split
    · exact ih (fun j hj => his j (by simp [hj])) _
    · rfl

/-- Slices of a message, whatever their indices, are fragments of it. -/
theorem sendSlices_adds (dst : UdpSendCtx) (m : Message) (msgType : UInt8) (nodeId : UInt16)
    (msgId flags : UInt8) (hφ : ∀ i < m.count, φ (m.packet msgType nodeId msgId flags i))
    (is : List ℕ) (q : TxQueue) :
    Adds φ q (sendSlices m.data msgType nodeId msgId m.count flags (queueSend dst) is q).2 := by
  induction is generalizing q with
  | nil => exact .refl
  | cons i is ih =>
    have hslice : Adds φ q (sendFragmentSlice m.data msgType nodeId msgId i m.count flags
        (queueSend dst) q).2 := by
      by_cases hi : i < m.count
      · rw [sendFragmentSlice_eq m msgType nodeId msgId flags hi]
        exact queueSend_adds dst (hφ i hi) q
      · rw [sendFragmentSlice, if_pos (Or.inr (Or.inr (not_lt.mp hi)))]
        exact .refl
    simp only [sendSlices]
    split
    · exact hslice.trans (ih _)
    · exact hslice

/-- Packets the queue has room for are all accepted, and nothing else changes. -/
theorem sendAll_queueSend (conn : UdpConn) (dest : IpAddr) {ps : List Bytes}
    (hps : ∀ p ∈ ps, Sendable p) (hq : q.WellFormed)
    (hroom : q.txCount + ps.length ≤ pqcTxQueueSize) :
    ∃ q', sendAll (queueSend ⟨some conn, some dest⟩) ps q = (true, q') ∧ q'.WellFormed ∧
      q'.contents = (ps.map fun p => (⟨some conn, p, dest⟩ : Datagram)) + q.contents := by
  induction ps generalizing q with
  | nil => exact ⟨q, rfl, hq, by simp⟩
  | cons p ps ih =>
    rw [List.length_cons] at hroom
    obtain ⟨idx, hidx, hsend⟩ :=
      pqcUdpSendFragment_eq conn dest (hps p (by simp)) hq (by omega)
    have hq' := wellFormed_put conn dest hq hidx (hps p (by simp)).2 (hps p (by simp)).1
    obtain ⟨q', hall, hw, hcont⟩ := ih (fun x hx => hps x (by simp [hx])) hq'
      (by simp only [pqcTxPut]; omega)
    refine ⟨q', ?_, hw, ?_⟩
    · simp only [sendAll, queueSend, hsend, if_true]
      exact hall
    · rw [hcont, contents_put p conn dest hidx, List.map_cons, ← Multiset.cons_coe,
        Multiset.cons_add, Multiset.add_cons]

end PqcContiki
