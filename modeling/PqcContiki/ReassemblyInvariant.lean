import PqcContiki.ReassemblyHoles

/-!
What a reassembly context keeps to, whatever is done with it: the counters against the bitmap and
the payloads that were accepted, and the bounds of every write.
-/
namespace PqcContiki

open Memory

/-- A call that changes a context. -/
inductive RxOp where
  | reset
  | add (c : RxCall)

/-- A context, and the fragments that it accepted since it was last reset, oldest first. -/
structure RxLog where
  ctx : FragmentRxCtx
  accepted : List RxCall

namespace RxLog

open RxCall

variable {l : RxLog} {c d : RxCall} {ctx : FragmentRxCtx} {acc : List RxCall} {i k : ℕ}

/-- `fragment_rx_init`. -/
def init : RxLog := ⟨fragmentRxInit, []⟩

/-- One call, and what it returned. -/
def run (l : RxLog) : RxOp → RxLog
  | .reset => init
  | .add c => ⟨(c.add l.ctx).2, if (c.add l.ctx).1 then l.accepted ++ [c] else l.accepted⟩

def runAll (ops : List RxOp) : RxLog := ops.foldl run init

/-- What a call returns, in terms of the fragments accepted before. -/
theorem add_returns (h : Tracks acc ctx) (c : RxCall) : (c.add ctx).1 = true ↔
    c.InBounds ∧ ∀ d ∈ acc.head?, d.key = c.key := by
  unfold RxCall.add fragmentRxAdd
  change (if ¬ c.InBounds then (false, ctx) else _).1 = true ↔ _
  by_cases hb : c.InBounds
  · rw [if_neg (not_not.mpr hb)]
    have hmatch : (ctx.active = true ∧ ¬ ctx.Matches c.msgType c.nodeId c.msgId c.totalFrags) ↔
        ¬ ∀ d ∈ acc.head?, d.key = c.key := by
      cases acc with
      | nil => simp [h.idle rfl, fragmentRxInit]
      | cons d acc =>
        obtain ⟨hact, h1, h2, h3, h4⟩ := h.active d (by simp)
        simp [hact, FragmentRxCtx.Matches, key, h1, h2, h3, h4]
    by_cases hk : ∀ d ∈ acc.head?, d.key = c.key
    · rw [if_neg (mt hmatch.mp (not_not.mpr hk))]
      exact ⟨fun _ => ⟨hb, hk⟩, fun _ => rfl⟩
    · rw [if_pos (hmatch.mpr hk)]
      exact ⟨fun hret => absurd hret Bool.false_ne_true, fun hand => absurd hand.2 hk⟩
  · rw [if_pos hb]
    exact ⟨fun hret => absurd hret Bool.false_ne_true, fun hand => absurd hand.1 hb⟩

theorem tracks_run (h : Tracks l.accepted l.ctx) (op : RxOp) :
    Tracks (l.run op).accepted (l.run op).ctx := by
  cases op with
  | reset => exact tracks_nil
  | add c =>
    have hreturns := add_returns h c
    have hadd := h.add c
    have hlog : accept l.accepted c = (l.run (.add c)).accepted := by
      by_cases hret : (c.add l.ctx).1 = true
      · simp only [accept, run, if_pos (hreturns.mp hret), if_pos hret]
      · simp only [accept, run, if_neg (mt hreturns.mpr hret), if_neg hret]
    rw [← hlog]
    exact hadd

theorem tracks_runAll (ops : List RxOp) : Tracks (runAll ops).accepted (runAll ops).ctx := by
  induction ops using List.reverseRecOn with
  | nil => exact tracks_nil
  | append_singleton ops op ih =>
    rw [runAll, List.foldl_append]
    exact tracks_run ih op

theorem add_rejected (h : (c.add ctx).1 = false) : (c.add ctx).2 = ctx := by
  unfold RxCall.add fragmentRxAdd at h ⊢
  split
  · rfl
  · split
    · rfl
    · simp_all

/-- What is written, if anything: a fresh fragment, inside the arrays. -/
structure Writes (ctx : FragmentRxCtx) (c : RxCall) : Prop where
  index : c.fragIdx < fragMaxFrags
  room : c.fragIdx * fragMaxPayloadLen + c.data.length ≤ fragMaxMessageLen
  bitmap : (c.add ctx).2.bitmap = Function.update ctx.bitmap c.fragIdx true
  buffer : (c.add ctx).2.buffer = blit ctx.buffer (c.fragIdx * fragMaxPayloadLen) c.data
  frags : (c.add ctx).2.receivedFrags = ctx.receivedFrags + 1
  len : (c.add ctx).2.receivedLen = ctx.receivedLen + c.data.length

/-- Nothing is written. -/
structure Leaves (ctx ctx' : FragmentRxCtx) : Prop where
  bitmap : ctx'.bitmap = ctx.bitmap
  buffer : ctx'.buffer = ctx.buffer
  frags : ctx'.receivedFrags = ctx.receivedFrags
  len : ctx'.receivedLen = ctx.receivedLen

theorem leaves_claim (ctx : FragmentRxCtx) (msgType : UInt8) (nodeId : UInt16) (msgId : UInt8)
    (totalFrags : ℕ) : Leaves ctx (ctx.claim msgType nodeId msgId totalFrags) := by
  unfold FragmentRxCtx.claim
  split <;> exact ⟨rfl, rfl, rfl, rfl⟩

/-- An accepted call claims the context and stores its fragment there. -/
theorem add_accepted (h : (c.add ctx).1 = true) : c.InBounds ∧
    (c.add ctx).2 = (ctx.claim c.msgType c.nodeId c.msgId c.totalFrags).store c.fragIdx c.data := by
  unfold RxCall.add fragmentRxAdd at h ⊢
  change (if ¬ c.InBounds then (false, ctx) else _).1 = true at h
  change c.InBounds ∧ (if ¬ c.InBounds then (false, ctx) else _).2 = _
  by_cases hb : c.InBounds
  · rw [if_neg (not_not.mpr hb)] at h ⊢
    refine ⟨hb, ?_⟩
    split at h
    · cases h
    · rename_i hmatch
      rw [if_neg hmatch]
  · rw [if_pos hb] at h
    cases h

theorem add_duplicate (hdup : ctx.bitmap c.fragIdx = true) : Leaves ctx (c.add ctx).2 := by
  cases hret : (c.add ctx).1 with
  | false =>
    rw [add_rejected hret]
    exact ⟨rfl, rfl, rfl, rfl⟩
  | true =>
    have hclaim := leaves_claim ctx c.msgType c.nodeId c.msgId c.totalFrags
    rw [(add_accepted hret).2, FragmentRxCtx.store, hclaim.bitmap, if_pos hdup]
    exact hclaim

/-- The sum of the payloads that were accepted stays below the message length. -/
theorem receivedLen_le (h : Tracks acc ctx) : ctx.receivedLen ≤ fragMaxMessageLen := by
  have hsum := sum_payload_le h ctx.totalFrags
  have htotal := h.total
  rw [h.len]
  simp only [fragMaxFrags, fragMaxPayloadLen, fragMaxMessageLen] at hsum htotal ⊢
  omega

theorem add_fresh (h : Tracks acc ctx) (hret : (c.add ctx).1 = true)
    (hnew : ctx.bitmap c.fragIdx = false) : Writes ctx c := by
  obtain ⟨hb, heq⟩ := add_accepted hret
  have hclaim := leaves_claim ctx c.msgType c.nodeId c.msgId c.totalFrags
  have hstore : (c.add ctx).2 =
      { ctx.claim c.msgType c.nodeId c.msgId c.totalFrags with
        buffer := blit ctx.buffer (c.fragIdx * fragMaxPayloadLen) c.data
        bitmap := Function.update ctx.bitmap c.fragIdx true
        receivedFrags := (ctx.receivedFrags + 1) % 2 ^ 8
        receivedLen := (ctx.receivedLen + c.data.length) % 2 ^ 16 } := by
    rw [heq, FragmentRxCtx.store, hclaim.bitmap, hnew, hclaim.buffer, hclaim.frags, hclaim.len]
    rfl
  have hfrags := population_le ctx.bitmap ctx.totalFrags
  have htotal := h.total
  have hlen := receivedLen_le h
  have hdata : c.data.length ≤ fragMaxPayloadLen := hb.2.2.2.1
  rw [← h.frags] at hfrags
  simp only [fragMaxFrags, fragMaxPayloadLen, fragMaxMessageLen] at htotal hlen hdata
  refine ⟨hb.2.1.trans_le hb.2.2.1, hb.2.2.2.2, ?_, ?_, ?_, ?_⟩
  · rw [hstore]
  · rw [hstore]
  · rw [hstore]
    exact Nat.mod_eq_of_lt (by omega)
  · rw [hstore]
    exact Nat.mod_eq_of_lt (by omega)

/-- The bytes of a fragment that was received are not written again. -/
theorem add_keeps (h : Tracks acc ctx) (c : RxCall) (hi : ctx.bitmap i = true)
    (hlo : i * fragMaxPayloadLen ≤ k) (hhi : k < (i + 1) * fragMaxPayloadLen) :
    (c.add ctx).2.buffer k = ctx.buffer k := by
  cases hret : (c.add ctx).1 with
  | false => rw [add_rejected hret]
  | true =>
    cases hbit : ctx.bitmap c.fragIdx with
    | true => rw [(add_duplicate hbit).buffer]
    | false =>
      have hne : i ≠ c.fragIdx := by
        rintro rfl
        rw [hbit] at hi
        cases hi
      have hdata : c.data.length ≤ fragMaxPayloadLen := (add_accepted hret).1.2.2.2.1
      simp only [fragMaxPayloadLen] at hlo hhi hdata
      rw [(add_fresh h hret hbit).buffer, blit_outside]
      simp only [fragMaxPayloadLen]
      omega

/-- The entries past `total_frags` add nothing to the population. -/
theorem population_bitmap (h : Tracks acc ctx) :
    population ctx.bitmap fragMaxFrags = ctx.receivedFrags := by
  rw [h.frags]
  refine congrArg Finset.card (Finset.ext fun i => ?_)
  simp only [Finset.mem_filter, Finset.mem_range, and_congr_left_iff]
  intro hi
  have hlt := h.index_lt (i := i) (by rw [← h.bitmap, hi])
  exact iff_of_true (hlt.trans_le h.total) hlt

/-- The representation invariant of a reassembly context, after any calls from its first
`fragment_rx_init` on, and what any further call does to it. -/
theorem reassembly_invariant (ops : List RxOp) :
    let ctx := (runAll ops).ctx
    ctx.receivedFrags = population ctx.bitmap fragMaxFrags ∧ ctx.receivedFrags < 2 ^ 8 ∧
    (∀ i, ctx.totalFrags ≤ i → ctx.bitmap i = false) ∧
    ctx.totalFrags ≤ fragMaxFrags ∧
    ctx.receivedLen =
      ∑ i ∈ Finset.range ctx.totalFrags, (payload (runAll ops).accepted i).length ∧
    ctx.receivedLen ≤ fragMaxMessageLen ∧
    (fragmentRxComplete ctx = true ↔
      ctx.active = true ∧ ∀ i < ctx.totalFrags, ctx.bitmap i = true) ∧
    ∀ c : RxCall,
      ((c.add ctx).1 = false → (c.add ctx).2 = ctx) ∧
      (ctx.bitmap c.fragIdx = true → Leaves ctx (c.add ctx).2) ∧
      ((c.add ctx).1 = true → ctx.bitmap c.fragIdx = false → Writes ctx c) ∧
      ∀ i k, ctx.bitmap i = true → i * fragMaxPayloadLen ≤ k → k < (i + 1) * fragMaxPayloadLen →
        (c.add ctx).2.buffer k = ctx.buffer k := by
  intro ctx
  have h : Tracks (runAll ops).accepted ctx := tracks_runAll ops
  have hpop := population_bitmap h
  have hfrags := population_le ctx.bitmap fragMaxFrags
  refine ⟨hpop.symm, ?_, ?_, h.total, h.len, receivedLen_le h, ?_, ?_⟩
  · rw [hpop] at hfrags
    exact hfrags.trans_lt (by decide)
  · intro i hi
    by_contra hset
    rw [Bool.not_eq_false, h.bitmap] at hset
    exact absurd (h.index_lt hset) (by omega)
  · rw [fragmentRxComplete, Bool.and_eq_true, beq_iff_eq, h.frags, population_eq_iff]
  · intro c
    exact ⟨add_rejected, add_duplicate, add_fresh h, fun i k => add_keeps h c⟩

end RxLog

end PqcContiki
