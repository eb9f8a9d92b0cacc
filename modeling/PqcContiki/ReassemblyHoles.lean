import PqcContiki.Reassembly

/-!
What a completed reassembly holds when the fragments are arbitrary: their lengths are only summed
up, while each goes to a fixed place of the buffer.
-/
namespace PqcContiki

open Memory

/-- The arguments of one call of `fragment_rx_add`. -/
structure RxCall where
  msgType : UInt8
  nodeId : UInt16
  msgId : UInt8
  fragIdx : ℕ
  totalFrags : ℕ
  data : Bytes

namespace RxCall

variable {calls acc : List RxCall} {c d : RxCall} {ctx : FragmentRxCtx} {i j k n : ℕ}

def add (ctx : FragmentRxCtx) (c : RxCall) : Bool × FragmentRxCtx :=
  fragmentRxAdd ctx c.msgType c.nodeId c.msgId c.fragIdx c.totalFrags c.data

/-- A context that was reset and then went through the given calls. -/
def addAll (calls : List RxCall) : FragmentRxCtx :=
  calls.foldl (fun ctx c => (c.add ctx).2) fragmentRxInit

def key (c : RxCall) : UInt8 × UInt16 × UInt8 × ℕ := (c.msgType, c.nodeId, c.msgId, c.totalFrags)

def InBounds (c : RxCall) : Prop := FragmentInBounds c.fragIdx c.totalFrags c.data.length

instance (c : RxCall) : Decidable c.InBounds := inferInstanceAs (Decidable (FragmentInBounds _ _ _))

/-- A fragment is good if it stays in bounds and belongs to the message of the first good one. -/
def accept (acc : List RxCall) (c : RxCall) : List RxCall :=
  if c.InBounds ∧ ∀ d ∈ acc.head?, d.key = c.key then acc ++ [c] else acc

def accepted (calls : List RxCall) : List RxCall := calls.foldl accept []

/-- The payload that arrived first under index `i`. -/
def payloadAt (acc : List RxCall) (i : ℕ) : Option Bytes :=
  (acc.find? fun c => c.fragIdx == i).map data

/-- The payload of index `i`, empty if there is none. -/
def payload (acc : List RxCall) (i : ℕ) : Bytes := (payloadAt acc i).getD []

/-- Byte `k` of the buffer lies in an accepted fragment. -/
def Written (acc : List RxCall) (k : ℕ) : Prop :=
  ∃ i, i * fragMaxPayloadLen ≤ k ∧ k < i * fragMaxPayloadLen + (payload acc i).length

/-- The message that is handed out: all of it was received, and nothing else is in it. -/
structure Gapless (acc : List RxCall) (ctx : FragmentRxCtx) : Prop where
  written : ∀ k < fragmentRxLen ctx, Written acc k
  bytes : ∃ buf, fragmentRxData ctx = some buf ∧
    (List.range (fragmentRxLen ctx)).map buf = (List.range ctx.totalFrags).flatMap (payload acc)

/-- Only full fragments come before a fragment that carries something. -/
def Dense (acc : List RxCall) : Prop :=
  ∀ i j, i < j → 0 < (payload acc j).length → (payload acc i).length = fragMaxPayloadLen

/-- The context holds the first accepted payload of each index and counts exactly those. -/
structure Tracks (acc : List RxCall) (ctx : FragmentRxCtx) : Prop where
  idle : acc = [] → ctx = fragmentRxInit
  active : ∀ d ∈ acc, ctx.active = true ∧ ctx.Matches d.msgType d.nodeId d.msgId d.totalFrags
  bounds : ∀ d ∈ acc, d.InBounds
  total : ctx.totalFrags ≤ fragMaxFrags
  bitmap : ∀ i, ctx.bitmap i = (payloadAt acc i).isSome
  frags : ctx.receivedFrags = population ctx.bitmap ctx.totalFrags
  len : ctx.receivedLen = ∑ i ∈ Finset.range ctx.totalFrags, (payload acc i).length
  bytes : ∀ i k, k < (payload acc i).length →
    ctx.buffer (i * fragMaxPayloadLen + k) = (payload acc i).getD k 0

theorem tracks_nil : Tracks [] fragmentRxInit := by
  constructor <;> simp [fragmentRxInit, payloadAt, payload, population_false]

theorem payloadAt_append (acc : List RxCall) (c : RxCall) (i : ℕ) :
    payloadAt (acc ++ [c]) i =
      (payloadAt acc i).or (if c.fragIdx = i then some c.data else none) := by
  rw [payloadAt, List.find?_append, Option.map_or, payloadAt]
  congr 1
  by_cases hi : c.fragIdx = i
  · simp [hi]
  · simp [hi]

theorem payload_append_of_some (h : (payloadAt acc c.fragIdx).isSome = true) (i : ℕ) :
    payloadAt (acc ++ [c]) i = payloadAt acc i := by
  rw [payloadAt_append]
  by_cases hi : c.fragIdx = i
  · subst hi
    obtain ⟨p, hp⟩ := Option.isSome_iff_exists.mp h
    simp [hp]
  · simp [hi]

theorem payload_append_self (h : payloadAt acc c.fragIdx = none) :
    payload (acc ++ [c]) c.fragIdx = c.data := by
  simp [payload, payloadAt_append, h]

theorem payload_append_of_ne (hi : i ≠ c.fragIdx) : payload (acc ++ [c]) i = payload acc i := by
  simp [payload, payloadAt_append, hi.symm]

/-- Every payload lies in the block of its index. -/
theorem Tracks.payload_length_le (h : Tracks acc ctx) (i : ℕ) :
    (payload acc i).length ≤ fragMaxPayloadLen := by
  unfold payload payloadAt
  cases hf : acc.find? fun c => c.fragIdx == i with
  | none => simp
  | some c => exact (h.bounds c (List.mem_of_find?_eq_some hf)).2.2.2.1

theorem Tracks.index_lt (h : Tracks acc ctx) (hi : (payloadAt acc i).isSome = true) :
    i < ctx.totalFrags := by
  unfold payloadAt at hi
  cases hf : acc.find? fun c => c.fragIdx == i with
  | none => simp [hf] at hi
  | some c =>
    have hmem := List.mem_of_find?_eq_some hf
    have hidx : c.fragIdx = i := by simpa using List.find?_some hf
    have htotal := (h.active c hmem).2.2.2.2
    have hlt := (h.bounds c hmem).2.1
    omega

theorem Tracks.payload_eq_nil (h : Tracks acc ctx) (hi : ctx.totalFrags ≤ i) :
    payload acc i = [] := by
  unfold payload
  cases hp : payloadAt acc i with
  | none => rfl
  | some p =>
    have := h.index_lt (i := i) (by simp [hp])
    omega

/-- What a claim leaves: the context belongs to the message of `c`, and counts as before. -/
theorem Tracks.claim (h : Tracks acc ctx) (hk : ∀ d ∈ acc.head?, d.key = c.key) :
    let ctx' := ctx.claim c.msgType c.nodeId c.msgId c.totalFrags
    ctx'.active = true ∧ ctx'.Matches c.msgType c.nodeId c.msgId c.totalFrags ∧
      ctx'.bitmap = ctx.bitmap ∧ ctx'.buffer = ctx.buffer ∧
      ctx'.receivedFrags = population ctx.bitmap c.totalFrags ∧
      ctx'.receivedLen = ∑ i ∈ Finset.range c.totalFrags, (payload acc i).length := by
  cases acc with
  | nil =>
    obtain rfl := h.idle rfl
    simp [FragmentRxCtx.claim, fragmentRxInit, FragmentRxCtx.Matches, population_false, payload,
      payloadAt]
  | cons d acc =>
    obtain ⟨hact, hm⟩ := h.active d (by simp)
    have hkey := hk d (by simp)
    simp only [key, Prod.mk.injEq] at hkey
    have hm' : ctx.Matches c.msgType c.nodeId c.msgId c.totalFrags := by
      obtain ⟨h1, h2, h3, h4⟩ := hm
      exact ⟨h1.trans hkey.1, h2.trans hkey.2.1, h3.trans hkey.2.2.1, h4.trans hkey.2.2.2⟩
    have htotal : ctx.totalFrags = c.totalFrags := hm'.2.2.2
    have hclaim : ctx.claim c.msgType c.nodeId c.msgId c.totalFrags = ctx := by
      simp [FragmentRxCtx.claim, hact]
    rw [hclaim]
    exact ⟨hact, hm', rfl, rfl, htotal ▸ h.frags, htotal ▸ h.len⟩

theorem Tracks.members (h : Tracks acc ctx) (hb : c.InBounds)
    (hk : ∀ d ∈ acc.head?, d.key = c.key) :
    let ctx' := ctx.claim c.msgType c.nodeId c.msgId c.totalFrags
    ∀ d ∈ acc ++ [c], d.InBounds ∧ ctx'.active = true ∧
      ctx'.Matches d.msgType d.nodeId d.msgId d.totalFrags := by
  intro ctx' d hd
  rcases List.mem_append.mp hd with hd | hd
  · have hclaim : ctx' = ctx := by
      simp [ctx', FragmentRxCtx.claim, (h.active d hd).1]
    rw [hclaim]
    exact ⟨h.bounds d hd, h.active d hd⟩
  · obtain rfl := List.mem_singleton.mp hd
    exact ⟨hb, (h.claim hk).1, (h.claim hk).2.1⟩

/-- An accepted fragment under an index that is taken changes nothing but the claim. -/
theorem Tracks.duplicate (h : Tracks acc ctx) (hb : c.InBounds)
    (hk : ∀ d ∈ acc.head?, d.key = c.key) (hdup : ctx.bitmap c.fragIdx = true) :
    Tracks (acc ++ [c]) (ctx.claim c.msgType c.nodeId c.msgId c.totalFrags) := by
  obtain ⟨-, hm, hbits, hbuf, hfrags, hlen⟩ := h.claim hk
  have hmem := h.members hb hk
  have htotal := hm.2.2.2
  have hsome := hdup
  rw [h.bitmap] at hsome
  have hsame : ∀ i, payload (acc ++ [c]) i = payload acc i := by
    intro i
    rw [payload, payload_append_of_some hsome, payload]
  refine ⟨by simp, fun d hd => (hmem d hd).2, fun d hd => (hmem d hd).1, ?_, ?_, ?_, ?_, ?_⟩
  · rw [htotal]
    exact hb.2.2.1
  · intro i
    rw [hbits, h.bitmap, payload_append_of_some hsome]
  · rw [hfrags, hbits, htotal]
  · rw [hlen, htotal]
    simp only [hsame]
  · intro i k hk
    rw [hsame] at hk ⊢
    rw [hbuf]
    exact h.bytes i k hk

theorem sum_payload_le (h : Tracks acc ctx) (n : ℕ) :
    ∑ i ∈ Finset.range n, (payload acc i).length ≤ n * fragMaxPayloadLen := by
  have hle := Finset.sum_le_card_nsmul (Finset.range n) (fun i => (payload acc i).length)
    fragMaxPayloadLen (fun i _ => h.payload_length_le i)
  simpa using hle

/-- A fragment under a new index is counted and copied to its place. -/
theorem Tracks.fresh (h : Tracks acc ctx) (hb : c.InBounds)
    (hk : ∀ d ∈ acc.head?, d.key = c.key) (hnew : ctx.bitmap c.fragIdx = false) :
    Tracks (acc ++ [c])
      ((ctx.claim c.msgType c.nodeId c.msgId c.totalFrags).store c.fragIdx c.data) := by
  obtain ⟨-, hm, hbits, hbuf, hfrags, hlen⟩ := h.claim hk
  have hmem := h.members hb hk
  have htotal := hm.2.2.2
  have hnone : payloadAt acc c.fragIdx = none := by
    rw [h.bitmap] at hnew
    simpa using hnew
  set ctx' := ctx.claim c.msgType c.nodeId c.msgId c.totalFrags with hctx'
  have hstore : ctx'.store c.fragIdx c.data =
      { ctx' with
        buffer := Memory.blit ctx'.buffer (c.fragIdx * fragMaxPayloadLen) c.data
        bitmap := Function.update ctx'.bitmap c.fragIdx true
        receivedFrags := (ctx'.receivedFrags + 1) % 2 ^ 8
        receivedLen := (ctx'.receivedLen + c.data.length) % 2 ^ 16 } := by
    rw [FragmentRxCtx.store, hbits, hnew]
    rfl
  have hidx : c.fragIdx < c.totalFrags := hb.2.1
  have hmax : c.totalFrags ≤ fragMaxFrags := hb.2.2.1
  have hsum := sum_payload_le h c.totalFrags
  have hdata : c.data.length ≤ fragMaxPayloadLen := hb.2.2.2.1
  simp only [fragMaxFrags, fragMaxMessageLen, fragMaxPayloadLen] at hmax hsum hdata
  have hpop := population_update hidx hnew
  have hple := population_le (Function.update ctx.bitmap c.fragIdx true) c.totalFrags
  have hnewsum : ∑ i ∈ Finset.range c.totalFrags, (payload (acc ++ [c]) i).length =
      (∑ i ∈ Finset.range c.totalFrags, (payload acc i).length) + c.data.length := by
    rw [← Finset.add_sum_erase _ _ (Finset.mem_range.mpr hidx), payload_append_self hnone,
      ← Finset.add_sum_erase (Finset.range c.totalFrags) (fun i => (payload acc i).length)
        (Finset.mem_range.mpr hidx)]
    have hzero : (payload acc c.fragIdx).length = 0 := by simp [payload, hnone]
    have hrest : ∀ i ∈ (Finset.range c.totalFrags).erase c.fragIdx,
        (payload (acc ++ [c]) i).length = (payload acc i).length := by
      intro i hi
      rw [payload_append_of_ne (Finset.ne_of_mem_erase hi)]
    rw [Finset.sum_congr rfl hrest]
    omega
  rw [hstore]
  refine ⟨by simp, fun d hd => (hmem d hd).2, fun d hd => (hmem d hd).1, ?_, ?_, ?_, ?_, ?_⟩
  · rw [htotal]
    exact hb.2.2.1
  · intro i
    rw [hbits, payloadAt_append]
    by_cases hi : i = c.fragIdx
    · subst hi
      simp [hnone]
    · simp [hi, Ne.symm hi, h.bitmap]
  · simp only [hfrags, hbits, htotal, hpop]
    omega
  · simp only [hlen, htotal, hnewsum]
    omega
  · intro i k hk
    have hli := h.payload_length_le i
    simp only [fragMaxPayloadLen] at hli ⊢
    by_cases hi : i = c.fragIdx
    · subst hi
      rw [payload_append_self hnone] at hk ⊢
      rw [blit_inside (by omega) (by omega), List.getD_eq_getElem _ _ hk]
      simp
    · rw [payload_append_of_ne hi] at hk ⊢
      -- two different blocks of 64 bytes do not meet
      rw [blit_outside (by omega), hbuf]
      exact h.bytes i k hk

/-- The model of acceptance agrees with the code, and the context goes on tracking. -/
theorem Tracks.add (h : Tracks acc ctx) (c : RxCall) : Tracks (accept acc c) (c.add ctx).2 := by
  unfold accept RxCall.add fragmentRxAdd
  change Tracks _ (if ¬ c.InBounds then (false, ctx) else _).2
  by_cases hb : c.InBounds
  · rw [if_neg (not_not.mpr hb)]
    by_cases hk : ∀ d ∈ acc.head?, d.key = c.key
    · rw [if_pos ⟨hb, hk⟩, if_neg]
      · cases hbit : ctx.bitmap c.fragIdx with
        | true =>
          have hclaimed : (ctx.claim c.msgType c.nodeId c.msgId c.totalFrags).bitmap c.fragIdx =
              true := by rw [(h.claim hk).2.2.1, hbit]
          rw [FragmentRxCtx.store, hclaimed]
          exact h.duplicate hb hk hbit
        | false => exact h.fresh hb hk hbit
      · rintro ⟨hact, hn⟩
        have hclaim : ctx.claim c.msgType c.nodeId c.msgId c.totalFrags = ctx := by
          simp [FragmentRxCtx.claim, hact]
        exact hn (hclaim ▸ (h.claim hk).2.1)
    · rw [if_neg (fun hand => hk hand.2), if_pos]
      · exact h
      · push Not at hk
        obtain ⟨d, hd, hne⟩ := hk
        obtain ⟨hact, hm⟩ := h.active d (List.mem_of_mem_head? hd)
        refine ⟨hact, ?_⟩
        rintro ⟨h1, h2, h3, h4⟩
        apply hne
        simp only [key]
        rw [← h1, ← h2, ← h3, ← h4, ← hm.1, ← hm.2.1, ← hm.2.2.1, ← hm.2.2.2]
  · rw [if_neg (fun hand => hb hand.1), if_pos hb]
    exact h

theorem tracks_addAll (calls : List RxCall) : Tracks (accepted calls) (addAll calls) := by
  induction calls using List.reverseRecOn with
  | nil => exact tracks_nil
  | append_singleton calls c ih =>
    rw [accepted, addAll, List.foldl_append, List.foldl_append]
    exact ih.add c

theorem length_flatMap_payload (acc : List RxCall) (n : ℕ) :
    ((List.range n).flatMap (payload acc)).length =
      ∑ i ∈ Finset.range n, (payload acc i).length := by
  induction n with
  | zero => simp
  | succ n ih => simp [List.range_succ, Finset.sum_range_succ, ih]

/-- Before a payload that is not empty everything is full. -/
theorem Dense.sum_eq (h : Dense acc) (hn : 0 < (payload acc n).length) :
    ∑ i ∈ Finset.range n, (payload acc i).length = n * fragMaxPayloadLen := by
  rw [Finset.sum_congr rfl (fun i hi => h i n (Finset.mem_range.mp hi) hn)]
  simp

/-- With dense payloads byte `k` of the concatenation is byte `k % 64` of payload `k / 64`. -/
theorem Dense.flatMap_getD (h : Dense acc) (hle : ∀ i, (payload acc i).length ≤ fragMaxPayloadLen)
    (hk : k < ∑ i ∈ Finset.range n, (payload acc i).length) :
    k % 64 < (payload acc (k / 64)).length ∧
      ((List.range n).flatMap (payload acc)).getD k 0 = (payload acc (k / 64)).getD (k % 64) 0 := by
  induction n with
  | zero => simp at hk
  | succ n ih =>
    rw [Finset.sum_range_succ] at hk
    rw [List.range_succ, List.flatMap_append]
    have hlen := length_flatMap_payload acc n
    by_cases hlt : k < ∑ i ∈ Finset.range n, (payload acc i).length
    · rw [List.getD_append _ _ _ _ (by omega)]
      exact ih hlt
    · have hpos : 0 < (payload acc n).length := by omega
      have hsum := h.sum_eq hpos
      have hn := hle n
      simp only [fragMaxPayloadLen] at hsum hn
      have hdiv : k / 64 = n := by omega
      have hmod : k % 64 = k - n * 64 := by omega
      refine ⟨by rw [hdiv]; omega, ?_⟩
      rw [List.getD_append_right _ _ _ _ (by omega), hdiv, hmod, hlen, hsum]
      simp

/-- Without holes a fragment that is short has nothing after it. -/
theorem dense_of_written (h : Tracks acc ctx)
    (hw : ∀ k < ∑ i ∈ Finset.range ctx.totalFrags, (payload acc i).length, Written acc k) :
    Dense acc := by
  intro i
  induction i using Nat.strong_induction_on with
  | _ i ih =>
    intro j hij hj
    by_contra hshort
    have hli := h.payload_length_le i
    have hbefore : ∑ m ∈ Finset.range i, (payload acc m).length = i * fragMaxPayloadLen := by
      rw [Finset.sum_congr rfl (fun m hm =>
        ih m (Finset.mem_range.mp hm) j (by have := Finset.mem_range.mp hm; omega) hj)]
      simp
    have hjn : j < ctx.totalFrags := by
      by_contra hge
      rw [h.payload_eq_nil (by omega)] at hj
      simp at hj
    -- the first byte after the short fragment counts as part of the message
    have hinside : i * fragMaxPayloadLen + (payload acc i).length <
        ∑ m ∈ Finset.range ctx.totalFrags, (payload acc m).length := by
      have hsub : insert j (Finset.range (i + 1)) ⊆ Finset.range ctx.totalFrags := by
        intro m hm
        rcases Finset.mem_insert.mp hm with rfl | hm
        · exact Finset.mem_range.mpr hjn
        · have := Finset.mem_range.mp hm
          exact Finset.mem_range.mpr (by omega)
      have hle := Finset.sum_le_sum_of_subset (f := fun m => (payload acc m).length) hsub
      rw [Finset.sum_insert (by simp; omega), Finset.sum_range_succ, hbefore] at hle
      omega
    obtain ⟨m, hlo, hhi⟩ := hw _ hinside
    have hlm := h.payload_length_le m
    simp only [fragMaxPayloadLen] at hlo hhi hli hshort hlm
    obtain rfl : m = i := by omega
    omega

/-- A completed reassembly has no holes exactly when only full fragments come before a fragment
that carries something. -/
theorem completed_reassembly_gapless_iff (calls : List RxCall)
    (hc : fragmentRxComplete (addAll calls) = true) :
    Gapless (accepted calls) (addAll calls) ↔ Dense (accepted calls) := by
  have h := tracks_addAll calls
  have hlen : fragmentRxLen (addAll calls) =
      ∑ i ∈ Finset.range (addAll calls).totalFrags, (payload (accepted calls) i).length := by
    rw [fragmentRxLen, if_pos hc, h.len]
  constructor
  · intro hg
    apply dense_of_written h
    rw [← hlen]
    exact hg.written
  · intro hd
    have hat := fun k (hk : k < fragmentRxLen (addAll calls)) =>
      hd.flatMap_getD h.payload_length_le (hlen ▸ hk)
    refine ⟨?_, (addAll calls).buffer, by rw [fragmentRxData, if_pos hc], ?_⟩
    · intro k hk
      have hin := (hat k hk).1
      refine ⟨k / 64, ?_, ?_⟩ <;> simp only [fragMaxPayloadLen] <;> omega
    · apply List.ext_getElem
      · rw [List.length_map, List.length_range, length_flatMap_payload, hlen]
      · intro k hk hk'
        rw [List.length_map, List.length_range] at hk
        obtain ⟨hin, hget⟩ := hat k hk
        have hbyte := h.bytes (k / 64) (k % 64) hin
        rw [show k / 64 * fragMaxPayloadLen + k % 64 = k by
          simp only [fragMaxPayloadLen]; omega] at hbyte
        rw [List.getElem_map, List.getElem_range, hbyte, ← hget, List.getD_eq_getElem _ _ hk']

/-- Two fragments of a message: the first carries `m` bytes, the last `n`. -/
def pair (m n : ℕ) : List RxCall :=
  [⟨pqcMsgPk, 1, 0, 0, 2, List.replicate m 7⟩, ⟨pqcMsgPk, 1, 0, 1, 2, List.replicate n 7⟩]

/-- Ten bytes at index 0 and 64 at index 1 count as 74, of which 54 never arrived. -/
theorem completed_reassembly_hole :
    ¬ ∀ calls, fragmentRxComplete (addAll calls) = true →
      Gapless (accepted calls) (addAll calls) := by
  intro h
  obtain ⟨i, hlo, hhi⟩ := (h (pair 10 64) rfl).written 10 (by decide)
  obtain rfl : i = 0 := by
    simp only [fragMaxPayloadLen] at hlo
    omega
  exact absurd hhi (by decide)

/-- A full fragment and a last one of five bytes. -/
theorem completed_reassembly_full_fragment :
    fragmentRxComplete (addAll (pair 64 5)) = true ∧
      Gapless (accepted (pair 64 5)) (addAll (pair 64 5)) := by
  refine ⟨rfl, (completed_reassembly_gapless_iff (pair 64 5) rfl).mpr ?_⟩
  intro i j hij hj
  have htotal : (addAll (pair 64 5)).totalFrags = 2 := rfl
  have hj2 : j < 2 := by
    by_contra hge
    rw [(tracks_addAll (pair 64 5)).payload_eq_nil (by omega)] at hj
    simp at hj
  obtain rfl : i = 0 := by omega
  rfl

end RxCall

end PqcContiki
