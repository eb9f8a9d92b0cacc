import PqcContiki.StateMachineSafety
import PqcContiki.SlotOwners

/-! The TX queue and the slots of both devices stay in order, whatever they receive. -/
namespace PqcContiki

open TxQueue Relation Runs

variable {P : Platform} {me : SessionRef} {rnd : Entropy} {data : Option Bytes}
  {h : FragmentHeader} {payload : Bytes} {f f' : Fsm} {φ : Bytes → Prop} {q q' : TxQueue}

/-- Any packet may have been added. -/
theorem TxQueue.Adds.any (ha : Adds φ q q') : Adds
    (fun _ => True) q q' := ha.mono fun _ _ => trivial

theorem AckSent.adds {nodeId : UInt16} {msgId confirmedMsgId : UInt8} {ss : SharedSecret}
    {obs obs' : List Observation} (ha : AckSent nodeId msgId confirmedMsgId ss q q' obs obs') :
    Adds (fun _ => True) q q' := by
  rcases ha with ⟨rfl, -⟩ | ⟨hadds, -⟩
  · exact .refl
  · exact hadds.any

theorem Handled.adds (hh : Handled P me rnd h payload f f') :
    Adds (fun _ => True) f.tx f'.tx := by
  cases hh with
  | incomplete hi =>
    cases hi with
    | quiet _ _ | refused _ _ => exact .refl
    | stored _ _ _ _ _ ha | resent _ _ ha => exact ha.any
  | confirmed _ _ _ _ _ ha => exact ha.adds
  | ct _ _ _ _ hc =>
    cases hc with
    | rejected _ _ | failed _ _ _ => exact .refl
    | established _ _ _ _ ha => exact ha.adds
  | pk _ _ _ _ hc =>
    cases hc with
    | rejected _ _ => exact .refl
    | failed _ _ _ ha | sent _ _ _ ha => exact ha.any
  | ack _ _ _ _ _ _ _ => exact .refl

theorem Retried.adds (hr : Retried f f') : Adds (fun _ => True) f.tx f'.tx := by
  cases hr with
  | waited _ _ | stray _ _ _ => exact .refl
  | failed _ _ _ _ ha | asked _ _ _ _ _ ha | resent _ _ _ ha => exact ha.any

theorem Started.adds {hs : HsStatics} (hst : Started hs f f') :
    Adds (fun _ => True) f.tx f'.tx := by
  cases hst with
  | refused _ => exact .refl
  | failed _ ha | sent _ ha => exact ha.any

theorem wellFormed_process (hq : q.WellFormed) : q.pqcTxProcess.2.2.WellFormed := by
  by_cases hc : q.txCount = 0
  · rw [pqcTxProcess_idle hc]
    exact hq
  · obtain ⟨d, q', he, -, hq'⟩ := pqcTxProcess_eq hq hc
    rw [he]
    exact hq'

namespace Root

variable {r r' : Root} {past : List Root}

@[simp] theorem dropAndReset_tx (i : Fin sessionMaxNodes) (r : Root) :
    (r.dropAndReset i).tx = (r.tx.pqcTxDropNode (r.sessions i).nodeId).2 := by
  simp only [dropAndReset, mapSession, setSession_tx]

theorem wellFormed_act (hq : r.tx.WellFormed) (ha : Act P rnd data r r') : r'.tx.WellFormed := by
  cases ha with
  | touch hal => exact hal.tx ▸ hq
  | create _ _ _ | collect _ => exact hq
  | @reset i _ _ =>
    rw [dropAndReset_tx]
    exact (pqcTxDropNode_spec (r.sessions i).nodeId hq).2.2
  | start _ _ _ hst => exact hst.adds.wellFormed hq
  | @ctStart i _ _ _ _ _ =>
    rw [setSession_tx]
    dsimp only
    exact (pqcTxDrop_spec (r.sessions i).nodeId pqcMsgPk (r.sessions i).pendingMsgId hq).2.2
  | fragment _ _ _ _ hh => exact hh.adds.wellFormed hq
  | retry _ hr => exact hr.adds.wellFormed hq
  | transmit => exact wellFormed_process hq

theorem wellFormed_acts (hq : r.tx.WellFormed) (ha : Acts P rnd data r r') : r'.tx.WellFormed := by
  induction ha with
  | refl => exact hq
  | tail _ hlast ih => exact wellFormed_act ih hlast

theorem boot_tx (P : Platform) (rnd : Entropy) : (boot P rnd).tx = pqcTxInit := by
  unfold boot
  dsimp only
  split <;> rfl

theorem Reaches.wellFormed (h : Reaches P past r) : r.tx.WellFormed := by
  apply h.invariant (I := fun _ r => r.tx.WellFormed)
  · rintro r ⟨rnd, rfl⟩
    rw [boot_tx]
    exact wellFormed_init
  · rintro past r e r' hr hq rfl
    obtain ⟨rnd, ha⟩ := handle_acts (P := P) (Reaches.sound hr).rooted e
    exact wellFormed_acts hq ha

end Root

namespace Node

variable {n n' : Node} {past : List Node}

/-- An act keeps what holds of the slots if the fragments that stay in one keep it. -/
theorem slots_act {may : SessionRef → FragmentRxCtx → Prop} (h : Assigned may n.hs.rxSlots)
    (ha : Act P rnd data n n') (hinit : may .localSession fragmentRxInit)
    (hadd : ∀ h d, data = some d → parseFragmentHeader d = some h → Names h n.session →
      ∀ ctx ctx', may .localSession ctx →
        fragmentRxAdd ctx h.msgType h.nodeId h.msgId h.fragIdx h.totalFrags (h.payload d) =
          (true, ctx') → fragmentRxComplete ctx' = false → may .localSession ctx') :
    Assigned may n'.hs.rxSlots := by
  cases ha with
  | touch hal => exact hal.hs ▸ h
  | request _ _ _ | requested _ | reset | transmit => exact h
  | collect hc => exact h.collect hc
  | fragment hd hparse hname hh =>
    exact hh.assigned_of_incomplete h hinit (hadd _ _ hd hparse hname)
  | retry hr => exact hr.assigned h
  | reboot => exact assigned_zero _

/-- The queue is well formed, and every slot is empty or owned. -/
structure Orderly (n : Node) : Prop where
  tx : n.tx.WellFormed
  slots : Assigned (fun _ _ => True) n.hs.rxSlots

theorem orderly_boot (nodeId : UInt16) : Orderly (boot nodeId) :=
  ⟨wellFormed_init, assigned_zero _⟩

theorem wellFormed_act (hq : n.tx.WellFormed) (ha : Act P rnd data n n') : n'.tx.WellFormed := by
  cases ha with
  | touch hal => exact hal.tx.wellFormed hq
  | request _ _ hadds | requested hadds => exact hadds.wellFormed hq
  | fragment _ _ _ hh => exact hh.adds.wellFormed hq
  | retry hr => exact hr.adds.wellFormed hq
  | collect _ | reset => exact hq
  | reboot => exact wellFormed_init
  | transmit => exact wellFormed_process hq

theorem orderly_act (ho : Orderly n) (ha : Act P rnd data n n') : Orderly n' :=
  ⟨wellFormed_act ho.tx ha, slots_act ho.slots ha trivial fun _ _ _ _ _ _ _ _ _ _ => trivial⟩

theorem orderly_acts (ho : Orderly n) (ha : Acts P rnd data n n') : Orderly n' := by
  induction ha with
  | refl => exact ho
  | tail _ hlast ih => exact orderly_act ih hlast

theorem Reaches.orderly (h : Reaches P past n) : Orderly n := by
  apply h.invariant (I := fun _ n => Orderly n)
  · rintro n ⟨nodeId, rfl⟩
    exact orderly_boot nodeId
  · rintro past n e n' - ho rfl
    obtain ⟨rnd, ha⟩ := handle_acts P n e
    exact orderly_acts ho ha

end Node

end PqcContiki
