import PqcContiki.AtomicSends
import PqcContiki.QueueSoundness

/-! A call that fails a session leaves its secrets and its ciphertext as they were. -/
namespace PqcContiki

open TxQueue Relation Runs

variable {P : Platform} {me : SessionRef} {clk : Clock} {rnd : Entropy} {conn : UdpConn}
  {dest : IpAddr} {h : FragmentHeader} {payload : Bytes} {ctx : FragmentRxCtx} {f f' f'' : Fsm}
  {s s' : Session}

def Session.Keyless (s : Session) : Prop := s.ss = Buffer.zero _ ∧ s.aesKey = Buffer.zero _

/-- A session that has not agreed on keys, or has failed to, has none. -/
def Session.Confined (s : Session) : Prop :=
  s.state = .idle ∨ s.state = .waitPk ∨ s.state = .waitCt ∨ s.state = .failed → s.Keyless

/-- The encapsulation of the vendored KEM always returns 0. -/
def Platform.Encapsulates (P : Platform) : Prop := ∀ rnd pk, (P.cryptoKemEnc rnd pk).1 = 0

/-- A decapsulation of the vendored KEM that fails masks its secret to zero. -/
def Platform.MasksFailure (P : Platform) : Prop :=
  ∀ sk ct, (P.cryptoKemDec sk ct).1 ≠ 0 → (P.cryptoKemDec sk ct).2 = Buffer.zero _

/-- A session that is failed now has the secrets it had. -/
def FailsCleanly (f f' : Fsm) : Prop :=
  f'.s.state = .failed → f'.s.ss = f.s.ss ∧ f'.s.aesKey = f.s.aesKey ∧ f'.hs.nodeCt = f.hs.nodeCt

/-- The packet completes a message of the given type, and `ctx` is its context. -/
def Fsm.Completes (P : Platform) (me : SessionRef) (clk : Clock) (data : Bytes) (f : Fsm)
    (msgType : UInt8) (ctx : FragmentRxCtx) : Prop :=
  let slot := (f.hs.rxSlotsGc P (clk 0)).rxSlotGet P (clk 1) (clk 2) me
  ∃ h i, parseFragmentHeader data = some h ∧ Names h f.s ∧ h.msgType = msgType ∧
    slot.1 = some i ∧
    fragmentRxAdd (slot.2.rxSlots i).ctx h.msgType h.nodeId h.msgId h.fragIdx h.totalFrags
      (h.payload data) = (true, ctx) ∧
    fragmentRxComplete ctx = true

namespace FailsCleanly

theorem of_core (hs : Skips f.s f'.s) (hct : f'.hs.nodeCt = f.hs.nodeCt) : FailsCleanly f f' := by
  obtain ⟨n, hn⟩ := hs
  intro _
  exact ⟨congrArg SessionCore.ss hn, congrArg SessionCore.aesKey hn, hct⟩

theorem of_fail (hs : f'.s.core = f.s.core.fail) (hct : f'.hs.nodeCt = f.hs.nodeCt) :
    FailsCleanly f f' :=
  fun _ => ⟨congrArg SessionCore.ss hs, congrArg SessionCore.aesKey hs, hct⟩

theorem of_state (hne : f'.s.state ≠ .failed) : FailsCleanly f f' := fun hf => absurd hf hne

/-- What came before changed neither secrets nor the buffer. -/
theorem rebase (hs : f'.s.ss = f.s.ss ∧ f'.s.aesKey = f.s.aesKey)
    (hct : f'.hs.nodeCt = f.hs.nodeCt) (h : FailsCleanly f' f'') : FailsCleanly f f'' := by
  intro hf
  obtain ⟨hss, hkey, hnode⟩ := h hf
  exact ⟨hss.trans hs.1, hkey.trans hs.2, hnode.trans hct⟩

end FailsCleanly

/-- With room for the ciphertext the node goes on to wait for its acknowledgement. -/
theorem sendCt_room (hq : f.tx.WellFormed) (hroom : f.txHasRoomFor cwHqcCiphertextLen = true)
    (conn : UdpConn) (dest : IpAddr) :
    (f.sendCt P clk ⟨some conn, some dest⟩).2.s.state = .waitAck := by
  have hlen : (ctMessage f.hs.nodeCt).data.length = cwHqcCiphertextLen := Buffer.length_toList _
  unfold Fsm.sendCt
  dsimp only
  set g := f.mapS _ with hg
  obtain ⟨q, hsend, -⟩ := fragmentTx_room (f := g) conn dest (ctMessage f.hs.nodeCt) pqcMsgCt
    f.s.nextMsgId pqcFlagNone hq (hlen ▸ hroom)
  change g.fragmentTx _ f.hs.nodeCt.toList _ _ _ = _ at hsend
  rw [hsend]
  simp [hg]

theorem completePk_failsCleanly (henc : P.Encapsulates) (hq : f.tx.WellFormed)
    (hroom : fragmentRxLen ctx = cwHqcPublicKeyLen → f.txHasRoomFor cwHqcCiphertextLen = true)
    (conn : UdpConn) (dest : IpAddr) :
    FailsCleanly f (f.completePk P me clk rnd ⟨some conn, some dest⟩ ctx).2 := by
  unfold Fsm.completePk
  split
  · simp only [Fsm.rxSlotRelease_eq, Fsm.setFailed, Fsm.mapS]
    exact .of_fail (by simp) rfl
  · rename_i hlen
    have hroom := hroom (not_not.mp hlen)
    have hok : ∀ pk, (P.cryptoWorkerEncapsulate rnd pk).1 = true := by
      intro pk
      simp [Platform.cryptoWorkerEncapsulate, henc rnd pk]
    have hsend : ∀ g : Fsm, g.tx = f.tx →
        (if !g.txHasRoomFor cwHqcCiphertextLen then (false, g.zeroNodeCt.setFailed P (clk 8))
          else g.sendCt P clk ⟨some conn, some dest⟩).2.s.state = .waitAck := by
      intro g hg
      have hgroom : g.txHasRoomFor cwHqcCiphertextLen = true := by
        rw [Fsm.txHasRoomFor, hg]
        exact hroom
      rw [if_neg (by simp [hgroom])]
      exact sendCt_room (hg ▸ hq) hgroom conn dest
    apply FailsCleanly.of_state
    simp only [hok, Bool.not_true, Bool.false_eq_true, if_false]
    rw [hsend]
    · simp
    · rfl

/-- The call neither failed in a new way nor encapsulated. -/
def Untroubled (f f' : Fsm) : Prop := FailsCleanly f f' ∧ f'.obs = f.obs

theorem Untroubled.of_core (hs : Skips f.s f'.s) (hct : f'.hs.nodeCt = f.hs.nodeCt)
    (hobs : f'.obs = f.obs) : Untroubled f f' :=
  ⟨.of_core hs hct, hobs⟩

theorem completeAck_untroubled (f : Fsm) (ctx : FragmentRxCtx) :
    Untroubled f (f.completeAck P me clk ctx).2 := by
  have hack := completeAck_cases P me clk ctx f
  generalize (f.completeAck P me clk ctx).2 = f' at hack ⊢
  cases hack with
  | ignored => exact .of_core (Skips.refl _) rfl rfl
  | established _ _ hs =>
    have hstate : _ = SessionState.established := congrArg SessionCore.state hs
    exact ⟨.of_state (by rw [← Session.core_state, hs]; simp), rfl⟩

/-- The parts of a node that the secrets and the log depend on. -/
def Fsm.secrets (f : Fsm) : SessionCore × Ciphertext × TxQueue × List Observation :=
  (f.s.core, f.hs.nodeCt, f.tx, f.obs)

theorem Untroubled.rebase (hg : f'.secrets = f.secrets) (h : Untroubled f' f'') :
    Untroubled f f'' := by
  obtain ⟨hcore, hct, -, hobs⟩ : f'.s.core = f.s.core ∧ f'.hs.nodeCt = f.hs.nodeCt ∧
      f'.tx = f.tx ∧ f'.obs = f.obs := by
    simpa [Fsm.secrets] using hg
  exact ⟨h.1.rebase ⟨congrArg SessionCore.ss hcore, congrArg SessionCore.aesKey hcore⟩ hct,
    h.2.trans hobs⟩

theorem completeMessage_node (clk : Clock) (rnd : Entropy) (dst : UdpSendCtx) (ctx : FragmentRxCtx)
    (hrole : f.s.role = .node) :
    (h.msgType = pqcMsgPk ∧ (f.completeMessage P me clk rnd dst h ctx).2 =
        (f.completePk P me clk rnd dst ctx).2) ∨
      Untroubled f (f.completeMessage P me clk rnd dst h ctx).2 := by
  unfold Fsm.completeMessage
  simp only [Session.sessionIsNode, Session.sessionIsRoot, hrole, beq_iff_eq]
  split
  · rename_i hpk
    exact Or.inl ⟨hpk.2, rfl⟩
  · right
    split
    · exact completeAck_untroubled f ctx
    · split
      · rename_i hroot
        cases hroot.1
      · rw [Fsm.rxSlotRelease_eq]
        exact .of_core (Skips.refl _) rfl rfl

/-- A fragment at a node completes the key `ctx` in slot `i`, or does nothing of interest here. -/
theorem storeFragment_node (P : Platform) (me : SessionRef) (clk : Clock) (rnd : Entropy)
    (dst : UdpSendCtx) (h : FragmentHeader) (payload : Bytes) (hrole : f.s.role = .node) :
    (∃ (i : Fin hsRxSlotCount) (ctx : FragmentRxCtx) (g : Fsm), h.msgType = pqcMsgPk ∧
      (f.hs.rxSlotGet P (clk 1) (clk 2) me).1 = some i ∧
      fragmentRxAdd ((f.hs.rxSlotGet P (clk 1) (clk 2) me).2.rxSlots i).ctx h.msgType h.nodeId
        h.msgId h.fragIdx h.totalFrags payload = (true, ctx) ∧
      fragmentRxComplete ctx = true ∧ g.secrets = f.secrets ∧
      (f.storeFragment P me clk rnd dst h payload).2 = (g.completePk P me clk rnd dst ctx).2) ∨
    Untroubled f (f.storeFragment P me clk rnd dst h payload).2 := by
  obtain ⟨slots, -, hcases⟩ := rxSlotGet_cases P (clk 1) (clk 2) me f.hs
  have hct : (f.hs.rxSlotGet P (clk 1) (clk 2) me).2.nodeCt = f.hs.nodeCt := by
    rcases hcases with hget | ⟨i, slot, -, hget⟩ <;> rw [hget] <;> rfl
  unfold Fsm.storeFragment
  dsimp only
  rcases hget : f.hs.rxSlotGet P (clk 1) (clk 2) me with ⟨found, hs⟩
  rw [hget] at hct
  cases found with
  | none => exact Or.inr (.of_core (Skips.refl _) hct rfl)
  | some i =>
    rcases hadd : fragmentRxAdd (hs.rxSlots i).ctx h.msgType h.nodeId h.msgId h.fragIdx
      h.totalFrags payload with ⟨ok, ctx⟩
    simp only [Fsm.mapHs_hs, hadd]
    cases ok with
    | false => exact Or.inr (.of_core (Skips.refl _) hct rfl)
    | true =>
      simp only [Bool.not_true, Bool.false_eq_true, if_false]
      generalize hg : Fsm.mapS _ (Fsm.mapHs _ _) = g
      have hsec : g.secrets = f.secrets := by
        rw [← hg]
        exact congrArg (fun ct => (f.s.core, ct, f.tx, f.obs)) hct
      have hgrole : g.s.role = .node :=
        (congrArg (fun x => SessionCore.role x.1) hsec).trans hrole
      clear hg
      split
      · obtain ⟨s, tx, slot, hreq, hskip, -, -⟩ := requestMissing_cases P me clk dst i h.fragIdx g
        right
        refine Untroubled.rebase hsec ?_
        dsimp only
        rw [hreq]
        exact .of_core hskip rfl rfl
      · rename_i hdone
        rcases completeMessage_node (P := P) clk rnd (h := h) dst ctx
          hgrole with ⟨hpk, hres⟩ | hquiet
        · exact Or.inl ⟨i, ctx, g, hpk, rfl, hadd, by simpa using hdone, hsec, hres⟩
        · exact Or.inr (hquiet.rebase hsec)

theorem handleNack_untroubled {dst : UdpSendCtx} (f : Fsm) :
    Untroubled f (f.handleNack P clk dst h payload).2 := by
  have hquiet : Untroubled f f := .of_core (Skips.refl _) rfl rfl
  unfold Fsm.handleNack
  split
  · exact hquiet
  · cases pqcNackDecode payload with
    | none => exact hquiet
    | some nack =>
      obtain ⟨s, tx, hres, hcore, -⟩ := retransmit_cases P (clk 1) dst nack f
      dsimp only
      rw [hres]
      exact .of_core ⟨f.s.nextMsgId, hcore⟩ rfl rfl

theorem handleParsed_node (P : Platform) (me : SessionRef) (clk : Clock) (rnd : Entropy)
    (dst : UdpSendCtx) (h : FragmentHeader) (payload : Bytes) (hrole : f.s.role = .node) :
    (∃ (i : Fin hsRxSlotCount) (ctx : FragmentRxCtx) (g : Fsm), f.s.state = .waitPk ∧
      h.msgType = pqcMsgPk ∧
      (f.hs.rxSlotGet P (clk 1) (clk 2) me).1 = some i ∧
      fragmentRxAdd ((f.hs.rxSlotGet P (clk 1) (clk 2) me).2.rxSlots i).ctx h.msgType h.nodeId
        h.msgId h.fragIdx h.totalFrags payload = (true, ctx) ∧
      fragmentRxComplete ctx = true ∧ g.secrets = f.secrets ∧
      (f.handleParsed P me clk rnd dst h payload).2 = (g.completePk P me clk rnd dst ctx).2) ∨
    Untroubled f (f.handleParsed P me clk rnd dst h payload).2 := by
  have hquiet : Untroubled f f := .of_core (Skips.refl _) rfl rfl
  unfold Fsm.handleParsed
  simp only [Session.sessionIsNode, Session.sessionIsRoot, hrole, beq_iff_eq]
  split
  · exact Or.inr hquiet
  · split
    · exact Or.inr hquiet
    · split
      · rename_i hroot
        cases hroot.1
      · split
        · exact Or.inr hquiet
        · split
          · exact Or.inr (handleNack_untroubled f)
          · rename_i hpk _ _ _ _
            rcases storeFragment_node P me clk rnd dst h payload hrole with
              ⟨i, ctx, g, htype, hrest⟩ | hu
            · refine Or.inl ⟨i, ctx, g, ?_, htype, hrest⟩
              by_contra hstate
              exact hpk ⟨trivial, htype, Or.inl hstate⟩
            · exact Or.inr hu

/-- A packet at a node completes the key `ctx`, on which the node acts, or it neither makes the node
encapsulate nor leaves secrets in a failed session. -/
theorem hsFsmHandleFragment_node (P : Platform) (me : SessionRef) (clk : Clock) (rnd : Entropy)
    (dst : UdpSendCtx) (data : Bytes) (hrole : f.s.role = .node) :
    (∃ (ctx : FragmentRxCtx) (g : Fsm), f.s.state = .waitPk ∧
      f.Completes P me clk data pqcMsgPk ctx ∧ g.s.ss = f.s.ss ∧ g.s.aesKey = f.s.aesKey ∧
      g.hs.nodeCt = f.hs.nodeCt ∧ g.tx = f.tx ∧ g.obs = f.obs ∧
      (f.hsFsmHandleFragment P me clk rnd dst data).2 = (g.completePk P me clk rnd dst ctx).2) ∨
    Untroubled f (f.hsFsmHandleFragment P me clk rnd dst data).2 := by
  unfold Fsm.hsFsmHandleFragment
  dsimp only
  cases hparse : parseFragmentHeader data with
  | none => exact Or.inr (.of_core (Skips.refl _) rfl rfl)
  | some h =>
    simp only [Session.sessionIsNode, Session.sessionIsRoot, beq_iff_eq]
    split
    · exact Or.inr (.of_core (Skips.refl _) rfl rfl)
    · split
      · exact Or.inr (.of_core (Skips.refl _) rfl rfl)
      · rename_i hnot
        set g := (f.rxSlotsGc P (clk 0)).mapS (Session.adoptNodeId h.nodeId) with hg
        have hadopt : g.s = f.s ∨ g.s = f.s.setNodeId h.nodeId := f.s.adoptNodeId_cases h.nodeId
        obtain ⟨hgrole, hstate, hss, hkey⟩ : g.s.role = f.s.role ∧ g.s.state = f.s.state ∧
            g.s.ss = f.s.ss ∧ g.s.aesKey = f.s.aesKey := by
          rcases hadopt with ha | ha <;> rw [ha] <;> exact ⟨rfl, rfl, rfl, rfl⟩
        rcases handleParsed_node P me clk rnd dst h (h.payload data) (hgrole.trans hrole) with
          ⟨i, ctx, g', hwait, htype, hget, hadd, hdone, hsec, hres⟩ | ⟨hfail, hobs⟩
        · have hnames : Names h f.s := by
            by_cases hinv : f.s.nodeId = sessionInvalidNodeId
            · exact Or.inr ⟨hrole, hinv⟩
            · exact Or.inl (by_contra fun hne => hnot ⟨hrole, hinv, hne⟩)
          obtain ⟨hcore, hct, htx, hobs⟩ : g'.s.core = g.s.core ∧ g'.hs.nodeCt = g.hs.nodeCt ∧
              g'.tx = g.tx ∧ g'.obs = g.obs := by
            simpa [Fsm.secrets] using hsec
          have hss' := (congrArg SessionCore.ss hcore).trans hss
          have hkey' := (congrArg SessionCore.aesKey hcore).trans hkey
          exact Or.inl ⟨ctx, g', hstate.symm.trans hwait,
            ⟨h, i, hparse, hnames, htype, hget, hadd, hdone⟩, hss', hkey', hct, htx, hobs, hres⟩
        · exact Or.inr ⟨hfail.rebase ⟨hss, hkey⟩ rfl, hobs⟩

/-- With room for the ciphertext whenever a packet completes the key, a node fails cleanly. -/
theorem hsFsmHandleFragment_failsCleanly (henc : P.Encapsulates) (hq : f.tx.WellFormed)
    (hrole : f.s.role = .node) {data : Bytes}
    (hroom : ∀ ctx, f.s.state = .waitPk → f.Completes P me clk data pqcMsgPk ctx →
      fragmentRxLen ctx = cwHqcPublicKeyLen → f.txHasRoomFor cwHqcCiphertextLen = true)
    (conn : UdpConn) (dest : IpAddr) :
    FailsCleanly f (f.hsFsmHandleFragment P me clk rnd ⟨some conn, some dest⟩ data).2 := by
  rcases hsFsmHandleFragment_node P me clk rnd ⟨some conn, some dest⟩ data hrole with
    ⟨ctx, g, hstate, hcomp, hss, hkey, hct, htx, -, hres⟩ | ⟨hfail, -⟩
  · rw [hres]
    refine FailsCleanly.rebase ⟨hss, hkey⟩ hct ?_
    refine completePk_failsCleanly henc (htx ▸ hq) ?_ conn dest
    intro hlen
    rw [Fsm.txHasRoomFor, htx]
    exact hroom ctx hstate hcomp hlen
  · exact hfail

/-- A node encapsulates only when a packet completes a key of the right length. -/
theorem hsFsmHandleFragment_encapsulates (hrole : f.s.role = .node) {dst : UdpSendCtx}
    {data : Bytes} (hobs : (f.hsFsmHandleFragment P me clk rnd dst data).2.obs ≠ f.obs) :
    f.s.state = .waitPk ∧ ∃ ctx, f.Completes P me clk data pqcMsgPk ctx ∧
      fragmentRxLen ctx = cwHqcPublicKeyLen := by
  rcases hsFsmHandleFragment_node P me clk rnd dst data hrole with
    ⟨ctx, g, hstate, hcomp, -, -, -, -, hgobs, hres⟩ | ⟨-, hsame⟩
  · refine ⟨hstate, ctx, hcomp, ?_⟩
    by_contra hlen
    apply hobs
    rw [hres, ← hgobs, Fsm.completePk, if_pos hlen, Fsm.rxSlotRelease_eq]
    rfl
  · exact absurd hsame hobs

end PqcContiki
