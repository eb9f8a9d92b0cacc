import PqcContiki.Acknowledgements
import PqcContiki.HandshakeAccounting

/-! The counter of a node's TEMP packets, and the packets of other kinds, which leave it alone. -/
namespace PqcContiki

open TxQueue Relation

variable {P : Platform} {me : SessionRef} {clk : Clock} {rnd : Entropy} {dst : UdpSendCtx}
  {h : FragmentHeader} {payload : Bytes} {ctx : FragmentRxCtx} {f f' : Fsm} {id : UInt16}
  {φ : Bytes → Prop} {p : Bytes} {data : Option Bytes}

namespace Session

@[simp] theorem sessionSetFailed_txCounter (P : Platform) (now : ℕ) (s : Session) :
    (s.sessionSetFailed P now).txCounter = s.txCounter := by
  unfold sessionSetFailed
  split <;> rfl

@[simp] theorem adoptNodeId_txCounter (nodeId : UInt16) (s : Session) :
    (s.adoptNodeId nodeId).txCounter = s.txCounter := by
  rcases s.adoptNodeId_cases nodeId with h | h <;> rw [h]
  rfl

end Session

namespace Fsm

@[simp] theorem setFailed_txCounter (now : ℕ) (f : Fsm) :
    (f.setFailed P now).s.txCounter = f.s.txCounter :=
  Session.sessionSetFailed_txCounter P now f.s

@[simp] theorem sendAck_txCounter (msgId : UInt8) (f : Fsm) :
    (f.sendAck dst msgId).2.s.txCounter = f.s.txCounter := by
  unfold sendAck
  split
  · rfl
  · dsimp only
    split <;> rfl

@[simp] theorem sendNack_txCounter (i : Fin hsRxSlotCount) (f : Fsm) :
    (f.sendNack dst i).2.s.txCounter = f.s.txCounter := by
  unfold sendNack
  dsimp only
  split
  · rfl
  · split
    · rfl
    · split
      · rfl
      · split <;> rfl

@[simp] theorem rxSlotNoteNack_txCounter (now : ℕ) (i : Fin hsRxSlotCount) (n : ℕ) (f : Fsm) :
    (f.rxSlotNoteNack P now me i n).s.txCounter = f.s.txCounter := by
  unfold rxSlotNoteNack
  dsimp only
  split <;> rfl

@[simp] theorem requestMissing_txCounter (i : Fin hsRxSlotCount) (fragIdx : ℕ) (f : Fsm) :
    (f.requestMissing P me clk dst i fragIdx).s.txCounter = f.s.txCounter := by
  unfold requestMissing
  split
  · simp
  · rfl

@[simp] theorem retransmit_txCounter (now : ℕ) (nack : PqcNack) (f : Fsm) :
    (f.retransmitNackFragments P now dst nack).2.s.txCounter = f.s.txCounter := by
  unfold retransmitNackFragments
  dsimp only
  generalize hg : f.mapS (Session.mapMetrics .noteNackRx) = g
  have hsame : g.s.txCounter = f.s.txCounter := by rw [← hg]; rfl
  split
  · exact hsame
  · split
    · exact hsame
    · split
      · exact hsame
      · split
        · exact hsame
        · split <;> exact hsame

@[simp] theorem handleNack_txCounter (f : Fsm) :
    (f.handleNack P clk dst h payload).2.s.txCounter = f.s.txCounter := by
  unfold handleNack
  split
  · rfl
  · split
    · rfl
    · exact retransmit_txCounter ..

@[simp] theorem sendCt_txCounter (f : Fsm) :
    (f.sendCt P clk dst).2.s.txCounter = f.s.txCounter := by
  unfold sendCt
  dsimp only
  split
  · rw [setFailed_txCounter]
    rfl
  · rfl

@[simp] theorem completePk_txCounter (f : Fsm) :
    (f.completePk P me clk rnd dst ctx).2.s.txCounter = f.s.txCounter := by
  unfold completePk
  split
  · exact setFailed_txCounter (clk 3) f
  · dsimp only
    split
    · exact Session.sessionSetFailed_txCounter P (clk 6) _
    · split
      · exact Session.sessionSetFailed_txCounter P (clk 8) _
      · rw [sendCt_txCounter]
        rfl

@[simp] theorem completeAck_txCounter (f : Fsm) :
    (f.completeAck P me clk ctx).2.s.txCounter = f.s.txCounter := by
  unfold completeAck
  split <;> rfl

@[simp] theorem decapsulateCt_txCounter (msgId : UInt8) (f : Fsm) :
    (f.decapsulateCt P clk dst msgId).2.s.txCounter = f.s.txCounter := by
  unfold decapsulateCt
  dsimp only
  split
  · exact Session.sessionSetFailed_txCounter P (clk 6) _
  · rw [sendAck_txCounter]
    rfl

@[simp] theorem completeCt_txCounter (msgId : UInt8) (f : Fsm) :
    (f.completeCt P me clk dst msgId ctx).2.s.txCounter = f.s.txCounter := by
  unfold completeCt
  split
  · exact setFailed_txCounter (clk 3) f
  · dsimp only
    generalize hg : rxSlotRelease me _ = g
    have hsame : g.s.txCounter = f.s.txCounter := by rw [← hg]; rfl
    split
    · exact (sendAck_txCounter msgId g.zeroRootCt).trans hsame
    · split
      · exact hsame
      · split
        · exact (setFailed_txCounter (clk 5) g).trans hsame
        · exact (decapsulateCt_txCounter msgId g).trans hsame

@[simp] theorem completeMessage_txCounter (f : Fsm) :
    (f.completeMessage P me clk rnd dst h ctx).2.s.txCounter = f.s.txCounter := by
  unfold completeMessage
  split
  · exact completePk_txCounter f
  · split
    · exact completeAck_txCounter f
    · split
      · exact completeCt_txCounter h.msgId f
      · rfl

@[simp] theorem storeFragment_txCounter (f : Fsm) :
    (f.storeFragment P me clk rnd dst h payload).2.s.txCounter = f.s.txCounter := by
  unfold storeFragment
  dsimp only
  split
  · rfl
  · split
    · rfl
    · split
      · exact requestMissing_txCounter ..
      · exact completeMessage_txCounter _

@[simp] theorem handleParsed_txCounter (f : Fsm) :
    (f.handleParsed P me clk rnd dst h payload).2.s.txCounter = f.s.txCounter := by
  unfold handleParsed
  dsimp only
  split
  · rfl
  · split
    · rfl
    · split
      · split
        · exact sendAck_txCounter ..
        · rfl
      · split
        · rfl
        · split
          · exact handleNack_txCounter f
          · exact storeFragment_txCounter f

@[simp] theorem hsFsmHandleFragment_txCounter (P : Platform) (me : SessionRef) (clk : Clock)
    (rnd : Entropy) (dst : UdpSendCtx) (data : Bytes) (f : Fsm) :
    (f.hsFsmHandleFragment P me clk rnd dst data).2.s.txCounter = f.s.txCounter := by
  unfold hsFsmHandleFragment
  dsimp only
  split
  · rfl
  · split
    · rfl
    · split
      · rfl
      · rw [handleParsed_txCounter]
        exact Session.adoptNodeId_txCounter ..

@[simp] theorem retryCtReceive_txCounter (f : Fsm) :
    (f.retryCtReceive P me clk dst).2.s.txCounter = f.s.txCounter := by
  unfold retryCtReceive
  dsimp only
  split
  · exact setFailed_txCounter (clk 8) f
  · rename_i i _
    have hnack : (f.sendNack dst i).2.s.txCounter = f.s.txCounter := sendNack_txCounter i f
    split
    · split
      · exact (rxSlotNoteNack_txCounter ..).trans hnack
      · exact (setFailed_txCounter (clk 8) _).trans hnack
    · exact setFailed_txCounter (clk 8) f

@[simp] theorem retryTransfer_txCounter (data : Bytes) (msgType : UInt8) (f : Fsm) :
    (f.retryTransfer P clk dst data msgType).2.s.txCounter = f.s.txCounter := by
  unfold retryTransfer
  split
  · rfl
  · dsimp only
    split <;> rfl

@[simp] theorem retryPending_txCounter (f : Fsm) :
    (f.retryPending P me clk dst).2.s.txCounter = f.s.txCounter := by
  unfold retryPending
  split
  · exact retryCtReceive_txCounter f
  · dsimp only
    split
    · split <;> rfl
    · split
      · split
        · exact setFailed_txCounter (clk 3) _
        · exact retryTransfer_txCounter ..
      · split
        · exact retryTransfer_txCounter ..
        · rfl

@[simp] theorem hsFsmRetry_txCounter (P : Platform) (me : SessionRef) (clk : Clock)
    (dst : UdpSendCtx) (f : Fsm) : (f.hsFsmRetry P me clk dst).2.s.txCounter = f.s.txCounter := by
  unfold hsFsmRetry
  dsimp only
  split
  · rfl
  · split
    · rfl
    · split
      · split <;> exact setFailed_txCounter (clk 3) _
      · exact retryPending_txCounter _

end Fsm

def NotTemp (p : Bytes) : Prop := byteAt p pqcHdrMsgType ≠ pqcMsgTemp

theorem IsKind.notTemp {msgType : UInt8} (hp : IsKind msgType id p) (hne : msgType ≠ pqcMsgTemp) :
    NotTemp p := by
  intro ht
  exact hne (hp.1.symm.trans ht)

theorem IsPendingFragment.notTemp (hp : IsPendingFragment f p) : NotTemp p := by
  rcases hp with ⟨-, -, hp⟩ | ⟨-, -, hp⟩
  · exact hp.isKind.notTemp (by decide)
  · exact hp.isKind.notTemp (by decide)

theorem Sends.notTemp (hp : Sends f f' p) : NotTemp p := by
  cases hp with
  | nack hp => exact hp.isKind.notTemp (by decide)
  | pending hp => exact hp.notTemp
  | ct _ _ hp => exact hp.isKind.notTemp (by decide)
  | ack _ hp _ _ => exact hp ▸ ackPacket_isKind.notTemp (by decide)

theorem IsRepeated.notTemp (hp : IsRepeated f p) : NotTemp p := by
  rcases hp with hp | ⟨-, hp⟩
  · exact hp.notTemp
  · exact hp.notTemp (by decide)

end PqcContiki
