import PqcContiki.Messages
import PqcContiki.TxQueueSafety

/-!
The encrypted TEMP channel: what an established root accepts of the packets an established node
queued, under any loss, reordering and replay.
-/
namespace PqcContiki

theorem word_of_bytes (x : UInt32) :
    UInt32.ofNat ((UInt8.ofNat x.toNat).toNat + 2 ^ 8 * (UInt8.ofNat (x.toNat / 2 ^ 8)).toNat +
      2 ^ 16 * (UInt8.ofNat (x.toNat / 2 ^ 16)).toNat +
      2 ^ 24 * (UInt8.ofNat (x.toNat / 2 ^ 24)).toNat) = x := by
  have hx := x.toNat_lt
  apply UInt32.toNat_inj.mp
  simp only [UInt8.toNat_ofNat', UInt32.toNat_ofNat']
  omega

theorem TempPayload.ofBytes_bytes (t : TempPayload) : TempPayload.ofBytes t.bytes = t := by
  obtain ⟨counter, ⟨rh⟩, ⟨temp⟩⟩ := t
  change TempPayload.mk _ ⟨_⟩ ⟨_⟩ = _
  simp only [TempPayload.mk.injEq, Int32.ofUInt32.injEq]
  exact ⟨word_of_bytes counter, word_of_bytes rh, word_of_bytes temp⟩

theorem xcrypt_length (P : Platform) (key : AesKey) (iv : AesIv) (buf : Bytes) :
    (P.cryptoWorkerAesCtrXcrypt key iv buf).length = buf.length := by
  simp [Platform.cryptoWorkerAesCtrXcrypt]

/-- The same key stream twice gives the text back. -/
theorem xcrypt_xcrypt (P : Platform) (key : AesKey) (iv : AesIv) (buf : Bytes) :
    P.cryptoWorkerAesCtrXcrypt key iv (P.cryptoWorkerAesCtrXcrypt key iv buf) = buf := by
  apply List.ext_getElem
  · simp [xcrypt_length]
  · intro i h1 h2
    simp [Platform.cryptoWorkerAesCtrXcrypt]

section Packets

variable {P : Platform} {s r : Session} {measurement : TempPayload}

theorem tempBytes_length (t : TempPayload) : t.bytes.length = pqcTempPayloadLen := rfl

theorem tempPacket_sealed (P : Platform) (s : Session) (measurement : TempPayload) :
    ((tempPacket P s measurement).drop pqcHeaderLen).take pqcTempPayloadLen =
      tempXcrypt P s s.txCounter { measurement with counter := s.txCounter }.bytes := by
  have hlen : (tempXcrypt P s s.txCounter
      { measurement with counter := s.txCounter }.bytes).length ≤ pqcTempPayloadLen := by
    rw [tempXcrypt, xcrypt_length, tempBytes_length]
  rw [tempPacket,
    List.drop_left' (show (pqcHeaderWrite _ _ _ _ _ _ _).length = pqcHeaderLen from rfl),
    List.take_of_length_le hlen]

theorem tempAdmitted_packet (h : r.sessionIsEstablished = true) :
    TempAdmitted r (tempPacket P s measurement) := by
  refine ⟨h, pqcHeaderValid_write ?_, rfl, rfl, rfl, rfl⟩
  rw [tempXcrypt, xcrypt_length, tempBytes_length]

/-- Under the counter it was sealed with, a packet shows the measurement and that counter. -/
theorem trialPayload_own (hss : r.ss = s.ss) (hkey : r.aesKey = s.aesKey) :
    trialPayload P r (tempPacket P s measurement) s.txCounter =
      { measurement with counter := s.txCounter } := by
  rw [trialPayload, tempPacket_sealed, tempXcrypt, tempXcrypt, hss, hkey, xcrypt_xcrypt,
    TempPayload.ofBytes_bytes]

end Packets

/-- What is assumed of SHAKE256 and AES: a packet sealed with one of the first `n` counters does
not show the counter it is tried with, unless that is its own. -/
def NoFalseMatch (P : Platform) (ss : SharedSecret) (key : AesKey) (n : ℕ) : Prop :=
  ∀ (payload : TempPayload) (trial : UInt32), payload.counter.toNat < n →
    trial.toNat < n + pqcTempRxCounterWindow → trial ≠ payload.counter →
    (TempPayload.ofBytes (P.cryptoWorkerAesCtrXcrypt key (P.cryptoWorkerDeriveAesIv ss trial)
      (P.cryptoWorkerAesCtrXcrypt key (P.cryptoWorkerDeriveAesIv ss payload.counter)
        payload.bytes))).counter ≠ trial

/-- A packet the node queued, with what it was given and the counter it used. -/
structure SentTemp where
  payload : TempPayload
  packet : Bytes

/-- Both ends of the channel, and the packets queued and accepted so far, oldest first. -/
structure TempHistory where
  sender : Session
  receiver : Session
  sendCalls : ℕ
  sent : List SentTemp
  accepted : List SentTemp

namespace TempHistory

variable {P : Platform} {h h₀ : TempHistory}

def initial (sender receiver : Session) : TempHistory := ⟨sender, receiver, 0, [], []⟩

/-- A call of `pqc_send_encrypted_temp`, with the TX queue as it is at that moment. -/
def send (P : Platform) (conn : UdpConn) (dest : IpAddr) (measurement : TempPayload)
    (q : TxQueue) (h : TempHistory) : TempHistory :=
  let r := pqcSendEncryptedTemp P conn dest measurement h.sender q
  { h with
    sender := r.2.1
    sendCalls := h.sendCalls + 1
    sent :=
      if r.1 then
        h.sent ++ [⟨{ measurement with counter := h.sender.txCounter },
          tempPacket P h.sender measurement⟩]
      else h.sent }

/-- A call of `pqc_handle_encrypted_temp`. -/
def deliver (P : Platform) (packet : Bytes) (out : TempPayload) (h : TempHistory) : TempHistory :=
  let r := pqcHandleEncryptedTemp P packet out h.receiver
  { h with
    receiver := r.2.2
    accepted := if r.1 then h.accepted ++ [⟨r.2.1, packet⟩] else h.accepted }

/-- The histories of a channel: sends at any moment, and deliveries of queued packets in any
order, any number of times. -/
inductive Reach (P : Platform) (h₀ : TempHistory) : TempHistory → Prop where
  | start : Reach P h₀ h₀
  | send {h : TempHistory} (conn : UdpConn) (dest : IpAddr) (measurement : TempPayload)
      (q : TxQueue) : Reach P h₀ h → Reach P h₀ (h.send P conn dest measurement q)
  | deliver {h : TempHistory} {x : SentTemp} (out : TempPayload) :
      Reach P h₀ h → x ∈ h.sent → Reach P h₀ (h.deliver P x.packet out)

/-- Two sessions of a completed handshake, before the first measurement. -/
structure Fresh (node root : Session) : Prop where
  nodeEstablished : node.sessionIsEstablished = true
  rootEstablished : root.sessionIsEstablished = true
  ss : root.ss = node.ss
  aesKey : root.aesKey = node.aesKey
  txCounter : node.txCounter = 0
  rxCounter : root.rxCounter = 0

/-- A queued packet: sealed under its own counter. -/
def Sealed (P : Platform) (ss : SharedSecret) (key : AesKey) (x : SentTemp) : Prop :=
  ∃ s : Session, s.ss = ss ∧ s.aesKey = key ∧ x.payload.counter = s.txCounter ∧
    x.packet = tempPacket P s x.payload

/-- What holds at every point of a history with the keys `ss` and `key`. -/
structure Inv (P : Platform) (ss : SharedSecret) (key : AesKey) (h : TempHistory) : Prop where
  established : h.receiver.sessionIsEstablished = true
  senderSs : h.sender.ss = ss
  senderKey : h.sender.aesKey = key
  receiverSs : h.receiver.ss = ss
  receiverKey : h.receiver.aesKey = key
  txCounter : h.sender.txCounter.toNat = h.sent.length
  counters : h.sent.map (fun x => x.payload.counter.toNat) = List.range h.sent.length
  seals : ∀ x ∈ h.sent, Sealed P ss key x
  rxCounter : h.receiver.rxCounter.toNat ≤ h.sent.length
  genuine : ∀ x ∈ h.accepted, x ∈ h.sent
  below : ∀ x ∈ h.accepted, x.payload.counter.toNat < h.receiver.rxCounter.toNat
  increasing : h.accepted.Pairwise fun x y => x.payload.counter.toNat < y.payload.counter.toNat

theorem inv_initial {node root : Session} (hf : Fresh node root) :
    Inv P node.ss node.aesKey (initial node root) := by
  constructor <;> simp [initial, hf.rootEstablished, hf.ss, hf.aesKey, hf.txCounter, hf.rxCounter]

/-- Either nothing is queued and no counter moves, or the next counter is used up. -/
theorem send_cases (conn : UdpConn) (dest : IpAddr) (measurement : TempPayload) (q : TxQueue)
    (s : Session) :
    let r := pqcSendEncryptedTemp P conn dest measurement s q
    r.2.1.ss = s.ss ∧ r.2.1.aesKey = s.aesKey ∧
      ((r.1 = false ∧ r.2.1.txCounter = s.txCounter) ∨
        (r.1 = true ∧ r.2.1.txCounter = s.txCounter + 1)) := by
  unfold pqcSendEncryptedTemp
  split
  · exact ⟨rfl, rfl, Or.inl ⟨rfl, rfl⟩⟩
  · dsimp only
    split
    · exact ⟨rfl, rfl, Or.inr ⟨rfl, rfl⟩⟩
    · exact ⟨rfl, rfl, Or.inl ⟨rfl, rfl⟩⟩

theorem length_send_le (conn : UdpConn) (dest : IpAddr) (measurement : TempPayload)
    (q : TxQueue) : h.sent.length ≤ (h.send P conn dest measurement q).sent.length := by
  simp only [TempHistory.send]
  split
  · simp
  · exact le_rfl

theorem Inv.send {ss : SharedSecret} {key : AesKey} (hi : Inv P ss key h) (conn : UdpConn)
    (dest : IpAddr) (measurement : TempPayload) (q : TxQueue)
    (hsent : (h.send P conn dest measurement q).sent.length < 2 ^ 32) :
    Inv P ss key (h.send P conn dest measurement q) := by
  obtain ⟨hss, hkey, hcase⟩ := send_cases (P := P) conn dest measurement q h.sender
  rw [hi.senderSs] at hss
  rw [hi.senderKey] at hkey
  rcases hcase with ⟨hno, htx⟩ | ⟨hyes, htx⟩
  · simp only [TempHistory.send, hno, Bool.false_eq_true, if_false]
    exact { hi with
      senderSs := hss, senderKey := hkey
      txCounter := by dsimp only; rw [htx]; exact hi.txCounter }
  · simp only [TempHistory.send, hyes, if_true, List.length_append, List.length_singleton] at hsent
    have hnext : (h.sender.txCounter + 1).toNat = h.sent.length + 1 := by
      rw [UInt32.toNat_add, hi.txCounter]
      exact Nat.mod_eq_of_lt (by simp only [UInt32.reduceToNat]; omega)
    simp only [TempHistory.send, hyes, if_true]
    constructor
    case established => exact hi.established
    case senderSs => exact hss
    case senderKey => exact hkey
    case receiverSs => exact hi.receiverSs
    case receiverKey => exact hi.receiverKey
    case txCounter => simpa [htx] using hnext
    case counters => simp [hi.counters, hi.txCounter, List.range_succ]
    case seals =>
      intro x hx
      rcases List.mem_append.mp hx with hx | hx
      · exact hi.seals x hx
      · obtain rfl := List.mem_singleton.mp hx
        exact ⟨h.sender, hi.senderSs, hi.senderKey, rfl, rfl⟩
    case rxCounter =>
      have := hi.rxCounter
      simp only [List.length_append, List.length_singleton]
      omega
    case genuine => exact fun x hx => List.mem_append_left _ (hi.genuine x hx)
    case below => exact hi.below
    case increasing => exact hi.increasing

theorem trialPayload_countTemp (f : TempMetrics → TempMetrics) (s : Session) (data : Bytes)
    (trial : UInt32) :
    trialPayload P (s.countTemp f) data trial = trialPayload P s data trial := by
  simp only [trialPayload, tempXcrypt, Session.countTemp_aesKey, Session.countTemp_ss]

theorem countTemp_countTemp (f g : TempMetrics → TempMetrics) (s : Session) :
    (s.countTemp f).countTemp g = s.countTemp (g ∘ f) :=
  rfl

theorem setRxCounter_countTemp (f : TempMetrics → TempMetrics) (counter : UInt32) (s : Session) :
    (s.countTemp f).setRxCounter counter = (s.setRxCounter counter).countTemp f :=
  rfl

/-- Either the packet is refused and only the metrics change, or it shows the counter of one of
the sixteen trials, which the receiver then moves past. -/
theorem handle_cases (P : Platform) (data : Bytes) (out : TempPayload) (s : Session) :
    (∃ f, pqcHandleEncryptedTemp P data out s = (false, out, s.countTemp f)) ∨
      ∃ offset f, offset < pqcTempRxCounterWindow ∧
        (trialPayload P s data (s.rxCounter + UInt32.ofNat offset)).counter =
          s.rxCounter + UInt32.ofNat offset ∧
        pqcHandleEncryptedTemp P data out s =
          (true, trialPayload P s data (s.rxCounter + UInt32.ofNat offset),
            (s.setRxCounter (s.rxCounter + UInt32.ofNat offset + 1)).countTemp f) := by
  unfold pqcHandleEncryptedTemp
  split
  · exact Or.inl ⟨_, rfl⟩
  · simp only [trialPayload_countTemp, Session.countTemp_rxCounter, setRxCounter_countTemp,
      countTemp_countTemp]
    split
    · rename_i offset hfind
      have hmatch := List.find?_some hfind
      have hmem := List.mem_range.mp (List.mem_of_find?_eq_some hfind)
      exact Or.inr ⟨offset, _, hmem, eq_of_beq hmatch, rfl⟩
    · exact Or.inl ⟨_, rfl⟩

/-- A queued packet shows a trial counter only if it is its own, and then its measurement. -/
theorem Sealed.trialPayload_eq {ss : SharedSecret} {key : AesKey} {n : ℕ} {x : SentTemp}
    (hx : Sealed P ss key x) (hk : NoFalseMatch P ss key n) (hn : x.payload.counter.toNat < n)
    {s : Session} (hss : s.ss = ss) (hkey : s.aesKey = key) {trial : UInt32}
    (htrial : trial.toNat < n + pqcTempRxCounterWindow)
    (hshow : (trialPayload P s x.packet trial).counter = trial) :
    trialPayload P s x.packet trial = x.payload := by
  obtain ⟨s', hss', hkey', hc, hp⟩ := hx
  have hpayload : ({ x.payload with counter := s'.txCounter } : TempPayload) = x.payload := by
    rw [← hc]
  have hown : trial = x.payload.counter := by
    by_contra hne
    refine hk x.payload trial hn htrial hne ?_
    rw [trialPayload, hp, tempPacket_sealed, tempXcrypt, tempXcrypt, hpayload, hss, hkey, hss',
      hkey', ← hc] at hshow
    exact hshow
  rw [hown, hc, hp, trialPayload_own (hss.trans hss'.symm) (hkey.trans hkey'.symm), hpayload]

/-- Under its own counter a queued packet shows its measurement. -/
theorem Sealed.own {ss : SharedSecret} {key : AesKey} {x : SentTemp}
    (hx : Sealed P ss key x) {s : Session} (hss : s.ss = ss)
    (hkey : s.aesKey = key) :
    trialPayload P s x.packet x.payload.counter = x.payload := by
  obtain ⟨s', hss', hkey', hc, hp⟩ := hx
  rw [hc, hp, trialPayload_own (hss.trans hss'.symm) (hkey.trans hkey'.symm), ← hc]

theorem Sealed.admitted {ss : SharedSecret} {key : AesKey} {x : SentTemp}
    (hx : Sealed P ss key x) {s : Session}
    (hs : s.sessionIsEstablished = true) : TempAdmitted s x.packet := by
  obtain ⟨s', -, -, -, hp⟩ := hx
  rw [hp]
  exact tempAdmitted_packet hs

theorem Inv.deliver {ss : SharedSecret} {key : AesKey} {n : ℕ} {x : SentTemp}
    (hi : Inv P ss key h) (hk : NoFalseMatch P ss key n) (hsent : h.sent.length ≤ n)
    (hn : n + pqcTempRxCounterWindow ≤ 2 ^ 32) (hx : x ∈ h.sent) (out : TempPayload) :
    Inv P ss key (h.deliver P x.packet out) := by
  have hrx := hi.rxCounter
  rcases handle_cases P x.packet out h.receiver with
    ⟨f, hno⟩ | ⟨offset, f, hoff, hshow, hyes⟩
  · simp only [TempHistory.deliver, hno, Bool.false_eq_true, if_false]
    exact { hi with
      established := hi.established, receiverSs := hi.receiverSs, receiverKey := hi.receiverKey
      rxCounter := hi.rxCounter, below := hi.below }
  · have hmem : x.payload.counter.toNat ∈ List.range h.sent.length := by
      rw [← hi.counters]
      exact List.mem_map.mpr ⟨x, hx, rfl⟩
    have hxlt := List.mem_range.mp hmem
    have htrial : (h.receiver.rxCounter + UInt32.ofNat offset).toNat =
        h.receiver.rxCounter.toNat + offset := by
      rw [UInt32.toNat_add, UInt32.toNat_ofNat']
      simp only [pqcTempRxCounterWindow] at hn hoff
      omega
    have hopen : trialPayload P h.receiver x.packet
        (h.receiver.rxCounter + UInt32.ofNat offset) = x.payload :=
      (hi.seals x hx).trialPayload_eq hk (by omega) hi.receiverSs hi.receiverKey
        (by rw [htrial]; omega) hshow
    rw [hopen] at hshow
    have hmove : (h.receiver.rxCounter + UInt32.ofNat offset + 1).toNat =
        x.payload.counter.toNat + 1 := by
      rw [← hshow, UInt32.toNat_add]
      exact Nat.mod_eq_of_lt (by simp only [UInt32.reduceToNat]; omega)
    have hpast : h.receiver.rxCounter.toNat ≤ x.payload.counter.toNat := by
      rw [hshow, htrial]
      omega
    have hsame : (⟨x.payload, x.packet⟩ : SentTemp) = x := rfl
    simp only [TempHistory.deliver, hyes, if_true, hopen, hsame]
    constructor
    case established => exact hi.established
    case senderSs => exact hi.senderSs
    case senderKey => exact hi.senderKey
    case receiverSs => exact hi.receiverSs
    case receiverKey => exact hi.receiverKey
    case txCounter => exact hi.txCounter
    case counters => exact hi.counters
    case seals => exact hi.seals
    case rxCounter =>
      simp only [Session.countTemp_rxCounter, Session.setRxCounter_rxCounter, hmove]
      exact hxlt
    case genuine =>
      intro y hy
      rcases List.mem_append.mp hy with hy | hy
      · exact hi.genuine y hy
      · rwa [List.mem_singleton.mp hy]
    case below =>
      intro y hy
      simp only [Session.countTemp_rxCounter, Session.setRxCounter_rxCounter, hmove]
      rcases List.mem_append.mp hy with hy | hy
      · have := hi.below y hy
        omega
      · rw [List.mem_singleton.mp hy]
        omega
    case increasing =>
      refine List.pairwise_append.mpr ⟨hi.increasing, List.pairwise_singleton _ _, ?_⟩
      intro y hy z hz
      have := hi.below y hy
      rw [List.mem_singleton.mp hz]
      omega

theorem Reach.inv {node root : Session} {n : ℕ} (hf : Fresh node root)
    (hk : NoFalseMatch P node.ss node.aesKey n) (hn : n + pqcTempRxCounterWindow ≤ 2 ^ 32)
    (hr : Reach P (initial node root) h) (hsent : h.sent.length ≤ n) :
    Inv P node.ss node.aesKey h := by
  induction hr with
  | start => exact inv_initial hf
  | send conn dest measurement q _ ih =>
    simp only [pqcTempRxCounterWindow] at hn
    exact (ih ((length_send_le conn dest measurement q).trans hsent)).send conn dest measurement q
      (by omega)
  | deliver out _ hx ih => exact (ih hsent).deliver hk hsent hn hx out

theorem Reach.length_le {node root : Session} (hr : Reach P (initial node root) h) :
    h.sent.length ≤ h.sendCalls := by
  induction hr with
  | start => exact le_rfl
  | send conn dest measurement q _ ih =>
    simp only [TempHistory.send]
    split
    · simpa using ih
    · omega
  | deliver out _ _ ih => exact ih

/-- No packet is sealed under two counters, so the bytes tell which send produced them. -/
theorem Inv.packet_injective {ss : SharedSecret} {key : AesKey} {n : ℕ} {x y : SentTemp}
    (hi : Inv P ss key h) (hk : NoFalseMatch P ss key n) (hsent : h.sent.length ≤ n)
    (hx : x ∈ h.sent) (hy : y ∈ h.sent) (hxy : x.packet = y.packet) : x = y := by
  have hlt : ∀ z ∈ h.sent, z.payload.counter.toNat < n := by
    intro z hz
    have hmem : z.payload.counter.toNat ∈ List.range h.sent.length := by
      rw [← hi.counters]
      exact List.mem_map.mpr ⟨z, hz, rfl⟩
    exact (List.mem_range.mp hmem).trans_le hsent
  have hown := (hi.seals y hy).own hi.receiverSs hi.receiverKey
  have htrial : y.payload.counter.toNat < n + pqcTempRxCounterWindow := by
    have := hlt y hy
    omega
  have hopen := (hi.seals x hx).trialPayload_eq hk (hlt x hx) hi.receiverSs hi.receiverKey htrial
    (by rw [hxy, hown])
  rw [hxy, hown] at hopen
  obtain ⟨px, bx⟩ := x
  obtain ⟨py, by'⟩ := y
  simp only at hopen hxy
  rw [hopen, hxy]

/-- The TEMP channel is exact, ordered and at most once. -/
theorem temp_channel {node root : Session} {n : ℕ} (hf : Fresh node root)
    (hk : NoFalseMatch P node.ss node.aesKey n) (hn : n ≤ 2 ^ 32 - 16)
    (hr : Reach P (initial node root) h) (hcalls : h.sendCalls ≤ n) :
    (h.sent.map (fun x => x.payload.counter)).Nodup ∧ (h.sent.map (fun x => x.packet)).Nodup ∧
    (∀ x ∈ h.accepted, x ∈ h.sent) ∧
    (h.accepted.Pairwise fun x y => x.payload.counter < y.payload.counter) ∧
    ∀ packet out,
      let r := pqcHandleEncryptedTemp P packet out h.receiver
      r.1 = false → r.2.1 = out ∧ r.2.2.rxCounter = h.receiver.rxCounter ∧
        r.2.2.ss = h.receiver.ss ∧ r.2.2.aesKey = h.receiver.aesKey := by
  have hsent := hr.length_le.trans hcalls
  have hi := hr.inv hf hk (by simp only [pqcTempRxCounterWindow]; omega) hsent
  have hcounters : (h.sent.map (fun x => x.payload.counter)).Nodup := by
    have hrange : ((h.sent.map (fun x => x.payload.counter)).map UInt32.toNat).Nodup := by
      rw [List.map_map]
      exact hi.counters ▸ List.nodup_range
    exact hrange.of_map
  refine ⟨hcounters, ?_, hi.genuine, hi.increasing, ?_⟩
  · exact hcounters.of_map.map_on
      (fun x hx y hy hxy => hi.packet_injective hk hsent hx hy hxy)
  · intro packet out r hno
    rcases handle_cases P packet out h.receiver with ⟨f, hres⟩ | ⟨offset, f, -, -, hres⟩
    · simp only [r, hres]
      exact ⟨trivial, rfl, rfl, rfl⟩
    · simp [r, hres] at hno

/-- With room in the queue a measurement is queued. -/
theorem send_queued {s : Session} {q : TxQueue} (hs : s.sessionIsEstablished = true)
    (hq : q.WellFormed) (hroom : q.txCount < pqcTxQueueSize) (conn : UdpConn) (dest : IpAddr)
    (measurement : TempPayload) : (pqcSendEncryptedTemp P conn dest measurement s q).1 = true := by
  have hsendable : TxQueue.Sendable (tempPacket P s measurement) := by
    refine ⟨?_, (tempAdmitted_packet hs).2.1⟩
    rw [tempPacket, List.length_append, tempXcrypt, xcrypt_length, tempBytes_length,
      pqcHeaderWrite_length]
    decide
  obtain ⟨idx, -, hsend⟩ := TxQueue.pqcUdpSendFragment_eq conn dest hsendable hq hroom
  have hfree : ¬ q.pqcTxFreeSlots = 0 := by
    simp only [TxQueue.pqcTxFreeSlots]
    omega
  rw [pqcSendEncryptedTemp, if_neg (by simp [hs, hfree])]
  simp [queueSend, hsend]

theorem sent_send {conn : UdpConn} {dest : IpAddr} {measurement : TempPayload} {q : TxQueue}
    (hs : (pqcSendEncryptedTemp P conn dest measurement h.sender q).1 = true) :
    (h.send P conn dest measurement q).sent =
      h.sent ++ [⟨{ measurement with counter := h.sender.txCounter },
        tempPacket P h.sender measurement⟩] :=
  if_pos hs

theorem demo_xcrypt_iv (key : AesKey) (iv iv' : AesIv) (buf : Bytes) :
    Platform.demo.cryptoWorkerAesCtrXcrypt key iv buf =
      Platform.demo.cryptoWorkerAesCtrXcrypt key iv' buf :=
  rfl

/-- The key stream of the demo platform is the same for every counter, so each trial shows the
true one. -/
theorem demo_noFalseMatch (ss : SharedSecret) (key : AesKey) (n : ℕ) :
    NoFalseMatch Platform.demo ss key n := by
  intro payload trial _ _ hne
  rw [demo_xcrypt_iv key (Platform.demo.cryptoWorkerDeriveAesIv ss trial)
    (Platform.demo.cryptoWorkerDeriveAesIv ss payload.counter), xcrypt_xcrypt,
    TempPayload.ofBytes_bytes]
  exact hne.symm

/-- A measurement is sent while the queue is empty, or packet `k` of those sent so far arrives. -/
def act (h : TempHistory) : TempPayload ⊕ ℕ → TempHistory
  | .inl measurement => h.send .demo 0 0 measurement pqcTxInit
  | .inr k =>
    match h.sent[k]? with
    | some x => h.deliver .demo x.packet ⟨0, 0, 0⟩
    | none => h

theorem Reach.act (hr : Reach .demo h₀ h) (e : TempPayload ⊕ ℕ) : Reach .demo h₀ (h.act e) := by
  cases e with
  | inl measurement => exact .send 0 0 measurement pqcTxInit hr
  | inr k =>
    simp only [TempHistory.act]
    cases hx : h.sent[k]? with
    | none => exact hr
    | some x => exact .deliver _ hr (List.mem_of_getElem? hx)

theorem Reach.follow (hr : Reach .demo h₀ h) (es : List (TempPayload ⊕ ℕ)) :
    Reach .demo h₀ (es.foldl TempHistory.act h) := by
  induction es generalizing h with
  | nil => exact hr
  | cons e es ih => exact ih (hr.act e)

def sealing : Session :=
  { (Session.sessionInit .node 1).sessionSetEstablished with
    ss := ⟨fun _ => 9⟩
    aesKey := ⟨fun i => UInt8.ofNat (5 + i.val)⟩ }

def opening : Session :=
  { (Session.sessionInit .root 1).sessionSetEstablished with
    ss := sealing.ss
    aesKey := sealing.aesKey }

/-- Of three packets the last one overtakes the second, which is lost that way, and the first comes
twice. A fourth one follows. -/
def overtaken : TempHistory :=
  [.inl ⟨0, 45000, 21500⟩, .inl ⟨0, 44000, -1250⟩, .inl ⟨0, 43000, 900⟩, .inr 0, .inr 2, .inr 1,
    .inr 0, .inl ⟨0, 42000, -1⟩, .inr 3, .inr 2].foldl act (initial sealing opening)

theorem overtaken_payloads : overtaken.sendCalls = 4 ∧
    overtaken.sent.map SentTemp.payload =
      [⟨0, 45000, 21500⟩, ⟨1, 44000, -1250⟩, ⟨2, 43000, 900⟩, ⟨3, 42000, -1⟩] ∧
    overtaken.accepted.map SentTemp.payload =
      [⟨0, 45000, 21500⟩, ⟨2, 43000, 900⟩, ⟨3, 42000, -1⟩] := by
  decide +kernel

theorem temp_channel_overtaken :
    Reach .demo (initial sealing opening) overtaken ∧
    overtaken.sent.map SentTemp.payload =
      [⟨0, 45000, 21500⟩, ⟨1, 44000, -1250⟩, ⟨2, 43000, 900⟩, ⟨3, 42000, -1⟩] ∧
    overtaken.accepted.map SentTemp.payload =
      [⟨0, 45000, 21500⟩, ⟨2, 43000, 900⟩, ⟨3, 42000, -1⟩] ∧
    (overtaken.sent.map SentTemp.packet).Nodup ∧ (∀ x ∈ overtaken.accepted, x ∈ overtaken.sent) ∧
    overtaken.accepted.Pairwise fun x y => x.payload.counter < y.payload.counter := by
  obtain ⟨hcalls, hsent, haccepted⟩ := overtaken_payloads
  have hf : Fresh sealing opening := ⟨rfl, rfl, rfl, rfl, rfl, rfl⟩
  have hr : Reach .demo (initial sealing opening) overtaken := Reach.start.follow _
  obtain ⟨-, hpackets, hgenuine, hordered, -⟩ :=
    temp_channel hf (demo_noFalseMatch _ _ 4) (by norm_num) hr hcalls.le
  exact ⟨hr, hsent, haccepted, hpackets, hgenuine, hordered⟩

end TempHistory

end PqcContiki
