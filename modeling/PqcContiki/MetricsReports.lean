import PqcContiki.Root
import PqcContiki.TxQueueSafety

/-! METRICS reports, from the snapshot of a node to the values the root stores. -/
namespace PqcContiki

theorem or_bytes {a b c d : ℕ} (hb : b < 2 ^ 8) (hc : c < 2 ^ 8) (hd : d < 2 ^ 8) :
    a * 2 ^ 24 ||| b * 2 ^ 16 ||| c * 2 ^ 8 ||| d = a * 2 ^ 24 + b * 2 ^ 16 + c * 2 ^ 8 + d := by
  have hor (hi : ℕ) {lo k : ℕ} (hlo : lo < 2 ^ k) : hi * 2 ^ k ||| lo = hi * 2 ^ k + lo := by
    rw [Nat.mul_comm, Nat.two_pow_add_eq_or_of_lt hlo]
  rw [Nat.or_assoc, hor c hd, Nat.or_assoc, hor b (by omega), hor a (by omega)]
  omega

theorem shiftLeft_byte (x : UInt8) {k : UInt32} (hk : k.toNat ≤ 24) :
    (x.toUInt32 <<< k).toNat = x.toNat * 2 ^ k.toNat := by
  have hx := x.toNat_lt
  have hle : 2 ^ k.toNat ≤ 2 ^ 24 := Nat.pow_le_pow_right (by omega) hk
  have hlt : x.toNat * 2 ^ k.toNat < 2 ^ 32 := by nlinarith
  rw [UInt32.toNat_shiftLeft, UInt8.toNat_toUInt32, Nat.shiftLeft_eq,
    Nat.mod_eq_of_lt (show k.toNat < 32 by omega), Nat.mod_eq_of_lt hlt]

theorem readU32_toNat (buf : Bytes) (i : ℕ) :
    (readU32 buf i).toNat = (byteAt buf i).toNat * 2 ^ 24 + (byteAt buf (i + 1)).toNat * 2 ^ 16 +
      (byteAt buf (i + 2)).toNat * 2 ^ 8 + (byteAt buf (i + 3)).toNat := by
  unfold readU32
  rw [UInt32.toNat_or, UInt32.toNat_or, UInt32.toNat_or, shiftLeft_byte _ (by simp),
    shiftLeft_byte _ (by simp), shiftLeft_byte _ (by simp), UInt8.toNat_toUInt32]
  exact or_bytes (UInt8.toNat_lt _) (UInt8.toNat_lt _) (UInt8.toNat_lt _)

theorem byte_of_word (x : UInt32) (k : UInt32) (hk : k.toNat < 32) :
    (x >>> k).toUInt8.toNat = x.toNat / 2 ^ k.toNat % 256 := by
  rw [UInt32.toNat_toUInt8, UInt32.toNat_shiftRight, Nat.mod_eq_of_lt hk,
    Nat.shiftRight_eq_div_pow]

/-- The four bytes of a word, read back wherever they stand. -/
theorem readU32_writeU32 {buf : Bytes} {i : ℕ} {x : UInt32}
    (h : [byteAt buf i, byteAt buf (i + 1), byteAt buf (i + 2), byteAt buf (i + 3)] =
      writeU32 x) :
    readU32 buf i = x := by
  have hx := x.toNat_lt
  simp only [writeU32, List.cons.injEq, and_true] at h
  obtain ⟨h0, h1, h2, h3⟩ := h
  apply UInt32.toNat_inj.mp
  rw [readU32_toNat, h0, h1, h2, h3, byte_of_word x 24 (by simp), byte_of_word x 16 (by simp),
    byte_of_word x 8 (by simp), UInt32.toNat_toUInt8]
  change _ / 2 ^ 24 % 256 * _ + _ / 2 ^ 16 % 256 * _ + _ / 2 ^ 8 % 256 * _ + _ = _
  omega

theorem writeU32_readU32 (buf : Bytes) (i : ℕ) :
    writeU32 (readU32 buf i) =
      [byteAt buf i, byteAt buf (i + 1), byteAt buf (i + 2), byteAt buf (i + 3)] := by
  have h0 := (byteAt buf i).toNat_lt
  have h1 := (byteAt buf (i + 1)).toNat_lt
  have h2 := (byteAt buf (i + 2)).toNat_lt
  have h3 := (byteAt buf (i + 3)).toNat_lt
  have hr := readU32_toNat buf i
  have hbyte (k : UInt32) (hk : k.toNat < 32) := byte_of_word (readU32 buf i) k hk
  have h24 := hbyte 24 (by simp)
  have h16 := hbyte 16 (by simp)
  have h8 := hbyte 8 (by simp)
  change _ = _ / 2 ^ 24 % 256 at h24
  change _ = _ / 2 ^ 16 % 256 at h16
  change _ = _ / 2 ^ 8 % 256 at h8
  have hlow : (readU32 buf i).toUInt8.toNat = _ := UInt32.toNat_toUInt8 _
  simp only [writeU32, List.cons.injEq, and_true]
  refine ⟨?_, ?_, ?_, ?_⟩ <;> apply UInt8.toNat_inj.mp <;> omega

theorem pqcMetricsEncodeReport_length (report : MetricsReport) :
    (pqcMetricsEncodeReport report).length = pqcMetricsReportLen := rfl

theorem decodeReport_encodeReport {report : MetricsReport}
    (hversion : report.version = pqcMetricsSchemaVersion) (hpos : 0 < report.group)
    (hgroup : report.group ≤ pqcMetricsGroupCount) :
    pqcMetricsDecodeReport (pqcMetricsEncodeReport report) = some report := by
  obtain ⟨version, group, seq, uptimeTicks, value⟩ := report
  simp only at hversion hpos hgroup
  have hbyte : (byteAt (pqcMetricsEncodeReport ⟨version, group, seq, uptimeTicks, value⟩)
      1).toNat = group :=
    UInt8.toNat_ofNat_of_lt' (lt_of_le_of_lt hgroup (by decide))
  unfold pqcMetricsDecodeReport
  simp only [hbyte]
  rw [if_neg]
  · simp only [Option.some.injEq, MetricsReport.mk.injEq, true_and]
    refine ⟨rfl, readU32_writeU32 rfl, readU32_writeU32 rfl, ?_⟩
    funext i
    fin_cases i <;> exact readU32_writeU32 rfl
  · rintro (hlen | hv | hzero | hbig)
    · exact hlen rfl
    · exact hv hversion
    · omega
    · omega

theorem encodeReport_decodeReport {buf : Bytes} {report : MetricsReport}
    (h : pqcMetricsDecodeReport buf = some report) : pqcMetricsEncodeReport report = buf := by
  unfold pqcMetricsDecodeReport at h
  simp only [Option.ite_none_left_eq_some, Option.some.injEq] at h
  obtain ⟨hok, rfl⟩ := h
  push Not at hok
  obtain ⟨hlen, -⟩ := hok
  simp only [pqcMetricsEncodeReport, UInt8.ofNat_toNat, writeU32_readU32]
  apply List.ext_getElem
  · exact hlen.symm
  · intro i hi hi'
    have hat : byteAt buf i = buf[i] := by
      simp only [byteAt, List.getD_eq_getElem?_getD, List.getElem?_eq_getElem hi',
        Option.getD_some]
    rw [← hat]
    change i < 26 at hi
    interval_cases i <;> rfl

/-- The packet that carries a report of session `s`. -/
def metricsPacket (s : Session) (report : MetricsReport) : Bytes :=
  pqcHeaderWrite pqcMsgMetrics s.nodeId s.nextMsgId 0 1 pqcMetricsReportLen pqcFlagNone ++
    pqcMetricsEncodeReport report

theorem metricsReport_packet (s : Session) {report : MetricsReport}
    (hversion : report.version = pqcMetricsSchemaVersion) (hpos : 0 < report.group)
    (hgroup : report.group ≤ pqcMetricsGroupCount) :
    Root.metricsReport (metricsPacket s report) = some report := by
  have hdrop : ((metricsPacket s report).drop pqcHeaderLen).take pqcMetricsReportLen =
      pqcMetricsEncodeReport report := by
    rw [metricsPacket, List.drop_left' pqcHeaderWrite_length,
      List.take_of_length_le (pqcMetricsEncodeReport_length report).le]
  rw [Root.metricsReport, if_pos ⟨rfl, rfl, rfl, rfl⟩, hdrop]
  exact decodeReport_encodeReport hversion hpos hgroup

theorem MetricsSnapshot.groupValues_isSome (m : MetricsSnapshot) {group : ℕ} (hpos : 0 < group)
    (hgroup : group ≤ pqcMetricsGroupCount) : ∃ value, m.groupValues group = some value := by
  change group ≤ 7 at hgroup
  interval_cases group <;> exact ⟨_, rfl⟩

theorem MetricsSnapshot.buildReport_eq {m : MetricsSnapshot} {group : ℕ}
    {value : Fin 4 → UInt32} (h : m.groupValues group = some value) (now : ℕ) :
    (m.pqcMetricsBuildReport now group).1 =
      some ⟨pqcMetricsSchemaVersion, group, m.seq + 1, UInt32.ofNat now, value⟩ := by
  simp only [pqcMetricsBuildReport, h]

section Sending

variable {now : ℕ} {conn : UdpConn} {dest : IpAddr} {group : ℕ} {s : Session} {q : TxQueue}

theorem pqcSendMetricsReport_eq {report : MetricsReport} (hs : s.sessionIsEstablished = true)
    (hfree : q.pqcTxFreeSlots ≠ 0)
    (hb : (s.metrics.pqcMetricsBuildReport now group).1 = some report) :
    (pqcSendMetricsReport now conn dest group s q).1 =
        (queueSend ⟨some conn, some dest⟩ (metricsPacket s report) q).1 ∧
      (pqcSendMetricsReport now conn dest group s q).2.2 =
        (queueSend ⟨some conn, some dest⟩ (metricsPacket s report) q).2 := by
  rw [pqcSendMetricsReport, if_neg (by simp [hs, hfree])]
  simp only [hb, Session.mapMetrics_nodeId, Session.mapMetrics_nextMsgId]
  cases hq : (queueSend ⟨some conn, some dest⟩ (metricsPacket s report) q).1
  · rw [metricsPacket] at hq
    simp [hq, metricsPacket]
  · rw [metricsPacket] at hq
    simp [hq, metricsPacket]

/-- A report that was sent stands in the queue, under the header of its session. -/
theorem pqcSendMetricsReport_sent (h : (pqcSendMetricsReport now conn dest group s q).1 = true) :
    ∃ report idx, (s.metrics.pqcMetricsBuildReport now group).1 = some report ∧
      q.pqcTxFindFreeSlot = some idx ∧ (pqcSendMetricsReport now conn dest group s q).2.2 =
        q.pqcTxPut idx (metricsPacket s report) conn dest := by
  by_cases hok : !s.sessionIsEstablished ∨ q.pqcTxFreeSlots = 0
  · rw [pqcSendMetricsReport, if_pos hok] at h
    cases h
  · push Not at hok
    cases hb : (s.metrics.pqcMetricsBuildReport now group).1 with
    | none =>
      rw [pqcSendMetricsReport, if_neg (by simpa using hok)] at h
      simp [hb] at h
    | some report =>
      have hs : s.sessionIsEstablished = true := by simpa using hok.1
      obtain ⟨hsent, hqueue⟩ := @pqcSendMetricsReport_eq now conn dest group s q report hs hok.2 hb
      rw [h] at hsent
      rcases TxQueue.pqcUdpSendFragment_cases q (some (metricsPacket s report))
        (some ⟨some conn, some dest⟩) with hq | ⟨p, c, d, idx, hp, hctx, -, -, hidx, hq⟩
      · rw [queueSend, hq] at hsent
        cases hsent
      · cases hp
        cases hctx
        refine ⟨report, idx, rfl, hidx, ?_⟩
        rw [hqueue, queueSend, hq]

/-- With room in the queue the report of a group that exists is queued. -/
theorem pqcSendMetricsReport_queued (hs : s.sessionIsEstablished = true) (hq : q.WellFormed)
    (hroom : q.txCount < pqcTxQueueSize) (hpos : 0 < group)
    (hgroup : group ≤ pqcMetricsGroupCount) :
    (pqcSendMetricsReport now conn dest group s q).1 = true := by
  obtain ⟨value, hvalue⟩ := s.metrics.groupValues_isSome hpos hgroup
  have hfree : q.pqcTxFreeSlots ≠ 0 := by
    simp only [TxQueue.pqcTxFreeSlots]
    omega
  have hb := MetricsSnapshot.buildReport_eq hvalue now
  have hsendable : TxQueue.Sendable (metricsPacket s ⟨pqcMetricsSchemaVersion, group,
      s.metrics.seq + 1, UInt32.ofNat now, value⟩) := by
    refine ⟨?_, pqcHeaderValid_write (pqcMetricsEncodeReport_length _)⟩
    rw [metricsPacket, List.length_append, pqcMetricsEncodeReport_length, pqcHeaderWrite_length]
    decide
  obtain ⟨idx, -, hsend⟩ := TxQueue.pqcUdpSendFragment_eq conn dest hsendable hq hroom
  rw [(pqcSendMetricsReport_eq hs hfree hb).1, queueSend, hsend]

end Sending

namespace Root

variable {P : Platform} {clk : Clock} {rnd : Entropy} {r : Root} {i : Fin sessionMaxNodes}
  {sender : IpAddr} {report : MetricsReport}

theorem storeNodeMetrics_values {group : Fin (pqcMetricsGroupCount + 1)} (hpos : group ≠ 0)
    (hgroup : report.group = group) (i : Fin sessionMaxNodes) (r : Root) :
    ((r.sessionStoreNodeMetrics i report).sessions i).nodeMetricValues group = report.value := by
  have hpos' : 0 < group.val := Fin.pos_iff_ne_zero.mpr hpos
  have hlt := group.isLt
  have hok : ¬ (report.group = 0 ∨ report.group > pqcMetricsGroupCount) := by omega
  have hindex : (⟨report.group, by omega⟩ : Fin (pqcMetricsGroupCount + 1)) = group :=
    Fin.ext hgroup
  simp only [sessionStoreNodeMetrics, mapSession, setSession_sessions, Function.update_self,
    setNodeMetrics, dif_neg hok, hindex]

theorem csvSessionSummaryIfReady_values (i : Fin sessionMaxNodes) (r : Root) :
    ((r.csvSessionSummaryIfReady i).sessions i).nodeMetricValues =
      (r.sessions i).nodeMetricValues := by
  unfold csvSessionSummaryIfReady
  dsimp only
  split
  · rfl
  · split
    · rfl
    · simp [mapSession, csvEvent]

theorem noteCtStart_other {msgType msgId : UInt8} (h : msgType ≠ pqcMsgCt) :
    r.noteCtStart P clk i msgType msgId = r := by
  rw [noteCtStart, if_neg (fun hct => h hct.1)]

/-- The callback stores what the report of a METRICS packet says. -/
theorem udpRxCallback_metrics {packet : Bytes} {group : Fin (pqcMetricsGroupCount + 1)}
    (hvalid : pqcHeaderValid packet = true)
    (htype : byteAt packet pqcHdrMsgType = pqcMsgMetrics)
    (hreport : metricsReport packet = some report) (hpos : group ≠ 0)
    (hgroup : report.group = group)
    (hi : (r.sessionManagerGetOrCreate (pqcHeaderGetNodeId packet)).1 = some i) :
    ((r.udpRxCallback P clk rnd sender packet).sessions i).nodeMetricValues group =
      report.value := by
  unfold udpRxCallback
  simp only [hvalid, hi, Bool.not_true, Bool.false_eq_true, if_false]
  generalize (r.sessionManagerGetOrCreate (pqcHeaderGetNodeId packet)).2 = r'
  unfold dispatch
  simp only [htype]
  rw [if_neg (by decide), if_neg (by decide), if_pos trivial, noteCtStart_other (by decide)]
  simp only [handleMetrics, hreport, csvSessionSummaryIfReady_values]
  exact storeNodeMetrics_values hpos hgroup i _

end Root

/-- Every report that is sent reaches the root's table as the node's snapshot had it, and every
payload the root accepts is the encoding of what it read. -/
theorem metrics_reports_faithful :
    (∀ (now : ℕ) (conn : UdpConn) (dest : IpAddr) (group : Fin (pqcMetricsGroupCount + 1))
      (s : Session) (q : TxQueue), group ≠ 0 →
      (pqcSendMetricsReport now conn dest group s q).1 = true →
      ∃ packet idx report value, q.pqcTxFindFreeSlot = some idx ∧
        (pqcSendMetricsReport now conn dest group s q).2.2 = q.pqcTxPut idx packet conn dest ∧
        s.metrics.groupValues group = some value ∧
        pqcHeaderValid packet = true ∧ byteAt packet pqcHdrMsgType = pqcMsgMetrics ∧
        pqcHeaderGetNodeId packet = s.nodeId ∧ Root.metricsReport packet = some report ∧
        (∀ (r : Root) (i : Fin sessionMaxNodes),
          ((r.sessionStoreNodeMetrics i report).sessions i).nodeMetricValues group = value) ∧
        ∀ (P : Platform) (clk : Clock) (rnd : Entropy) (sender : IpAddr) (r : Root)
          (i : Fin sessionMaxNodes), (r.sessionManagerGetOrCreate s.nodeId).1 = some i →
          ((r.udpRxCallback P clk rnd sender packet).sessions i).nodeMetricValues group =
            value) ∧
    ∀ (payload : Bytes) (report : MetricsReport), payload.length = pqcMetricsReportLen →
      pqcMetricsDecodeReport payload = some report → pqcMetricsEncodeReport report = payload := by
  constructor
  · intro now conn dest group s q hne hsent
    have hpos : 0 < group.val := Fin.pos_iff_ne_zero.mpr hne
    have hle : group.val ≤ pqcMetricsGroupCount := Nat.le_of_lt_succ group.isLt
    obtain ⟨value, hvalue⟩ := s.metrics.groupValues_isSome hpos hle
    obtain ⟨report, idx, hbuilt, hidx, hqueue⟩ := pqcSendMetricsReport_sent hsent
    rw [MetricsSnapshot.buildReport_eq hvalue, Option.some.injEq] at hbuilt
    have hversion : report.version = pqcMetricsSchemaVersion := by rw [← hbuilt]
    have hgroup : report.group = group := by rw [← hbuilt]
    have hstored : report.value = value := by rw [← hbuilt]
    have hvalid : pqcHeaderValid (metricsPacket s report) = true :=
      pqcHeaderValid_write (pqcMetricsEncodeReport_length report)
    have hreport := metricsReport_packet s hversion (by rw [hgroup]; exact hpos)
      (by rw [hgroup]; exact hle)
    have hid : pqcHeaderGetNodeId (metricsPacket s report) = s.nodeId := pqcHeaderGetNodeId_write
    refine ⟨_, idx, report, value, hidx, hqueue, hvalue, hvalid, rfl, hid, hreport, ?_, ?_⟩
    · intro r i
      rw [← hstored]
      exact Root.storeNodeMetrics_values hne hgroup i r
    · intro P clk rnd sender r i hi
      rw [← hid] at hi
      rw [← hstored]
      exact Root.udpRxCallback_metrics hvalid rfl hreport hne hgroup hi
  · intro payload report _ h
    exact encodeReport_decodeReport h

/-- An established node with id 7 whose fragment counters fill all their bytes. -/
def busySession : Session :=
  (Session.sessionInit .node 7).sessionSetEstablished.mapMetrics fun m =>
    { m with
      fragmentation :=
        { m.fragmentation with
          fragmentsTx := 0x01020304
          fragmentsRx := 0x80ff7f01
          nackTx := 0xdeadbeef
          nackRx := 0xffffffff } }

def busyValues : Fin 4 → UInt32 := ![0x01020304, 0x80ff7f01, 0xdeadbeef, 0xffffffff]

/-- The report of these counters reaches a root that does not know the node yet, and its payload is
the one encoding of what the root reads. -/
theorem metrics_reports_faithful_busy :
    (∃ packet report, Root.metricsReport packet = some report ∧
      (((Root.boot .demo 0).udpRxCallback .demo (fun _ => 0) 0 7 packet).sessions
        0).nodeMetricValues 5 = busyValues) ∧
    pqcMetricsEncodeReport ⟨1, 5, 0x05060708, 0xa1b2c3d4, busyValues⟩ =
      [1, 5, 5, 6, 7, 8, 0xa1, 0xb2, 0xc3, 0xd4, 1, 2, 3, 4, 0x80, 0xff, 0x7f, 1, 0xde, 0xad, 0xbe,
        0xef, 0xff, 0xff, 0xff, 0xff] := by
  have hsent : (pqcSendMetricsReport 0 udpConn 0 (5 : Fin (pqcMetricsGroupCount + 1))
      busySession pqcTxInit).1 = true :=
    pqcSendMetricsReport_queued rfl TxQueue.wellFormed_init (by decide) (by decide) (by decide)
  obtain ⟨packet, idx, report, value, -, -, hvalue, -, -, -, hreport, -, hreceived⟩ :=
    metrics_reports_faithful.1 0 udpConn 0 5 busySession pqcTxInit (by decide) hsent
  obtain rfl : busyValues = value := Option.some.inj hvalue
  have hcreated :
      ((Root.boot .demo 0).sessionManagerGetOrCreate busySession.nodeId).1 = some 0 := by
    decide +kernel
  refine ⟨⟨packet, report, hreport, hreceived _ _ _ _ _ _ hcreated⟩, ?_⟩
  exact metrics_reports_faithful.2 _ _ rfl
    (@decodeReport_encodeReport ⟨1, 5, 0x05060708, 0xa1b2c3d4, busyValues⟩ rfl (by decide)
      (by decide))

end PqcContiki
