import PqcContiki.Root
import PqcContiki.Library.Decimal

/-! The two texts the root prints about a measurement: `print_measurement` and `csv_temp`. -/
namespace PqcContiki

open Decimal

/-- `%0<width>ld`; the zeros stand behind the sign. -/
def formatLong (width : ℕ) (x : ℤ) : List Char :=
  let sign := if x < 0 then ['-'] else []
  let digits := Nat.toDigits 10 x.natAbs
  sign ++ List.replicate (width - (sign ++ digits).length) '0' ++ digits

/-- One of the two `%ld.%03ld` of `print_measurement`. -/
def formatMilli (milli : Int32) : List Char :=
  let int := milli / 1000
  let frac := (if milli ≥ 0 then milli else -milli) % 1000
  formatLong 0 int.toInt ++ '.' :: formatLong 3 frac.toInt

def printMeasurement (rhMilli tempMilli : Int32) : List Char :=
  "RH:".toList ++ formatMilli rhMilli ++ " %,  T:".toList ++ formatMilli tempMilli ++
    " C\r\n".toList

def csvPrintSeconds (P : Platform) (ticks : UInt32) : List Char :=
  let clockSecond := UInt32.ofNat P.clockSecond
  let seconds := ticks / clockSecond
  let millis := (ticks % clockSecond * 1000 + clockSecond / 2) / clockSecond
  let (seconds, millis) :=
    if millis ≥ 1000 then (seconds + 1, millis - 1000) else (seconds, millis)
  formatLong 0 seconds.toNat ++ '.' :: formatLong 3 millis.toNat

/-- The line of `csv_temp`, whose row in `Root.csv` leaves the time out. -/
def csvTempLine (P : Platform) (now : UInt32) (nodeId : UInt16) (measurement : TempPayload) :
    List Char :=
  "PQC_CSV,TEMP,".toList ++ csvPrintSeconds P now ++ ",".toList ++
    formatLong 0 nodeId.toNat ++ ",TEMP_RX,".toList ++ formatLong 0 measurement.counter.toNat ++
    ',' :: (formatLong 0 measurement.rhMilli.toInt ++
      ',' :: (formatLong 0 measurement.tempMilli.toInt ++ ",0\r\n".toList))

/-- The numbers a line of `print_measurement` shows. -/
def Shows (line : List Char) (rh temp : ℚ) : Prop :=
  ∃ rhText tempText, line = "RH:".toList ++ rhText ++ " %,  T:".toList ++ tempText ++
    " C\r\n".toList ∧ Denotes rhText rh ∧ Denotes tempText temp

/-- The milli-units a TEMP line of the CSV log holds. -/
def Logs (line : List Char) (rhMilli tempMilli : ℤ) : Prop :=
  ∃ front rhText tempText, line = front ++ ',' :: (rhText ++ ',' :: (tempText ++
    ",0\r\n".toList)) ∧ DenotesInt rhText rhMilli ∧ DenotesInt tempText tempMilli

/-- The integer part is zero and the sign is gone with it. -/
def LosesSign (milli : Int32) : Prop := -1000 < milli.toInt ∧ milli.toInt < 0

instance (milli : Int32) : Decidable (LosesSign milli) := inferInstanceAs (Decidable (_ ∧ _))

/-- What a value of `milli` reads as. -/
def shownMilli (milli : Int32) : ℤ := if LosesSign milli then -milli.toInt else milli.toInt

theorem digits_formatLong (width : ℕ) {x : ℤ} (hx : 0 ≤ x) : Digits (formatLong width x) := by
  have hd := digits_toDigits x.natAbs
  simp only [formatLong, if_neg (not_lt.mpr hx), List.nil_append]
  refine ⟨List.append_ne_nil_of_right_ne_nil _ hd.1, ?_⟩
  intro c hc
  rcases List.mem_append.mp hc with hz | hc
  · rw [(List.mem_replicate.mp hz).2]
    rfl
  · exact hd.2 c hc

theorem value_formatLong (width : ℕ) {x : ℤ} (hx : 0 ≤ x) :
    (Nat.ofDigitChars 10 (formatLong width x) 0 : ℤ) = x := by
  simp only [formatLong, if_neg (not_lt.mpr hx), List.nil_append, Nat.ofDigitChars_append,
    Nat.ofDigitChars_replicate_zero, Nat.mul_zero, Nat.ofDigitChars_ten_toDigits]
  omega

theorem length_formatLong {width : ℕ} (hw : 0 < width) {x : ℤ} (hx : 0 ≤ x)
    (hlt : x < 10 ^ width) : (formatLong width x).length = width := by
  have hle : (Nat.toDigits 10 x.natAbs).length ≤ width := by
    rw [Nat.length_toDigits_le_iff (by decide) hw]
    zify
    rwa [abs_of_nonneg hx]
  simp only [formatLong, if_neg (not_lt.mpr hx), List.nil_append, List.length_append,
    List.length_replicate]
  omega

theorem formatLong_neg {x : ℤ} (hx : x < 0) : formatLong 0 x = '-' :: formatLong 0 (-x) := by
  have hn : ¬ -x < 0 := by omega
  simp only [formatLong, if_pos hx, if_neg hn, Nat.zero_sub, List.replicate_zero,
    List.append_nil, List.nil_append, List.singleton_append, Int.natAbs_neg]

theorem denotesInt_formatLong (x : ℤ) : DenotesInt (formatLong 0 x) x := by
  by_cases hx : x < 0
  · have h := DenotesInt.minus (digits_formatLong 0 (show 0 ≤ -x by omega))
    rw [value_formatLong 0 (show 0 ≤ -x by omega), neg_neg] at h
    rw [formatLong_neg hx]
    exact h
  · have h := DenotesInt.plus (digits_formatLong 0 (show 0 ≤ x by omega))
    rwa [value_formatLong 0 (show 0 ≤ x by omega)] at h

theorem magnitude_formatLong {int frac : ℤ} (hint : 0 ≤ int) (hfrac : 0 ≤ frac)
    (hlt : frac < 1000) :
    magnitude (formatLong 0 int) (formatLong 3 frac) = ((int * 1000 + frac : ℤ) : ℚ) / 1000 := by
  have hi : (Nat.ofDigitChars 10 (formatLong 0 int) 0 : ℚ) = int := by
    exact_mod_cast value_formatLong 0 hint
  have hf : (Nat.ofDigitChars 10 (formatLong 3 frac) 0 : ℚ) = frac := by
    exact_mod_cast value_formatLong 3 hfrac
  rw [magnitude, length_formatLong (by decide) hfrac (by omega), hi, hf]
  push_cast
  ring

section Value

variable {milli milli' : Int32}

theorem intPart_toInt (milli : Int32) : (milli / 1000).toInt = milli.toInt.tdiv 1000 :=
  Int32.toInt_div_of_ne_right milli 1000 (by decide)

theorem intPart_negative (hneg : milli.toInt < 0) :
    (milli / 1000).toInt = -(-milli.toInt / 1000) := by
  rw [intPart_toInt, ← Int.tdiv_eq_ediv_of_nonneg (by omega), Int.neg_tdiv, neg_neg]

theorem intPart_zero (hsmall : |milli.toInt| < 1000) : (milli / 1000).toInt = 0 := by
  rw [abs_lt] at hsmall
  by_cases hpos : 0 ≤ milli.toInt
  · rw [intPart_toInt, Int.tdiv_eq_ediv_of_nonneg hpos]
    omega
  · rw [intPart_negative (by omega)]
    omega

theorem fracPart_toInt (hmin : milli ≠ Int32.minValue) :
    ((if milli ≥ 0 then milli else -milli) % 1000).toInt = |milli.toInt| % 1000 := by
  have hlow := milli.le_toInt
  have hhigh := milli.toInt_lt
  have hne : milli.toInt ≠ -2 ^ 31 := fun h => hmin (Int32.toInt_inj.mp h)
  have hsign : milli ≥ 0 ↔ 0 ≤ milli.toInt := Int32.le_iff_toInt_le
  have habs : (if milli ≥ 0 then milli else -milli).toInt = |milli.toInt| := by
    by_cases hpos : 0 ≤ milli.toInt
    · rw [if_pos (hsign.mpr hpos), abs_of_nonneg hpos]
    · rw [if_neg (fun h => hpos (hsign.mp h)), abs_of_neg (by omega), Int32.toInt_neg,
        Int.bmod_eq_of_le (by omega) (by omega)]
  rw [Int32.toInt_mod, habs]
  exact Int.tmod_eq_emod_of_nonneg (abs_nonneg _)

theorem denotes_formatMilli (hmin : milli ≠ Int32.minValue) :
    Denotes (formatMilli milli) ((shownMilli milli : ℚ) / 1000) := by
  have hfrac : 0 ≤ |milli.toInt| % 1000 := Int.emod_nonneg _ (by decide)
  have hlt : |milli.toInt| % 1000 < 1000 := Int.emod_lt_of_pos _ (by decide)
  simp only [formatMilli, fracPart_toInt hmin]
  by_cases hpos : 0 ≤ milli.toInt
  · have hint : 0 ≤ milli.toInt.tdiv 1000 := Int.tdiv_nonneg hpos (by decide)
    have hshown : shownMilli milli = milli.toInt.tdiv 1000 * 1000 + |milli.toInt| % 1000 := by
      rw [shownMilli, if_neg (fun h => absurd h.2 (by omega)), abs_of_nonneg hpos,
        Int.tdiv_eq_ediv_of_nonneg hpos]
      omega
    rw [intPart_toInt, hshown, ← magnitude_formatLong hint hfrac hlt]
    exact .plus (digits_formatLong 0 hint) (digits_formatLong 3 hfrac)
  · rw [abs_of_neg (by omega)] at hfrac hlt ⊢
    by_cases hloses : LosesSign milli
    · obtain ⟨hlow, hhigh⟩ := hloses
      have hzero : (milli / 1000).toInt = 0 := intPart_zero (abs_lt.mpr ⟨hlow, by omega⟩)
      have hshown : shownMilli milli = 0 * 1000 + -milli.toInt % 1000 := by
        rw [shownMilli, if_pos ⟨hlow, hhigh⟩]
        omega
      rw [hzero, hshown, ← magnitude_formatLong le_rfl hfrac hlt]
      exact .plus (digits_formatLong 0 le_rfl) (digits_formatLong 3 hfrac)
    · have hbig : milli.toInt ≤ -1000 := by
        by_contra h
        exact hloses ⟨by omega, by omega⟩
      have hint : 0 ≤ -milli.toInt / 1000 := by omega
      have hshown : shownMilli milli = -(-milli.toInt / 1000 * 1000 + -milli.toInt % 1000) := by
        rw [shownMilli, if_neg hloses]
        omega
      rw [intPart_negative (by omega), formatLong_neg (by omega), neg_neg, hshown, Int.cast_neg,
        neg_div, ← magnitude_formatLong hint hfrac hlt]
      exact .minus (digits_formatLong 0 hint) (digits_formatLong 3 hfrac)

theorem shownMilli_eq_iff : shownMilli milli = milli.toInt ↔ ¬ LosesSign milli := by
  unfold shownMilli
  split
  · rename_i h
    have hneg := h.2
    exact iff_of_false (by omega) (not_not.mpr h)
  · rename_i h
    exact iff_of_true rfl h

/-- Equal, or opposite with a zero integer part. -/
def SameText (milli milli' : Int32) : Prop :=
  milli = milli' ∨ milli.toInt = -milli'.toInt ∧ |milli'.toInt| < 1000

theorem sameText_of_shown (h : shownMilli milli = shownMilli milli') : SameText milli milli' := by
  unfold shownMilli at h
  split at h <;> split at h
  · exact Or.inl (Int32.toInt_inj.mp (by omega))
  · rename_i hl _
    have hlow := hl.1
    have hhigh := hl.2
    refine Or.inr ⟨by omega, ?_⟩
    rw [abs_lt]
    omega
  · rename_i hl
    have hlow := hl.1
    have hhigh := hl.2
    refine Or.inr ⟨by omega, ?_⟩
    rw [abs_lt]
    omega
  · exact Or.inl (Int32.toInt_inj.mp h)

theorem formatMilli_eq_iff (hmin : milli ≠ Int32.minValue) (hmin' : milli' ≠ Int32.minValue) :
    formatMilli milli = formatMilli milli' ↔ SameText milli milli' := by
  constructor
  · intro h
    have hd := denotes_formatMilli hmin
    rw [h] at hd
    have hq := hd.unique (denotes_formatMilli hmin')
    have hshown : shownMilli milli = shownMilli milli' := by
      have hdiv := (div_left_inj' (by norm_num : (1000 : ℚ) ≠ 0)).mp hq
      exact_mod_cast hdiv
    exact sameText_of_shown hshown
  · rintro (rfl | ⟨hopp, hsmall⟩)
    · rfl
    · have habs : |milli.toInt| = |milli'.toInt| := by rw [hopp, abs_neg]
      have hz := intPart_zero (habs ▸ hsmall)
      have hz' := intPart_zero hsmall
      simp only [formatMilli, fracPart_toInt hmin, fracPart_toInt hmin', hz, hz', habs]

end Value

/-- Without blanks in its numbers a line determines them. -/
theorem line_inj {rh temp rh' temp' : List Char} (hrh : ' ' ∉ rh) (htemp : ' ' ∉ temp)
    (hrh' : ' ' ∉ rh') (htemp' : ' ' ∉ temp')
    (h : "RH:".toList ++ rh ++ " %,  T:".toList ++ temp ++ " C\r\n".toList =
      "RH:".toList ++ rh' ++ " %,  T:".toList ++ temp' ++ " C\r\n".toList) :
    rh = rh' ∧ temp = temp' := by
  simp only [List.append_assoc] at h
  have hfront := List.append_cancel_left h
  obtain ⟨hrhs, hrest⟩ := append_separator_inj hrh hrh' hfront
  have hback : temp ++ " C\r\n".toList = temp' ++ " C\r\n".toList :=
    List.append_cancel_left hrest
  exact ⟨hrhs, (append_separator_inj htemp htemp' hback).1⟩

section Lines

variable {rh temp rh' temp' : Int32}

theorem shows_iff (hrh : rh ≠ Int32.minValue) (htemp : temp ≠ Int32.minValue) {x y : ℚ} :
    Shows (printMeasurement rh temp) x y ↔
      x = (shownMilli rh : ℚ) / 1000 ∧ y = (shownMilli temp : ℚ) / 1000 := by
  have hdrh := denotes_formatMilli hrh
  have hdtemp := denotes_formatMilli htemp
  constructor
  · rintro ⟨rhText, tempText, hline, hx, hy⟩
    obtain ⟨rfl, rfl⟩ := line_inj hdrh.noBlank hdtemp.noBlank hx.noBlank hy.noBlank hline
    exact ⟨hx.unique hdrh, hy.unique hdtemp⟩
  · rintro ⟨rfl, rfl⟩
    exact ⟨_, _, rfl, hdrh, hdtemp⟩

theorem printMeasurement_eq_iff (hrh : rh ≠ Int32.minValue) (htemp : temp ≠ Int32.minValue)
    (hrh' : rh' ≠ Int32.minValue) (htemp' : temp' ≠ Int32.minValue) :
    printMeasurement rh temp = printMeasurement rh' temp' ↔
      SameText rh rh' ∧ SameText temp temp' := by
  rw [← formatMilli_eq_iff hrh hrh', ← formatMilli_eq_iff htemp htemp']
  constructor
  · intro h
    exact line_inj (denotes_formatMilli hrh).noBlank (denotes_formatMilli htemp).noBlank
      (denotes_formatMilli hrh').noBlank (denotes_formatMilli htemp').noBlank h
  · rintro ⟨hr, ht⟩
    rw [printMeasurement, printMeasurement, hr, ht]

end Lines

theorem logs_csvTempLine (P : Platform) (now : UInt32) (nodeId : UInt16) (m : TempPayload) :
    Logs (csvTempLine P now nodeId m) m.rhMilli.toInt m.tempMilli.toInt :=
  ⟨_, _, _, rfl, denotesInt_formatLong _, denotesInt_formatLong _⟩

/-- The two lines about a measurement hold the same values. -/
def TextsAgree (P : Platform) (now : UInt32) (nodeId : UInt16) (m : TempPayload) : Prop :=
  ∃ rh temp : ℤ, rh = m.rhMilli.toInt ∧ temp = m.tempMilli.toInt ∧
    Logs (csvTempLine P now nodeId m) rh temp ∧
    Shows (printMeasurement m.rhMilli m.tempMilli) (rh / 1000) (temp / 1000)

theorem textsAgree_iff {P : Platform} {now : UInt32} {nodeId : UInt16} {m : TempPayload}
    (hrh : m.rhMilli ≠ Int32.minValue) (htemp : m.tempMilli ≠ Int32.minValue) :
    TextsAgree P now nodeId m ↔ ¬ LosesSign m.rhMilli ∧ ¬ LosesSign m.tempMilli := by
  have hthousand : (1000 : ℚ) ≠ 0 := by norm_num
  rw [← shownMilli_eq_iff, ← shownMilli_eq_iff]
  constructor
  · rintro ⟨rh, temp, rfl, rfl, -, hshows⟩
    obtain ⟨hx, hy⟩ := (shows_iff hrh htemp).mp hshows
    rw [div_left_inj' hthousand] at hx hy
    exact ⟨by exact_mod_cast hx.symm, by exact_mod_cast hy.symm⟩
  · rintro ⟨hx, hy⟩
    refine ⟨_, _, rfl, rfl, logs_csvTempLine P now nodeId m, ?_⟩
    rw [shows_iff hrh htemp, hx, hy]
    exact ⟨rfl, rfl⟩

theorem SameText.eq {milli milli' : Int32} (h : SameText milli milli') (hl : ¬ LosesSign milli)
    (hl' : ¬ LosesSign milli') : milli = milli' := by
  rcases h with h | ⟨hopp, hsmall⟩
  · exact h
  · unfold LosesSign at hl hl'
    rw [abs_lt] at hsmall
    exact Int32.toInt_inj.mp (by omega)

/-- The lines agree unless a value between -1 and 0 loses its sign, and measurements that print
alike differ in nothing but such a sign. -/
theorem measurement_texts_agree (P : Platform) (now : UInt32) (nodeId : UInt16) {m m' : TempPayload}
    (hrh : m.rhMilli ≠ Int32.minValue) (htemp : m.tempMilli ≠ Int32.minValue)
    (hrh' : m'.rhMilli ≠ Int32.minValue) (htemp' : m'.tempMilli ≠ Int32.minValue) :
    (TextsAgree P now nodeId m ↔ ¬ LosesSign m.rhMilli ∧ ¬ LosesSign m.tempMilli) ∧
    (printMeasurement m.rhMilli m.tempMilli = printMeasurement m'.rhMilli m'.tempMilli ↔
      SameText m.rhMilli m'.rhMilli ∧ SameText m.tempMilli m'.tempMilli) ∧
    ∀ milli milli' : Int32, ¬ LosesSign milli → ¬ LosesSign milli' →
      (SameText milli milli' ↔ milli = milli') := by
  refine ⟨textsAgree_iff hrh htemp, printMeasurement_eq_iff hrh htemp hrh' htemp', ?_⟩
  intro milli milli' hl hl'
  exact ⟨fun h => h.eq hl hl', Or.inl⟩

/-- Frost below minus one degree prints as it is logged, and no other frost does. -/
theorem measurement_texts_agree_frost :
    TextsAgree Platform.demo 0 7 ⟨1, 45000, -21500⟩ ∧
      printMeasurement 45000 (-21500) ≠ printMeasurement 45000 21500 := by
  obtain ⟨hagree, hprint, hsame⟩ := @measurement_texts_agree Platform.demo 0 7
    ⟨1, 45000, -21500⟩ ⟨1, 45000, 21500⟩ (by decide) (by decide) (by decide) (by decide)
  refine ⟨hagree.mpr (by decide), ?_⟩
  intro h
  have heq := (hsame (-21500) 21500 (by decide) (by decide)).mp (hprint.mp h).2
  exact absurd heq (by decide)

/-- Half a degree below zero prints as half a degree above it. -/
theorem measurement_texts_differ :
    ¬ TextsAgree Platform.demo 0 7 ⟨1, 45000, -500⟩ ∧
      printMeasurement 45000 (-500) = printMeasurement 45000 500 := by
  refine ⟨?_, by decide⟩
  rw [textsAgree_iff (by decide) (by decide)]
  decide

end PqcContiki
