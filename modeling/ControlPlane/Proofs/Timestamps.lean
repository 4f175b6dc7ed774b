import ControlPlane.Timestamp
import Mathlib.Algebra.Group.Nat.Defs

/-!
# Reading and writing timestamps

Whatever is read is a time that a clock and a calendar can show, also after its offset has been
taken off. Such a time is read back from its own text, cut off where the text is.

* `Timestamp.Valid`: the date and the time of day are within their bounds.
* `Timestamp.valid_of_parse?`: what is read is valid.
* `Timestamp.parse?_seconds`, `Timestamp.parse?_microseconds`: what is written is read back.
-/

namespace ControlPlane

namespace Timestamp

/-! ## Digits -/

theorem digitsValue_eq (cs : List Char) : Json.digitsValue cs = Nat.ofDigitChars 10 cs 0 :=
  Nat.ofDigitChars_eq_foldl.symm

theorem digitsValue_lt {cs : List Char} (h : ∀ c ∈ cs, c.isDigit = true) :
    Json.digitsValue cs < 10 ^ cs.length := by
  rw [digitsValue_eq]
  induction cs with
  | nil => simp
  | cons c cs ih =>
    have hc := h c List.mem_cons_self
    have htail := ih fun c' hc' => h c' (List.mem_cons_of_mem _ hc')
    have hdigit : c.toNat - 48 ≤ 9 := by
      simp only [Char.isDigit, Bool.and_eq_true, decide_eq_true_eq] at hc
      have h9 : c.toNat ≤ 57 := by simpa [UInt32.le_iff_toNat_le] using hc.2
      omega
    rw [Nat.ofDigitChars_cons, Nat.ofDigitChars_eq_ofDigitChars_zero, List.length_cons,
      Nat.pow_succ]
    simp only [Nat.mul_zero, Nat.zero_add]
    have hmul : 10 ^ cs.length * (c.toNat - '0'.toNat) ≤ 10 ^ cs.length * 9 :=
      Nat.mul_le_mul_left _ hdigit
    omega

/-- The digits of a number with zeros before them. -/
def paddedDigits (width n : Nat) : List Char :=
  List.replicate (width - (decimalDigits n).length) '0' ++ decimalDigits n

theorem toList_padded (width n : Nat) : (padded width n).toList = paddedDigits width n :=
  String.toList_ofList

theorem isDigit_paddedDigits {width n : Nat} {c : Char} (h : c ∈ paddedDigits width n) :
    c.isDigit = true := by
  rcases List.mem_append.mp h with h | h
  · rw [(List.mem_replicate.mp h).2]
    decide
  · exact Nat.isDigit_of_mem_toDigits (by decide) (by decide) h

theorem digitsValue_paddedDigits (width n : Nat) : Json.digitsValue (paddedDigits width n) = n := by
  rw [digitsValue_eq, paddedDigits, Nat.ofDigitChars_append, Nat.ofDigitChars_replicate_zero,
    Nat.mul_zero, decimalDigits, Nat.ofDigitChars_ten_toDigits]

theorem length_paddedDigits {width n : Nat} (hwidth : 0 < width) (h : n < 10 ^ width) :
    (paddedDigits width n).length = width := by
  have hle : (decimalDigits n).length ≤ width :=
    (Nat.length_toDigits_le_iff (by decide) hwidth).mpr h
  rw [paddedDigits, List.length_append, List.length_replicate]
  omega

theorem paddedDigits_ne_nil (width n : Nat) : paddedDigits width n ≠ [] := by
  intro h
  exact Nat.toDigits_ne_nil (List.append_eq_nil_iff.mp h).2

theorem readDigits?_paddedDigits {width n : Nat} (hwidth : 0 < width) (h : n < 10 ^ width)
    (rest : List Char) : readDigits? width (paddedDigits width n ++ rest) = some (n, rest) := by
  have hlength := length_paddedDigits hwidth h
  have htake : (paddedDigits width n ++ rest).take width = paddedDigits width n :=
    List.take_left' hlength
  have hdrop : (paddedDigits width n ++ rest).drop width = rest := List.drop_left' hlength
  have hall : (paddedDigits width n).all Char.isDigit = true :=
    List.all_eq_true.mpr fun c hc => isDigit_paddedDigits hc
  simp only [readDigits?, htake, hdrop, hlength, hall, digitsValue_paddedDigits, and_self,
    if_true]

/-- Digits are read up to the first character that is none. -/
theorem readAllDigits?_append {digits rest : List Char} (hdigits : ∀ c ∈ digits, c.isDigit = true)
    (hne : digits ≠ []) (hrest : rest.head?.all fun c => !c.isDigit) :
    Json.readDigits? (digits ++ rest) = some (digits, rest) := by
  have htake : rest.takeWhile Char.isDigit = [] := by
    cases rest with
    | nil => rfl
    | cons c rest =>
      have hc : c.isDigit = false := by simpa using hrest
      rw [List.takeWhile_cons, hc]
      rfl
  have hdrop : rest.dropWhile Char.isDigit = rest := by
    cases rest with
    | nil => rfl
    | cons c rest =>
      have hc : c.isDigit = false := by simpa using hrest
      rw [List.dropWhile_cons, hc]
      rfl
  rw [Json.readDigits?, List.takeWhile_append_of_pos hdigits, htake, List.append_nil,
    List.dropWhile_append_of_pos hdigits, hdrop]
  cases digits with
  | nil => exact absurd rfl hne
  | cons c digits => rfl

/-! ## Years -/

theorem readYear?_digits {cs : List Char} (h : ∀ c, cs.head? = some c → c.isDigit = true) :
    readYear? cs = (readDigits? 4 cs).map fun r => ((r.1 : Int), r.2) := by
  unfold readYear?
  split
  · exact absurd (h '+' rfl) (by decide)
  · exact absurd (h '-' rfl) (by decide)
  · rfl

theorem readYear?_yearText (year : Int) (rest : List Char)
    (hrest : rest.head?.all fun c => !c.isDigit) :
    readYear? ((yearText year).toList ++ rest) = some (year, rest) := by
  have hread : Json.readDigits? (paddedDigits 4 year.natAbs ++ rest) =
      some (paddedDigits 4 year.natAbs, rest) :=
    readAllDigits?_append (fun c hc => isDigit_paddedDigits hc) (paddedDigits_ne_nil _ _) hrest
  unfold yearText
  split
  · next hneg =>
    have htext : ("-" ++ padded 4 year.natAbs).toList ++ rest =
        '-' :: (paddedDigits 4 year.natAbs ++ rest) := by
      rw [String.toList_append, toList_padded]
      rfl
    rw [htext]
    simp only [readYear?, hread, Option.map_some, digitsValue_paddedDigits]
    congr 2
    omega
  · split
    · have htext : ("+" ++ padded 4 year.natAbs).toList ++ rest =
          '+' :: (paddedDigits 4 year.natAbs ++ rest) := by
        rw [String.toList_append, toList_padded]
        rfl
      rw [htext]
      simp only [readYear?, hread, Option.map_some, digitsValue_paddedDigits]
      congr 2
      omega
    · have hhead (c : Char) (hc : (paddedDigits 4 year.natAbs ++ rest).head? = some c) :
          c.isDigit = true := by
        obtain ⟨c', cs, hcs⟩ := List.exists_cons_of_ne_nil (paddedDigits_ne_nil 4 year.natAbs)
        rw [hcs, List.cons_append, List.head?_cons] at hc
        obtain rfl := Option.some.inj hc
        exact isDigit_paddedDigits (hcs ▸ List.mem_cons_self)
      rw [toList_padded, readYear?_digits hhead,
        readDigits?_paddedDigits (by decide) (by omega), Option.map_some]
      congr 2
      omega

/-! ## Times that can be shown -/

/-- The date and the time of day are within their bounds. A second may be 60. -/
structure Valid (t : Timestamp) : Prop where
  month_pos : 1 ≤ t.month
  month_le : t.month ≤ 12
  day_pos : 1 ≤ t.day
  day_le : t.day ≤ daysIn t.year t.month
  hour_lt : t.hour < 24
  minute_lt : t.minute < 60
  second_le : t.second ≤ 60
  microsecond_lt : t.microsecond < 1000000

theorem one_le_daysIn (year : Int) (month : Nat) : 1 ≤ daysIn year month := by
  unfold daysIn
  split
  · split <;> decide
  · decide
  · decide
  · decide
  · decide
  · decide

theorem daysIn_lt (year : Int) (month : Nat) : daysIn year month < 100 := by
  unfold daysIn
  split
  · split <;> decide
  · decide
  · decide
  · decide
  · decide
  · decide

/-- The date stands in the calendar. -/
structure IsDate (year : Int) (month day : Nat) : Prop where
  month_pos : 1 ≤ month
  month_le : month ≤ 12
  day_pos : 1 ≤ day
  day_le : day ≤ daysIn year month

theorem IsDate.nextDay {year : Int} {month day : Nat} (h : IsDate year month day) :
    ∃ year' month' day', Timestamp.nextDay (year, month, day) = (year', month', day') ∧
      IsDate year' month' day' := by
  have hpos := h.month_pos
  unfold Timestamp.nextDay
  by_cases hday : day < daysIn year month
  · exact ⟨year, month, day + 1, by simp [hday], h.month_pos, h.month_le, by omega, hday⟩
  · by_cases hmonth : month < 12
    · exact ⟨year, month + 1, 1, by simp [hday, hmonth], by omega, hmonth, by decide,
        one_le_daysIn _ _⟩
    · exact ⟨year + 1, 1, 1, by simp [hday, hmonth], by decide, by decide, by decide,
        one_le_daysIn _ _⟩

theorem IsDate.previousDay {year : Int} {month day : Nat} (h : IsDate year month day) :
    ∃ year' month' day', Timestamp.previousDay (year, month, day) = (year', month', day') ∧
      IsDate year' month' day' := by
  have hmonth_le := h.month_le
  have hday_le := h.day_le
  unfold Timestamp.previousDay
  by_cases hday : 1 < day
  · exact ⟨year, month, day - 1, by simp [hday], h.month_pos, h.month_le, by omega, by omega⟩
  · by_cases hmonth : 1 < month
    · exact ⟨year, month - 1, daysIn year (month - 1), by simp [hday, hmonth], by omega, by omega,
        one_le_daysIn _ _, Nat.le_refl _⟩
    · exact ⟨year - 1, 12, 31, by simp [hday, hmonth], by decide, by decide, by decide,
        Nat.le_refl 31⟩

/-- Taking off an offset of less than a day keeps a time valid. -/
theorem Valid.atOffset {t : Timestamp} (h : t.Valid) {offset : Int} (hlow : -1440 < offset)
    (hhigh : offset < 1440) : (t.atOffset offset).Valid := by
  have hdate : IsDate t.year t.month t.day := ⟨h.month_pos, h.month_le, h.day_pos, h.day_le⟩
  have hhour := h.hour_lt
  have hminute := h.minute_lt
  have hvalid (year : Int) (month day minutes : Nat) (hdate : IsDate year month day)
      (hlt : minutes < 1440) :
      Valid { t with year, month, day, hour := minutes / 60, minute := minutes % 60 } :=
    ⟨hdate.month_pos, hdate.month_le, hdate.day_pos, hdate.day_le, by dsimp only; omega,
      Nat.mod_lt _ (by decide), h.second_le, h.microsecond_lt⟩
  obtain ⟨year, month, day, hnext, hnext'⟩ := hdate.nextDay
  obtain ⟨year', month', day', hprevious, hprevious'⟩ := hdate.previousDay
  unfold Timestamp.atOffset
  dsimp only
  rw [hnext, hprevious]
  split
  · exact hvalid _ _ _ _ hprevious' (by omega)
  · split
    · exact hvalid _ _ _ _ hnext' (by omega)
    · exact hvalid _ _ _ _ hdate (by omega)

theorem readOffset?_bounds {cs : List Char} {offset : Int} (h : readOffset? cs = some offset) :
    -1440 < offset ∧ offset < 1440 := by
  have hsigned (sign : Int) (hsign : sign = 1 ∨ sign = -1) (cs : List Char)
      (h : ((readDigits? 2 cs).bind fun hours => (skip? ':' hours.2).bind fun cs =>
        (readDigits? 2 cs).bind fun minutes =>
          if hours.1 < 24 ∧ minutes.1 < 60 ∧ minutes.2.isEmpty then
            some (sign * (hours.1 * 60 + minutes.1 : Nat))
          else none) = some offset) :
      -1440 < offset ∧ offset < 1440 := by
    simp only [Option.bind_eq_some_iff] at h
    obtain ⟨hours, -, cs', -, minutes, -, h⟩ := h
    split at h
    · next hbounds =>
      obtain rfl := Option.some.inj h
      rcases hsign with rfl | rfl <;> omega
    · cases h
  unfold readOffset? at h
  dsimp only at h
  split at h
  · obtain rfl := Option.some.inj h
    decide
  · obtain rfl := Option.some.inj h
    decide
  · exact hsigned 1 (Or.inl rfl) _ h
  · exact hsigned (-1) (Or.inr rfl) _ h
  · cases h

theorem readMicroseconds?_lt {cs rest : List Char} {n : Nat}
    (h : readMicroseconds? cs = some (n, rest)) : n < 1000000 := by
  unfold readMicroseconds? at h
  split at h
  · rename_i cs
    obtain ⟨⟨digits, rest'⟩, hdigits, heq⟩ := Option.map_eq_some_iff.mp h
    obtain ⟨rfl, -⟩ := Prod.mk.inj heq
    have hall : ∀ c ∈ digits, c.isDigit = true := by
      unfold Json.readDigits? at hdigits
      split at hdigits
      · cases hdigits
      · obtain ⟨rfl, -⟩ := Prod.mk.inj (Option.some.inj hdigits)
        intro c hc
        exact List.all_eq_true.mp List.all_takeWhile c hc
    have hdigit : ∀ c ∈ (digits ++ List.replicate 6 '0').take 6, c.isDigit = true := by
      intro c hc
      rcases List.mem_append.mp (List.mem_of_mem_take hc) with hc | hc
      · exact hall c hc
      · rw [(List.mem_replicate.mp hc).2]
        decide
    have hlt := digitsValue_lt hdigit
    have hlength : ((digits ++ List.replicate 6 '0').take 6).length ≤ 6 := List.length_take_le _ _
    exact Nat.lt_of_lt_of_le hlt (Nat.pow_le_pow_right (by decide : 0 < 10) hlength)
  · obtain ⟨rfl, -⟩ := Prod.mk.inj (Option.some.inj h)
    decide

/-- **What is read is valid.** -/
theorem valid_of_parse? {s : String} {t : Timestamp} (h : parse? s = some t) : t.Valid := by
  unfold parse? at h
  obtain ⟨⟨year, _⟩, -, h⟩ := Option.bind_eq_some_iff.mp h
  obtain ⟨_, -, h⟩ := Option.bind_eq_some_iff.mp h
  obtain ⟨⟨month, _⟩, -, h⟩ := Option.bind_eq_some_iff.mp h
  obtain ⟨_, -, h⟩ := Option.bind_eq_some_iff.mp h
  obtain ⟨⟨day, _⟩, -, h⟩ := Option.bind_eq_some_iff.mp h
  obtain ⟨_, -, h⟩ := Option.bind_eq_some_iff.mp h
  obtain ⟨⟨hour, _⟩, -, h⟩ := Option.bind_eq_some_iff.mp h
  obtain ⟨_, -, h⟩ := Option.bind_eq_some_iff.mp h
  obtain ⟨⟨minute, _⟩, -, h⟩ := Option.bind_eq_some_iff.mp h
  obtain ⟨_, -, h⟩ := Option.bind_eq_some_iff.mp h
  obtain ⟨⟨second, _⟩, -, h⟩ := Option.bind_eq_some_iff.mp h
  obtain ⟨⟨microsecond, _⟩, hmicrosecond, h⟩ := Option.bind_eq_some_iff.mp h
  obtain ⟨offset, hoffset, h⟩ := Option.bind_eq_some_iff.mp h
  split at h
  · next hbounds =>
    obtain ⟨hmonth, hmonth', hday, hday', hhour, hminute, hsecond⟩ := hbounds
    obtain rfl := Option.some.inj h
    obtain ⟨hlow, hhigh⟩ := readOffset?_bounds hoffset
    exact Valid.atOffset ⟨hmonth, hmonth', hday, hday', hhour, hminute, hsecond,
      readMicroseconds?_lt hmicrosecond⟩ hlow hhigh
  · cases h

/-! ## Reading what was written -/

theorem Valid.atOffset_zero {t : Timestamp} (h : t.Valid) : t.atOffset 0 = t := by
  have hhour := h.hour_lt
  have hminute := h.minute_lt
  unfold Timestamp.atOffset
  dsimp only
  rw [if_neg (by omega), if_neg (by omega)]
  obtain ⟨year, month, day, hour, minute, second, microsecond⟩ := t
  dsimp only at hhour hminute ⊢
  congr 1
  · omega
  · omega

/-- A valid time is read back from its date and time of day, with whatever fraction of a second and
whatever offset follow. -/
theorem Valid.parse?_dateTimeText {t : Timestamp} (h : t.Valid) {tail : String} {rest : List Char}
    {microsecond : Nat} {offset : Int}
    (hmicrosecond : readMicroseconds? tail.toList = some (microsecond, rest))
    (hoffset : readOffset? rest = some offset) :
    parse? (t.dateTimeText ++ tail) =
      some (Timestamp.atOffset
        ⟨t.year, t.month, t.day, t.hour, t.minute, t.second, microsecond⟩ offset) := by
  have hmonth := h.month_le
  have hday := Nat.lt_of_le_of_lt h.day_le (daysIn_lt _ _)
  have hhour := h.hour_lt
  have hminute := h.minute_lt
  have hsecond := h.second_le
  have htext : (t.dateTimeText ++ tail).toList = (yearText t.year).toList ++
      '-' :: (paddedDigits 2 t.month ++ '-' :: (paddedDigits 2 t.day ++ 'T' ::
        (paddedDigits 2 t.hour ++ ':' :: (paddedDigits 2 t.minute ++ ':' ::
          (paddedDigits 2 t.second ++ tail.toList))))) := by
    simp only [dateTimeText, String.toList_append, toList_padded, List.append_assoc]
    rfl
  have hread (n : Nat) (hn : n < 100) (rest : List Char) :
      readDigits? 2 (paddedDigits 2 n ++ rest) = some (n, rest) :=
    readDigits?_paddedDigits (by decide) hn rest
  have hyear := readYear?_yearText t.year ('-' :: (paddedDigits 2 t.month ++ '-' ::
    (paddedDigits 2 t.day ++ 'T' :: (paddedDigits 2 t.hour ++ ':' :: (paddedDigits 2 t.minute ++
      ':' :: (paddedDigits 2 t.second ++ tail.toList)))))) rfl
  rw [parse?, htext, hyear]
  simp only [Option.bind_eq_bind, Option.bind_some, skip?, skipMark?, if_true,
    hread t.month (by omega), hread t.day hday, hread t.hour (by omega),
    hread t.minute (by omega), hread t.second (by omega), hmicrosecond, hoffset]
  rw [if_pos ⟨h.month_pos, hmonth, h.day_pos, h.day_le, hhour, hminute, hsecond⟩]

/-- **A valid time is read back from its text to whole seconds**, without the fraction. -/
theorem Valid.parse?_seconds {t : Timestamp} (h : t.Valid) :
    parse? t.seconds = some { t with microsecond := 0 } := by
  have hvalid : Valid { t with microsecond := 0 } :=
    ⟨h.month_pos, h.month_le, h.day_pos, h.day_le, h.hour_lt, h.minute_lt, h.second_le,
      (by decide : 0 < 1000000)⟩
  have htail : readMicroseconds? "Z".toList = some (0, ['Z']) := rfl
  rw [seconds, h.parse?_dateTimeText htail rfl]
  exact congrArg some hvalid.atOffset_zero

/-- **A valid time is read back from its text to microseconds.** -/
theorem Valid.parse?_microseconds {t : Timestamp} (h : t.Valid) :
    parse? t.microseconds = some t := by
  have htail : readMicroseconds? ("." ++ padded 6 t.microsecond ++ "Z").toList =
      some (t.microsecond, ['Z']) := by
    have htext : ("." ++ padded 6 t.microsecond ++ "Z").toList =
        '.' :: (paddedDigits 6 t.microsecond ++ ['Z']) := by
      simp only [String.toList_append, toList_padded]
      rfl
    have hlength : (paddedDigits 6 t.microsecond).length = 6 :=
      length_paddedDigits (by decide) h.microsecond_lt
    rw [htext, readMicroseconds?, readAllDigits?_append (fun c hc => isDigit_paddedDigits hc)
      (paddedDigits_ne_nil _ _) rfl, Option.map_some, List.take_left' hlength,
      digitsValue_paddedDigits]
  have htext : t.microseconds = t.dateTimeText ++ ("." ++ padded 6 t.microsecond ++ "Z") := by
    simp only [microseconds, String.append_assoc]
  rw [htext, h.parse?_dateTimeText htail rfl]
  exact congrArg some h.atOffset_zero

end Timestamp

end ControlPlane
