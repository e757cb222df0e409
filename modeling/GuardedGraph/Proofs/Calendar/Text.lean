import Mathlib.Algebra.Group.Nat.Defs
import GuardedGraph.Calendar.Text
import GuardedGraph.Proofs.Json.Numbers

/-!
Dates and instants as text: what is written is read as it was, and what is read of any text could have been
written. Leap seconds are the instants for which this is not plain.
-/

namespace GuardedGraph

/-- Whether a second of more than a thousand million nanoseconds is the last of its minute, as leap seconds are. -/
def Instant.Regular (t : Instant) : Prop := t.nano < 1000000000 ∨ t.second % 60 = 59

instance (t : Instant) : Decidable t.Regular := inferInstanceAs (Decidable (_ ∨ _))

namespace Calendar

open Text

open Json (Digits isDigit_iff digits_toDigits)

/-! ### Numbers -/

/-- What cannot go on with a number. -/
def EndsNumber (rest : List Char) : Prop := ∀ c ∈ rest.head?, c.isDigit = false

theorem ofDigitChars_lt {ds : List Char} (digits : ∀ c ∈ ds, c.isDigit = true) (m : Nat) :
    Nat.ofDigitChars 10 ds m < (m + 1) * 10 ^ ds.length := by
  induction ds generalizing m with
  | nil => simp
  | cons c ds ih =>
    have ⟨_, high⟩ := (isDigit_iff c).mp (digits c List.mem_cons_self)
    have zero : '0'.toNat = 48 := rfl
    rw [Nat.ofDigitChars_cons, List.length_cons, Nat.pow_succ']
    calc Nat.ofDigitChars 10 ds (10 * m + (c.toNat - '0'.toNat))
        < (10 * m + (c.toNat - '0'.toNat) + 1) * 10 ^ ds.length :=
          ih (fun d mem => digits d (List.mem_cons_of_mem c mem)) _
      _ ≤ (m + 1) * 10 * 10 ^ ds.length := Nat.mul_le_mul_right _ (by omega)
      _ = (m + 1) * (10 * 10 ^ ds.length) := Nat.mul_assoc _ _ _

theorem isBlank_of_isDigit {c : Char} (digit : c.isDigit = true) : isBlank c = false := by
  have ⟨low, high⟩ := (isDigit_iff c).mp digit
  simp only [isBlank, Bool.or_eq_false_iff, Bool.and_eq_false_iff, decide_eq_false_iff_not, beq_eq_false_iff_ne]
  omega

theorem trimLeft_cons {c : Char} (plain : isBlank c = false) (cs : List Char) : trimLeft (c :: cs) = c :: cs := by
  rw [trimLeft, List.dropWhile_cons, if_neg (by simp [plain])]

theorem trimLeft_digits {ds : List Char} (digits : Digits ds) (rest : List Char) :
    trimLeft (ds ++ rest) = ds ++ rest := by
  obtain ⟨c, cs, rfl⟩ := List.exists_cons_of_ne_nil digits.1
  exact trimLeft_cons (isBlank_of_isDigit (digits.2 c List.mem_cons_self)) _

theorem number_append {most : Nat} {ds rest : List Char} (digits : Digits ds) (fits : ds.length ≤ most)
    (ends : ds.length = most ∨ EndsNumber rest) :
    number most (ds ++ rest) = some (Nat.ofDigitChars 10 ds 0, rest) := by
  have stop : (rest.take (most - ds.length)).takeWhile Char.isDigit = [] := by
    rcases ends with full | ends
    · simp [full]
    · cases rest with
      | nil => simp
      | cons c rest =>
        cases most - ds.length with
        | zero => rfl
        | succ n => rw [List.take_succ_cons, List.takeWhile_cons, if_neg (by simp [ends c rfl])]
  have run : ((ds ++ rest).take most).takeWhile Char.isDigit = ds := by
    rw [List.take_append, List.take_of_length_le fits, List.takeWhile_append_of_pos digits.2, stop, List.append_nil]
  simp only [number, run]
  rw [if_neg (by simp [digits.1]), List.drop_left]

theorem number_ok {most : Nat} {cs : List Char} {r : Nat × List Char} (h : number most cs = some r) :
    ∃ ds, cs = ds ++ r.2 ∧ ds.length ≤ most ∧ r.1 < 10 ^ ds.length := by
  simp only [number] at h
  split at h
  · exact absurd h (by simp)
  · obtain rfl := Option.some.inj h
    have short : ((cs.take most).takeWhile Char.isDigit).length ≤ most :=
      Nat.le_trans (List.takeWhile_sublist _).length_le (List.length_take_le _ _)
    have start : (cs.take most).takeWhile Char.isDigit <+: cs :=
      (List.takeWhile_prefix _).trans (List.take_prefix _ _)
    refine ⟨(cs.take most).takeWhile Char.isDigit, ?_, short, ?_⟩
    · exact (List.prefix_iff_eq_append.mp start).symm
    · simpa using ofDigitChars_lt (List.all_eq_true.mp (List.all_takeWhile (l := cs.take most))) 0

/-! ### Padded numbers -/

theorem toList_padded (width n : Nat) :
    (padded width n).toList = List.replicate (width - (Nat.toDigits 10 n).length) '0' ++ Nat.toDigits 10 n := by
  rw [padded, String.toList_ofList]
  rfl

theorem digits_padded (width n : Nat) : Digits (padded width n).toList := by
  rw [toList_padded]
  refine ⟨by simp [Nat.toDigits_ne_nil], fun c mem => ?_⟩
  rcases List.mem_append.mp mem with zero | digit
  · rw [List.eq_of_mem_replicate zero]
    rfl
  · exact (digits_toDigits n).2 c digit

theorem length_padded {width n : Nat} (pos : 0 < width) (fits : n < 10 ^ width) :
    (padded width n).toList.length = width := by
  have := (Nat.length_toDigits_le_iff (by decide) pos).mpr fits
  rw [toList_padded, List.length_append, List.length_replicate]
  omega

theorem value_padded (width n : Nat) : Nat.ofDigitChars 10 (padded width n).toList 0 = n := by
  rw [toList_padded, Nat.ofDigitChars_append, Nat.ofDigitChars_replicate_zero, Nat.mul_zero,
    Nat.ofDigitChars_ten_toDigits]

theorem number_padded {width n : Nat} (pos : 0 < width) (fits : n < 10 ^ width) (rest : List Char) :
    number width ((padded width n).toList ++ rest) = some (n, rest) := by
  have full := length_padded pos fits
  rw [number_append (digits_padded width n) (Nat.le_of_eq full) (.inl full), value_padded]

theorem field_padded {low high n : Nat} (least : low ≤ n) (most : n ≤ high) (fits : n < 100) (rest : List Char) :
    field low high ((padded 2 n).toList ++ rest) = some (n, rest) := by
  rw [field, number_padded (by decide) fits, Option.bind_some, if_pos ⟨least, most⟩]

theorem mark_padded {c : Char} (plain : isBlank c = false) (width n : Nat) (rest : List Char) :
    mark c (c :: ((padded width n).toList ++ rest)) = some ((padded width n).toList ++ rest) := by
  simp only [mark, trimLeft_cons plain, trimLeft_digits (digits_padded width n), if_true]

/-! ### Days -/

theorem year_plain {ds : List Char} (digits : Digits ds) (rest : List Char) :
    year (ds ++ rest) = (number 4 (ds ++ rest)).map fun r => ((r.1 : Int), r.2) := by
  obtain ⟨c, cs, rfl⟩ := List.exists_cons_of_ne_nil digits.1
  have digit := digits.2 c List.mem_cons_self
  rw [List.cons_append, year]
  · rintro _ ⟨⟩
    exact absurd digit (by decide)
  · rintro _ ⟨⟩
    exact absurd digit (by decide)

/-- A year is read to the end of its digits, since a sign goes before those that are more than four. -/
theorem year_renderYear (y : Int) {rest : List Char} (ends : EndsNumber rest) :
    year ((renderYear y).toList ++ rest) = some (y, rest) := by
  have signed : number ((padded 4 y.natAbs).toList ++ rest).length ((padded 4 y.natAbs).toList ++ rest) =
      some (y.natAbs, rest) := by
    rw [number_append (digits_padded 4 _) (by simp) (.inr ends), value_padded]
  unfold renderYear
  split
  · have whole : (y.natAbs : Int) = y := by omega
    rw [year_plain (digits_padded 4 _), number_padded (by decide) (by omega), Option.map_some, whole]
  · rw [String.toList_append, List.append_assoc]
    split
    · have whole : -(y.natAbs : Int) = y := by omega
      rw [show "-".toList = ['-'] by decide, List.singleton_append, year, signed, Option.map_some, whole]
    · have whole : (y.natAbs : Int) = y := by omega
      rw [show "+".toList = ['+'] by decide, List.singleton_append, year, signed, Option.map_some, whole]

theorem trimLeft_renderYear (y : Int) (rest : List Char) :
    trimLeft ((renderYear y).toList ++ rest) = (renderYear y).toList ++ rest := by
  unfold renderYear
  split
  · exact trimLeft_digits (digits_padded 4 _) rest
  · split <;> rw [String.toList_append] <;> exact trimLeft_cons (by decide) _

theorem day_render (d : Date) (rest : List Char) : day (d.render.toList ++ rest) = some (d, rest) := by
  have written : d.render.toList ++ rest = (renderYear d.year).toList ++
      ('-' :: ((padded 2 d.month).toList ++ ('-' :: ((padded 2 d.day).toList ++ rest)))) := by
    simp [Date.render, String.toList_append]
  obtain ⟨-, -, one, twelve, first, last⟩ := d.inCalendar
  have most := Nat.le_trans last (daysIn_le d.year d.month)
  have known : Date.ofParts? d.year d.month d.day = some d := dif_pos d.inCalendar
  rw [written, day, trimLeft_renderYear, year_renderYear d.year (by simp [EndsNumber])]
  simp only [bind, Option.bind, mark_padded (show isBlank '-' = false from rfl), field_padded one twelve (by omega),
    field_padded first most (by omega), known]
  rfl

/-! ### Times -/

theorem dropWhile_ends {rest : List Char} (ends : EndsNumber rest) : rest.dropWhile Char.isDigit = rest := by
  cases rest with
  | nil => rfl
  | cons c rest => rw [List.dropWhile_cons, if_neg (by simp [ends c rfl])]

theorem fraction_padded {width n : Nat} (pos : 0 < width) (most : width ≤ 9) (fits : n < 10 ^ width) {rest : List Char}
    (ends : EndsNumber rest) :
    fraction ('.' :: ((padded width n).toList ++ rest)) = some (n * 10 ^ (9 - width), rest) := by
  have full := length_padded pos fits
  have run := number_append (digits_padded width n) (Nat.le_trans (Nat.le_of_eq full) most) (.inr ends)
  simp only [fraction, bind, Option.bind, run, value_padded, dropWhile_ends ends, List.length_append, full,
    Nat.add_sub_cancel]
  rfl

theorem fraction_renderFraction {n : Nat} (small : n < 1000000000) {rest : List Char} (ends : EndsNumber rest)
    (point : rest.head? ≠ some '.') : fraction ((renderFraction n).toList ++ rest) = some (n, rest) := by
  have dotted {width m : Nat} (pos : 0 < width) (most : width ≤ 9) (fits : m < 10 ^ width)
      (whole : m * 10 ^ (9 - width) = n) : fraction (("." ++ padded width m).toList ++ rest) = some (n, rest) := by
    rw [String.toList_append, show ".".toList = ['.'] by decide, List.append_assoc, List.singleton_append,
      fraction_padded pos most fits ends, whole]
  unfold renderFraction
  split
  · rename_i zero
    rw [zero, String.toList_empty, List.nil_append, fraction]
    rintro cs rfl
    exact point rfl
  · split
    · exact dotted (by decide) (by decide) (by omega) (by omega)
    · split
      · exact dotted (by decide) (by decide) (by omega) (by omega)
      · exact dotted (by decide) (by decide) (by omega) (by omega)

theorem fraction_lt {cs : List Char} {r : Nat × List Char} (h : fraction cs = some r) : r.1 < 1000000000 := by
  unfold fraction at h
  split at h
  · rename_i cs
    obtain ⟨⟨n, rest⟩, read, h⟩ := Option.bind_eq_some_iff.mp h
    obtain rfl := Option.some.inj h
    obtain ⟨ds, rfl, short, low⟩ := number_ok read
    show n * 10 ^ (9 - ((ds ++ rest).length - rest.length)) < 10 ^ 9
    rw [List.length_append, Nat.add_sub_cancel]
    calc n * 10 ^ (9 - ds.length) < 10 ^ ds.length * 10 ^ (9 - ds.length) :=
          Nat.mul_lt_mul_of_pos_right low (Nat.pow_pos (by decide))
      _ = 10 ^ 9 := by rw [← Nat.pow_add, Nat.add_sub_cancel' short]
  · obtain rfl := Option.some.inj h
    exact Nat.lt_of_lt_of_le Nat.zero_lt_one (by decide)

theorem time_append {h m s f : Nat} (hour : h ≤ 23) (minute : m ≤ 59) (second : s ≤ 60) (nano : f < 1000000000)
    {rest : List Char} (ends : EndsNumber rest) (point : rest.head? ≠ some '.') :
    time ((padded 2 h ++ ":" ++ padded 2 m ++ ":" ++ padded 2 s ++ renderFraction f).toList ++ rest) =
      some (h * 3600 + m * 60 + min s 59, if s = 60 then 1000000000 + f else f, rest) := by
  have written : (padded 2 h ++ ":" ++ padded 2 m ++ ":" ++ padded 2 s ++ renderFraction f).toList ++ rest =
      (padded 2 h).toList ++ (':' :: ((padded 2 m).toList ++ (':' :: ((padded 2 s).toList ++
        ((renderFraction f).toList ++ rest))))) := by
    simp [String.toList_append]
  rw [written, time, trimLeft_digits (digits_padded 2 h)]
  simp only [bind, Option.bind, mark_padded (show isBlank ':' = false from rfl),
    field_padded (Nat.zero_le h) hour (by omega), field_padded (Nat.zero_le m) minute (by omega),
    field_padded (Nat.zero_le s) second (by omega), fraction_renderFraction nano ends point]
  rfl

/-- A leap second is written as the sixtieth of its minute, and is read as one because it was the last. -/
theorem time_renderTime {t : Instant} (regular : t.Regular) {rest : List Char} (ends : EndsNumber rest)
    (point : rest.head? ≠ some '.') : time (t.renderTime.toList ++ rest) = some (t.second, t.nano, rest) := by
  have second := t.second_lt
  have nano := t.nano_lt
  unfold Instant.renderTime
  by_cases leap : 1000000000 ≤ t.nano
  · have last : t.second % 60 = 59 := regular.resolve_left (Nat.not_lt.mpr leap)
    simp only [leap, if_true, last]
    rw [time_append (by omega) (by omega) (by omega) (by omega) ends point, if_pos rfl, Nat.add_sub_cancel' leap]
    congr 2
    omega
  · simp only [leap, if_false, Nat.add_zero]
    rw [time_append (by omega) (by omega) (by omega) (by omega) ends point, if_neg (by omega)]
    congr 2
    omega

theorem time_ok {cs : List Char} {r : Nat × Nat × List Char} (h : time cs = some r) :
    r.2.1 < 1000000000 ∨ r.1 % 60 = 59 := by
  unfold time at h
  obtain ⟨⟨hour, cs⟩, -, h⟩ := Option.bind_eq_some_iff.mp h
  obtain ⟨cs, -, h⟩ := Option.bind_eq_some_iff.mp h
  obtain ⟨⟨minute, cs⟩, -, h⟩ := Option.bind_eq_some_iff.mp h
  obtain ⟨cs, -, h⟩ := Option.bind_eq_some_iff.mp h
  obtain ⟨⟨second, cs⟩, -, h⟩ := Option.bind_eq_some_iff.mp h
  obtain ⟨⟨nano, cs⟩, read, h⟩ := Option.bind_eq_some_iff.mp h
  obtain rfl := Option.some.inj h
  have small : nano < 1000000000 := fraction_lt read
  by_cases leap : second = 60
  · refine .inr ?_
    show (hour * 3600 + minute * 60 + min second 59) % 60 = 59
    omega
  · refine .inl ?_
    show (if second = 60 then _ else nano) < _
    rw [if_neg leap]
    exact small

/-- Offsets are whole minutes. -/
theorem offset_ok {cs : List Char} {r : Int × List Char} (h : offset cs = some r) : r.1 % 60 = 0 := by
  unfold offset at h
  extract_lets amount at h
  have minutes {cs : List Char} {a : Nat × List Char} (h : amount cs = some a) : a.1 % 60 = 0 := by
    obtain ⟨⟨hours, cs⟩, -, h⟩ := Option.bind_eq_some_iff.mp h
    obtain ⟨⟨minutes, cs⟩, -, h⟩ := Option.bind_eq_some_iff.mp h
    obtain rfl := Option.some.inj (Option.ite_none_right_eq_some.mp h).2
    show (hours * 3600 + minutes * 60) % 60 = 0
    omega
  split at h
  · obtain rfl := Option.some.inj h
    rfl
  · split at h
    · exact absurd h (by simp)
    · split at h
      · obtain rfl := Option.some.inj h
        rfl
      · split at h
        · obtain ⟨a, read, rfl⟩ := Option.map_eq_some_iff.mp h
          have := minutes read
          show (a.1 : Int) % 60 = 0
          omega
        · obtain ⟨a, read, rfl⟩ := Option.map_eq_some_iff.mp (Option.ite_none_right_eq_some.mp h).2
          have := minutes read
          show -(a.1 : Int) % 60 = 0
          omega

end Calendar

open Calendar Text

theorem Date.ofText?_render (d : Date) : ofText? d.render = some d := by
  have read := day_render d []
  rw [List.append_nil] at read
  rw [ofText?, read]
  rfl

namespace Instant

theorem ofText?_stored {t : Instant} (regular : t.Regular) : ofText? t.stored = some t := by
  have written : t.stored.toList = t.date.render.toList ++ ('T' :: (t.renderTime.toList ++ ['Z'])) := by
    simp [stored, String.toList_append]
  have time : Calendar.time (t.renderTime.toList ++ ['Z']) = some (t.second, t.nano, ['Z']) :=
    time_renderTime regular (by simp [EndsNumber]) (by simp)
  have zero : (t.second : Int) - 0 = t.second := Int.sub_zero _
  have second := t.second_lt
  have here : ofLocal? t.date t.second t.nano 0 = some t := by
    simp only [ofLocal?, zero, Date.later?, show (t.second : Int) / 86400 = 0 by omega, if_true, Option.bind_some,
      show ((t.second : Int) % 86400).toNat = t.second by omega]
    exact dif_pos ⟨t.second_lt, t.nano_lt⟩
  rw [ofText?, written, day_render]
  simp only [bind, Option.bind, time]
  exact here

/-- What is read with more than a thousand million nanoseconds was a sixtieth second, and is the last of its minute in
UTC too. -/
theorem regular_of_ofText? {s : String} {t : Instant} (h : ofText? s = some t) : t.Regular := by
  obtain ⟨⟨d, cs⟩, -, h⟩ := Option.bind_eq_some_iff.mp h
  cases cs with
  | nil => exact absurd h (by simp)
  | cons c cs =>
    obtain ⟨-, h⟩ := Option.ite_none_right_eq_some.mp h
    obtain ⟨⟨second, nano, cs⟩, time, h⟩ := Option.bind_eq_some_iff.mp h
    obtain ⟨⟨ahead, cs⟩, offset, h⟩ := Option.bind_eq_some_iff.mp h
    obtain ⟨-, h⟩ := Option.ite_none_right_eq_some.mp h
    obtain ⟨u, -, h⟩ := Option.bind_eq_some_iff.mp h
    obtain ⟨bounds, h⟩ := Option.dite_none_right_eq_some.mp h
    obtain rfl := Option.some.inj h
    have minutes : ahead % 60 = 0 := offset_ok offset
    have plain : nano < 1000000000 ∨ second % 60 = 59 := time_ok time
    refine plain.imp_right fun last => ?_
    show (((second : Int) - ahead) % 86400).toNat % 60 = 59
    omega

end Instant

end GuardedGraph
