/-!
Days of the Gregorian calendar, extended to years before the first and after the 9999th.
-/

namespace GuardedGraph

namespace Calendar

def isLeap (year : Int) : Bool := year % 4 = 0 ∧ (year % 100 ≠ 0 ∨ year % 400 = 0)

def daysIn (year : Int) (month : Nat) : Nat :=
  if month = 2 then (if isLeap year then 29 else 28)
  else if month = 4 ∨ month = 6 ∨ month = 9 ∨ month = 11 then 30
  else 31

/-- The years that dates reach, and the days that each has. -/
def Exists (year : Int) (month day : Nat) : Prop :=
  -262143 ≤ year ∧ year ≤ 262142 ∧ 1 ≤ month ∧ month ≤ 12 ∧ 1 ≤ day ∧ day ≤ daysIn year month

instance (year : Int) (month day : Nat) : Decidable (Exists year month day) :=
  inferInstanceAs (Decidable (_ ∧ _))

theorem daysIn_le (year : Int) (month : Nat) : daysIn year month ≤ 31 := by
  unfold daysIn
  repeat' split
  all_goals decide

end Calendar

open Calendar in
structure Date where
  year : Int
  month : Nat
  day : Nat
  inCalendar : Exists year month day
  deriving DecidableEq

namespace Date

open Calendar

def ofParts? (year : Int) (month day : Nat) : Option Date :=
  if h : Exists year month day then some ⟨year, month, day, h⟩ else none

/-- Later dates rank higher. -/
def rank (d : Date) : Int := d.year * 372 + ((d.month - 1) * 31 + (d.day - 1) : Nat)

/-- The number of days since the first of March of year zero. -/
def toDays (d : Date) : Int :=
  let y := if d.month ≤ 2 then d.year - 1 else d.year
  let m : Int := (d.month + 9) % 12
  365 * y + y / 4 - y / 100 + y / 400 + (153 * m + 2) / 5 + d.day - 1

/-- The date so many days after the first of March of year zero. -/
def ofDays? (n : Int) : Option Date :=
  let era := n / 146097
  let inEra := n % 146097
  let y := (inEra - inEra / 1460 + inEra / 36524 - inEra / 146096) / 365
  let inYear := inEra - (365 * y + y / 4 - y / 100)
  let m := (5 * inYear + 2) / 153
  let month := if m < 10 then m + 3 else m - 9
  ofParts? (400 * era + y + (if month ≤ 2 then 1 else 0)) month.toNat (inYear - (153 * m + 2) / 5 + 1).toNat

/-- The date `n` days later. -/
def later? (d : Date) (n : Int) : Option Date := if n = 0 then some d else ofDays? (d.toDays + n)

theorem rank_inj {a b : Date} : a.rank = b.rank ↔ a = b := by
  constructor
  · intro e
    obtain ⟨y, m, d, h⟩ := a
    obtain ⟨y', m', d', h'⟩ := b
    have hd := Nat.le_trans h.2.2.2.2.2 (daysIn_le y m)
    have hd' := Nat.le_trans h'.2.2.2.2.2 (daysIn_le y' m')
    have hm := h.2.2.2.1
    have hm' := h'.2.2.2.1
    have low : 1 ≤ m ∧ 1 ≤ d := ⟨h.2.2.1, h.2.2.2.2.1⟩
    have low' : 1 ≤ m' ∧ 1 ≤ d' := ⟨h'.2.2.1, h'.2.2.2.2.1⟩
    simp only [rank] at e
    obtain ⟨rfl, rfl, rfl⟩ : y = y' ∧ m = m' ∧ d = d' := by omega
    rfl
  · rintro rfl
    rfl

end Date

end GuardedGraph
