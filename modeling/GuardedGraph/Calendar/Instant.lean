import GuardedGraph.Calendar.Date

/-!
Points in time in UTC: a date, a second of its day, and nanoseconds. A leap second is told as the
second before it with a thousand million nanoseconds more.
-/

namespace GuardedGraph

structure Instant where
  date : Date
  second : Nat
  nano : Nat
  second_lt : second < 86400
  nano_lt : nano < 2000000000
  deriving DecidableEq

namespace Instant

def midnight (d : Date) : Instant := ⟨d, 0, 0, by decide, by decide⟩

def ofParts? (date : Date) (second nano : Nat) : Option Instant :=
  if h : second < 86400 ∧ nano < 2000000000 then some ⟨date, second, nano, h.1, h.2⟩ else none

/-- Later instants rank higher. -/
def rank (t : Instant) : Int := (t.date.rank * 86400 + t.second) * 2000000000 + t.nano

/-- The days from the first of March of year zero to the first of January 1970. -/
def epochDays : Int := 719468

/-- The instant so many seconds after the beginning of 1970. -/
def ofUnix? (seconds : Int) (nano : Nat) : Option Instant :=
  (Date.ofDays? (seconds / 86400 + epochDays)).bind fun d => ofParts? d (seconds % 86400).toNat nano

def unixSeconds (t : Instant) : Int := (t.date.toDays - epochDays) * 86400 + t.second

/-- The UTC instant of a local time that is `offset` seconds ahead. -/
def ofLocal? (date : Date) (second nano : Nat) (offset : Int) : Option Instant :=
  let s : Int := second - offset
  (date.later? (s / 86400)).bind fun d => ofParts? d (s % 86400).toNat nano

theorem rank_inj {a b : Instant} : a.rank = b.rank ↔ a = b := by
  constructor
  · intro e
    obtain ⟨d, s, n, hs, hn⟩ := a
    obtain ⟨d', s', n', hs', hn'⟩ := b
    simp only [rank] at e
    obtain ⟨hd, rfl, rfl⟩ : d.rank = d'.rank ∧ s = s' ∧ n = n' := by omega
    obtain rfl := Date.rank_inj.mp hd
    rfl
  · rintro rfl
    rfl

end Instant

end GuardedGraph
