/-!
# Points in time, durations and expiry

A timestamp counts seconds since the epoch and microseconds within the second. A duration counts
nanoseconds; where one moves a timestamp, what is below a microsecond is dropped.
-/

namespace Blackboard

def microsPerSecond : Nat := 1000000

/-! ## Durations -/

/-- A length of time in whole nanoseconds. -/
structure Duration where
  nanos : Nat
  deriving DecidableEq, Repr, Inhabited

namespace Duration

def ofMillis (n : Nat) : Duration := ⟨n * 1000000⟩

def ofMicros (n : Nat) : Duration := ⟨n * 1000⟩

/-- Whole seconds and the nanoseconds beyond them; the latter may exceed a second. -/
def ofSeconds (secs nanos : Nat) : Duration := ⟨secs * 1000000000 + nanos⟩

def micros (d : Duration) : Nat := d.nanos / 1000

def seconds (d : Duration) : Nat := d.nanos / 1000000000

/-- The whole microseconds beyond the whole seconds. -/
def subsecMicros (d : Duration) : Nat := d.nanos % 1000000000 / 1000

/-- The digits of a fraction `n / 10 ^ places`, without zeros at the end. -/
def fractionDigits (places n : Nat) : List Char :=
  let digits := Nat.toDigits 10 n
  let padded := List.replicate (places - digits.length) '0' ++ digits
  (padded.reverse.dropWhile (· = '0')).reverse

def renderDecimal (whole places n : Nat) (unit : String) : String :=
  match fractionDigits places n with
  | [] => toString whole ++ unit
  | digits => toString whole ++ "." ++ String.ofList digits ++ unit

/-- The duration in the largest unit of which it holds a whole one, with the fraction it needs. -/
def render (d : Duration) : String :=
  if 1000000000 ≤ d.nanos then renderDecimal (d.nanos / 1000000000) 9 (d.nanos % 1000000000) "s"
  else if 1000000 ≤ d.nanos then renderDecimal (d.nanos / 1000000) 6 (d.nanos % 1000000) "ms"
  else if 1000 ≤ d.nanos then renderDecimal (d.nanos / 1000) 3 (d.nanos % 1000) "µs"
  else toString d.nanos ++ "ns"

end Duration

/-! ## Timestamps -/

/-- A point in time. The microseconds stay below a second in every timestamp made by `of`. -/
structure Timestamp where
  secs : Int
  usecs : Nat
  deriving DecidableEq, Repr, Inhabited

namespace Timestamp

instance : Ord Timestamp := ⟨compareLex (compareOn secs) (compareOn usecs)⟩

instance : Std.TransOrd Timestamp :=
  inferInstanceAs (Std.TransCmp (compareLex (compareOn secs) (compareOn usecs)))

theorem compare_eq (a b : Timestamp) :
    compare a b = (compare a.secs b.secs).then (compare a.usecs b.usecs) := rfl

instance : Std.LawfulEqOrd Timestamp where
  compare_self := by simp [Std.ReflCmp.compare_self]
  eq_of_compare := by
    rintro ⟨s, u⟩ ⟨s', u'⟩ h
    obtain ⟨hs, hu⟩ := Ordering.then_eq_eq.1 ((compare_eq _ _).symm.trans h)
    obtain rfl : s = s' := Std.LawfulEqCmp.eq_of_compare hs
    obtain rfl : u = u' := Std.LawfulEqCmp.eq_of_compare hu
    rfl

def zero : Timestamp := ⟨0, 0⟩

/-- Carries microseconds beyond a second into the seconds. -/
def of (secs : Int) (usecs : Nat) : Timestamp :=
  ⟨secs + (usecs / microsPerSecond : Nat), usecs % microsPerSecond⟩

/-- The timestamp of a calendar time, given as seconds and nanoseconds. A leap second counts as the
last microsecond of its second. -/
def ofCalendar (secs : Int) (nanos : Nat) : Timestamp :=
  ⟨secs, min (nanos / 1000) (microsPerSecond - 1)⟩

def ofMicros (micros : Int) : Timestamp :=
  of (micros / microsPerSecond) (micros % microsPerSecond).toNat

def micros (t : Timestamp) : Int := t.secs * microsPerSecond + t.usecs

def after (t : Timestamp) (d : Duration) : Timestamp :=
  of (t.secs + d.seconds) (t.usecs + d.subsecMicros)

/-- The seconds, a point, and at least six digits of microseconds. -/
def render (t : Timestamp) : String :=
  let digits := Nat.toDigits 10 t.usecs
  toString t.secs ++ "." ++ String.ofList (List.replicate (6 - digits.length) '0' ++ digits)

def le (a b : Timestamp) : Bool := (compare a b).isLE

theorem usecs_of_lt (secs : Int) (usecs : Nat) : (of secs usecs).usecs < microsPerSecond :=
  Nat.mod_lt _ (by decide)

end Timestamp

/-! ## Expiry -/

/-- When a tuple stops being valid. -/
inductive Expiry where
  /-- It stays until it is overwritten or deleted. -/
  | never
  /-- It is gone as soon as it is written: the mark of a deletion. -/
  | immediately
  /-- It is gone once the clock reaches this point. -/
  | dueAt (time : Timestamp)
  deriving DecidableEq, Repr, Inhabited

namespace Expiry

def rank : Expiry → Nat
  | never => 0
  | immediately => 1
  | dueAt _ => 2

def time? : Expiry → Option Timestamp
  | dueAt time => some time
  | _ => none

/-- Never comes first, a deletion mark next, then the points in time in their order. -/
instance : Ord Expiry := ⟨compareLex (compareOn rank) (compareOn time?)⟩

instance : Std.TransOrd Expiry :=
  inferInstanceAs (Std.TransCmp (compareLex (compareOn rank) (compareOn time?)))

theorem compare_eq (a b : Expiry) :
    compare a b = (compare a.rank b.rank).then (compare a.time? b.time?) := rfl

instance : Std.LawfulEqOrd Expiry where
  compare_self := by simp [Std.ReflCmp.compare_self]
  eq_of_compare := by
    intro a b h
    obtain ⟨hrank, htime⟩ := Ordering.then_eq_eq.1 ((compare_eq _ _).symm.trans h)
    replace hrank := Std.LawfulEqCmp.eq_of_compare hrank
    replace htime := Std.LawfulEqCmp.eq_of_compare htime
    cases a <;> cases b <;> simp_all [rank, time?]

def isDue (e : Expiry) (now : Timestamp) : Bool :=
  match e with
  | never => false
  | immediately => true
  | dueAt time => time.le now

end Expiry

end Blackboard
