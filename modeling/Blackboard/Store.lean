import Blackboard.Data.Table
import Blackboard.Tuple.Match

/-!
# The store

The current value of every location known to a process: its own tuples and its copies of others'.
Each location counts its writes in 64 bits, and the appends since the last write in 32. An index of the
deadlines, in their order, lets the sweep find what has expired without looking at the rest.

What happens where a count passes the end of its width is up to the build of the program. The store
here goes on from zero, as it does in a build without overflow checks; one with overflow checks stops
the program there.

The tuples are kept by location, and `Tuple.compare` looks at owner and key before anything else, so
walking the store visits the tuples in that order and a search needs no sorting.
-/

namespace Blackboard

/-- How the program was built. -/
inductive Build where
  /-- With overflow checks: the program stops where a count passes the end of its width. -/
  | checked
  /-- Without them: the count goes on from zero. -/
  | unchecked
  deriving DecidableEq, Repr

/-- The number after `n` in a count with so many numbers, where nothing stops the program. -/
def nextCount (size n : Nat) : Nat := (n + 1) % size

/-- True if a count with so many numbers passes its end in the step after `n`. -/
def IsLastCount (size n : Nat) : Prop := size ≤ n + 1

instance (size n : Nat) : Decidable (IsLastCount size n) := inferInstanceAs (Decidable (size ≤ n + 1))

/-- What a count with so many numbers shows after `n` steps, unless the program has stopped. -/
def Build.shows (size n : Nat) : Build → Nat
  | checked => n
  | unchecked => n % size

namespace Build

variable {build : Build} {size n : Nat}

theorem nextCount_eq (h : build = .checked → ¬ IsLastCount size n) :
    nextCount size n = build.shows size (n + 1) := by
  cases build with
  | checked => exact Nat.mod_eq_of_lt (Nat.lt_of_not_le (h rfl))
  | unchecked => rfl

theorem shows_shows_succ : build.shows size (build.shows size n + 1) = build.shows size (n + 1) := by
  cases build with
  | checked => rfl
  | unchecked => exact Nat.mod_add_mod ..

end Build

structure Deadline where
  time : Timestamp
  location : Location
  deriving DecidableEq, Repr

namespace Deadline

instance : Ord Deadline := ⟨compareLex (compareOn time) (compareOn location)⟩

instance : Std.TransOrd Deadline :=
  inferInstanceAs (Std.TransCmp (compareLex (compareOn time) (compareOn location)))

theorem compare_eq (a b : Deadline) :
    compare a b = (compare a.time b.time).then (compare a.location b.location) := rfl

instance : Std.LawfulEqOrd Deadline where
  compare_self := by simp [Std.ReflCmp.compare_self]
  eq_of_compare := by
    rintro ⟨t, l⟩ ⟨t', l'⟩ h
    obtain ⟨ht, hl⟩ := Ordering.then_eq_eq.1 ((compare_eq _ _).symm.trans h)
    obtain rfl : t = t' := Std.LawfulEqCmp.eq_of_compare ht
    obtain rfl : l = l' := Std.LawfulEqCmp.eq_of_compare hl
    rfl

end Deadline

def Tuple.deadline? (t : Tuple) : Option Timestamp := t.expiry.bind Expiry.time?

structure StoreStats where
  /-- Values written, copies and appends included. -/
  writes : Nat := 0
  /-- Look-ups and searches. -/
  reads : Nat := 0
  removals : Nat := 0
  /-- Values held after the last change. -/
  held : Nat := 0
  deriving DecidableEq, Repr

structure Stored where
  /-- The value with all that the store fills in. -/
  tuple : Tuple
  created : Bool
  deriving DecidableEq, Repr

structure Store where
  policy : PayloadCase
  tuples : Table Location Tuple := .empty
  deadlines : Table Deadline Unit := .empty
  stats : StoreStats := {}

namespace Store

def new (policy : PayloadCase) : Store := { policy }

/-- The value at a location. Whether it counts as seen does not change. -/
def peek (s : Store) (l : Location) : Option Tuple := s.tuples.get? l

def exists? (s : Store) (l : Location) : Bool := s.tuples.contains l

def size (s : Store) : Nat := s.tuples.size

def isEmpty (s : Store) : Bool := s.tuples.isEmpty

/-! ## Writing -/

def nextSeqno (s : Store) (l : Location) : Nat :=
  match (s.peek l).bind (·.seqno) with
  | none => 1
  | some n => nextCount UInt64.size n

/-- Enters the deadline of a value that takes the place of another, and drops the other's. -/
def reschedule (deadlines : Table Deadline Unit) (l : Location) (before after : Option Timestamp) :
    Table Deadline Unit :=
  let cleared := match before with
    | some time => deadlines.erase ⟨time, l⟩
    | none => deadlines
  match after with
  | some time => cleared.insert ⟨time, l⟩ ()
  | none => cleared

/-- Stores a value as unseen. -/
def put (s : Store) (l : Location) (t : Tuple) : Store × Stored :=
  let t := { t with fresh := some true }
  let before := s.peek l
  let tuples := s.tuples.insert l t
  ({ s with
      tuples
      deadlines := reschedule s.deadlines l (before.bind (·.deadline?)) t.deadline?
      stats := { s.stats with writes := s.stats.writes + 1, held := tuples.size } },
    ⟨t, before.isNone⟩)

/-- Writes a concrete tuple under the next sequence number of its location. -/
def insert (s : Store) (t : Tuple) (now : Timestamp) : Except TupleError (Store × Stored) := do
  let l ← t.location
  return s.put l { t with seqno := some (s.nextSeqno l), appends := 0, written := some now }

/-- Keeps a copy of another process's value under the number its owner gave it. A copy that is not
newer than the value held is left out. One without a number counts as the next. -/
def insertReplica (s : Store) (t : Tuple) (now : Timestamp) :
    Except TupleError (Store × Option Stored) := do
  let l ← t.location
  let written := some (t.written.getD now)
  match t.seqno, (s.peek l).bind (·.seqno) with
  | some incoming, some held =>
    -- Copies may arrive late and more than once.
    if incoming ≤ held then return (s, none)
    else
      let (s, stored) := s.put l { t with written }
      return (s, some stored)
  | some _, none =>
    let (s, stored) := s.put l { t with written }
    return (s, some stored)
  | none, _ =>
    let (s, stored) := s.put l { t with seqno := some (s.nextSeqno l), written }
    return (s, some stored)

/-- True if a value is one that an append with this pattern and number goes to. -/
def isAppended (s : Store) (p : Tuple) (expected : Option Nat) (t : Tuple) : Bool :=
  p.covers s.policy t && (expected.isNone || t.seqno = expected)

def extend (suffix : List UInt8) (now : Timestamp) (t : Tuple) : Tuple :=
  { t with
    payload := some (t.payload.getD [] ++ suffix)
    appends := nextCount UInt32.size t.appends
    written := some now
    fresh := some true }

/-- Appends to every value that the pattern covers, or to those at one sequence number only, and
gives the values it changed. -/
def append (s : Store) (p : Tuple) (suffix : List UInt8) (expected : Option Nat)
    (now : Timestamp) : Store × List Tuple :=
  let change (t : Tuple) := if s.isAppended p expected t then extend suffix now t else t
  let changed := (s.tuples.values.filter (s.isAppended p expected)).map (extend suffix now)
  ({ s with
      tuples := s.tuples.mapValues change
      stats := { s.stats with writes := s.stats.writes + changed.length } },
    changed)

def remove (s : Store) (l : Location) : Store × Option Tuple :=
  match s.peek l with
  | none => (s, none)
  | some t =>
    let tuples := s.tuples.erase l
    ({ s with
        tuples
        deadlines := reschedule s.deadlines l t.deadline? none
        stats := { s.stats with removals := s.stats.removals + 1, held := tuples.size } },
      some t)

/-! ## Reading -/

def countRead (s : Store) : Store := { s with stats := { s.stats with reads := s.stats.reads + 1 } }

def markSeen (s : Store) (l : Location) : Store :=
  match s.peek l with
  | none => s
  | some t => { s with tuples := s.tuples.insert l { t with fresh := some false } }

/-- The value at a location, which is seen from now on. On demand a value that was seen before
counts as absent. -/
def get (s : Store) (l : Location) (onlyFresh : Bool) :
    Except TupleError (Store × Option Tuple) := do
  l.requireConcrete
  let s := s.countRead
  match s.peek l with
  | none => return (s, none)
  | some t =>
    if onlyFresh && t.fresh != some true then return (s, none)
    else return (s.markSeen l, some t)

/-- The values that a pattern covers, in their order. Whether they count as seen does not change. -/
def matching (s : Store) (p : Tuple) : List Tuple := s.tuples.values.filter (p.covers s.policy)

/-- The values that a pattern covers, in their order. They are seen from now on. -/
def search (s : Store) (p : Tuple) : Store × List Tuple :=
  let see (t : Tuple) := if p.covers s.policy t then { t with fresh := some false } else t
  ({ s.countRead with tuples := s.tuples.mapValues see }, s.matching p)

/-- The first value that a pattern covers. It is seen from now on. -/
def first (s : Store) (p : Tuple) : Store × Option Tuple :=
  match s.matching p with
  | [] => (s.countRead, none)
  | t :: _ =>
    match t.location with
    | .error _ => (s.countRead, none)
    | .ok l => (s.countRead.markSeen l, s.peek l)

/-- The locations that have expired at `now`, earliest first. -/
def due (s : Store) (now : Timestamp) : List Location :=
  (s.deadlines.keys.takeWhile fun d => d.time.le now).map (·.location)

def keysOf (s : Store) (owner : Owner) : List Key :=
  (s.tuples.keys.filter fun l => l.owner = owner).map (·.key)

def ownersOf (s : Store) (key : Key) : List Owner :=
  (s.tuples.keys.filter fun l => l.key = key).map (·.owner)

end Store

end Blackboard
