import Blackboard.Tuple

/-!
# Search results

The results of one search or several, read through a cursor. The cursor starts before the first
result. Further results go to the end and leave the cursor where it is.
-/

namespace Blackboard

structure Results where
  tuples : List Tuple
  /-- The place of the cursor. It has none before the first result, and may be past the last. -/
  cursor : Option Nat := none
  deriving DecidableEq, Repr

namespace Results

def empty : Results := ⟨[], none⟩

def ofList (tuples : List Tuple) : Results := { tuples }

def append (r : Results) (tuples : List Tuple) : Results := { r with tuples := r.tuples ++ tuples }

def nextPlace (r : Results) : Nat :=
  match r.cursor with
  | none => 0
  | some place => place + 1

def first (r : Results) : Results × Option Tuple :=
  ({ r with cursor := some 0 }, r.tuples.head?)

/-- Moves the cursor to the next result. At the end it stays past the last result. -/
def advance (r : Results) : Results × Option Tuple :=
  let place := min r.nextPlace r.tuples.length
  ({ r with cursor := some place }, r.tuples[place]?)

def current (r : Results) : Option Tuple := r.cursor.bind fun place => r.tuples[place]?

def hasNext (r : Results) : Bool := r.nextPlace < r.tuples.length

def reset (r : Results) : Results := { r with cursor := none }

def size (r : Results) : Nat := r.tuples.length

def isEmpty (r : Results) : Bool := r.tuples.isEmpty

end Results

end Blackboard
