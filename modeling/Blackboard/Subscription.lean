import Blackboard.Data.Table
import Blackboard.Tuple.Match

/-!
# Subscriptions

A registry of patterns, each under a handle. A pattern may come with a callback, to be run whenever a
tuple it covers is written or removed; without one it only declares interest. Handles are taken from
an allocator that counts up, so the order of handles is the order of registration, and callbacks run
in that order.

Running a callback is recorded as a `Firing` and nothing else: what a callback is, and what it does,
is left to the caller. All that matters here is how many handles it takes while it runs, since the
allocator is shared with it.
-/

namespace Blackboard

abbrev Handle := Nat

structure Allocator where
  /-- How many handles were taken so far; it is also the last of them. -/
  taken : Nat := 0
  deriving DecidableEq, Repr, Inhabited

namespace Allocator

/-- The next handle. The first one is 1. -/
def next (a : Allocator) : Handle := a.taken + 1

def advance (a : Allocator) (n : Nat) : Allocator := ⟨a.taken + n⟩

def allocate (a : Allocator) : Handle × Allocator := (a.next, a.advance 1)

end Allocator

/-- What a callback does to the allocator. -/
class Callback (κ : Type) where
  handles : κ → Nat

/-- A callback that is only a name takes no handles. -/
instance : Callback String := ⟨fun _ => 0⟩

inductive Mode where
  | onWrite
  | onDelete
  deriving DecidableEq, Repr

def Mode.label : Mode → String
  | onWrite => "write"
  | onDelete => "delete"

/-- A pattern with its mode, and the callback to run if there is one. -/
structure Subscription (κ : Type) where
  pattern : Tuple
  mode : Mode
  callback : Option κ

def Subscription.interest {κ : Type} (pattern : Tuple) : Subscription κ :=
  ⟨pattern, .onWrite, none⟩

structure Firing (κ : Type) where
  handle : Handle
  callback : κ
  /-- The tuple as the callback sees it. -/
  tuple : Tuple
  /-- The allocator as the callback finds it. -/
  handles : Allocator

structure Registry (κ : Type) where
  policy : PayloadCase
  entries : Table Handle (Subscription κ) := .empty
  dispatched : Nat := 0

namespace Registry

variable {κ : Type}

def new (policy : PayloadCase) : Registry κ := { policy }

/-- Adds a subscription, in place of the one that has its handle. -/
def insert (r : Registry κ) (h : Handle) (s : Subscription κ) : Registry κ :=
  { r with entries := r.entries.insert h s }

def get? (r : Registry κ) (h : Handle) : Option (Subscription κ) := r.entries.get? h

def contains (r : Registry κ) (h : Handle) : Bool := r.entries.contains h

def erase (r : Registry κ) (h : Handle) : Registry κ := { r with entries := r.entries.erase h }

def remove (r : Registry κ) (h : Handle) : Except TupleError (Registry κ × Subscription κ) :=
  match r.get? h with
  | none => .error (.unknownHandle h)
  | some s => .ok (r.erase h, s)

/-- True if some subscription is about tuples that `p` may cover. -/
def hasSubscriber (r : Registry κ) (p : Tuple) : Bool :=
  r.entries.values.any fun s => s.pattern.overlaps r.policy p

/-- True if a change of `t` runs the callback of a subscription, if it has one. -/
def concerns (policy : PayloadCase) (mode : Mode) (t : Tuple) (s : Subscription κ) : Bool :=
  s.mode = mode && s.pattern.covers policy t

/-- The callbacks that a change of `t` runs, in the order of registration. -/
def matching (r : Registry κ) (mode : Mode) (t : Tuple) : List (Handle × κ) :=
  r.entries.entries.filterMap fun (h, s) =>
    if concerns r.policy mode t s then s.callback.map (h, ·) else none

/-- A tuple as callbacks see it: what was written counts as seen. -/
def delivered (mode : Mode) (t : Tuple) : Tuple :=
  match mode with
  | .onWrite => { t with fresh := some false }
  | .onDelete => t

def runAll [Callback κ] (t : Tuple) : Allocator → List (Handle × κ) → Allocator × List (Firing κ)
  | handles, [] => (handles, [])
  | handles, (h, callback) :: rest =>
    let (last, firings) := runAll t (handles.advance (Callback.handles callback)) rest
    (last, ⟨h, callback, t, handles⟩ :: firings)

/-- Runs every callback that a change of `t` concerns. All of them are chosen before the first one
runs, so none can change which others run. -/
def dispatch [Callback κ] (r : Registry κ) (handles : Allocator) (mode : Mode) (t : Tuple) :
    Registry κ × Allocator × List (Firing κ) :=
  let targets := r.matching mode t
  let (handles, firings) := runAll (delivered mode t) handles targets
  ({ r with dispatched := r.dispatched + targets.length }, handles, firings)

def size (r : Registry κ) : Nat := r.entries.size

def isEmpty (r : Registry κ) : Bool := r.entries.isEmpty

end Registry

def Subscription.render {κ : Type} (h : Handle) (s : Subscription κ) : String :=
  let mode := match s.mode with
    | .onWrite => "OnWrite"
    | .onDelete => "OnDelete"
  "Subscription \x7b handle: SubscriptionHandle(" ++ toString h ++ "), pattern: " ++
    Text.quote s.pattern.render ++ ", mode: " ++ mode ++ ", has_callback: " ++
    toString s.callback.isSome ++ " \x7d"

end Blackboard
