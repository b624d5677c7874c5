import Blackboard.Store
import Blackboard.Indirection

/-!
# The space of a process

Store, subscriptions and indirect subscriptions of one process, with the operations that tie them
together: a write repoints the indirect subscriptions that follow the tuple and then runs the
callbacks for it, a removal runs the callbacks for it and then unbinds what was bound through it.

The space also keeps a tuple that lists the keys of the process. It is stored anew whenever one of them
comes or goes.

Every callback run is entered in `fired`, the oldest first.
-/

namespace Blackboard

/-- What one change of the space brought about. -/
structure Mutation where
  /-- The tuple as it was stored, or as it was before its removal. -/
  tuple : Option Tuple := none
  callbacks : Nat := 0
  rebinds : Nat := 0
  deriving DecidableEq, Repr

structure SpaceStats where
  tuples : Nat
  subscriptions : Nat
  indirectSubscriptions : Nat
  dispatched : Nat
  rebinds : Nat
  writes : Nat
  removals : Nat
  deriving DecidableEq, Repr

/-- The tuples and subscriptions of a process. -/
structure Space (κ : Type) where
  localId : Owner
  store : Store
  bindings : Bindings κ
  keepsListing : Bool
  /-- The callbacks run so far, in order. -/
  fired : List (Firing κ) := []

namespace Space

variable {κ : Type}

def listingName : String := "kernel.all-keys"

def listingKey : Key := ⟨[some "kernel", some "all-keys"]⟩

theorem render_listingKey : listingKey.render = listingName := rfl

example : Key.parse listingName = .ok listingKey := rfl

def new (localId : Owner) (policy : PayloadCase) (keepsListing : Bool) (handles : Allocator) :
    Space κ where
  localId
  store := .new policy
  bindings := ⟨.new policy, .new policy, handles⟩
  keepsListing

def resolver (s : Space κ) : Resolver κ := s.bindings.resolver

def registry (s : Space κ) : Registry κ := s.bindings.registry

def handles (s : Space κ) : Allocator := s.bindings.handles

def allocate (s : Space κ) : Space κ × Handle :=
  let (h, handles) := s.handles.allocate
  ({ s with bindings := { s.bindings with handles } }, h)

/-- The value at a location. Whether it counts as seen does not change. -/
def peek (s : Space κ) (l : Location) : Option Tuple := s.store.peek l

/-! ## Changes -/

/-- Runs the callbacks that a change of `t` concerns and gives their number. -/
def dispatch [Callback κ] (s : Space κ) (mode : Mode) (t : Tuple) : Space κ × Nat :=
  let (registry, handles, firings) := s.registry.dispatch s.handles mode t
  ({ s with
      bindings := { s.bindings with registry, handles }
      fired := s.fired ++ firings },
    firings.length)

/-- Points the indirect subscriptions that follow `t` at what it names. -/
def retarget (s : Space κ) (t : Tuple) : Space κ × Nat :=
  if s.resolver.watches t then
    let (bindings, rebinds) := s.bindings.retarget t
    ({ s with bindings }, rebinds)
  else (s, 0)

def afterWrite [Callback κ] (s : Space κ) (t : Tuple) : Space κ × Mutation :=
  let (s, rebinds) := s.retarget t
  let (s, callbacks) := s.dispatch .onWrite t
  (s, ⟨some t, callbacks, rebinds⟩)

/-- The payload of the list of keys: the keys in their order, between parentheses. -/
def listing (s : Space κ) : String :=
  let names := ((s.store.keysOf s.localId).map Key.render).filter (· ≠ listingName)
  "(" ++ " ".intercalate names ++ ")"

/-- Stores the list of keys anew, unless it is the list itself that changed. -/
def refreshListing [Callback κ] (s : Space κ) (changed : Key) (now : Timestamp) : Space κ :=
  if !s.keepsListing || changed.render = listingName then s
  else
    match s.store.insert (Tuple.plainText s.localId listingKey s.listing) now with
    | .ok (store, stored) => (afterWrite { s with store } stored.tuple).1
    | .error _ => s

/-- Removes a tuple after running the callbacks for its removal. They see the tuple as it is given,
and so does the caller. -/
def purge [Callback κ] (s : Space κ) (l : Location) (t : Tuple) : Space κ × Mutation :=
  let (s, callbacks) := s.dispatch .onDelete t
  -- What is bound through the tuple stays bound while the callbacks run.
  let (bindings, rebinds) := s.bindings.release l
  ({ s with store := (s.store.remove l).1, bindings }, ⟨some t, callbacks, rebinds⟩)

/-- Removes the value at a location, if there is one. The callbacks see it with the mark of a
deletion, and with the process that deletes it as its writer if that is known. -/
def delete [Callback κ] (s : Space κ) (l : Location) (remover : Option Owner) (now : Timestamp) :
    Except TupleError (Space κ × Mutation) := do
  l.requireConcrete
  match s.store.peek l with
  | none => return (s, {})
  | some t =>
    let marked := { t with expiry := some .immediately, creator := remover.or t.creator }
    let (s, mutation) := s.purge l marked
    if l.owner = s.localId then return (s.refreshListing l.key now, mutation)
    else return (s, mutation)

/-- Removes the value at the location that a tuple with the mark of a deletion names. -/
def deleteMarked [Callback κ] (s : Space κ) (t : Tuple) (now : Timestamp) :
    Except TupleError (Space κ × Mutation) :=
  match t.owner with
  | none => .error (.abstractUse t.render)
  | some owner => s.delete ⟨owner, t.key⟩ t.creator now

/-- Writes a concrete tuple, or deletes where it has the mark of a deletion. -/
def write [Callback κ] (s : Space κ) (t : Tuple) (now : Timestamp) :
    Except TupleError (Space κ × Mutation) := do
  if t.isDeletion then s.deleteMarked t now
  else
    -- The number that the writer gave plays no part, it is the next one in any case.
    let (store, stored) ← s.store.insert { t with seqno := none } now
    let (s, mutation) := afterWrite { s with store } stored.tuple
    if stored.created then return (s.refreshListing t.key now, mutation)
    else return (s, mutation)

/-- Keeps a copy of another process's value, or deletes the copy where the value has the mark of a
deletion. A copy that is not newer than the one held changes nothing. -/
def writeReplica [Callback κ] (s : Space κ) (t : Tuple) (now : Timestamp) :
    Except TupleError (Space κ × Mutation) := do
  if t.isDeletion then s.deleteMarked t now
  else
    match ← s.store.insertReplica t now with
    | (store, some stored) => return afterWrite { s with store } stored.tuple
    | (store, none) => return ({ s with store }, {})

def purgeAll [Callback κ] (s : Space κ) : List Location → Space κ × List Mutation
  | [] => (s, [])
  | l :: rest =>
    match s.store.peek l with
    | none => s.purgeAll rest
    | some t =>
      let (s, mutation) := s.purge l t
      let (s, mutations) := s.purgeAll rest
      (s, mutation :: mutations)

/-- Removes every value that has expired at `now`, earliest first. -/
def expire [Callback κ] (s : Space κ) (now : Timestamp) : Space κ × List Mutation :=
  let due := (s.store.due now).filter s.store.exists?
  let (s, mutations) := s.purgeAll due
  -- The list of keys is renewed once for all, as if for the last value that was removed.
  let last := (mutations.getLast?.bind (·.tuple)).map (·.key)
  match last with
  | some key =>
    if due.any fun l => l.owner = s.localId then (s.refreshListing key now, mutations)
    else (s, mutations)
  | none => (s, mutations)

def afterWrites [Callback κ] (s : Space κ) : List Tuple → Space κ × List Mutation
  | [] => (s, [])
  | t :: rest =>
    let (s, mutation) := s.afterWrite t
    let (s, mutations) := s.afterWrites rest
    (s, mutation :: mutations)

def append [Callback κ] (s : Space κ) (p : Tuple) (suffix : List UInt8) (expected : Option Nat)
    (now : Timestamp) : Space κ × List Mutation :=
  let (store, changed) := s.store.append { p with owner := some s.localId } suffix expected now
  afterWrites { s with store } changed

/-! ## Reading -/

/-- The value at a location, which is seen from now on. On demand a value that was seen before
counts as absent. -/
def get (s : Space κ) (l : Location) (onlyFresh : Bool) :
    Except TupleError (Space κ × Option Tuple) := do
  let (store, found) ← s.store.get l onlyFresh
  return ({ s with store }, found)

def exists? (s : Space κ) (l : Location) : Bool := s.store.exists? l

/-- The values that a pattern covers, in their order. They are seen from now on. -/
def search (s : Space κ) (p : Tuple) : Space κ × List Tuple :=
  let (store, found) := s.store.search p
  ({ s with store }, found)

/-- The first value that a pattern covers. It is seen from now on. -/
def first (s : Space κ) (p : Tuple) : Space κ × Option Tuple :=
  let (store, found) := s.store.first p
  ({ s with store }, found)

def ownersOf (s : Space κ) (key : Key) : List Owner := s.store.ownersOf key

/-- What the meta tuple at a location names. Where there is no tuple, nothing is named. -/
def resolve (s : Space κ) (l : Location) : Except TupleError (Option Reference) :=
  match s.store.peek l with
  | some t => Reference.resolve t
  | none => .ok none

def isMeta (s : Space κ) (l : Location) : Bool := (s.store.peek l).any Reference.isMeta

/-! ## Subscriptions -/

def subscribe (s : Space κ) (h : Handle) (subscription : Subscription κ) : Space κ :=
  { s with bindings := { s.bindings with registry := s.registry.insert h subscription } }

/-- Adds an indirect subscription, bound through the first stored tuple its prototype covers. -/
def subscribeIndirect (s : Space κ) (h : Handle) (prototype : Tuple) (callback : Option κ) :
    Space κ :=
  let current := (s.store.matching prototype.ignoringFresh).head?
  { s with bindings := s.bindings.register h prototype callback current }

def unsubscribe (s : Space κ) (h : Handle) : Except TupleError (Space κ) :=
  if s.resolver.contains h then do
    let bindings ← s.bindings.unregister h
    return { s with bindings }
  else do
    let (registry, _) ← s.registry.remove h
    return { s with bindings := { s.bindings with registry } }

def indirectTarget (s : Space κ) (h : Handle) : Option Reference := s.resolver.target? h

/-- True if some subscription is about tuples that `p` may cover. -/
def hasSubscriber (s : Space κ) (p : Tuple) : Bool := s.registry.hasSubscriber p

def stats (s : Space κ) : SpaceStats where
  tuples := s.store.size
  subscriptions := s.registry.size
  indirectSubscriptions := s.resolver.size
  dispatched := s.registry.dispatched
  rebinds := s.resolver.rebinds
  writes := s.store.stats.writes
  removals := s.store.stats.removals

end Space

end Blackboard
