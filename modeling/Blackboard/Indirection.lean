import Blackboard.Subscription
import Blackboard.Reference

/-!
# Indirect subscriptions

An indirect subscription follows the meta tuples that a prototype covers: its callback runs for
writes at the location that the last of them written names. In the registry it has two entries. One,
under the handle given to the caller, declares interest in the meta tuples. The other, under a handle
nobody else has, is bound to the location named at the moment and carries the callback.

When a covered meta tuple is written, `retarget` drops the bound entry and binds another. When the
meta tuple that the binding came from is removed, `release` drops it.
-/

namespace Blackboard

/-- A subscription through meta tuples, and its binding. -/
structure Indirect (κ : Type) where
  prototype : Tuple
  /-- Where the meta tuple is that the binding came from. -/
  source : Option Location
  target : Option Reference
  /-- The handle of the bound entry in the registry. -/
  bound : Option Handle
  callback : Option κ

structure Resolver (κ : Type) where
  policy : PayloadCase
  entries : Table Handle (Indirect κ) := .empty
  /-- The number of bindings changed so far. -/
  rebinds : Nat := 0

/-- What a change of bindings works on: the subscriptions of both kinds and the source of handles. -/
structure Bindings (κ : Type) where
  resolver : Resolver κ
  registry : Registry κ
  handles : Allocator

namespace Resolver

variable {κ : Type}

def new (policy : PayloadCase) : Resolver κ := { policy }

def contains (r : Resolver κ) (h : Handle) : Bool := r.entries.contains h

def target? (r : Resolver κ) (h : Handle) : Option Reference :=
  (r.entries.get? h).bind (·.target)

/-- True if some indirect subscription follows this tuple. -/
def watches (r : Resolver κ) (t : Tuple) : Bool :=
  r.entries.values.any fun e => e.prototype.covers r.policy t

def size (r : Resolver κ) : Nat := r.entries.size

def isEmpty (r : Resolver κ) : Bool := r.entries.isEmpty

end Resolver

namespace Bindings

variable {κ : Type}

/-- Drops the bound entry of an indirect subscription. -/
def unbind (b : Bindings κ) (e : Indirect κ) : Bindings κ :=
  match e.bound with
  | none => b
  | some h => { b with registry := b.registry.erase h }

/-- Enters a bound subscription for a location under a fresh handle. -/
def bind (b : Bindings κ) (callback : Option κ) (r : Reference) : Bindings κ × Handle :=
  let (h, handles) := b.handles.allocate
  ({ b with
      registry := b.registry.insert h ⟨r.locator, .onWrite, callback⟩
      handles },
    h)

def file (b : Bindings κ) (h : Handle) (e : Indirect κ) : Bindings κ :=
  { b with resolver := { b.resolver with entries := b.resolver.entries.insert h e } }

/-- Binds an indirect subscription to what the meta tuple at `source` names. Where that is what it is
bound to already, only the source changes. Gives whether the binding changed. -/
def rebind (b : Bindings κ) (h : Handle) (source : Option Location) (target : Option Reference) :
    Bindings κ × Bool :=
  match b.resolver.entries.get? h with
  | none => (b, false)
  | some e =>
    let e := { e with source := if target.isSome then source else none }
    if e.target = target then (b.file h e, false)
    else
      let b := b.unbind e
      -- The handle of the entry that was dropped is not used again.
      let (b, bound) := match target with
        | none => (b, none)
        | some r =>
          let (b, bound) := b.bind e.callback r
          (b, some bound)
      let b := b.file h { e with target, bound }
      ({ b with resolver := { b.resolver with rebinds := b.resolver.rebinds + 1 } }, true)

/-- Rebinds several indirect subscriptions and counts those whose binding changed. -/
def rebindAll (source : Option Location) (target : Option Reference) :
    Bindings κ → List Handle → Bindings κ × Nat
  | b, [] => (b, 0)
  | b, h :: rest =>
    let (b, changed) := b.rebind h source target
    let (b, count) := rebindAll source target b rest
    (b, count + changed.toNat)

def sourceOf (t : Tuple) : Option Location := t.owner.map fun owner => ⟨owner, t.key⟩

/-- Adds an indirect subscription through the meta tuples a prototype covers, bound to what `current`
names if there is one. Whether a meta tuple was read plays no part. -/
def register (b : Bindings κ) (h : Handle) (prototype : Tuple) (callback : Option κ)
    (current : Option Tuple) : Bindings κ :=
  let prototype := prototype.ignoringFresh
  let b := { b with registry := b.registry.insert h (.interest prototype) }
  let b := b.file h ⟨prototype, none, none, none, callback⟩
  match current with
  | none => b
  | some t => (b.rebind h (sourceOf t) (Reference.target? t)).1

/-- Drops an indirect subscription with its bound entry. -/
def unregister (b : Bindings κ) (h : Handle) : Except TupleError (Bindings κ) :=
  match b.resolver.entries.get? h with
  | none => .error (.unknownHandle h)
  | some e =>
    let b := b.unbind e
    .ok { b with
      registry := b.registry.erase h
      resolver := { b.resolver with entries := b.resolver.entries.erase h } }

/-- Points every indirect subscription that follows `t` at what it names. Gives the number of
bindings changed. -/
def retarget (b : Bindings κ) (t : Tuple) : Bindings κ × Nat :=
  let affected := b.resolver.entries.entries.filter fun e =>
    e.2.prototype.covers b.resolver.policy t
  rebindAll (sourceOf t) (Reference.target? t) b (affected.map (·.1))

/-- Unbinds the indirect subscriptions whose binding came from the meta tuple at a location. Gives
the number of bindings changed. -/
def release (b : Bindings κ) (l : Location) : Bindings κ × Nat :=
  let affected := b.resolver.entries.entries.filter fun e => e.2.source = some l
  rebindAll (some l) none b (affected.map (·.1))

end Bindings

end Blackboard
