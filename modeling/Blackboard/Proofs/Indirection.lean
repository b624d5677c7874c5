import Blackboard.Indirection

/-!
# Where indirect subscriptions point

A rebinding changes the pointer of the subscriptions it is about and nothing else of the resolver:
prototypes and callbacks stay, and so do all other subscriptions. `pointer?_retarget` and
`pointer?_release` say so for the two operations that writes and removals perform.
-/

namespace Blackboard

variable {κ : Type}

/-- The location an indirect subscription is bound to, and that of the meta tuple it came from. -/
structure Pointer where
  source : Option Location
  target : Option Reference
  deriving DecidableEq, Repr

/-- The pointer taken from a meta tuple at `source` that names `target`. -/
def Pointer.through (source : Option Location) (target : Option Reference) : Pointer :=
  ⟨if target.isSome then source else none, target⟩

def Pointer.unbound : Pointer := ⟨none, none⟩

/-- The pointer with which a subscription starts, where `current` is the meta tuple to start from. -/
def Pointer.first (current : Option Tuple) : Pointer :=
  current.elim unbound fun t => through (Bindings.sourceOf t) (Reference.target? t)

@[simp] theorem Pointer.through_none (source : Option Location) :
    through source none = unbound := rfl

namespace Resolver

def pointer? (r : Resolver κ) (h : Handle) : Option Pointer :=
  (r.entries.get? h).map fun e => ⟨e.source, e.target⟩

/-- What an indirect subscription was registered with. -/
def registration? (r : Resolver κ) (h : Handle) : Option (Tuple × Option κ) :=
  (r.entries.get? h).map fun e => (e.prototype, e.callback)

/-- The handle under which the callback of an indirect subscription is entered in the registry. -/
def bound? (r : Resolver κ) (h : Handle) : Option Handle := (r.entries.get? h).bind (·.bound)

theorem target?_eq_pointer? (r : Resolver κ) (h : Handle) :
    r.target? h = (r.pointer? h).bind (·.target) := by
  rw [target?, pointer?, Option.bind_map]
  rfl

theorem bound?_of_get?_eq_none {r : Resolver κ} {h : Handle} (hnone : r.entries.get? h = none) :
    r.bound? h = none := by
  rw [bound?, hnone]
  rfl

theorem target?_of_get?_eq_none {r : Resolver κ} {h : Handle} (hnone : r.entries.get? h = none) :
    r.target? h = none := by
  rw [target?, hnone]
  rfl

end Resolver

/-- The entry after a rebinding in which a fresh handle, if needed, is `next`. -/
def Indirect.repoint (e : Indirect κ) (next : Handle) (source : Option Location)
    (target : Option Reference) : Indirect κ where
  prototype := e.prototype
  source := if target.isSome then source else none
  target := target
  bound := if e.target = target then e.bound else target.map fun _ => next
  callback := e.callback

namespace Bindings

@[simp] theorem unbind_resolver (b : Bindings κ) (e : Indirect κ) :
    (b.unbind e).resolver = b.resolver := by
  rw [unbind]
  split <;> rfl

@[simp] theorem unbind_handles (b : Bindings κ) (e : Indirect κ) :
    (b.unbind e).handles = b.handles := by
  rw [unbind]
  split <;> rfl

theorem unbind_registry_policy (b : Bindings κ) (e : Indirect κ) :
    (b.unbind e).registry.policy = b.registry.policy := by
  rw [unbind]
  split <;> rfl

theorem entries_rebind {b : Bindings κ} {h : Handle} {e : Indirect κ}
    (he : b.resolver.entries.get? h = some e) (source : Option Location)
    (target : Option Reference) :
    (b.rebind h source target).1.resolver.entries
      = b.resolver.entries.insert h (e.repoint b.handles.next source target) := by
  rw [rebind]
  simp only [he]
  split
  next heq => simp [file, Indirect.repoint, heq]
  next hne => cases target <;> simp [file, bind, Allocator.allocate, Indirect.repoint, hne]

theorem get?_rebind (b : Bindings κ) (h other : Handle) (source : Option Location)
    (target : Option Reference) :
    (b.rebind h source target).1.resolver.entries.get? other
      = if other = h then (b.resolver.entries.get? h).map (·.repoint b.handles.next source target)
        else b.resolver.entries.get? other := by
  cases he : b.resolver.entries.get? h with
  | none =>
    rw [rebind]
    by_cases heq : other = h <;> simp [he, heq]
  | some e => rw [entries_rebind he, Table.get?_insert, Option.map_some]

theorem pointer?_rebind (b : Bindings κ) (h other : Handle) (source : Option Location)
    (target : Option Reference) :
    (b.rebind h source target).1.resolver.pointer? other
      = if other = h then (b.resolver.pointer? h).map fun _ => .through source target
        else b.resolver.pointer? other := by
  simp only [Resolver.pointer?, get?_rebind]
  split
  next => simp only [Option.map_map, Function.comp_def, Indirect.repoint, Pointer.through]
  next => rfl

theorem registration?_rebind (b : Bindings κ) (h other : Handle) (source : Option Location)
    (target : Option Reference) :
    (b.rebind h source target).1.resolver.registration? other
      = b.resolver.registration? other := by
  simp only [Resolver.registration?, get?_rebind]
  split
  next heq => simp only [heq, Option.map_map, Function.comp_def, Indirect.repoint]
  next => rfl

theorem policy_rebind (b : Bindings κ) (h : Handle) (source : Option Location)
    (target : Option Reference) :
    (b.rebind h source target).1.resolver.policy = b.resolver.policy := by
  rw [rebind]
  split
  next => rfl
  next =>
    dsimp only
    split
    next => rfl
    next => cases target <;> simp [file, bind]

theorem registry_policy_rebind (b : Bindings κ) (h : Handle) (source : Option Location)
    (target : Option Reference) :
    (b.rebind h source target).1.registry.policy = b.registry.policy := by
  rw [rebind]
  split
  next => rfl
  next =>
    dsimp only
    split
    next => rfl
    next => cases target <;> exact unbind_registry_policy b _

theorem pointer?_rebindAll (source : Option Location) (target : Option Reference)
    (hs : List Handle) (b : Bindings κ) (other : Handle) :
    (rebindAll source target b hs).1.resolver.pointer? other
      = if other ∈ hs then (b.resolver.pointer? other).map fun _ => .through source target
        else b.resolver.pointer? other := by
  induction hs generalizing b with
  | nil => rfl
  | cons h rest ih =>
    refine (ih (b.rebind h source target).1).trans ?_
    rw [pointer?_rebind]
    by_cases heq : other = h
    · subst heq
      by_cases hmem : other ∈ rest <;> simp [hmem, Function.comp_def]
    · simp [heq]

theorem registration?_rebindAll (source : Option Location) (target : Option Reference)
    (hs : List Handle) (b : Bindings κ) (other : Handle) :
    (rebindAll source target b hs).1.resolver.registration? other
      = b.resolver.registration? other := by
  induction hs generalizing b with
  | nil => rfl
  | cons h rest ih =>
    exact (ih (b.rebind h source target).1).trans (registration?_rebind b h other source target)

theorem policy_rebindAll (source : Option Location) (target : Option Reference)
    (hs : List Handle) (b : Bindings κ) :
    (rebindAll source target b hs).1.resolver.policy = b.resolver.policy := by
  induction hs generalizing b with
  | nil => rfl
  | cons h rest ih =>
    exact (ih (b.rebind h source target).1).trans (policy_rebind b h source target)

theorem registry_policy_rebindAll (source : Option Location) (target : Option Reference)
    (hs : List Handle) (b : Bindings κ) :
    (rebindAll source target b hs).1.registry.policy = b.registry.policy := by
  induction hs generalizing b with
  | nil => rfl
  | cons h rest ih =>
    exact (ih (b.rebind h source target).1).trans (registry_policy_rebind b h source target)

theorem pointer?_register (b : Bindings κ) (h other : Handle) (prototype : Tuple)
    (callback : Option κ) (current : Option Tuple) :
    (b.register h prototype callback current).resolver.pointer? other
      = if other = h then some (Pointer.first current) else b.resolver.pointer? other := by
  have hfiled (registry : Registry κ) (e : Indirect κ) :
      (file { b with registry } h e).resolver.pointer? other
        = if other = h then some ⟨e.source, e.target⟩ else b.resolver.pointer? other := by
    rw [Resolver.pointer?, file, Table.get?_insert]
    split <;> rfl
  cases current with
  | none => exact hfiled ..
  | some t =>
    refine (pointer?_rebind ..).trans ?_
    split
    next heq => simp [Resolver.pointer?, file, Pointer.first]
    next hne => exact (hfiled ..).trans (if_neg hne)

theorem registration?_register (b : Bindings κ) (h other : Handle) (prototype : Tuple)
    (callback : Option κ) (current : Option Tuple) :
    (b.register h prototype callback current).resolver.registration? other
      = if other = h then some (prototype.ignoringFresh, callback)
        else b.resolver.registration? other := by
  have hfiled (registry : Registry κ) (e : Indirect κ) :
      (file { b with registry } h e).resolver.registration? other
        = if other = h then some (e.prototype, e.callback) else b.resolver.registration? other := by
    rw [Resolver.registration?, file, Table.get?_insert]
    split <;> rfl
  cases current with
  | none => exact hfiled ..
  | some t => exact (registration?_rebind ..).trans (hfiled ..)

theorem get?_unregister {b b' : Bindings κ} {h other : Handle} (hok : b.unregister h = .ok b')
    (hne : other ≠ h) : b'.resolver.entries.get? other = b.resolver.entries.get? other := by
  rw [unregister] at hok
  split at hok
  next => cases hok
  next e _ =>
    cases hok
    exact (Table.get?_erase ..).trans ((if_neg hne).trans (by rw [unbind_resolver]))

theorem registration?_unregister {b b' : Bindings κ} {h : Handle} (hok : b.unregister h = .ok b')
    (other : Handle) : b'.resolver.registration? other
      = if other = h then none else b.resolver.registration? other := by
  split
  next heq =>
    rw [unregister] at hok
    split at hok
    next => cases hok
    next =>
      cases hok
      simp [Resolver.registration?, Table.get?_erase, heq]
  next hne => rw [Resolver.registration?, get?_unregister hok hne, Resolver.registration?]

theorem policy_register (b : Bindings κ) (h : Handle) (prototype : Tuple) (callback : Option κ)
    (current : Option Tuple) :
    (b.register h prototype callback current).resolver.policy = b.resolver.policy := by
  cases current with
  | none => rfl
  | some t => exact policy_rebind ..

theorem registry_policy_register (b : Bindings κ) (h : Handle) (prototype : Tuple)
    (callback : Option κ) (current : Option Tuple) :
    (b.register h prototype callback current).registry.policy = b.registry.policy := by
  cases current with
  | none => rfl
  | some t => exact registry_policy_rebind ..

theorem policies_unregister {b b' : Bindings κ} {h : Handle} (hok : b.unregister h = .ok b') :
    b'.resolver.policy = b.resolver.policy ∧ b'.registry.policy = b.registry.policy := by
  rw [unregister] at hok
  split at hok
  next => cases hok
  next e _ =>
    cases hok
    have hpolicy := congrArg Resolver.policy (unbind_resolver b e)
    exact ⟨hpolicy, unbind_registry_policy b e⟩

/-! ## Writes and removals -/

theorem mem_affected_iff (r : Resolver κ) (p : Indirect κ → Bool) (h : Handle) :
    h ∈ (r.entries.entries.filter fun e => p e.2).map (·.1) ↔
      ∃ e, r.entries.get? h = some e ∧ p e = true := by
  simp only [List.mem_map, List.mem_filter]
  constructor
  · rintro ⟨⟨h, e⟩, ⟨hmem, hp⟩, rfl⟩
    exact ⟨e, (r.entries.mem_entries_iff h e).1 hmem, hp⟩
  · rintro ⟨e, he, hp⟩
    exact ⟨(h, e), ⟨(r.entries.mem_entries_iff h e).2 he, hp⟩, rfl⟩

/-- A written tuple repoints the subscriptions whose prototype covers it, and no others. -/
theorem pointer?_retarget (b : Bindings κ) (t : Tuple) (h : Handle) :
    (b.retarget t).1.resolver.pointer? h = (b.resolver.entries.get? h).map fun e =>
      if e.prototype.covers b.resolver.policy t then
        .through (sourceOf t) (Reference.target? t)
      else ⟨e.source, e.target⟩ := by
  rw [retarget, pointer?_rebindAll, Resolver.pointer?]
  simp only [mem_affected_iff b.resolver fun e => e.prototype.covers b.resolver.policy t]
  cases b.resolver.entries.get? h with
  | none => simp
  | some e => by_cases hc : e.prototype.covers b.resolver.policy t = true <;> simp [hc]

/-- A removal unbinds the subscriptions bound through the tuple removed, and no others. -/
theorem pointer?_release (b : Bindings κ) (l : Location) (h : Handle) :
    (b.release l).1.resolver.pointer? h = (b.resolver.entries.get? h).map fun e =>
      if e.source = some l then .unbound else ⟨e.source, e.target⟩ := by
  rw [release, pointer?_rebindAll, Resolver.pointer?]
  simp only [mem_affected_iff b.resolver fun e => e.source = some l]
  cases b.resolver.entries.get? h with
  | none => simp
  | some e => by_cases hc : e.source = some l <;> simp [hc]

/-- Where no subscription follows a tuple, a write of it changes no binding. -/
theorem retarget_of_not_watches {b : Bindings κ} {t : Tuple} (h : b.resolver.watches t = false) :
    b.retarget t = (b, 0) := by
  have hnone : (b.resolver.entries.entries.filter fun e =>
      e.2.prototype.covers b.resolver.policy t) = [] := by
    rw [List.filter_eq_nil_iff]
    intro e he hc
    have := List.any_eq_false.1 h e.2 (List.mem_map_of_mem he)
    exact this hc
  rw [retarget, hnone]
  rfl

end Bindings

end Blackboard
