import Mathlib.Data.List.Perm.Basic
import Blackboard.Proofs.Space.Session

/-!
# What the registry holds

An entry of the registry is there for one of three reasons: a caller subscribed under its handle, a
caller subscribed indirectly under its handle, or an indirect subscription is bound under it. `Accounted`
says that there is an entry for each of these and none without a reason, and that the handles of bound
entries are known to nobody.

The invariant is one about bindings. A rebinding keeps it because the fresh handle lies beyond all
handles that were ever taken; callbacks that take handles only move that border on.
-/

namespace Blackboard

variable {κ : Type}

namespace Bindings

/-- The reasons for which the registry has an entry under a handle. -/
inductive Entry (b : Bindings κ) (direct : Table Handle (Subscription κ))
    (indirect : Table Handle (Tuple × Option κ)) (x : Handle) : Subscription κ → Prop
  | direct {subscription} (h : direct.get? x = some subscription) :
    Entry b direct indirect x subscription
  | interest {prototype callback} (h : indirect.get? x = some (prototype, callback)) :
    Entry b direct indirect x (.interest prototype.ignoringFresh)
  | bound {h prototype callback r} (hledger : indirect.get? h = some (prototype, callback))
    (htarget : b.resolver.target? h = some r) (hbound : b.resolver.bound? h = some x) :
    Entry b direct indirect x ⟨r.locator, .onWrite, callback⟩

/-- Resolver and registry agree with the ledger, where `given` are the handles that callers have. -/
structure Accounted (b : Bindings κ) (direct : Table Handle (Subscription κ))
    (indirect : Table Handle (Tuple × Option κ)) (given : Handle → Prop) : Prop where
  registered : ∀ h, b.resolver.registration? h
    = (indirect.get? h).map fun r => (r.1.ignoringFresh, r.2)
  entry_iff : ∀ x subscription,
    b.registry.get? x = some subscription ↔ b.Entry direct indirect x subscription
  bound_iff : ∀ h, (b.resolver.bound? h).isSome = (b.resolver.target? h).isSome
  bound_inj : ∀ h h' x, b.resolver.bound? h = some x → b.resolver.bound? h' = some x → h = h'
  /-- No caller has the handle of a bound entry. -/
  hidden : ∀ h x, b.resolver.bound? h = some x → ¬ given x
  bound_taken : ∀ h x, b.resolver.bound? h = some x → x ≤ b.handles.taken
  given_taken : ∀ x, given x → x ≤ b.handles.taken
  direct_given : ∀ x subscription, direct.get? x = some subscription → given x
  indirect_given : ∀ x registration, indirect.get? x = some registration → given x
  apart : ∀ x, direct.get? x = none ∨ indirect.get? x = none

theorem registry_unbind (b : Bindings κ) (e : Indirect κ) (x : Handle) :
    (b.unbind e).registry.get? x = if e.bound = some x then none else b.registry.get? x := by
  rw [unbind]
  split
  next hnone => simp [hnone]
  next y hy => simp [hy, Registry.get?, Registry.erase, Table.get?_erase, eq_comm]

theorem registry_rebind {b : Bindings κ} {h : Handle} {e : Indirect κ}
    (he : b.resolver.entries.get? h = some e) (source : Option Location)
    (target : Option Reference) (x : Handle) :
    (b.rebind h source target).1.registry.get? x
      = if e.target = target then b.registry.get? x
        else if target.isSome ∧ x = b.handles.next then
          target.map fun r => ⟨r.locator, .onWrite, e.callback⟩
        else if e.bound = some x then none
        else b.registry.get? x := by
  rw [rebind]
  simp only [he]
  split
  next => rfl
  next =>
    cases target with
    | none =>
      rw [if_neg (by simp)]
      exact registry_unbind b _ x
    | some r =>
      refine (Table.get?_insert ..).trans ?_
      simp only [unbind_handles, Option.isSome_some, true_and, Option.map_some]
      split
      next => rfl
      next => exact registry_unbind b _ x

theorem taken_le_rebind (b : Bindings κ) (h : Handle) (source : Option Location)
    (target : Option Reference) : b.handles.taken ≤ (b.rebind h source target).1.handles.taken := by
  rw [rebind]
  split
  next => exact Nat.le_refl _
  next =>
    dsimp only
    split
    next => exact Nat.le_refl _
    next => cases target <;> simp [file, bind, Allocator.allocate, Allocator.advance]

theorem taken_bind (b : Bindings κ) (h : Handle) (source : Option Location) {e : Indirect κ}
    (he : b.resolver.entries.get? h = some e) {r : Reference} (hne : e.target ≠ some r) :
    (b.rebind h source (some r)).1.handles.taken = b.handles.next := by
  rw [rebind]
  simp [he, hne, file, bind, Allocator.allocate, Allocator.advance, Allocator.next]

theorem bound?_rebind (b : Bindings κ) (h other : Handle) (source : Option Location)
    (target : Option Reference) :
    (b.rebind h source target).1.resolver.bound? other
      = if other = h then (b.resolver.entries.get? h).bind fun e =>
          if e.target = target then e.bound else target.map fun _ => b.handles.next
        else b.resolver.bound? other := by
  simp only [Resolver.bound?, get?_rebind]
  split
  next => rw [Option.bind_map]; rfl
  next => rfl

theorem target?_rebind (b : Bindings κ) (h other : Handle) (source : Option Location)
    (target : Option Reference) :
    (b.rebind h source target).1.resolver.target? other
      = if other = h then (b.resolver.entries.get? h).bind fun _ => target
        else b.resolver.target? other := by
  simp only [Resolver.target?, get?_rebind]
  split
  next => rw [Option.bind_map]; rfl
  next => rfl

variable {b b' : Bindings κ} {direct direct' : Table Handle (Subscription κ)}
  {indirect indirect' : Table Handle (Tuple × Option κ)} {given given' : Handle → Prop}

/-- A reason stays one as long as what it is about stays. -/
theorem Entry.imp {x : Handle} {subscription : Subscription κ}
    (h : b.Entry direct indirect x subscription)
    (hdirect : direct'.get? x = direct.get? x) (hindirect : indirect'.get? x = indirect.get? x)
    (hbound : ∀ i, b.resolver.bound? i = some x → indirect'.get? i = indirect.get? i ∧
      b'.resolver.target? i = b.resolver.target? i ∧ b'.resolver.bound? i = some x) :
    b'.Entry direct' indirect' x subscription := by
  rcases h with hd | hi | ⟨hl, ht, hb⟩
  · exact .direct (hdirect.trans hd)
  · exact .interest (hindirect.trans hi)
  · obtain ⟨hl', ht', hb'⟩ := hbound _ hb
    exact .bound (hl'.trans hl) (ht'.trans ht) hb'

/-- Where nothing is bound, an entry is there because somebody registered under its handle. -/
theorem entry_iff_of_not_bound {x : Handle} {subscription : Subscription κ}
    (hapart : direct.get? x = none ∨ indirect.get? x = none)
    (hbound : ∀ j, b.resolver.bound? j ≠ some x) :
    b.Entry direct indirect x subscription ↔ (direct.get? x).or
      ((indirect.get? x).map fun r => .interest r.1.ignoringFresh) = some subscription := by
  constructor
  · intro hcase
    rcases hcase with hd | hi | ⟨-, -, hb⟩
    · rw [hd, Option.some_or]
    · rw [hapart.resolve_right (by simp [hi]), hi]
      rfl
    · exact absurd hb (hbound _)
  · intro hor
    rcases Option.or_eq_some_iff.1 hor with hd | ⟨-, hi⟩
    · exact .direct hd
    · obtain ⟨_, hlisted, rfl⟩ := Option.map_eq_some_iff.1 hi
      exact .interest hlisted

namespace Accounted

/-- Under a handle that a caller has there is what was registered under it. -/
theorem get?_of_given (h : b.Accounted direct indirect given) {x : Handle} (hx : given x) :
    b.registry.get? x
      = (direct.get? x).or ((indirect.get? x).map fun r => .interest r.1.ignoringFresh) := by
  ext subscription
  rw [h.entry_iff]
  exact entry_iff_of_not_bound (h.apart x) fun j hj => h.hidden j x hj hx

/-- The account depends on what the registry and the resolver answer. It stays right while callers
take further handles. -/
theorem of_answers (h : b.Accounted direct indirect given)
    (hregistration : ∀ i, b'.resolver.registration? i = b.resolver.registration? i)
    (htarget : ∀ i, b'.resolver.target? i = b.resolver.target? i)
    (hbound : ∀ i, b'.resolver.bound? i = b.resolver.bound? i)
    (hregistry : ∀ x, b'.registry.get? x = b.registry.get? x)
    (htaken : b.handles.taken ≤ b'.handles.taken)
    (hold : ∀ x, given x → given' x)
    (hnew : ∀ x : Nat, given' x → given x ∨ b.handles.taken < x ∧ x ≤ b'.handles.taken) :
    b'.Accounted direct indirect given' where
  registered i := (hregistration i).trans (h.registered i)
  entry_iff x subscription := by
    rw [hregistry, h.entry_iff]
    constructor
    · exact fun hx => hx.imp rfl rfl fun i hi => ⟨rfl, htarget i, (hbound i).trans hi⟩
    · exact fun hx => hx.imp rfl rfl fun i hi =>
        ⟨rfl, (htarget i).symm, (hbound i).symm.trans hi⟩
  bound_iff i := by rw [hbound, htarget, h.bound_iff]
  bound_inj i j x hi hj := h.bound_inj i j x ((hbound i).symm.trans hi) ((hbound j).symm.trans hj)
  hidden i x hi hx := by
    have hx' : b.resolver.bound? i = some x := (hbound i).symm.trans hi
    rcases hnew x hx with hx | ⟨hlt, -⟩
    · exact h.hidden i x hx' hx
    · exact absurd (h.bound_taken i x hx') (Nat.not_le_of_lt hlt)
  bound_taken i x hi := Nat.le_trans (h.bound_taken i x ((hbound i).symm.trans hi)) htaken
  given_taken x hx := by
    rcases hnew x hx with hx | ⟨-, hle⟩
    · exact Nat.le_trans (h.given_taken x hx) htaken
    · exact hle
  direct_given x subscription hx := hold x (h.direct_given x subscription hx)
  indirect_given x registration hx := hold x (h.indirect_given x registration hx)
  apart := h.apart

end Accounted

/-! ## One handle at a time -/

/-- From `b` to `b'` what is registered under one handle comes or goes. Nothing is bound for it
afterwards, and the entry of what was bound for it is dropped. -/
structure Registers (b b' : Bindings κ) (direct direct' : Table Handle (Subscription κ))
    (indirect indirect' : Table Handle (Tuple × Option κ)) (i : Handle) : Prop where
  direct : ∀ x ≠ i, direct'.get? x = direct.get? x
  indirect : ∀ x ≠ i, indirect'.get? x = indirect.get? x
  resolver : ∀ x ≠ i, b'.resolver.entries.get? x = b.resolver.entries.get? x
  registry : ∀ x ≠ i, b'.registry.get? x
    = if b.resolver.bound? i = some x then none else b.registry.get? x
  handles : b'.handles = b.handles
  entry : b'.registry.get? i = (direct'.get? i).or
    ((indirect'.get? i).map fun r => .interest r.1.ignoringFresh)
  registered : b'.resolver.registration? i
    = (indirect'.get? i).map fun r => (r.1.ignoringFresh, r.2)
  bound : b'.resolver.bound? i = none
  target : b'.resolver.target? i = none
  apart : direct'.get? i = none ∨ indirect'.get? i = none

namespace Registers

variable {i : Handle}

theorem bound?_of_ne (h : Registers b b' direct direct' indirect indirect' i) {j : Handle}
    (hj : j ≠ i) : b'.resolver.bound? j = b.resolver.bound? j := by
  rw [Resolver.bound?, h.resolver j hj, Resolver.bound?]

theorem target?_of_ne (h : Registers b b' direct direct' indirect indirect' i) {j : Handle}
    (hj : j ≠ i) : b'.resolver.target? j = b.resolver.target? j := by
  rw [Resolver.target?, h.resolver j hj, Resolver.target?]

/-- What is bound afterwards was bound before, for another handle than `i`. -/
theorem bound?_eq_some (h : Registers b b' direct direct' indirect indirect' i) {j x : Handle}
    (hj : b'.resolver.bound? j = some x) : j ≠ i ∧ b.resolver.bound? j = some x := by
  have hne : j ≠ i := by
    rintro rfl
    rw [h.bound] at hj
    cases hj
  exact ⟨hne, (h.bound?_of_ne hne).symm.trans hj⟩

/-- The entry that is dropped was there because something was bound under it. -/
theorem not_entry (h : Registers b b' direct direct' indirect indirect' i)
    (hb : b.Accounted direct indirect given) {x : Handle} (hx : x ≠ i)
    (hbound : b.resolver.bound? i = some x) (subscription : Subscription κ) :
    ¬ b'.Entry direct' indirect' x subscription := by
  intro hcase
  rcases hcase with hd | hi | ⟨-, -, hj⟩
  · exact hb.hidden i x hbound (hb.direct_given x _ ((h.direct x hx).symm.trans hd))
  · exact hb.hidden i x hbound (hb.indirect_given x _ ((h.indirect x hx).symm.trans hi))
  · obtain ⟨hne, hj⟩ := h.bound?_eq_some hj
    exact hne (hb.bound_inj _ i x hj hbound)

/-- All other entries keep their reason. -/
theorem entry_iff_entry (h : Registers b b' direct direct' indirect indirect' i) {x : Handle}
    (hx : x ≠ i) (hbound : b.resolver.bound? i ≠ some x) (subscription : Subscription κ) :
    b.Entry direct indirect x subscription ↔ b'.Entry direct' indirect' x subscription := by
  constructor
  · refine fun hcase => hcase.imp (h.direct x hx) (h.indirect x hx) fun j hj => ?_
    have hji : j ≠ i := by
      rintro rfl
      exact hbound hj
    exact ⟨h.indirect j hji, h.target?_of_ne hji, (h.bound?_of_ne hji).trans hj⟩
  · refine fun hcase => hcase.imp (h.direct x hx).symm (h.indirect x hx).symm fun j hj => ?_
    obtain ⟨hji, hj⟩ := h.bound?_eq_some hj
    exact ⟨(h.indirect j hji).symm, (h.target?_of_ne hji).symm, hj⟩

theorem get?_eq_some_iff (h : Registers b b' direct direct' indirect indirect' i)
    (hb : b.Accounted direct indirect given) (hgiven : given i) (x : Handle)
    (subscription : Subscription κ) :
    b'.registry.get? x = some subscription ↔ b'.Entry direct' indirect' x subscription := by
  by_cases hx : x = i
  · subst hx
    rw [h.entry]
    exact (entry_iff_of_not_bound h.apart fun j hj =>
      hb.hidden j x (h.bound?_eq_some hj).2 hgiven).symm
  · rw [h.registry x hx]
    split
    next hbound => exact iff_of_false (by simp) (h.not_entry hb hx hbound subscription)
    next hbound => exact (hb.entry_iff ..).trans (h.entry_iff_entry hx hbound subscription)

end Registers

/-- `b'` is `b` with an indirect subscription bound, under the next handle, to what `r` names. -/
structure Occupies (b b' : Bindings κ) (i : Handle) (callback : Option κ) (r : Reference) : Prop where
  registration : ∀ j, b'.resolver.registration? j = b.resolver.registration? j
  target : ∀ j, b'.resolver.target? j = if j = i then some r else b.resolver.target? j
  bound : ∀ j, b'.resolver.bound? j
    = if j = i then some b.handles.next else b.resolver.bound? j
  registry : ∀ x, b'.registry.get? x
    = if x = b.handles.next then some ⟨r.locator, .onWrite, callback⟩ else b.registry.get? x
  taken : b'.handles.taken = b.handles.next

theorem ne_next_of_le_taken {x : Nat} (hx : x ≤ b.handles.taken) : x ≠ b.handles.next := by
  rintro rfl
  exact Nat.not_succ_le_self b.handles.taken hx

namespace Occupies

variable {i : Handle} {p : Tuple} {c : Option κ} {r : Reference}

theorem le_taken (h : Occupies b b' i c r) {x : Nat} (hx : x ≤ b.handles.taken) :
    x ≤ b'.handles.taken := h.taken ▸ Nat.le_succ_of_le hx

/-- What is bound now is bound under the fresh handle, or was bound under a handle taken before. -/
theorem bound?_cases (h : Occupies b b' i c r) (hb : b.Accounted direct indirect given)
    {j x : Handle} (hj : b'.resolver.bound? j = some x) :
    j = i ∧ x = b.handles.next ∨ j ≠ i ∧ b.resolver.bound? j = some x ∧ x ≠ b.handles.next := by
  rw [h.bound] at hj
  split at hj
  next heq => exact .inl ⟨heq, (Option.some.inj hj).symm⟩
  next hne => exact .inr ⟨hne, hj, ne_next_of_le_taken (hb.bound_taken j x hj)⟩

/-- Under the fresh handle there is the entry of what is bound now. -/
theorem entry_next_iff (h : Occupies b b' i c r) (hb : b.Accounted direct indirect given)
    (hlive : indirect.get? i = some (p, c)) (subscription : Subscription κ) :
    b'.Entry direct indirect b.handles.next subscription
      ↔ subscription = ⟨r.locator, .onWrite, c⟩ := by
  constructor
  · intro hcase
    rcases hcase with hd | hi | ⟨hl, ht, hbound⟩
    · exact absurd rfl (ne_next_of_le_taken (hb.given_taken _ (hb.direct_given _ _ hd)))
    · exact absurd rfl (ne_next_of_le_taken (hb.given_taken _ (hb.indirect_given _ _ hi)))
    · rcases h.bound?_cases hb hbound with ⟨rfl, -⟩ | ⟨-, -, hne⟩
      · rw [h.target, if_pos rfl] at ht
        cases ht
        rw [hlive] at hl
        cases hl
        rfl
      · exact absurd rfl hne
  · rintro rfl
    exact .bound hlive ((h.target i).trans (if_pos rfl)) ((h.bound i).trans (if_pos rfl))

theorem entry_iff_entry (h : Occupies b b' i c r) (hb : b.Accounted direct indirect given)
    (hfree : b.resolver.bound? i = none) {x : Handle} (hx : x ≠ b.handles.next)
    (subscription : Subscription κ) :
    b.Entry direct indirect x subscription ↔ b'.Entry direct indirect x subscription := by
  constructor
  · refine fun hcase => hcase.imp rfl rfl fun j hj => ?_
    have hji : j ≠ i := by
      rintro rfl
      rw [hfree] at hj
      cases hj
    exact ⟨rfl, (h.target j).trans (if_neg hji), (h.bound j).trans ((if_neg hji).trans hj)⟩
  · refine fun hcase => hcase.imp rfl rfl fun j hj => ?_
    rcases h.bound?_cases hb hj with ⟨-, heq⟩ | ⟨hji, hj, -⟩
    · exact absurd heq hx
    · exact ⟨rfl, ((h.target j).trans (if_neg hji)).symm, hj⟩

end Occupies

namespace Accounted

/-- The account stays right if what is registered under one handle that callers have comes or goes. -/
theorem update (h : b.Accounted direct indirect given) {i : Handle} (hgiven : given i)
    (hreg : Registers b b' direct direct' indirect indirect' i) :
    b'.Accounted direct' indirect' given := by
  constructor
  case registered =>
    intro j
    by_cases hj : j = i
    · exact hj ▸ hreg.registered
    · rw [Resolver.registration?, hreg.resolver j hj, hreg.indirect j hj]
      exact h.registered j
  case entry_iff => exact hreg.get?_eq_some_iff h hgiven
  case bound_iff =>
    intro j
    by_cases hj : j = i
    · rw [hj, hreg.bound, hreg.target]
      rfl
    · rw [hreg.bound?_of_ne hj, hreg.target?_of_ne hj]
      exact h.bound_iff j
  case bound_inj =>
    exact fun j j' x hj hj' =>
      h.bound_inj j j' x (hreg.bound?_eq_some hj).2 (hreg.bound?_eq_some hj').2
  case hidden => exact fun j x hj => h.hidden j x (hreg.bound?_eq_some hj).2
  case bound_taken =>
    exact fun j x hj => hreg.handles ▸ h.bound_taken j x (hreg.bound?_eq_some hj).2
  case given_taken => exact hreg.handles ▸ h.given_taken
  case direct_given =>
    intro x subscription hx
    by_cases hxi : x = i
    · exact hxi ▸ hgiven
    · exact h.direct_given x _ ((hreg.direct x hxi).symm.trans hx)
  case indirect_given =>
    intro x registration hx
    by_cases hxi : x = i
    · exact hxi ▸ hgiven
    · exact h.indirect_given x _ ((hreg.indirect x hxi).symm.trans hx)
  case apart =>
    intro x
    by_cases hxi : x = i
    · exact hxi ▸ hreg.apart
    · rw [hreg.direct x hxi, hreg.indirect x hxi]
      exact h.apart x

/-- Binding one that is not bound keeps the account: its entry has a reason, and a handle beyond all
others. -/
theorem occupy (h : b.Accounted direct indirect given) {i : Handle} {p : Tuple} {c : Option κ}
    {r : Reference} (hlive : indirect.get? i = some (p, c)) (hfree : b.resolver.bound? i = none)
    (hocc : Occupies b b' i c r) : b'.Accounted direct indirect given := by
  constructor
  case registered => exact fun j => (hocc.registration j).trans (h.registered j)
  case entry_iff =>
    intro x subscription
    rw [hocc.registry]
    split
    next hx =>
      subst hx
      rw [hocc.entry_next_iff h hlive, Option.some_inj, eq_comm]
    next hx => exact (h.entry_iff ..).trans (hocc.entry_iff_entry h hfree hx subscription)
  case bound_iff =>
    intro j
    rw [hocc.bound, hocc.target]
    split
    next => rfl
    next => exact h.bound_iff j
  case bound_inj =>
    intro j j' x hj hj'
    rcases hocc.bound?_cases h hj with ⟨rfl, hx⟩ | ⟨-, hj, hx⟩ <;>
      rcases hocc.bound?_cases h hj' with ⟨rfl, hx'⟩ | ⟨-, hj', hx'⟩
    · rfl
    · exact absurd hx hx'
    · exact absurd hx' hx
    · exact h.bound_inj j j' x hj hj'
  case hidden =>
    intro j x hj hx
    rcases hocc.bound?_cases h hj with ⟨-, rfl⟩ | ⟨-, hj, -⟩
    · exact ne_next_of_le_taken (h.given_taken _ hx) rfl
    · exact h.hidden j x hj hx
  case bound_taken =>
    intro j x hj
    rcases hocc.bound?_cases h hj with ⟨-, rfl⟩ | ⟨-, hj, -⟩
    · exact Nat.le_of_eq hocc.taken.symm
    · exact hocc.le_taken (h.bound_taken j x hj)
  case given_taken => exact fun x hx => hocc.le_taken (h.given_taken x hx)
  case direct_given => exact h.direct_given
  case indirect_given => exact h.indirect_given
  case apart => exact h.apart

end Accounted

/-! ## Rebinding -/

/-- An indirect subscription loses what it is bound to. -/
def vacated (b : Bindings κ) (i : Handle) (e : Indirect κ) : Bindings κ :=
  (b.unbind e).file i { e with source := none, target := none, bound := none }

section Vacated

variable {i : Handle} {e : Indirect κ}

@[simp] theorem vacated_handles (b : Bindings κ) (i : Handle) (e : Indirect κ) :
    (b.vacated i e).handles = b.handles := unbind_handles b e

theorem get?_vacated (b : Bindings κ) (i : Handle) (e : Indirect κ) (j : Handle) :
    (b.vacated i e).resolver.entries.get? j
      = if j = i then some { e with source := none, target := none, bound := none }
        else b.resolver.entries.get? j :=
  (Table.get?_insert ..).trans (by rw [unbind_resolver])

theorem bound?_vacated (b : Bindings κ) (i : Handle) (e : Indirect κ) :
    (b.vacated i e).resolver.bound? i = none := by
  rw [Resolver.bound?, get?_vacated, if_pos rfl]
  rfl

theorem target?_vacated (b : Bindings κ) (i : Handle) (e : Indirect κ) :
    (b.vacated i e).resolver.target? i = none := by
  rw [Resolver.target?, get?_vacated, if_pos rfl]
  rfl

/-- A change of binding is what binding a vacated subscription comes to. -/
theorem registry_rebind_vacated (he : b.resolver.entries.get? i = some e)
    (source : Option Location) {target : Option Reference} (hne : e.target ≠ target) (x : Handle) :
    (b.rebind i source target).1.registry.get? x
      = if target.isSome ∧ x = b.handles.next then
          target.map fun r => ⟨r.locator, .onWrite, e.callback⟩
        else (b.vacated i e).registry.get? x := by
  rw [registry_rebind he, if_neg hne]
  exact congrArg _ (registry_unbind b e x).symm

theorem registration?_rebind_vacated (he : b.resolver.entries.get? i = some e)
    (source : Option Location) (target : Option Reference) (j : Handle) :
    (b.rebind i source target).1.resolver.registration? j
      = (b.vacated i e).resolver.registration? j := by
  rw [registration?_rebind, Resolver.registration?, Resolver.registration?, get?_vacated]
  split
  next hj => rw [hj, he]; rfl
  next => rfl

theorem bound?_rebind_vacated (he : b.resolver.entries.get? i = some e)
    (source : Option Location) {target : Option Reference} (hne : e.target ≠ target) (j : Handle) :
    (b.rebind i source target).1.resolver.bound? j
      = if j = i then target.map fun _ => b.handles.next
        else (b.vacated i e).resolver.bound? j := by
  rw [bound?_rebind, he, Resolver.bound?, Resolver.bound?, get?_vacated]
  split
  next => rw [Option.bind_some, if_neg hne]
  next => rfl

theorem target?_rebind_vacated (he : b.resolver.entries.get? i = some e)
    (source : Option Location) (target : Option Reference) (j : Handle) :
    (b.rebind i source target).1.resolver.target? j
      = if j = i then target else (b.vacated i e).resolver.target? j := by
  rw [target?_rebind, he, Resolver.target?, Resolver.target?, get?_vacated]
  split <;> rfl

theorem occupies_rebind (he : b.resolver.entries.get? i = some e) (source : Option Location)
    {r : Reference} (hne : e.target ≠ some r) :
    Occupies (b.vacated i e) (b.rebind i source (some r)).1 i e.callback r where
  registration := registration?_rebind_vacated he source _
  target := target?_rebind_vacated he source _
  bound j := by
    rw [bound?_rebind_vacated he source hne, Option.map_some, vacated_handles]
  registry x := by
    rw [registry_rebind_vacated he source hne]
    simp only [Option.isSome_some, true_and, Option.map_some, vacated_handles]
  taken := by rw [taken_bind b i source he hne, vacated_handles]

end Vacated

namespace Accounted

/-- Dropping what an indirect subscription is bound to keeps the account. -/
theorem vacate (h : b.Accounted direct indirect given) {i : Handle} {e : Indirect κ}
    (he : b.resolver.entries.get? i = some e) : (b.vacated i e).Accounted direct indirect given := by
  have hregistered := h.registered i
  rw [Resolver.registration?, he] at hregistered
  obtain ⟨r, hr, -⟩ := Option.map_eq_some_iff.1 hregistered.symm
  have hgiven := h.indirect_given i r hr
  have hbound : b.resolver.bound? i = e.bound := by
    rw [Resolver.bound?, he]
    rfl
  apply h.update hgiven
  constructor
  case direct => exact fun _ _ => rfl
  case indirect => exact fun _ _ => rfl
  case resolver => exact fun x hx => (get?_vacated b i e x).trans (if_neg hx)
  case registry =>
    intro x _
    rw [hbound]
    exact registry_unbind b e x
  case handles => exact vacated_handles b i e
  case entry =>
    refine (registry_unbind b e i).trans ((if_neg fun hi => ?_).trans (h.get?_of_given hgiven))
    exact h.hidden i i (hbound.trans hi) hgiven
  case registered =>
    rw [← hregistered, Resolver.registration?, get?_vacated, if_pos rfl]
    rfl
  case bound => exact bound?_vacated b i e
  case target => exact target?_vacated b i e
  case apart => exact h.apart i

/-- A change of binding drops the old entry and makes the new one. -/
theorem rebind_of_ne (h : b.Accounted direct indirect given) {i : Handle} {e : Indirect κ}
    (he : b.resolver.entries.get? i = some e) (source : Option Location)
    {target : Option Reference} (hne : e.target ≠ target) :
    (b.rebind i source target).1.Accounted direct indirect given := by
  cases target with
  | none =>
    refine (h.vacate he).of_answers (registration?_rebind_vacated he source none) (fun j => ?_)
      (fun j => ?_) (fun x => ?_) (vacated_handles b i e ▸ taken_le_rebind ..) (fun _ hx => hx)
      fun _ hx => .inl hx
    · rw [target?_rebind_vacated he]
      split
      next hj => rw [hj, target?_vacated]
      next => rfl
    · rw [bound?_rebind_vacated he source hne]
      split
      next hj => rw [hj, bound?_vacated]; rfl
      next => rfl
    · rw [registry_rebind_vacated he source hne, if_neg (by simp)]
  | some r =>
    obtain ⟨⟨p, c⟩, hlive, hpc⟩ : ∃ r, indirect.get? i = some r ∧
        (r.1.ignoringFresh, r.2) = (e.prototype, e.callback) := by
      refine Option.map_eq_some_iff.1 ((h.registered i).symm.trans ?_)
      rw [Resolver.registration?, he]
      rfl
    obtain ⟨-, rfl⟩ := Prod.mk.injEq .. ▸ hpc
    exact (h.vacate he).occupy hlive (bound?_vacated b i e) (occupies_rebind he source hne)

theorem rebind (h : b.Accounted direct indirect given) (i : Handle) (source : Option Location)
    (target : Option Reference) : (b.rebind i source target).1.Accounted direct indirect given := by
  cases he : b.resolver.entries.get? i with
  | none =>
    rw [Bindings.rebind]
    simpa [he] using h
  | some e =>
    by_cases heq : e.target = target
    · refine h.of_answers (registration?_rebind b i · source target) (fun j => ?_) (fun j => ?_)
        (fun x => ?_) (taken_le_rebind ..) (fun _ hx => hx) fun _ hx => .inl hx
      · rw [target?_rebind]
        split
        next hj => simp [hj, he, heq, Resolver.target?]
        next => rfl
      · rw [bound?_rebind]
        split
        next hj => simp [hj, he, heq, Resolver.bound?]
        next => rfl
      · rw [registry_rebind he, if_pos heq]
    · exact h.rebind_of_ne he source heq

theorem rebindAll (source : Option Location) (target : Option Reference) (hs : List Handle)
    (h : b.Accounted direct indirect given) :
    (Bindings.rebindAll source target b hs).1.Accounted direct indirect given := by
  induction hs generalizing b with
  | nil => exact h
  | cons i rest ih => exact ih (h.rebind i source target)

theorem retarget (h : b.Accounted direct indirect given) (t : Tuple) :
    (b.retarget t).1.Accounted direct indirect given := h.rebindAll ..

theorem release (h : b.Accounted direct indirect given) (l : Location) :
    (b.release l).1.Accounted direct indirect given := h.rebindAll ..

/-! ## Registrations -/

/-- What is not in the ledger of indirect subscriptions is not in the resolver. -/
theorem get?_eq_none (h : b.Accounted direct indirect given) {i : Handle}
    (hindirect : indirect.get? i = none) : b.resolver.entries.get? i = none := by
  have hregistered := h.registered i
  rw [hindirect] at hregistered
  exact Option.map_eq_none_iff.1 hregistered

theorem subscribe (h : b.Accounted direct indirect given) {i : Handle} (hgiven : given i)
    (hindirect : indirect.get? i = none)
    (subscription : Subscription κ) :
    Accounted { b with registry := b.registry.insert i subscription }
      (direct.insert i subscription) indirect given := by
  have hnew := h.get?_eq_none hindirect
  have hbound := Resolver.bound?_of_get?_eq_none hnew
  apply h.update hgiven
  constructor
  case direct => exact fun x hx => (Table.get?_insert ..).trans (if_neg hx)
  case indirect => exact fun _ _ => rfl
  case resolver => exact fun _ _ => rfl
  case registry =>
    intro x hx
    rw [if_neg (by simp [hbound])]
    exact (Table.get?_insert ..).trans (if_neg hx)
  case handles => rfl
  case entry => simp [Registry.get?, Registry.insert, hindirect]
  case registered => exact h.registered i
  case bound => exact hbound
  case target => exact Resolver.target?_of_get?_eq_none hnew
  case apart => exact .inr hindirect

/-- The interest of an indirect subscription is entered before it is bound to anything. -/
theorem enter (h : b.Accounted direct indirect given) {i : Handle} (hgiven : given i)
    (hdirect : direct.get? i = none) (hindirect : indirect.get? i = none)
    (prototype : Tuple) (callback : Option κ) :
    (Bindings.file { b with
      registry := b.registry.insert i (.interest prototype.ignoringFresh) } i
      ⟨prototype.ignoringFresh, none, none, none, callback⟩).Accounted
      direct (indirect.insert i (prototype, callback)) given := by
  have hbound := Resolver.bound?_of_get?_eq_none (h.get?_eq_none hindirect)
  apply h.update hgiven
  constructor
  case direct => exact fun _ _ => rfl
  case indirect => exact fun x hx => (Table.get?_insert ..).trans (if_neg hx)
  case resolver => exact fun x hx => (Table.get?_insert ..).trans (if_neg hx)
  case registry =>
    intro x hx
    rw [if_neg (by simp [hbound])]
    exact (Table.get?_insert ..).trans (if_neg hx)
  case handles => rfl
  case entry => simp [Bindings.file, Registry.get?, Registry.insert, hdirect]
  case registered => simp [Bindings.file, Resolver.registration?]
  case bound => simp [Bindings.file, Resolver.bound?]
  case target => simp [Bindings.file, Resolver.target?]
  case apart => exact .inl hdirect

theorem register (h : b.Accounted direct indirect given) {i : Handle} (hgiven : given i)
    (hdirect : direct.get? i = none) (hindirect : indirect.get? i = none)
    (prototype : Tuple) (callback : Option κ) (current : Option Tuple) :
    (b.register i prototype callback current).Accounted
      direct (indirect.insert i (prototype, callback)) given := by
  have henter := h.enter hgiven hdirect hindirect prototype callback
  cases current with
  | none => exact henter
  | some t => exact henter.rebind i _ _

theorem unregister (h : b.Accounted direct indirect given) {i : Handle} (hgiven : given i)
    (hok : b.unregister i = .ok b') :
    b'.Accounted (direct.erase i) (indirect.erase i) given := by
  rw [Bindings.unregister] at hok
  split at hok
  next => cases hok
  next e he =>
    cases hok
    apply h.update hgiven
    constructor
    case direct => exact fun x hx => (Table.get?_erase ..).trans (if_neg hx)
    case indirect => exact fun x hx => (Table.get?_erase ..).trans (if_neg hx)
    case resolver =>
      exact fun x hx => (Table.get?_erase ..).trans ((if_neg hx).trans (by rw [unbind_resolver]))
    case registry =>
      intro x hx
      rw [Resolver.bound?, he]
      exact (Table.get?_erase ..).trans ((if_neg hx).trans (registry_unbind b e x))
    case handles => exact unbind_handles b e
    case entry => simp [Registry.get?, Registry.erase, Table.get?_erase]
    case registered => simp [Resolver.registration?, Table.get?_erase]
    case bound => simp [Resolver.bound?, Table.get?_erase]
    case target => simp [Resolver.target?, Table.get?_erase]
    case apart => exact .inl (by simp [Table.get?_erase])

theorem erase (h : b.Accounted direct indirect given) {i : Handle} (hgiven : given i)
    (hnew : b.resolver.entries.get? i = none) :
    Accounted { b with registry := b.registry.erase i } (direct.erase i) (indirect.erase i) given := by
  have hbound := Resolver.bound?_of_get?_eq_none hnew
  apply h.update hgiven
  constructor
  case direct => exact fun x hx => (Table.get?_erase ..).trans (if_neg hx)
  case indirect => exact fun x hx => (Table.get?_erase ..).trans (if_neg hx)
  case resolver => exact fun _ _ => rfl
  case registry =>
    intro x hx
    rw [if_neg (by simp [hbound])]
    exact (Table.get?_erase ..).trans (if_neg hx)
  case handles => rfl
  case entry => simp [Registry.get?, Registry.erase, Table.get?_erase]
  case registered => simp [Resolver.registration?, hnew, Table.get?_erase]
  case bound => exact hbound
  case target => exact Resolver.target?_of_get?_eq_none hnew
  case apart => exact .inl (by simp [Table.get?_erase])

/-! ## Counting -/

/-- The reasons for entries lie under different handles. -/
theorem nodup_reasons (h : b.Accounted direct indirect given) :
    (direct.keys ++ indirect.keys ++ indirect.keys.filterMap b.resolver.bound?).Nodup := by
  refine List.nodup_append'.2 ⟨List.nodup_append'.2 ⟨direct.nodup_keys, indirect.nodup_keys, ?_⟩,
    indirect.nodup_keys.filterMap fun i j x hi hj => h.bound_inj i j x hi hj, ?_⟩
  · intro x hd hi
    obtain ⟨_, hd⟩ := (direct.mem_keys_iff_exists x).1 hd
    obtain ⟨_, hi⟩ := (indirect.mem_keys_iff_exists x).1 hi
    rcases h.apart x with hnone | hnone
    · exact nomatch hnone.symm.trans hd
    · exact nomatch hnone.symm.trans hi
  · intro x hx hb
    obtain ⟨i, -, hi⟩ := List.mem_filterMap.1 hb
    rw [List.mem_append, Table.mem_keys_iff_exists, Table.mem_keys_iff_exists] at hx
    rcases hx with ⟨_, hd⟩ | ⟨_, hi'⟩
    · exact h.hidden i x hi (h.direct_given x _ hd)
    · exact h.hidden i x hi (h.indirect_given x _ hi')

/-- There is an entry under a handle exactly if there is a reason for one. -/
theorem mem_keys_registry (h : b.Accounted direct indirect given) (x : Handle) :
    x ∈ b.registry.entries.keys
      ↔ x ∈ direct.keys ++ indirect.keys ++ indirect.keys.filterMap b.resolver.bound? := by
  rw [List.mem_append, List.mem_append, List.mem_filterMap, Table.mem_keys_iff_exists,
    Table.mem_keys_iff_exists, Table.mem_keys_iff_exists]
  constructor
  · rintro ⟨subscription, hx⟩
    rcases (h.entry_iff ..).1 hx with hd | hi | ⟨hl, -, hb⟩
    · exact .inl (.inl ⟨_, hd⟩)
    · exact .inl (.inr ⟨_, hi⟩)
    · exact .inr ⟨_, (indirect.mem_keys_iff_exists _).2 ⟨_, hl⟩, hb⟩
  · intro hcase
    rcases hcase with (⟨_, hd⟩ | ⟨⟨_, _⟩, hi⟩) | ⟨i, hmem, hb⟩
    · exact ⟨_, (h.entry_iff ..).2 (.direct hd)⟩
    · exact ⟨_, (h.entry_iff ..).2 (.interest hi)⟩
    · obtain ⟨⟨_, _⟩, hl⟩ := (indirect.mem_keys_iff_exists i).1 hmem
      have htarget := h.bound_iff i
      rw [hb, Option.isSome_some, eq_comm, Option.isSome_iff_exists] at htarget
      obtain ⟨r, ht⟩ := htarget
      exact ⟨_, (h.entry_iff ..).2 (.bound hl ht hb)⟩

/-- Each entry is counted once: under the handle of a subscription of either kind, or as the bound
entry of an indirect one. -/
theorem size_registry (h : b.Accounted direct indirect given) :
    b.registry.size = direct.size + indirect.size
      + indirect.keys.countP fun i => (b.resolver.target? i).isSome := by
  have hlength := ((List.perm_ext_iff_of_nodup (Table.nodup_keys _) h.nodup_reasons).2
    h.mem_keys_registry).length_eq
  rw [List.length_append, List.length_append, Table.length_keys, Table.length_keys,
    Table.length_keys, List.length_filterMap_eq_countP] at hlength
  simp only [h.bound_iff] at hlength
  exact hlength

theorem size_resolver (h : b.Accounted direct indirect given) : b.resolver.size = indirect.size := by
  have hperm : b.resolver.entries.keys.Perm indirect.keys := by
    refine (List.perm_ext_iff_of_nodup (Table.nodup_keys _) indirect.nodup_keys).2 fun x => ?_
    have hregistered := congrArg Option.isSome (h.registered x)
    rw [Resolver.registration?, Option.isSome_map, Option.isSome_map] at hregistered
    rw [Table.mem_keys_iff, Table.mem_keys_iff, Table.contains, Table.contains, hregistered]
  have hlength := hperm.length_eq
  rwa [Table.length_keys, Table.length_keys] at hlength

end Accounted

end Bindings

namespace Space

variable {s : Space κ} {direct : Table Handle (Subscription κ)}
  {indirect : Table Handle (Tuple × Option κ)} {given : Handle → Prop}

/-- Taking back a registration takes away what was entered for it, and nothing else. -/
theorem accounted_dropped (h : s.bindings.Accounted direct indirect given) {i : Handle}
    (hgiven : given i) :
    (s.dropped i).bindings.Accounted (direct.erase i) (indirect.erase i) given := by
  rcases s.dropped_cases i with ⟨b, hb, heq⟩ | ⟨hnew, heq⟩ <;> rw [heq]
  · exact h.unregister hgiven hb
  · exact h.erase hgiven hnew

end Space

namespace Session

variable [Callback κ] {s : Session κ}

/-- The ledger accounts for all that the registry holds, and no handle is used a second time. -/
structure Accounted (s : Session κ) : Prop where
  bindings : s.space.bindings.Accounted s.ledger.direct s.ledger.indirect s.Given
  used : ∀ h, s.Live h → h ∈ s.ledger.used

theorem accounted_start (localId : Owner) (policy : PayloadCase) (keepsListing : Bool)
    (handles : Allocator) :
    (start localId policy keepsListing handles : Session κ).Accounted where
  bindings := by
    constructor
    case registered => exact fun _ => rfl
    case entry_iff =>
      intro x subscription
      refine ⟨fun h => (nomatch h), ?_⟩
      intro hcase
      rcases hcase with hd | hi | ⟨-, -, hb⟩
      · cases hd
      · cases hi
      · cases hb
    case bound_iff => exact fun _ => rfl
    case bound_inj => exact fun _ _ _ h => nomatch h
    case hidden => exact fun _ _ h => nomatch h
    case bound_taken => exact fun _ _ h => nomatch h
    case given_taken =>
      intro x hcase
      rcases hcase with hx | hx
      · have hlt := (List.mem_range'_1.1 hx).2
        rw [Nat.add_comm] at hlt
        exact Nat.le_of_lt_succ hlt
      · cases hx
    case direct_given => exact fun _ _ h => nomatch h
    case indirect_given => exact fun _ _ h => nomatch h
    case apart => exact fun _ => .inl rfl
  used := by
    intro x hcase
    rcases hcase with h | h
    · cases h
    · cases h

theorem accounted_dispatch {space : Space κ} {ledger : Ledger κ} (mode : Mode) (t : Tuple)
    (h : space.bindings.Accounted ledger.direct ledger.indirect (Given ⟨space, ledger⟩)) :
    (space.dispatch mode t).1.bindings.Accounted ledger.direct ledger.indirect
      (Given ⟨(space.dispatch mode t).1, ledger⟩) := by
  have htaken := space.registry.taken_le_dispatch space.handles mode t
  have hnew := fun x => space.registry.mem_taken_dispatch space.handles mode t (h := x)
  refine h.of_answers (fun _ => rfl) (fun _ => rfl) (fun _ => rfl) (fun _ => rfl) htaken ?_ ?_
  · intro x hcase
    rcases hcase with hx | hx
    · exact .inl hx
    · refine .inr ?_
      simp only [Space.dispatch, List.flatMap_append, List.mem_append]
      exact .inl hx
  · intro x hcase
    rcases hcase with hx | hx
    · exact .inl (.inl hx)
    · simp only [Space.dispatch, List.flatMap_append, List.mem_append] at hx
      rcases hx with hx | hx
      · exact .inl (.inr hx)
      · exact .inr ((hnew x).1 hx)

theorem accounted_notice {space : Space κ} {ledger : Ledger κ} (c : Change)
    (h : space.bindings.Accounted ledger.direct ledger.indirect (Given ⟨space, ledger⟩)) :
    (space.notice c).bindings.Accounted ledger.direct ledger.indirect
      (Given ⟨space.notice c, ledger⟩) := by
  rw [Space.notice]
  split
  next =>
    rw [Space.afterWrite_fst]
    exact accounted_dispatch .onWrite c.tuple (h.retarget c.tuple)
  next => exact (accounted_dispatch .onDelete c.tuple h).release c.place

theorem accounted_becomes {space space' : Space κ} {ledger : Ledger κ} {changes : List Change}
    (hbecomes : space.Becomes changes space')
    (h : space.bindings.Accounted ledger.direct ledger.indirect (Given ⟨space, ledger⟩)) :
    space'.bindings.Accounted ledger.direct ledger.indirect (Given ⟨space', ledger⟩) :=
  hbecomes.invariant
    (I := fun s _ => s.bindings.Accounted ledger.direct ledger.indirect (Given ⟨s, ledger⟩))
    (fun _ _ _ h => h) (fun _ _ c _ _ h => accounted_notice c h) h

theorem Accounted.unused (h : s.Accounted) {i : Handle} (hi : i ∉ s.ledger.used) :
    s.ledger.direct.get? i = none ∧ s.ledger.indirect.get? i = none := by
  have hlive : ¬ s.Live i := fun hlive => hi (h.used i hlive)
  simpa [Live, Table.contains] using hlive

theorem Accounted.isEmpty_of_not_live (h : s.Accounted) (hnone : ∀ i, ¬ s.Live i) :
    s.space.registry.isEmpty = true ∧ s.space.resolver.isEmpty = true := by
  have hdirect (i : Handle) : s.ledger.direct.get? i = none := by
    refine Option.eq_none_iff_forall_not_mem.2 fun _ hd => hnone i (.inl ?_)
    exact Option.isSome_iff_exists.2 ⟨_, hd⟩
  have hindirect (i : Handle) : s.ledger.indirect.get? i = none := by
    refine Option.eq_none_iff_forall_not_mem.2 fun _ hi => hnone i (.inr ?_)
    exact Option.isSome_iff_exists.2 ⟨_, hi⟩
  refine ⟨Table.isEmpty_of_get? fun x => ?_, Table.isEmpty_of_get? fun x => ?_⟩
  · refine Option.eq_none_iff_forall_not_mem.2 fun subscription hx => ?_
    rcases (h.bindings.entry_iff x subscription).1 hx with hd | hi | ⟨hl, -, -⟩
    · exact nomatch (hdirect x).symm.trans hd
    · exact nomatch (hindirect x).symm.trans hi
    · exact nomatch (hindirect _).symm.trans hl
  · have hregistered := h.bindings.registered x
    rw [hindirect] at hregistered
    exact Option.map_eq_none_iff.1 hregistered

/-- Callers that use each handle once cannot bring the account into disorder. -/
theorem Accounted.step (h : s.Accounted) (hs : s.space.store.Sound) {op : Operation κ}
    (hop : s.Allows op) : (s.step op).Accounted := by
  cases op with
  | access a =>
    obtain ⟨changes, hbecomes, -⟩ := Space.becomes_access hs a
    exact ⟨accounted_becomes hbecomes h.bindings, h.used⟩
  | allocate =>
    refine ⟨h.bindings.of_answers (fun _ => rfl) (fun _ => rfl) (fun _ => rfl) (fun _ => rfl)
      (Nat.le_succ _) ?_ ?_, h.used⟩
    · exact fun x hx => hx.imp_left (List.mem_cons_of_mem _)
    · intro x hcase
      rcases hcase with hx | hx
      · rcases List.mem_cons.1 hx with rfl | hx
        · exact .inr ⟨Nat.lt_succ_self _, Nat.le_refl _⟩
        · exact .inl (.inl hx)
      · exact .inl (.inr hx)
  | subscribe i subscription =>
    refine ⟨h.bindings.subscribe hop.1 (h.unused hop.2).2 .., fun x hx => ?_⟩
    by_cases hxi : x = i
    · exact hxi ▸ List.mem_cons_self
    · refine List.mem_cons_of_mem _ (h.used x (hx.imp_left fun hd => ?_))
      simpa [Session.step, Table.contains, Table.get?_insert, hxi] using hd
  | subscribeIndirect i prototype callback =>
    obtain ⟨hdirect, hindirect⟩ := h.unused hop.2
    refine ⟨h.bindings.register hop.1 hdirect hindirect .., fun x hx => ?_⟩
    by_cases hxi : x = i
    · exact hxi ▸ List.mem_cons_self
    · refine List.mem_cons_of_mem _ (h.used x (hx.imp_right fun hd => ?_))
      simpa [Session.step, Table.contains, Table.get?_insert, hxi] using hd
  | unsubscribe i =>
    exact ⟨s.given_unsubscribe i ▸ Space.accounted_dropped h.bindings hop,
      fun x hx => h.used x ((s.live_unsubscribe_iff i x).1 hx).2⟩

theorem Reachable.accounted (h : Reachable Allows s) : s.Accounted :=
  (h.invariant (I := fun s => s.space.Coherent ∧ s.Accounted)
    (fun _ _ _ _ => ⟨coherent_start .., accounted_start ..⟩)
    fun _ op hs hop => ⟨coherent_step hs.1 op, hs.2.step hs.1.sound hop⟩).2

theorem unsubscribeAll_spec (h : Reachable Allows s) {hs : List Handle}
    (hgiven : ∀ i ∈ hs, s.Given i) : Reachable Allows (s.unsubscribeAll hs) ∧
      ∀ i, (s.unsubscribeAll hs).Live i → s.Live i ∧ i ∉ hs := by
  induction hs generalizing s with
  | nil => exact ⟨h, fun i hi => ⟨hi, List.not_mem_nil⟩⟩
  | cons i rest ih =>
    have hlater : ∀ j ∈ rest, (s.step (.unsubscribe i)).Given j := fun j hj =>
      s.given_unsubscribe i ▸ hgiven j (List.mem_cons_of_mem _ hj)
    have hnext : Reachable Allows (s.step (.unsubscribe i)) := h.step (hgiven i List.mem_cons_self)
    obtain ⟨hreach, hlive⟩ := ih hnext hlater
    refine ⟨hreach, fun j hj => ?_⟩
    obtain ⟨hj, hrest⟩ := hlive j hj
    obtain ⟨hne, hj⟩ := (s.live_unsubscribe_iff i j).1 hj
    exact ⟨hj, fun hmem => (List.mem_cons.1 hmem).elim hne hrest⟩

/-- The registry holds what callers subscribed to, an interest for each indirect subscription and an
entry for each that is bound, which no caller can name. Once everything is taken back nothing is left. -/
theorem Reachable.registry_exact (h : Reachable Allows s) :
    (∀ x subscription, s.space.registry.get? x = some subscription ↔
      s.space.bindings.Entry s.ledger.direct s.ledger.indirect x subscription) ∧
    (∀ i, s.ledger.indirect.contains i = true →
      s.space.indirectTarget i = none ∧ s.space.resolver.bound? i = none ∨
      ∃ r x, s.space.indirectTarget i = some r ∧ s.space.resolver.bound? i = some x ∧
        ¬ s.Given x ∧ ¬ s.Live x ∧ ∀ j, s.space.resolver.bound? j = some x → j = i) ∧
    s.space.stats.subscriptions = s.ledger.direct.size + s.ledger.indirect.size
      + s.ledger.indirect.keys.countP (fun i => (s.space.indirectTarget i).isSome) ∧
    s.space.stats.indirectSubscriptions = s.ledger.indirect.size ∧
    ∀ hs : List Handle, (∀ i, s.Live i → i ∈ hs) → (∀ i ∈ hs, s.Given i) →
      (s.unsubscribeAll hs).space.registry.isEmpty = true ∧
      (s.unsubscribeAll hs).space.resolver.isEmpty = true := by
  have hb := h.accounted.bindings
  refine ⟨hb.entry_iff, fun i _ => ?_, hb.size_registry, hb.size_resolver, fun hs hlive hgiven => ?_⟩
  · have hiff : (s.space.resolver.bound? i).isSome = (s.space.indirectTarget i).isSome :=
      hb.bound_iff i
    cases hbound : s.space.resolver.bound? i with
    | none =>
      rw [hbound, Option.isSome_none, eq_comm, Option.isSome_eq_false_iff,
        Option.isNone_iff_eq_none] at hiff
      exact .inl ⟨hiff, rfl⟩
    | some x =>
      rw [hbound, Option.isSome_some, eq_comm, Option.isSome_iff_exists] at hiff
      obtain ⟨r, hr⟩ := hiff
      have hhidden := hb.hidden i x hbound
      refine .inr ⟨r, x, hr, rfl, hhidden, fun hlive => ?_, fun j hj => hb.bound_inj j i x hj hbound⟩
      rcases hlive with hd | hi
      · obtain ⟨_, hd⟩ := Option.isSome_iff_exists.1 hd
        exact hhidden (hb.direct_given x _ hd)
      · obtain ⟨_, hi⟩ := Option.isSome_iff_exists.1 hi
        exact hhidden (hb.indirect_given x _ hi)
  · obtain ⟨hreach, hrest⟩ := unsubscribeAll_spec h hgiven
    have hnone (i : Handle) : ¬ (s.unsubscribeAll hs).Live i := fun hi =>
      (hrest i hi).2 (hlive i (hrest i hi).1)
    exact hreach.accounted.isEmpty_of_not_live hnone

/-- Two callers, one of whom follows a meta tuple that names the key of the other. -/
def followed : Session String :=
  let m : Location := ⟨1, ⟨[some "m"]⟩⟩
  let x : Reference := ⟨⟨1, ⟨[some "x"]⟩⟩, rfl⟩
  (start 1 .insensitive true {}).run
    [.allocate, .allocate, .subscribe 1 ⟨x.locator, .onDelete, some "gone"⟩,
      .subscribeIndirect 2 m.pattern (some "moved"),
      .access (.write (Reference.metaTuple m (some x)) ⟨1000, 0⟩)]

theorem followed_registry_exact : Reachable Allows followed ∧
    followed.space.stats.subscriptions = 3 ∧
    (followed.unsubscribeAll [1, 2]).space.registry.isEmpty = true := by
  have hreach : Reachable Allows followed :=
    ⟨1, .insensitive, true, {}, runs_run (by decide +kernel)⟩
  obtain ⟨-, -, hsize, -, hempty⟩ := Reachable.registry_exact hreach
  refine ⟨hreach, hsize.trans (by decide +kernel), (hempty [1, 2] ?_ (by decide +kernel)).1⟩
  have hdirect : followed.ledger.direct.keys = [1] := by decide +kernel
  have hindirect : followed.ledger.indirect.keys = [2] := by decide +kernel
  intro i hcase
  rcases hcase with hi | hi
  · rw [← Table.mem_keys_iff, hdirect] at hi
    exact List.mem_cons.2 (.inl (List.mem_singleton.1 hi))
  · rw [← Table.mem_keys_iff, hindirect] at hi
    exact List.mem_cons_of_mem _ hi

end Session

end Blackboard
