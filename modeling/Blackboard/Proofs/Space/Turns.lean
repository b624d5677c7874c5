import Mathlib.Data.List.Pairwise
import Blackboard.Proofs.Space.Delivery
import Blackboard.Proofs.Space.Standing

/-!
# The order in which callbacks run

The registry is walked by handle, and callers that register in the order in which they take their
handles are served in that order as long as each is served under its own handle. An indirect
subscription is not: it is served under the handle of its bound entry, which is taken when it is
bound. So it may be overtaken by what was registered after it, and never overtakes what was
registered before.
-/

namespace Blackboard

variable {κ : Type}

/-- The handle under which the registry serves what a caller registered: that of the bound entry for
an indirect subscription, its own for all others. -/
def Resolver.servedAs (r : Resolver κ) (i : Handle) : Handle := (r.bound? i).getD i

theorem pairwise_iff_of_sorted {xs : List Handle} (hxs : xs.Pairwise (· < ·))
    (R : Handle → Handle → Prop) : xs.Pairwise R ↔ ∀ i ∈ xs, ∀ j ∈ xs, i < j → R i j := by
  constructor
  · intro hR i hi j hj hlt
    let S (i j : Handle) : Prop := (i < j → R i j) ∧ (j < i → R j i)
    have : Std.Symm S := ⟨fun _ _ h => h.symm⟩
    have hS : xs.Pairwise S := (hxs.and hR).imp fun h =>
      ⟨fun _ => h.2, fun hlt => absurd h.1 (Nat.lt_asymm hlt)⟩
    exact (hS.forall hi hj (Nat.ne_of_lt hlt)).1 hlt
  · exact fun hall => hxs.imp_of_mem fun hi hj hlt => hall _ hi _ hj hlt

namespace Registry

variable [Callback κ]

omit [Callback κ] in
theorem sorted_matching (r : Registry κ) (mode : Mode) (t : Tuple) :
    (r.matching mode t).Pairwise fun x y => compare x.1 y.1 = .lt := by
  refine List.Pairwise.filterMap _ ?_ r.entries.sorted
  intro e other hlt x hx y hy
  simp only [Option.ite_none_right_eq_some, Option.map_eq_some_iff] at hx hy
  obtain ⟨-, _, -, rfl⟩ := hx
  obtain ⟨-, _, -, rfl⟩ := hy
  exact hlt

theorem pairs_dispatch (r : Registry κ) (a : Allocator) (mode : Mode) (t : Tuple) :
    (r.dispatch a mode t).2.2.map (fun f => (f.handle, f.callback)) = r.matching mode t :=
  runAll_pairs ..

end Registry

namespace Bindings

namespace Accounted

variable {b b' : Bindings κ} {direct : Table Handle (Subscription κ)}
  {indirect : Table Handle (Tuple × Option κ)} {given : Handle → Prop}

/-- Only a subscription that was not taken back is bound. -/
theorem listed_of_bound (h : b.Accounted direct indirect given) {i x : Handle}
    (hi : b.resolver.bound? i = some x) : ∃ registration, indirect.get? i = some registration := by
  obtain ⟨e, he, -⟩ := Option.bind_eq_some_iff.1 hi
  have hregistered := h.registered i
  rw [Resolver.registration?, he] at hregistered
  obtain ⟨registration, hlisted, -⟩ := Option.map_eq_some_iff.1 hregistered.symm
  exact ⟨registration, hlisted⟩

theorem servedAs_of_direct (h : b.Accounted direct indirect given) {i : Handle}
    {subscription : Subscription κ} (hd : direct.get? i = some subscription) :
    b.resolver.servedAs i = i := by
  rw [Resolver.servedAs]
  cases hi : b.resolver.bound? i with
  | none => rfl
  | some x =>
    obtain ⟨registration, hlisted⟩ := h.listed_of_bound hi
    rcases h.apart i with hnone | hnone
    · cases hnone.symm.trans hd
    · cases hnone.symm.trans hlisted

/-- No two registrations are served under the same handle. -/
theorem servedAs_inj (h : b.Accounted direct indirect given) {i j : Handle} (hi : given i)
    (hj : given j) (heq : b.resolver.servedAs i = b.resolver.servedAs j) : i = j := by
  cases hbound : b.resolver.bound? i with
  | none =>
    cases hbound' : b.resolver.bound? j with
    | none => simpa [Resolver.servedAs, hbound, hbound'] using heq
    | some y =>
      obtain rfl : i = y := by simpa [Resolver.servedAs, hbound, hbound'] using heq
      exact absurd hi (h.hidden j i hbound')
  | some x =>
    cases hbound' : b.resolver.bound? j with
    | none =>
      obtain rfl : x = j := by simpa [Resolver.servedAs, hbound, hbound'] using heq
      exact absurd hj (h.hidden i x hbound)
    | some y =>
      obtain rfl : x = y := by simpa [Resolver.servedAs, hbound, hbound'] using heq
      exact h.bound_inj i j x hbound hbound'

end Accounted

/-- What is bound is bound under a handle that was taken after that of the subscription. -/
def Late (b : Bindings κ) : Prop := ∀ i x, b.resolver.bound? i = some x → i < x

theorem Late.steady {named : Handle → Prop} {b b' : Bindings κ} (h : b.Late)
    (hsteady : Steady named b b')
    (htaken : ∀ i x, b'.resolver.bound? i = some x → i ≤ b.handles.taken) : b'.Late := by
  intro i x hi
  rcases hsteady.bound i x hi with hold | ⟨hlt, -⟩
  · exact h i x hold
  · exact Nat.lt_of_le_of_lt (htaken i x hi) hlt

theorem Late.le_servedAs {b : Bindings κ} (h : b.Late) (i : Handle) :
    i ≤ b.resolver.servedAs i := by
  rw [Resolver.servedAs]
  cases hi : b.resolver.bound? i with
  | none => exact Nat.le_refl i
  | some x => exact Nat.le_of_lt (h i x hi)

end Bindings

namespace Session

open Bindings

/-- The callback that a value stored at a place is to be shown to, of what was registered under a
handle. -/
def concerned (s : Session κ) (place : Location) (t : Tuple) (i : Handle) : Option κ :=
  match s.ledger.direct.get? i with
  | some subscription =>
    if Registry.concerns s.space.registry.policy .onWrite t subscription then subscription.callback
    else none
  | none => (s.ledger.indirect.get? i).bind fun registration =>
    if (s.space.indirectTarget i).map (·.location) = some place then registration.2 else none

/-- The callbacks that a value stored at a place is to be shown to, in the order of their
registration, each with the handle it is served under. -/
def owed (s : Session κ) (place : Location) (t : Tuple) : List (Handle × κ) :=
  s.ledger.used.reverse.filterMap fun i =>
    (s.concerned place t i).map (s.space.resolver.servedAs i, ·)

/-- An indirect subscription to which a value is to be shown was bound after something registered
later had its place in the registry, and the value is to be shown to that as well. -/
def Overtaken (s : Session κ) (place : Location) (t : Tuple) : Prop :=
  ∃ i ∈ s.ledger.used, ∃ j ∈ s.ledger.used, i < j ∧
    (∃ x ∈ s.space.resolver.bound? i, s.space.resolver.servedAs j < x) ∧
    (s.concerned place t i).isSome ∧ (s.concerned place t j).isSome

instance (s : Session κ) (place : Location) (t : Tuple) : Decidable (s.Overtaken place t) :=
  inferInstanceAs (Decidable (∃ i ∈ _, ∃ j ∈ _, _ ∧ (∃ x ∈ _, _) ∧ _ ∧ _))

variable [Callback κ] {s : Session κ} {a : Access} {place : Location} {t u : Tuple} {i : Handle}
  {callback : κ}

/-- Callers register in the order in which they took their handles. -/
def InTurn (s : Session κ) : Operation κ → Prop
  | .subscribe h _ | .subscribeIndirect h _ _ => s.Given h ∧ ∀ i ∈ s.ledger.used, i < h
  | op => s.Allows op

instance (s : Session κ) : DecidablePred s.InTurn
  | .access _ | .allocate => inferInstanceAs (Decidable True)
  | .subscribe h _ | .subscribeIndirect h _ _ =>
    inferInstanceAs (Decidable (s.Given h ∧ ∀ i ∈ s.ledger.used, i < h))
  | .unsubscribe h => inferInstanceAs (Decidable (s.Given h))

theorem InTurn.allows {op : Operation κ} (h : s.InTurn op) : s.Allows op := by
  cases op with
  | subscribe x _ => exact ⟨h.1, fun hused => Nat.lt_irrefl x (h.2 x hused)⟩
  | subscribeIndirect x _ _ => exact ⟨h.1, fun hused => Nat.lt_irrefl x (h.2 x hused)⟩
  | _ => exact h

/-! ## Registrations and their entries -/

omit [Callback κ] in
theorem concerned_live (h : s.concerned place t i = some callback) : s.Live i := by
  rw [concerned] at h
  cases hd : s.ledger.direct.get? i with
  | some subscription => exact .inl (Option.isSome_iff_exists.2 ⟨_, hd⟩)
  | none =>
    rw [hd] at h
    obtain ⟨registration, hi, -⟩ := Option.bind_eq_some_iff.1 h
    exact .inr (Option.isSome_iff_exists.2 ⟨_, hi⟩)

theorem Accounted.given_of_live (h : s.Accounted) (hi : s.Live i) : s.Given i := by
  rcases hi with hd | hi
  · obtain ⟨_, hd⟩ := Option.isSome_iff_exists.1 hd
    exact h.bindings.direct_given i _ hd
  · obtain ⟨_, hi⟩ := Option.isSome_iff_exists.1 hi
    exact h.bindings.indirect_given i _ hi

/-- Something that is bound was registered under a handle that was taken before. -/
theorem Accounted.le_taken_of_bound (h : s.Accounted) {op : Operation κ} (hop : s.Allows op)
    (hafter : (s.step op).Accounted) {x : Handle}
    (hx : (s.step op).space.bindings.resolver.bound? i = some x) :
    i ≤ s.space.bindings.handles.taken := by
  obtain ⟨registration, hlisted⟩ := hafter.bindings.listed_of_bound hx
  apply h.bindings.given_taken
  cases op with
  | access a => exact h.bindings.indirect_given i _ hlisted
  | allocate => exact h.bindings.indirect_given i _ hlisted
  | subscribe j subscription => exact h.bindings.indirect_given i _ hlisted
  | subscribeIndirect j prototype callback =>
    rw [Session.step, Table.get?_insert] at hlisted
    split at hlisted
    next heq => exact heq ▸ hop.1
    next => exact h.bindings.indirect_given i _ hlisted
  | unsubscribe j =>
    rw [Session.step, Table.get?_erase] at hlisted
    split at hlisted
    next => cases hlisted
    next => exact h.bindings.indirect_given i _ hlisted

theorem Reachable.late (h : Reachable Allows s) : s.space.bindings.Late := by
  refine (h.invariant (I := fun s => s.space.Coherent ∧ s.Accounted ∧ s.space.bindings.Late)
    (fun _ _ _ _ => ⟨coherent_start .., accounted_start .., fun _ _ h => nomatch h⟩) ?_).2.2
  intro s op hs hop
  obtain ⟨hc, haccounted, hlate⟩ := hs
  have hafter := haccounted.step hc.sound hop
  exact ⟨coherent_step hc op, hafter, hlate.steady (s.steady_step hc.sound op)
    fun i x hx => haccounted.le_taken_of_bound hop hafter hx⟩

theorem Reachable.sorted_used (h : Reachable InTurn s) :
    s.ledger.used.reverse.Pairwise (· < ·) := by
  refine List.pairwise_reverse.2 (h.invariant
    (I := fun s => s.ledger.used.Pairwise fun i j => j < i) (fun _ _ _ _ => .nil) ?_)
  intro s op hs hop
  cases op with
  | subscribe x _ => exact List.pairwise_cons.2 ⟨hop.2, hs⟩
  | subscribeIndirect x _ _ => exact List.pairwise_cons.2 ⟨hop.2, hs⟩
  | _ => exact hs

theorem Accounted.concerned_iff_of_direct (h : s.Accounted) {subscription : Subscription κ}
    (hd : s.ledger.direct.get? i = some subscription) :
    s.concerned place t i = some callback ↔ (s.space.resolver.servedAs i, callback)
      ∈ s.space.registry.matching .onWrite t := by
  have hb := h.bindings
  have hserved : s.space.resolver.servedAs i = i := hb.servedAs_of_direct hd
  have hentry : s.space.registry.get? i = some subscription := (hb.entry_iff ..).2 (.direct hd)
  rw [Registry.mem_matching_iff, hserved, hentry, concerned, hd]
  simp [Option.ite_none_right_eq_some]

theorem Accounted.concerned_iff_of_indirect (h : s.Accounted) (ht : t.location = .ok place)
    {prototype : Tuple} {registered : Option κ}
    (hi : s.ledger.indirect.get? i = some (prototype, registered)) :
    s.concerned place t i = some callback ↔ (s.space.resolver.servedAs i, callback)
      ∈ s.space.registry.matching .onWrite t := by
  have hb := h.bindings
  have hdirect := (hb.apart i).resolve_right (by simp [hi])
  have hiff : (s.space.resolver.bound? i).isSome = (s.space.indirectTarget i).isSome :=
    hb.bound_iff i
  rw [Registry.mem_matching_iff, concerned, hdirect, hi, Option.bind_some]
  cases hbound : s.space.resolver.bound? i with
  | none =>
    -- Only the interest is entered, which has no callback.
    have htarget : s.space.indirectTarget i = none := by
      rw [hbound, Option.isSome_none, eq_comm, Option.isSome_eq_false_iff] at hiff
      exact Option.isNone_iff_eq_none.1 hiff
    have hentry : s.space.registry.get? i = some (.interest prototype.ignoringFresh) :=
      (hb.entry_iff ..).2 (.interest hi)
    simp [Resolver.servedAs, hbound, htarget, hentry, Subscription.interest]
  | some x =>
    obtain ⟨r, hr⟩ : ∃ r, s.space.indirectTarget i = some r := by
      rw [hbound, Option.isSome_some, eq_comm] at hiff
      exact Option.isSome_iff_exists.1 hiff
    have hentry : s.space.registry.get? x = some ⟨r.locator, .onWrite, registered⟩ :=
      (hb.entry_iff ..).2 (.bound hi hr hbound)
    have hcovers : Registry.concerns s.space.registry.policy .onWrite t
        ⟨r.locator, .onWrite, registered⟩ = true ↔ r.location = place := by
      rw [Registry.concerns, decide_eq_true rfl, Bool.true_and]
      exact (Location.covers_pattern_iff_eq r.concrete ht).trans eq_comm
    simp [Resolver.servedAs, hbound, hr, hentry, hcovers]

/-- The entries whose callbacks a stored value runs are those of the registrations it concerns. -/
theorem Accounted.mem_owed_iff (h : s.Accounted) (ht : t.location = .ok place)
    (e : Handle × κ) : e ∈ s.owed place t ↔ e ∈ s.space.registry.matching .onWrite t := by
  have hb := h.bindings
  have hconcerned {i : Handle} (hi : s.Live i) (callback : κ) :
      s.concerned place t i = some callback ↔ (s.space.resolver.servedAs i, callback)
        ∈ s.space.registry.matching .onWrite t := by
    rcases hi with hd | hi
    · obtain ⟨_, hd⟩ := Option.isSome_iff_exists.1 hd
      exact h.concerned_iff_of_direct hd
    · obtain ⟨_, hi⟩ := Option.isSome_iff_exists.1 hi
      exact h.concerned_iff_of_indirect ht hi
  obtain ⟨x, callback⟩ := e
  constructor
  · intro howed
    obtain ⟨i, -, hi⟩ := List.mem_filterMap.1 howed
    obtain ⟨_, hi, heq⟩ := Option.map_eq_some_iff.1 hi
    exact heq ▸ (hconcerned (concerned_live hi) _).1 hi
  · intro hmatching
    obtain ⟨subscription, hget, -, hcallback⟩ := Registry.mem_matching_iff.1 hmatching
    obtain ⟨i, hi, rfl⟩ : ∃ i, s.Live i ∧ s.space.resolver.servedAs i = x := by
      rcases (hb.entry_iff x subscription).1 hget with hd | hi | ⟨hl, -, hbound⟩
      · exact ⟨x, .inl (Option.isSome_iff_exists.2 ⟨_, hd⟩), hb.servedAs_of_direct hd⟩
      · cases hcallback
      · refine ⟨_, .inr (Option.isSome_iff_exists.2 ⟨_, hl⟩), ?_⟩
        exact congrArg (Option.getD · _) hbound
    refine List.mem_filterMap.2 ⟨i, List.mem_reverse.2 (h.used i hi), ?_⟩
    rw [(hconcerned hi callback).2 hmatching]
    rfl

/-! ## In turn or overtaken -/

theorem Accounted.servedAs_ne (h : s.Accounted) {i j : Handle} (hi : s.Live i) (hj : s.Live j)
    (hne : i ≠ j) : s.space.resolver.servedAs i ≠ s.space.resolver.servedAs j := fun heq =>
  hne (h.bindings.servedAs_inj (h.given_of_live hi) (h.given_of_live hj) heq)

/-- What is owed is in the order of the registry unless something is overtaken. -/
theorem Accounted.sorted_owed_iff (h : s.Accounted) (hlate : s.space.bindings.Late)
    (hused : s.ledger.used.reverse.Pairwise (· < ·)) (place : Location) (t : Tuple) :
    ((s.owed place t).Pairwise fun x y => compare x.1 y.1 = .lt) ↔ ¬ s.Overtaken place t := by
  have hpairs : ((s.owed place t).Pairwise fun x y => compare x.1 y.1 = .lt) ↔
      ∀ i ∈ s.ledger.used.reverse, ∀ j ∈ s.ledger.used.reverse, i < j →
        (s.concerned place t i).isSome → (s.concerned place t j).isSome →
        s.space.resolver.servedAs i < s.space.resolver.servedAs j := by
    rw [owed, List.pairwise_filterMap, pairwise_iff_of_sorted hused]
    simp only [Option.map_eq_some_iff, Option.isSome_iff_exists, forall_exists_index, and_imp,
      forall_apply_eq_imp_iff₂, Nat.compare_eq_lt]
  have hlive {i : Handle} (hi : (s.concerned place t i).isSome) : s.Live i := by
    obtain ⟨callback, hi⟩ := Option.isSome_iff_exists.1 hi
    exact concerned_live hi
  rw [hpairs]
  constructor
  · intro hall hovertaken
    obtain ⟨i, hiused, j, hjused, hlt, ⟨x, hbound, hserved⟩, hi, hj⟩ := hovertaken
    have hbefore := hall i (List.mem_reverse.2 hiused) j (List.mem_reverse.2 hjused) hlt hi hj
    rw [Resolver.servedAs, Option.mem_def.1 hbound, Option.getD_some] at hbefore
    exact Nat.lt_asymm hbefore hserved
  · intro hnone i hiused j hjused hlt hi hj
    cases hbound : s.space.resolver.bound? i with
    | none =>
      -- One that is not bound is served as itself, and so comes before all later ones.
      rw [Resolver.servedAs, hbound, Option.getD_none]
      exact Nat.lt_of_lt_of_le hlt (hlate.le_servedAs j)
    | some x =>
      have hserved : s.space.resolver.servedAs i = x := congrArg (Option.getD · i) hbound
      have hne := h.servedAs_ne (hlive hi) (hlive hj) (Nat.ne_of_lt hlt)
      rw [hserved] at hne ⊢
      refine Nat.lt_of_le_of_ne (Nat.le_of_not_lt fun hbefore => hnone ?_) hne
      exact ⟨i, List.mem_reverse.1 hiused, j, List.mem_reverse.1 hjused, hlt,
        ⟨x, hbound, hbefore⟩, hi, hj⟩

theorem Accounted.nodup_owed (h : s.Accounted) (hused : s.ledger.used.Nodup) (place : Location)
    (t : Tuple) : (s.owed place t).Nodup := by
  refine List.Nodup.filterMap ?_ (List.nodup_reverse.2 hused)
  intro i j e hi hj
  obtain ⟨_, hi', rfl⟩ := Option.map_eq_some_iff.1 hi
  obtain ⟨_, hj', heq⟩ := Option.map_eq_some_iff.1 hj
  by_contra hne
  exact h.servedAs_ne (concerned_live hi') (concerned_live hj') hne (Prod.mk.inj heq).1.symm

/-- What an operation showed of a value that it stored: the handles served and their callbacks, in
the order in which they ran. -/
def served (before after : Space κ) (t : Tuple) : List (Handle × κ) :=
  ((after.fired.drop before.fired.length).filter fun f =>
    f.tuple = { t with fresh := some false }).map fun f => (f.handle, f.callback)

/-- A stored value is shown to the callbacks that it concerns once repointing is done. -/
theorem served_access (hstores : s.space.Stores a place u) :
    served s.space (s.space.access a) u
      = (s.space.stored place u).registry.matching .onWrite u := by
  obtain ⟨-, hfresh, -⟩ := hstores.spec
  have hself : { u with fresh := some true } = u := by rw [← hfresh]
  obtain ⟨rest, hshown, hrest⟩ := hstores.drop_fired
  have hrest : rest.filter (fun f => f.tuple = { u with fresh := some false }) = [] :=
    List.filter_eq_nil_iff.2 fun f hf => by simpa using hrest f hf
  rw [served, hshown, List.filter_append, hrest, List.append_nil, Space.fired_stored,
    List.drop_left, hself, List.filter_eq_self.2, Registry.pairs_dispatch, Space.stored, Space.afterWrite_fst]
  · rw [← hself]
    rfl
  · intro f hf
    rw [Registry.tuple_of_mem_dispatch _ _ _ _ hf]
    exact decide_eq_true rfl

/-- A value that is stored is shown to the callbacks it concerns, each once, in the order of the
handles they are served under. That is the order of their registration exactly if no indirect
subscription is overtaken. -/
theorem Reachable.served_in_turn_iff (h : Reachable InTurn s) (hstores : s.space.Stores a place u) :
    let mid : Session κ := ⟨s.space.stored place u, s.ledger⟩
    let shown := served s.space (s.space.access a) u
    shown.Perm (mid.owed place u) ∧ (shown.Pairwise fun x y => x.1 < y.1) ∧
      (shown = mid.owed place u ↔ ¬ mid.Overtaken place u) := by
  intro mid shown
  have hreach : Reachable Allows s := h.mono fun _ _ => InTurn.allows
  have hbecomes := Space.becomes_stored h.coherent.sound hstores.spec.1
  have hmid : mid.Accounted :=
    ⟨accounted_becomes hbecomes hreach.accounted.bindings, hreach.accounted.used⟩
  have hsteady : Steady (fun _ => False) s.space.bindings mid.space.bindings :=
    steady_becomes hbecomes
  have hlate : mid.space.bindings.Late := by
    refine hreach.late.steady hsteady fun i x hx => ?_
    obtain ⟨registration, hlisted⟩ := hmid.bindings.listed_of_bound hx
    have hbindings := hreach.accounted.bindings
    exact hbindings.given_taken i (hbindings.indirect_given i registration hlisted)
  have hused : mid.ledger.used.reverse.Pairwise (· < ·) := h.sorted_used
  have hshown : shown = mid.space.registry.matching .onWrite u := served_access hstores
  have hsorted : shown.Pairwise fun x y => compare x.1 y.1 = .lt :=
    hshown ▸ Registry.sorted_matching ..
  have hmem (e : Handle × κ) : e ∈ shown ↔ e ∈ mid.owed place u := by
    rw [hshown, hmid.mem_owed_iff hstores.spec.1]
  have hlt : shown.Pairwise fun x y => x.1 < y.1 := hsorted.imp Nat.compare_eq_lt.1
  have hnodup : shown.Nodup := hlt.imp fun h heq => Nat.ne_of_lt h (congrArg Prod.fst heq)
  refine ⟨?_, hlt, ?_⟩
  · refine (List.perm_ext_iff_of_nodup hnodup (hmid.nodup_owed ?_ place u)).2 hmem
    exact List.nodup_reverse.1 (hused.imp Nat.ne_of_lt)
  · rw [← hmid.sorted_owed_iff hlate hused]
    constructor
    · exact fun heq => heq ▸ hsorted
    · exact fun howed => Table.eq_of_mem_iff hsorted howed hmem

/-- A caller that follows what `m` names and another that subscribes to `x` itself, where `m` may
name `x` before or after the second one comes. -/
def rivals (named : Bool) : Session String :=
  let m : Location := ⟨1, ⟨[some "m"]⟩⟩
  let x : Reference := ⟨⟨1, ⟨[some "x"]⟩⟩, isConcrete_x⟩
  let naming : Operation String := .access (.write (Reference.metaTuple m (some x)) ⟨1000, 0⟩)
  let second := Operation.subscribe (if named then 3 else 2) ⟨x.locator, .onWrite, some "second"⟩
  (start 1 .insensitive false {}).run <|
    [.allocate, .subscribeIndirect 1 m.pattern (some "first")] ++
      if named then [naming, .allocate, second] else [.allocate, second, naming]

theorem rivals_served_in_turn :
    let x : Location := ⟨1, ⟨[some "x"]⟩⟩
    let s := rivals true
    let t := Tuple.plainText 1 x.key "v"
    let u := { s.space.store.numbered x t ⟨1001, 0⟩ with fresh := some true }
    ¬ Overtaken ⟨s.space.stored x u, s.ledger⟩ x u ∧
    served s.space (s.space.access (.write t ⟨1001, 0⟩)) u = [(2, "first"), (3, "second")] := by
  intro x s t u
  have hreach : Reachable InTurn s := ⟨1, .insensitive, false, {}, runs_run (by decide +kernel)⟩
  obtain ⟨-, -, hiff⟩ := Reachable.served_in_turn_iff hreach
    (s.space.stores_write (t := t) rfl rfl ⟨1001, 0⟩)
  have hnone : ¬ Overtaken ⟨s.space.stored x u, s.ledger⟩ x u := by decide +kernel
  exact ⟨hnone, (hiff.2 hnone).trans (by decide +kernel)⟩

/-- The caller that came first is served last once `m` is made to name `x` after the other came. -/
theorem not_served_in_turn : ¬ ∀ (s : Session String) (a : Access) (place : Location) (u : Tuple),
    Reachable InTurn s → s.space.Stores a place u →
    served s.space (s.space.access a) u
      = (⟨s.space.stored place u, s.ledger⟩ : Session String).owed place u := by
  intro hall
  let x : Location := ⟨1, ⟨[some "x"]⟩⟩
  let t := Tuple.plainText 1 x.key "v"
  have hreach : Reachable InTurn (rivals false) :=
    ⟨1, .insensitive, false, {}, runs_run (by decide +kernel)⟩
  have hserved := hall (rivals false) _ _ _ hreach
    ((rivals false).space.stores_write (t := t) rfl rfl ⟨1001, 0⟩)
  exact absurd hserved (by decide +kernel)

end Session

end Blackboard
