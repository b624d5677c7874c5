import Mathlib.Algebra.Ring.Nat
import Blackboard.Proofs.Space.Followers

/-!
# Counting callbacks

A space counts the callbacks that it runs, and an operation reports to its caller how many it ran. The
two differ where the list of keys is renewed: the callbacks that run for the new list are in no report.
How many there are shows in a space that keeps no list. It takes the same operation in the same way,
and runs all callbacks but those.
-/

namespace Blackboard

variable {κ : Type}

namespace Bindings

/-! ## Rebinding runs nothing -/

theorem dispatched_unbind (b : Bindings κ) (e : Indirect κ) :
    (b.unbind e).registry.dispatched = b.registry.dispatched := by
  rw [unbind]
  split <;> rfl

theorem dispatched_rebind (b : Bindings κ) (h : Handle) (source : Option Location)
    (target : Option Reference) :
    (b.rebind h source target).1.registry.dispatched = b.registry.dispatched := by
  rw [rebind]
  split
  next => rfl
  next e _ =>
    dsimp only
    split
    next => rfl
    next => cases target <;> exact dispatched_unbind ..

theorem dispatched_rebindAll (source : Option Location) (target : Option Reference)
    (b : Bindings κ) (hs : List Handle) :
    (b.rebindAll source target hs).1.registry.dispatched = b.registry.dispatched := by
  induction hs generalizing b with
  | nil => rfl
  | cons h rest ih => exact (ih _).trans (b.dispatched_rebind ..)

theorem dispatched_register (b : Bindings κ) (h : Handle) (prototype : Tuple) (callback : Option κ)
    (current : Option Tuple) :
    (b.register h prototype callback current).registry.dispatched = b.registry.dispatched := by
  cases current with
  | none => rfl
  | some t => exact dispatched_rebind ..

theorem dispatched_unregister {b b' : Bindings κ} {h : Handle} (hb : b.unregister h = .ok b') :
    b'.registry.dispatched = b.registry.dispatched := by
  rw [unregister] at hb
  split at hb
  next => cases hb
  next => cases hb; exact dispatched_unbind ..

end Bindings

namespace Space

variable {s s' s'' : Space κ} {m n : Nat}

/-- A number of callbacks run while one space turns into another, and the space counts them. -/
structure Runs (s : Space κ) (n : Nat) (s' : Space κ) : Prop where
  fired : s'.fired.length = s.fired.length + n
  dispatched : s'.registry.dispatched = s.registry.dispatched + n

namespace Runs

theorem none (hfired : s'.fired = s.fired)
    (hdispatched : s'.registry.dispatched = s.registry.dispatched) : s.Runs 0 s' :=
  ⟨congrArg List.length hfired, hdispatched⟩

/-- What is stored plays no part. -/
theorem of_withStore {store : Store} (h : { s with store }.Runs n s') : s.Runs n s' :=
  ⟨h.fired, h.dispatched⟩

theorem trans (h : s.Runs m s') (h' : s'.Runs n s'') : s.Runs (m + n) s'' where
  fired := by rw [h'.fired, h.fired, Nat.add_assoc]
  dispatched := by rw [h'.dispatched, h.dispatched, Nat.add_assoc]

end Runs

variable [Callback κ]

/-! ## Single changes -/

theorem length_runAll (t : Tuple) (handles : Allocator) (targets : List (Handle × κ)) :
    (Registry.runAll t handles targets).2.length = targets.length := by
  induction targets generalizing handles with
  | nil => rfl
  | cons target rest ih => exact congrArg (· + 1) (ih _)

theorem runs_dispatch (s : Space κ) (mode : Mode) (t : Tuple) :
    s.Runs (s.dispatch mode t).2 (s.dispatch mode t).1 where
  fired := List.length_append
  dispatched := congrArg (s.registry.dispatched + ·) (length_runAll ..).symm

theorem runs_afterWrite (s : Space κ) (t : Tuple) :
    s.Runs (s.afterWrite t).2.callbacks (s.afterWrite t).1 := by
  have hretarget : s.Runs 0 (s.retarget t).1 := by
    rw [retarget_fst]
    exact .none rfl (Bindings.dispatched_rebindAll ..)
  have hboth := hretarget.trans (runs_dispatch (s.retarget t).1 .onWrite t)
  rwa [Nat.zero_add] at hboth

theorem runs_purge (s : Space κ) (l : Location) (t : Tuple) :
    s.Runs (s.purge l t).2.callbacks (s.purge l t).1 := by
  have hrelease : (s.dispatch .onDelete t).1.Runs 0 (s.purge l t).1 :=
    .none rfl (Bindings.dispatched_rebindAll (some l) none ..)
  exact (s.runs_dispatch .onDelete t).trans hrelease

/-- How many callbacks some changes report. -/
def told (ms : List Mutation) : Nat := (ms.map (·.callbacks)).sum

theorem runs_afterWrites (s : Space κ) (ts : List Tuple) :
    s.Runs (told (s.afterWrites ts).2) (s.afterWrites ts).1 := by
  induction ts generalizing s with
  | nil => exact .none rfl rfl
  | cons t rest ih => exact (s.runs_afterWrite t).trans (ih _)

theorem runs_purgeAll (s : Space κ) (ls : List Location) :
    s.Runs (told (s.purgeAll ls).2) (s.purgeAll ls).1 := by
  induction ls generalizing s with
  | nil => exact .none rfl rfl
  | cons l rest ih =>
    rw [purgeAll]
    split
    next => exact ih s
    next t _ => exact (s.runs_purge l t).trans (ih _)

theorem exists_runs_refreshListing (s : Space κ) (changed : Key) (now : Timestamp) :
    ∃ n, s.Runs n (s.refreshListing changed now) := by
  rw [refreshListing_eq]
  split
  next => exact ⟨0, .none rfl rfl⟩
  next => exact ⟨_, .of_withStore (runs_afterWrite ..)⟩

/-! ## The same space without a list -/

/-- The same space, but no list of keys is kept from now on. -/
def unlisted (s : Space κ) : Space κ := { s with keepsListing := false }

/-- The callbacks that an operation runs and a space that keeps no list of keys would not. -/
def listingRuns (s : Space κ) (a : Access) : Nat :=
  (s.access a).fired.length - (s.unlisted.access a).fired.length

theorem listingRuns_of_unlisted (hkeep : s.keepsListing = false) (a : Access) :
    s.listingRuns a = 0 := by
  have hsame : s.unlisted = s := by rw [unlisted, ← hkeep]
  rw [listingRuns, hsame, Nat.sub_self]

theorem refreshListing_unlisted (s : Space κ) (changed : Key) (now : Timestamp) :
    s.unlisted.refreshListing changed now = s.unlisted := refreshListing_of_eq (.inl rfl) now

theorem afterWrite_unlisted (s : Space κ) (t : Tuple) :
    s.unlisted.afterWrite t = ((s.afterWrite t).1.unlisted, (s.afterWrite t).2) := by
  have hretarget : s.unlisted.retarget t = ((s.retarget t).1.unlisted, (s.retarget t).2) := by
    have hwatches : s.unlisted.resolver.watches t = s.resolver.watches t := rfl
    rw [retarget, retarget, hwatches]
    split <;> rfl
  rw [afterWrite, hretarget, afterWrite]
  rfl

theorem afterWrite_unlisted_withStore (s : Space κ) (store : Store) (t : Tuple) :
    { s.unlisted with store }.afterWrite t
      = ((afterWrite { s with store } t).1.unlisted, (afterWrite { s with store } t).2) :=
  afterWrite_unlisted { s with store } t

theorem afterWrites_unlisted (s : Space κ) (ts : List Tuple) :
    s.unlisted.afterWrites ts = ((s.afterWrites ts).1.unlisted, (s.afterWrites ts).2) := by
  induction ts generalizing s with
  | nil => rfl
  | cons t rest ih =>
    rw [afterWrites, afterWrite_unlisted]
    dsimp only
    rw [ih]
    rfl

theorem purgeAll_unlisted (s : Space κ) (ls : List Location) :
    s.unlisted.purgeAll ls = ((s.purgeAll ls).1.unlisted, (s.purgeAll ls).2) := by
  induction ls generalizing s with
  | nil => rfl
  | cons l rest ih =>
    rw [purgeAll, purgeAll]
    cases hpeek : s.store.peek l with
    | none =>
      have hpeek' : s.unlisted.store.peek l = none := hpeek
      rw [hpeek']
      exact ih s
    | some t =>
      have hpeek' : s.unlisted.store.peek l = some t := hpeek
      have hpurge : s.unlisted.purge l t = ((s.purge l t).1.unlisted, (s.purge l t).2) := rfl
      rw [hpeek']
      dsimp only
      rw [hpurge, ih]

/-! ## Operations -/

/-- A space turns into another by a new list of keys at most. -/
def Renews (s s' : Space κ) : Prop := s' = s ∨ ∃ changed now, s' = s.refreshListing changed now

/-- An operation, and the same one in a space that keeps no list of keys: both fail, or both report the
same change and differ by a new list. -/
inductive Abreast (s : Space κ) :
    Except TupleError (Space κ × Mutation) → Except TupleError (Space κ × Mutation) → Prop
  | failed (e : TupleError) : Abreast s (.error e) (.error e)
  | done {mid s' : Space κ} {m : Mutation} (runs : s.Runs m.callbacks mid)
    (silent : m.tuple = none → m.callbacks = 0) (renews : mid.Renews s') :
    Abreast s (.ok (s', m)) (.ok (mid.unlisted, m))

theorem abreast_delete (s : Space κ) (l : Location) (remover : Option Owner) (now : Timestamp) :
    s.Abreast (s.delete l remover now) (s.unlisted.delete l remover now) := by
  rw [delete, delete]
  cases l.requireConcrete with
  | error e => exact .failed e
  | ok _ =>
    simp only [bind, Except.bind, pure, Except.pure]
    have hpeek : s.unlisted.store.peek l = s.store.peek l := rfl
    rw [hpeek]
    cases s.store.peek l with
    | none => exact .done (.none rfl rfl) (fun _ => rfl) (.inl rfl)
    | some t =>
      dsimp only
      have hpurge (u : Tuple) : s.unlisted.purge l u = ((s.purge l u).1.unlisted, (s.purge l u).2) :=
        rfl
      rw [hpurge, refreshListing_unlisted]
      simp only [ite_self]
      split
      next => exact .done (s.runs_purge ..) (fun hnone => by cases hnone) (.inr ⟨_, _, rfl⟩)
      next => exact .done (s.runs_purge ..) (fun hnone => by cases hnone) (.inl rfl)

theorem abreast_deleteMarked (s : Space κ) (t : Tuple) (now : Timestamp) :
    s.Abreast (s.deleteMarked t now) (s.unlisted.deleteMarked t now) := by
  rw [deleteMarked, deleteMarked]
  cases t.owner with
  | none => exact .failed _
  | some owner => exact abreast_delete ..

theorem abreast_write (s : Space κ) (t : Tuple) (now : Timestamp) :
    s.Abreast (s.write t now) (s.unlisted.write t now) := by
  rw [write, write]
  split
  next => exact s.abreast_deleteMarked t now
  next =>
    have hinsert : s.unlisted.store.insert { t with seqno := none } now
        = s.store.insert { t with seqno := none } now := rfl
    rw [hinsert]
    cases s.store.insert { t with seqno := none } now with
    | error e => exact .failed e
    | ok r =>
      obtain ⟨store, stored⟩ := r
      have hruns := Runs.of_withStore (runs_afterWrite { s with store } stored.tuple)
      simp only [bind, Except.bind, pure, Except.pure]
      rw [afterWrite_unlisted_withStore]
      split
      next =>
        rw [refreshListing_unlisted]
        exact .done hruns (fun hnone => by cases hnone) (.inr ⟨_, _, rfl⟩)
      next => exact .done hruns (fun hnone => by cases hnone) (.inl rfl)

theorem abreast_writeReplica (s : Space κ) (t : Tuple) (now : Timestamp) :
    s.Abreast (s.writeReplica t now) (s.unlisted.writeReplica t now) := by
  rw [writeReplica, writeReplica]
  split
  next => exact s.abreast_deleteMarked t now
  next =>
    have hinsert : s.unlisted.store.insertReplica t now = s.store.insertReplica t now := rfl
    rw [hinsert]
    cases s.store.insertReplica t now with
    | error e => exact .failed e
    | ok r =>
      obtain ⟨store, stored⟩ := r
      simp only [bind, Except.bind, pure, Except.pure]
      cases stored with
      | none => exact .done (.of_withStore (.none rfl rfl)) (fun _ => rfl) (.inl rfl)
      | some stored =>
        dsimp only
        rw [afterWrite_unlisted_withStore]
        exact .done (.of_withStore (runs_afterWrite ..)) (fun hnone => by cases hnone) (.inl rfl)

theorem tuple_purgeAll (s : Space κ) (ls : List Location) :
    ∀ m ∈ (s.purgeAll ls).2, m.tuple ≠ none := by
  induction ls generalizing s with
  | nil => simp [purgeAll]
  | cons l rest ih =>
    rw [purgeAll]
    split
    next => exact ih s
    next t _ =>
      intro m hm
      rcases List.mem_cons.1 hm with rfl | hm
      · exact Option.some_ne_none _
      · exact ih _ m hm

/-- What an operation reports and where it leads, in a space and in the same one without a list of keys.
A report of nothing is about no callbacks. -/
def Tells (s : Space κ) (ms : List Mutation) (s' bare : Space κ) : Prop :=
  (∀ m ∈ ms, m.tuple = none → m.callbacks = 0) ∧
    ∃ mid, s.Runs (told ms) mid ∧ mid.Renews s' ∧ bare = mid.unlisted

theorem Tells.quiet (hfired : s'.fired = s.fired)
    (hdispatched : s'.registry.dispatched = s.registry.dispatched) : s.Tells [] s' s'.unlisted :=
  ⟨fun _ hm => (nomatch hm), s', .none hfired hdispatched, .inl rfl, rfl⟩

theorem Abreast.tells {r bare : Except TupleError (Space κ × Mutation)} (h : s.Abreast r bare) :
    s.Tells (mutation r) (s.settled r) (s.unlisted.settled bare) := by
  cases h with
  | failed e => exact .quiet rfl rfl
  | done runs silent renews =>
    refine ⟨fun m hm => ?_, _, runs, renews, rfl⟩
    obtain rfl := List.mem_singleton.1 hm
    exact silent

/-- A sweep removes what is due and renews the list of keys at most. -/
theorem expire_renews (s : Space κ) (now : Timestamp) :
    let purged := s.purgeAll ((s.store.due now).filter s.store.exists?)
    (s.expire now).2 = purged.2 ∧ purged.1.Renews (s.expire now).1 := by
  rw [expire]
  dsimp only
  split
  next =>
    split
    next => exact ⟨rfl, .inr ⟨_, _, rfl⟩⟩
    next => exact ⟨rfl, .inl rfl⟩
  next => exact ⟨rfl, .inl rfl⟩

theorem tells_expire (s : Space κ) (now : Timestamp) :
    s.Tells (s.expire now).2 (s.expire now).1 (s.unlisted.expire now).1 := by
  let due := (s.store.due now).filter s.store.exists?
  obtain ⟨hreported, hrenews⟩ := s.expire_renews now
  have hbare : (s.unlisted.expire now).1 = (s.purgeAll due).1.unlisted := by
    have hpurge : s.unlisted.purgeAll due = ((s.purgeAll due).1.unlisted, (s.purgeAll due).2) :=
      s.purgeAll_unlisted due
    obtain ⟨-, heq | ⟨changed, time, heq⟩⟩ := s.unlisted.expire_renews now
    · exact heq.trans (congrArg Prod.fst hpurge)
    · refine heq.trans ((congrArg (·.1.refreshListing changed time) hpurge).trans ?_)
      exact refreshListing_unlisted ..
  rw [hreported]
  exact ⟨fun m hm hnone => absurd hnone (s.tuple_purgeAll due m hm), _, s.runs_purgeAll due, hrenews,
    hbare⟩

theorem tells_append (s : Space κ) (p : Tuple) (suffix : List UInt8) (expected : Option Nat)
    (now : Timestamp) : s.Tells (s.append p suffix expected now).2 (s.append p suffix expected now).1
      (s.unlisted.append p suffix expected now).1 := by
  let appended := s.store.append { p with owner := some s.localId } suffix expected now
  let stored : Space κ := { s with store := appended.1 }
  refine ⟨fun m hm hnone => ?_, _, .of_withStore (stored.runs_afterWrites appended.2), .inl rfl,
    congrArg Prod.fst (stored.afterWrites_unlisted appended.2)⟩
  have htuple : m.tuple ∈ appended.2.map some :=
    stored.tuples_afterWrites appended.2 ▸ List.mem_map_of_mem hm
  obtain ⟨t, -, ht⟩ := List.mem_map.1 htuple
  exact nomatch ht.trans hnone

theorem tells_access (s : Space κ) (a : Access) :
    s.Tells (s.mutations a) (s.access a) (s.unlisted.access a) := by
  cases a with
  | write t now => exact (s.abreast_write t now).tells
  | writeReplica t now => exact (s.abreast_writeReplica t now).tells
  | delete l remover now => exact (s.abreast_delete l remover now).tells
  | expire now => exact s.tells_expire now
  | append p suffix expected now => exact s.tells_append p suffix expected now
  | get l onlyFresh =>
    show s.Tells [] (s.settled (s.get l onlyFresh)) (s.unlisted.settled (s.unlisted.get l onlyFresh))
    have hstore : s.unlisted.store.get l onlyFresh = s.store.get l onlyFresh := rfl
    rw [get, get, hstore]
    cases s.store.get l onlyFresh with
    | error e => exact .quiet rfl rfl
    | ok r => exact .quiet rfl rfl
  | search p => exact .quiet rfl rfl
  | first p => exact .quiet rfl rfl

/-- An operation runs the callbacks that it reports and those for a new list of keys, and no others. -/
theorem runs_access (s : Space κ) (a : Access) :
    s.Runs (told (s.mutations a) + s.listingRuns a) (s.access a) := by
  obtain ⟨-, mid, hruns, hrenews, hbare⟩ := s.tells_access a
  obtain ⟨n, hrest⟩ : ∃ n, mid.Runs n (s.access a) := by
    rcases hrenews with heq | ⟨changed, now, heq⟩
    · exact ⟨0, heq ▸ .none rfl rfl⟩
    · exact heq ▸ mid.exists_runs_refreshListing changed now
  have hlisting : s.listingRuns a = n := by
    rw [listingRuns, hbare, hrest.fired]
    exact Nat.add_sub_cancel_left ..
  exact hlisting ▸ hruns.trans hrest

/-! ## Before anybody registers -/

/-- Nobody has registered anything. -/
structure Idle (s : Space κ) : Prop where
  registry : s.registry.entries.entries = []
  resolver : s.resolver.entries.entries = []

omit [Callback κ] in
theorem Idle.retarget (h : s.Idle) (t : Tuple) : s.bindings.retarget t = (s.bindings, 0) := by
  have hnone : s.bindings.resolver.entries.entries = [] := h.resolver
  rw [Bindings.retarget, hnone]
  rfl

omit [Callback κ] in
theorem Idle.release (h : s.Idle) (l : Location) : s.bindings.release l = (s.bindings, 0) := by
  have hnone : s.bindings.resolver.entries.entries = [] := h.resolver
  rw [Bindings.release, hnone]
  rfl

theorem Idle.dispatch (h : s.Idle) (mode : Mode) (t : Tuple) : s.dispatch mode t = (s, 0) := by
  have hmatching : s.registry.matching mode t = [] := by
    rw [Registry.matching, h.registry]
    rfl
  rw [Space.dispatch, Registry.dispatch, hmatching]
  simp only [Registry.runAll, List.append_nil]
  rfl

theorem Idle.notice (h : s.Idle) (c : Change) : s.notice c = s := by
  rw [Space.notice]
  split
  next => rw [afterWrite_fst, h.retarget, h.dispatch]
  next =>
    rw [h.dispatch]
    dsimp only
    rw [h.release]

/-- Where nobody has registered anything, no operation runs anything. -/
theorem Idle.access (h : s.Idle) (hs : s.store.Sound) (a : Access) :
    (s.access a).Idle ∧ (s.access a).fired = s.fired := by
  obtain ⟨changes, hbecomes, -⟩ := becomes_access hs a
  refine hbecomes.invariant (I := fun space _ => space.Idle ∧ space.fired = s.fired) ?_ ?_ ⟨h, rfl⟩
  · exact fun _ _ _ hspace => ⟨⟨hspace.1.registry, hspace.1.resolver⟩, hspace.2⟩
  · intro space _ c _ _ hspace
    rwa [hspace.1.notice]

end Space

end Blackboard
