import Blackboard.Proofs.Reference
import Blackboard.Proofs.Space.Following
import Blackboard.Proofs.Space.Notification

/-!
# Which subscriptions a stored value moves

A stored value moves every indirect subscription whose prototype covers it, to what the value names.
Whether it is a meta tuple is not asked: an ordinary value names nothing, so it unbinds the bound
ones that cover it and leaves all others as they are. The count that a change reports is that of the
subscriptions that were not bound to what the value names already.
-/

namespace Blackboard

variable {κ : Type}

namespace Bindings

theorem rebind_snd {b : Bindings κ} {i : Handle} {e : Indirect κ}
    (he : b.resolver.entries.get? i = some e) (source : Option Location)
    (target : Option Reference) : (b.rebind i source target).2 = decide (e.target ≠ target) := by
  rw [rebind]
  simp only [he]
  split
  next heq => simp [heq]
  next hne => simp [hne]

/-- Of several subscriptions those are counted that were bound to something else. -/
theorem rebindAll_snd {b : Bindings κ} {hs : List Handle} (hnodup : hs.Nodup)
    (hfiled : ∀ i ∈ hs, b.resolver.contains i = true) (source : Option Location)
    (target : Option Reference) : (rebindAll source target b hs).2
      = hs.countP fun i => b.resolver.target? i ≠ target := by
  induction hs generalizing b with
  | nil => rfl
  | cons i rest ih =>
    obtain ⟨hi, hrest⟩ := List.nodup_cons.1 hnodup
    obtain ⟨e, he⟩ := Option.isSome_iff_exists.1 (hfiled i List.mem_cons_self)
    have hother (j : Handle) (hj : j ∈ rest) :
        (b.rebind i source target).1.resolver.entries.get? j = b.resolver.entries.get? j := by
      rw [get?_rebind, if_neg]
      intro heq
      subst heq
      exact hi hj
    have hlater := ih (b := (b.rebind i source target).1) hrest fun j hj => by
      rw [Resolver.contains, Table.contains, hother j hj]
      exact hfiled j (List.mem_cons_of_mem _ hj)
    have hsame : rest.countP (fun j => (b.rebind i source target).1.resolver.target? j ≠ target)
        = rest.countP fun j => b.resolver.target? j ≠ target :=
      List.countP_congr fun j hj => by rw [Resolver.target?, hother j hj, Resolver.target?]
    have htarget : b.resolver.target? i = e.target := by
      rw [Resolver.target?, he]
      rfl
    have hsnd : (rebindAll source target b (i :: rest)).2
        = (rebindAll source target (b.rebind i source target).1 rest).2
          + (b.rebind i source target).2.toNat := rfl
    rw [hsnd, List.countP_cons, htarget, ← hsame, ← hlater, rebind_snd he]
    by_cases heq : e.target = target <;> simp [heq]

end Bindings

namespace Session

/-- The indirect subscriptions whose prototype covers a tuple. -/
def followers (s : Session κ) (t : Tuple) : List Handle :=
  (s.ledger.indirect.entries.filter fun e =>
    e.2.1.ignoringFresh.covers s.space.store.policy t).map (·.1)

/-- What a subscription is bound to once some values are stored, one after the other: what the last
of them that its prototype covers names. -/
def boundAfter (s : Session κ) (ts : List Tuple) (i : Handle) : Option Reference :=
  match (ts.filter fun t => i ∈ s.followers t).getLast? with
  | some t => Reference.target? t
  | none => s.space.indirectTarget i

/-- The resolver lists the registrations of the ledger, in the same order. -/
theorem Registered.entries_eq {s : Session κ} (h : s.Registered) :
    s.space.bindings.resolver.entries.entries.map (fun e => (e.1, e.2.prototype, e.2.callback))
      = s.ledger.indirect.entries.map fun e => (e.1, e.2.1.ignoringFresh, e.2.2) := by
  have hsorted {ν : Type} (t : Table Handle ν) (f : ν → Tuple × Option κ) :
      (t.entries.map fun e => (e.1, f e.2)).Pairwise fun a b => compare a.1 b.1 = .lt :=
    List.pairwise_map.2 t.sorted
  refine Table.eq_of_mem_iff (hsorted _ fun e : Indirect κ => (e.prototype, e.callback))
    (hsorted _ fun r : Tuple × Option κ => (r.1.ignoringFresh, r.2)) fun e => ?_
  obtain ⟨i, registration⟩ := e
  have hresolver : (i, registration) ∈ s.space.bindings.resolver.entries.entries.map
      (fun e => (e.1, e.2.prototype, e.2.callback)) ↔
      s.space.bindings.resolver.registration? i = some registration := by
    simp [Resolver.registration?, Table.mem_entries_iff]
  have hledger : (i, registration) ∈ s.ledger.indirect.entries.map
      (fun e => (e.1, e.2.1.ignoringFresh, e.2.2)) ↔
      (s.ledger.indirect.get? i).map (fun r => (r.1.ignoringFresh, r.2)) = some registration := by
    simp [Table.mem_entries_iff]
  rw [hresolver, hledger, h i]

/-- The subscriptions that a value repoints are its followers. -/
theorem affected_eq_followers {s : Session κ}
    (hp : s.space.bindings.resolver.policy = s.space.store.policy) (hr : s.Registered) (t : Tuple) :
    (s.space.bindings.resolver.entries.entries.filter fun e =>
      e.2.prototype.covers s.space.bindings.resolver.policy t).map (·.1) = s.followers t := by
  have hentries := congrArg (fun entries => (entries.filter fun e =>
    e.2.1.covers s.space.store.policy t).map (·.1)) hr.entries_eq
  simp only [List.filter_map, List.map_map] at hentries
  rw [hp]
  exact hentries

theorem mem_followers_iff {s : Session κ} {t : Tuple} {i : Handle} :
    i ∈ s.followers t ↔ ∃ p callback, s.ledger.indirect.get? i = some (p, callback) ∧
      p.ignoringFresh.covers s.space.store.policy t = true := by
  simp only [followers, List.mem_map, List.mem_filter]
  constructor
  · intro h
    obtain ⟨⟨i, p, callback⟩, ⟨hmem, hcovers⟩, rfl⟩ := h
    exact ⟨p, callback, (s.ledger.indirect.mem_entries_iff ..).1 hmem, hcovers⟩
  · intro h
    obtain ⟨p, callback, hi, hcovers⟩ := h
    exact ⟨(i, p, callback), ⟨(s.ledger.indirect.mem_entries_iff ..).2 hi, hcovers⟩, rfl⟩

theorem exists_pointer_of_mem {s : Session κ} (hr : s.Registered) {t : Tuple} {i : Handle}
    (hi : i ∈ s.followers t) : ∃ w, s.space.resolver.pointer? i = some w := by
  obtain ⟨p, callback, hi, -⟩ := mem_followers_iff.1 hi
  obtain ⟨w, -, hw⟩ := hr.exists_follows hi
  exact ⟨w, hw⟩

theorem nodup_followers (s : Session κ) (t : Tuple) : (s.followers t).Nodup :=
  s.ledger.indirect.nodup_keys.sublist (List.filter_sublist.map _)

variable [Callback κ]

/-- The session once a value was followed up on. -/
def follow (s : Session κ) (t : Tuple) : Session κ := { s with space := (s.space.afterWrite t).1 }

section

variable {s : Session κ}

theorem policy_follow (hp : s.space.bindings.resolver.policy = s.space.store.policy) (t : Tuple) :
    (s.follow t).space.bindings.resolver.policy = (s.follow t).space.store.policy := by
  rw [follow, Space.afterWrite_fst]
  exact (Bindings.policy_rebindAll ..).trans hp

theorem registered_follow (hr : s.Registered) (t : Tuple) : (s.follow t).Registered := by
  intro i
  rw [follow, Space.afterWrite_fst]
  exact (Bindings.registration?_rebindAll ..).trans (hr i)

theorem followers_follow (s : Session κ) (t other : Tuple) :
    (s.follow t).followers other = s.followers other := by
  rw [follow, Space.afterWrite_fst]
  rfl

variable (hp : s.space.bindings.resolver.policy = s.space.store.policy) (hr : s.Registered)

include hp hr

theorem indirectTarget_follow (t : Tuple) (i : Handle) : (s.follow t).space.indirectTarget i
      = if i ∈ s.followers t then Reference.target? t else s.space.indirectTarget i := by
  have hpointer : (s.follow t).space.resolver.pointer? i = if i ∈ s.followers t
      then (s.space.resolver.pointer? i).map fun _ =>
        .through (Bindings.sourceOf t) (Reference.target? t)
      else s.space.resolver.pointer? i := by
    rw [follow, Space.afterWrite_fst, ← affected_eq_followers hp hr]
    exact Bindings.pointer?_rebindAll ..
  rw [Space.indirectTarget, Resolver.target?_eq_pointer?, hpointer]
  split
  next hi =>
    obtain ⟨w, hw⟩ := exists_pointer_of_mem hr hi
    rw [hw]
    rfl
  next => rw [Space.indirectTarget, Resolver.target?_eq_pointer?]

theorem rebinds_follow (t : Tuple) :
    (s.space.afterWrite t).2.rebinds
      = (s.followers t).countP fun i => s.space.indirectTarget i ≠ Reference.target? t := by
  have hretarget : (s.space.afterWrite t).2.rebinds = (s.space.bindings.retarget t).2 := by
    show (s.space.retarget t).2 = _
    rw [Space.retarget]
    split
    next => rfl
    next hwatches =>
      rw [Bindings.retarget_of_not_watches (by simpa [Space.resolver] using hwatches)]
  rw [hretarget, Bindings.retarget, affected_eq_followers hp hr,
    Bindings.rebindAll_snd (s.nodup_followers t)]
  · rfl
  · intro i hi
    obtain ⟨w, hw⟩ := exists_pointer_of_mem hr hi
    obtain ⟨e, he, -⟩ := Option.map_eq_some_iff.1 hw
    exact Option.isSome_iff_exists.2 ⟨e, he⟩

/-! ## Several values -/

theorem boundAfter_cons (t : Tuple) (ts : List Tuple) (i : Handle) :
    s.boundAfter (t :: ts) i = (s.follow t).boundAfter ts i := by
  simp only [boundAfter, followers_follow, indirectTarget_follow hp hr]
  by_cases hi : i ∈ s.followers t
  · rw [List.filter_cons_of_pos (by simpa using hi), List.getLast?_cons]
    cases (ts.filter fun t => i ∈ s.followers t).getLast? <;> simp [hi]
  · rw [List.filter_cons_of_neg (by simpa using hi)]
    simp [hi]

theorem indirectTarget_afterWrites (ts : List Tuple) (i : Handle) :
    (s.space.afterWrites ts).1.indirectTarget i = s.boundAfter ts i := by
  induction ts generalizing s with
  | nil => rfl
  | cons t rest ih =>
    have hcons : (s.space.afterWrites (t :: rest)).1
        = ((s.follow t).space.afterWrites rest).1 := rfl
    rw [boundAfter_cons hp hr, hcons]
    exact ih (policy_follow hp t) (registered_follow hr t)

/-- Each of several values is reported with the count of the followers that were bound to something
else when its turn came. -/
theorem rebinds_afterWrites {ts : List Tuple} {xs ys : List Mutation} {m : Mutation}
    (hsplit : (s.space.afterWrites ts).2 = xs ++ m :: ys) :
    m.rebinds = m.tuple.elim 0 fun t => (s.followers t).countP fun i =>
      s.boundAfter (xs.filterMap (·.tuple)) i ≠ Reference.target? t := by
  -- The induction goes on from the session in which the first value was followed up on. It has the
  -- same followers, bound to what that value left.
  induction ts generalizing s xs with
  | nil => exact absurd hsplit (by simp [Space.afterWrites])
  | cons t rest ih =>
    have hcons : (s.space.afterWrites (t :: rest)).2
        = (s.space.afterWrite t).2 :: ((s.follow t).space.afterWrites rest).2 := rfl
    rw [hcons] at hsplit
    cases xs with
    | nil =>
      obtain ⟨rfl, -⟩ := List.cons.inj hsplit
      exact rebinds_follow hp hr t
    | cons first xs =>
      obtain ⟨rfl, hrest⟩ := List.cons.inj hsplit
      have htuple : (s.space.afterWrite t).2.tuple = some t := rfl
      rw [ih (policy_follow hp t) (registered_follow hr t) hrest,
        List.filterMap_cons_some htuple]
      simp only [followers_follow, boundAfter_cons hp hr]

end

omit [Callback κ] in
/-- Values that name nothing unbind the subscriptions that follow one of them. -/
theorem boundAfter_of_forall_none {s : Session κ} {ts : List Tuple}
    (hts : ∀ t ∈ ts, Reference.target? t = none) (i : Handle) : s.boundAfter ts i
      = if ∃ t ∈ ts, i ∈ s.followers t then none else s.space.indirectTarget i := by
  rw [boundAfter]
  split
  next t ht =>
    obtain ⟨hmem, hi⟩ := List.mem_filter.1 (List.mem_of_getLast? ht)
    rw [if_pos ⟨t, hmem, of_decide_eq_true hi⟩, hts t hmem]
  next hnone =>
    rw [if_neg]
    intro hsome
    obtain ⟨t, ht, hi⟩ := hsome
    rw [List.getLast?_eq_none_iff, List.filter_eq_nil_iff] at hnone
    exact hnone t ht (decide_eq_true hi)

end Session

/-! ## Operations that store values -/

/-- An operation that may store values and removes none. -/
def Access.isStoring : Access → Bool
  | .write t _ | .writeReplica t _ => !t.isDeletion
  | .append .. => true
  | _ => false

namespace Space

variable [Callback κ] {s : Space κ} {a : Access}

/-- The change that a call reports, unless it fails. -/
def mutation : Except TupleError (Space κ × Mutation) → List Mutation
  | .ok (_, m) => [m]
  | .error _ => []

/-- The changes that an operation reports to its caller. -/
def mutations (s : Space κ) : Access → List Mutation
  | .write t now => mutation (s.write t now)
  | .writeReplica t now => mutation (s.writeReplica t now)
  | .delete l remover now => mutation (s.delete l remover now)
  | .expire now => (s.expire now).2
  | .append p suffix expected now => (s.append p suffix expected now).2
  | .get _ _ | .search _ | .first _ => []

theorem reported_eq_mutations (s : Space κ) (a : Access) :
    s.reported a = (s.mutations a).filterMap (·.tuple) := by
  have hone (r : Except TupleError (Space κ × Mutation)) :
      mutated r = (mutation r).filterMap (·.tuple) := by
    cases r with
    | error e => rfl
    | ok r => cases h : r.2.tuple <;> simp [mutated, mutation, h]
  cases a with
  | write t now => exact hone _
  | writeReplica t now => exact hone _
  | delete l remover now => exact hone _
  | _ => rfl

theorem noticeAll_of_onWrite {changes : List Change} (h : ∀ c ∈ changes, c.mode = .onWrite) :
    s.noticeAll changes = (s.afterWrites (changes.map (·.tuple))).1 := by
  rw [afterWrites_fst, List.foldl_map, noticeAll]
  refine List.foldl_ext _ _ _ fun space c hc => ?_
  rw [notice, h c hc]

omit [Callback κ] in
/-- A new list of keys is a text. -/
theorem isMetaType_renewal {changed : Key} {now : Timestamp} {r : Record}
    (hr : r ∈ s.renewal changed now) : Reference.isMetaType r.tuple = false := by
  rw [eq_of_mem_renewal hr]
  rfl

/-- An operation that stores values records those it reports, and a text at most besides. -/
theorem records_of_storing (ha : a.isStoring = true) : (∀ r ∈ s.records a, r.deed ≠ .removal) ∧
    ∃ renewed, (s.records a).map (·.tuple) = s.reported a ++ renewed ∧
      ∀ t ∈ renewed, Reference.isMetaType t = false := by
  cases a with
  | write t now =>
    have hdel : t.isDeletion = false := by simpa [Access.isStoring] using ha
    refine ⟨fun r hr => by simp [deed_of_mem_write hdel hr], ?_⟩
    rw [records, reported, write_eq hdel, hdel]
    cases t.location with
    | error e => exact ⟨[], rfl, fun _ ht => absurd ht List.not_mem_nil⟩
    | ok l =>
      simp only [Bool.false_eq_true, if_false]
      split
      next =>
        refine ⟨_, List.map_cons, fun u hu => ?_⟩
        obtain ⟨r, hr, rfl⟩ := List.mem_map.1 hu
        exact isMetaType_renewal hr
      next => exact ⟨[], rfl, fun _ ht => absurd ht List.not_mem_nil⟩
  | writeReplica t now =>
    have hdel : t.isDeletion = false := by simpa [Access.isStoring] using ha
    refine ⟨fun r hr => by simp [deed_of_mem_writeReplica hdel hr], [], ?_, fun _ ht => absurd ht List.not_mem_nil⟩
    rw [records, reported, writeReplica_eq hdel, hdel]
    cases t.location with
    | error e => rfl
    | ok l =>
      simp only [Bool.false_eq_true, if_false, Except.map]
      split
      next => rfl
      next => rfl
  | append p suffix expected now =>
    refine ⟨fun r hr => ?_, [], ?_, fun _ ht => absurd ht List.not_mem_nil⟩
    · obtain ⟨c, -, rfl⟩ := List.mem_map.1 hr
      simp [Record.ofChange]
    · rw [reported_append, List.append_nil]
  | _ => cases ha

end Space

namespace Session

variable [Callback κ] {guard : Session κ → Operation κ → Prop} {s : Session κ} {a : Access}

theorem indirectTarget_access (hc : s.space.Coherent) (hr : s.Registered) (ha : a.isStoring = true)
    (i : Handle) : (s.space.access a).indirectTarget i
      = s.boundAfter ((s.space.records a).map (·.tuple)) i := by
  have hstored : ∀ c ∈ (s.space.records a).map Record.change, c.mode = .onWrite := by
    intro c hmem
    obtain ⟨r, hr, rfl⟩ := List.mem_map.1 hmem
    have hdeed := (Space.records_of_storing ha).1 r hr
    obtain ⟨deed, place, t⟩ := r
    cases deed with
    | removal => exact absurd rfl hdeed
    | _ => rfl
  have htuples : ((s.space.records a).map Record.change).map (·.tuple)
      = (s.space.records a).map (·.tuple) := by
    rw [List.map_map]
    rfl
  rw [← indirectTarget_afterWrites hc.resolver_policy hr, ← htuples,
    ← Space.noticeAll_of_onWrite hstored, (Space.does_access hc.sound a).becomes.noticed]
  rfl

theorem rebinds_mutations (hc : s.space.Coherent) (hr : s.Registered) (ha : a.isStoring = true)
    {xs ys : List Mutation} {m : Mutation} (hsplit : s.space.mutations a = xs ++ m :: ys) :
    m.rebinds = m.tuple.elim 0 fun t => (s.followers t).countP fun i =>
      s.boundAfter (xs.filterMap (·.tuple)) i ≠ Reference.target? t := by
  -- Putting a value into the store does not matter to the subscriptions yet.
  let holding (store : Store) : Session κ := { s with space := { s.space with store } }
  have hstoring (l : Location) (t : Tuple) (hone : [(s.space.storing l t).2] = xs ++ m :: ys) :
      m.rebinds = m.tuple.elim 0 fun t => (s.followers t).countP fun i =>
        s.boundAfter (xs.filterMap (·.tuple)) i ≠ Reference.target? t := by
    let put := s.space.store.put l t
    have hp : (holding put.1).space.bindings.resolver.policy = (holding put.1).space.store.policy :=
      hc.resolver_policy
    have hsplit : ((holding put.1).space.afterWrites [put.2.tuple]).2 = xs ++ m :: ys := hone
    exact rebinds_afterWrites hp hr hsplit
  cases a with
  | write t now =>
    rw [Space.mutations, Space.write_eq (by simpa [Access.isStoring] using ha)] at hsplit
    cases hl : t.location with
    | error e =>
      rw [hl] at hsplit
      exact absurd hsplit (by simp [Space.mutation, Except.map])
    | ok l =>
      rw [hl] at hsplit
      exact hstoring _ _ hsplit
  | writeReplica t now =>
    rw [Space.mutations, Space.writeReplica_eq (by simpa [Access.isStoring] using ha)] at hsplit
    cases hl : t.location with
    | error e =>
      rw [hl] at hsplit
      exact absurd hsplit (by simp [Space.mutation, Except.map])
    | ok l =>
      simp only [hl, Except.map] at hsplit
      split at hsplit
      next => exact hstoring _ _ hsplit
      next =>
        have hmem : m ∈ Space.mutation (.ok (s.space, {})) := by
          rw [hsplit]
          exact List.mem_append_right _ List.mem_cons_self
        obtain rfl := List.mem_singleton.1 hmem
        rfl
  | append p suffix expected now =>
    let own : Tuple := { p with owner := some s.space.localId }
    let store := (s.space.store.append own suffix expected now).1
    have hp : (holding store).space.bindings.resolver.policy = (holding store).space.store.policy :=
      hc.resolver_policy
    exact rebinds_afterWrites hp hr hsplit
  | _ => cases ha

/-- A stored value moves the subscriptions that follow it to what it names, meta tuple or not, and
the count reported is that of those who were not there already. So ordinary values leave every
subscription as it is, and report no rebinding, exactly if none of those that follow them is bound.
-/
theorem Reachable.ordinary_keeps_iff (h : Reachable guard s) (ha : a.isStoring = true) :
    let stored := (s.space.records a).map (·.tuple)
    (∀ i, (s.space.access a).indirectTarget i = s.boundAfter stored i) ∧
    (∀ xs m ys, s.space.mutations a = xs ++ m :: ys → m.rebinds = m.tuple.elim 0 fun t =>
      (s.followers t).countP fun i =>
        s.boundAfter (xs.filterMap (·.tuple)) i ≠ Reference.target? t) ∧
    ((∀ m ∈ s.space.mutations a, ∀ t ∈ m.tuple, Reference.isMetaType t = false) →
      ((∀ i, (s.space.access a).indirectTarget i = s.space.indirectTarget i) ∧
        (∀ m ∈ s.space.mutations a, m.rebinds = 0) ↔
      ∀ t ∈ stored, ∀ i ∈ s.followers t, s.space.indirectTarget i = none)) := by
  intro stored
  have htargets := indirectTarget_access h.coherent h.registered ha
  have hrebinds {xs ys : List Mutation} {m : Mutation}
      (hsplit : s.space.mutations a = xs ++ m :: ys) :=
    rebinds_mutations h.coherent h.registered ha hsplit
  refine ⟨htargets, fun xs m ys => hrebinds, fun hordinary => ?_⟩
  have hreported : ∀ t ∈ s.space.reported a, Reference.target? t = none := by
    intro t ht
    rw [Space.reported_eq_mutations] at ht
    obtain ⟨m, hm, htuple⟩ := List.mem_filterMap.1 ht
    exact Reference.target?_of_ordinary (hordinary m hm t htuple)
  obtain ⟨-, renewed, htuples, hrenewed⟩ := Space.records_of_storing (s := s.space) ha
  have htuples : stored = s.space.reported a ++ renewed := htuples
  have hstored : ∀ t ∈ stored, Reference.target? t = none := by
    intro t ht
    rw [htuples] at ht
    rcases List.mem_append.1 ht with ht | ht
    · exact hreported t ht
    · exact Reference.target?_of_ordinary (hrenewed t ht)
  constructor
  · intro hsame t ht i hi
    rw [← hsame.1 i, htargets, boundAfter_of_forall_none hstored, if_pos ⟨t, ht, hi⟩]
  · intro hnone
    refine ⟨fun i => ?_, fun m hm => ?_⟩
    · rw [htargets, boundAfter_of_forall_none hstored]
      split
      next hfollowed =>
        obtain ⟨t, ht, hi⟩ := hfollowed
        exact (hnone t ht i hi).symm
      next => rfl
    · obtain ⟨xs, ys, hsplit⟩ := List.append_of_mem hm
      rw [hrebinds hsplit]
      cases htuple : m.tuple with
      | none => rfl
      | some t =>
        have ht : t ∈ s.space.reported a := by
          rw [Space.reported_eq_mutations]
          exact List.mem_filterMap.2 ⟨m, hm, htuple⟩
        have hbefore : ∀ u ∈ xs.filterMap (·.tuple), Reference.target? u = none := by
          intro u hu
          apply hreported
          rw [Space.reported_eq_mutations, hsplit, List.filterMap_append]
          exact List.mem_append_left _ hu
        refine List.countP_eq_zero.2 fun i hi => ?_
        have hfree : s.space.indirectTarget i = none :=
          hnone t (htuples ▸ List.mem_append_left renewed ht) i hi
        simp [hreported t ht, boundAfter_of_forall_none hbefore, hfree]

/-- A session with a subscription to all keys under `a`, bound through a meta tuple there. -/
def gathering : Session String :=
  (start 1 .insensitive true {}).run
    [.access (.write (Reference.metaTuple ⟨1, ⟨[some "a", some "m"]⟩⟩
        (some ⟨⟨1, ⟨[some "x"]⟩⟩, isConcrete_x⟩)) ⟨1000, 0⟩),
      .allocate,
      .subscribeIndirect 1 (Tuple.locator (some 1) ⟨[some "a", none]⟩) (some "moved")]

theorem reachable_gathering : Reachable Allows gathering :=
  ⟨1, .insensitive, true, {}, runs_run (by decide +kernel)⟩

theorem gathering_keeps :
    let a : Access := .write (Tuple.plainText 1 ⟨[some "b", some "t"]⟩ "v") ⟨1001, 0⟩
    gathering.space.indirectTarget 1 = some ⟨⟨1, ⟨[some "x"]⟩⟩, rfl⟩ ∧
    (∀ i, (gathering.space.access a).indirectTarget i = gathering.space.indirectTarget i) ∧
    ∀ m ∈ gathering.space.mutations a, m.rebinds = 0 := by
  intro a
  obtain ⟨-, -, hiff⟩ := Reachable.ordinary_keeps_iff (a := a) reachable_gathering rfl
  exact ⟨by decide +kernel, (hiff (by decide +kernel)).2 (by decide +kernel)⟩

/-- A text at a place where nothing was unbinds a subscription that covers it. -/
theorem not_kept_by_ordinary : ¬ ∀ (s : Session String) (a : Access),
    Reachable Allows s → a.isStoring = true →
    (∀ r ∈ s.space.records a, Reference.isMetaType r.tuple = false ∧
      ∀ t ∈ s.space.peek r.place, Reference.isMetaType t = false) →
    (∀ i, (s.space.access a).indirectTarget i = s.space.indirectTarget i) ∧
      ∀ m ∈ s.space.mutations a, m.rebinds = 0 := by
  intro hall
  let a : Access := .write (Tuple.plainText 1 ⟨[some "a", some "t"]⟩ "v") ⟨1001, 0⟩
  obtain ⟨hsame, -⟩ := hall gathering a reachable_gathering rfl (by decide +kernel)
  exact absurd (hsame 1) (by decide +kernel)

end Session

end Blackboard
