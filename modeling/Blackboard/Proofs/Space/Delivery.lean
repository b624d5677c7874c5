import Blackboard.Proofs.Space.Accounts
import Blackboard.Proofs.Space.Following

/-!
# What a write shows to whom

A value is followed up on in two steps: the indirect subscriptions that follow it are repointed, then
every callback that the registry has for its location runs on it once. A write that creates a key ends
with a new list of keys, which is stored and followed up on in the same way.
-/

namespace Blackboard

variable {κ : Type} [Callback κ]

namespace Space

variable {s mid : Space κ}

/-- The callbacks that were run on a tuple for an indirect subscription, which is bound in `mid`. -/
def runsFor (mid : Space κ) (i : Handle) (t : Tuple) (firings : List (Firing κ)) : List κ :=
  (firings.filter fun f => f.tuple = t ∧ mid.resolver.bound? i = some f.handle).map (·.callback)

omit [Callback κ] in
theorem runsFor_append_of_ne (mid : Space κ) (i : Handle) {t : Tuple} (new : List (Firing κ))
    {rest : List (Firing κ)} (h : ∀ f ∈ rest, f.tuple ≠ t) :
    mid.runsFor i t (new ++ rest) = mid.runsFor i t new := by
  have hnil : (rest.filter fun f => f.tuple = t ∧ mid.resolver.bound? i = some f.handle) = [] :=
    List.filter_eq_nil_iff.2 fun f hf => by simp [h f hf]
  rw [runsFor, List.filter_append, hnil, List.append_nil]
  rfl

/-- Following up on a value is one dispatch, over the subscriptions as they are once repointed. -/
theorem fired_stored (s : Space κ) (l : Location) (t : Tuple) :
    (s.stored l t).fired = s.fired ++
      ((s.bindings.retarget { t with fresh := some true }).1.registry.dispatch
        (s.bindings.retarget { t with fresh := some true }).1.handles .onWrite
        { t with fresh := some true }).2.2 := by
  rw [stored, afterWrite_fst]
  rfl

theorem registry_stored (s : Space κ) (l : Location) (t : Tuple) (x : Handle) :
    (s.stored l t).registry.get? x
      = (s.bindings.retarget { t with fresh := some true }).1.registry.get? x := by
  rw [stored, afterWrite_fst]
  rfl

theorem fired_refreshListing (s : Space κ) (changed : Key) (now : Timestamp) :
    ∃ new, (s.refreshListing changed now).fired = s.fired ++ new ∧
      ∀ f ∈ new, changed.render ≠ listingName ∧ f.tuple.key = listingKey := by
  by_cases h : s.keepsListing = false ∨ changed.render = listingName
  · rw [refreshListing_of_eq h]
    exact ⟨[], by simp, by simp⟩
  · obtain ⟨hkeep, hne⟩ := not_or.1 h
    obtain ⟨t, _, _, hl, heq⟩ := refreshListing_of_keepsListing (by simpa using hkeep) hne now
    rw [heq]
    refine ⟨_, s.fired_stored s.listingPlace t, fun f hf => ⟨hne, ?_⟩⟩
    rw [Registry.tuple_of_mem_dispatch _ _ _ _ hf]
    exact (Tuple.location_owner_key hl).2

/-- A stored value is shown to the callback of an indirect subscription once if that is bound to its
location, and not otherwise. -/
theorem runsFor_stored {place : Location} {u : Tuple} (hu : u.location = .ok place)
    {direct : Table Handle (Subscription κ)} {indirect : Table Handle (Tuple × Option κ)}
    {given : Handle → Prop}
    (hb : (s.stored place u).bindings.Accounted direct indirect given) {i : Handle} {p : Tuple}
    {callback : Option κ} (hi : indirect.get? i = some (p, callback)) :
    (s.stored place u).runsFor i { u with fresh := some false }
        ((s.stored place u).fired.drop s.fired.length)
      = if ((s.stored place u).indirectTarget i).map (·.location) = some place
        then callback.toList else [] := by
  rw [s.fired_stored place u, List.drop_left]
  generalize hbindings : (s.bindings.retarget { u with fresh := some true }).1 = b
  have hiff : ((s.stored place u).resolver.bound? i).isSome
      = ((s.stored place u).indirectTarget i).isSome := hb.bound_iff i
  cases hbound : (s.stored place u).resolver.bound? i with
  | none =>
    rw [hbound, Option.isSome_none, eq_comm, Option.isSome_eq_false_iff,
      Option.isNone_iff_eq_none] at hiff
    simp [runsFor, hbound, hiff]
  | some x =>
    rw [hbound, Option.isSome_some, eq_comm, Option.isSome_iff_exists] at hiff
    obtain ⟨r, hr⟩ := hiff
    have hentry : b.registry.get? x = some ⟨r.locator, .onWrite, callback⟩ := by
      rw [← hbindings, ← registry_stored]
      exact (hb.entry_iff ..).2 (.bound hi hr hbound)
    have hconcerns : Registry.concerns b.registry.policy .onWrite { u with fresh := some true }
        ⟨r.locator, .onWrite, callback⟩ = true ↔ r.location = place := by
      rw [Registry.concerns, decide_eq_true rfl, Bool.true_and]
      exact (Location.covers_pattern_iff_eq r.concrete (Store.location_setFresh _ hu)).trans eq_comm
    have hfilter : ((b.registry.dispatch b.handles .onWrite
        { u with fresh := some true }).2.2.filter fun f =>
          f.tuple = { u with fresh := some false } ∧
            (s.stored place u).resolver.bound? i = some f.handle)
        = (b.registry.dispatch b.handles .onWrite { u with fresh := some true }).2.2.filter
          fun f => f.handle = x :=
      List.filter_congr fun f hf => by
        simp [Registry.tuple_of_mem_dispatch _ _ _ _ hf, Registry.delivered, hbound, eq_comm]
    rw [runsFor, hfilter, Registry.filter_dispatch _ _ _ _ hentry, hr]
    simp only [hconcerns, Option.map_some, Option.some.injEq]

/-- Every callback that a stored value is shown to is one that is registered. -/
theorem entry_of_mem_stored {place : Location} {u : Tuple}
    {direct : Table Handle (Subscription κ)} {indirect : Table Handle (Tuple × Option κ)}
    {given : Handle → Prop} (hb : (s.stored place u).bindings.Accounted direct indirect given)
    {f : Firing κ} (hf : f ∈ (s.stored place u).fired.drop s.fired.length) :
    ∃ subscription, (s.stored place u).bindings.Entry direct indirect f.handle subscription ∧
      subscription.callback = some f.callback := by
  rw [s.fired_stored place u, List.drop_left] at hf
  obtain ⟨subscription, hget, -, hcallback⟩ := Registry.get?_of_mem_dispatch _ _ _ _ hf
  rw [← registry_stored] at hget
  exact ⟨subscription, (hb.entry_iff ..).1 hget, hcallback⟩

/-- Renewing the list of keys shows no other tuple to anybody. -/
theorem drop_fired_refreshListing (s : Space κ) {mid : Space κ} {place : Location} {u : Tuple}
    (hmid : mid = s.stored place u) (hu : u.location = .ok place) (now : Timestamp) :
    ∃ rest, (mid.refreshListing place.key now).fired.drop s.fired.length
        = mid.fired.drop s.fired.length ++ rest ∧
      ∀ f ∈ rest, f.tuple ≠ { u with fresh := some false } := by
  obtain ⟨rest, hrest, hkey⟩ := mid.fired_refreshListing place.key now
  refine ⟨rest, ?_, fun f hf heq => ?_⟩
  · rw [hrest, hmid, s.fired_stored place u, List.append_assoc, List.drop_left, List.drop_left]
  · obtain ⟨hne, hlisting⟩ := hkey f hf
    rw [heq] at hlisting
    have hplace : place.key = listingKey := (Tuple.location_owner_key hu).2.symm.trans hlisting
    exact hne (by rw [hplace, render_listingKey])

/-- What a write shows of the value that it stores, it shows before it renews the list of keys. -/
theorem Stores.drop_fired {a : Access} {place : Location} {u : Tuple} (h : s.Stores a place u) :
    ∃ rest, (s.access a).fired.drop s.fired.length
        = (s.stored place u).fired.drop s.fired.length ++ rest ∧
      ∀ f ∈ rest, f.tuple ≠ { u with fresh := some false } := by
  obtain ⟨hu, -, haccess⟩ := h.spec
  rcases haccess with heq | ⟨-, now, -, -, heq⟩ <;> rw [heq]
  · exact ⟨[], (List.append_nil _).symm, fun _ hf => nomatch hf⟩
  · exact s.drop_fired_refreshListing rfl hu now

omit [Callback κ] in
theorem indirectTarget_tracking {i : Handle} {p : Tuple} {callback : Option κ} {l : Location}
    (h : s.bindings.resolver.Follows i p callback (.tracking l (s.store.content l))) :
    s.indirectTarget i = (s.peek l).bind Reference.target? := by
  have htarget : s.indirectTarget i = (s.store.content l).bind Reference.target? := by
    rw [indirectTarget, Resolver.target?_eq_pointer?, resolver, h.2]
    rfl
  rw [htarget, Store.content, Option.bind_map]
  rfl

theorem Becomes.tracks {s' : Space κ} {changes : List Change} (h : s.Becomes changes s')
    {l : Location} (hl : l.key.isConcrete = true) {i : Handle} {callback : Option κ}
    (hf : s.bindings.resolver.Follows i l.pattern callback (.tracking l (s.store.content l))) :
    s'.bindings.resolver.Follows i l.pattern callback (.tracking l (s'.store.content l)) := by
  have hafter := h.follows hf
  rwa [Pointer.foldl_after_tracking hl h.placed, ← h.content] at hafter

/-- Renewing the list of keys moves a subscription to one location only if that is where the list is. -/
theorem indirectTarget_refreshListing (hs : s.store.Sound) {l : Location}
    (hl : l.key.isConcrete = true) {i : Handle} {callback : Option κ}
    (hf : s.bindings.resolver.Follows i l.pattern callback (.tracking l (s.store.content l)))
    (changed : Key) (now : Timestamp) :
    (s.refreshListing changed now).indirectTarget i = s.indirectTarget i ∨
      l = s.listingPlace ∧ s.keepsListing = true ∧ changed.render ≠ listingName := by
  by_cases hskip : s.keepsListing = false ∨ changed.render = listingName
  · exact .inl (by rw [refreshListing_of_eq hskip])
  · obtain ⟨hkeep, hne⟩ := not_or.1 hskip
    by_cases hlisting : l = s.listingPlace
    · exact .inr ⟨hlisting, by simpa using hkeep, hne⟩
    · obtain ⟨changes, hbecomes, hchanges⟩ := becomes_refreshListing hs changed now
      have hcontent : (s.refreshListing changed now).store.content l = s.store.content l := by
        rw [hbecomes.content]
        refine Change.replay_of_forall_ne (fun c hc => ?_) _
        rcases hchanges with rfl | ⟨-, t, rfl⟩
        · cases hc
        · obtain rfl := List.mem_singleton.1 hc
          exact Ne.symm hlisting
      have hafter := hbecomes.tracks hl hf
      refine .inl ?_
      rw [indirectTarget, indirectTarget, Resolver.target?_eq_pointer?,
        Resolver.target?_eq_pointer?, resolver, resolver, hafter.2, hf.2, hcontent]

end Space

namespace Session

variable {s : Session κ} {i : Handle} {callback : Option κ}

theorem Reachable.resolver_tracking {guard : Session κ → Operation κ → Prop}
    (h : Reachable guard s) {l : Location}
    (hl : l.key.isConcrete = true) (hi : s.ledger.indirect.get? i = some (l.pattern, callback)) :
    s.space.bindings.resolver.Follows i l.pattern callback
      (.tracking l (s.space.store.content l)) := by
  obtain ⟨w, hw⟩ := h.registered.exists_follows hi
  obtain rfl := h.tracking hl hw
  exact h.registered.resolver_follows hw

/-- A subscription to one location is bound to what the tuple there names, at all times. A write shows
the value it stores to the callback once if the value lies where the subscription is then bound to, and
not otherwise. The binding is still that one when the write is done, unless the subscription is to the
place of the list of keys and the list was renewed after a key was created. -/
theorem Reachable.follows_location (h : Reachable Allows s) {l : Location}
    (hl : l.key.isConcrete = true) (hi : s.ledger.indirect.get? i = some (l.pattern, callback)) :
    s.space.indirectTarget i = (s.space.peek l).bind Reference.target? ∧
    ∀ a place u, s.space.Stores a place u →
      let mid := s.space.stored place u
      let shown := (s.space.access a).fired.drop s.space.fired.length
      mid.indirectTarget i = (mid.peek l).bind Reference.target? ∧
      mid.runsFor i { u with fresh := some false } shown
        = (if (mid.indirectTarget i).map (·.location) = some place then callback.toList else []) ∧
      (∀ f ∈ shown, f.tuple = { u with fresh := some false } → ∃ subscription,
        mid.bindings.Entry s.ledger.direct s.ledger.indirect f.handle subscription ∧
          subscription.callback = some f.callback) ∧
      ((s.space.access a).indirectTarget i = mid.indirectTarget i ∨
        l = s.space.listingPlace ∧ s.space.keepsListing = true ∧ s.space.peek place = none ∧
          place.key.render ≠ Space.listingName) := by
  have hs := h.coherent.sound
  have hf := h.resolver_tracking hl hi
  refine ⟨Space.indirectTarget_tracking hf, fun a place u hstores => ?_⟩
  intro mid shown
  obtain ⟨hu, -, haccess⟩ := hstores.spec
  have hbecomes := Space.becomes_stored hs hu
  have hfmid := hbecomes.tracks hl hf
  have hb := accounted_becomes hbecomes h.accounted.bindings
  obtain ⟨rest, hshown, hrest⟩ := hstores.drop_fired
  refine ⟨Space.indirectTarget_tracking hfmid, ?_, ?_, ?_⟩
  · rw [show shown = _ from hshown, Space.runsFor_append_of_ne _ _ _ hrest]
    exact Space.runsFor_stored hu hb hi
  · intro f hmem htuple
    rw [show shown = _ from hshown] at hmem
    rcases List.mem_append.1 hmem with hmem | hmem
    · exact Space.entry_of_mem_stored hb hmem
    · exact absurd htuple (hrest f hmem)
  · rcases haccess with heq | ⟨-, now, -, hnone, heq⟩ <;> rw [heq]
    · exact .inl rfl
    · refine (Space.indirectTarget_refreshListing hbecomes.sound hl hfmid place.key now).imp_right ?_
      rintro ⟨hlisting, hkeep, hne⟩
      exact ⟨hlisting.trans (congrArg (Location.mk · Space.listingKey) hbecomes.localId),
        hbecomes.keepsListing.symm.trans hkeep, hnone, hne⟩

/-- A session with a meta tuple at a place, which names another, and a subscription to that place. -/
def pointed (place : Location) (target : Reference) : Session String :=
  (start 1 .insensitive true {}).run
    [.allocate, .access (.write (Reference.metaTuple place (some target)) ⟨1000, 0⟩),
      .subscribeIndirect 1 place.pattern (some "moved")]

theorem pointed_follows_location :
    let x : Reference := ⟨⟨1, ⟨[some "x"]⟩⟩, rfl⟩
    let s := pointed ⟨1, ⟨[some "m"]⟩⟩ x
    let t := Tuple.plainText 1 x.location.key "v"
    let u := { s.space.store.numbered x.location t ⟨1001, 0⟩ with fresh := some true }
    s.space.indirectTarget 1 = some x ∧
    (s.space.stored x.location u).runsFor 1 { u with fresh := some false }
      ((s.space.access (.write t ⟨1001, 0⟩)).fired.drop s.space.fired.length) = ["moved"] := by
  intro x s t u
  have hreach : Reachable Allows s := ⟨1, .insensitive, true, {}, runs_run (by decide +kernel)⟩
  let m : Location := ⟨1, ⟨[some "m"]⟩⟩
  have hi : s.ledger.indirect.get? 1 = some (m.pattern, some "moved") := by decide +kernel
  obtain ⟨htarget, hwrite⟩ := Reachable.follows_location hreach (l := m) rfl hi
  obtain ⟨-, hshown, -, -⟩ := hwrite _ _ _ (s.space.stores_write (t := t) rfl rfl ⟨1001, 0⟩)
  exact ⟨htarget.trans (by decide +kernel), hshown.trans (by decide +kernel)⟩

/-- The reference held once the write is done does not tell what the write showed: the new list of keys
may have taken the place of the meta tuple by then. -/
theorem shown_before_renewal : ¬ ∀ (s : Session String) (l : Location) (i : Handle)
    (callback : Option String) (a : Access) (place : Location) (u : Tuple),
    Reachable Allows s → l.key.isConcrete = true →
    s.ledger.indirect.get? i = some (l.pattern, callback) → s.space.Stores a place u →
    (s.space.stored place u).runsFor i { u with fresh := some false }
        ((s.space.access a).fired.drop s.space.fired.length)
      = if ((s.space.access a).indirectTarget i).map (·.location) = some place
        then callback.toList else [] := by
  intro hall
  let x : Reference := ⟨⟨1, ⟨[some "x"]⟩⟩, rfl⟩
  let s := pointed ⟨1, Space.listingKey⟩ x
  let t := Tuple.plainText 1 x.location.key "v"
  have hreach : Reachable Allows s := ⟨1, .insensitive, true, {}, runs_run (by decide +kernel)⟩
  have hshown := hall s ⟨1, Space.listingKey⟩ 1 (some "moved") _ _ _ hreach rfl (by decide +kernel)
    (s.space.stores_write (t := t) rfl rfl ⟨1001, 0⟩)
  exact absurd hshown (by decide +kernel)

end Session

end Blackboard
