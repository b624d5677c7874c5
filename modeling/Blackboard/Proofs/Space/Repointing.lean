import Blackboard.Proofs.Matching.Patterns
import Blackboard.Proofs.Reference
import Blackboard.Proofs.Space.Accounts
import Blackboard.Proofs.Space.Following
import Blackboard.Proofs.Space.History

/-!
# Setting a reference

A meta tuple that is written at a place is what the place resolves to and what the subscriptions to the
place are bound to. Both go through its payload, so they agree with the reference that was set exactly
if this is one that can be read back.
-/

namespace Blackboard

variable {κ : Type} [Callback κ]

namespace Space

variable {s : Space κ} {a : Access} {place : Location} {u p : Tuple} {i : Handle}
  {callback : Option κ} {w : Pointer}

theorem Stores.peek (h : s.Stores a place u) : (s.access a).peek place = some u := by
  obtain ⟨-, hfresh, haccess⟩ := h.spec
  have hself : { u with fresh := some true } = u := by rw [← hfresh]
  have hstored : (s.stored place u).peek place = some u := by
    rw [peek_stored, if_pos rfl, hself]
  rcases haccess with heq | ⟨t, now, -, -, heq⟩
  · rw [heq, hstored]
  · rw [heq, peek_refreshListing, hstored]

theorem Stores.write_eq_ok {t : Tuple} {now : Timestamp} (h : s.Stores (.write t now) place u) :
    ∃ s' m, s.write t now = .ok (s', m) ∧ m.tuple = some u := by
  obtain ⟨t', now', s', m, ⟨hsame, hok⟩ | ⟨hsame, -⟩, -, -, hm⟩ := h
  · cases hsame
    exact ⟨s', m, hok, hm⟩
  · cases hsame

/-- A subscription under the key of a value that is stored goes over to what the value names. -/
theorem Stores.follows (h : s.Stores a place u) (hs : s.Coherent) (hkey : p.key = place.key)
    (hcovers : p.covers s.store.policy u = true)
    (hf : s.bindings.resolver.Follows i p callback w) :
    (s.access a).bindings.resolver.Follows i p callback
      (.through (some place) (Reference.target? u)) := by
  obtain ⟨hu, hfresh, haccess⟩ := h.spec
  have hself : { u with fresh := some true } = u := by rw [← hfresh]
  have hbecomes := becomes_stored hs.sound hu
  have hmid := hbecomes.follows hf
  rw [List.foldl_cons, List.foldl_nil, Pointer.after_onWrite, hself, hs.resolver_policy,
    if_pos hcovers, Pointer.sourceOf_eq hu] at hmid
  rcases haccess with heq | ⟨t, now, -, -, heq⟩ <;> rw [heq]
  · exact hmid
  · obtain ⟨changes, hrenewed, hchanges⟩ := becomes_refreshListing hbecomes.sound place.key now
    have hafter := hrenewed.follows hmid
    rcases hchanges with rfl | ⟨hne, listing, rfl⟩
    · exact hafter
    · -- The list of keys lies under a key of its own, which the prototype does not cover.
      have hlisting : listing.key = listingKey :=
        (Tuple.location_owner_key (hrenewed.placed _ List.mem_cons_self)).2
      have hconcrete : p.key.isConcrete = true := hkey ▸ Tuple.isConcrete_of_location hu
      rw [List.foldl_cons, List.foldl_nil, Pointer.after_onWrite, if_neg] at hafter
      · exact hafter
      · intro hcovered
        have hsame : listing.key = p.key :=
          (Key.covers_iff_of_isConcrete hconcrete).1 (Tuple.covers_iff.1 hcovered).1
        apply hne
        rw [← hkey, ← hsame, hlisting, render_listingKey]

end Space

namespace Session

variable {s : Session κ}

/-- A bound subscription has an entry in the registry for the location that it is bound to. -/
theorem Reachable.bound_entry (h : Reachable Allows s) {i : Handle} {p : Tuple}
    {callback : Option κ} {r : Reference} (hi : s.ledger.indirect.get? i = some (p, callback))
    (htarget : s.space.indirectTarget i = some r) : ∃ x, s.space.resolver.bound? i = some x ∧
      s.space.registry.get? x = some ⟨r.locator, .onWrite, callback⟩ := by
  have hbindings := h.accounted.bindings
  have htarget : s.space.bindings.resolver.target? i = some r := htarget
  obtain ⟨x, hx⟩ : ∃ x, s.space.bindings.resolver.bound? i = some x := by
    apply Option.isSome_iff_exists.1
    rw [hbindings.bound_iff, htarget]
    rfl
  exact ⟨x, hx, (hbindings.entry_iff ..).2 (.bound hi htarget hx)⟩

/-- Setting a reference and resolving it gives the reference back exactly if it is readable. Every
subscription under the key that is about the meta tuple is then bound to it. -/
theorem Reachable.resolves_iff_readable (h : Reachable Allows s) {k : Key}
    (hk : k.isConcrete = true) (r : Reference) (now : Timestamp) :
    let place : Location := ⟨s.space.localId, k⟩
    (Reference.parse (Text.octets (Reference.encode (some r))) = .ok (some r) ↔ r.Readable) ∧
    ∃ s' m u, s.space.write (Reference.metaTuple place (some r)) now = .ok (s', m) ∧
      m.tuple = some u ∧ place.pattern.covers s.space.store.policy u = true ∧
      (s'.resolve place = .ok (some r) ↔ r.Readable) ∧
      ∀ i p callback, s.ledger.indirect.get? i = some (p, callback) → p.key = k →
        p.ignoringFresh.covers s.space.store.policy u = true →
        (s'.indirectTarget i = some r ↔ r.Readable) ∧
        (r.Readable → ∃ x, s'.resolver.bound? i = some x ∧
          s'.registry.get? x = some ⟨r.locator, .onWrite, callback⟩) := by
  intro place
  let t := Reference.metaTuple place (some r)
  let u := { s.space.store.numbered place t now with fresh := some true }
  have hl : t.location = .ok place := Reference.location_metaTuple hk (some r)
  have hstores : s.space.Stores (.write t now) place u := s.space.stores_write rfl hl now
  obtain ⟨s', m, hok, hm⟩ := hstores.write_eq_ok
  have haccess : s.space.access (.write t now) = s' := by rw [Space.access, hok]; rfl
  have hreads : Reference.resolve u = .ok (some r) ↔ r.Readable := by
    rw [Reference.resolve_of_meta (by rfl) (by rfl)]
    exact r.parse_encode_eq_ok_iff
  have hresolve : s'.resolve place = .ok (some r) ↔ r.Readable := by
    have hpeek : s'.store.peek place = some u := haccess ▸ hstores.peek
    rw [Space.resolve, hpeek]
    exact hreads
  refine ⟨r.parse_encode_eq_ok_iff, s', m, u, hok, hm, ?_, hresolve, ?_⟩
  · exact (Location.covers_pattern_iff hk).2 ⟨rfl, rfl⟩
  · intro i p callback hi hkey hcovers
    obtain ⟨w, hw⟩ := h.registered.exists_follows hi
    have hfollows := hstores.follows h.coherent (show p.ignoringFresh.key = k from hkey) hcovers
      (h.registered.resolver_follows hw)
    rw [haccess] at hfollows
    have htarget : s'.indirectTarget i = Reference.target? u := by
      rw [Space.indirectTarget, Resolver.target?_eq_pointer?, Space.resolver, hfollows.2,
        Option.bind_some, Pointer.through]
    have hnamed : s'.indirectTarget i = some r ↔ r.Readable := by
      rw [htarget, Reference.target?_eq_some_iff, hreads]
    have hallowed : Allows s (.access (.write t now)) := trivial
    have hafter : s.step (.access (.write t now)) = ⟨s', s.ledger⟩ := by
      rw [Session.step, haccess]
    refine ⟨hnamed, fun hreadable => ?_⟩
    exact (hafter ▸ h.step hallowed).bound_entry hi (hnamed.2 hreadable)

/-- A session with a subscription to a place where nothing is. -/
def expectant : Session String :=
  (start 1 .insensitive true {}).run
    [.allocate, .subscribeIndirect 1 (Location.pattern ⟨1, ⟨[some "m"]⟩⟩) (some "moved")]

theorem expectant_resolves :
    let m : Location := ⟨1, ⟨[some "m"]⟩⟩
    let y : Reference := ⟨⟨5, ⟨[some "temp", some "c"]⟩⟩, rfl⟩
    y.Readable ∧ ∃ s' report, expectant.space.write (Reference.metaTuple m (some y)) ⟨1000, 0⟩
        = .ok (s', report) ∧ s'.resolve m = .ok (some y) ∧ s'.indirectTarget 1 = some y ∧
      ∃ x, s'.registry.get? x = some ⟨y.locator, .onWrite, some "moved"⟩ := by
  intro m y
  have hreach : Reachable Allows expectant :=
    ⟨1, .insensitive, true, {}, runs_run (by decide +kernel)⟩
  have hreadable : y.Readable := by
    constructor
    · refine ⟨by decide, by decide, ?_, by decide +kernel⟩
      simp [y, Key.isSegment, Key.separator, Key.wildcard]
    · simp [y, Key.render, Key.isAny, Key.renderSegment, Key.separator, Text.isBlank]
  have hi : expectant.ledger.indirect.get? 1 = some (m.pattern, some "moved") := by decide +kernel
  obtain ⟨-, s', report, u, hok, -, hcovers, hresolve, hbound⟩ :=
    Reachable.resolves_iff_readable hreach (k := m.key) rfl y ⟨1000, 0⟩
  obtain ⟨htarget, hentry⟩ := hbound 1 m.pattern (some "moved") hi rfl hcovers
  obtain ⟨x, -, hx⟩ := hentry hreadable
  exact ⟨hreadable, s', report, hok, hresolve.2 hreadable, htarget.2 hreadable, x, hx⟩

/-- A blank in a key makes two words of it, and the payload names nothing any more. -/
theorem not_resolved_with_blank : ¬ ∀ r : Reference,
    Reference.parse (Text.octets (Reference.encode (some r))) = .ok (some r) := by
  intro hall
  have hreadable := (Reference.parse_encode_eq_ok_iff _).1
    (hall ⟨⟨5, ⟨[some "a b"]⟩⟩, rfl⟩)
  exact absurd (hreadable.unbroken ' ' (by decide)) (by decide)

end Session

end Blackboard
