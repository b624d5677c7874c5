import Blackboard.Proofs.Matching.Patterns
import Blackboard.Proofs.Space.Standing

/-!
# Changes that nobody hears

Before it writes, a caller may ask whether any subscriber could be concerned. The answer is about the
registry as it is then, and the write may repoint indirect subscriptions, so that the registry it is
dispatched in is another one.

What makes the answer good for the write as well is the interest that each indirect subscription has in
the registry for as long as it lives: where a write repoints, the question was answered with yes.
-/

namespace Blackboard

variable {κ : Type}

namespace Registry

theorem hasSubscriber_iff {r : Registry κ} {p : Tuple} : r.hasSubscriber p = true ↔
    ∃ x subscription, r.get? x = some subscription ∧
      subscription.pattern.overlaps r.policy p = true := by
  rw [hasSubscriber, List.any_eq_true]
  constructor
  · rintro ⟨subscription, hmem, hoverlaps⟩
    obtain ⟨x, hx⟩ := (Table.mem_values_iff _ subscription).1 hmem
    exact ⟨x, subscription, hx, hoverlaps⟩
  · rintro ⟨x, subscription, hx, hoverlaps⟩
    exact ⟨subscription, (Table.mem_values_iff _ subscription).2 ⟨x, hx⟩, hoverlaps⟩

/-- A pattern without subscribers covers no tuple that is some subscription's. -/
theorem not_covers_of_hasSubscriber {r : Registry κ} {p t : Tuple} (hnone : r.hasSubscriber p = false)
    (hp : p.covers r.policy t = true) {x : Handle} {subscription : Subscription κ}
    (hx : r.get? x = some subscription) : ¬ subscription.pattern.covers r.policy t = true := by
  intro hcovers
  have hyes : r.hasSubscriber p = true :=
    hasSubscriber_iff.2 ⟨x, subscription, hx, Tuple.overlaps_of_covers hcovers hp⟩
  exact absurd (hnone.symm.trans hyes) Bool.false_ne_true

theorem matching_of_hasSubscriber {r : Registry κ} {p t : Tuple} (hnone : r.hasSubscriber p = false)
    (hp : p.covers r.policy t = true) (mode : Mode) : r.matching mode t = [] := by
  refine List.eq_nil_iff_forall_not_mem.2 fun ⟨x, callback⟩ hmem => ?_
  obtain ⟨subscription, hx, hconcerns, -⟩ := mem_matching_iff.1 hmem
  rw [concerns, Bool.and_eq_true] at hconcerns
  exact not_covers_of_hasSubscriber hnone hp hx hconcerns.2

end Registry

theorem Resolver.watches_iff {r : Resolver κ} {t : Tuple} : r.watches t = true ↔
    ∃ i prototype callback, r.registration? i = some (prototype, callback) ∧
      prototype.covers r.policy t = true := by
  rw [watches, List.any_eq_true]
  constructor
  · rintro ⟨e, hmem, hcovers⟩
    obtain ⟨i, hi⟩ := (Table.mem_values_iff _ e).1 hmem
    exact ⟨i, e.prototype, e.callback, by rw [registration?, hi]; rfl, hcovers⟩
  · rintro ⟨i, prototype, callback, hi, hcovers⟩
    obtain ⟨e, he, heq⟩ := Option.map_eq_some_iff.1 hi
    cases heq
    exact ⟨e, (Table.mem_values_iff _ e).2 ⟨i, he⟩, hcovers⟩

/-- An indirect subscription is entered with its interest. To bind it takes a fresh handle and leaves
that entry. -/
theorem Bindings.interest_register {b : Bindings κ} {i : Handle} (hi : b.Owned i) (prototype : Tuple)
    (callback : Option κ) (current : Option Tuple) :
    (b.register i prototype callback current).registry.get? i
      = some (.interest prototype.ignoringFresh) := by
  have hfiled : (b.register i prototype callback none).registry.get? i
      = some (.interest prototype.ignoringFresh) := Table.get?_insert_self ..
  cases current with
  | none => exact hfiled
  | some t =>
    have howned := (Steady.register b i prototype callback none).owned hi
    exact ((Steady.rebind (fun _ => False) ..).entry i howned id).trans hfiled

namespace Space

variable [Callback κ] {s s' : Space κ}

theorem dispatch_snd (s : Space κ) (mode : Mode) (t : Tuple) :
    (s.dispatch mode t).2 = (s.registry.matching mode t).length := by
  have hpairs := congrArg List.length
    (Registry.runAll_pairs (Registry.delivered mode t) s.handles (s.registry.matching mode t))
  rwa [List.length_map] at hpairs

theorem callbacks_delete {l : Location} {remover : Option Owner} {now : Timestamp} {m : Mutation}
    {u : Tuple} (hok : s.delete l remover now = .ok (s', m)) (hu : m.tuple = some u) :
    m.callbacks = (s.dispatch .onDelete u).2 := by
  rcases delete_eq_ok hok with ⟨-, -, rfl⟩ | ⟨t, -, -, rfl⟩
  · cases hu
  · obtain rfl := Option.some.inj hu
    rfl

theorem callbacks_deleteMarked {t : Tuple} {now : Timestamp} {m : Mutation} {u : Tuple}
    (hok : s.deleteMarked t now = .ok (s', m)) (hu : m.tuple = some u) :
    m.callbacks = (s.dispatch .onDelete u).2 := by
  rw [deleteMarked] at hok
  split at hok
  next => cases hok
  next => exact callbacks_delete hok hu

theorem callbacks_afterWrite (s : Space κ) (t : Tuple) : (s.afterWrite t).2.callbacks
    = ({ s with bindings := (s.bindings.retarget t).1 }.dispatch .onWrite t).2 :=
  congrArg (fun space : Space κ => (space.dispatch .onWrite t).2) (s.retarget_fst t)

/-- The callbacks for a stored value are those of the registry that it leaves by repointing what follows
it. -/
theorem callbacks_storing {l : Location} {t u : Tuple} (hu : (s.storing l t).2.tuple = some u) :
    (s.storing l t).2.callbacks
      = ({ s with bindings := (s.bindings.retarget u).1 }.dispatch .onWrite u).2 := by
  have hstored : (s.store.put l t).2.tuple = u := Option.some.inj hu
  rw [storing, hstored]
  exact callbacks_afterWrite ..

/-- A change of one value, with what it reports. -/
def Mutates (s : Space κ) (m : Mutation) : Prop :=
  (∃ t now s', s.write t now = .ok (s', m)) ∨ (∃ t now s', s.writeReplica t now = .ok (s', m)) ∨
    ∃ l remover now s', s.delete l remover now = .ok (s', m)

/-- What a change that reports a tuple ran: the callbacks for its removal, or those for its being
stored. -/
theorem Mutates.callbacks_eq {m : Mutation} (h : s.Mutates m) {u : Tuple} (hu : m.tuple = some u) :
    m.callbacks = (s.dispatch .onDelete u).2 ∨
      m.callbacks = ({ s with bindings := (s.bindings.retarget u).1 }.dispatch .onWrite u).2 := by
  rcases h with ⟨t, now, s', hok⟩ | ⟨t, now, s', hok⟩ | ⟨l, remover, now, s', hok⟩
  · cases hdel : t.isDeletion with
    | true =>
      rw [write, if_pos hdel] at hok
      exact .inl (callbacks_deleteMarked hok hu)
    | false =>
      rw [write_eq hdel] at hok
      cases hl : t.location with
      | error e => simp [hl, Except.map] at hok
      | ok l =>
        rw [hl] at hok
        cases hok
        exact .inr (callbacks_storing hu)
  · cases hdel : t.isDeletion with
    | true =>
      rw [writeReplica, if_pos hdel] at hok
      exact .inl (callbacks_deleteMarked hok hu)
    | false =>
      rw [writeReplica_eq hdel] at hok
      cases hl : t.location with
      | error e => simp [hl, Except.map] at hok
      | ok l =>
        simp only [hl, Except.map] at hok
        split at hok
        next =>
          obtain rfl := (Prod.mk.inj (Except.ok.inj hok)).2
          exact .inr (callbacks_storing hu)
        next =>
          cases hok
          cases hu
  · exact .inl (callbacks_delete hok hu)

end Space

namespace Session

variable [Callback κ] {s : Session κ} {p u : Tuple}

/-- What is registered is registered under a handle that the caller has and did not use before. -/
def RegistersOnce (s : Session κ) : Operation κ → Prop
  | .subscribe h _ | .subscribeIndirect h _ _ => s.Given h ∧ h ∉ s.ledger.used
  | .access _ | .allocate | .unsubscribe _ => True

instance (s : Session κ) : DecidablePred s.RegistersOnce
  | .subscribe h _ | .subscribeIndirect h _ _ =>
    inferInstanceAs (Decidable (s.Given h ∧ h ∉ s.ledger.used))
  | .access _ | .allocate | .unsubscribe _ => inferInstanceAs (Decidable True)

omit [Callback κ] in
/-- The registry has the interest of each indirect subscription, under a handle of its own. -/
def Interested (s : Session κ) : Prop :=
  ∀ i prototype callback, s.ledger.indirect.get? i = some (prototype, callback) →
    i ∈ s.ledger.used ∧ s.space.bindings.Owned i ∧
      s.space.registry.get? i = some (.interest prototype.ignoringFresh)

theorem interested_step (hs : s.space.store.Sound) (hr : s.Reserved) (h : s.Interested)
    {op : Operation κ} (hop : s.RegistersOnce op) : (s.step op).Interested := by
  have hsteady := s.steady_step hs op
  have hkept {i : Handle} {prototype : Tuple} {callback : Option κ}
      (hi : s.ledger.indirect.get? i = some (prototype, callback)) (hnamed : ¬ op.Names i) :
      (s.step op).space.bindings.Owned i ∧
        (s.step op).space.registry.get? i = some (.interest prototype.ignoringFresh) := by
    obtain ⟨-, howned, hentry⟩ := h i prototype callback hi
    exact ⟨hsteady.owned howned, (hsteady.entry i howned hnamed).trans hentry⟩
  intro i prototype callback hi
  cases op with
  | access a => exact ⟨(h i _ _ hi).1, hkept hi id⟩
  | allocate => exact ⟨(h i _ _ hi).1, hkept hi id⟩
  | subscribe j subscription =>
    -- The handle of an interest is used, so nothing can be registered in its place.
    have hused := (h i _ _ hi).1
    refine ⟨List.mem_cons_of_mem _ hused, hkept hi fun heq => hop.2 ?_⟩
    exact (show i = j from heq) ▸ hused
  | subscribeIndirect j new callback' =>
    simp only [step, Table.get?_insert] at hi
    split at hi
    next heq =>
      subst heq
      cases hi
      have howned := hr.owned i hop.1
      exact ⟨List.mem_cons_self, hsteady.owned howned, Bindings.interest_register howned ..⟩
    next hne => exact ⟨List.mem_cons_of_mem _ (h i _ _ hi).1, hkept hi hne⟩
  | unsubscribe j =>
    simp only [step, Table.get?_erase] at hi
    split at hi
    next => cases hi
    next hne => exact ⟨(h i _ _ hi).1, hkept hi hne⟩

theorem Reachable.interested (h : Reachable RegistersOnce s) : s.Interested := by
  refine (h.invariant (I := fun s => s.space.Coherent ∧ s.Reserved ∧ s.Interested)
    (fun localId policy keepsListing handles => ?_) fun s op hs hop => ?_).2.2
  · have hstart : Reachable RegistersOnce (start localId policy keepsListing handles : Session κ) :=
      ⟨localId, policy, keepsListing, handles, .refl⟩
    exact ⟨coherent_start .., hstart.reserved, fun _ _ _ h => nomatch h⟩
  · exact ⟨coherent_step hs.1 op, reserved_step hs.1.sound hs.2.1 op,
      interested_step hs.1.sound hs.2.1 hs.2.2 hop⟩

/-- No indirect subscription follows a tuple that a pattern without subscribers covers. -/
theorem Reachable.not_watches (h : Reachable RegistersOnce s)
    (hnone : s.space.hasSubscriber p = false) (hp : p.covers s.space.store.policy u = true) :
    s.space.bindings.resolver.watches u = false := by
  have hc := h.coherent
  refine Bool.eq_false_iff.2 fun hwatches => ?_
  obtain ⟨i, prototype, callback, hi, hcovers⟩ := Resolver.watches_iff.1 hwatches
  rw [h.registered i] at hi
  obtain ⟨⟨original, _⟩, hledger, heq⟩ := Option.map_eq_some_iff.1 hi
  cases heq
  obtain ⟨-, -, hentry⟩ := h.interested i _ _ hledger
  rw [← hc.registry_policy] at hp
  rw [hc.resolver_policy, ← hc.registry_policy] at hcovers
  exact Registry.not_covers_of_hasSubscriber hnone hp hentry hcovers

/-- If a pattern has no subscriber, a write, a copy or a deletion of a tuple that it covers runs no
callback. -/
theorem Reachable.unheard (h : Reachable RegistersOnce s)
    (hnone : s.space.hasSubscriber p = false) {m : Mutation} (hm : s.space.Mutates m)
    (hu : m.tuple = some u) (hp : p.covers s.space.store.policy u = true) : m.callbacks = 0 := by
  have hpolicy : p.covers s.space.registry.policy u = true := by
    rwa [Space.registry, h.coherent.registry_policy]
  have hsilent (mode : Mode) : (s.space.dispatch mode u).2 = 0 := by
    rw [Space.dispatch_snd, Registry.matching_of_hasSubscriber hnone hpolicy mode, List.length_nil]
  have hretarget : (s.space.bindings.retarget u).1 = s.space.bindings := by
    rw [Bindings.retarget_of_not_watches (h.not_watches hnone hp)]
  rcases hm.callbacks_eq hu with heq | heq
  · rw [heq, hsilent]
  · rw [heq, hretarget, hsilent]

theorem followed_unheard :
    let p : Tuple := .locator (some 1) ⟨[some "y", none]⟩
    let t := Tuple.plainText 1 ⟨[some "y", some "a"]⟩ "v"
    let u := { followed.space.store.numbered ⟨1, t.key⟩ t ⟨1001, 0⟩ with fresh := some true }
    Reachable RegistersOnce followed ∧ followed.space.hasSubscriber p = false ∧
      p.covers followed.space.store.policy u = true ∧
      ∃ m, followed.space.Mutates m ∧ m.tuple = some u ∧ m.callbacks = 0 := by
  intro p t u
  have hreach : Reachable RegistersOnce followed :=
    ⟨1, .insensitive, true, {}, runs_run (by decide +kernel)⟩
  have hnone : followed.space.hasSubscriber p = false := by decide +kernel
  have hp : p.covers followed.space.store.policy u = true := by decide +kernel
  obtain ⟨_, _, s', m, hop, -, -, hu⟩ := followed.space.stores_write (t := t) rfl rfl ⟨1001, 0⟩
  have hm : followed.space.Mutates m := by
    rcases hop with ⟨-, hok⟩ | ⟨-, hok⟩
    · exact .inl ⟨_, _, s', hok⟩
    · exact .inr (.inl ⟨_, _, s', hok⟩)
  exact ⟨hreach, hnone, hp, m, hm, hu, Reachable.unheard hreach hnone hm hu hp⟩

end Session

end Blackboard
