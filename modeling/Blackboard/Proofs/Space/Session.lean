import Mathlib.Logic.Relation
import Blackboard.Proofs.Subscription
import Blackboard.Proofs.Space.Effects

/-!
# Sessions

A session is a space with a ledger of what its callers did: the handles they were given, the handles
they registered something under, and the registrations they did not take back. The space knows nothing
of the ledger. It is there to say what callers may do, each handle being good for one registration, and
what they may expect.

`Reachable` are the sessions that a run of operations can lead to, for a guard that says which
operations the run may consist of.
-/

namespace Blackboard

inductive Access where
  | write (t : Tuple) (now : Timestamp)
  | writeReplica (t : Tuple) (now : Timestamp)
  | delete (l : Location) (remover : Option Owner) (now : Timestamp)
  | expire (now : Timestamp)
  | append (p : Tuple) (suffix : List UInt8) (expected : Option Nat) (now : Timestamp)
  | get (l : Location) (onlyFresh : Bool)
  | search (p : Tuple)
  | first (p : Tuple)

inductive Operation (κ : Type) where
  | access (a : Access)
  | allocate
  | subscribe (h : Handle) (subscription : Subscription κ)
  | subscribeIndirect (h : Handle) (prototype : Tuple) (callback : Option κ)
  | unsubscribe (h : Handle)

/-- What the callers of a space did. -/
structure Ledger (κ : Type) where
  /-- The handles that callers took themselves, callbacks aside. -/
  handed : List Handle
  /-- The handles that something was registered under. -/
  used : List Handle := []
  direct : Table Handle (Subscription κ) := .empty
  /-- The indirect subscriptions that were not taken back: prototype and callback. -/
  indirect : Table Handle (Tuple × Option κ) := .empty

structure Session (κ : Type) where
  space : Space κ
  ledger : Ledger κ

variable {κ : Type}

namespace Space

/-- The space after an operation with this result. One that fails leaves it as it is. -/
def settled {α : Type} (s : Space κ) : Except TupleError (Space κ × α) → Space κ
  | .ok (s', _) => s'
  | .error _ => s

theorem becomes_settled [Callback κ] {α : Type} {s : Space κ} (hs : s.store.Sound)
    {r : Except TupleError (Space κ × α)}
    (h : ∀ {s' m}, r = .ok (s', m) → ∃ changes, s.Becomes changes s' ∧ Change.Tidy changes) :
    ∃ changes, s.Becomes changes (s.settled r) ∧ Change.Tidy changes := by
  cases r with
  | error e => exact ⟨[], .refl hs, .nil⟩
  | ok r => exact h rfl

def access [Callback κ] (s : Space κ) : Access → Space κ
  | .write t now => s.settled (s.write t now)
  | .writeReplica t now => s.settled (s.writeReplica t now)
  | .delete l remover now => s.settled (s.delete l remover now)
  | .expire now => (s.expire now).1
  | .append p suffix expected now => (s.append p suffix expected now).1
  | .get l onlyFresh => s.settled (s.get l onlyFresh)
  | .search p => (s.search p).1
  | .first p => (s.first p).1

/-- The locations that an operation sweeps. -/
def swept (s : Space κ) : Access → List Location
  | .expire now => s.store.due now
  | _ => []

/-- Every operation on tuples is a sequence of changes. -/
theorem becomes_access [Callback κ] {s : Space κ} (hs : s.store.Sound) (a : Access) :
    ∃ changes, s.Becomes changes (s.access a) ∧ Change.Tidy changes ∧
      ∀ l ∈ s.swept a, ∃ c ∈ changes, c.mode = .onDelete ∧ c.place = l := by
  have hnone {s' : Space κ} (h : ∃ changes, s.Becomes changes s' ∧ Change.Tidy changes) :
      ∃ changes, s.Becomes changes s' ∧ Change.Tidy changes ∧
        ∀ l ∈ ([] : List Location), ∃ c ∈ changes, c.mode = .onDelete ∧ c.place = l := by
    obtain ⟨changes, hbecomes, htidy⟩ := h
    exact ⟨changes, hbecomes, htidy, fun _ hl => nomatch hl⟩
  cases a with
  | write t now => exact hnone (becomes_settled hs (becomes_write hs))
  | writeReplica t now => exact hnone (becomes_settled hs (becomes_writeReplica hs))
  | delete l remover now => exact hnone (becomes_settled hs (becomes_delete hs))
  | expire now => exact becomes_expire hs now
  | append p suffix expected now =>
    exact hnone ⟨_, becomes_append hs p suffix expected now, tidy_additions ..⟩
  | get l onlyFresh => exact hnone (becomes_settled hs fun h => ⟨_, becomes_get hs h, .nil⟩)
  | search p => exact hnone ⟨_, becomes_search hs p, .nil⟩
  | first p => exact hnone ⟨_, becomes_first hs p, .nil⟩

/-- A write, or a copy that is accepted, of a tuple without the mark of a deletion; `u` is the value
that it stores. -/
def Stores [Callback κ] (s : Space κ) (a : Access) (place : Location) (u : Tuple) : Prop :=
  ∃ t now s' m,
    (a = .write t now ∧ s.write t now = .ok (s', m) ∨
      a = .writeReplica t now ∧ s.writeReplica t now = .ok (s', m)) ∧
    t.isDeletion = false ∧ t.location = .ok place ∧ m.tuple = some u

/-- A concrete tuple without the mark of a deletion can be written at any time. -/
theorem stores_write [Callback κ] (s : Space κ) {t : Tuple} {place : Location}
    (hdel : t.isDeletion = false) (hl : t.location = .ok place) (now : Timestamp) :
    s.Stores (.write t now) place { s.store.numbered place t now with fresh := some true } := by
  have hl' : ({ t with seqno := none } : Tuple).location = .ok place := by
    simpa [Tuple.location_eq_ok_iff, Tuple.isAbstract] using hl
  have hinsert : s.store.insert { t with seqno := none } now = .ok
      (s.store.put place (s.store.numbered place { t with seqno := none } now)) :=
    Store.insert_eq_ok.2 ⟨place, hl', rfl⟩
  have hwrite : ∃ s' m, s.write t now = .ok (s', m) := by
    rw [write, hdel]
    simp only [Bool.false_eq_true, if_false, hinsert, bind, Except.bind, pure, Except.pure]
    split
    next => exact ⟨_, _, rfl⟩
    next => exact ⟨_, _, rfl⟩
  obtain ⟨s', m, hok⟩ := hwrite
  obtain ⟨l, hl'', -, hm⟩ := write_eq_ok hdel hok
  obtain rfl := Except.ok.inj (hl.symm.trans hl'')
  exact ⟨t, now, s', m, .inl ⟨rfl, hok⟩, hdel, hl, hm⟩

theorem Stores.spec [Callback κ] {s : Space κ} {a : Access} {place : Location} {u : Tuple}
    (h : s.Stores a place u) :
    u.location = .ok place ∧ u.fresh = some true ∧
      (s.access a = s.stored place u ∨ ∃ t now, a = .write t now ∧ s.peek place = none ∧
        s.access a = (s.stored place u).refreshListing place.key now) := by
  obtain ⟨t, now, s', m, hop, hdel, hl, hu⟩ := h
  rcases hop with ⟨rfl, hok⟩ | ⟨rfl, hok⟩
  · obtain ⟨l, hl', hs', hm⟩ := write_eq_ok hdel hok
    obtain rfl := Except.ok.inj (hl.symm.trans hl')
    obtain rfl := Option.some.inj (hu.symm.trans hm)
    have haccess : s.access (.write t now) = s' := by rw [access, hok]; rfl
    refine ⟨Store.location_setFresh _ ((s.store.location_numbered now).2 hl), rfl, ?_⟩
    rw [haccess, hs']
    split
    next hnone =>
      refine .inr ⟨t, now, rfl, Option.isNone_iff_eq_none.1 hnone, ?_⟩
      rw [(Tuple.location_owner_key hl).2]
      rfl
    next => exact .inl rfl
  · obtain ⟨l, hl', ⟨-, rfl⟩ | ⟨hs', hm⟩⟩ := writeReplica_eq_ok hdel hok
    · cases hu
    · obtain rfl := Except.ok.inj (hl.symm.trans hl')
      obtain rfl := Option.some.inj (hu.symm.trans hm)
      have haccess : s.access (.writeReplica t now) = s' := by rw [access, hok]; rfl
      refine ⟨Store.location_setFresh _ ((s.store.location_copied now).2 hl), rfl, .inl ?_⟩
      rw [haccess, hs']
      rfl

/-- The store is a sound one, and all parts agree on the case of payloads. -/
structure Coherent (s : Space κ) : Prop where
  sound : s.store.Sound
  resolver_policy : s.bindings.resolver.policy = s.store.policy
  registry_policy : s.bindings.registry.policy = s.store.policy

theorem resolver_policy_notice [Callback κ] (s : Space κ) (c : Change) :
    (s.notice c).bindings.resolver.policy = s.bindings.resolver.policy := by
  rw [notice]
  split
  next =>
    rw [afterWrite_fst]
    exact Bindings.policy_rebindAll ..
  next => exact Bindings.policy_rebindAll ..

theorem registry_policy_notice [Callback κ] (s : Space κ) (c : Change) :
    (s.notice c).bindings.registry.policy = s.bindings.registry.policy := by
  rw [notice]
  split
  next =>
    rw [afterWrite_fst]
    exact Bindings.registry_policy_rebindAll ..
  next => exact Bindings.registry_policy_rebindAll ..

theorem registration?_notice [Callback κ] (s : Space κ) (c : Change) (i : Handle) :
    (s.notice c).bindings.resolver.registration? i = s.bindings.resolver.registration? i := by
  rw [notice]
  split
  next =>
    rw [afterWrite_fst]
    exact Bindings.registration?_rebindAll ..
  next => exact Bindings.registration?_rebindAll ..

theorem Becomes.registration? [Callback κ] {s s' : Space κ} {changes : List Change}
    (h : s.Becomes changes s') (i : Handle) :
    s'.bindings.resolver.registration? i = s.bindings.resolver.registration? i :=
  h.invariant (I := fun space _ =>
      space.bindings.resolver.registration? i = s.bindings.resolver.registration? i)
    (fun _ _ _ h => h) (fun space _ c _ _ h => (space.registration?_notice c i).trans h) rfl

theorem Coherent.becomes [Callback κ] {s s' : Space κ} {changes : List Change} (h : s.Coherent)
    (hbecomes : s.Becomes changes s') : s'.Coherent where
  sound := hbecomes.sound
  resolver_policy := by
    rw [hbecomes.policy, ← h.resolver_policy]
    exact hbecomes.invariant
      (I := fun space _ => space.bindings.resolver.policy = s.bindings.resolver.policy)
      (fun _ _ _ h => h) (fun space _ c _ _ h => (space.resolver_policy_notice c).trans h) rfl
  registry_policy := by
    rw [hbecomes.policy, ← h.registry_policy]
    exact hbecomes.invariant
      (I := fun space _ => space.bindings.registry.policy = s.bindings.registry.policy)
      (fun _ _ _ h => h) (fun space _ c _ _ h => (space.registry_policy_notice c).trans h) rfl

/-- The space after a subscription is taken back. Where there is none it stays as it is. -/
def dropped (s : Space κ) (h : Handle) : Space κ :=
  match s.unsubscribe h with
  | .ok s' => s'
  | .error _ => s

theorem dropped_cases (s : Space κ) (h : Handle) :
    (∃ b, s.bindings.unregister h = .ok b ∧ s.dropped h = { s with bindings := b }) ∨
    s.bindings.resolver.entries.get? h = none ∧ s.dropped h
      = { s with bindings := { s.bindings with registry := s.bindings.registry.erase h } } := by
  cases he : s.bindings.resolver.entries.get? h with
  | some e =>
    have hcontains : s.resolver.contains h = true := Option.isSome_iff_exists.2 ⟨e, he⟩
    obtain ⟨b, hb⟩ : ∃ b, s.bindings.unregister h = .ok b := by
      rw [Bindings.unregister]
      simp [he]
    refine .inl ⟨b, hb, ?_⟩
    simp [dropped, unsubscribe, hcontains, hb, bind, Except.bind, pure, Except.pure]
  | none =>
    have hcontains : s.resolver.contains h = false := by
      simp [resolver, Resolver.contains, Table.contains, he]
    refine .inr ⟨rfl, ?_⟩
    cases hs : s.bindings.registry.get? h with
    | some subscription =>
      simp [dropped, unsubscribe, hcontains, registry, Registry.remove, hs, bind, Except.bind, pure,
        Except.pure]
    | none =>
      have hsame : s.bindings.registry.erase h = s.bindings.registry := by
        rw [Registry.erase, Table.erase_of_get?_eq_none hs]
      rw [hsame]
      simp [dropped, unsubscribe, hcontains, registry, Registry.remove, hs, bind, Except.bind]

theorem fired_dropped (s : Space κ) (h : Handle) : (s.dropped h).fired = s.fired := by
  rcases s.dropped_cases h with ⟨b, -, heq⟩ | ⟨-, heq⟩ <;> rw [heq]

theorem store_dropped (s : Space κ) (h : Handle) : (s.dropped h).store = s.store := by
  rcases s.dropped_cases h with ⟨b, -, heq⟩ | ⟨-, heq⟩ <;> rw [heq]

theorem localId_dropped (s : Space κ) (h : Handle) : (s.dropped h).localId = s.localId := by
  rcases s.dropped_cases h with ⟨b, -, heq⟩ | ⟨-, heq⟩ <;> rw [heq]

theorem keepsListing_dropped (s : Space κ) (h : Handle) :
    (s.dropped h).keepsListing = s.keepsListing := by
  rcases s.dropped_cases h with ⟨b, -, heq⟩ | ⟨-, heq⟩ <;> rw [heq]

theorem registration?_dropped (s : Space κ) (h other : Handle) :
    (s.dropped h).bindings.resolver.registration? other
      = if other = h then none else s.bindings.resolver.registration? other := by
  rcases s.dropped_cases h with ⟨b, hb, heq⟩ | ⟨hnone, heq⟩ <;> rw [heq]
  · exact Bindings.registration?_unregister hb other
  · split
    next heq => simp [Resolver.registration?, heq, hnone]
    next => rfl

theorem pointer?_dropped (s : Space κ) {h other : Handle} (hne : other ≠ h) :
    (s.dropped h).resolver.pointer? other = s.resolver.pointer? other := by
  rcases s.dropped_cases h with ⟨b, hb, heq⟩ | ⟨-, heq⟩ <;> rw [heq]
  · rw [resolver, Resolver.pointer?, Bindings.get?_unregister hb hne]
    rfl
  · rfl

theorem Coherent.dropped {s : Space κ} (hs : s.Coherent) (h : Handle) : (s.dropped h).Coherent := by
  rcases s.dropped_cases h with ⟨b, hb, heq⟩ | ⟨-, heq⟩ <;> rw [heq]
  · obtain ⟨hresolver, hregistry⟩ := Bindings.policies_unregister hb
    exact ⟨hs.sound, hresolver.trans hs.resolver_policy, hregistry.trans hs.registry_policy⟩
  · exact ⟨hs.sound, hs.resolver_policy, hs.registry_policy⟩

end Space

namespace Session

/-- The session with an empty space, after some handles were taken. -/
def start (localId : Owner) (policy : PayloadCase) (keepsListing : Bool) (handles : Allocator) :
    Session κ where
  space := .new localId policy keepsListing handles
  ledger := { handed := List.range' 1 handles.taken }

variable [Callback κ]

/-- A handle that a caller has: one it took itself, or one a callback took while it ran. -/
def Given (s : Session κ) (h : Handle) : Prop :=
  h ∈ s.ledger.handed ∨ h ∈ s.space.fired.flatMap Firing.taken

omit [Callback κ] in
/-- Something is registered under this handle. -/
def Live (s : Session κ) (h : Handle) : Prop :=
  s.ledger.direct.contains h = true ∨ s.ledger.indirect.contains h = true

def step (s : Session κ) : Operation κ → Session κ
  | .access a => { s with space := s.space.access a }
  | .allocate =>
    let (space, h) := s.space.allocate
    ⟨space, { s.ledger with handed := h :: s.ledger.handed }⟩
  | .subscribe h subscription =>
    ⟨s.space.subscribe h subscription, { s.ledger with
      used := h :: s.ledger.used
      direct := s.ledger.direct.insert h subscription }⟩
  | .subscribeIndirect h prototype callback =>
    ⟨s.space.subscribeIndirect h prototype callback, { s.ledger with
      used := h :: s.ledger.used
      indirect := s.ledger.indirect.insert h (prototype, callback) }⟩
  | .unsubscribe h =>
    ⟨s.space.dropped h, { s.ledger with
      direct := s.ledger.direct.erase h
      indirect := s.ledger.indirect.erase h }⟩

/-- What callers may do: register under a handle that they have and that is unused, and take back only
what they have a handle for. -/
def Allows (s : Session κ) : Operation κ → Prop
  | .access _ => True
  | .allocate => True
  | .subscribe h _ => s.Given h ∧ h ∉ s.ledger.used
  | .subscribeIndirect h _ _ => s.Given h ∧ h ∉ s.ledger.used
  | .unsubscribe h => s.Given h

/-- A run of operations that a guard lets pass leads from one session to another. -/
def Runs (guard : Session κ → Operation κ → Prop) : Session κ → Session κ → Prop :=
  Relation.ReflTransGen fun s s' => ∃ op, guard s op ∧ s' = s.step op

/-- A run of operations that a guard lets pass leads to this session from an empty space. -/
def Reachable (guard : Session κ → Operation κ → Prop) (s : Session κ) : Prop :=
  ∃ localId policy keepsListing handles, Runs guard (start localId policy keepsListing handles) s

def run (s : Session κ) (ops : List (Operation κ)) : Session κ := ops.foldl step s

variable {guard guard' : Session κ → Operation κ → Prop} {s s' : Session κ}

theorem Runs.invariant {I : Session κ → Prop} (h : Runs guard s s')
    (hstep : ∀ s op, I s → guard s op → I (s.step op)) (hs : I s) : I s' := by
  induction h with
  | refl => exact hs
  | tail _ hlast ih =>
    obtain ⟨op, hguard, rfl⟩ := hlast
    exact hstep _ op ih hguard

theorem Reachable.invariant {I : Session κ → Prop} (h : Reachable guard s)
    (hstart : ∀ localId policy keepsListing handles, I (start localId policy keepsListing handles))
    (hstep : ∀ s op, I s → guard s op → I (s.step op)) : I s := by
  obtain ⟨localId, policy, keepsListing, handles, hruns⟩ := h
  exact hruns.invariant hstep (hstart ..)

theorem Reachable.step (h : Reachable guard s) {op : Operation κ} (hop : guard s op) :
    Reachable guard (s.step op) := by
  obtain ⟨localId, policy, keepsListing, handles, hruns⟩ := h
  exact ⟨localId, policy, keepsListing, handles, hruns.tail ⟨op, hop, rfl⟩⟩

theorem Runs.mono (h : Runs guard s s') (himp : ∀ s op, guard s op → guard' s op) :
    Runs guard' s s' := by
  refine Relation.ReflTransGen.mono ?_ _ _ h
  rintro s s' ⟨op, hguard, rfl⟩
  exact ⟨op, himp s op hguard, rfl⟩

theorem Reachable.mono (h : Reachable guard s) (himp : ∀ s op, guard s op → guard' s op) :
    Reachable guard' s := by
  obtain ⟨localId, policy, keepsListing, handles, hruns⟩ := h
  exact ⟨localId, policy, keepsListing, handles, hruns.mono himp⟩

/-- A guard lets every operation of a run pass. -/
def Admits (guard : Session κ → Operation κ → Prop) : Session κ → List (Operation κ) → Prop
  | _, [] => True
  | s, op :: rest => guard s op ∧ Admits guard (s.step op) rest

theorem runs_run {ops : List (Operation κ)} (h : Admits guard s ops) : Runs guard s (s.run ops) := by
  induction ops generalizing s with
  | nil => exact .refl
  | cons op rest ih => exact .head ⟨op, h.1, rfl⟩ (ih h.2)

instance (s : Session κ) (h : Handle) : Decidable (s.Given h) :=
  inferInstanceAs (Decidable (_ ∨ _))

instance (s : Session κ) : DecidablePred s.Allows
  | .access _ => inferInstanceAs (Decidable True)
  | .allocate => inferInstanceAs (Decidable True)
  | .subscribe h _ => inferInstanceAs (Decidable (s.Given h ∧ h ∉ s.ledger.used))
  | .subscribeIndirect h _ _ => inferInstanceAs (Decidable (s.Given h ∧ h ∉ s.ledger.used))
  | .unsubscribe h => inferInstanceAs (Decidable (s.Given h))

instance decidableAdmits [∀ s op, Decidable (guard s op)] :
    (s : Session κ) → (ops : List (Operation κ)) → Decidable (Admits guard s ops)
  | _, [] => inferInstanceAs (Decidable True)
  | s, op :: rest =>
    have := decidableAdmits (s.step op) rest
    inferInstanceAs (Decidable (_ ∧ _))

/-! ## Taking back -/

/-- Takes back what is registered under each of these handles. -/
def unsubscribeAll (s : Session κ) (hs : List Handle) : Session κ := s.run (hs.map .unsubscribe)

theorem given_unsubscribe (s : Session κ) (i : Handle) : (s.step (.unsubscribe i)).Given = s.Given := by
  funext x
  rw [Given, step, Space.fired_dropped, Given]

theorem live_unsubscribe_iff (s : Session κ) (i x : Handle) :
    (s.step (.unsubscribe i)).Live x ↔ x ≠ i ∧ s.Live x := by
  simp only [Live, step, Table.contains, Table.get?_erase]
  by_cases hx : x = i <;> simp [hx]

/-! ## Coherence -/

omit [Callback κ] in
theorem coherent_start (localId : Owner) (policy : PayloadCase) (keepsListing : Bool)
    (handles : Allocator) :
    (start localId policy keepsListing handles : Session κ).space.Coherent :=
  ⟨Store.sound_new policy, rfl, rfl⟩

theorem coherent_step (h : s.space.Coherent) (op : Operation κ) : (s.step op).space.Coherent := by
  cases op with
  | access a =>
    obtain ⟨changes, hbecomes, -⟩ := Space.becomes_access h.sound a
    exact h.becomes hbecomes
  | allocate => exact ⟨h.sound, h.resolver_policy, h.registry_policy⟩
  | subscribe i subscription => exact ⟨h.sound, h.resolver_policy, h.registry_policy⟩
  | subscribeIndirect i prototype callback =>
    exact ⟨h.sound, (Bindings.policy_register ..).trans h.resolver_policy,
      (Bindings.registry_policy_register ..).trans h.registry_policy⟩
  | unsubscribe i => exact h.dropped i

theorem localId_step (s : Session κ) (hs : s.space.store.Sound) (op : Operation κ) :
    (s.step op).space.localId = s.space.localId := by
  cases op with
  | access a =>
    obtain ⟨changes, hbecomes, -⟩ := Space.becomes_access hs a
    exact hbecomes.localId
  | allocate => rfl
  | subscribe i subscription => rfl
  | subscribeIndirect i prototype callback => rfl
  | unsubscribe i => exact Space.localId_dropped ..

theorem keepsListing_step (s : Session κ) (hs : s.space.store.Sound) (op : Operation κ) :
    (s.step op).space.keepsListing = s.space.keepsListing := by
  cases op with
  | access a =>
    obtain ⟨changes, hbecomes, -⟩ := Space.becomes_access hs a
    exact hbecomes.keepsListing
  | allocate => rfl
  | subscribe i subscription => rfl
  | subscribeIndirect i prototype callback => rfl
  | unsubscribe i => exact Space.keepsListing_dropped ..

/-- The space of a session is coherent at all times, whatever its callers do. -/
theorem Reachable.coherent (h : Reachable guard s) : s.space.Coherent :=
  h.invariant (I := fun s => s.space.Coherent) coherent_start fun _ op hs _ => coherent_step hs op

/-! ## Registrations -/

omit [Callback κ] in
/-- The resolver has the indirect subscriptions that were not taken back, as they were registered. -/
def Registered (s : Session κ) : Prop :=
  ∀ i, s.space.bindings.resolver.registration? i
    = (s.ledger.indirect.get? i).map fun r => (r.1.ignoringFresh, r.2)

theorem registered_step (hc : s.space.Coherent) (h : s.Registered) (op : Operation κ) :
    (s.step op).Registered := by
  intro i
  cases op with
  | access a =>
    obtain ⟨changes, hbecomes, -⟩ := Space.becomes_access hc.sound a
    exact (hbecomes.registration? i).trans (h i)
  | allocate => exact h i
  | subscribe j subscription => exact h i
  | subscribeIndirect j prototype callback =>
    refine (Bindings.registration?_register ..).trans ?_
    rw [step, Table.get?_insert]
    split
    next => rfl
    next => exact h i
  | unsubscribe j =>
    refine (Space.registration?_dropped ..).trans ?_
    rw [step, Table.get?_erase]
    split
    next => rfl
    next => exact h i

theorem Reachable.registered (h : Reachable guard s) : s.Registered :=
  (h.invariant (I := fun s => s.space.Coherent ∧ s.Registered)
    (fun _ _ _ _ => ⟨coherent_start .., fun _ => rfl⟩)
    fun _ op hs _ => ⟨coherent_step hs.1 op, registered_step hs.1 hs.2 op⟩).2

end Session

/-- The key that the references of the examples name. -/
theorem isConcrete_x : Key.isConcrete ⟨[some "x"]⟩ = true := rfl

end Blackboard
