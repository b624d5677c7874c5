import Blackboard.Proofs.Kernel.Failures
import Blackboard.Proofs.Space.Following
import Blackboard.Proofs.Space.Reports

/-!
# Going through the first covered tuple

A subscription through a prototype starts at the first stored tuple that the prototype covers, and a
read through one looks there too. Both take the first tuple of all, not the first meta tuple: where
an ordinary tuple comes first, the subscription is bound to nothing and the read fails, whatever
meta tuples come after it.
-/

namespace Blackboard

namespace Store

/-- The first value with a property, in the order of locations. -/
def firstOf (s : Store) (P : Tuple → Bool) : Option Tuple := s.tuples.values.find? P

/-- A stored value with a property that comes before all others in the order of tuples. -/
structure IsFirst (s : Store) (P : Tuple → Bool) (t : Tuple) : Prop where
  stored : ∃ l, s.peek l = some t
  holds : P t = true
  least : ∀ l u, s.peek l = some u → P u = true → u = t ∨ Tuple.compare s.policy t u = .lt

/-- What the first value with a property names. -/
def firstTarget? (s : Store) (P : Tuple → Bool) : Option Reference :=
  (s.firstOf P).bind Reference.target?

/-- The values that a prototype is about. Whether they were read plays no part. -/
def follows (s : Store) (prototype t : Tuple) : Bool := prototype.ignoringFresh.covers s.policy t

/-- The meta tuples that a prototype is about. -/
def followsMeta (s : Store) (prototype t : Tuple) : Bool :=
  s.follows prototype t && Reference.isMetaType t

/-- The first tuple covered, if there is one, is a meta tuple. -/
def MetaFirst (s : Store) (prototype : Tuple) : Prop :=
  ∀ t ∈ s.firstOf (s.follows prototype), Reference.isMetaType t = true

instance (s : Store) (prototype : Tuple) : Decidable (s.MetaFirst prototype) :=
  inferInstanceAs (Decidable (∀ t ∈ s.firstOf _, _))

variable {s : Store} {P : Tuple → Bool} {t prototype : Tuple}

theorem firstOf_eq_none_iff :
    s.firstOf P = none ↔ ∀ l t, s.peek l = some t → P t = false := by
  rw [firstOf, List.find?_eq_none]
  constructor
  · intro hnone l t ht
    exact Bool.not_eq_true _ ▸ hnone t ((Table.mem_values_iff ..).2 ⟨l, ht⟩)
  · intro hnone t ht
    obtain ⟨l, ht⟩ := (Table.mem_values_iff ..).1 ht
    exact Bool.not_eq_true _ ▸ hnone l t ht

/-- The values are listed in the order of tuples, so the first one found is the least. -/
theorem Sound.isFirst_of_firstOf (hs : s.Sound) (h : s.firstOf P = some t) : s.IsFirst P t := by
  obtain ⟨hP, before, after, hvalues, hbefore⟩ := List.find?_eq_some_iff_append.1 h
  have hsorted := hs.sorted_values
  rw [hvalues] at hsorted
  constructor
  case stored =>
    apply (Table.mem_values_iff ..).1
    rw [hvalues]
    exact List.mem_append_right _ List.mem_cons_self
  case holds => exact hP
  case least =>
    intro l u hu hPu
    have hmem : u ∈ s.tuples.values := (Table.mem_values_iff ..).2 ⟨l, hu⟩
    rw [hvalues] at hmem
    rcases List.mem_append.1 hmem with hmem | hmem
    · exact absurd (hbefore u hmem) (by simp [hPu])
    rcases List.mem_cons.1 hmem with heq | hmem
    · exact .inl heq
    · exact .inr ((List.pairwise_cons.1 (List.pairwise_append.1 hsorted).2.1).1 u hmem)

theorem IsFirst.unique {u : Tuple} (h : s.IsFirst P t) (hu : s.IsFirst P u) : t = u := by
  obtain ⟨l, ht⟩ := h.stored
  obtain ⟨place, hplace⟩ := hu.stored
  rcases h.least place u hplace hu.holds with heq | hlt
  · exact heq.symm
  rcases hu.least l t ht h.holds with heq | hlt'
  · exact heq
  · have hself : Tuple.compare s.policy t t = .lt := Std.TransCmp.lt_trans hlt hlt'
    have hequal : Tuple.compare s.policy t t = .eq := Std.ReflCmp.compare_self
    exact nomatch hequal.symm.trans hself

theorem Sound.firstOf_eq_some_iff (hs : s.Sound) : s.firstOf P = some t ↔ s.IsFirst P t := by
  constructor
  · exact hs.isFirst_of_firstOf
  · intro hfirst
    cases hfound : s.firstOf P with
    | none =>
      obtain ⟨l, ht⟩ := hfirst.stored
      exact absurd hfirst.holds (by simp [firstOf_eq_none_iff.1 hfound l t ht])
    | some u => rw [(hs.isFirst_of_firstOf hfound).unique hfirst]

theorem exists_ordinary_first (h : ¬ s.MetaFirst prototype) :
    ∃ t, s.firstOf (s.follows prototype) = some t ∧ Reference.isMetaType t = false := by
  simpa [MetaFirst] using h

/-- Where the first tuple covered is a meta tuple, it is the first meta tuple covered. -/
theorem firstOf_followsMeta (h : s.MetaFirst prototype) :
    s.firstOf (s.followsMeta prototype) = s.firstOf (s.follows prototype) := by
  cases hfound : s.firstOf (s.follows prototype) with
  | none =>
    rw [firstOf_eq_none_iff] at hfound ⊢
    intro l t ht
    rw [followsMeta, hfound l t ht, Bool.false_and]
  | some t =>
    obtain ⟨hcovers, before, after, hvalues, hbefore⟩ := List.find?_eq_some_iff_append.1 hfound
    refine List.find?_eq_some_iff_append.2 ⟨?_, before, after, hvalues, fun u hu => ?_⟩
    · rw [followsMeta, hcovers, h t hfound]
      rfl
    · have hskipped := hbefore u hu
      rw [Bool.not_eq_true'] at hskipped
      rw [followsMeta, hskipped]
      rfl

theorem firstTarget?_followsMeta (h : s.MetaFirst prototype) :
    s.firstTarget? (s.followsMeta prototype) = s.firstTarget? (s.follows prototype) := by
  rw [firstTarget?, firstOf_followsMeta h, firstTarget?]

theorem firstTarget?_of_ordinary (h : ¬ s.MetaFirst prototype) :
    s.firstTarget? (s.follows prototype) = none := by
  obtain ⟨t, hfirst, ht⟩ := exists_ordinary_first h
  rw [firstTarget?, hfirst]
  exact Reference.target?_of_ordinary ht

theorem head?_matching (s : Store) (prototype : Tuple) :
    (s.matching prototype.ignoringFresh).head? = s.firstOf (s.follows prototype) :=
  List.head?_filter

/-- What a search for the first value gives is the first one covered, as it was before. -/
theorem Sound.first_eq (hs : s.Sound) (prototype : Tuple) :
    (s.first prototype.ignoringFresh).2 = s.firstOf (s.follows prototype) :=
  (hs.first_snd _).trans (head?_matching ..)

end Store

namespace Session

variable {κ : Type} [Callback κ]

theorem indirectTarget_subscribeIndirect (s : Session κ) (i : Handle) (prototype : Tuple)
    (callback : Option κ) :
    (s.step (.subscribeIndirect i prototype callback)).space.indirectTarget i
      = s.space.store.firstTarget? (s.space.store.follows prototype) := by
  have hpointer : (s.step (.subscribeIndirect i prototype callback)).space.resolver.pointer? i
      = some (.first (s.space.store.firstOf (s.space.store.follows prototype))) := by
    rw [← Store.head?_matching]
    exact (Bindings.pointer?_register ..).trans (if_pos rfl)
  rw [Space.indirectTarget, Resolver.target?_eq_pointer?, hpointer, Store.firstTarget?]
  cases s.space.store.firstOf (s.space.store.follows prototype) with
  | none => rfl
  | some t => rfl

end Session

namespace Kernel

/-- What is read through a tuple: the value where it points, which is seen by then if that is the
tuple itself. -/
def readThrough (k : Kernel) (m : Tuple) : Except KernelError (Option Tuple) :=
  match Reference.resolve m with
  | .error e => .error (.tuple e)
  | .ok none => .ok none
  | .ok (some r) => .ok <| (k.space.peek r.location).map fun t =>
    if m.owner = some r.location.owner ∧ m.key = r.location.key then { t with fresh := some false }
    else t

/-- What is read through the first value with a property. -/
def readFirst (k : Kernel) (P : Tuple → Bool) : Except KernelError (Option Tuple) :=
  (k.space.store.firstOf P).elim (.ok none) k.readThrough

variable {k : Kernel}

/-- A reference names a location without wildcards, where reading finds what is stored. -/
theorem get_reference_eq (k : Kernel) (r : Reference) :
    (k.get r.location false).2 = .ok (k.space.peek r.location) := by
  have hconcrete : r.location.requireConcrete = .ok () := if_pos r.concrete
  have hpeek : k.space.store.countRead.peek r.location = k.space.store.peek r.location := rfl
  rw [get, Space.get, Store.get, hconcrete]
  simp only [bind, Except.bind, pure, Except.pure, hpeek, Bool.false_and, Bool.false_eq_true,
    if_false]
  cases hfound : k.space.store.peek r.location with
  | none => exact congrArg Except.ok hfound.symm
  | some t => exact congrArg Except.ok hfound.symm

/-- A read through a prototype goes through the first value covered. -/
theorem getIndirect_eq (hs : k.space.store.Sound) (prototype : Tuple) :
    (k.getIndirect prototype false).2 = k.readFirst (k.space.store.follows prototype) := by
  have hfirst : (k.first prototype.ignoringFresh).2
      = k.space.store.firstOf (k.space.store.follows prototype) := hs.first_eq prototype
  rw [getIndirect, readFirst]
  simp only [hfirst]
  cases hfound : k.space.store.firstOf (k.space.store.follows prototype) with
  | none => rfl
  | some m =>
    obtain ⟨l, hl, hstore⟩ := Store.first_eq_some ((hs.first_eq prototype).trans hfound)
    obtain ⟨howner, hkey⟩ := Tuple.location_owner_key (hs.filed l m hl)
    simp only [Option.elim_some, readThrough]
    cases Reference.resolve m with
    | error e => rfl
    | ok target =>
      cases target with
      | none => rfl
      | some r =>
        have hpeek : (k.first prototype.ignoringFresh).1.space.peek r.location
            = (k.space.peek r.location).map fun t =>
              if r.location = l then { t with fresh := some false } else t := by
          show (k.space.store.first prototype.ignoringFresh).1.peek r.location = _
          rw [hstore]
          exact Store.peek_markSeen ..
        have hsame : (m.owner = some r.location.owner ∧ m.key = r.location.key) ↔
            r.location = l := by
          rw [howner, hkey, Option.some.injEq, ← Location.mk.injEq]
          exact eq_comm
        refine (get_reference_eq ..).trans ?_
        rw [hpeek]
        simp only [hsame]

theorem serveNext_getIndirect (h : k.Reachable) (prototype : Tuple) :
    (k.serveNext (.getIndirect prototype false)).2
      = k.readFirst (k.space.store.follows prototype) := by
  have hstore := k.store_applyQueued
  have hsound : k.applyQueued.space.store.Sound := hstore ▸ h.coherent.sound
  have hread (m : Tuple) : k.applyQueued.readThrough m = k.readThrough m := by
    simp only [readThrough, Space.peek, hstore]
  rw [serveNext, serve, getIndirect_eq hsound, readFirst, readFirst, hstore]
  cases k.space.store.firstOf (k.space.store.follows prototype) with
  | none => rfl
  | some m => exact hread m

theorem readFirst_followsMeta {prototype : Tuple} (h : k.space.store.MetaFirst prototype) :
    k.readFirst (k.space.store.followsMeta prototype)
      = k.readFirst (k.space.store.follows prototype) := by
  rw [readFirst, Store.firstOf_followsMeta h, readFirst]

/-- An ordinary value cannot be read through. -/
theorem readFirst_of_ordinary {prototype : Tuple} (h : ¬ k.space.store.MetaFirst prototype) :
    ∃ t, k.space.store.firstOf (k.space.store.follows prototype) = some t ∧
      k.readFirst (k.space.store.follows prototype)
        = .error (.tuple (.invalidMeta (t.render ++ " is not a meta tuple"))) := by
  obtain ⟨t, hfirst, ht⟩ := Store.exists_ordinary_first h
  refine ⟨t, hfirst, ?_⟩
  rw [readFirst, hfirst, Option.elim_some, readThrough, Reference.resolve_of_ordinary ht]

end Kernel

variable {κ : Type} [Callback κ]

/-- A subscription through a prototype is bound to what the first value covered names, and a read
through it answers by that value. This is the first meta tuple covered unless an ordinary value
comes before it; then the subscription is bound to nothing and the read fails. -/
theorem goes_through_first_covered {guard : Session κ → Operation κ → Prop} {s : Session κ}
    {k : Kernel} (hs : Session.Reachable guard s) (hk : k.Reachable) (prototype : Tuple) :
    let store := s.space.store
    let store' := k.space.store
    (∀ P t, (store.firstOf P = some t ↔ store.IsFirst P t) ∧
      (store'.firstOf P = some t ↔ store'.IsFirst P t)) ∧
    (∀ i callback,
      let target := (s.step (.subscribeIndirect i prototype callback)).space.indirectTarget i
      target = store.firstTarget? (store.follows prototype) ∧
      (store.MetaFirst prototype → target = store.firstTarget? (store.followsMeta prototype)) ∧
      (¬ store.MetaFirst prototype → target = none)) ∧
    ∃ next, Client.getIndirectBy prototype {} k = (k, .ask (.getIndirect prototype false) next) ∧
      (∀ answer, next answer = .done answer) ∧
      let given := (k.serveNext (.getIndirect prototype false)).2
      given = k.readFirst (store'.follows prototype) ∧
      (store'.MetaFirst prototype → given = k.readFirst (store'.followsMeta prototype)) ∧
      (¬ store'.MetaFirst prototype → ∃ t, store'.firstOf (store'.follows prototype) = some t ∧
        given = .error (.tuple (.invalidMeta (t.render ++ " is not a meta tuple")))) := by
  intro store store'
  refine ⟨fun P t => ⟨hs.coherent.sound.firstOf_eq_some_iff,
    hk.coherent.sound.firstOf_eq_some_iff⟩, ?_, _, rfl, fun answer => by cases answer <;> rfl, ?_⟩
  · intro i callback target
    have htarget : target = store.firstTarget? (store.follows prototype) :=
      s.indirectTarget_subscribeIndirect i prototype callback
    refine ⟨htarget, fun hmeta => ?_, fun hordinary => ?_⟩
    · exact htarget.trans (Store.firstTarget?_followsMeta hmeta).symm
    · exact htarget.trans (Store.firstTarget?_of_ordinary hordinary)
  · intro given
    have hgiven : given = k.readFirst (store'.follows prototype) :=
      Kernel.serveNext_getIndirect hk prototype
    refine ⟨hgiven, fun hmeta => ?_, fun hordinary => ?_⟩
    · exact hgiven.trans (Kernel.readFirst_followsMeta hmeta).symm
    · obtain ⟨t, hfirst, hread⟩ := Kernel.readFirst_of_ordinary hordinary
      exact ⟨t, hfirst, hgiven.trans hread⟩

/-! ## Both kinds of tuples under one prototype -/

def underA : Tuple := .locator (some 1) ⟨[some "a", none]⟩

def atX : Reference := ⟨⟨1, ⟨[some "x"]⟩⟩, isConcrete_x⟩

/-- A text and a meta tuple that one prototype covers, and what the meta tuple names. -/
def mixture (segment : String) : List Tuple :=
  [.plainText 1 ⟨[some "a", some segment]⟩ "v",
    Reference.metaTuple ⟨1, ⟨[some "a", some "b"]⟩⟩ (some atX), .plainText 1 atX.location.key "w"]

def storing (ts : List Tuple) : Session String :=
  (Session.start 1 .insensitive false {}).run (ts.map fun t => .access (.write t ⟨1000, 0⟩))

def serving (ts : List Tuple) : Kernel :=
  ts.foldl (fun k t => k.after (.serve (.insert t)))
    (.opened { publishAllKeys := false } (.standalone false) ⟨1000000000⟩)

theorem reachable_storing (segment : String) :
    Session.Reachable Session.Allows (storing (mixture segment)) :=
  ⟨1, .insensitive, false, {}, Session.runs_run ⟨trivial, trivial, trivial, trivial⟩⟩

theorem reachable_serving (ts : List Tuple) : (serving ts).Reachable := by
  have hstart : (Kernel.opened { publishAllKeys := false } (.standalone false)
      ⟨1000000000⟩).Reachable := .start (Kernel.start_eq_ok_iff.2 ⟨by decide, by decide, rfl⟩)
  suffices h : ∀ k : Kernel, k.Reachable →
      (ts.foldl (fun k t => k.after (.serve (.insert t))) k).Reachable from h _ hstart
  induction ts with
  | nil => exact fun k hk => hk
  | cons t rest ih => exact fun k hk => ih _ (hk.after _)

/-- A text behind the meta tuple is no obstacle. -/
theorem mixture_gone_through :
    let s := storing (mixture "c")
    let k := serving (mixture "c")
    (s.step (.subscribeIndirect 1 underA none)).space.indirectTarget 1 = some atX ∧
      (k.serveNext (.getIndirect underA false)).2 = .ok (k.space.peek atX.location) ∧
      (k.space.peek atX.location).isSome = true := by
  intro s k
  obtain ⟨-, htarget, -, -, -, -, hgiven, -⟩ :=
    goes_through_first_covered (reachable_storing "c") (reachable_serving (mixture "c")) underA
  refine ⟨((htarget 1 none).2.1 (by decide +kernel)).trans (by decide +kernel),
    (hgiven (by decide +kernel)).trans (by decide +kernel), by decide +kernel⟩

/-- Behind a text, the meta tuple is found neither by a subscription nor by a read. -/
theorem not_gone_through :
    (¬ ∀ (s : Session String) (prototype : Tuple), Session.Reachable Session.Allows s →
      (s.step (.subscribeIndirect 1 prototype none)).space.indirectTarget 1
        = s.space.store.firstTarget? (s.space.store.followsMeta prototype)) ∧
    ¬ ∀ (k : Kernel) (prototype : Tuple), k.Reachable →
      (k.serveNext (.getIndirect prototype false)).2
        = k.readFirst (k.space.store.followsMeta prototype) := by
  constructor
  · intro hall
    exact absurd (hall _ underA (reachable_storing "a")) (by decide +kernel)
  · intro hall
    exact absurd (hall _ underA (reachable_serving (mixture "a"))) (by decide +kernel)

end Blackboard
