import Mathlib.Data.List.Basic
import Blackboard.Proofs.Matching
import Blackboard.Proofs.Matching.Patterns
import Blackboard.Proofs.Store.Runs

/-!
# Searching

The store lists its values by location, and that is what the order of tuples looks at first. No two
values are at one location, so none compare equal, and there is one way to sort what was found.

`visit` takes no part in the store's own order: it goes to locations one by one in the order of a walk,
whatever that is. Searching and appending along any walk through all values, with what was found sorted
at the end, is the same as searching and appending.
-/

namespace Blackboard

namespace Table

variable {κ ν : Type} [Ord κ] [Std.TransOrd κ] [Std.LawfulEqOrd κ]

theorem filterMap_keys (t : Table κ ν) : t.keys.filterMap t.get? = t.values := by
  rw [keys, List.filterMap_map, values, ← List.filterMap_eq_map]
  exact List.filterMap_congr fun e he => (t.mem_entries_iff e.1 e.2).1 he

end Table

namespace Tuple

variable {policy : PayloadCase}

/-! ## Sorting -/

/-- Tuples of different locations are ordered as these are. -/
theorem compare_of_location {a b : Tuple} {l place : Location}
    (ha : a.location = .ok l) (hb : b.location = .ok place) (hlt : Ord.compare l place = .lt) :
    compare policy a b = .lt := by
  obtain ⟨howner, hkey⟩ := location_owner_key ha
  obtain ⟨howner', hkey'⟩ := location_owner_key hb
  have hsplit : ∃ rest : Ordering, compare policy a b
      = (Ord.compare a.owner b.owner).then ((Ord.compare a.key b.key).then rest) := ⟨_, rfl⟩
  obtain ⟨rest, hsplit⟩ := hsplit
  rw [hsplit, howner, howner', hkey, hkey', Ordering.then_eq_lt]
  rcases Ordering.then_eq_lt.1 ((Location.compare_eq l place).symm.trans hlt) with h | ⟨h, h'⟩
  · exact .inl h
  · exact .inr ⟨h, Ordering.then_eq_lt.2 (.inl h')⟩

/-- True if the tuple is concrete and names this location. -/
def isAt (l : Location) (t : Tuple) : Bool := t.location.toOption == some l

theorem isAt_iff {l : Location} {t : Tuple} : t.isAt l = true ↔ t.location = .ok l := by
  rw [isAt, beq_iff_eq]
  cases t.location <;> simp [Except.toOption]

theorem ne_of_compare_eq_lt {a b : Tuple} (h : compare policy a b = .lt) : a ≠ b := by
  rintro rfl
  have hself : compare policy a a = .eq := Std.ReflCmp.compare_self
  exact nomatch hself.symm.trans h

/-- Tuples in their order. Those that compare equal stay as they were. -/
def inOrder (policy : PayloadCase) (ts : List Tuple) : List Tuple :=
  ts.mergeSort fun a b => (compare policy a b).isLE

/-- Tuples of which no two compare equal have one order, however they came. -/
theorem inOrder_of_perm {ts us : List Tuple} (hperm : ts.Perm us)
    (hsorted : us.Pairwise fun a b => compare policy a b = .lt) : inOrder policy ts = us := by
  have hsame : (inOrder policy ts).Perm us := (List.mergeSort_perm ts _).trans hperm
  have hle : (inOrder policy ts).Pairwise fun a b => (compare policy a b).isLE = true := by
    refine List.pairwise_mergeSort (fun _ _ _ => Std.TransCmp.isLE_trans) (fun a b => ?_) ts
    have hswap : compare policy b a = (compare policy a b).swap := Std.OrientedCmp.eq_swap
    rw [hswap]
    cases compare policy a b <;> rfl
  have hne : (inOrder policy ts).Pairwise fun a b => compare policy a b ≠ .eq := by
    refine hsame.symm.pairwise (hsorted.imp fun h => by simp [h]) fun h heq => h ?_
    exact Std.OrientedCmp.eq_symm heq
  refine Table.eq_of_mem_iff ((hle.and hne).imp fun {a b} h => ?_) hsorted fun _ => hsame.mem_iff
  cases hab : compare policy a b <;> simp_all

end Tuple

namespace Store

variable {s : Store} {p t : Tuple}

/-- Changes of the values that leave them where they are keep them in their order. -/
theorem Sound.sorted_map (hs : s.Sound) {f : Tuple → Tuple}
    (hf : ∀ l t, t.location = .ok l → (f t).location = .ok l) :
    (s.tuples.values.map f).Pairwise fun t u => Tuple.compare s.policy t u = .lt := by
  rw [Table.values, List.map_map]
  refine List.pairwise_map.2 (s.tuples.sorted.imp_of_mem fun {a b} ha hb hlt => ?_)
  have ha := hf _ _ (hs.filed _ _ ((s.tuples.mem_entries_iff ..).1 ha))
  have hb := hf _ _ (hs.filed _ _ ((s.tuples.mem_entries_iff ..).1 hb))
  exact Tuple.compare_of_location ha hb hlt

theorem Sound.sorted_values (hs : s.Sound) :
    s.tuples.values.Pairwise fun t u => Tuple.compare s.policy t u = .lt := by
  have hsorted := hs.sorted_map (f := id) fun _ _ h => h
  rwa [List.map_id] at hsorted

theorem markSeen_of_peek_eq_none {l : Location} (hl : s.peek l = none) :
    s.countRead.markSeen l = s.countRead := by
  rw [markSeen, show s.countRead.peek l = none from hl]

theorem Sound.isAt_iff (hs : s.Sound) {l place : Location} (ht : s.peek place = some t) :
    t.isAt l = true ↔ place = l := by
  rw [Tuple.isAt_iff, hs.filed place t ht, Except.ok.injEq]

/-- Among the values there is one at a location at most, and it is the value there. -/
theorem Sound.filter_isAt (hs : s.Sound) (l : Location) :
    s.tuples.values.filter (·.isAt l) = (s.peek l).toList := by
  refine Table.eq_of_mem_iff (hs.sorted_values.filter _) ?_ fun t => ?_
  · cases s.peek l with
    | none => exact .nil
    | some t => exact List.pairwise_singleton ..
  · refine List.mem_filter.trans (.trans ?_ Option.mem_toList.symm)
    rw [Table.mem_values_iff]
    constructor
    · rintro ⟨⟨place, hplace⟩, hat⟩
      rwa [← (hs.isAt_iff hplace).1 hat]
    · intro ht
      exact ⟨⟨l, ht⟩, (hs.isAt_iff ht).2 rfl⟩

theorem mem_matching_iff :
    t ∈ s.matching p ↔ (∃ l, s.peek l = some t) ∧ p.covers s.policy t = true := by
  rw [matching, List.mem_filter, Table.mem_values_iff]
  rfl

theorem Sound.sorted_matching (hs : s.Sound) (p : Tuple) :
    (s.matching p).Pairwise fun t u => Tuple.compare s.policy t u = .lt :=
  hs.sorted_values.filter _

/-- What the first value found is given as is the head of what a search would give. -/
theorem Sound.first_snd (hs : s.Sound) (p : Tuple) : (s.first p).2 = (s.matching p).head? := by
  rw [Store.first]
  cases hmatching : s.matching p with
  | nil => rfl
  | cons t rest =>
    obtain ⟨⟨l, hl⟩, -⟩ := mem_matching_iff.1 (hmatching ▸ List.mem_cons_self : t ∈ s.matching p)
    simp only [hs.filed l t hl]
    exact hl

/-- What a search for the first value finds is given as it was, and counts as seen from then on. -/
theorem first_eq_some (h : (s.first p).2 = some t) :
    ∃ l, s.peek l = some t ∧ (s.first p).1 = s.countRead.markSeen l := by
  rw [first] at h ⊢
  split at h
  next => cases h
  next =>
    split at h
    next => cases h
    next l hl => exact ⟨l, h, rfl⟩

theorem first_eq_none (h : (s.first p).2 = none) : (s.first p).1 = s.countRead := by
  rw [first] at h ⊢
  split at h
  next => rfl
  next =>
    split at h
    next => rfl
    next l _ => exact markSeen_of_peek_eq_none h

/-- A narrower pattern finds some of what a wider one finds, in the same order. -/
theorem matching_sublist {q : Tuple} (h : p.covers s.policy q = true) :
    (s.matching q).Sublist (s.matching p) :=
  List.monotone_filter_right _ fun _ => Tuple.covers_trans h

/-! ## Walking -/

/-- Goes to locations one by one. Where the value has a property, it is changed, and what it gives is
collected. -/
def visit (P : Tuple → Bool) (give change : Tuple → Tuple) (s : Store) :
    List Location → Store × List Tuple
  | [] => (s, [])
  | l :: rest =>
    match s.peek l with
    | none => s.visit P give change rest
    | some t =>
      if P t then
        let (s, given) := visit P give change { s with tuples := s.tuples.insert l (change t) } rest
        (s, give t :: given)
      else s.visit P give change rest

def searchAlong (s : Store) (walk : List Location) (p : Tuple) : Store × List Tuple :=
  let (after, found) :=
    s.countRead.visit (p.covers s.policy) id (fun t => { t with fresh := some false }) walk
  (after, Tuple.inOrder s.policy found)

def matchingAlong (s : Store) (walk : List Location) (p : Tuple) : List Tuple :=
  Tuple.inOrder s.policy ((walk.filterMap s.peek).filter (p.covers s.policy))

/-- The first value that a search along a walk would find. It is seen from now on. -/
def firstAlong (s : Store) (walk : List Location) (p : Tuple) : Store × Option Tuple :=
  match s.matchingAlong walk p with
  | [] => (s.countRead, none)
  | t :: _ =>
    match t.location with
    | .error _ => (s.countRead, none)
    | .ok l => (s.countRead.markSeen l, s.peek l)

def appendAlong (s : Store) (walk : List Location) (p : Tuple) (suffix : List UInt8)
    (expected : Option Nat) (now : Timestamp) : Store × List Tuple :=
  let (after, changed) :=
    s.visit (s.isAppended p expected) (extend suffix now) (extend suffix now) walk
  ({ after with stats := { after.stats with writes := after.stats.writes + changed.length } },
    Tuple.inOrder s.policy changed)

variable {walk : List Location}

theorem visit_cons_of_none {s : Store} {P : Tuple → Bool} {l : Location}
    (hl : (s.peek l).filter P = none) (give change : Tuple → Tuple) (rest : List Location) :
    s.visit P give change (l :: rest) = s.visit P give change rest := by
  rw [visit]
  cases ht : s.peek l with
  | none => rfl
  | some t =>
    rw [ht, Option.filter_eq_none_iff] at hl
    exact if_neg (hl t rfl)

theorem visit_cons_of_some {s : Store} {P : Tuple → Bool} {l : Location}
    (hl : (s.peek l).filter P = some t) (give change : Tuple → Tuple) (rest : List Location) :
    s.visit P give change (l :: rest)
      = ((visit P give change { s with tuples := s.tuples.insert l (change t) } rest).1,
        give t :: (visit P give change { s with tuples := s.tuples.insert l (change t) } rest).2) := by
  obtain ⟨ht, hP⟩ := Option.filter_eq_some_iff.1 hl
  rw [visit, ht]
  exact if_pos hP

/-- A walk that comes to no location twice finds each value as it was before the walk. -/
theorem visit_spec (s : Store) (P : Tuple → Bool) (give change : Tuple → Tuple)
    (hwalk : walk.Nodup) : ∃ tuples,
    s.visit P give change walk
      = ({ s with tuples }, ((walk.filterMap s.peek).filter P).map give) ∧
    ∀ l, tuples.get? l = (s.peek l).map fun t => if l ∈ walk ∧ P t then change t else t := by
  simp only [List.filter_filterMap]
  induction walk generalizing s with
  | nil => exact ⟨s.tuples, rfl, fun l => by simp; rfl⟩
  | cons place rest ih =>
    obtain ⟨hplace, hrest⟩ := List.nodup_cons.1 hwalk
    cases hfound : (s.peek place).filter P with
    | none =>
      obtain ⟨tuples, hvisit, htuples⟩ := ih s hrest
      refine ⟨tuples, ?_, fun l => ?_⟩
      · rw [visit_cons_of_none hfound, hvisit,
          List.filterMap_cons_none (f := fun l => (s.peek l).filter P) hfound]
      · rw [htuples]
        refine Option.map_congr fun t ht => ?_
        by_cases heq : l = place
        · subst heq
          have hP : P t = false := by simpa using Option.filter_eq_none_iff.1 hfound t ht
          simp [hP]
        · simp [heq]
    | some t =>
      obtain ⟨ht, hP⟩ := Option.filter_eq_some_iff.1 hfound
      obtain ⟨tuples, hvisit, htuples⟩ :=
        ih { s with tuples := s.tuples.insert place (change t) } hrest
      have hpeek (l : Location) :
          peek { s with tuples := s.tuples.insert place (change t) } l
            = if l = place then some (change t) else s.peek l := Table.get?_insert ..
      -- The rest of the walk does not come back, so it finds what it would have found before.
      have hsame : (rest.filterMap fun l =>
            (peek { s with tuples := s.tuples.insert place (change t) } l).filter P)
          = rest.filterMap fun l => (s.peek l).filter P :=
        List.filterMap_congr fun l hl => by
          rw [hpeek, if_neg (ne_of_mem_of_not_mem hl hplace)]
      refine ⟨tuples, ?_, fun l => ?_⟩
      · rw [visit_cons_of_some hfound, hvisit, hsame,
          List.filterMap_cons_some (f := fun l => (s.peek l).filter P) hfound, List.map_cons]
      · rw [htuples, hpeek]
        by_cases heq : l = place
        · subst heq
          simp [hplace, ht, hP]
        · simp [heq]

/-- A walk comes to each location with a value once. -/
def IsWalk (s : Store) (walk : List Location) : Prop := walk.Perm s.tuples.keys

theorem IsWalk.perm_values (h : s.IsWalk walk) :
    (walk.filterMap s.peek).Perm s.tuples.values := by
  have hkeys : s.tuples.keys.filterMap s.peek = s.tuples.values := Table.filterMap_keys _
  exact hkeys ▸ List.Perm.filterMap _ h

/-- A walk through all values changes those that have the property and collects what they give. -/
theorem IsWalk.visit_eq (h : s.IsWalk walk) (P : Tuple → Bool) (give change : Tuple → Tuple) :
    ∃ given,
    s.visit P give change walk
      = ({ s with tuples := s.tuples.mapValues fun t => if P t then change t else t }, given) ∧
    given.Perm ((s.tuples.values.filter P).map give) := by
  obtain ⟨tuples, hvisit, htuples⟩ :=
    s.visit_spec P give change (h.nodup_iff.2 s.tuples.nodup_keys)
  have heq : tuples = s.tuples.mapValues fun t => if P t then change t else t := by
    refine Table.ext_get? fun l => ?_
    rw [htuples, Table.get?_mapValues]
    refine Option.map_congr fun t ht => ?_
    have hl : l ∈ walk := h.mem_iff.2 ((Table.mem_keys_iff_exists ..).2 ⟨t, ht⟩)
    simp [hl]
  exact ⟨_, heq ▸ hvisit, (h.perm_values.filter P).map give⟩

theorem Sound.matchingAlong_eq (hs : s.Sound) (h : s.IsWalk walk) (p : Tuple) :
    s.matchingAlong walk p = s.matching p :=
  Tuple.inOrder_of_perm (h.perm_values.filter _) (hs.sorted_matching p)

theorem Sound.searchAlong_eq (hs : s.Sound) (h : s.IsWalk walk) (p : Tuple) :
    s.searchAlong walk p = s.search p := by
  have hcounted : s.countRead.IsWalk walk := h
  obtain ⟨given, hvisit, hperm⟩ := hcounted.visit_eq (p.covers s.policy) id
    fun t => { t with fresh := some false }
  rw [List.map_id] at hperm
  have hfound : Tuple.inOrder s.policy given = s.matching p :=
    Tuple.inOrder_of_perm hperm (hs.sorted_matching p)
  simp only [searchAlong, hvisit, hfound]
  rfl

theorem Sound.firstAlong_eq (hs : s.Sound) (h : s.IsWalk walk) (p : Tuple) :
    s.firstAlong walk p = s.first p := by
  rw [firstAlong, hs.matchingAlong_eq h]
  rfl

theorem Sound.appendAlong_eq (hs : s.Sound) (h : s.IsWalk walk) (p : Tuple) (suffix : List UInt8)
    (expected : Option Nat) (now : Timestamp) :
    s.appendAlong walk p suffix expected now = s.append p suffix expected now := by
  obtain ⟨given, hvisit, hperm⟩ := h.visit_eq (s.isAppended p expected)
    (extend suffix now) (extend suffix now)
  have hsorted := hs.sorted_map fun _ _ => location_extend suffix now
  have hsome : ((s.tuples.values.filter (s.isAppended p expected)).map (extend suffix now)).Sublist
      (s.tuples.values.map (extend suffix now)) := List.filter_sublist.map _
  have hchanged := Tuple.inOrder_of_perm hperm (hsorted.sublist hsome)
  simp only [appendAlong, hvisit, hchanged, hperm.length_eq]
  rfl

/-! ## One location -/

/-- What reading a location gives: its value, unless only one that is unseen will do. -/
def readable (s : Store) (l : Location) (onlyFresh : Bool) : Option Tuple :=
  (s.peek l).filter fun t => !onlyFresh || t.fresh == some true

/-- Reading a location marks the value as seen if it is given. -/
theorem get_of_isConcrete (s : Store) {l : Location} (hl : l.key.isConcrete = true)
    (onlyFresh : Bool) : s.get l onlyFresh = .ok
      (if (s.readable l onlyFresh).isSome then s.countRead.markSeen l else s.countRead,
        s.readable l onlyFresh) := by
  have hconcrete : l.requireConcrete = .ok () := if_pos hl
  rw [get, hconcrete, readable]
  simp only [bind, Except.bind, pure, Except.pure]
  cases ht : s.peek l with
  | none =>
    rw [show s.countRead.peek l = none from ht]
    rfl
  | some t =>
    rw [show s.countRead.peek l = some t from ht]
    by_cases hseen : onlyFresh = true ∧ t.fresh ≠ some true
    · simp [Option.filter, hseen]
    · have hgiven : onlyFresh = false ∨ t.fresh = some true := by grind
      rcases hgiven with h | h <;> simp [Option.filter, h]

theorem isConcrete_of_get {l : Location} {onlyFresh : Bool} {r : Store × Option Tuple}
    (h : s.get l onlyFresh = .ok r) : l.key.isConcrete = true := by
  by_contra hl
  rw [get, Location.requireConcrete, if_neg hl] at h
  cases h

theorem markSeen_eq (s : Store) (l : Location) :
    s.markSeen l = { s with tuples := (s.markSeen l).tuples } := by
  rw [markSeen]
  split
  next => rfl
  next => rfl

/-- Reading a location is searching with the pattern for it. -/
theorem Sound.get_eq_search (hs : s.Sound) {l : Location} (hl : l.key.isConcrete = true) :
    s.get l false = .ok ((s.search l.pattern).1, s.peek l) ∧
      (s.search l.pattern).2 = (s.peek l).toList := by
  have hcovers (place : Location) (t : Tuple) (ht : s.peek place = some t) :
      l.pattern.covers s.policy t = true ↔ place = l :=
    Location.covers_pattern_iff_eq hl (hs.filed place t ht)
  constructor
  · have hseen : (s.search l.pattern).1 = s.countRead.markSeen l := by
      rw [markSeen_eq]
      refine congrArg (fun tuples => { s.countRead with tuples }) (Table.ext_get? fun place => ?_)
      refine (Table.get?_mapValues ..).trans (.trans ?_ (peek_markSeen s.countRead l place).symm)
      exact Option.map_congr fun t ht => if_congr (hcovers place t ht) rfl rfl
    have hall : s.readable l false = s.peek l := by
      rw [readable]
      cases s.peek l <;> rfl
    rw [s.get_of_isConcrete hl, hall, hseen]
    cases hpeek : s.peek l with
    | none =>
      rw [markSeen_of_peek_eq_none hpeek]
      rfl
    | some t => rfl
  · refine .trans (List.filter_congr fun t ht => ?_) (hs.filter_isAt l)
    obtain ⟨place, hplace⟩ := (Table.mem_values_iff ..).1 ht
    exact Bool.eq_iff_iff.2 ((hcovers place t hplace).trans (hs.isAt_iff hplace).symm)

/-! ## Runs -/

theorem policy_perform (s : Store) (command : Command) :
    (s.perform command).1.policy = s.policy := by
  cases command with
  | insert t now =>
    rw [perform]
    split
    next s' stored hok =>
      obtain ⟨l, -, heq⟩ := insert_eq_ok.1 hok
      rw [(Prod.mk.inj heq).1]
    next => rfl
  | insertReplica t now =>
    rw [perform]
    split
    next s' stored hok =>
      obtain ⟨l, -, ⟨hnone, -⟩ | ⟨stored', hput, -⟩⟩ := insertReplica_eq_ok hok
      · cases hnone
      · rw [(Prod.mk.inj hput).1]
    next s' hok =>
      obtain ⟨l, -, ⟨-, rfl⟩ | ⟨_, -, hsome⟩⟩ := insertReplica_eq_ok hok
      · rfl
      · cases hsome
    next => rfl
  | append p suffix expected now => rfl
  | get l onlyFresh =>
    rw [perform]
    split
    next s' found hok => exact policy_get hok
    next => rfl
  | search p => rfl
  | first p => exact policy_first s p
  | remove l =>
    rw [perform, Store.remove]
    split
    next => rfl
    next => rfl

theorem policy_run (s : Store) (commands : List Command) : (s.run commands).1.policy = s.policy := by
  induction commands generalizing s with
  | nil => rfl
  | cons command rest ih => exact (ih _).trans (s.policy_perform command)

/-- In every run from the empty store: a search finds the values that the pattern covers, each once and
in the order of tuples; neither a search nor an append depends on the order in which the values are
visited; the first value found is the head of what a search finds, a narrower pattern finds some of it in
the same order, and the pattern for a location finds what reading the location gives. -/
theorem run_searches_exactly (policy : PayloadCase) (commands : List Command) (p : Tuple) :
    let s := ((new policy).run commands).1
    let found := (s.search p).2
    (∀ t, t ∈ found ↔ (∃ l, s.peek l = some t) ∧ p.covers policy t = true) ∧ found.Nodup ∧
    found.Pairwise (fun t u => Tuple.compare policy t u = .lt) ∧
    (∀ walk, s.IsWalk walk → s.searchAlong walk p = s.search p ∧ s.matchingAlong walk p = s.matching p ∧
      s.firstAlong walk p = s.first p ∧ ∀ suffix expected now,
        s.appendAlong walk p suffix expected now = s.append p suffix expected now) ∧
    (s.first p).2 = found.head? ∧
    (∀ q, p.covers policy q = true → (s.search q).2.Sublist found) ∧
    ∀ l, l.key.isConcrete = true → ∃ value,
      s.get l false = .ok ((s.search l.pattern).1, value) ∧ (s.search l.pattern).2 = value.toList := by
  intro s found
  have hs : s.Sound := ((kept_new policy).run commands).sound
  have hpolicy : s.policy = policy := policy_run ..
  have hsorted : found.Pairwise fun t u => Tuple.compare s.policy t u = .lt := hs.sorted_matching p
  rw [hpolicy] at hsorted
  refine ⟨fun t => ?_, hsorted.imp Tuple.ne_of_compare_eq_lt, hsorted, fun walk hwalk => ?_,
    hs.first_snd p, fun q hq => ?_, fun l hl => ⟨s.peek l, hs.get_eq_search hl⟩⟩
  · rw [← hpolicy]
    exact mem_matching_iff
  · exact ⟨hs.searchAlong_eq hwalk p, hs.matchingAlong_eq hwalk p, hs.firstAlong_eq hwalk p,
      fun suffix expected now => hs.appendAlong_eq hwalk p suffix expected now⟩
  · exact matching_sublist (hpolicy ▸ hq)

/-- A value of each of two processes under one key, and another. -/
def namesakes : List Command :=
  [.insert (.plainText 1 ⟨[some "b"]⟩ "v") ⟨1000, 0⟩,
    .insertReplica (.plainText 2 ⟨[some "a"]⟩ "w") ⟨1000, 0⟩,
    .insert (.plainText 1 ⟨[some "a"]⟩ "v") ⟨1001, 0⟩]

/-- A walk from the last location to the first finds both values in their order. -/
theorem namesakes_searched :
    let s := ((new .insensitive).run namesakes).1
    let walk := s.tuples.keys.reverse
    let named : Tuple := .locator none ⟨[some "a"]⟩
    let l : Location := ⟨2, ⟨[some "a"]⟩⟩
    (s.IsWalk walk ∧ named.covers .insensitive l.pattern = true ∧ l.key.isConcrete = true) ∧
    (s.search named).2.map (·.owner) = [some 1, some 2] ∧ s.searchAlong walk named = s.search named ∧
    (s.search l.pattern).2.Sublist (s.search named).2 ∧
    ∃ value, s.get l false = .ok ((s.search l.pattern).1, value) ∧
      (s.search l.pattern).2 = value.toList := by
  intro s walk named l
  have hwalk : s.IsWalk walk := List.reverse_perm _
  have hcovers : named.covers .insensitive l.pattern = true := by decide
  obtain ⟨-, -, -, halong, -, hsublist, hlocation⟩ :=
    run_searches_exactly .insensitive namesakes named
  exact ⟨⟨hwalk, hcovers, rfl⟩, by decide +kernel, (halong walk hwalk).1, hsublist _ hcovers,
    hlocation l rfl⟩

end Store

end Blackboard
