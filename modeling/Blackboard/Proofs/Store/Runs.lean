import Blackboard.Proofs.Store

/-!
# Runs of a store

`Kept` is what every run of store operations from the empty store preserves: the index of deadlines and
the counters agree with the values held. Each operation comes down to putting a value, removing one or
changing values in place, and there is one preservation lemma for each of the three.
-/

namespace Blackboard

namespace Store

inductive Command where
  | insert (t : Tuple) (now : Timestamp)
  | insertReplica (t : Tuple) (now : Timestamp)
  | append (p : Tuple) (suffix : List UInt8) (expected : Option Nat) (now : Timestamp)
  | get (l : Location) (onlyFresh : Bool)
  | search (p : Tuple)
  | first (p : Tuple)
  | remove (l : Location)

/-- The store after an operation, and how many values it reported as new. One that fails leaves the
store as it is. -/
def perform (s : Store) : Command → Store × Nat
  | .insert t now =>
    match s.insert t now with
    | .ok (s', stored) => (s', stored.created.toNat)
    | .error _ => (s, 0)
  | .insertReplica t now =>
    match s.insertReplica t now with
    | .ok (s', some stored) => (s', stored.created.toNat)
    | .ok (s', none) => (s', 0)
    | .error _ => (s, 0)
  | .append p suffix expected now => ((s.append p suffix expected now).1, 0)
  | .get l onlyFresh =>
    match s.get l onlyFresh with
    | .ok (s', _) => (s', 0)
    | .error _ => (s, 0)
  | .search p => ((s.search p).1, 0)
  | .first p => ((s.first p).1, 0)
  | .remove l => ((s.remove l).1, 0)

def run (s : Store) : List Command → Store × Nat
  | [] => (s, 0)
  | command :: rest =>
    let (s, created) := s.perform command
    let (s, more) := s.run rest
    (s, created + more)

/-- What a store fills in is there. -/
def Filled (t : Tuple) : Prop :=
  t.seqno.isSome = true ∧ t.written.isSome = true ∧ t.fresh.isSome = true

/-- Index and counters agree with the values held, where `created` values were reported as new. -/
structure Kept (s : Store) (created : Nat) : Prop where
  sound : s.Sound
  filled : ∀ l t, s.peek l = some t → Filled t
  held : s.stats.held = s.size
  counted : created = s.stats.held + s.stats.removals

theorem kept_new (policy : PayloadCase) : (new policy).Kept 0 where
  sound := sound_new policy
  filled := fun _ _ h => nomatch h
  held := rfl
  counted := rfl

variable {s s' : Store} {created : Nat}

theorem size_of_peek {l : Location} {t : Tuple} (h : s.peek l = some t) :
    s.size = (s.tuples.erase l).size + 1 :=
  Table.size_of_contains (Option.isSome_iff_exists.2 ⟨t, h⟩)

namespace Kept

theorem put (h : s.Kept created) {l : Location} {t : Tuple} (hl : t.location = .ok l)
    (hseqno : t.seqno.isSome = true) (hwritten : t.written.isSome = true) :
    (s.put l t).1.Kept (created + (s.put l t).2.created.toNat) where
  sound := h.sound.put hl
  filled := by
    intro other u hu
    rw [peek_put] at hu
    split at hu
    next =>
      obtain rfl := Option.some.inj hu
      exact ⟨hseqno, hwritten, rfl⟩
    next => exact h.filled other u hu
  held := rfl
  counted := by
    have hsize : (s.put l t).1.stats.held = (s.tuples.erase l).size + 1 := Table.size_insert ..
    have hremovals : (s.put l t).1.stats.removals = s.stats.removals := rfl
    have hcreated : (s.put l t).2.created = (s.peek l).isNone := rfl
    rw [hsize, hremovals, hcreated]
    have hcounted := h.counted
    rw [h.held] at hcounted
    -- One more is held where there was no value, and just that is reported as new.
    cases hpeek : s.peek l with
    | none =>
      have hsame : (s.tuples.erase l).size = s.size :=
        congrArg Table.size (Table.erase_of_get?_eq_none hpeek)
      simp only [hsame, Option.isNone_none, Bool.toNat_true]
      omega
    | some old =>
      have hbefore := size_of_peek hpeek
      simp only [Option.isNone_some, Bool.toNat_false]
      omega

theorem remove (h : s.Kept created) (l : Location) : (s.remove l).1.Kept created := by
  cases hpeek : s.peek l with
  | none => simpa [Store.remove, hpeek] using h
  | some old =>
    have hbefore := size_of_peek hpeek
    have hstats : (s.remove l).1.stats.held = (s.tuples.erase l).size ∧
        (s.remove l).1.stats.removals = s.stats.removals + 1 ∧
        (s.remove l).1.size = (s.tuples.erase l).size := by
      simp [Store.remove, hpeek, Store.size]
    obtain ⟨hafter, hremovals, hsize⟩ := hstats
    constructor
    case sound => exact h.sound.remove l
    case filled =>
      intro other u hu
      rw [peek_remove] at hu
      split at hu
      next => cases hu
      next => exact h.filled other u hu
    case held => rw [hafter, hsize]
    case counted =>
      have hcounted := h.counted
      have hheld := h.held
      omega

/-- An operation that changes values in place, and neither their deadlines nor their number. -/
theorem of_map (h : s.Kept created) (hsound : s'.Sound) {f : Location → Tuple → Tuple}
    (hpeek : ∀ l, s'.peek l = (s.peek l).map (f l)) (hfilled : ∀ l t, Filled t → Filled (f l t))
    (hheld : s'.stats.held = s.stats.held) (hremovals : s'.stats.removals = s.stats.removals)
    (hsize : s'.size = s.size) : s'.Kept created where
  sound := hsound
  filled := by
    intro l t ht
    obtain ⟨u, hu, rfl⟩ := Option.map_eq_some_iff.1 ((hpeek l).symm.trans ht)
    exact hfilled l u (h.filled l u hu)
  held := by rw [hheld, hsize, h.held]
  counted := by rw [hheld, hremovals, h.counted]

theorem countRead (h : s.Kept created) : s.countRead.Kept created :=
  ⟨h.sound.countRead, h.filled, h.held, h.counted⟩

theorem markSeen (h : s.Kept created) (l : Location) : (s.markSeen l).Kept created := by
  have hstats : (s.markSeen l).stats = s.stats := by
    rw [Store.markSeen]
    split <;> rfl
  have hsize : (s.markSeen l).size = s.size := by
    rw [Store.markSeen]
    split
    next => rfl
    next old hold => exact (Table.size_insert ..).trans (size_of_peek hold).symm
  refine h.of_map (h.sound.markSeen l) (peek_markSeen s l) (fun other t ht => ?_)
    (congrArg StoreStats.held hstats) (congrArg StoreStats.removals hstats) hsize
  split
  next => exact ⟨ht.1, ht.2.1, rfl⟩
  next => exact ht

theorem append (h : s.Kept created) (p : Tuple) (suffix : List UInt8) (expected : Option Nat)
    (now : Timestamp) : (s.append p suffix expected now).1.Kept created := by
  refine h.of_map (h.sound.append p suffix expected now) (peek_append s p suffix expected now)
    (fun l t ht => ?_) rfl rfl (Table.size_mapValues ..)
  rw [appended]
  split
  next => exact ⟨ht.1, rfl, rfl⟩
  next => exact ht

theorem search (h : s.Kept created) (p : Tuple) : (s.search p).1.Kept created := by
  refine h.of_map (h.sound.search p) (fun l => Table.get?_mapValues ..) (fun _ t ht => ?_) rfl rfl
    (Table.size_mapValues ..)
  split
  next => exact ⟨ht.1, ht.2.1, rfl⟩
  next => exact ht

theorem get (h : s.Kept created) {l : Location} {onlyFresh : Bool} {found : Option Tuple}
    (hok : s.get l onlyFresh = .ok (s', found)) : s'.Kept created := by
  rcases get_cases hok with rfl | rfl
  · exact h.countRead
  · exact h.countRead.markSeen l

theorem first (h : s.Kept created) (p : Tuple) : (s.first p).1.Kept created := by
  rcases s.first_cases p with hfirst | ⟨l, hfirst⟩ <;> rw [hfirst]
  · exact h.countRead
  · exact h.countRead.markSeen l

theorem perform (h : s.Kept created) (command : Command) :
    (s.perform command).1.Kept (created + (s.perform command).2) := by
  cases command with
  | insert t now =>
    rw [Store.perform]
    split
    next s' stored hok =>
      obtain ⟨l, hl, heq⟩ := insert_eq_ok.1 hok
      obtain ⟨rfl, rfl⟩ := Prod.mk.inj heq
      exact h.put ((s.location_numbered now).2 hl) rfl rfl
    next => exact h
  | insertReplica t now =>
    rw [Store.perform]
    split
    next s' stored hok =>
      obtain ⟨l, hl, ⟨hnone, -⟩ | ⟨stored', hput, hsome⟩⟩ := insertReplica_eq_ok hok
      · cases hnone
      · obtain rfl := Option.some.inj hsome
        obtain ⟨rfl, rfl⟩ := Prod.mk.inj hput
        refine h.put ((s.location_copied now).2 hl) ?_ rfl
        cases hseqno : t.seqno <;> simp [copied, hseqno]
    next s' hok =>
      obtain ⟨l, hl, ⟨-, rfl⟩ | ⟨_, -, hsome⟩⟩ := insertReplica_eq_ok hok
      · exact h
      · cases hsome
    next => exact h
  | append p suffix expected now => exact h.append p suffix expected now
  | get l onlyFresh =>
    rw [Store.perform]
    split
    next s' found hok => exact h.get hok
    next => exact h
  | search p => exact h.search p
  | first p => exact h.first p
  | remove l => exact h.remove l

theorem run (h : s.Kept created) (commands : List Command) :
    (s.run commands).1.Kept (created + (s.run commands).2) := by
  induction commands generalizing s created with
  | nil => exact h
  | cons command rest ih =>
    have hrest := ih (h.perform command)
    rwa [Nat.add_assoc] at hrest

end Kept

/-! ## What is due -/

theorem deadline?_eq_some_iff {t : Tuple} {time : Timestamp} :
    t.deadline? = some time ↔ t.expiry = some (.dueAt time) := by
  rw [Tuple.deadline?]
  cases t.expiry with
  | none => simp
  | some expiry => cases expiry <;> simp [Expiry.time?]

theorem Sound.contains_iff {s : Store} (hs : s.Sound) {d : Deadline} :
    s.deadlines.contains d = true ↔
      ∃ t, s.peek d.location = some t ∧ t.expiry = some (.dueAt d.time) := by
  rw [hs.indexed, Option.bind_eq_some_iff]
  simp only [deadline?_eq_some_iff]

/-- Once a deadline is not reached, none of those after it is. -/
theorem takeWhile_due (now : Timestamp) {ds : List Deadline}
    (hsorted : ds.Pairwise fun a b => compare a b = .lt) :
    (ds.takeWhile fun d => d.time.le now) = ds.filter fun d => d.time.le now := by
  induction ds with
  | nil => rfl
  | cons d rest ih =>
    obtain ⟨hd, hrest⟩ := List.pairwise_cons.1 hsorted
    by_cases hle : d.time.le now = true
    · rw [List.takeWhile_cons, List.filter_cons, if_pos hle, if_pos hle, ih hrest]
    · have hnone : ∀ e ∈ rest, ¬ e.time.le now = true := by
        intro e he hdue
        have hlt := hd e he
        rw [Deadline.compare_eq] at hlt
        have hfirst : (compare d.time e.time).isLE = true := by
          rcases Ordering.then_eq_lt.1 hlt with h | ⟨h, -⟩ <;> rw [h] <;> rfl
        exact hle (Std.TransCmp.isLE_trans hfirst hdue)
      rw [List.takeWhile_cons, List.filter_cons, if_neg hle, if_neg hle,
        List.filter_eq_nil_iff.2 hnone]

/-- What is due are the locations of the deadlines that have been reached, in their order. -/
theorem Sound.due_spec {s : Store} (hs : s.Sound) (now : Timestamp) :
    ∃ ds : List Deadline, s.due now = ds.map (·.location) ∧
      ds.Pairwise (fun a b => compare a b = .lt) ∧
      ∀ d, d ∈ ds ↔ d.time.le now = true ∧
        ∃ t, s.peek d.location = some t ∧ t.expiry = some (.dueAt d.time) := by
  have hsorted : s.deadlines.keys.Pairwise fun a b => compare a b = .lt :=
    List.pairwise_map.2 s.deadlines.sorted
  refine ⟨s.deadlines.keys.filter fun d => d.time.le now, ?_, hsorted.filter _, fun d => ?_⟩
  · rw [due, takeWhile_due now hsorted]
  · rw [List.mem_filter, Table.mem_keys_iff, hs.contains_iff, and_comm]

/-- In every run from the empty store: the values are concrete and complete and lie where they say; the
index lists their deadlines, so what is due are the locations that have expired, each once and the
earliest first; and of the values ever reported as new those that were not removed are held. -/
theorem run_consistent (policy : PayloadCase) (commands : List Command) :
    let s := ((new policy).run commands).1
    let created := ((new policy).run commands).2
    (∀ l t, s.peek l = some t → t.isAbstract = false ∧ t.owner = some l.owner ∧ t.key = l.key ∧
      t.seqno.isSome = true ∧ t.written.isSome = true ∧ t.fresh.isSome = true) ∧
    (∀ d : Deadline, s.deadlines.contains d = true ↔
      ∃ t, s.peek d.location = some t ∧ t.expiry = some (.dueAt d.time)) ∧
    (∀ now, (s.due now).Nodup ∧ ∃ ds : List Deadline, s.due now = ds.map (·.location) ∧
      ds.Pairwise (fun a b => compare a b = .lt) ∧
      ∀ d, d ∈ ds ↔ d.time.le now = true ∧
        ∃ t, s.peek d.location = some t ∧ t.expiry = some (.dueAt d.time)) ∧
    s.stats.held = s.size ∧ created = s.stats.held + s.stats.removals := by
  intro s created
  have h : s.Kept created := by
    have hrun := (kept_new policy).run commands
    rwa [Nat.zero_add] at hrun
  refine ⟨fun l t ht => ?_, fun d => h.sound.contains_iff, fun now => ?_, h.held, h.counted⟩
  · obtain ⟨hconcrete, howner, hkey⟩ := Tuple.location_eq_ok_iff.1 (h.sound.filed l t ht)
    exact ⟨hconcrete, howner, hkey, h.filled l t ht⟩
  · exact ⟨h.sound.nodup_due now, h.sound.due_spec now⟩

end Store

end Blackboard
