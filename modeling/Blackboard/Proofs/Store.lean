import Mathlib.Data.List.TakeWhile
import Blackboard.Store
import Blackboard.Reference

/-!
# What the store holds after an operation

`content` is the value at a location with the mark of reading taken off it. Reading operations leave
it alone, and each writing operation changes it in the places it says.

`Sound` is what every store keeps: a value lies at the location it names, and the index of deadlines
lists the deadlines of the values held and no others.
-/

namespace Blackboard

namespace Tuple

/-- A pattern that does not ask for unseen values covers a value whether it was seen or not. -/
theorem covers_congr_fresh {policy : PayloadCase} {p t u : Tuple}
    (h : t.ignoringFresh = u.ignoringFresh) :
    p.ignoringFresh.covers policy t = p.ignoringFresh.covers policy u := by
  cases t
  cases u
  simp only [ignoringFresh, mk.injEq] at h
  simp only [covers, ignoringFresh, foldedMimetype, foldedPayload, h, bne]
  rfl

theorem target?_congr_fresh {t u : Tuple} (h : t.ignoringFresh = u.ignoringFresh) :
    Reference.target? t = Reference.target? u :=
  show Reference.target? t.ignoringFresh = Reference.target? u.ignoringFresh from
    congrArg Reference.target? h

/-- A tuple with a location has its owner and key from there. -/
theorem location_owner_key {t : Tuple} {l : Location} (h : t.location = .ok l) :
    t.owner = some l.owner ∧ t.key = l.key :=
  (location_eq_ok_iff.1 h).2

theorem isConcrete_of_location {t : Tuple} {l : Location} (h : t.location = .ok l) :
    l.key.isConcrete = true := by
  obtain ⟨hconcrete, -, hkey⟩ := location_eq_ok_iff.1 h
  rw [← hkey]
  simp only [isAbstract, Bool.or_eq_false_iff, Bool.not_eq_false'] at hconcrete
  exact hconcrete.2

end Tuple

namespace Store

/-- The value at a location without the mark of reading. -/
def content (s : Store) (l : Location) : Option Tuple := (s.peek l).map Tuple.ignoringFresh

/-! ## The values after each operation -/

theorem peek_put (s : Store) (l other : Location) (t : Tuple) :
    (s.put l t).1.peek other
      = if other = l then some { t with fresh := some true } else s.peek other :=
  Table.get?_insert ..

theorem content_put (s : Store) (l other : Location) (t : Tuple) :
    (s.put l t).1.content other
      = if other = l then some t.ignoringFresh else s.content other := by
  rw [content, peek_put]
  split
  · rfl
  · rfl

theorem peek_remove (s : Store) (l other : Location) :
    (s.remove l).1.peek other = if other = l then none else s.peek other := by
  rw [remove]
  cases h : s.peek l with
  | none =>
    by_cases heq : other = l
    · simp [heq, h]
    · simp [heq]
  | some t => exact Table.get?_erase ..

theorem content_remove (s : Store) (l other : Location) :
    (s.remove l).1.content other = if other = l then none else s.content other := by
  rw [content, peek_remove]
  split
  · rfl
  · rfl

/-- The value an append leaves in the place of another. -/
def appended (s : Store) (p : Tuple) (suffix : List UInt8) (expected : Option Nat)
    (now : Timestamp) (t : Tuple) : Tuple :=
  if s.isAppended p expected t then extend suffix now t else t

theorem peek_append (s : Store) (p : Tuple) (suffix : List UInt8) (expected : Option Nat)
    (now : Timestamp) (l : Location) :
    (s.append p suffix expected now).1.peek l
      = (s.peek l).map (s.appended p suffix expected now) :=
  Table.get?_mapValues ..

theorem peek_markSeen (s : Store) (l other : Location) :
    (s.markSeen l).peek other
      = (s.peek other).map fun t => if other = l then { t with fresh := some false } else t := by
  rw [markSeen]
  cases h : s.peek l with
  | none =>
    by_cases heq : other = l
    · simp [heq, h]
    · simp [heq]
  | some t =>
    refine (Table.get?_insert ..).trans ?_
    by_cases heq : other = l
    · simp [heq, h]
    · simp only [heq, if_false, Option.map_id']
      rfl

theorem content_markSeen (s : Store) (l : Location) : (s.markSeen l).content = s.content := by
  funext other
  rw [content, peek_markSeen, Option.map_map, content]
  congr 1
  funext t
  by_cases heq : other = l
  · simp [heq, Tuple.ignoringFresh]
  · simp [heq]

/-- A reading counts itself and marks the value as seen at most. -/
theorem get_cases {s s' : Store} {l : Location} {onlyFresh : Bool} {found : Option Tuple}
    (h : s.get l onlyFresh = .ok (s', found)) : s' = s.countRead ∨ s' = s.countRead.markSeen l := by
  rw [get] at h
  cases hc : l.requireConcrete with
  | error e => simp [hc, bind, Except.bind] at h
  | ok _ =>
    simp only [hc, bind, Except.bind] at h
    split at h
    next =>
      cases h
      exact .inl rfl
    next =>
      split at h <;> cases h
      · exact .inl rfl
      · exact .inr rfl

/-- A search for the first value counts itself and marks one value as seen at most. -/
theorem first_cases (s : Store) (p : Tuple) :
    (s.first p).1 = s.countRead ∨ ∃ l, (s.first p).1 = s.countRead.markSeen l := by
  rw [first]
  split
  next => exact .inl rfl
  next =>
    split
    next => exact .inl rfl
    next l _ => exact .inr ⟨l, rfl⟩

theorem content_get {s s' : Store} {l : Location} {onlyFresh : Bool} {found : Option Tuple}
    (h : s.get l onlyFresh = .ok (s', found)) : s'.content = s.content := by
  rcases get_cases h with rfl | rfl
  · rfl
  · exact content_markSeen ..

theorem content_search (s : Store) (p : Tuple) : (s.search p).1.content = s.content := by
  funext l
  have hpeek : (s.search p).1.peek l = (s.peek l).map _ := Table.get?_mapValues ..
  rw [content, hpeek, Option.map_map, content]
  congr 1
  funext t
  by_cases hc : p.covers s.policy t = true
  · simp [hc, Tuple.ignoringFresh]
  · simp [hc]

theorem content_first (s : Store) (p : Tuple) : (s.first p).1.content = s.content := by
  rcases s.first_cases p with h | ⟨l, h⟩ <;> rw [h]
  · rfl
  · exact content_markSeen ..

theorem policy_markSeen (s : Store) (l : Location) : (s.markSeen l).policy = s.policy := by
  rw [markSeen]
  split <;> rfl

theorem policy_get {s s' : Store} {l : Location} {onlyFresh : Bool} {found : Option Tuple}
    (h : s.get l onlyFresh = .ok (s', found)) : s'.policy = s.policy := by
  rcases get_cases h with rfl | rfl
  · rfl
  · exact policy_markSeen ..

theorem policy_first (s : Store) (p : Tuple) : (s.first p).1.policy = s.policy := by
  rcases s.first_cases p with h | ⟨l, h⟩ <;> rw [h]
  · rfl
  · exact policy_markSeen ..

/-! ## Writing a tuple that names its location -/

/-- A tuple with what a write to `l` fills in, the mark of reading aside. -/
def numbered (s : Store) (l : Location) (t : Tuple) (now : Timestamp) : Tuple :=
  { t with seqno := some (s.nextSeqno l), appends := 0, written := some now }

theorem location_numbered (s : Store) {l place : Location} {t : Tuple} (now : Timestamp) :
    (s.numbered l t now).location = .ok place ↔ t.location = .ok place := by
  simp [numbered, Tuple.location_eq_ok_iff, Tuple.isAbstract]

theorem insert_eq_ok {s : Store} {t : Tuple} {now : Timestamp} {r : Store × Stored} :
    s.insert t now = .ok r ↔ ∃ l, t.location = .ok l ∧ r = s.put l (s.numbered l t now) := by
  rw [insert]
  cases t.location with
  | error e => simp [bind, Except.bind]
  | ok l => simp [bind, Except.bind, pure, Except.pure, numbered, eq_comm]

/-- A copy with what is filled in where its owner did not. -/
def copied (s : Store) (l : Location) (t : Tuple) (now : Timestamp) : Tuple :=
  { t with seqno := t.seqno.or (some (s.nextSeqno l)), written := some (t.written.getD now) }

theorem location_copied (s : Store) {l place : Location} {t : Tuple} (now : Timestamp) :
    (s.copied l t now).location = .ok place ↔ t.location = .ok place := by
  simp [copied, Tuple.location_eq_ok_iff, Tuple.isAbstract]

/-- A copy is left out and the store stays as it is, or it is stored under the number its owner gave
it, the next one if it has none. -/
theorem insertReplica_eq_ok {s s' : Store} {t : Tuple} {now : Timestamp} {r : Option Stored}
    (h : s.insertReplica t now = .ok (s', r)) :
    ∃ l, t.location = .ok l ∧ (r = none ∧ s' = s ∨ ∃ stored,
      (s', stored) = s.put l (s.copied l t now) ∧ r = some stored) := by
  rw [insertReplica] at h
  cases hl : t.location with
  | error e => simp [hl, bind, Except.bind] at h
  | ok l =>
    refine ⟨l, rfl, ?_⟩
    simp only [hl, bind, Except.bind, pure, Except.pure] at h
    split at h
    next incoming held hseq _ =>
      split at h
      · cases h
        exact .inl ⟨rfl, rfl⟩
      · cases h
        exact .inr ⟨_, by simp [copied, hseq], rfl⟩
    next incoming hseq _ =>
      cases h
      exact .inr ⟨_, by simp [copied, hseq], rfl⟩
    next hseq =>
      cases h
      exact .inr ⟨_, by simp [copied, hseq], rfl⟩

/-! ## What every store keeps -/

/-- Every value lies at the location it names, and the index lists the deadlines of the values. -/
structure Sound (s : Store) : Prop where
  filed : ∀ l t, s.peek l = some t → t.location = .ok l
  indexed : ∀ d : Deadline, s.deadlines.contains d = true ↔
    (s.peek d.location).bind (·.deadline?) = some d.time

theorem sound_new (policy : PayloadCase) : (new policy).Sound where
  filed := by simp [new, peek]
  indexed := by simp [new, peek, Table.contains]

theorem contains_reschedule (deadlines : Table Deadline Unit) (l : Location)
    (before after : Option Timestamp) (d : Deadline) :
    (reschedule deadlines l before after).contains d = true ↔
      d.location = l ∧ after = some d.time ∨
        ¬(d.location = l ∧ before = some d.time) ∧ deadlines.contains d = true := by
  obtain ⟨time, other⟩ := d
  cases before <;> cases after <;>
    simp only [reschedule, Table.contains, Table.get?_insert, Table.get?_erase, Deadline.mk.injEq,
      Option.some.injEq, reduceCtorEq, and_false, false_or, not_false_eq_true, true_and]
  all_goals grind

/-- A store whose values differ in neither place nor deadline from those of a sound one is sound. -/
theorem Sound.of_peek {s s' : Store} {f : Location → Tuple → Tuple} (hs : s.Sound)
    (hdeadlines : s'.deadlines = s.deadlines) (hpeek : ∀ l, s'.peek l = (s.peek l).map (f l))
    (hlocation : ∀ l t, t.location = .ok l → (f l t).location = .ok l)
    (hexpiry : ∀ l t, (f l t).expiry = t.expiry) : s'.Sound where
  filed := by
    intro l t ht
    obtain ⟨u, hu, rfl⟩ := Option.map_eq_some_iff.1 ((hpeek l).symm.trans ht)
    exact hlocation l u (hs.filed l u hu)
  indexed := by
    intro d
    rw [hdeadlines, hs.indexed, hpeek, Option.bind_map]
    simp only [Tuple.deadline?, Function.comp_def, hexpiry]

theorem Sound.put {s : Store} {l : Location} {t : Tuple} (hs : s.Sound)
    (hl : t.location = .ok l) : (s.put l t).1.Sound where
  filed := by
    intro other u hu
    rw [peek_put] at hu
    split at hu
    next heq =>
      cases hu
      subst heq
      simpa [Tuple.location_eq_ok_iff, Tuple.isAbstract] using hl
    next => exact hs.filed other u hu
  indexed := by
    intro d
    rw [peek_put]
    refine (contains_reschedule ..).trans ?_
    rw [hs.indexed]
    by_cases heq : d.location = l
    · subst heq
      simp [Tuple.deadline?]
    · simp [heq]

theorem Sound.remove {s : Store} (l : Location) (hs : s.Sound) : (s.remove l).1.Sound := by
  cases h : s.peek l with
  | none => simpa [Store.remove, h] using hs
  | some t =>
    refine ⟨fun other u hu => ?_, fun d => ?_⟩
    · rw [peek_remove] at hu
      split at hu
      next => cases hu
      next => exact hs.filed other u hu
    · rw [peek_remove, Store.remove]
      simp only [h]
      rw [contains_reschedule, hs.indexed]
      by_cases heq : d.location = l
      · subst heq
        simp [h]
      · simp [heq]

theorem location_extend {t : Tuple} {l : Location} (suffix : List UInt8) (now : Timestamp)
    (h : t.location = .ok l) : (extend suffix now t).location = .ok l := by
  obtain ⟨hconcrete, howner, hkey⟩ := Tuple.location_eq_ok_iff.1 h
  refine Tuple.location_eq_ok_iff.2 ⟨?_, howner, hkey⟩
  simp only [Tuple.isAbstract, Bool.or_eq_false_iff] at hconcrete
  simp [Tuple.isAbstract, extend, hconcrete]

theorem Sound.append {s : Store} (p : Tuple) (suffix : List UInt8) (expected : Option Nat)
    (now : Timestamp) (hs : s.Sound) : (s.append p suffix expected now).1.Sound := by
  refine hs.of_peek rfl (peek_append s p suffix expected now) (fun l t hl => ?_) fun l t => ?_
  · rw [appended]
    split
    next => exact location_extend suffix now hl
    next => exact hl
  · rw [appended]
    split
    next => rfl
    next => rfl

theorem location_setFresh {t : Tuple} {l : Location} (fresh : Option Bool)
    (h : t.location = .ok l) : ({ t with fresh } : Tuple).location = .ok l := by
  simpa [Tuple.location_eq_ok_iff, Tuple.isAbstract] using h

theorem Sound.markSeen {s : Store} (l : Location) (hs : s.Sound) : (s.markSeen l).Sound := by
  have hdeadlines : (s.markSeen l).deadlines = s.deadlines := by
    rw [Store.markSeen]
    split <;> rfl
  refine hs.of_peek hdeadlines (peek_markSeen s l) (fun other t hl => ?_) fun other t => ?_
  · split
    next => exact location_setFresh _ hl
    next => exact hl
  · split <;> rfl

theorem Sound.countRead {s : Store} (hs : s.Sound) : s.countRead.Sound := ⟨hs.filed, hs.indexed⟩

theorem Sound.get {s s' : Store} {l : Location} {onlyFresh : Bool} {found : Option Tuple}
    (hs : s.Sound) (h : s.get l onlyFresh = .ok (s', found)) : s'.Sound := by
  rcases get_cases h with rfl | rfl
  · exact hs.countRead
  · exact hs.countRead.markSeen l

theorem Sound.search {s : Store} (p : Tuple) (hs : s.Sound) : (s.search p).1.Sound := by
  refine hs.of_peek (f := fun _ t => if p.covers s.policy t then { t with fresh := some false } else t)
    rfl (fun l => Table.get?_mapValues ..) (fun l t hl => ?_) fun l t => ?_
  · split
    next => exact location_setFresh _ hl
    next => exact hl
  · split <;> rfl

theorem Sound.first {s : Store} (p : Tuple) (hs : s.Sound) : (s.first p).1.Sound := by
  rcases s.first_cases p with h | ⟨l, h⟩ <;> rw [h]
  · exact hs.countRead
  · exact hs.countRead.markSeen l

/-! ## What is due -/

theorem Sound.mem_due {s : Store} (hs : s.Sound) {now : Timestamp} {l : Location}
    (h : l ∈ s.due now) :
    ∃ t time, s.peek l = some t ∧ t.deadline? = some time ∧ time.le now = true := by
  obtain ⟨d, hd, rfl⟩ := List.mem_map.1 h
  have hkey : d ∈ s.deadlines.keys := (List.takeWhile_sublist _).subset hd
  obtain ⟨t, ht, htime⟩ := Option.bind_eq_some_iff.1
    ((hs.indexed d).1 ((s.deadlines.mem_keys_iff d).1 hkey))
  have hle : d.time.le now = true := List.mem_takeWhile_imp (p := fun d : Deadline => d.time.le now) hd
  exact ⟨t, d.time, ht, htime, hle⟩

/-- No location is due twice: its value has one deadline at most. -/
theorem Sound.nodup_due {s : Store} (hs : s.Sound) (now : Timestamp) : (s.due now).Nodup := by
  have hlisted : ∀ d ∈ s.deadlines.keys.takeWhile fun d => d.time.le now,
      (s.peek d.location).bind (·.deadline?) = some d.time := fun d hd =>
    (hs.indexed d).1 ((s.deadlines.mem_keys_iff d).1 ((List.takeWhile_sublist _).subset hd))
  have hnodup : (s.deadlines.keys.takeWhile fun d => d.time.le now).Nodup :=
    s.deadlines.nodup_keys.sublist (List.takeWhile_sublist _)
  refine List.pairwise_map.2 (hnodup.imp_of_mem fun {d e} hd he hne heq => hne ?_)
  have htime : some d.time = some e.time := by rw [← hlisted d hd, ← hlisted e he, heq]
  cases d
  cases e
  simp_all

end Store

end Blackboard
