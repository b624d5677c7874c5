import Mathlib.Data.List.Basic
import Blackboard.Proofs.Store.Searching

/-!
# The mark of reading

The history of a run lists what was written and what readers were given, the oldest first. Of all that, the
part about one location determines the mark of the value there: `Story` goes through that part event by
event. So the mark of a value says that it was given to a reader since it was written, and a reader who
asks for unseen values gets a value only if nobody got it before.
-/

namespace Blackboard

namespace Store

/-- A value was written to its location, or given to a reader. -/
inductive Event where
  | wrote (t : Tuple)
  /-- The reader may have asked for unseen values only. -/
  | gave (t : Tuple) (asked : Bool)
  deriving DecidableEq

namespace Event

def tuple : Event → Tuple
  | wrote t => t
  | gave t _ => t

def isAt (l : Location) (e : Event) : Bool := e.tuple.isAt l

def isWrite : Event → Bool
  | wrote _ => true
  | gave _ _ => false

/-- True if a reader who asked for unseen values only was given one. -/
def isAsked : Event → Bool
  | wrote _ => false
  | gave _ asked => asked

end Event

/-- The events of an operation: what it reports as written, or what it gives to a reader. -/
def events (s : Store) : Command → List Event
  | .insert t now =>
    match s.insert t now with
    | .ok (_, stored) => [.wrote stored.tuple]
    | .error _ => []
  | .insertReplica t now =>
    match s.insertReplica t now with
    | .ok (_, some stored) => [.wrote stored.tuple]
    | .ok (_, none) => []
    | .error _ => []
  | .append p suffix expected now => (s.append p suffix expected now).2.map .wrote
  | .get l onlyFresh =>
    match s.get l onlyFresh with
    | .ok (_, found) => found.toList.map (.gave · onlyFresh)
    | .error _ => []
  | .search p => (s.search p).2.map (.gave · (p.fresh == some true))
  | .first p => (s.first p).2.toList.map (.gave · (p.fresh == some true))
  | .remove _ => []

/-- An operation, or a look at the store that leaves no trace. -/
inductive Use where
  | act (command : Command)
  | peek (l : Location)
  | matching (p : Tuple)
  | exists? (l : Location)

def use (s : Store) : Use → Store × List Event
  | .act command => ((s.perform command).1, s.events command)
  | .peek _ | .matching _ | .exists? _ => (s, [])

def trace (s : Store) : List Use → Store × List Event
  | [] => (s, [])
  | u :: rest =>
    let (s, events) := s.use u
    let (s, later) := s.trace rest
    (s, events ++ later)

/-! ## One location -/

/-- What becomes of the value at a location in the events about it. It may be removed at any time, which
is no event. -/
inductive Story : List Event → Option Tuple → Prop
  | empty : Story [] none
  | loss {es v} : Story es v → Story es none
  | write {es v t} : Story es v → t.fresh = some true → Story (es ++ [.wrote t]) (some t)
  | read {es t asked} : Story es (some t) → (asked = true → t.fresh = some true) →
    Story (es ++ [.gave t asked]) (some { t with fresh := some false })

namespace Story

variable {es : List Event} {v : Option Tuple} {t : Tuple}

/-- After the last write there were only reads, and of that value; if there was none, the value is
unseen. -/
theorem last_write (h : Story es (some t)) : ∃ before w after, es = before ++ .wrote w :: after ∧
    w.ignoringFresh = t.ignoringFresh ∧
    (∀ e ∈ after, ∃ u asked, e = .gave u asked ∧ u.ignoringFresh = t.ignoringFresh) ∧
    (t.fresh = some true ↔ after = []) := by
  generalize hv : some t = v at h
  induction h generalizing t with
  | empty => cases hv
  | loss => cases hv
  | @write es v u _ hu _ =>
    obtain rfl := Option.some.inj hv
    exact ⟨es, t, [], rfl, rfl, by simp, by simp [hu]⟩
  | @read es u asked _ _ ih =>
    obtain rfl := Option.some.inj hv
    obtain ⟨before, w, after, rfl, hw, hafter, -⟩ := ih rfl
    refine ⟨before, w, after ++ [.gave u asked], by simp, hw, fun e he => ?_, by simp⟩
    rcases List.mem_append.1 he with he | he
    · exact hafter e he
    · exact ⟨u, asked, List.mem_singleton.1 he, rfl⟩

/-- An unseen value is what the last event wrote. -/
theorem eq_concat_of_fresh (h : Story es (some t)) (ht : t.fresh = some true) :
    ∃ before, es = before ++ [.wrote t] := by
  cases h with
  | write => exact ⟨_, rfl⟩
  | read => cases ht

theorem fresh_of_concat_wrote {w : Tuple} (h : Story (es ++ [.wrote w]) (some t)) :
    t.fresh = some true := by
  generalize hes : es ++ [.wrote w] = xs at h
  cases h with
  | write _ ht => exact ht
  | read => cases (List.append_inj' hes rfl).2

/-- What a reader is given is the value that is there. -/
theorem before_gave (h : Story es v) {xs ys : List Event} {asked : Bool}
    (hes : es = xs ++ .gave t asked :: ys) :
    Story xs (some t) ∧ (asked = true → t.fresh = some true) := by
  induction h generalizing ys with
  | empty => simp at hes
  | loss _ ih => exact ih hes
  | write _ _ ih =>
    rcases ys.eq_nil_or_concat with rfl | ⟨rest, e, rfl⟩
    · have hlast := (List.append_inj' hes rfl).2
      cases hlast
    · rw [List.concat_eq_append, ← List.cons_append, ← List.append_assoc] at hes
      exact ih (List.append_inj' hes rfl).1
  | read hbefore hasked ih =>
    rcases ys.eq_nil_or_concat with rfl | ⟨rest, e, rfl⟩
    · obtain ⟨rfl, hlast⟩ := List.append_inj' hes rfl
      cases hlast
      exact ⟨hbefore, hasked⟩
    · rw [List.concat_eq_append, ← List.cons_append, ← List.append_assoc] at hes
      exact ih (List.append_inj' hes rfl).1

end Story

/-- An unseen value in the events about its location was written by the last of these. -/
theorem exists_wrote_of_story {before : List Event} {l : Location} {t : Tuple}
    (h : Story (before.filter (·.isAt l)) (some t)) (ht : t.fresh = some true) :
    ∃ earlier between, before = earlier ++ .wrote t :: between ∧
      ∀ e ∈ between, e.isAt l = false := by
  obtain ⟨xs, hxs⟩ := h.eq_concat_of_fresh ht
  obtain ⟨earlier, rest, rfl, -, hrest⟩ := List.filter_eq_append_iff.1 hxs
  obtain ⟨skipped, between, rfl, -, -, hbetween⟩ := List.filter_eq_cons_iff.1 hrest
  refine ⟨earlier ++ skipped, between, (List.append_assoc ..).symm, fun e he => ?_⟩
  simpa using List.filter_eq_nil_iff.1 hbetween e he

/-! ## All locations -/

/-- A history tells what became of the values of a store. -/
structure Told (s : Store) (history : List Event) : Prop where
  sound : s.Sound
  placed : ∀ e ∈ history, ∃ l, e.isAt l = true
  story : ∀ l, Story (history.filter (·.isAt l)) (s.peek l)

variable {s s' : Store} {history : List Event}

namespace Told

theorem isAt_of_location {e : Event} {l place : Location} (h : e.tuple.location = .ok place) :
    e.isAt l = true ↔ place = l := by
  rw [Event.isAt, Tuple.isAt_iff, h, Except.ok.injEq]

/-- Something that happened at one location and left the others alone. -/
theorem concat (h : s.Told history) (hs' : s'.Sound) {e : Event} {place : Location}
    (hplace : e.tuple.location = .ok place) (hothers : ∀ l, l ≠ place → s'.peek l = s.peek l)
    (hstory : ∀ es, Story es (s.peek place) → Story (es ++ [e]) (s'.peek place)) :
    s'.Told (history ++ [e]) where
  sound := hs'
  placed := by
    intro other hother
    rcases List.mem_append.1 hother with hother | hother
    · exact h.placed other hother
    · exact ⟨place, (List.mem_singleton.1 hother) ▸ (isAt_of_location hplace).2 rfl⟩
  story := by
    intro l
    rw [List.filter_append]
    by_cases hl : l = place
    · subst hl
      rw [List.filter_cons_of_pos ((isAt_of_location hplace).2 rfl)]
      exact hstory _ (h.story l)
    · rw [List.filter_cons_of_neg fun hat => hl ((isAt_of_location hplace).1 hat).symm, hothers l hl,
        List.filter_nil, List.append_nil]
      exact h.story l

theorem put (h : s.Told history) {place : Location} {t : Tuple} (ht : t.location = .ok place) :
    (s.put place t).1.Told (history ++ [.wrote (s.put place t).2.tuple]) := by
  refine h.concat (h.sound.put ht) (Store.location_setFresh _ ht) (fun l hl => ?_) fun es hes => ?_
  · rw [peek_put, if_neg hl]
  · rw [peek_put, if_pos rfl]
    exact hes.write rfl

theorem countRead (h : s.Told history) : s.countRead.Told history :=
  ⟨h.sound.countRead, h.placed, h.story⟩

theorem markSeen (h : s.Told history) {place : Location} {t : Tuple} (ht : s.peek place = some t)
    {asked : Bool} (hasked : asked = true → t.fresh = some true) :
    (s.markSeen place).Told (history ++ [.gave t asked]) := by
  refine h.concat (h.sound.markSeen place) (h.sound.filed place t ht) (fun l hl => ?_) fun es hes => ?_
  · rw [peek_markSeen]
    simp only [hl, if_false, Option.map_id']
  · rw [ht] at hes
    rw [peek_markSeen, ht, Option.map_some, if_pos rfl]
    exact hes.read hasked

theorem remove (h : s.Told history) (place : Location) : (s.remove place).1.Told history where
  sound := h.sound.remove place
  placed := h.placed
  story := by
    intro l
    rw [peek_remove]
    split
    next => exact (h.story l).loss
    next => exact h.story l

/-- Something that happened to all values with a property, each in its place. -/
theorem mapped (h : s.Told history) (hs' : s'.Sound) {P : Tuple → Bool} (change : Tuple → Tuple)
    {event : Tuple → Event}
    (hpeek : ∀ l, s'.peek l = (s.peek l).map fun t => if P t then change t else t)
    (hplace : ∀ l t, t.location = .ok l → (event t).tuple.location = .ok l)
    (hstory : ∀ es t, P t = true → Story es (some t) → Story (es ++ [event t]) (some (change t))) :
    s'.Told (history ++ (s.tuples.values.filter P).map event) where
  sound := hs'
  placed := by
    intro e he
    rcases List.mem_append.1 he with he | he
    · exact h.placed e he
    · obtain ⟨t, ht, rfl⟩ := List.mem_map.1 he
      obtain ⟨l, hl⟩ := (Table.mem_values_iff ..).1 (List.mem_of_mem_filter ht)
      exact ⟨l, (isAt_of_location (hplace l t (h.sound.filed l t hl))).2 rfl⟩
  story := by
    intro l
    -- One of the values is at this location at most, so at most one of the events is.
    have hevents : ((s.tuples.values.filter P).map event).filter (·.isAt l)
        = ((s.peek l).toList.filter P).map event := by
      rw [List.filter_map, ← h.sound.filter_isAt, List.filter_filter, List.filter_filter]
      refine congrArg _ (List.filter_congr fun t ht => ?_)
      obtain ⟨place, hpl⟩ := (Table.mem_values_iff ..).1 ht
      rw [Bool.and_comm]
      refine congrArg (P t && ·) (Bool.eq_iff_iff.2 ?_)
      exact (isAt_of_location (hplace place t (h.sound.filed place t hpl))).trans
        (h.sound.isAt_iff hpl).symm
    have hbefore := h.story l
    rw [List.filter_append, hevents, hpeek]
    cases ht : s.peek l with
    | none => simpa [ht] using hbefore
    | some t =>
      rw [ht] at hbefore
      by_cases hP : P t = true
      · simpa [hP] using hstory _ t hP hbefore
      · simpa [hP] using hbefore

theorem insert (h : s.Told history) (t : Tuple) (now : Timestamp) :
    (s.perform (.insert t now)).1.Told (history ++ s.events (.insert t now)) := by
  rw [perform, events]
  cases hok : s.insert t now with
  | error e => simpa using h
  | ok r =>
    obtain ⟨l, hl, rfl⟩ := insert_eq_ok.1 hok
    exact h.put ((s.location_numbered now).2 hl)

theorem insertReplica (h : s.Told history) (t : Tuple) (now : Timestamp) :
    (s.perform (.insertReplica t now)).1.Told (history ++ s.events (.insertReplica t now)) := by
  rw [perform, events]
  cases hok : s.insertReplica t now with
  | error e => simpa using h
  | ok r =>
    obtain ⟨s', stored⟩ := r
    obtain ⟨l, hl, ⟨rfl, rfl⟩ | ⟨stored, hput, rfl⟩⟩ := insertReplica_eq_ok hok
    · simpa using h
    · obtain ⟨rfl, rfl⟩ := Prod.mk.inj hput
      exact h.put ((s.location_copied now).2 hl)

theorem append (h : s.Told history) (p : Tuple) (suffix : List UInt8) (expected : Option Nat)
    (now : Timestamp) : (s.perform (.append p suffix expected now)).1.Told
      (history ++ s.events (.append p suffix expected now)) := by
  have hevents : s.events (.append p suffix expected now)
      = (s.tuples.values.filter (s.isAppended p expected)).map fun t =>
        .wrote (extend suffix now t) := List.map_map
  rw [hevents]
  exact h.mapped (h.sound.append p suffix expected now) (extend suffix now)
    (peek_append s p suffix expected now) (fun l t => location_extend suffix now)
    fun es t _ hes => hes.write rfl

theorem get (h : s.Told history) (l : Location) (onlyFresh : Bool) :
    (s.perform (.get l onlyFresh)).1.Told (history ++ s.events (.get l onlyFresh)) := by
  rw [perform, events]
  cases hok : s.get l onlyFresh with
  | error e => simpa using h
  | ok r =>
    rw [s.get_of_isConcrete (isConcrete_of_get hok)] at hok
    obtain rfl := Except.ok.inj hok
    cases hgiven : s.readable l onlyFresh with
    | none => simpa using h.countRead
    | some t =>
      obtain ⟨ht, hasked⟩ := Option.filter_eq_some_iff.1 hgiven
      refine h.countRead.markSeen ht fun honly => ?_
      simpa [honly] using hasked

theorem search (h : s.Told history) (p : Tuple) :
    (s.perform (.search p)).1.Told (history ++ s.events (.search p)) := by
  refine h.countRead.mapped (h.sound.search p) (P := p.covers s.policy)
    (fun t => { t with fresh := some false }) (fun l => Table.get?_mapValues ..)
    (fun _ _ ht => ht) fun es t hcovers hes => hes.read fun hasked => ?_
  exact (Tuple.covers_iff.1 hcovers).2.2 (eq_of_beq hasked)

theorem first (h : s.Told history) (p : Tuple) :
    (s.perform (.first p)).1.Told (history ++ s.events (.first p)) := by
  rw [perform, events]
  cases hfound : (s.first p).2 with
  | none =>
    rw [first_eq_none hfound]
    simpa using h.countRead
  | some t =>
    obtain ⟨l, hl, hstore⟩ := first_eq_some hfound
    have hcovers : p.covers s.policy t = true :=
      (mem_matching_iff.1 (List.mem_of_head? ((h.sound.first_snd p).symm.trans hfound))).2
    rw [hstore]
    exact h.countRead.markSeen hl fun hasked => (Tuple.covers_iff.1 hcovers).2.2 (eq_of_beq hasked)

/-- Every operation adds to the history what it did. -/
theorem act (h : s.Told history) (command : Command) :
    (s.perform command).1.Told (history ++ s.events command) := by
  cases command with
  | insert t now => exact h.insert t now
  | insertReplica t now => exact h.insertReplica t now
  | append p suffix expected now => exact h.append p suffix expected now
  | get l onlyFresh => exact h.get l onlyFresh
  | search p => exact h.search p
  | first p => exact h.first p
  | remove l =>
    rw [events, List.append_nil]
    exact h.remove l

theorem use (h : s.Told history) (u : Use) : (s.use u).1.Told (history ++ (s.use u).2) := by
  cases u with
  | act command => exact h.act command
  | peek l => simpa [Store.use] using h
  | matching p => simpa [Store.use] using h
  | exists? l => simpa [Store.use] using h

theorem trace (h : s.Told history) (uses : List Use) :
    (s.trace uses).1.Told (history ++ (s.trace uses).2) := by
  induction uses generalizing s history with
  | nil => simpa [Store.trace] using h
  | cons u rest ih =>
    rw [Store.trace, ← List.append_assoc]
    exact ih (h.use u)

/-- The last write at a place, with the readers who were given the value since. -/
theorem last_write (h : s.Told history) {l : Location} {t : Tuple} (ht : s.peek l = some t) :
    ∃ before w after, history = before ++ .wrote w :: after ∧ w.isAt l = true ∧
      w.ignoringFresh = t.ignoringFresh ∧
      (∀ e ∈ after, e.isAt l = true → ∃ u asked, e = .gave u asked ∧ u.ignoringFresh = t.ignoringFresh) ∧
      (t.fresh = some true ↔ ∀ e ∈ after, e.isAt l = false) := by
  obtain ⟨xs, w, ys, hxs, hw, hys, hfresh⟩ := (ht ▸ h.story l).last_write
  obtain ⟨before, rest, rfl, -, hrest⟩ := List.filter_eq_append_iff.1 hxs
  obtain ⟨skipped, after, rfl, -, hat, rfl⟩ := List.filter_eq_cons_iff.1 hrest
  refine ⟨before ++ skipped, w, after, (List.append_assoc ..).symm, hat, hw, fun e he hl => ?_, ?_⟩
  · exact hys e (List.mem_filter.2 ⟨he, hl⟩)
  · rw [hfresh, List.filter_eq_nil_iff]
    simp

theorem story_before_asked (h : s.Told history) {before after : List Event} {e : Event} {l : Location}
    (hsplit : history = before ++ e :: after) (hl : e.isAt l = true) (he : e.isAsked = true) :
    Story (before.filter (·.isAt l)) (some e.tuple) ∧ e.tuple.fresh = some true := by
  obtain ⟨t, rfl⟩ : ∃ t, e = .gave t true := by cases e <;> simp_all [Event.isAsked]
  have hstory := h.story l
  rw [hsplit, List.filter_append, List.filter_cons_of_pos hl] at hstory
  obtain ⟨hbefore, hfresh⟩ := hstory.before_gave rfl
  exact ⟨hbefore, hfresh rfl⟩

/-- Until the next write at its place, a value is given at most once to readers who ask for unseen
values. -/
theorem countP_asked_le (h : s.Told history) {earlier reign later : List Event}
    (hsplit : history = earlier ++ (reign ++ later)) {l : Location}
    (hreign : ∀ e ∈ reign, e.isAt l = true → e.isWrite = false) :
    reign.countP (fun e => e.isAt l && e.isAsked) ≤ 1 := by
  rw [List.countP_eq_length_filter]
  by_contra hmany
  -- Of two such readers the second was given what had just been written.
  obtain ⟨x, y, rest, hasked⟩ : ∃ x y rest,
      reign.filter (fun e => e.isAt l && e.isAsked) = x :: y :: rest := by
    match hasked : reign.filter fun e => e.isAt l && e.isAsked with
    | [] => simp [hasked] at hmany
    | [_] => simp [hasked] at hmany
    | x :: y :: rest => exact ⟨x, y, rest, hasked⟩
  obtain ⟨xs, ys, rfl, -, hx, hys⟩ := List.filter_eq_cons_iff.1 hasked
  obtain ⟨between, zs, rfl, -, hy, -⟩ := List.filter_eq_cons_iff.1 hys
  rw [Bool.and_eq_true] at hx hy
  have hlater : history = (earlier ++ xs ++ x :: between) ++ y :: (zs ++ later) := by
    simpa using hsplit
  obtain ⟨hbefore, hfresh⟩ := h.story_before_asked hlater hy.1 hy.2
  obtain ⟨ws, hws⟩ := hbefore.eq_concat_of_fresh hfresh
  have hlast := congrArg List.getLast? hws
  rw [List.filter_append, List.filter_cons_of_pos hx.1, List.getLast?_append_of_ne_nil _ (by simp),
    List.getLast?_concat] at hlast
  rcases List.mem_cons.1 (List.mem_of_getLast? hlast) with heq | hmem
  · rw [← heq] at hx
    exact nomatch hx.2
  · obtain ⟨hmem, hat⟩ := List.mem_filter.1 hmem
    exact nomatch hreign _ (by simp [hmem]) hat

/-- A value that nobody was given since it was written is there for a reader who asks for it. -/
theorem get_of_unread (h : s.Told history) {before after : List Event} {w t : Tuple} {l : Location}
    (ht : s.peek l = some t) (hsplit : history = before ++ .wrote w :: after) (hw : w.isAt l = true)
    (hafter : ∀ e ∈ after, e.isAt l = false) : ∃ s', s.get l true = .ok (s', some t) := by
  have hstory := h.story l
  have hnone : after.filter (·.isAt l) = [] :=
    List.filter_eq_nil_iff.2 fun e he => by simp [hafter e he]
  have hat : (Event.wrote w).isAt l = true := hw
  rw [hsplit, List.filter_append, List.filter_cons_of_pos hat, hnone, ht] at hstory
  have hreadable : s.readable l true = some t := by
    rw [readable, ht, Option.filter, hstory.fresh_of_concat_wrote]
    rfl
  have hl : l.key.isConcrete = true := Tuple.isConcrete_of_location (h.sound.filed l t ht)
  exact ⟨_, hreadable ▸ s.get_of_isConcrete hl true⟩

end Told

/-- In every run from the empty store: a value is marked as unseen exactly if no reader was given it since
it was last written. Readers who ask for unseen values are given each value once at most, as it was
written and before anybody else; and if nobody was given a value since it was written, they can get it. -/
theorem trace_marks_observed (policy : PayloadCase) (uses : List Use) :
    let s := ((new policy).trace uses).1
    let history := ((new policy).trace uses).2
    (∀ l t, s.peek l = some t → ∃ before w after, history = before ++ .wrote w :: after ∧
      w.isAt l = true ∧ w.ignoringFresh = t.ignoringFresh ∧
      (∀ e ∈ after, e.isAt l = true →
        ∃ u asked, e = .gave u asked ∧ u.ignoringFresh = t.ignoringFresh) ∧
      (t.fresh = some true ↔ ∀ e ∈ after, e.isAt l = false)) ∧
    (∀ before t after, history = before ++ .gave t true :: after →
      ∃ l earlier between, t.isAt l = true ∧ before = earlier ++ .wrote t :: between ∧
        ∀ e ∈ between, e.isAt l = false) ∧
    (∀ earlier w reign later l, history = earlier ++ .wrote w :: (reign ++ later) → w.isAt l = true →
      (∀ e ∈ reign, e.isAt l = true → e.isWrite = false) →
      reign.countP (fun e => e.isAt l && e.isAsked) ≤ 1) ∧
    ∀ l t before w after, s.peek l = some t → history = before ++ .wrote w :: after →
      w.isAt l = true → (∀ e ∈ after, e.isAt l = false) → ∃ s', s.get l true = .ok (s', some t) := by
  intro s history
  have h : s.Told history := by
    have hempty : (new policy).Told [] :=
      ⟨sound_new policy, fun _ he => (nomatch he), fun _ => Story.empty⟩
    exact hempty.trace uses
  refine ⟨fun l t ht => h.last_write ht, fun before t after hsplit => ?_,
    fun earlier w reign later l hsplit _ hreign => ?_, fun l t before w after => h.get_of_unread⟩
  · obtain ⟨l, hl⟩ := h.placed (.gave t true) (hsplit ▸ by simp)
    obtain ⟨hbefore, hfresh⟩ := h.story_before_asked hsplit hl rfl
    obtain ⟨earlier, between, hearlier, hbetween⟩ := exists_wrote_of_story hbefore hfresh
    exact ⟨l, earlier, between, hl, hearlier, hbetween⟩
  · have hreigned : history = (earlier ++ [.wrote w]) ++ (reign ++ later) := by simpa using hsplit
    exact h.countP_asked_le hreigned hreign

/-- A value that is read, searched in vain and appended to. -/
def readings : List Use :=
  let a : Location := ⟨1, ⟨[some "a"]⟩⟩
  [.act (.insert (.plainText 1 a.key "v") ⟨1000, 0⟩), .peek a, .act (.get a true),
    .act (.search a.pattern.onlyFresh), .act (.append a.pattern [33] none ⟨1001, 0⟩),
    .matching a.pattern]

/-- The value as the first use wrote it, and what the append made of it. -/
def firstReading : Tuple :=
  { Tuple.plainText 1 ⟨[some "a"]⟩ "v" with
    seqno := some 1, written := some ⟨1000, 0⟩, fresh := some true }

/-- The reader who asked for an unseen value was given it as it was written, and nobody else was. After the
append it can be read once more. -/
theorem readings_marks_observed :
    let s := ((new .insensitive).trace readings).1
    let a : Location := ⟨1, ⟨[some "a"]⟩⟩
    let reign : List Event := [.gave firstReading true]
    ((new .insensitive).trace readings).2
      = [.wrote firstReading] ++ (reign ++ [.wrote (extend [33] ⟨1001, 0⟩ firstReading)]) ∧
    (∃ l earlier between, firstReading.isAt l = true ∧
      [.wrote firstReading] = earlier ++ Event.wrote firstReading :: between ∧
      ∀ e ∈ between, e.isAt l = false) ∧
    reign.countP (fun e => e.isAt a && e.isAsked) ≤ 1 ∧
    ∃ t, s.peek a = some t ∧ ∃ s', s.get a true = .ok (s', some t) := by
  intro s a reign
  have hhistory : ((new .insensitive).trace readings).2
      = [.wrote firstReading] ++ (reign ++ [.wrote (extend [33] ⟨1001, 0⟩ firstReading)]) := by
    decide +kernel
  obtain ⟨t, ht⟩ : ∃ t, s.peek a = some t := Option.isSome_iff_exists.1 (by decide +kernel)
  obtain ⟨-, hasked, honce, hget⟩ := trace_marks_observed .insensitive readings
  refine ⟨hhistory, hasked _ firstReading _ hhistory, ?_, t, ht, ?_⟩
  · exact honce [] firstReading reign _ a hhistory (by decide +kernel) (by decide +kernel)
  · exact hget a t [.wrote firstReading, .gave firstReading true] _ [] ht hhistory (by decide +kernel)
      (fun _ he => nomatch he)

end Store

end Blackboard
