import Blackboard.Proofs.Matching
import Blackboard.Proofs.Space.Session

/-!
# What indirect subscriptions follow

The pointer of an indirect subscription moves with the changes of the store: a stored value that its
prototype covers takes it over, and the removal of the value it came from clears it. `Reachable.pointers`
reduces facts about pointers in all runs to what one operation does to one pointer.

A subscription to one location ends up pointing where the value there points. One with a filter need
not: a value that the filter does not admit neither takes the pointer over nor clears it, so the
subscription stays bound through a meta tuple that was overwritten.
-/

namespace Blackboard

variable {κ : Type}

namespace Pointer

/-- The pointer of a subscription after a change. -/
def after (policy : PayloadCase) (prototype : Tuple) (w : Pointer) (c : Change) : Pointer :=
  match c.mode with
  | .onWrite =>
    if prototype.covers policy c.tuple then
      .through (Bindings.sourceOf c.tuple) (Reference.target? c.tuple)
    else w
  | .onDelete => if w.source = some c.place then .unbound else w

theorem after_onWrite (policy : PayloadCase) (p : Tuple) (w : Pointer) (place : Location)
    (t : Tuple) : w.after policy p ⟨.onWrite, place, t⟩ = if p.covers policy t then
      .through (Bindings.sourceOf t) (Reference.target? t) else w := rfl

theorem after_onDelete (policy : PayloadCase) (p : Tuple) (w : Pointer) (place : Location)
    (t : Tuple) : w.after policy p ⟨.onDelete, place, t⟩
      = if w.source = some place then .unbound else w := rfl

/-- The pointer taken from what lies at a location. -/
def tracking (l : Location) (content : Option Tuple) : Pointer :=
  .through (some l) (content.bind Reference.target?)

theorem sourceOf_eq {t : Tuple} {l : Location} (h : t.location = .ok l) :
    Bindings.sourceOf t = some l := by
  obtain ⟨howner, hkey⟩ := Tuple.location_owner_key h
  rw [Bindings.sourceOf, howner, hkey]
  rfl

theorem source_through {l place : Location} {target : Option Reference}
    (h : (through (some l) target).source = some place) : l = place := by
  simp only [through] at h
  split at h
  next => exact Option.some.inj h
  next => cases h

/-- A subscription to one location keeps track of what lies there. -/
theorem after_tracking {policy : PayloadCase} {l : Location} (hl : l.key.isConcrete = true)
    {c : Change} (hc : c.tuple.location = .ok c.place) (contents : Location → Option Tuple) :
    (tracking l (contents l)).after policy l.pattern c
      = tracking l (Function.update contents c.place c.outcome l) := by
  obtain ⟨mode, place, t⟩ := c
  have hcovers : l.pattern.covers policy t = true ↔ place = l :=
    Location.covers_pattern_iff_eq hl hc
  cases mode with
  | onWrite =>
    rw [after_onWrite]
    by_cases hplace : place = l
    · rw [if_pos (hcovers.2 hplace), hplace, Function.update_self]
      have hsource : Bindings.sourceOf t = some l := hplace ▸ sourceOf_eq hc
      rw [hsource]
      rfl
    · rw [if_neg fun h => hplace (hcovers.1 h), Function.update_of_ne (Ne.symm hplace)]
  | onDelete =>
    rw [after_onDelete]
    by_cases hplace : place = l
    · rw [hplace, Function.update_self]
      split
      next => rfl
      next hother =>
        cases ht : (contents l).bind Reference.target? with
        | none => rw [tracking, ht]; rfl
        | some r => exact absurd (by rw [tracking, ht]; rfl) hother
    · have hother : (tracking l (contents l)).source ≠ some place := fun h =>
        hplace (source_through h).symm
      rw [if_neg hother, Function.update_of_ne (Ne.symm hplace)]

theorem foldl_after_tracking {policy : PayloadCase} {l : Location} (hl : l.key.isConcrete = true)
    {changes : List Change} (hc : ∀ c ∈ changes, c.tuple.location = .ok c.place)
    (contents : Location → Option Tuple) :
    changes.foldl (after policy l.pattern) (tracking l (contents l))
      = tracking l (Change.replay changes contents l) := by
  induction changes generalizing contents with
  | nil => rfl
  | cons c rest ih =>
    rw [List.foldl_cons, after_tracking hl (hc c List.mem_cons_self), Change.replay_cons]
    exact ih (fun d hd => hc d (List.mem_cons_of_mem _ hd)) _

end Pointer

namespace Resolver

/-- An indirect subscription with these data is filed under the handle. -/
def Follows (r : Resolver κ) (i : Handle) (prototype : Tuple) (callback : Option κ) (w : Pointer) :
    Prop :=
  r.registration? i = some (prototype, callback) ∧ r.pointer? i = some w

theorem follows_iff {r : Resolver κ} {i : Handle} {p : Tuple} {callback : Option κ} {w : Pointer} :
    r.Follows i p callback w ↔ ∃ e, r.entries.get? i = some e ∧
      e.prototype = p ∧ e.callback = callback ∧ ⟨e.source, e.target⟩ = w := by
  rw [Follows, registration?, pointer?]
  cases r.entries.get? i with
  | none => simp
  | some e => simp [and_assoc]

end Resolver

namespace Space

variable [Callback κ] {s s' : Space κ} {i : Handle} {p : Tuple} {callback : Option κ} {w : Pointer}

theorem follows_notice (c : Change) (h : s.bindings.resolver.Follows i p callback w) :
    (s.notice c).bindings.resolver.Follows i p callback
      (w.after s.bindings.resolver.policy p c) := by
  obtain ⟨e, he, rfl, rfl, rfl⟩ := Resolver.follows_iff.1 h
  obtain ⟨mode, place, t⟩ := c
  cases mode with
  | onWrite =>
    show (s.afterWrite t).1.bindings.resolver.Follows i _ _ _
    rw [afterWrite_fst]
    refine ⟨(Bindings.registration?_rebindAll ..).trans h.1, ?_⟩
    refine (Bindings.pointer?_retarget s.bindings t i).trans ?_
    rw [he]
    rfl
  | onDelete =>
    refine ⟨(Bindings.registration?_rebindAll ..).trans h.1, ?_⟩
    refine (Bindings.pointer?_release (s.dispatch .onDelete t).1.bindings place i).trans ?_
    rw [show (s.dispatch .onDelete t).1.bindings.resolver.entries.get? i = some e from he]
    rfl

/-- A subscription keeps prototype and callback through an operation, and its pointer moves with the
changes one after the other. -/
theorem Becomes.follows {changes : List Change} (h : s.Becomes changes s')
    (hs : s.bindings.resolver.Follows i p callback w) :
    s'.bindings.resolver.Follows i p callback
      (changes.foldl (Pointer.after s.bindings.resolver.policy p) w) := by
  rw [h.noticed]
  show (s.noticeAll changes).bindings.resolver.Follows i p callback _
  clear h
  induction changes generalizing s w with
  | nil => exact hs
  | cons c rest ih =>
    have hrest := ih (follows_notice c hs)
    rw [resolver_policy_notice] at hrest
    exact hrest

end Space

namespace Session

variable [Callback κ] {guard : Session κ → Operation κ → Prop} {s : Session κ} {i : Handle}
  {p : Tuple} {callback : Option κ} {w : Pointer}

/-- A live indirect subscription and its pointer. -/
def Follows (s : Session κ) (i : Handle) (p : Tuple) (callback : Option κ) (w : Pointer) : Prop :=
  s.ledger.indirect.get? i = some (p, callback) ∧ s.space.resolver.pointer? i = some w

omit [Callback κ] in
theorem Follows.indirectTarget (h : s.Follows i p callback w) :
    s.space.indirectTarget i = w.target := by
  rw [Space.indirectTarget, Resolver.target?_eq_pointer?, h.2]
  rfl

omit [Callback κ] in
theorem Registered.exists_follows (h : s.Registered)
    (hi : s.ledger.indirect.get? i = some (p, callback)) : ∃ w, s.Follows i p callback w := by
  have hregistered := h i
  rw [hi, Resolver.registration?, Option.map_some] at hregistered
  obtain ⟨e, he, -⟩ := Option.map_eq_some_iff.1 hregistered
  exact ⟨⟨e.source, e.target⟩, hi, by rw [Space.resolver, Resolver.pointer?, he]; rfl⟩

omit [Callback κ] in
theorem Registered.resolver_follows (h : s.Registered) (hi : s.Follows i p callback w) :
    s.space.bindings.resolver.Follows i p.ignoringFresh callback w := by
  refine ⟨?_, hi.2⟩
  rw [h i, hi.1]
  rfl

/-- The pointer a subscription to a prototype would start with. -/
def origin (s : Session κ) (p : Tuple) : Pointer :=
  .first (s.space.store.matching p.ignoringFresh).head?

/-- How an operation leads to the pointer of a subscription: from the one before, through the changes
it makes, or by registering the subscription. -/
theorem follows_step_cases (hc : s.space.Coherent) (hr : s.Registered) {op : Operation κ}
    (h : (s.step op).Follows i p callback w) :
    (∃ a changes before, op = .access a ∧ s.Follows i p callback before ∧
      s.space.Becomes changes (s.space.access a) ∧ Change.Tidy changes ∧
      (∀ l ∈ s.space.swept a, ∃ c ∈ changes, c.mode = .onDelete ∧ c.place = l) ∧
      w = changes.foldl (Pointer.after s.space.store.policy p.ignoringFresh) before) ∨
    (s.step op).space.store = s.space.store ∧ (s.Follows i p callback w ∨ w = s.origin p) := by
  cases op with
  | access a =>
    obtain ⟨changes, hbecomes, htidy, hswept⟩ := Space.becomes_access hc.sound a
    obtain ⟨before, hbefore⟩ := hr.exists_follows h.1
    refine .inl ⟨a, changes, before, rfl, hbefore, hbecomes, htidy, hswept, ?_⟩
    have hafter := (hbecomes.follows (hr.resolver_follows hbefore)).2
    rw [hc.resolver_policy] at hafter
    exact Option.some.inj (h.2.symm.trans hafter)
  | allocate => exact .inr ⟨rfl, .inl h⟩
  | subscribe j subscription => exact .inr ⟨rfl, .inl h⟩
  | subscribeIndirect j prototype callback' =>
    refine .inr ⟨rfl, ?_⟩
    have hledger := (Table.get?_insert ..).symm.trans h.1
    have hpointer := (Bindings.pointer?_register ..).symm.trans h.2
    split at hledger
    next heq =>
      cases hledger
      rw [if_pos heq] at hpointer
      exact .inr (Option.some.inj hpointer).symm
    next hne =>
      rw [if_neg hne] at hpointer
      exact .inl ⟨hledger, hpointer⟩
  | unsubscribe j =>
    have hledger := (Table.get?_erase ..).symm.trans h.1
    split at hledger
    next => cases hledger
    next hne =>
      exact .inr ⟨Space.store_dropped .., .inl ⟨hledger, (Space.pointer?_dropped _ hne).symm.trans h.2⟩⟩

/-- What holds of the pointer of a subscription in all runs: it holds of the pointer it starts with, and
an operation on tuples carries it over. -/
theorem Reachable.pointers
    {P : PayloadCase → (Location → Option Tuple) → Tuple → Pointer → Prop}
    (h : Reachable guard s)
    (horigin : ∀ (s : Session κ) p, s.space.Coherent →
      P s.space.store.policy s.space.store.content p (s.origin p))
    (haccess : ∀ (s : Session κ) a changes i p callback w, s.space.Coherent → guard s (.access a) →
      s.space.Becomes changes (s.space.access a) → Change.Tidy changes →
      (∀ l ∈ s.space.swept a, ∃ c ∈ changes, c.mode = .onDelete ∧ c.place = l) →
      s.Follows i p callback w → P s.space.store.policy s.space.store.content p w →
      P s.space.store.policy (Change.replay changes s.space.store.content) p
        (changes.foldl (Pointer.after s.space.store.policy p.ignoringFresh) w))
    (hw : s.Follows i p callback w) : P s.space.store.policy s.space.store.content p w := by
  refine (h.invariant (I := fun s => s.space.Coherent ∧ s.Registered ∧ ∀ i p callback w,
    s.Follows i p callback w → P s.space.store.policy s.space.store.content p w) ?_ ?_).2.2 _ _ _ _ hw
  · exact fun localId policy keepsListing handles =>
      ⟨coherent_start .., fun _ => rfl, fun i p callback w hw => nomatch hw.1⟩
  · rintro s op ⟨hc, hr, hs⟩ hop
    refine ⟨coherent_step hc op, registered_step hc hr op, fun i p callback w hw => ?_⟩
    rcases follows_step_cases hc hr hw with
      ⟨a, changes, before, rfl, hbefore, hbecomes, htidy, hswept, rfl⟩ | ⟨hstore, hcase⟩
    · show P (s.space.access a).store.policy (s.space.access a).store.content p _
      rw [hbecomes.policy, hbecomes.content]
      exact haccess s a changes i p callback before hc hop hbecomes htidy hswept hbefore
        (hs i p callback before hbefore)
    · rw [hstore]
      rcases hcase with hbefore | rfl
      · exact hs i p callback w hbefore
      · exact horigin s p hc

/-! ## Subscriptions to one location -/

omit [Callback κ] in
theorem origin_pattern (hs : s.space.store.Sound) {l : Location} (hl : l.key.isConcrete = true) :
    s.origin l.pattern = .tracking l (s.space.store.content l) := by
  have hcovers {t : Tuple} {place : Location} (ht : s.space.store.peek place = some t) :
      l.pattern.covers s.space.store.policy t = true ↔ place = l :=
    Location.covers_pattern_iff_eq hl (hs.filed place t ht)
  have hpattern : l.pattern.ignoringFresh = l.pattern := rfl
  rw [origin, hpattern]
  cases hfound : (s.space.store.matching l.pattern).head? with
  | none =>
    have hnone : s.space.store.peek l = none := by
      refine Option.eq_none_iff_forall_not_mem.2 fun t ht => ?_
      have hmem : t ∈ s.space.store.matching l.pattern :=
        List.mem_filter.2 ⟨(Table.mem_values_iff _ t).2 ⟨l, ht⟩, (hcovers ht).2 rfl⟩
      rw [List.head?_eq_none_iff.1 hfound] at hmem
      cases hmem
    rw [Store.content, hnone]
    rfl
  | some t =>
    obtain ⟨hmem, hc⟩ := List.mem_filter.1 (List.mem_of_head? hfound)
    obtain ⟨place, ht⟩ := (Table.mem_values_iff _ t).1 hmem
    obtain rfl := (hcovers ht).1 hc
    have hpeek : s.space.store.peek place = some t := ht
    rw [Store.content, hpeek, Pointer.first, Option.elim_some,
      Pointer.sourceOf_eq (hs.filed place t ht)]
    rfl

theorem Reachable.tracking (h : Reachable guard s) {l : Location} (hl : l.key.isConcrete = true)
    (hw : s.Follows i l.pattern callback w) : w = .tracking l (s.space.store.content l) := by
  refine h.pointers (P := fun _ contents p w => p = l.pattern → w = .tracking l (contents l))
    ?_ ?_ hw rfl
  · rintro s p hc rfl
    exact origin_pattern hc.sound hl
  · rintro s a changes i p callback w - - hbecomes - - - hw rfl
    rw [hw rfl]
    exact Pointer.foldl_after_tracking hl hbecomes.placed _

end Session

end Blackboard
