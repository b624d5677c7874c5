import Blackboard.Proofs.Space.Following

/-!
# What a binding rests on

A bound subscription keeps the location of the meta tuple it is bound through, and there is a value at
that location as long as the binding lasts. What that value says is another matter. A value that the
prototype covers takes the pointer over, and a removal clears it, but a value that the prototype does not
cover does neither: the subscription stays bound through a meta tuple that is gone. `Uncovers` are the
operations that leave such a value, and they are the only way for a binding to lose its ground.
-/

namespace Blackboard

variable {κ : Type}

namespace Pointer

/-- A pointer comes from a location that has a value, and it names what that value names if the
prototype covers it. -/
structure Backed (policy : PayloadCase) (contents : Location → Option Tuple) (p : Tuple)
    (w : Pointer) : Prop where
  unbound : w.source = none → w.target = none
  value : ∀ l, w.source = some l → ∃ t r, contents l = some t ∧ w.target = some r ∧
    (p.ignoringFresh.covers policy t = true → Reference.target? t = some r)

/-- The value a pointer comes from is one that the prototype covers. -/
def Admitted (policy : PayloadCase) (contents : Location → Option Tuple) (p : Tuple) (w : Pointer) :
    Prop :=
  ∀ l, w.source = some l → ∃ t, contents l = some t ∧ p.ignoringFresh.covers policy t = true

variable {policy : PayloadCase} {contents : Location → Option Tuple} {p : Tuple} {w : Pointer}

theorem backed_unbound : Backed policy contents p unbound := ⟨fun _ => rfl, fun _ h => nomatch h⟩

theorem backed_through {l : Location} {t : Tuple} (ht : contents l = some t.ignoringFresh) :
    Backed policy contents p (through (some l) (Reference.target? t)) := by
  cases hr : Reference.target? t with
  | none => exact backed_unbound
  | some r =>
    refine ⟨fun h => (nomatch h), fun place hplace => ?_⟩
    obtain rfl := Option.some.inj (show some l = some place from hplace)
    refine ⟨t.ignoringFresh, r, ht, rfl, fun _ => ?_⟩
    rw [← hr]
    exact Tuple.target?_congr_fresh rfl

theorem covers_ignoringFresh {t : Tuple} :
    p.ignoringFresh.covers policy t.ignoringFresh = p.ignoringFresh.covers policy t :=
  Tuple.covers_congr_fresh rfl

theorem Backed.after (h : Backed policy contents p w) {c : Change}
    (hc : c.tuple.location = .ok c.place) :
    Backed policy (Function.update contents c.place c.outcome) p
      (w.after policy p.ignoringFresh c) := by
  obtain ⟨mode, place, t⟩ := c
  cases mode with
  | onWrite =>
    rw [after_onWrite]
    split
    next =>
      rw [sourceOf_eq hc]
      exact backed_through (Function.update_self ..)
    next hnot =>
      refine ⟨h.unbound, fun l hl => ?_⟩
      obtain ⟨old, r, hold, hr, hnames⟩ := h.value l hl
      by_cases hplace : l = place
      · subst hplace
        refine ⟨t.ignoringFresh, r, Function.update_self .., hr, fun hcovers => ?_⟩
        exact absurd (covers_ignoringFresh.symm.trans hcovers) hnot
      · exact ⟨old, r, (Function.update_of_ne hplace ..).trans hold, hr, hnames⟩
  | onDelete =>
    rw [after_onDelete]
    split
    next => exact backed_unbound
    next hother =>
      refine ⟨h.unbound, fun l hl => ?_⟩
      obtain ⟨old, r, hold, hrest⟩ := h.value l hl
      have hplace : l ≠ place := by
        intro heq
        subst heq
        exact hother hl
      exact ⟨old, r, (Function.update_of_ne hplace ..).trans hold, hrest⟩

theorem Backed.foldl (h : Backed policy contents p w) {changes : List Change}
    (hc : ∀ c ∈ changes, c.tuple.location = .ok c.place) :
    Backed policy (Change.replay changes contents) p
      (changes.foldl (Pointer.after policy p.ignoringFresh) w) := by
  induction changes generalizing w contents with
  | nil => exact h
  | cons c rest ih =>
    exact ih (h.after (hc c List.mem_cons_self)) fun d hd => hc d (List.mem_cons_of_mem _ hd)

/-- Where a pointer comes from after a change: from the value that it stored, if the prototype covers
that, or from where it came before, if the change took nothing away there. -/
theorem source_after {c : Change} (hc : c.tuple.location = .ok c.place) {l : Location}
    (hl : (w.after policy p c).source = some l) :
    c.mode = .onWrite ∧ c.place = l ∧ p.covers policy c.tuple = true ∨
      w.after policy p c = w ∧ (c.mode = .onDelete → c.place ≠ l) := by
  obtain ⟨mode, place, t⟩ := c
  cases mode with
  | onWrite =>
    rw [after_onWrite] at hl ⊢
    split at hl
    next hcovers =>
      rw [sourceOf_eq hc] at hl
      exact .inl ⟨rfl, source_through hl, hcovers⟩
    next hnot => exact .inr ⟨if_neg hnot, fun hmode => nomatch hmode⟩
  | onDelete =>
    rw [after_onDelete] at hl ⊢
    split at hl
    next => cases hl
    next hother =>
      refine .inr ⟨if_neg hother, fun _ heq => ?_⟩
      subst heq
      exact hother hl

/-- Where a pointer comes from after tidy changes: from a value that one of them stored and the
prototype covers, or from where it came before, which no removal was about. -/
theorem source_foldl (contents : Location → Option Tuple) {changes : List Change}
    (htidy : Change.Tidy changes) (hc : ∀ c ∈ changes, c.tuple.location = .ok c.place) {l : Location}
    (hl : (changes.foldl (Pointer.after policy p) w).source = some l) :
    (∃ c ∈ changes, c.place = l ∧ p.covers policy c.tuple = true ∧
      Change.replay changes contents l = some c.tuple.ignoringFresh) ∨
    changes.foldl (Pointer.after policy p) w = w ∧
      ∀ c ∈ changes, c.mode = .onDelete → c.place ≠ l := by
  -- The later changes decide, unless they leave the pointer where the first one put it.
  induction changes generalizing w contents with
  | nil => exact .inr ⟨rfl, fun c hc => nomatch hc⟩
  | cons c rest ih =>
    obtain ⟨hfirst, hrest⟩ := List.pairwise_cons.1 htidy
    rw [List.foldl_cons] at hl ⊢
    have hcases := ih (w := w.after policy p c) (Function.update contents c.place c.outcome) hrest
      (fun d hd => hc d (List.mem_cons_of_mem _ hd)) hl
    rcases hcases with ⟨d, hd, hstored⟩ | ⟨hsame, hkept⟩
    · exact .inl ⟨d, List.mem_cons_of_mem _ hd, hstored⟩
    · rw [hsame] at hl ⊢
      rcases source_after (hc c List.mem_cons_self) hl with ⟨hmode, rfl, hcovers⟩ | ⟨hstays, hkeeps⟩
      · refine .inl ⟨c, List.mem_cons_self, rfl, hcovers, ?_⟩
        rw [Change.replay_cons, Change.replay_of_forall_ne fun d hd => hfirst d hd hmode,
          Function.update_self, Change.outcome, hmode]
      · exact .inr ⟨hstays, List.forall_mem_cons.2 ⟨hkeeps, hkept⟩⟩

end Pointer

namespace Session

variable [Callback κ] {guard : Session κ → Operation κ → Prop} {s : Session κ} {i : Handle}
  {p : Tuple} {callback : Option κ} {w : Pointer}

omit [Callback κ] in
/-- The value at a location is covered by a prototype and names a reference. -/
def Names (s : Session κ) (p : Tuple) (r : Reference) (l : Location) : Prop :=
  ∃ t, s.space.peek l = some t ∧ p.ignoringFresh.covers s.space.store.policy t = true ∧
    Reference.target? t = some r

omit [Callback κ] in
/-- Every bound subscription has a stored value that its prototype covers and that names what it is
bound to. -/
def Grounded (s : Session κ) : Prop :=
  ∀ i p callback r, s.ledger.indirect.get? i = some (p, callback) →
    s.space.indirectTarget i = some r → ∃ l, s.Names p r l

/-- An operation that leaves, in the place of the value a subscription is bound through, one that its
prototype does not cover. A sweep that takes the old value away first does not count. -/
def Uncovers (s : Session κ) (op : Operation κ) : Prop :=
  ∃ a i p callback w l t, op = .access a ∧ s.Follows i p callback w ∧ w.source = some l ∧
    l ∉ s.space.swept a ∧ (s.space.access a).peek l = some t ∧
    p.ignoringFresh.covers s.space.store.policy t = false

omit [Callback κ] in
theorem backed_origin (hs : s.space.store.Sound) (p : Tuple) :
    Pointer.Backed s.space.store.policy s.space.store.content p (s.origin p) ∧
      Pointer.Admitted s.space.store.policy s.space.store.content p (s.origin p) := by
  rw [origin]
  cases hfound : (s.space.store.matching p.ignoringFresh).head? with
  | none =>
    refine ⟨Pointer.backed_unbound, fun _ h => ?_⟩
    cases h
  | some t =>
    obtain ⟨hmem, hcovers⟩ := List.mem_filter.1 (List.mem_of_head? hfound)
    obtain ⟨l, ht⟩ := (Table.mem_values_iff _ t).1 hmem
    have hcontent : s.space.store.content l = some t.ignoringFresh :=
      Option.map_eq_some_iff.2 ⟨t, ht, rfl⟩
    rw [Pointer.first, Option.elim_some, Pointer.sourceOf_eq (hs.filed l t ht)]
    refine ⟨Pointer.backed_through hcontent, fun place hplace => ?_⟩
    obtain rfl := Pointer.source_through hplace
    exact ⟨_, hcontent, Pointer.covers_ignoringFresh.trans hcovers⟩

theorem Reachable.backed (h : Reachable guard s) (hw : s.Follows i p callback w) :
    Pointer.Backed s.space.store.policy s.space.store.content p w := by
  refine h.pointers (P := fun policy contents p w => Pointer.Backed policy contents p w)
    (fun s p hc => (backed_origin hc.sound p).1) ?_ hw
  intro s a changes i p callback w _ _ hbecomes _ _ _ hb
  exact hb.foldl hbecomes.placed

/-- An operation that uncovers nothing leaves every pointer with a value that its prototype covers. -/
theorem admitted_access {a : Access} {changes : List Change}
    (hguard : ¬ s.Uncovers (.access a)) (hbecomes : s.space.Becomes changes (s.space.access a))
    (htidy : Change.Tidy changes)
    (hswept : ∀ l ∈ s.space.swept a, ∃ c ∈ changes, c.mode = .onDelete ∧ c.place = l)
    (hw : s.Follows i p callback w)
    (hb : Pointer.Backed s.space.store.policy s.space.store.content p w) :
    Pointer.Admitted s.space.store.policy (Change.replay changes s.space.store.content) p
      (changes.foldl (Pointer.after s.space.store.policy p.ignoringFresh) w) := by
  intro l hl
  rcases Pointer.source_foldl s.space.store.content htidy hbecomes.placed hl with
    ⟨c, -, -, hcovers, hcontent⟩ | ⟨hsame, hkept⟩
  · exact ⟨_, hcontent, Pointer.covers_ignoringFresh.trans hcovers⟩
  · obtain ⟨t, r, ht, -⟩ := (hb.foldl hbecomes.placed).value l hl
    refine ⟨t, ht, ?_⟩
    rw [hsame] at hl
    rw [← hbecomes.content] at ht
    obtain ⟨u, hu, rfl⟩ := Option.map_eq_some_iff.1 ht
    rw [Pointer.covers_ignoringFresh]
    by_contra hnot
    refine hguard ⟨a, i, p, callback, w, l, u, rfl, hw, hl, fun hmem => ?_, hu, by simpa using hnot⟩
    obtain ⟨c, hmem, hmode, hplace⟩ := hswept l hmem
    exact hkept c hmem hmode hplace

/-- A bound subscription is bound through a location that has a value. -/
theorem Reachable.exists_source (h : Reachable guard s)
    (hi : s.ledger.indirect.get? i = some (p, callback)) {r : Reference}
    (hr : s.space.indirectTarget i = some r) : ∃ l t, s.Follows i p callback ⟨some l, some r⟩ ∧
      s.space.peek l = some t ∧
      (p.ignoringFresh.covers s.space.store.policy t = true → Reference.target? t = some r) := by
  obtain ⟨⟨source, target⟩, hw⟩ := h.registered.exists_follows hi
  obtain rfl : target = some r := hw.indirectTarget.symm.trans hr
  have hb := h.backed hw
  cases source with
  | none => exact nomatch hb.unbound rfl
  | some l =>
    obtain ⟨t, r', ht, hr', hnames⟩ := hb.value l rfl
    obtain rfl := Option.some.inj (show some r = some r' from hr')
    obtain ⟨u, hu, rfl⟩ := Option.map_eq_some_iff.1 ht
    exact ⟨l, u, hw, hu, fun hcovers => (Tuple.target?_congr_fresh rfl).trans
      (hnames (Pointer.covers_ignoringFresh.trans hcovers))⟩

theorem Reachable.grounded (h : Reachable (fun s op => ¬ s.Uncovers op) s) :
    s.Grounded := by
  intro i p callback r hi hr
  obtain ⟨l, u, hw, hu, hnames⟩ := h.exists_source hi hr
  obtain ⟨-, hadmitted⟩ := h.pointers (P := fun policy contents p w =>
      Pointer.Backed policy contents p w ∧ Pointer.Admitted policy contents p w)
    (fun s p hc => backed_origin hc.sound p)
    (fun s a changes i p callback w _ hop hbecomes htidy hswept hw hP =>
      ⟨hP.1.foldl hbecomes.placed, admitted_access hop hbecomes htidy hswept hw hP.1⟩) hw
  obtain ⟨t, ht, hcovers⟩ := hadmitted l rfl
  have hcontent : s.space.store.content l = some u.ignoringFresh :=
    Option.map_eq_some_iff.2 ⟨u, hu, rfl⟩
  obtain rfl := Option.some.inj (hcontent.symm.trans ht)
  have hcovered := Pointer.covers_ignoringFresh.symm.trans hcovers
  exact ⟨l, u, hu, hcovered, hnames hcovered⟩

/-- A value that the prototype does not cover, stored where a subscription is bound through, leaves the
binding as it is. -/
theorem Reachable.unmoved (h : Reachable guard s) (hw : s.Follows i p callback w) {l : Location}
    (hl : w.source = some l) {a : Access} {u : Tuple} (hstores : s.space.Stores a l u)
    (hcovers : p.ignoringFresh.covers s.space.store.policy u = false) :
    (s.space.access a).indirectTarget i = w.target ∧
      ∀ l', (s.space.access a).peek l' = if l' = l then some u else s.space.peek l' := by
  obtain ⟨hu, hfresh, haccess⟩ := hstores.spec
  obtain ⟨t, _, ht, -⟩ := (h.backed hw).value l hl
  have hstored : s.space.access a = s.space.stored l u := by
    rcases haccess with heq | ⟨-, -, -, hnone, -⟩
    · exact heq
    · rw [Store.content, show s.space.store.peek l = none from hnone] at ht
      cases ht
  have hself : { u with fresh := some true } = u := by
    cases u
    simp_all
  rw [hstored]
  refine ⟨?_, fun l' => by rw [Space.peek_stored, hself]⟩
  have hafter := (Space.becomes_stored h.coherent.sound hu).follows (h.registered.resolver_follows hw)
  rw [List.foldl_cons, List.foldl_nil, Pointer.after_onWrite, hself, h.coherent.resolver_policy,
    hcovers] at hafter
  rw [Space.indirectTarget, Resolver.target?_eq_pointer?, Space.resolver, hafter.2]
  rfl

/-- Bindings keep their ground in every run without an operation that uncovers one. In any run a bound
subscription has ground exactly if the value it is bound through is still covered by its prototype, or
some other value does as well. A write or an accepted copy that is not covered leaves the subscription
bound as it was. -/
theorem grounded_unless_uncovered :
    (∀ s : Session κ, Reachable (fun s op => ¬ s.Uncovers op) s → s.Grounded) ∧
    ∀ (s : Session κ) (i : Handle) (p : Tuple) (callback : Option κ) (r : Reference),
      Reachable (fun _ _ => True) s → s.ledger.indirect.get? i = some (p, callback) →
      s.space.indirectTarget i = some r →
      ∃ l t, s.Follows i p callback ⟨some l, some r⟩ ∧ s.space.peek l = some t ∧
        ((∃ l', s.Names p r l') ↔
          p.ignoringFresh.covers s.space.store.policy t = true ∨ ∃ l' ≠ l, s.Names p r l') ∧
        ∀ a u, s.space.Stores a l u → p.ignoringFresh.covers s.space.store.policy u = false →
          s.Uncovers (.access a) ∧ (s.space.access a).indirectTarget i = some r ∧
            (s.space.access a).peek l = some u := by
  refine ⟨fun s h => h.grounded, fun s i p callback r h hi hr => ?_⟩
  obtain ⟨l, u, hw, hu, hnames⟩ := h.exists_source hi hr
  refine ⟨l, u, hw, hu, ⟨?_, ?_⟩, fun a t hstores hcovers => ?_⟩
  · rintro ⟨l', hl'⟩
    by_cases heq : l' = l
    · obtain ⟨t, ht, hcovers, -⟩ := heq ▸ hl'
      obtain rfl := Option.some.inj (hu.symm.trans ht)
      exact .inl hcovers
    · exact .inr ⟨l', heq, hl'⟩
  · intro hcase
    rcases hcase with hcovers | ⟨l', -, hl'⟩
    · exact ⟨l, u, hu, hcovers, hnames hcovers⟩
    · exact ⟨l', hl'⟩
  · obtain ⟨htarget, hpeek⟩ := h.unmoved hw rfl hstores hcovers
    have hl : (s.space.access a).peek l = some t := by rw [hpeek, if_pos rfl]
    refine ⟨⟨a, i, p, callback, _, l, t, rfl, hw, rfl, ?_, hl, hcovers⟩, htarget, hl⟩
    obtain ⟨_, _, _, _, ⟨rfl, -⟩ | ⟨rfl, -⟩, -⟩ := hstores
    · exact List.not_mem_nil
    · exact List.not_mem_nil

/-- A session with a meta tuple and a subscription to all tuples of that content type. -/
def filtered (target : Reference) : Session String :=
  (start 1 .insensitive false {}).run
    [.allocate, .access (.write (Reference.metaTuple ⟨1, ⟨[some "m"]⟩⟩ (some target)) ⟨1000, 0⟩),
      .subscribeIndirect 1 { Tuple.pattern with mimetype := some Reference.mimetype } (some "moved")]

theorem filtered_grounded :
    let x : Reference := ⟨⟨1, ⟨[some "x"]⟩⟩, rfl⟩
    let p : Tuple := { Tuple.pattern with mimetype := some Reference.mimetype }
    let s := filtered x
    s.Grounded ∧ s.space.indirectTarget 1 = some x ∧
      ∃ l t, s.Follows 1 p (some "moved") ⟨some l, some x⟩ ∧ s.space.peek l = some t := by
  intro x p s
  have hguarded : Reachable (fun s op => ¬ s.Uncovers op) s := by
    refine ⟨1, .insensitive, false, {}, runs_run ⟨?_, ?_, ?_, trivial⟩⟩
    · rintro ⟨_, _, _, _, _, _, _, hop, -⟩
      cases hop
    · rintro ⟨_, _, _, _, _, _, _, -, hw, -⟩
      exact nomatch hw.1
    · rintro ⟨_, _, _, _, _, _, _, hop, -⟩
      cases hop
  have htarget : s.space.indirectTarget 1 = some x := by decide +kernel
  obtain ⟨hgrounded, hbound⟩ := @grounded_unless_uncovered String _
  obtain ⟨l, t, hw, ht, -⟩ := hbound s 1 p (some "moved") x
    (hguarded.mono fun _ _ _ => trivial) (by decide +kernel) htarget
  exact ⟨hgrounded s hguarded, htarget, l, t, hw, ht⟩

/-- A plain value written over a meta tuple leaves a subscription bound that has nothing to follow. -/
theorem not_grounded_after_overwrite : ∃ s : Session String, Reachable Allows s ∧ ¬ s.Grounded := by
  let x : Reference := ⟨⟨1, ⟨[some "x"]⟩⟩, rfl⟩
  let p : Tuple := { Tuple.pattern with mimetype := some Reference.mimetype }
  let m : Location := ⟨1, ⟨[some "m"]⟩⟩
  let s := (filtered x).step (.access (.write (Tuple.plainText 1 m.key "v") ⟨1001, 0⟩))
  have hreach : Reachable Allows (filtered x) :=
    ⟨1, .insensitive, false, {}, runs_run (by decide +kernel)⟩
  refine ⟨s, hreach.step trivial, fun hgrounded => ?_⟩
  obtain ⟨l, t, ht, hcovers, -⟩ := hgrounded 1 p (some "moved") x (by decide +kernel)
    (by decide +kernel)
  have hkeys : s.space.store.tuples.keys = [m] := by decide +kernel
  have hmem := (s.space.store.tuples.mem_keys_iff_exists l).2 ⟨t, ht⟩
  rw [hkeys] at hmem
  obtain rfl := List.mem_singleton.1 hmem
  have huncovered : ∀ t ∈ s.space.peek m,
      p.ignoringFresh.covers s.space.store.policy t = false := by decide +kernel
  exact nomatch (huncovered t ht).symm.trans hcovers

end Session

end Blackboard
