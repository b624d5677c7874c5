import Blackboard.Proofs.Matching.Keys

/-!
# Patterns by the tuples they cover

A pattern is read here as the set of concrete tuples that it covers. Overlapping is then having a tuple
in common, and covering is having them all.

For the proofs a tuple is its key, its mark of reading and what it has in each `Field`; content type and
payload count as they are compared. The tuples that show a relation to fail, or to hold, come from
`meet`: it takes what two patterns say and fills in the rest.
-/

namespace Blackboard

/-- The fields that matching looks at one by one: all but the key and the mark of reading. -/
inductive Field where
  | owner
  | creator
  | written
  | stamp
  | expiry
  | encoding
  | seqno
  | mimetype
  | payload

namespace Field

/-- What a field holds as it is compared. -/
def Value : Field → Type
  | owner | creator => Owner
  | written | stamp => Timestamp
  | expiry => Expiry
  | encoding => Encoding
  | seqno => Nat
  | mimetype => List Char
  | payload => List UInt8

instance : (f : Field) → DecidableEq f.Value
  | owner | creator => inferInstanceAs (DecidableEq Owner)
  | written | stamp => inferInstanceAs (DecidableEq Timestamp)
  | expiry => inferInstanceAs (DecidableEq Expiry)
  | encoding => inferInstanceAs (DecidableEq Encoding)
  | seqno => inferInstanceAs (DecidableEq Nat)
  | mimetype => inferInstanceAs (DecidableEq (List Char))
  | payload => inferInstanceAs (DecidableEq (List UInt8))

end Field

namespace Tuple

/-- The value of a field as it is compared. -/
def value? (policy : PayloadCase) (t : Tuple) : (f : Field) → Option f.Value
  | .owner => t.owner
  | .creator => t.creator
  | .written => t.written
  | .stamp => t.stamp
  | .expiry => t.expiry
  | .encoding => t.encoding
  | .seqno => t.seqno
  | .mimetype => t.foldedMimetype
  | .payload => t.foldedPayload policy

theorem fieldCovers_iff {α : Type} [DecidableEq α] {p v : Option α} :
    fieldCovers p v = true ↔ ∀ x, p = some x → v = some x := by
  cases p <;> simp [fieldCovers]

theorem fieldsOverlap_iff {α : Type} [DecidableEq α] {a b : Option α} :
    fieldsOverlap a b = true ↔ ∀ x y, a = some x → b = some y → x = y := by
  cases a <;> cases b <;> simp [fieldsOverlap]

variable {policy : PayloadCase} {a b p q t : Tuple}

theorem covers_iff : p.covers policy t = true ↔ p.key.covers t.key = true ∧
    (∀ f x, p.value? policy f = some x → t.value? policy f = some x) ∧
    (p.fresh = some true → t.fresh = some true) := by
  simp only [covers, Bool.and_eq_true, fieldCovers_iff]
  have hfresh : (p.fresh != some true || t.fresh == some true) = true ↔
      (p.fresh = some true → t.fresh = some true) := by
    by_cases h : p.fresh = some true <;> simp [h]
  rw [hfresh]
  constructor
  · rintro ⟨⟨⟨⟨⟨⟨⟨⟨⟨⟨ho, hk⟩, hc⟩, hw⟩, hs⟩, hx⟩, he⟩, hn⟩, hm⟩, hp⟩, hf⟩
    refine ⟨hk, fun f => ?_, hf⟩
    cases f
    all_goals assumption
  · rintro ⟨hk, hv, hf⟩
    exact ⟨⟨⟨⟨⟨⟨⟨⟨⟨⟨hv .owner, hk⟩, hv .creator⟩, hv .written⟩, hv .stamp⟩, hv .expiry⟩, hv .encoding⟩,
      hv .seqno⟩, hv .mimetype⟩, hv .payload⟩, hf⟩

theorem overlaps_iff : a.overlaps policy b = true ↔ a.key.overlaps b.key = true ∧
    ∀ f x y, a.value? policy f = some x → b.value? policy f = some y → x = y := by
  simp only [overlaps, Bool.and_eq_true, fieldsOverlap_iff]
  constructor
  · rintro ⟨⟨⟨⟨⟨⟨⟨⟨⟨ho, hk⟩, hc⟩, hw⟩, hs⟩, hx⟩, he⟩, hn⟩, hm⟩, hp⟩
    refine ⟨hk, fun f => ?_⟩
    cases f
    all_goals assumption
  · rintro ⟨hk, hv⟩
    exact ⟨⟨⟨⟨⟨⟨⟨⟨⟨hv .owner, hk⟩, hv .creator⟩, hv .written⟩, hv .stamp⟩, hv .expiry⟩, hv .encoding⟩,
      hv .seqno⟩, hv .mimetype⟩, hv .payload⟩

/-- A tuple with a value in every field, at a concrete key, is concrete. -/
theorem isAbstract_of_isSome (policy : PayloadCase) (hkey : t.key.isConcrete = true)
    (h : ∀ f, (t.value? policy f).isSome = true) : t.isAbstract = false := by
  have hmimetype : t.mimetype.isSome = true := Option.isSome_map.symm.trans (h .mimetype)
  have hpayload : t.payload.isSome = true := Option.isSome_map.symm.trans (h .payload)
  simp only [isAbstract, Bool.or_eq_false_iff, Bool.not_eq_false', Option.isNone_eq_false_iff]
  exact ⟨⟨⟨⟨⟨⟨⟨h .owner, h .creator⟩, h .stamp⟩, h .expiry⟩, h .encoding⟩, hmimetype⟩, hpayload⟩, hkey⟩

theorem covers_trans (h : p.covers policy q = true) (h' : q.covers policy t = true) :
    p.covers policy t = true := by
  rw [covers_iff] at h h' ⊢
  obtain ⟨hkey, hvalues, hfresh⟩ := h
  obtain ⟨hkey', hvalues', hfresh'⟩ := h'
  exact ⟨Key.covers_trans hkey hkey', fun f x hx => hvalues' f x (hvalues f x hx),
    fun hp => hfresh' (hfresh hp)⟩

theorem overlaps_of_covers (ha : a.covers policy t = true) (hb : b.covers policy t = true) :
    a.overlaps policy b = true := by
  obtain ⟨hakey, havalues, -⟩ := covers_iff.1 ha
  obtain ⟨hbkey, hbvalues, -⟩ := covers_iff.1 hb
  exact overlaps_iff.2 ⟨Key.overlaps_of_covers hakey hbkey, fun f x y hx hy =>
    Option.some.inj ((havalues f x hx).symm.trans (hbvalues f y hy))⟩

theorem overlaps_self (policy : PayloadCase) (t : Tuple) : t.overlaps policy t = true :=
  overlaps_iff.2 ⟨Key.overlaps_self _, fun _ _ _ h h' => Option.some.inj (h.symm.trans h')⟩

/-- What `a` says, what `b` says where `a` says nothing, and what `filler` says of the rest. -/
def meet (filler : Tuple) (name : String) (a b : Tuple) : Tuple where
  owner := (a.owner.or b.owner).or filler.owner
  key := .meet name a.key b.key
  creator := (a.creator.or b.creator).or filler.creator
  written := (a.written.or b.written).or filler.written
  stamp := (a.stamp.or b.stamp).or filler.stamp
  expiry := (a.expiry.or b.expiry).or filler.expiry
  payload := (a.payload.or b.payload).or filler.payload
  mimetype := (a.mimetype.or b.mimetype).or filler.mimetype
  encoding := (a.encoding.or b.encoding).or filler.encoding
  seqno := (a.seqno.or b.seqno).or filler.seqno
  appends := filler.appends
  fresh := some (a.fresh == some true || b.fresh == some true)

variable {filler : Tuple} {name : String}

theorem value?_meet (f : Field) : (meet filler name a b).value? policy f
    = ((a.value? policy f).or (b.value? policy f)).or (filler.value? policy f) := by
  cases f
  case mimetype =>
    simp only [value?, foldedMimetype, meet, Option.map_or]
    rfl
  case payload =>
    simp only [value?, foldedPayload, meet, Option.map_or]
    rfl
  all_goals rfl

theorem isAbstract_meet (hfiller : ∀ f, (filler.value? policy f).isSome = true) :
    (meet filler name a b).isAbstract = false := by
  refine isAbstract_of_isSome policy Key.isConcrete_meet fun f => ?_
  rw [value?_meet, Option.isSome_or, hfiller f, Bool.or_true]

theorem fresh_meet : (meet filler name a b).fresh = some true ↔
    a.fresh = some true ∨ b.fresh = some true := by
  simp [meet]

theorem covers_meet (h : a.overlaps policy b = true) :
    a.covers policy (meet filler name a b) = true ∧
      b.covers policy (meet filler name a b) = true := by
  obtain ⟨hkey, hvalues⟩ := overlaps_iff.1 h
  obtain ⟨hakey, hbkey⟩ := Key.covers_meet hkey
  refine ⟨covers_iff.2 ⟨hakey, fun f x hx => ?_, fun hf => fresh_meet.2 (.inl hf)⟩,
    covers_iff.2 ⟨hbkey, fun f x hx => ?_, fun hf => fresh_meet.2 (.inr hf)⟩⟩
  · rw [value?_meet, hx]
    rfl
  · rw [value?_meet, hx]
    cases ha : a.value? policy f with
    | none => rfl
    | some y => exact congrArg some (hvalues f y x ha hx)

theorem covers_of_covers_meet {filler' : Tuple} {name' : String}
    (hfiller : ∀ f, filler.value? policy f ≠ filler'.value? policy f) (hname : name ≠ name')
    (hb : 0 < b.key.depth) (h : a.covers policy (meet filler name b b) = true)
    (h' : a.covers policy (meet filler' name' b b) = true) : a.covers policy b = true := by
  obtain ⟨hkey, hvalues, hfresh⟩ := covers_iff.1 h
  obtain ⟨hkey', hvalues', -⟩ := covers_iff.1 h'
  refine covers_iff.2 ⟨Key.covers_of_covers_meet hname hb hkey hkey', fun f x hx => ?_, fun hf => ?_⟩
  · have hf := (value?_meet f).symm.trans (hvalues f x hx)
    have hf' := (value?_meet f).symm.trans (hvalues' f x hx)
    cases hy : b.value? policy f with
    | none =>
      rw [hy] at hf hf'
      exact absurd (hf.trans hf'.symm) (hfiller f)
    | some y =>
      rw [hy] at hf
      exact hf
  · exact (fresh_meet.1 (hfresh hf)).elim id id

/-- A tuple with a value in every field. -/
def filler₀ : Tuple := { Tuple.new 0 .any [] with written := some .zero, seqno := some 0 }

/-- A tuple with another value in every field. -/
def filler₁ : Tuple where
  owner := some 1
  key := .any
  creator := some 1
  written := some ⟨1, 0⟩
  stamp := some ⟨1, 0⟩
  expiry := some .immediately
  payload := some [0]
  mimetype := some "text/plain"
  encoding := some .ascii
  seqno := some 1
  appends := 0
  fresh := none

theorem isSome_filler₀ (policy : PayloadCase) (f : Field) :
    (filler₀.value? policy f).isSome = true := by
  cases f <;> rfl

theorem isSome_filler₁ (policy : PayloadCase) (f : Field) :
    (filler₁.value? policy f).isSome = true := by
  cases f <;> rfl

theorem filler₀_ne_filler₁ (policy : PayloadCase) (f : Field) :
    filler₀.value? policy f ≠ filler₁.value? policy f := by
  cases policy <;> cases f <;> decide

/-- Two patterns overlap exactly if some concrete tuple is covered by both. If their keys can be built,
so can the key of such a tuple. -/
theorem overlaps_iff_exists_concrete (policy : PayloadCase) {a b : Tuple} (ha : a.key.Built)
    (hb : b.key.Built) :
    (a.overlaps policy b = true ↔ ∃ t : Tuple, t.isAbstract = false ∧
      a.covers policy t = true ∧ b.covers policy t = true) ∧
    (a.overlaps policy b = true ↔ ∃ t : Tuple, t.isAbstract = false ∧ t.key.Built ∧
      a.covers policy t = true ∧ b.covers policy t = true) := by
  have hmeet (h : a.overlaps policy b = true) : ∃ t : Tuple, t.isAbstract = false ∧ t.key.Built ∧
      a.covers policy t = true ∧ b.covers policy t = true :=
    ⟨meet filler₀ "a" a b, isAbstract_meet (isSome_filler₀ policy), ha.meet hb (by decide +kernel),
      covers_meet h⟩
  refine ⟨⟨fun h => ?_, ?_⟩, hmeet, ?_⟩
  · obtain ⟨t, ht, -, hcovers⟩ := hmeet h
    exact ⟨t, ht, hcovers⟩
  · rintro ⟨t, -, hat, hbt⟩
    exact overlaps_of_covers hat hbt
  · rintro ⟨t, -, -, hat, hbt⟩
    exact overlaps_of_covers hat hbt

/-- Two patterns that overlap although neither covers the other: one has a wildcard in the middle of its
key, the other at its end. -/
theorem overlaps_middle_and_end :
    let a : Tuple := { Tuple.pattern with key := ⟨[some "a", none, some "c"]⟩, payload := some [111] }
    let b : Tuple := { Tuple.pattern with key := ⟨[some "a", some "b", none]⟩, payload := some [79] }
    a.key.Built ∧ b.key.Built ∧ a.covers .insensitive b = false ∧ b.covers .insensitive a = false ∧
      ∃ t : Tuple, t.isAbstract = false ∧ t.key.Built ∧
        a.covers .insensitive t = true ∧ b.covers .insensitive t = true := by
  intro a b
  have ha : a.key.Built := .parsed (show Key.parse "a.*.c" = .ok a.key from rfl)
  have hb : b.key.Built := .parsed (show Key.parse "a.b.*" = .ok b.key from rfl)
  refine ⟨ha, hb, by decide +kernel, by decide +kernel, ?_⟩
  exact (overlaps_iff_exists_concrete .insensitive ha hb).2.1 (by decide +kernel)

/-- A pattern covers another with a segment in its key exactly if it covers every concrete tuple that
the other does. Where the key of the other can be built, the tuples with such keys decide. -/
theorem covers_iff_forall_concrete (policy : PayloadCase) (a : Tuple) {b : Tuple} (hb : b.key.Built)
    (hdepth : 0 < b.key.depth) :
    (a.covers policy b = true ↔ ∀ t : Tuple, t.isAbstract = false →
      b.covers policy t = true → a.covers policy t = true) ∧
    (a.covers policy b = true ↔ ∀ t : Tuple, t.isAbstract = false → t.key.Built →
      b.covers policy t = true → a.covers policy t = true) := by
  -- What `b` leaves open is filled in two ways that differ everywhere.
  have hfill (h : ∀ t : Tuple, t.isAbstract = false → t.key.Built →
      b.covers policy t = true → a.covers policy t = true) : a.covers policy b = true := by
    have hself := overlaps_self policy b
    refine covers_of_covers_meet (filler₀_ne_filler₁ policy) (by decide : "a" ≠ "b") hdepth ?_ ?_
    · exact h _ (isAbstract_meet (isSome_filler₀ policy)) (hb.meet hb (by decide +kernel))
        (covers_meet hself).1
    · exact h _ (isAbstract_meet (isSome_filler₁ policy)) (hb.meet hb (by decide +kernel))
        (covers_meet hself).1
  exact ⟨⟨fun h t _ ht => covers_trans h ht, fun h => hfill fun t ht _ => h t ht⟩,
    fun h t _ _ ht => covers_trans h ht, hfill⟩

/-- The wildcard at the end of a key covers one at the end of a longer key, and not the other way
round. -/
theorem covers_deeper_wildcard :
    let a : Tuple := .locator none ⟨[some "temp", none]⟩
    let b : Tuple := .locator none ⟨[some "temp", some "room", none]⟩
    a.key.Built ∧ b.key.Built ∧ 0 < a.key.depth ∧ 0 < b.key.depth ∧
      (∀ t : Tuple, t.isAbstract = false → b.covers .sensitive t = true →
        a.covers .sensitive t = true) ∧
      ¬ ∀ t : Tuple, t.isAbstract = false → t.key.Built → a.covers .sensitive t = true →
        b.covers .sensitive t = true := by
  intro a b
  have ha : a.key.Built := .parsed (show Key.parse "temp.*" = .ok a.key from rfl)
  have hb : b.key.Built := .parsed (show Key.parse "temp.room.*" = .ok b.key from rfl)
  refine ⟨ha, hb, by decide, by decide, ?_, fun h => ?_⟩
  · exact (covers_iff_forall_concrete .sensitive a hb (by decide)).1.1 (by decide +kernel)
  · have hcovers := (covers_iff_forall_concrete .sensitive b ha (by decide)).2.2 h
    exact absurd hcovers (by decide +kernel)

end Tuple

end Blackboard
