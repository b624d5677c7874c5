import Blackboard.Proofs.Key
import Blackboard.Tuple.Match

/-!
# Keys by the names in them

Both relations on keys are about three things only: how deep the keys are, whether they are
open-ended, and which names they have at which places. `covers_iff` and `overlaps_iff` say how, for
the key without segments as for any other, and from there on no proof looks at lists of segments.

Two keys that overlap have a concrete key under both of them, `meet`. The key under `b` and `b` is `b`
with its wildcards filled in, and two such fillings tell whether a key covers `b`.
-/

namespace Blackboard

namespace Key

/-- The name at a place of a key. A wildcard has none. -/
def name? (k : Key) (i : Nat) : Option String := k.segments[i]?.join

theorem name?_eq_some_iff {k : Key} {i : Nat} {name : String} :
    k.name? i = some name ↔ k.segments[i]? = some (some name) :=
  Option.join_eq_some_iff

theorem lt_depth_of_name? {k : Key} {i : Nat} {name : String} (h : k.name? i = some name) :
    i < k.depth :=
  (List.getElem?_eq_some_iff.1 (name?_eq_some_iff.1 h)).1

theorem isOpenEnded_eq (k : Key) : k.isOpenEnded = (k.name? (k.depth - 1)).isNone := by
  rw [isOpenEnded, List.getLast?_eq_getElem?, name?, depth]
  cases k.segments[k.segments.length - 1]? with
  | none => rfl
  | some segment => cases segment <;> rfl

theorem isConcrete_iff (k : Key) :
    k.isConcrete = true ↔ 0 < k.depth ∧ ∀ i < k.depth, ∃ name, k.name? i = some name := by
  simp only [isConcrete, Bool.and_eq_true, Bool.not_eq_true', List.isEmpty_eq_false_iff,
    ← List.length_pos_iff, List.all_eq_true, depth, name?_eq_some_iff]
  refine and_congr_right fun _ => ⟨fun h i hi => ?_, fun h segment hmem => ?_⟩
  · obtain ⟨name, hname⟩ := Option.isSome_iff_exists.1 (h _ (List.getElem_mem hi))
    exact ⟨name, by rw [List.getElem?_eq_getElem hi, hname]⟩
  · obtain ⟨i, hi, rfl⟩ := List.getElem_of_mem hmem
    obtain ⟨name, hname⟩ := h i hi
    rw [List.getElem?_eq_getElem hi, Option.some.injEq] at hname
    rw [hname]
    rfl

theorem all_zip_iff {α β : Type} (f : α → β → Bool) (xs : List α) (ys : List β) :
    ((xs.zip ys).all fun s => f s.1 s.2) = true ↔
      ∀ (i : Nat) x y, xs[i]? = some x → ys[i]? = some y → f x y = true := by
  simp only [List.all_eq_true, List.mem_iff_getElem?, Prod.forall, List.getElem?_zip_eq_some,
    forall_exists_index, and_imp]
  exact ⟨fun h i x y => h x y i, fun h x y i => h i x y⟩

theorem segmentCovers_iff {p k : Option String} :
    segmentCovers p k = true ↔ ∀ name, p = some name → k = some name := by
  cases p with
  | none => simp [segmentCovers]
  | some name => simpa [segmentCovers] using eq_comm

theorem segmentsOverlap_iff {x y : Option String} : segmentsOverlap x y = true ↔
    ∀ name name', x = some name → y = some name' → name = name' := by
  cases x <;> cases y <;> simp [segmentsOverlap]

theorem eq_any_of_isAny {k : Key} (h : k.isAny = true) : k = any := by
  obtain ⟨segments⟩ := k
  exact congrArg mk (List.isEmpty_iff.1 h)

theorem covers_iff {p k : Key} : p.covers k = true ↔ p.depth ≤ k.depth ∧
    (p.isOpenEnded = false → k.depth = p.depth) ∧
    ∀ i name, p.name? i = some name → k.name? i = some name := by
  cases hany : p.isAny with
  | true =>
    obtain rfl := eq_any_of_isAny hany
    simp [covers, any, isAny, depth, isOpenEnded, name?]
  | false =>
    have hdepth : (if p.isOpenEnded then decide (p.depth ≤ k.depth) else k.depth == p.depth) = true ↔
        p.depth ≤ k.depth ∧ (p.isOpenEnded = false → k.depth = p.depth) := by
      cases p.isOpenEnded
      · simp
        omega
      · simp
    rw [covers, hany, Bool.false_or, Bool.and_eq_true, hdepth, all_zip_iff, and_assoc]
    refine and_congr_right fun hle => and_congr_right fun _ => ?_
    simp only [segmentCovers_iff, name?_eq_some_iff]
    constructor
    · intro h i name hi
      have hlt : i < k.segments.length := Nat.lt_of_lt_of_le (List.getElem?_eq_some_iff.1 hi).1 hle
      have hk := List.getElem?_eq_getElem hlt
      rw [hk, h i _ _ hi hk name rfl]
    · rintro h i _ y hx hy name rfl
      exact Option.some.inj (hy.symm.trans (h i name hx))

theorem overlaps_iff {a b : Key} : a.overlaps b = true ↔
    (a.isOpenEnded = false → b.depth ≤ a.depth) ∧ (b.isOpenEnded = false → a.depth ≤ b.depth) ∧
    ∀ i name name', a.name? i = some name → b.name? i = some name' → name = name' := by
  cases ha : a.isAny with
  | true =>
    obtain rfl := eq_any_of_isAny ha
    simp [overlaps, any, isAny, depth, isOpenEnded, name?]
  | false =>
    cases hb : b.isAny with
    | true =>
      obtain rfl := eq_any_of_isAny hb
      simp [overlaps, any, isAny, depth, isOpenEnded, name?]
    | false =>
      have hnames : ((a.segments.zip b.segments).all fun s => segmentsOverlap s.1 s.2) = true ↔
          ∀ i name name', a.name? i = some name → b.name? i = some name' → name = name' := by
        simp only [all_zip_iff, segmentsOverlap_iff, name?_eq_some_iff]
        constructor
        · exact fun h i name name' hx hy => h i _ _ hx hy name name' rfl rfl
        · rintro h i _ _ hx hy name name' rfl rfl
          exact h i name name' hx hy
      rw [overlaps, ha, hb, Bool.false_or, Bool.false_or, Bool.and_eq_true, hnames, ← and_assoc]
      refine and_congr_left fun _ => ?_
      rcases Nat.lt_trichotomy a.depth b.depth with hlt | heq | hgt
      · rw [Nat.compare_eq_lt.2 hlt]
        cases a.isOpenEnded <;> simp <;> omega
      · rw [Nat.compare_eq_eq.2 heq]
        simp [heq]
      · rw [Nat.compare_eq_gt.2 hgt]
        cases b.isOpenEnded <;> simp <;> omega

variable {a b p q k : Key} {filler name : String} {i : Nat}

theorem covers_trans (h : p.covers q = true) (h' : q.covers k = true) : p.covers k = true := by
  rw [covers_iff] at h h' ⊢
  obtain ⟨hle, hclosed, hnames⟩ := h
  obtain ⟨hle', hclosed', hnames'⟩ := h'
  refine ⟨Nat.le_trans hle hle', fun hp => ?_, fun i name hi => hnames' i name (hnames i name hi)⟩
  -- The last segment of `p` is a name. It is the last one of `q` as well, so `q` is closed too.
  have hdepth := hclosed hp
  rw [isOpenEnded_eq, Option.isNone_eq_false_iff, Option.isSome_iff_exists] at hp
  obtain ⟨name, hname⟩ := hp
  have hq : q.isOpenEnded = false := by
    rw [isOpenEnded_eq, hdepth, hnames _ _ hname]
    rfl
  rw [hclosed' hq, hdepth]

theorem overlaps_of_covers (ha : a.covers k = true) (hb : b.covers k = true) :
    a.overlaps b = true := by
  rw [covers_iff] at ha hb
  obtain ⟨hale, haclosed, hanames⟩ := ha
  obtain ⟨hble, hbclosed, hbnames⟩ := hb
  refine overlaps_iff.2 ⟨fun h => ?_, fun h => ?_, fun i name name' hi hi' => ?_⟩
  · exact haclosed h ▸ hble
  · exact hbclosed h ▸ hale
  · exact Option.some.inj ((hanames i name hi).symm.trans (hbnames i name' hi'))

theorem overlaps_self (k : Key) : k.overlaps k = true :=
  overlaps_iff.2 ⟨fun _ => Nat.le_refl _, fun _ => Nat.le_refl _,
    fun _ _ _ h h' => Option.some.inj (h.symm.trans h')⟩

/-! ## A key under two keys -/

/-- The names of `a`, those of `b` where `a` has none, and `filler` where neither has one. -/
def meet (filler : String) (a b : Key) : Key :=
  ⟨(List.range (max 1 (max a.depth b.depth))).map fun i =>
    some (((a.name? i).or (b.name? i)).getD filler)⟩

@[simp] theorem depth_meet : (meet filler a b).depth = max 1 (max a.depth b.depth) := by
  simp [meet, depth]

theorem name?_meet (h : i < max 1 (max a.depth b.depth)) :
    (meet filler a b).name? i = some (((a.name? i).or (b.name? i)).getD filler) := by
  rw [name?, meet, List.getElem?_map, List.getElem?_range h]
  rfl

theorem isConcrete_meet : (meet filler a b).isConcrete = true := by
  refine (isConcrete_iff _).2 ⟨?_, fun i hi => ⟨_, name?_meet ?_⟩⟩
  · rw [depth_meet]
    omega
  · rwa [depth_meet] at hi

theorem depth_pos_of_closed (h : k.isOpenEnded = false) : 0 < k.depth := by
  rw [isOpenEnded_eq, Option.isNone_eq_false_iff, Option.isSome_iff_exists] at h
  obtain ⟨name, hname⟩ := h
  exact Nat.lt_of_le_of_lt (Nat.zero_le _) (lt_depth_of_name? hname)

theorem covers_meet (h : a.overlaps b = true) :
    a.covers (meet filler a b) = true ∧ b.covers (meet filler a b) = true := by
  obtain ⟨ha, hb, hnames⟩ := overlaps_iff.1 h
  refine ⟨covers_iff.2 ⟨?_, fun hclosed => ?_, fun i name hi => ?_⟩,
    covers_iff.2 ⟨?_, fun hclosed => ?_, fun i name hi => ?_⟩⟩
  · rw [depth_meet]
    omega
  · have hle := ha hclosed
    have hpos := depth_pos_of_closed hclosed
    rw [depth_meet]
    omega
  · have hlt := lt_depth_of_name? hi
    rw [name?_meet (by omega), hi]
    rfl
  · rw [depth_meet]
    omega
  · have hle := hb hclosed
    have hpos := depth_pos_of_closed hclosed
    rw [depth_meet]
    omega
  · have hlt := lt_depth_of_name? hi
    rw [name?_meet (by omega), hi]
    cases ha' : a.name? i with
    | none => rfl
    | some name' => exact congrArg some (hnames i name' name ha' hi)

/-- Whether a key covers another shows on two fillings of the other, as long as it has a segment. -/
theorem covers_of_covers_meet {x y : String} (hne : x ≠ y) (hb : 0 < b.depth)
    (hx : a.covers (meet x b b) = true) (hy : a.covers (meet y b b) = true) :
    a.covers b = true := by
  have hdepth : max 1 (max b.depth b.depth) = b.depth := by omega
  obtain ⟨hle, hclosed, hxnames⟩ := covers_iff.1 hx
  obtain ⟨-, -, hynames⟩ := covers_iff.1 hy
  rw [depth_meet, hdepth] at hle hclosed
  refine covers_iff.2 ⟨hle, hclosed, fun i name hi => ?_⟩
  have hlt : i < max 1 (max b.depth b.depth) := by
    rw [hdepth]
    exact Nat.lt_of_lt_of_le (lt_depth_of_name? hi) hle
  have hxi := (name?_meet hlt).symm.trans (hxnames i name hi)
  have hyi := (name?_meet hlt).symm.trans (hynames i name hi)
  cases hname : b.name? i with
  | none =>
    -- A wildcard of `b` would be filled with `x` and with `y`, and `a` has one name there.
    rw [hname] at hxi hyi
    exact absurd (Option.some.inj (hxi.trans hyi.symm)) hne
  | some name' =>
    rw [hname] at hxi
    exact hxi

/-! ## Keys that can be built -/

/-- A key that was read, or made of segments. -/
inductive Built : Key → Prop
  | parsed {text : String} {k : Key} (h : parse text = .ok k) : Built k
  | made {segments : List (Option String)} {k : Key} (h : ofSegments segments = .ok k) : Built k

theorem mem_segments_iff {k : Key} {name : String} :
    some name ∈ k.segments ↔ ∃ i, k.name? i = some name := by
  simp only [List.mem_iff_getElem?, name?_eq_some_iff]

theorem built_iff : k.Built ↔ k.depth ≤ maxDepth ∧
    ∀ i name, k.name? i = some name → isSegment name = true := by
  have hnamed : (∀ name, some name ∈ k.segments → isSegment name = true) ↔
      ∀ i name, k.name? i = some name → isSegment name = true := by
    simp only [mem_segments_iff, forall_exists_index]
    exact forall_comm
  have hmade {segments : List (Option String)} (h : ofSegments segments = .ok k) :
      k.depth ≤ maxDepth ∧ ∀ i name, k.name? i = some name → isSegment name = true := by
    obtain ⟨rfl, hle, hnames⟩ := ofSegments_eq_ok.1 h
    exact ⟨hle, hnamed.1 hnames⟩
  constructor
  · intro h
    cases h with
    | parsed h => exact hmade (parse_eq_ok h).2
    | made h => exact hmade h
  · rintro ⟨hle, hnames⟩
    exact .made (ofSegments_eq_ok.2 ⟨rfl, hle, hnamed.2 hnames⟩)

theorem Built.meet (ha : a.Built) (hb : b.Built) (hfiller : isSegment filler = true) :
    (meet filler a b).Built := by
  obtain ⟨hale, hanames⟩ := built_iff.1 ha
  obtain ⟨hble, hbnames⟩ := built_iff.1 hb
  refine built_iff.2 ⟨?_, fun i name hi => ?_⟩
  · rw [depth_meet, maxDepth] at *
    omega
  · have hlt := lt_depth_of_name? hi
    rw [depth_meet] at hlt
    rw [name?_meet hlt, Option.some.injEq] at hi
    subst hi
    cases hia : a.name? i with
    | some name => exact hanames i name hia
    | none =>
      cases hib : b.name? i with
      | some name => exact hbnames i name hib
      | none => exact hfiller

end Key

end Blackboard
