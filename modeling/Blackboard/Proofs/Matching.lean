import Blackboard.Reference

/-!
# Patterns for one location

A key without wildcards covers itself only, so the pattern for a location covers what lies there and
nothing else.
-/

namespace Blackboard

namespace Key

theorem segmentsCover_iff {ps ks : List (Option String)} (hp : ps.all (·.isSome) = true) :
    ks.length = ps.length ∧ ((ps.zip ks).all fun s => segmentCovers s.1 s.2) = true ↔ ks = ps := by
  induction ps generalizing ks with
  | nil => simp [List.length_eq_zero_iff]
  | cons p rest ih =>
    cases ks with
    | nil => simp
    | cons k ks =>
      rw [List.all_cons, Bool.and_eq_true] at hp
      obtain ⟨name, rfl⟩ := Option.isSome_iff_exists.1 hp.1
      have ih := @ih ks hp.2
      have hhead : segmentCovers (some name) k = true ↔ k = some name := by
        rw [segmentCovers, Option.isNone_some, Bool.false_or, beq_iff_eq]
        exact eq_comm
      simp only [List.length_cons, Nat.add_right_cancel_iff, List.zip_cons_cons, List.all_cons,
        Bool.and_eq_true, List.cons.injEq, ← ih, hhead]
      exact and_left_comm

theorem covers_iff_of_isConcrete {p k : Key} (hp : p.isConcrete = true) :
    p.covers k = true ↔ k = p := by
  obtain ⟨segments⟩ := p
  simp only [isConcrete, Bool.and_eq_true, Bool.not_eq_true', List.isEmpty_eq_false_iff] at hp
  obtain ⟨hne, hall⟩ := hp
  have hany : isAny ⟨segments⟩ = false := List.isEmpty_eq_false_iff.2 hne
  have hclosed : isOpenEnded ⟨segments⟩ = false := by
    rw [isOpenEnded, List.getLast?_eq_some_getLast hne]
    have hlast := List.all_eq_true.1 hall _ (List.getLast_mem hne)
    simpa using hlast
  obtain ⟨ks⟩ := k
  rw [covers, hany, hclosed]
  simp only [Bool.false_or, Bool.false_eq_true, if_false, Bool.and_eq_true, beq_iff_eq, depth,
    mk.injEq]
  exact segmentsCover_iff hall

end Key

namespace Location

variable {policy : PayloadCase} {l : Location} {t : Tuple}

theorem covers_pattern_iff (hl : l.key.isConcrete = true) :
    l.pattern.covers policy t = true ↔ t.owner = some l.owner ∧ t.key = l.key := by
  simp [pattern, Tuple.locator, Tuple.pattern, Tuple.covers, Tuple.fieldCovers,
    Tuple.foldedMimetype, Tuple.foldedPayload, Key.covers_iff_of_isConcrete hl]
  exact fun _ => decide_eq_true_iff

/-- The pattern for a location covers the tuples that lie there. -/
theorem covers_pattern_iff_eq (hl : l.key.isConcrete = true) {place : Location}
    (ht : t.location = .ok place) : l.pattern.covers policy t = true ↔ place = l := by
  obtain ⟨-, howner, hkey⟩ := Tuple.location_eq_ok_iff.1 ht
  obtain ⟨owner, key⟩ := l
  obtain ⟨owner', key'⟩ := place
  rw [covers_pattern_iff hl, howner, hkey, Option.some.injEq, mk.injEq]

end Location

end Blackboard
