import Mathlib.Data.List.Induction
import Blackboard.Results

/-!
# What a reader gets of results that still come in

A reader advances the cursor while other searches append. What is still ahead of the cursor is
accounted for exactly: an advance gives the first tuple of it, an append adds to its end. One place
breaks the account. A cursor that has moved past the last result stands where the next one will lie,
so the first tuple that is appended there is behind the cursor and is never given.
-/

namespace Blackboard

namespace Results

inductive Use where
  | append (tuples : List Tuple)
  | advance
  deriving DecidableEq

def Use.tuples : Use → List Tuple
  | .append tuples => tuples
  | .advance => []

def use (r : Results) : Use → Results × Option Tuple
  | .append tuples => (r.append tuples, none)
  | .advance => r.advance

def run (r : Results) (uses : List Use) : Results := uses.foldl (fun r u => (r.use u).1) r

def given (r : Results) : List Use → List Tuple
  | [] => []
  | u :: rest => (r.use u).2.toList ++ (r.use u).1.given rest

/-- What is ahead of the cursor. -/
def ahead (r : Results) : List Tuple := r.tuples.drop r.nextPlace

def isPastEnd (r : Results) : Bool := r.cursor = some r.tuples.length

/-! ## Moves of the cursor -/

theorem nextPlace_advance (r : Results) :
    r.advance.1.nextPlace = min r.nextPlace r.tuples.length + 1 := rfl

theorem advance_snd (r : Results) : r.advance.2 = r.ahead.head? := by
  rw [ahead, List.head?_drop]
  by_cases h : r.nextPlace ≤ r.tuples.length
  · rw [advance, Nat.min_eq_left h]
  · have hout : r.tuples.length ≤ r.nextPlace := by omega
    rw [advance, Nat.min_eq_right hout, List.getElem?_eq_none hout]
    exact List.getElem?_eq_none (Nat.le_refl _)

theorem ahead_advance (r : Results) : r.advance.1.ahead = r.ahead.tail := by
  rw [ahead, nextPlace_advance, ahead, List.tail_drop]
  show r.tuples.drop _ = _
  by_cases h : r.nextPlace ≤ r.tuples.length
  · rw [Nat.min_eq_left h]
  · rw [List.drop_eq_nil_of_le (by omega), List.drop_eq_nil_of_le (by omega)]

theorem nextPlace_lt_of_advance {r : Results} {t : Tuple} (h : r.advance.2 = some t) :
    r.nextPlace < r.tuples.length := by
  rw [advance_snd, ahead, List.head?_drop] at h
  exact (List.getElem?_eq_some_iff.1 h).1

/-- Everything that advancing gives until it gives nothing. -/
def drain (r : Results) : List Tuple :=
  match h : r.advance.2 with
  | none => []
  | some t =>
    have := nextPlace_lt_of_advance h
    t :: r.advance.1.drain
termination_by r.tuples.length - r.nextPlace
decreasing_by
  rw [nextPlace_advance]
  show r.tuples.length - _ < _
  omega

theorem drain_eq_ahead (r : Results) : r.drain = r.ahead := by
  fun_induction drain r with
  | case1 r h =>
    rw [advance_snd, List.head?_eq_none_iff] at h
    exact h.symm
  | case2 r t h _ ih =>
    rw [advance_snd] at h
    obtain ⟨later, hahead⟩ := List.head?_eq_some_iff.1 h
    rw [ih, ahead_advance, hahead]
    rfl

/-! ## Appends -/

/-- The cursor is on a result or at most one place beyond the last. -/
def Placed (r : Results) : Prop := ∀ place ∈ r.cursor, place ≤ r.tuples.length

theorem placed_empty : empty.Placed := fun _ h => nomatch h

theorem Placed.use {r : Results} (h : r.Placed) (u : Use) : (r.use u).1.Placed := by
  cases u with
  | append tuples =>
    intro place hplace
    have hle := h place hplace
    show place ≤ (r.tuples ++ tuples).length
    rw [List.length_append]
    omega
  | advance =>
    intro place hplace
    obtain rfl := Option.some.inj hplace
    exact Nat.min_le_right ..

theorem Placed.run {r : Results} (h : r.Placed) (uses : List Use) : (r.run uses).Placed := by
  induction uses generalizing r with
  | nil => exact h
  | cons u rest ih => exact ih (h.use u)

/-- The tuples of an append that end up ahead of the cursor. -/
def reached (r : Results) (tuples : List Tuple) : List Tuple :=
  if r.isPastEnd then tuples.tail else tuples

theorem Placed.ahead_append {r : Results} (h : r.Placed) (tuples : List Tuple) :
    (r.append tuples).ahead = r.ahead ++ r.reached tuples := by
  have hnext : (r.append tuples).nextPlace = r.nextPlace := rfl
  rw [ahead, hnext, ahead, reached, isPastEnd]
  show (r.tuples ++ tuples).drop _ = _
  rw [List.drop_append]
  cases hc : r.cursor with
  | none => simp [nextPlace, hc]
  | some place =>
    have hle := h place hc
    have hplace : r.nextPlace = place + 1 := by rw [nextPlace, hc]
    rw [hplace]
    by_cases hend : place = r.tuples.length
    · simp [hend]
    · have hbefore : place + 1 - r.tuples.length = 0 := by omega
      simp [hend, hbefore]

/-! ## Whole uses -/

/-- The tuples that are appended and end up ahead of the cursor. -/
def kept (r : Results) : List Use → List Tuple
  | [] => []
  | u :: rest => r.reached u.tuples ++ (r.use u).1.kept rest

theorem given_append_ahead {r : Results} (h : r.Placed) (uses : List Use) :
    r.given uses ++ (r.run uses).ahead = r.ahead ++ r.kept uses := by
  induction uses generalizing r with
  | nil => simp [given, kept, run]
  | cons u rest ih =>
    have hrest : (r.run (u :: rest)) = (r.use u).1.run rest := rfl
    rw [given, hrest, List.append_assoc, ih (h.use u), kept]
    cases u with
    | append tuples =>
      show [] ++ ((r.append tuples).ahead ++ _) = _
      rw [h.ahead_append, List.nil_append, List.append_assoc]
      rfl
    | advance =>
      show r.advance.2.toList ++ (r.advance.1.ahead ++ r.advance.1.kept rest) = _
      have hnone : r.reached (Use.tuples .advance) = [] := by simp [reached, Use.tuples]
      rw [hnone, List.nil_append, advance_snd, ahead_advance, ← List.append_assoc]
      cases r.ahead <;> rfl

theorem reached_sublist (r : Results) (tuples : List Tuple) :
    (r.reached tuples).Sublist tuples := by
  rw [reached]
  split
  · exact List.tail_sublist tuples
  · exact .refl tuples

theorem kept_sublist (r : Results) (uses : List Use) :
    (r.kept uses).Sublist (uses.flatMap Use.tuples) := by
  induction uses generalizing r with
  | nil => exact .slnil
  | cons u rest ih => exact (r.reached_sublist u.tuples).append (ih _)

theorem reached_eq_iff (r : Results) (tuples : List Tuple) :
    r.reached tuples = tuples ↔ tuples = [] ∨ r.isPastEnd = false := by
  rw [reached]
  cases r.isPastEnd with
  | false => simp
  | true => cases tuples <;> simp

/-- Nothing is lost by several uses exactly if nothing is lost by any of them. -/
theorem kept_cons_eq_iff (r : Results) (u : Use) (rest : List Use) :
    r.kept (u :: rest) = (u :: rest).flatMap Use.tuples ↔
      r.reached u.tuples = u.tuples ∧ (r.use u).1.kept rest = rest.flatMap Use.tuples := by
  rw [kept, List.flatMap_cons]
  constructor
  · intro h
    have hfirst := (r.reached_sublist u.tuples).length_le
    have hrest := ((r.use u).1.kept_sublist rest).length_le
    have hlength := congrArg List.length h
    rw [List.length_append, List.length_append] at hlength
    exact List.append_inj h (by omega)
  · rintro ⟨hfirst, hrest⟩
    rw [hfirst, hrest]

/-- The first tuple of an append is not lost unless the cursor was past the last result then. -/
theorem kept_eq_iff (r : Results) (uses : List Use) :
    r.kept uses = uses.flatMap Use.tuples ↔ ∀ earlier t ts later,
      uses = earlier ++ .append (t :: ts) :: later → (r.run earlier).isPastEnd = false := by
  induction uses generalizing r with
  | nil => simp [kept]
  | cons u rest ih =>
    rw [kept_cons_eq_iff, ih, reached_eq_iff]
    constructor
    · rintro ⟨hfirst, hrest⟩ earlier t ts later heq
      cases earlier with
      | nil =>
        obtain ⟨rfl, -⟩ := List.cons.inj heq
        exact hfirst.resolve_left (List.cons_ne_nil t ts)
      | cons v earlier =>
        obtain ⟨rfl, hsplit⟩ := List.cons.inj heq
        exact hrest earlier t ts later hsplit
    · intro h
      constructor
      · cases u with
        | advance => exact .inl rfl
        | append tuples =>
          cases tuples with
          | nil => exact .inl rfl
          | cons t ts => exact .inr (h [] t ts rest rfl)
      · intro earlier t ts later heq
        exact h (u :: earlier) t ts later (congrArg (u :: ·) heq)

/-! ## Reading to the end -/

/-- After these uses of new results, the last advance gave nothing and nothing came in since. -/
inductive Exhausted : List Use → Prop
  | advance {uses} (h : (empty.run uses).advance.2 = none) : Exhausted (uses ++ [.advance])
  | idle {uses} (h : Exhausted uses) : Exhausted (uses ++ [.append []])

theorem exhausted_concat_iff (uses : List Use) (u : Use) : Exhausted (uses ++ [u]) ↔
    u = .advance ∧ (empty.run uses).advance.2 = none ∨ u = .append [] ∧ Exhausted uses := by
  constructor
  · intro h
    generalize hall : uses ++ [u] = all at h
    cases h with
    | advance h =>
      obtain ⟨rfl, hu⟩ := List.append_inj' hall rfl
      exact .inl ⟨List.singleton_inj.1 hu, h⟩
    | idle h =>
      obtain ⟨rfl, hu⟩ := List.append_inj' hall rfl
      exact .inr ⟨List.singleton_inj.1 hu, h⟩
  · rintro (⟨rfl, h⟩ | ⟨rfl, h⟩)
    · exact .advance h
    · exact .idle h

theorem isPastEnd_advance (r : Results) : r.advance.1.isPastEnd = true ↔ r.advance.2 = none := by
  have hcursor : r.advance.1.isPastEnd = true ↔
      min r.nextPlace r.tuples.length = r.tuples.length := by
    simp [isPastEnd, advance]
  rw [hcursor, advance_snd, ahead, List.head?_drop, List.getElem?_eq_none_iff]
  omega

theorem Placed.isPastEnd_append {r : Results} (h : r.Placed) (tuples : List Tuple) :
    (r.append tuples).isPastEnd = true ↔ tuples = [] ∧ r.isPastEnd = true := by
  simp only [isPastEnd, append, decide_eq_true_eq, List.length_append]
  rw [← List.length_eq_zero_iff]
  constructor
  · intro hc
    have hle := h _ hc
    have hnone : tuples.length = 0 := by omega
    rw [hnone, Nat.add_zero] at hc
    exact ⟨hnone, hc⟩
  · rintro ⟨hnone, hc⟩
    rw [hc, hnone, Nat.add_zero]

theorem isPastEnd_run_iff (uses : List Use) :
    (empty.run uses).isPastEnd = true ↔ Exhausted uses := by
  induction uses using List.reverseRecOn with
  | nil =>
    have hnot : ¬ Exhausted [] := by
      intro h
      generalize hall : ([] : List Use) = all at h
      cases h <;> simp at hall
    simp [hnot, run, empty, isPastEnd]
  | append_singleton uses u ih =>
    have hlast : empty.run (uses ++ [u]) = ((empty.run uses).use u).1 := List.foldl_append ..
    rw [hlast, exhausted_concat_iff, ← ih]
    cases u with
    | advance => simp [use, isPastEnd_advance]
    | append tuples => simp [use, (placed_empty.run uses).isPastEnd_append]

/-- A reader gets everything that comes in, each tuple once and in order, exactly if nothing comes in
after an advance that gave nothing. What comes in then loses its first tuple: the next advance gives
the second. -/
theorem given_drain_eq_iff (uses : List Use) :
    let read := empty.given uses ++ (empty.run uses).drain
    (read = uses.flatMap Use.tuples ↔
      ∀ earlier t ts later, uses = earlier ++ .append (t :: ts) :: later → ¬ Exhausted earlier) ∧
    read.Sublist (uses.flatMap Use.tuples) ∧
    ∀ t ts, Exhausted uses → ((empty.run uses).append (t :: ts)).advance.2 = ts.head? := by
  intro read
  have hread : read = empty.kept uses := by
    show empty.given uses ++ (empty.run uses).drain = _
    rw [drain_eq_ahead, given_append_ahead placed_empty]
    rfl
  refine ⟨?_, hread ▸ empty.kept_sublist uses, fun t ts hexhausted => ?_⟩
  · rw [hread, kept_eq_iff]
    simp only [← isPastEnd_run_iff, Bool.not_eq_true]
  · have hplaced := placed_empty.run uses
    have hend := (isPastEnd_run_iff uses).2 hexhausted
    have hnone : (empty.run uses).ahead = [] := by
      have hcursor : (empty.run uses).cursor = some (empty.run uses).tuples.length := by
        simpa [isPastEnd] using hend
      rw [ahead, nextPlace, hcursor]
      exact List.drop_eq_nil_of_le (Nat.le_succ _)
    rw [advance_snd, hplaced.ahead_append, hnone, reached, if_pos hend]
    rfl

/-- A result that a reader has read, and after which there was no other. -/
def readOut : List Use := [.append [.plainText 1 ⟨[some "a"]⟩ "v"], .advance, .advance]

theorem readOut_passes_over :
    let b := Tuple.plainText 1 ⟨[some "b"]⟩ "v"
    let c := Tuple.plainText 1 ⟨[some "c"]⟩ "v"
    Exhausted readOut ∧ (empty.given readOut).length = 1 ∧
      ((empty.run readOut).append [b, c]).advance.2 = some c := by
  intro b c
  have hexhausted : Exhausted (readOut.take 2 ++ [.advance]) := .advance (by decide +kernel)
  obtain ⟨-, -, hnext⟩ := given_drain_eq_iff readOut
  exact ⟨hexhausted, by decide +kernel, hnext b [c] hexhausted⟩

/-- A result that comes in after the last one was read and another advance was tried is not given. -/
theorem lost_after_end : ¬ ∀ uses : List Use,
    empty.given uses ++ (empty.run uses).drain = uses.flatMap Use.tuples := by
  intro hall
  have hlength := congrArg List.length
    (hall (readOut ++ [.append [.plainText 1 ⟨[some "b"]⟩ "v"], .advance]))
  rw [drain_eq_ahead] at hlength
  exact absurd hlength (by decide +kernel)

end Results

end Blackboard
