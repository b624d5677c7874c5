import Blackboard.Host.Basic
import Mathlib.Algebra.Order.Floor.Div

/-!
# The course of a poll

A poll makes an attempt. The answer and the time since the beginning decide whether that was the last
one; if not, the poll sleeps for a tick period and makes another. `Course` is all that can come of this,
with any answers, and attempts and sleeps that take any time, but no sleep shorter than it should be.

One attempt comes at least a period after the one before, so the number of an attempt bounds the time
at which it is made from below. A poll with a time limit goes on only after attempts made before the
limit, and so their number is bounded.
-/

namespace Blackboard

variable {α : Type}

/-- The answer to an attempt, and the moment at which it came. -/
structure Attempt (r : Request) where
  moment : Nat
  answer : Except KernelError r.Answer

namespace Poll

variable (p : Poll α) (since : Nat) (period : Duration)

/-- What an attempt of a poll that began at a moment means. -/
def verdict (x : Attempt p.request) : Verdict α := p.judge ⟨x.moment - since⟩ x.answer

/-- Where a poll stands after an attempt. -/
def progressAfter (x : Attempt p.request) : Progress α :=
  match p.verdict since x with
  | .finished outcome => .finished outcome
  | .again => .resting p since (x.moment + period.nanos)

/-- One thing that becomes of a poll: an attempt is answered, or a sleep ends, or both at once. -/
inductive Moves (now : Nat) (given : Except KernelError p.request.Answer → Prop) :
    Progress α → List (Attempt p.request) → Progress α → Prop
  | stays (q : Progress α) : Moves now given q [] q
  | answered {answer : Except KernelError p.request.Answer} (hgiven : given answer) :
    Moves now given (.polling p since) [⟨now, answer⟩] (p.progressAfter since period ⟨now, answer⟩)
  | wakes {wake : Nat} (hwake : wake ≤ now) :
    Moves now given (.resting p since wake) [] (.polling p since)
  /-- The next attempt is refused. -/
  | refused {wake : Nat} {e : KernelError} (hwake : wake ≤ now) (hgiven : given (.error e)) :
    Moves now given (.resting p since wake) [⟨now, .error e⟩] (.finished (.error e))

/-- A poll that began at a moment has made attempts, the first one first, and now stands somewhere. -/
inductive Course : List (Attempt p.request) → Nat → Progress α → Prop
  | begins : Course [] since (.polling p since)
  | passes {made : List (Attempt p.request)} {now later : Nat} {q : Progress α}
    (h : Course made now q) (hlater : now ≤ later) : Course made later q
  | answered {made : List (Attempt p.request)} {now : Nat} (h : Course made now (.polling p since))
    (answer : Except KernelError p.request.Answer) :
    Course (made ++ [⟨now, answer⟩]) now (p.progressAfter since period ⟨now, answer⟩)
  | wakes {made : List (Attempt p.request)} {now wake : Nat}
    (h : Course made now (.resting p since wake)) (hwake : wake ≤ now) :
    Course made now (.polling p since)

variable {p since period} {made : List (Attempt p.request)} {now : Nat} {q q' : Progress α}
  {limit : Duration}

theorem Course.moves {given : Except KernelError p.request.Answer → Prop}
    {more : List (Attempt p.request)} (h : p.Course since period made now q)
    (hmoves : p.Moves since period now given q more q') :
    p.Course since period (made ++ more) now q' := by
  cases hmoves with
  | stays =>
    rw [List.append_nil]
    exact h
  | answered hgiven => exact h.answered _
  | wakes hwake =>
    rw [List.append_nil]
    exact h.wakes hwake
  | refused hwake hgiven => exact (h.wakes hwake).answered _

/-- The answer to an attempt was given when the attempt was made. -/
theorem Moves.given_of_mem {given : Except KernelError p.request.Answer → Prop}
    {more : List (Attempt p.request)} (hmoves : p.Moves since period now given q more q')
    {x : Attempt p.request} (hx : x ∈ more) : x.moment = now ∧ given x.answer := by
  cases hmoves with
  | stays | wakes => cases hx
  | answered hgiven | refused _ hgiven =>
    cases List.mem_singleton.1 hx
    exact ⟨rfl, hgiven⟩

/-- How far a poll has come: twice the attempts that were answered, and one for an attempt that is
being made. -/
def effort (made : List (Attempt p.request)) : Progress α → Nat
  | .polling _ _ => 2 * made.length + 1
  | _ => 2 * made.length

theorem effort_le_append (made more : List (Attempt p.request)) (q : Progress α) :
    effort made q ≤ effort (made ++ more) q := by
  cases q <;> simp only [effort, List.length_append] <;> omega

/-- Whatever becomes of a poll brings it further. -/
theorem Moves.effort_lt {given : Except KernelError p.request.Answer → Prop}
    {more : List (Attempt p.request)} (hmoves : p.Moves since period now given q more q')
    (hne : q ≠ q') (made : List (Attempt p.request)) : effort made q < effort (made ++ more) q' := by
  cases hmoves with
  | stays => exact absurd rfl hne
  | wakes => simp [effort]
  | refused _ _ => simp [effort]
  | answered _ =>
    rw [progressAfter]
    split <;> simp [effort] <;> omega

/-! ## Where a poll stands -/

variable (p since period) in
/-- Where a poll can stand: only its last attempt can have ended it. -/
inductive Stage : List (Attempt p.request) → Nat → Progress α → Prop
  | polling {made : List (Attempt p.request)} {now : Nat}
    (hopen : ∀ x ∈ made, p.verdict since x = .again)
    (htime : since + made.length * period.nanos ≤ now) : Stage made now (.polling p since)
  | resting {before : List (Attempt p.request)} {last : Attempt p.request} {now : Nat}
    (hopen : ∀ x ∈ before ++ [last], p.verdict since x = .again) :
    Stage (before ++ [last]) now (.resting p since (last.moment + period.nanos))
  | finished {before : List (Attempt p.request)} {last : Attempt p.request} {now : Nat}
    {outcome : Except KernelError α} (hopen : ∀ x ∈ before, p.verdict since x = .again)
    (hlast : p.verdict since last = .finished outcome) :
    Stage (before ++ [last]) now (.finished outcome)

variable (since period now) in
/-- Each attempt comes at least a period after the one before. -/
def Spaced (made : List (Attempt p.request)) : Prop :=
  ∀ (m : Nat) x, made[m]? = some x → since + m * period.nanos ≤ x.moment ∧ x.moment ≤ now

theorem Spaced.snoc (h : Spaced since period now made)
    (htime : since + made.length * period.nanos ≤ now)
    (answer : Except KernelError p.request.Answer) :
    Spaced since period now (made ++ [⟨now, answer⟩]) := by
  intro m x hx
  rw [List.getElem?_append] at hx
  split at hx
  next => exact h m x hx
  next hm =>
    obtain ⟨hzero, hlast⟩ := List.getElem?_eq_some_iff.1 hx
    obtain rfl : m = made.length := by simp at hzero; omega
    cases hlast
    simpa using htime

theorem stage_progressAfter (hopen : ∀ x ∈ made, p.verdict since x = .again)
    (x : Attempt p.request) : p.Stage since period (made ++ [x]) now
      (p.progressAfter since period x) := by
  rw [progressAfter]
  split
  next outcome hx => exact .finished hopen hx
  next hx =>
    refine .resting fun y hy => ?_
    rcases List.mem_append.1 hy with hold | hnew
    · exact hopen y hold
    · rw [List.mem_singleton.1 hnew]
      exact hx

/-- Along every course the attempts keep their distance, and all but the last left it open. -/
theorem Course.spaced_and_stage (h : p.Course since period made now q) :
    Spaced since period now made ∧ p.Stage since period made now q := by
  induction h with
  | begins => exact ⟨fun _ _ hx => (nomatch hx), .polling (fun _ hx => (nomatch hx)) (by simp)⟩
  | passes h hlater ih =>
    obtain ⟨hspaced, hstage⟩ := ih
    refine ⟨fun m x hx => ⟨(hspaced m x hx).1, (hspaced m x hx).2.trans hlater⟩, ?_⟩
    cases hstage with
    | polling hopen htime => exact .polling hopen (htime.trans hlater)
    | resting hopen => exact .resting hopen
    | finished hopen hlast => exact .finished hopen hlast
  | answered h answer ih =>
    obtain ⟨hspaced, hstage⟩ := ih
    cases hstage with
    | polling hopen htime => exact ⟨hspaced.snoc htime answer, stage_progressAfter hopen _⟩
  | wakes h hwake ih =>
    obtain ⟨hspaced, hstage⟩ := ih
    refine ⟨hspaced, ?_⟩
    cases hstage with
    | @resting before last _ hopen =>
      -- The last attempt came a period for each one before it after the beginning, and a sleep
      -- of one more period is over.
      refine .polling hopen ?_
      have hlast := (hspaced before.length last List.getElem?_concat_length).1
      rw [List.length_append, List.length_singleton, Nat.succ_mul]
      omega

/-! ## Time limits -/

/-- An attempt that finds nothing. It does not fail either. -/
def Misses (p : Poll α) (x : Attempt p.request) : Prop :=
  ∃ a, x.answer = .ok a ∧ p.found a = none

theorem verdict_eq_again_iff (hlimit : p.timeout = some limit) {x : Attempt p.request} :
    p.verdict since x = .again ↔ p.Misses x ∧ x.moment - since < limit.nanos := by
  rw [verdict, judge.eq_def, Misses]
  cases x.answer with
  | error e => simp
  | ok a =>
    cases hfound : p.found a with
    | some v => simp [hfound]
    | none => simp [hfound, hlimit]

variable (p since) in
/-- What becomes of a poll with a time limit. The first attempt that does not come back empty decides,
by what it finds or by how it fails. There is a timeout if none did and the last one was not over
before the end. -/
inductive Fate (limit : Duration) : List (Attempt p.request) → Progress α → Prop
  | waits {made : List (Attempt p.request)} {q : Progress α} (hmissed : ∀ x ∈ made, p.Misses x)
    (hq : q.outcome? = none) : Fate limit made q
  | finds {before : List (Attempt p.request)} {moment : Nat} {a : p.request.Answer} {v : α}
    (hmissed : ∀ x ∈ before, p.Misses x) (hfound : p.found a = some v) :
    Fate limit (before ++ [⟨moment, .ok a⟩]) (.finished (.ok v))
  | fails {before : List (Attempt p.request)} {moment : Nat} {e : KernelError}
    (hmissed : ∀ x ∈ before, p.Misses x) (he : ∀ d, e ≠ .timeout d) :
    Fate limit (before ++ [⟨moment, .error e⟩]) (.finished (.error e))
  | timesOut {before : List (Attempt p.request)} {last : Attempt p.request}
    (hmissed : ∀ x ∈ before, p.Misses x) (hlast : p.Misses last)
    (hover : since + limit.nanos ≤ last.moment) :
    Fate limit (before ++ [last]) (.finished (.error (.timeout limit)))

/-- A poll comes to its fate if none of its attempts fails with a timeout of its own. -/
theorem Course.fate (h : p.Course since period made now q) (hlimit : p.timeout = some limit)
    (hplain : ∀ x ∈ made, ∀ d, x.answer ≠ .error (.timeout d)) : p.Fate since limit made q := by
  obtain ⟨hspaced, hstage⟩ := h.spaced_and_stage
  have hmisses {x} (hx : p.verdict since x = .again) : p.Misses x :=
    ((verdict_eq_again_iff hlimit).1 hx).1
  cases hstage with
  | polling hopen htime => exact .waits (fun x hx => hmisses (hopen x hx)) rfl
  | resting hopen => exact .waits (fun x hx => hmisses (hopen x hx)) rfl
  | @finished before last _ outcome hopen hlast =>
    have hmissed (x) (hx : x ∈ before) : p.Misses x := hmisses (hopen x hx)
    have hbegan := (hspaced before.length last List.getElem?_concat_length).1
    replace hplain := hplain last (List.mem_append_right _ List.mem_cons_self)
    obtain ⟨moment, answer⟩ := last
    rw [verdict, judge.eq_def] at hlast
    cases answer with
    | error e =>
      cases hlast
      exact .fails hmissed fun d hd => hplain d (congrArg Except.error hd)
    | ok a =>
      dsimp only at hlast
      cases hfound : p.found a with
      | some v =>
        simp only [hfound, Verdict.finished.injEq] at hlast
        subst hlast
        exact .finds hmissed hfound
      | none =>
        simp only [hfound, hlimit] at hlast
        split at hlast
        next hover =>
          cases hlast
          exact .timesOut hmissed ⟨a, rfl, hfound⟩ (by dsimp only at hover hbegan ⊢; omega)
        next => cases hlast

/-- Attempts that leave a poll open are made before its end, at a distance of a period each. -/
theorem length_le_of_again (hlimit : p.timeout = some limit) (hperiod : 0 < period.nanos)
    (hspaced : Spaced since period now made) (hopen : ∀ x ∈ made, p.verdict since x = .again) :
    made.length ≤ limit.nanos ⌈/⌉ period.nanos := by
  cases hlast : made.getLast? with
  | none => simp [List.getLast?_eq_none_iff.1 hlast]
  | some x =>
    -- The last attempt alone decides: it left the poll open, so it was made before the limit.
    obtain ⟨-, hbeforeEnd⟩ := (verdict_eq_again_iff hlimit).1 (hopen x (List.mem_of_getLast? hlast))
    rw [List.getLast?_eq_getElem?] at hlast
    have hbegan := (hspaced _ x hlast).1
    have hlt : ¬ limit.nanos ⌈/⌉ period.nanos ≤ made.length - 1 := by
      rw [ceilDiv_le_iff_le_mul hperiod, Nat.mul_comm]
      omega
    omega

variable (h : p.Course since period made now q) (hlimit : p.timeout = some limit)
  (hperiod : 0 < period.nanos)

include h hlimit hperiod

theorem Course.length_le : made.length ≤ limit.nanos ⌈/⌉ period.nanos + 1 := by
  obtain ⟨hspaced, hstage⟩ := h.spaced_and_stage
  cases hstage with
  | polling hopen htime => exact (length_le_of_again hlimit hperiod hspaced hopen).trans (Nat.le_succ _)
  | resting hopen => exact (length_le_of_again hlimit hperiod hspaced hopen).trans (Nat.le_succ _)
  | @finished before last _ outcome hopen hlast =>
    have hbefore : Spaced since period now before := fun m x hx =>
      hspaced m x (List.getElem?_append_left (List.getElem?_eq_some_iff.1 hx).1 ▸ hx)
    rw [List.length_append, List.length_singleton]
    exact Nat.succ_le_succ (length_le_of_again hlimit hperiod hbefore hopen)

theorem Course.effort_le : effort made q ≤ 2 * (limit.nanos ⌈/⌉ period.nanos + 1) + 1 := by
  have hlength := h.length_le hlimit hperiod
  have heffort : effort made q ≤ 2 * made.length + 1 := by cases q <;> simp [effort]
  omega

/-- While a poll goes on there is room for another attempt. -/
theorem Course.length_le_of_open (hq : q.outcome? = none) :
    made.length ≤ limit.nanos ⌈/⌉ period.nanos := by
  obtain ⟨hspaced, hstage⟩ := h.spaced_and_stage
  cases hstage with
  | polling hopen htime => exact length_le_of_again hlimit hperiod hspaced hopen
  | resting hopen => exact length_le_of_again hlimit hperiod hspaced hopen
  | finished => cases hq

end Poll

end Blackboard
