import Mathlib.Algebra.Ring.Nat
import Blackboard.Kernel.Clock

/-!
# Time as seconds and as microseconds

A timestamp is a number of seconds with microseconds beyond them, a clock one number of microseconds.
`Timestamp.micros` takes the first to the second. On timestamps whose microseconds stay below a second
it is one to one and keeps the order, and shifting a timestamp adds the whole microseconds of the
duration. So whatever is said of clocks and leases can be said of sums of microseconds.
-/

namespace Blackboard

theorem Duration.micros_eq (d : Duration) :
    d.seconds * microsPerSecond + d.subsecMicros = d.micros := by
  simp only [seconds, subsecMicros, micros, microsPerSecond]
  omega

namespace Timestamp

/-- The microseconds stay below a second. -/
def IsNormal (t : Timestamp) : Prop := t.usecs < microsPerSecond

variable {a b : Timestamp}

theorem isNormal_of (secs : Int) (usecs : Nat) : (of secs usecs).IsNormal := usecs_of_lt secs usecs

theorem isNormal_ofMicros (m : Int) : (ofMicros m).IsNormal := isNormal_of ..

theorem isNormal_after (t : Timestamp) (d : Duration) : (t.after d).IsNormal := isNormal_of ..

/-- Carrying into the seconds does not move the point in time. -/
theorem micros_of (secs : Int) (usecs : Nat) :
    (of secs usecs).micros = secs * microsPerSecond + usecs := by
  simp only [of, micros, microsPerSecond]
  omega

/-- The remainder is counted from the second before, also before the epoch. -/
theorem micros_ofMicros (m : Int) : (ofMicros m).micros = m := by
  rw [ofMicros, micros_of]
  simp only [microsPerSecond]
  omega

theorem micros_after (t : Timestamp) (d : Duration) : (t.after d).micros = t.micros + d.micros := by
  rw [after, micros_of, ← d.micros_eq, micros]
  simp only [microsPerSecond]
  omega

theorem eq_of_micros_eq (ha : a.IsNormal) (hb : b.IsNormal) (h : a.micros = b.micros) : a = b := by
  obtain ⟨s, u⟩ := a
  obtain ⟨s', u'⟩ := b
  simp only [IsNormal, micros, microsPerSecond] at ha hb h
  rw [mk.injEq]
  omega

/-- Seconds decide, and microseconds between equal seconds. -/
theorem le_iff : a.le b = true ↔ a.secs < b.secs ∨ a.secs = b.secs ∧ a.usecs ≤ b.usecs := by
  rw [le, compare_eq]
  rcases Int.lt_trichotomy a.secs b.secs with hlt | heq | hgt
  · rw [Int.compare_eq_lt.2 hlt]
    simp [Ordering.then, hlt]
  · rw [Int.compare_eq_eq.2 heq, Ordering.eq_then, Nat.isLE_compare]
    omega
  · rw [Int.compare_eq_gt.2 hgt]
    simp [Ordering.then, Int.lt_asymm hgt, Int.ne_of_gt hgt]

theorem le_iff_micros_le (ha : a.IsNormal) (hb : b.IsNormal) :
    a.le b = true ↔ a.micros ≤ b.micros := by
  rw [le_iff]
  simp only [IsNormal, micros, microsPerSecond] at ha hb ⊢
  omega

end Timestamp

namespace Clock

theorem isNormal_now (c : Clock) : c.now.IsNormal := Timestamp.isNormal_ofMicros c.micros

theorem micros_now (c : Clock) : c.now.micros = c.micros := Timestamp.micros_ofMicros c.micros

theorem now_advance (c : Clock) (d : Duration) : (c.advance d).now = c.now.after d := by
  refine Timestamp.eq_of_micros_eq (isNormal_now _) (Timestamp.isNormal_after ..) ?_
  rw [micros_now, Timestamp.micros_after, micros_now, advance]

def advanceAll (c : Clock) (ds : List Duration) : Clock := ds.foldl advance c

theorem now_advanceAll (c : Clock) (ds : List Duration) :
    (c.advanceAll ds).now = ds.foldl Timestamp.after c.now := by
  induction ds generalizing c with
  | nil => rfl
  | cons d rest ih =>
    rw [List.foldl_cons, ← c.now_advance d]
    exact ih (c.advance d)

theorem micros_advanceAll (c : Clock) (ds : List Duration) :
    (c.advanceAll ds).micros = c.micros + (ds.map Duration.micros).sum := by
  induction ds generalizing c with
  | nil => exact (Int.add_zero _).symm
  | cons d rest ih =>
    have hfirst : (c.advance d).micros = c.micros + d.micros := rfl
    have hrest := ih (c.advance d)
    rw [advanceAll, List.foldl_cons, List.map_cons, List.sum_cons]
    rw [advanceAll] at hrest
    omega

theorem now_le_advanceAll (c : Clock) (ds : List Duration) :
    c.now.le (c.advanceAll ds).now = true := by
  rw [Timestamp.le_iff_micros_le c.isNormal_now (isNormal_now _), micros_now, micros_now,
    micros_advanceAll]
  omega

/-- A clock that is set shows the same point in time with less than a second of microseconds. As it
moves forward it shows what shifting that timestamp gives, and never less than before. A lease from
then on has ended exactly when the clock has moved by its whole microseconds. -/
theorem leases_end_on_time (t : Timestamp) (lease : Duration) (ds : List Duration) :
    let c := Clock.of t
    let start := c.now
    (start.micros = t.micros ∧ start.usecs < microsPerSecond) ∧
      (c.advanceAll ds).now = ds.foldl Timestamp.after start ∧
      (∀ n, (c.advanceAll (ds.take n)).now.le (c.advanceAll ds).now = true) ∧
      ((Expiry.dueAt (start.after lease)).isDue (c.advanceAll ds).now = true ↔
        lease.micros ≤ (ds.map Duration.micros).sum) := by
  intro c start
  refine ⟨⟨c.micros_now, c.isNormal_now⟩, c.now_advanceAll ds, ?_, ?_⟩
  · intro n
    have hsplit : c.advanceAll ds = (c.advanceAll (ds.take n)).advanceAll (ds.drop n) := by
      rw [advanceAll, advanceAll, advanceAll, ← List.foldl_append, List.take_append_drop]
    rw [hsplit]
    exact now_le_advanceAll ..
  · have hlease : (start.after lease).IsNormal := Timestamp.isNormal_after ..
    rw [Expiry.isDue, Timestamp.le_iff_micros_le hlease (isNormal_now _), micros_now,
      micros_advanceAll, Timestamp.micros_after, c.micros_now]
    omega

/-- Before the epoch, with fractions of a microsecond that do not add up. -/
example :
    let c := Clock.of ⟨-2, 1500000⟩
    c.now = ⟨-1, 500000⟩ ∧ (c.advanceAll [⟨1999⟩, ⟨1999⟩]).now = ⟨-1, 500002⟩ ∧
      (Expiry.dueAt (c.now.after ⟨3998⟩)).isDue (c.advanceAll [⟨1999⟩, ⟨1999⟩]).now = false := by
  decide

end Clock

end Blackboard
