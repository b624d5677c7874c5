/-!
# Bounded decimal numerals

Reading a natural number that has to stay within a bound. A sign `+` may stand in front, and the
digits are read from the left, so of two faults the one further left is reported.

Main statement: `readNat_decimal`.
-/

namespace Blackboard.Text

inductive NumeralError where
  | empty
  /-- A character other than a decimal digit stands where a digit has to. -/
  | invalidDigit
  | tooLarge
  deriving DecidableEq, Repr

def NumeralError.message : NumeralError → String
  | .empty => "cannot parse integer from empty string"
  | .invalidDigit => "invalid digit found in string"
  | .tooLarge => "number too large to fit in target type"

/-- Reads digits to the end, continuing a number read so far. -/
def readDigits (bound : Nat) (sofar : Nat) : List Char → Except NumeralError Nat
  | [] => .ok sofar
  | c :: rest =>
    if c.isDigit then
      let next := 10 * sofar + (c.toNat - '0'.toNat)
      if next ≤ bound then readDigits bound next rest else .error .tooLarge
    else .error .invalidDigit

/-- Reads a numeral of at most `bound`. A sign with nothing after it is no numeral. -/
def readNat (bound : Nat) : List Char → Except NumeralError Nat
  | [] => .error .empty
  | ['+'] => .error .invalidDigit
  | '+' :: rest => readDigits bound 0 rest
  | cs => readDigits bound 0 cs

def decimal (n : Nat) : List Char := Nat.toDigits 10 n

theorem decimal_ne_nil {n : Nat} : decimal n ≠ [] := Nat.toDigits_ne_nil

theorem isDigit_of_mem_decimal {n : Nat} {c : Char} (hc : c ∈ decimal n) : c.isDigit = true :=
  Nat.isDigit_of_mem_toDigits (by decide) (by decide) hc

theorem ofDigitChars_decimal (n : Nat) : Nat.ofDigitChars 10 (decimal n) 0 = n :=
  Nat.ofDigitChars_ten_toDigits

theorem le_ofDigitChars (ds : List Char) (sofar : Nat) :
    sofar ≤ Nat.ofDigitChars 10 ds sofar := by
  induction ds generalizing sofar with
  | nil => simp [Nat.ofDigitChars]
  | cons d ds ih =>
    refine Nat.le_trans ?_ (ih (10 * sofar + (d.toNat - '0'.toNat)))
    omega

theorem readDigits_eq_ok {bound sofar : Nat} {ds : List Char} (hd : ∀ d ∈ ds, d.isDigit = true)
    (hb : Nat.ofDigitChars 10 ds sofar ≤ bound) :
    readDigits bound sofar ds = .ok (Nat.ofDigitChars 10 ds sofar) := by
  induction ds generalizing sofar with
  | nil => rfl
  | cons d ds ih =>
    have hnext : 10 * sofar + (d.toNat - '0'.toNat) ≤ bound :=
      Nat.le_trans (le_ofDigitChars ds _) hb
    rw [readDigits, if_pos (hd d List.mem_cons_self)]
    simp only [hnext, if_true]
    exact ih (fun e he => hd e (List.mem_cons_of_mem _ he)) hb

theorem readNat_decimal {bound n : Nat} (h : n ≤ bound) : readNat bound (decimal n) = .ok n := by
  have hdigits : ∀ d ∈ decimal n, d.isDigit = true := fun _ => isDigit_of_mem_decimal
  have hvalue := ofDigitChars_decimal n
  have hread : readDigits bound 0 (decimal n) = .ok n := by
    rw [readDigits_eq_ok hdigits (by rw [hvalue]; exact h), hvalue]
  rw [readNat.eq_def]
  split
  next hnil => exact absurd hnil decimal_ne_nil
  next hplus => exact absurd (hdigits '+' (by simp [hplus])) (by decide)
  next rest _ hplus => exact absurd (hdigits '+' (by simp [hplus])) (by decide)
  next => exact hread

end Blackboard.Text
