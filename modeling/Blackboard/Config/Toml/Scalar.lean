import Blackboard.Config.Document

/-!
# Strings, numbers and times of TOML
-/

namespace Blackboard.Toml

/-! ## Strings -/

/-- True for the characters that strings and comments hold as they are. -/
def isPlain (c : Char) : Bool := c = '\t' || (' ' ≤ c && c ≠ '\x7f')

def isBlank (c : Char) : Bool := c = ' ' || c = '\t'

def isSpace (c : Char) : Bool := isBlank c || c = '\n' || c = '\r'

def coded? (digits : List Char) : Option Char := do
  let n ← Document.digits? 16 digits
  if h : n.isValidChar then some (Char.ofNatAux n h) else none

def readEscape : List Char → Option (Char × List Char)
  | 'b' :: rest => some ('\x08', rest)
  | 't' :: rest => some ('\t', rest)
  | 'n' :: rest => some ('\n', rest)
  | 'f' :: rest => some ('\x0c', rest)
  | 'r' :: rest => some ('\r', rest)
  | '"' :: rest => some ('"', rest)
  | '\\' :: rest => some ('\\', rest)
  | 'u' :: rest => (coded? (rest.take 4)).map (·, rest.drop 4)
  | 'U' :: rest => (coded? (rest.take 8)).map (·, rest.drop 8)
  | _ => none

def dropBreak? : List Char → Option (List Char)
  | '\n' :: rest => some rest
  | '\r' :: '\n' :: rest => some rest
  | _ => none

def dropBreak (cs : List Char) : List Char := (dropBreak? cs).getD cs

/-- Reads a string on one line after its opening quote. Each character takes one step at most. -/
def readLine (quote : Char) (escapes : Bool) : Nat → List Char → Option (List Char × List Char)
  | 0, _ => none
  | _, [] => none
  | fuel + 1, c :: rest =>
    if c = quote then some ([], rest)
    else if c = '\\' && escapes then do
      let (c, rest) ← readEscape rest
      let (cs, rest) ← readLine quote escapes fuel rest
      return (c :: cs, rest)
    else if isPlain c then (readLine quote escapes fuel rest).map fun (cs, rest) => (c :: cs, rest)
    else none

/-- The rest after the three quotes that close a string of several lines, with the quotes just
before them that belong to the string. -/
def closing? (quote : Char) (cs : List Char) : Option (List Char × List Char) :=
  let count := (cs.takeWhile (· = quote)).length
  if count < 3 then none
  else
    let used := min count 5
    some (List.replicate (used - 3) quote, cs.drop used)

/-- Reads a string of several lines after its opening quotes. A backslash at the end of a line drops
the blanks that follow. Each character takes one step at most. -/
def readLines (quote : Char) (escapes : Bool) : Nat → List Char → Option (List Char × List Char)
  | 0, _ => none
  | _, [] => none
  | fuel + 1, c :: rest =>
    match closing? quote (c :: rest) with
    | some closed => some closed
    | none =>
      if c = '\\' && escapes then
        if (dropBreak? (rest.dropWhile isBlank)).isSome then
          readLines quote escapes fuel (rest.dropWhile isSpace)
        else do
          let (c, rest) ← readEscape rest
          let (cs, rest) ← readLines quote escapes fuel rest
          return (c :: cs, rest)
      else
        match dropBreak? (c :: rest) with
        | some rest => (readLines quote escapes fuel rest).map fun (cs, rest) => ('\n' :: cs, rest)
        | none =>
          if isPlain c then
            (readLines quote escapes fuel rest).map fun (cs, rest) => (c :: cs, rest)
          else none

def readString (quote : Char) (escapes : Bool) (cs : List Char) :
    Option (String × List Char) :=
  let read :=
    if (List.replicate 3 quote).isPrefixOf cs then
      readLines quote escapes cs.length (dropBreak (cs.drop 3))
    else readLine quote escapes cs.length (cs.drop 1)
  read.map fun (s, rest) => (String.ofList s, rest)

/-! ## Numbers and times -/

/-- Digits of a base with single underscores between them. -/
def spaced? (base : Nat) (cs : List Char) : Option Nat :=
  let groups := cs.splitOn '_'
  if groups.any List.isEmpty then none else Document.digits? base groups.flatten

def unsigned : List Char → List Char
  | '+' :: rest => rest
  | '-' :: rest => rest
  | cs => cs

def isTrimmed (cs : List Char) : Bool := cs.head? ≠ some '0' || cs.length = 1

def decimal? (cs : List Char) : Option Nat := if isTrimmed cs then spaced? 10 cs else none

def integer? (cs : List Char) : Option Int :=
  let value : Option Int :=
    match cs with
    | '0' :: 'x' :: rest => (spaced? 16 rest).map Int.ofNat
    | '0' :: 'o' :: rest => (spaced? 8 rest).map Int.ofNat
    | '0' :: 'b' :: rest => (spaced? 2 rest).map Int.ofNat
    | '-' :: rest => (decimal? rest).map fun n => -(n : Int)
    | cs => (decimal? (unsigned cs)).map Int.ofNat
  value.filter fun n => Int64.minValue.toInt ≤ n && n ≤ Int64.maxValue.toInt

/-- True for a number with a fraction or an exponent, and for the numbers that are none. -/
def isFloat (cs : List Char) : Bool :=
  let body := unsigned cs
  let isExponent (cs : List Char) : Bool := (spaced? 10 (unsigned cs)).isSome
  let whole := body.takeWhile fun c => c ≠ '.' && c ≠ 'e' && c ≠ 'E'
  body = "inf".toList || body = "nan".toList ||
    ((decimal? whole).isSome &&
      match body.drop whole.length with
      | '.' :: rest =>
        let fraction := rest.takeWhile fun c => c ≠ 'e' && c ≠ 'E'
        (spaced? 10 fraction).isSome &&
          match rest.drop fraction.length with
          | [] => true
          | _ :: exponent => isExponent exponent
      | _ :: exponent => isExponent exponent
      | [] => false)

def isPart (digits low high : Nat) (cs : List Char) : Bool :=
  cs.length = digits && (Document.digits? 10 cs).any fun n => low ≤ n && n ≤ high

def isDate (cs : List Char) : Bool :=
  match cs.splitOn '-' with
  | [year, month, day] => isPart 4 0 9999 year && isPart 2 1 12 month && isPart 2 1 31 day
  | _ => false

def isHours (cs : List Char) : Bool :=
  match cs.splitOn ':' with
  | [hours, minutes] => isPart 2 0 23 hours && isPart 2 0 59 minutes
  | _ => false

def isTime (cs : List Char) : Bool :=
  let (hours, rest) := cs.splitAt 5
  let fits :=
    match rest with
    | ':' :: seconds =>
      let fraction := seconds.drop 2
      isPart 2 0 60 (seconds.take 2) &&
        (fraction.isEmpty ||
          (fraction.head? = some '.' && 1 < fraction.length && (fraction.drop 1).all Char.isDigit))
    | _ => false
  isHours hours && fits

def isZonedTime (cs : List Char) : Bool :=
  let time := cs.takeWhile fun c => c.isDigit || c = ':' || c = '.'
  isTime time &&
    match cs.drop time.length with
    | [] => true
    | ['Z'] | ['z'] => true
    | c :: zone => (c = '+' || c = '-') && isHours zone

def isMoment (cs : List Char) : Bool :=
  isDate cs || isTime cs ||
    (isDate (cs.take 10) &&
      match cs.drop 10 with
      | c :: time => (c = 'T' || c = 't' || c = ' ') && isZonedTime time
      | [] => false)

def isWordChar (c : Char) : Bool :=
  c.isAlphanum || c = '_' || c = '-' || c = '+' || c = '.' || c = ':'

/-- Cuts off a word. A date may be followed by a time after one space. -/
def spanWord (cs : List Char) : List Char × List Char :=
  let word := cs.takeWhile isWordChar
  match cs.drop word.length with
  | ' ' :: rest =>
    let time := rest.takeWhile isWordChar
    if isDate word && isZonedTime time then (word ++ ' ' :: time, rest.drop time.length)
    else (word, ' ' :: rest)
  | rest => (word, rest)

def readWord (cs : List Char) : Option (Document × List Char) :=
  let (word, rest) := spanWord cs
  if word = "true".toList then some (.flag true, rest)
  else if word = "false".toList then some (.flag false, rest)
  else
    match integer? word with
    | some n => some (.integer n, rest)
    | none => if isFloat word || isMoment word then some (.other, rest) else none

end Blackboard.Toml
