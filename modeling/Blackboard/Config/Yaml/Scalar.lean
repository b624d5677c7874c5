import Blackboard.Config.Document

/-!
# Scalars of YAML

Words without quotes, quoted strings, and blocks of text, with the rules by which line breaks inside
them are folded. Every reader gives what is left after the scalar.
-/

namespace Blackboard.Yaml

def isBlank (c : Char) : Bool := c = ' ' || c = '\t'

def isBreak (c : Char) : Bool := c = '\n' || c = '\r'

def atBlank : List Char → Bool
  | [] => true
  | c :: _ => isBlank c || isBreak c

def isFlowMark (c : Char) : Bool := c = ',' || c = '[' || c = ']' || c = '\x7b' || c = '\x7d'

def dropBreak : List Char → List Char
  | '\r' :: '\n' :: rest => rest
  | c :: rest => if isBreak c then rest else c :: rest
  | [] => []

def trimEnd (cs : List Char) : List Char := Text.dropEndWhile isBlank cs

/-! ## Line breaks inside scalars -/

/-- Drops blanks and line breaks, and counts the line breaks and the blanks after the last. -/
def countBreaks (breaks column : Nat) : List Char → Nat × Nat × List Char
  | [] => (breaks, column, [])
  | '\r' :: '\n' :: rest => countBreaks (breaks + 1) 0 rest
  | c :: rest =>
    if isBreak c then countBreaks (breaks + 1) 0 rest
    else if isBlank c then countBreaks breaks (column + 1) rest
    else (breaks, column, c :: rest)

/-- What a number of line breaks between two pieces of a scalar stand for: one is a space, and of
several all but one stay. -/
def folded (breaks : Nat) : List Char :=
  if breaks ≤ 1 then [' '] else List.replicate (breaks - 1) '\n'

def atMarker (cs : List Char) : Bool :=
  let marks := ["---".toList, "...".toList]
  marks.any (· = cs.take 3) && atBlank (cs.drop 3)

/-! ## Words -/

def startsWord (inFlow : Bool) : List Char → Bool
  | [] => false
  | c :: rest =>
    if c = '-' || c = '?' || c = ':' then
      !atBlank rest && !(inFlow && rest.head?.any isFlowMark)
    else
      !(isBlank c || isBreak c || isFlowMark c ||
        ['#', '&', '*', '!', '|', '>', '\'', '"', '%', '@', '\x60'].contains c)

def readWordLine (inFlow afterBlank : Bool) : List Char → List Char × List Char
  | [] => ([], [])
  | c :: rest =>
    let ends := isBreak c || (c = '#' && afterBlank) || (inFlow && isFlowMark c) ||
      (c = ':' && (atBlank rest || (inFlow && rest.head?.any isFlowMark)))
    if ends then ([], c :: rest)
    else
      let (cs, rest) := readWordLine inFlow (isBlank c) rest
      (c :: cs, rest)

/-- Reads the lines that continue a word: those indented at least to column `low` that are no
comments. -/
def readMoreLines (inFlow : Bool) (low : Nat) : Nat → List Char → List Char × List Char
  | 0, cs => ([], cs)
  | fuel + 1, cs =>
    let (breaks, column, rest) := countBreaks 0 0 cs
    let (line, left) := readWordLine inFlow true rest
    let isOver := breaks = 0 || column < low || (column = 0 && atMarker rest) || line.isEmpty
    if isOver then ([], cs)
    else
      let (more, left) := readMoreLines inFlow low fuel left
      (folded breaks ++ trimEnd line ++ more, left)

def readWord (inFlow : Bool) (low : Nat) (cs : List Char) : List Char × List Char :=
  let (line, rest) := readWordLine inFlow false cs
  let (more, rest) := readMoreLines inFlow low cs.length rest
  (trimEnd line ++ more, rest)

/-! ## Quoted strings -/

def coded? (digits : List Char) : Option Char := do
  let n ← Document.digits? 16 digits
  if h : n.isValidChar then some (Char.ofNatAux n h) else none

def shortEscapes : List (Char × Char) :=
  [('0', '\x00'), ('a', '\x07'), ('b', '\x08'), ('t', '\t'), ('\t', '\t'), ('n', '\n'),
    ('v', '\x0b'), ('f', '\x0c'), ('r', '\r'), ('e', '\x1b'), (' ', ' '), ('"', '"'), ('/', '/'),
    ('\\', '\\'), ('N', '\u0085'), ('_', '\u00a0'), ('L', '\u2028'), ('P', '\u2029')]

def readEscape : List Char → Option (Char × List Char)
  | [] => none
  | 'x' :: rest => (coded? (rest.take 2)).map (·, rest.drop 2)
  | 'u' :: rest => (coded? (rest.take 4)).map (·, rest.drop 4)
  | 'U' :: rest => (coded? (rest.take 8)).map (·, rest.drop 8)
  | c :: rest => (shortEscapes.lookup c).map (·, rest)

/-- Reads a string in quotes after the opening quote. Inside double quotes there are escapes, inside
single quotes a quote is written twice. Each character takes one step at most. -/
def readQuoted (quote : Char) : Nat → List Char → Option (List Char × List Char)
  | 0, _ => none
  | _, [] => none
  | fuel + 1, c :: rest =>
    let isEscape := c = '\\' && quote = '"'
    if isEscape && rest.head?.any isBreak then
      let (breaks, column, left) := countBreaks 0 0 rest
      if column = 0 && atMarker left then none
      else
        (readQuoted quote fuel left).map fun (cs, left) =>
          (List.replicate (breaks - 1) '\n' ++ cs, left)
    else if isEscape then do
      let (c, rest) ← readEscape rest
      let (cs, rest) ← readQuoted quote fuel rest
      return (c :: cs, rest)
    else if c = quote then
      if quote = '\'' && rest.head? = some quote then
        (readQuoted quote fuel (rest.drop 1)).map fun (cs, rest) => (quote :: cs, rest)
      else some ([], rest)
    else
      let (breaks, column, left) := countBreaks 0 0 (c :: rest)
      if breaks = 0 then (readQuoted quote fuel rest).map fun (cs, rest) => (c :: cs, rest)
      else if column = 0 && atMarker left then none
      else (readQuoted quote fuel left).map fun (cs, rest) => (folded breaks ++ cs, rest)

/-! ## Blocks of text -/

/-- What is kept of the line breaks at the end of a block. -/
inductive Chomping where
  | strip
  | clip
  | keep
  deriving DecidableEq

structure BlockHeader where
  folds : Bool
  chomping : Chomping := .clip
  /-- The indentation beyond that of the parent, if it is given. -/
  indent : Option Nat := none

/-- Reads the marks after the one that opens a block, in any order and each at most once. -/
def readHeader (h : BlockHeader) (marked : Bool) : List Char → Option (BlockHeader × List Char)
  | [] => some (h, [])
  | c :: rest =>
    if c = '+' || c = '-' then
      if marked then none
      else readHeader { h with chomping := if c = '+' then .keep else .strip } true rest
    else if c.isDigit then
      if h.indent.isSome || c = '0' then none
      else readHeader { h with indent := some (c.toNat - '0'.toNat) } marked rest
    else
      let left := (c :: rest).dropWhile isBlank
      match left with
      | [] => some (h, [])
      | d :: _ =>
        if isBreak d then some (h, left)
        else if d = '#' && isBlank c then some (h, left.dropWhile fun e => !isBreak e)
        else none

def linesOf : Nat → List Char → List (List Char)
  | 0, _ => []
  | _, [] => []
  | fuel + 1, cs =>
    cs.takeWhile (fun c => !isBreak c) :: linesOf fuel (dropBreak (cs.dropWhile fun c => !isBreak c))

def indentOf (line : List Char) : Nat := (line.takeWhile (· = ' ')).length

def isInBlock (indent : Nat) (line : List Char) : Bool :=
  line.all (· = ' ') || indent ≤ indentOf line

/-- Joins the lines of a block, each with its break, where breaks between two lines that do not start
with a blank are folded. -/
def foldLines : List (List Char) → List Char
  | [] => []
  | [line] => line ++ ['\n']
  | line :: next :: rest =>
    let isText (l : List Char) : Bool := !l.isEmpty && !l.head?.any isBlank
    let empty := (next :: rest).takeWhile List.isEmpty
    let after := (next :: rest).drop empty.length
    let glue :=
      if isText line && after.head?.any isText then if empty.isEmpty then [' '] else []
      else ['\n']
    line ++ glue ++ foldLines (next :: rest)

def dropEmptyLines (lines : List (List Char)) : List (List Char) :=
  (lines.reverse.dropWhile List.isEmpty).reverse

def dropLines : Nat → List Char → List Char
  | 0, cs => cs
  | n + 1, cs => dropLines n (dropBreak (cs.dropWhile fun c => !isBreak c))

/-- The column at which the lines of a block start: as the header says, or else where the first line
that is not empty starts, and at least `low`. -/
def blockIndent (h : BlockHeader) (low : Nat) (lines : List (List Char)) : Nat :=
  match h.indent with
  | some n => low - 1 + n
  | none =>
    let first := lines.find? fun line => !line.all (· = ' ')
    max (max low 1) ((first.map indentOf).getD 0)

/-- Reads a block of text after the line of its header. Its lines are indented at least to column
`low`. -/
def readBlock (h : BlockHeader) (low : Nat) (cs : List Char) : List Char × List Char :=
  let lines := linesOf (cs.length + 1) cs
  let indent := blockIndent h low lines
  let block := lines.takeWhile (isInBlock indent)
  let body := dropEmptyLines (block.map fun line => line.drop indent)
  let text := if h.folds then foldLines body else (body.map (· ++ ['\n'])).flatten
  let rest := dropLines block.length cs
  let isCutOff := rest.isEmpty && block.length = body.length && !cs.getLast?.any isBreak
  let text := if h.chomping = .strip || isCutOff then text.dropLast else text
  let breaks := if h.chomping = .keep then block.length - body.length else 0
  (text ++ List.replicate breaks '\n', rest)

end Blackboard.Yaml
