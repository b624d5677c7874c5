import Blackboard.Config.Yaml.Scalar

/-!
# YAML

A reader for texts that hold one YAML document made of scalars, lists and mappings, the latter either
structured by indentation or written inside brackets. Anchors, tags and keys of several lines are
refused.

Every reader starts at content and leaves off at the next content, so what it leaves behind is a
`Place`: the characters left, their column, and whether a line ended before them.
-/

namespace Blackboard.Yaml

structure Place where
  column : Nat
  rest : List Char
  /-- Whether a line ended just before, comments and blanks aside. -/
  fresh : Bool

inductive Skipping where
  /-- Behind something on the same line. -/
  | line
  /-- At the start of a line, where only spaces may stand. -/
  | start
  | comment
  deriving DecidableEq

/-- Drops blanks, comments and line breaks up to the next content. -/
def skip (mode : Skipping) (fresh : Bool) (column : Nat) : List Char → Place
  | [] => ⟨column, [], true⟩
  | '\r' :: '\n' :: rest => skip .start true 0 rest
  | c :: rest =>
    if isBreak c then skip .start true 0 rest
    else if mode = .comment || c = ' ' then skip mode fresh (column + 1) rest
    else if c = '\t' && mode = .line then skip mode fresh (column + 1) rest
    else if c = '#' then skip .comment fresh (column + 1) rest
    else ⟨column, c :: rest, fresh⟩

/-- The next content behind a token that ends in a column. -/
def behind (column : Nat) (rest : List Char) : Place := skip .line false column rest

def skipFlow (cs : List Char) : List Char := (skip .line false 0 cs).rest

/-- True where nothing of the document is left. -/
def Place.isOver (p : Place) : Bool :=
  p.rest.isEmpty || (p.fresh && p.column = 0 && atMarker p.rest)

/-- True at the dash of a list item. -/
def Place.isItem (p : Place) : Bool := p.rest.head? = some '-' && atBlank (p.rest.drop 1)

def nothing : Document := .word []

def nameOf : Document → Option String
  | .word cs => some (String.ofList cs)
  | .text s => some s
  | _ => none

def quoted? (quote : Char) (rest : List Char) : Option (Document × List Char) :=
  (readQuoted quote (rest.length + 1) rest).map fun (cs, rest) => (.text (String.ofList cs), rest)

/-! ## Inside brackets -/

mutual

/-- Reads a value inside brackets. The first argument bounds the number of steps. -/
def readFlow (fuel : Nat) (cs : List Char) : Option (Document × List Char) :=
  match fuel with
  | 0 => none
  | fuel + 1 =>
    match cs with
    | '[' :: rest => (readFlowItems fuel (skipFlow rest)).map fun (ds, r) => (.list ds, r)
    | '\x7b' :: rest => (readFlowPairs fuel (skipFlow rest)).map fun (es, r) => (.fields es, r)
    | '"' :: rest => quoted? '"' rest
    | '\'' :: rest => quoted? '\'' rest
    | cs =>
      if startsWord true cs then
        let (word, rest) := readWord true 0 cs
        some (.word word, rest)
      else none

def readFlowItems (fuel : Nat) (cs : List Char) : Option (List Document × List Char) :=
  match fuel with
  | 0 => none
  | fuel + 1 =>
    match cs with
    | ']' :: rest => some ([], rest)
    | cs => do
      let (key, rest) ← readFlow fuel cs
      let (item, rest) ←
        match skipFlow rest with
        | ':' :: rest =>
          (readFlowValue fuel (skipFlow rest)).map fun (d, r) => (.fields [(nameOf key, d)], r)
        | rest => some (key, rest)
      match skipFlow rest with
      | ',' :: rest =>
        let (items, rest) ← readFlowItems fuel (skipFlow rest)
        return (item :: items, rest)
      | ']' :: rest => return ([item], rest)
      | _ => none

def readFlowValue (fuel : Nat) (cs : List Char) : Option (Document × List Char) :=
  match fuel with
  | 0 => none
  | fuel + 1 =>
    if cs.head?.any fun c => c = ',' || c = ']' || c = '\x7d' then some (nothing, cs)
    else readFlow fuel cs

def readFlowPairs (fuel : Nat) (cs : List Char) :
    Option (List (Option String × Document) × List Char) :=
  match fuel with
  | 0 => none
  | fuel + 1 =>
    match cs with
    | '\x7d' :: rest => some ([], rest)
    | cs => do
      let (key, rest) ← readFlow fuel cs
      let (value, rest) ←
        match skipFlow rest with
        | ':' :: rest => readFlowValue fuel (skipFlow rest)
        | rest => some (nothing, rest)
      match skipFlow rest with
      | ',' :: rest =>
        let (pairs, rest) ← readFlowPairs fuel (skipFlow rest)
        return ((nameOf key, value) :: pairs, rest)
      | '\x7d' :: rest => return ([(nameOf key, value)], rest)
      | _ => none

end

/-! ## Structured by indentation -/

/-- Reads the key of a pair with the colon behind it. A key stays on one line. -/
def readKey (p : Place) : Option (String × Place) := do
  let (key, rest) ←
    match p.rest with
    | '"' :: rest => quoted? '"' rest
    | '\'' :: rest => quoted? '\'' rest
    | cs =>
      if startsWord false cs then
        let (word, rest) := readWordLine false false cs
        some (.word (trimEnd word), rest)
      else none
  let used := p.rest.take (p.rest.length - rest.length)
  match rest.dropWhile isBlank with
  | ':' :: rest =>
    if atBlank rest && !used.any isBreak then
      return (← nameOf key, behind (p.column + 1) rest)
    else none
  | _ => none

/-- Reads a scalar, or a value in brackets, in a place where lines are indented at least to column
`low`. -/
def readInline (low : Nat) (p : Place) : Option (Document × Place) :=
  let next (found : Document × List Char) : Document × Place :=
    (found.1, behind (p.column + 1) found.2)
  let block (folds : Bool) (rest : List Char) : Option (Document × Place) := do
    let (header, rest) ← readHeader { folds } false rest
    let (text, rest) := readBlock header low (dropBreak rest)
    return (.text (String.ofList text), skip .start true 0 rest)
  match p.rest with
  | '"' :: rest => (quoted? '"' rest).map next
  | '\'' :: rest => (quoted? '\'' rest).map next
  | '[' :: _ => (readFlow (2 * p.rest.length) p.rest).map next
  | '\x7b' :: _ => (readFlow (2 * p.rest.length) p.rest).map next
  | '|' :: rest => block false rest
  | '>' :: rest => block true rest
  | cs =>
    if startsWord false cs then
      let (word, rest) := readWord false low cs
      some (next (.word word, rest))
    else none

mutual

/-- Reads a value whose lines are indented at least to column `low`. The first argument bounds the
number of steps. -/
def readValue (fuel low : Nat) (p : Place) : Option (Document × Place) :=
  match fuel with
  | 0 => none
  | fuel + 1 =>
    if p.isItem then (readItems fuel p.column p).map fun (ds, p) => (.list ds, p)
    else if (readKey p).isSome then
      (readPairs fuel p.column p).map fun (es, p) => (.fields es, p)
    else readInline low p

/-- Reads the items of a list whose dashes stand in a column. -/
def readItems (fuel column : Nat) (p : Place) : Option (List Document × Place) :=
  match fuel with
  | 0 => none
  | fuel + 1 => do
    let inner := behind (p.column + 1) (p.rest.drop 1)
    let isMissing := inner.isOver || (inner.fresh && inner.column ≤ column)
    let (item, p) ←
      if isMissing then some (nothing, inner) else readValue fuel (column + 1) inner
    if p.isOver then return ([item], p)
    else if !p.fresh then none
    else if p.column = column && p.isItem then
      let (items, p) ← readItems fuel column p
      return (item :: items, p)
    else return ([item], p)

/-- Reads the pairs of a mapping whose keys stand in a column. The items of a list may stand in the
same column as the key that the list belongs to. -/
def readPairs (fuel column : Nat) (p : Place) :
    Option (List (Option String × Document) × Place) :=
  match fuel with
  | 0 => none
  | fuel + 1 => do
    let (name, inner) ← readKey p
    let (value, p) ←
      if inner.isOver then some (nothing, inner)
      -- On the line of its key a value is no list and no mapping, unless in brackets.
      else if !inner.fresh then readInline (column + 1) inner
      else if column < inner.column then readValue fuel (column + 1) inner
      else if inner.column = column && inner.isItem then
        (readItems fuel column inner).map fun (ds, p) => (.list ds, p)
      else some (nothing, inner)
    if p.isOver then return ([(some name, value)], p)
    else if !p.fresh || column < p.column then none
    else if p.column = column then
      let (pairs, p) ← readPairs fuel column p
      return ((some name, value) :: pairs, p)
    else return ([(some name, value)], p)

end

/-! ## Documents -/

def isAllowed (c : Char) : Bool :=
  isBlank c || isBreak c || (' ' ≤ c && c ≤ '~') || c = '\u0085' ||
    ('\u00a0' ≤ c && c ≠ '\ufffe' && c ≠ '\uffff')

def readRoot (fuel : Nat) (p : Place) : Option (Document × Place) :=
  if p.isOver then some (nothing, p)
  else if p.fresh then readValue fuel 0 p
  else readInline 0 p

/-- True if nothing but the mark for the end of a document is left. -/
def endsAt (p : Place) : Bool :=
  p.rest.isEmpty ||
    (p.isOver && "...".toList.isPrefixOf p.rest && (skipFlow (p.rest.drop 3)).isEmpty)

def parse? (text : List Char) : Option Document := do
  if !text.all isAllowed then none
  else
    let first := skip .start true 0 text
    let isMarked := first.isOver && "---".toList.isPrefixOf first.rest
    let start := if isMarked then behind 3 (first.rest.drop 3) else first
    let (d, p) ← readRoot (2 * text.length + 2) start
    if endsAt p then some d else none

end Blackboard.Yaml
