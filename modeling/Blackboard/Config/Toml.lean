import Blackboard.Config.Toml.Table
import Blackboard.Config.Toml.Scalar

/-!
# TOML

A reader for texts in TOML 1.0. A text is a sequence of lines: headers, which choose the table that
the following keys belong to, and keys with their values.
-/

namespace Blackboard.Toml

def skipBlanks (cs : List Char) : List Char := cs.dropWhile isBlank

/-- Drops blanks, line breaks and comments. -/
def skipLines (inComment : Bool) : List Char → List Char
  | [] => []
  | '\n' :: rest => skipLines false rest
  | '\r' :: '\n' :: rest => skipLines false rest
  | c :: rest =>
    if inComment then if isPlain c then skipLines true rest else c :: rest
    else if isBlank c then skipLines false rest
    else if c = '#' then skipLines true rest
    else c :: rest

/-- Drops what may stand at the end of a line, with the line break. -/
def endLine? (cs : List Char) : Option (List Char) :=
  let rest :=
    match skipBlanks cs with
    | '#' :: comment => comment.dropWhile isPlain
    | rest => rest
  if rest.isEmpty then some [] else dropBreak? rest

def isNameChar (c : Char) : Bool := c.isAlphanum || c = '_' || c = '-'

def readName (cs : List Char) : Option (String × List Char) :=
  match cs with
  | '"' :: rest => (readLine '"' true (rest.length + 1) rest).map fun (s, r) => (String.ofList s, r)
  | '\'' :: rest =>
    (readLine '\'' false (rest.length + 1) rest).map fun (s, r) => (String.ofList s, r)
  | cs =>
    let name := cs.takeWhile isNameChar
    if name.isEmpty then none else some (String.ofList name, cs.drop name.length)

/-- Reads the parts of a key, of which there are at most `fuel`, and the blanks after it. -/
def readKey : Nat → List Char → Option (List String × List Char)
  | 0, _ => none
  | fuel + 1, cs => do
    let (name, rest) ← readName (skipBlanks cs)
    match skipBlanks rest with
    | '.' :: rest =>
      let (names, rest) ← readKey fuel rest
      return (name :: names, rest)
    | rest => return ([name], rest)

mutual

/-- Reads a value. The first argument bounds the number of steps. -/
def readValue (fuel : Nat) (cs : List Char) : Option (Document × List Char) :=
  match fuel with
  | 0 => none
  | fuel + 1 =>
    match cs with
    | '"' :: rest => (readString '"' true ('"' :: rest)).map fun (s, r) => (.text s, r)
    | '\'' :: rest => (readString '\'' false ('\'' :: rest)).map fun (s, r) => (.text s, r)
    | '[' :: rest => (readItems fuel (skipLines false rest)).map fun (ds, r) => (.list ds, r)
    | '\x7b' :: rest =>
      match skipBlanks rest with
      | '\x7d' :: rest => some (.fields [], rest)
      | rest =>
        (readPairs fuel [] rest).map fun (entries, r) => (.fields (documents entries), r)
    | cs => readWord cs

def readItems (fuel : Nat) (cs : List Char) : Option (List Document × List Char) :=
  match fuel with
  | 0 => none
  | fuel + 1 =>
    match cs with
    | ']' :: rest => some ([], rest)
    | cs => do
      let (d, rest) ← readValue fuel cs
      match skipLines false rest with
      | ',' :: rest =>
        let (ds, rest) ← readItems fuel (skipLines false rest)
        return (d :: ds, rest)
      | ']' :: rest => return ([d], rest)
      | _ => none

/-- Reads the keys of a table on one line with the closing brace, after those read so far. -/
def readPairs (fuel : Nat) (entries : Entries) (cs : List Char) :
    Option (Entries × List Char) :=
  match fuel with
  | 0 => none
  | fuel + 1 => do
    let (key, rest) ← readKey cs.length cs
    match rest with
    | '=' :: rest =>
      let (d, rest) ← readValue fuel (skipBlanks rest)
      let entries ← assign d key entries
      match skipBlanks rest with
      | ',' :: rest => readPairs fuel entries rest
      | '\x7d' :: rest => return (entries, rest)
      | _ => none
    | _ => none

end

/-- Reads a header after its opening brackets up to the end of the line. -/
def readHeader (closing : List Char) (cs : List Char) : Option (List String × List Char) := do
  let (key, rest) ← readKey cs.length cs
  if closing.isPrefixOf rest then return (key, ← endLine? (rest.drop closing.length)) else none

/-- Changes the table that the last part of a path is a name in. -/
def atHeader (f : String → Entries → Option Entries) (path : List String) (root : Entries) :
    Option Entries := do
  let name ← path.getLast?
  alter (f name) path.dropLast root

/-- Reads all lines, adding to the table at a path. The first argument bounds the number of lines. -/
def readLinesOf (fuel : Nat) (path : List String) (root : Entries) (cs : List Char) :
    Option Entries :=
  match fuel with
  | 0 => none
  | fuel + 1 =>
    match skipLines false cs with
    | [] => some root
    | '[' :: '[' :: rest => do
      let (path, rest) ← readHeader [']', ']'] rest
      readLinesOf fuel path (← atHeader openNext path root) rest
    | '[' :: rest => do
      let (path, rest) ← readHeader [']'] rest
      readLinesOf fuel path (← atHeader openTable path root) rest
    | cs => do
      let (key, rest) ← readKey cs.length cs
      match rest with
      | '=' :: rest =>
        let (d, rest) ← readValue cs.length (skipBlanks rest)
        readLinesOf fuel path (← alter (assign d key) path root) (← endLine? rest)
      | _ => none

def parse? (text : List Char) : Option Document :=
  (readLinesOf (text.length + 1) [] [] text).map fun root => .fields (documents root)

end Blackboard.Toml
