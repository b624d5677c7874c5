import Blackboard.Config.Document

/-!
# Tables of a TOML text

A TOML text builds its tables piece by piece: headers open tables along a path of names, and keys
with several parts open tables on their own. What may be extended later depends on how a table came
to be, and nothing may be given twice.
-/

namespace Blackboard.Toml

inductive Opening where
  /-- It lies on the way to another table. -/
  | passing
  /-- A header names it. -/
  | header
  /-- A key with several parts goes through it. -/
  | dotted
  deriving DecidableEq, Repr

/-- What a name stands for while tables are built. -/
inductive Node where
  | value (document : Document)
  | table (opening : Opening) (entries : List (String × Node))
  /-- A list of tables, of which the last is open. -/
  | tables (before : List (List (String × Node))) (last : List (String × Node))

abbrev Entries := List (String × Node)

/-- Puts a node in the place of the one under a name, or at the end. -/
def place (name : String) (node : Node) : Entries → Entries
  | [] => [(name, node)]
  | (n, old) :: rest => if n = name then (name, node) :: rest else (n, old) :: place name node rest

def assign (value : Document) : List String → Entries → Option Entries
  | [], _ => none
  | [name], entries =>
    if (entries.lookup name).isSome then none else some (entries ++ [(name, .value value)])
  | name :: rest, entries =>
    match entries.lookup name with
    | none => (assign value rest []).map fun inner => place name (.table .dotted inner) entries
    | some (.table opening inner) =>
      if opening = .header then none
      else (assign value rest inner).map fun inner => place name (.table opening inner) entries
    | some _ => none

/-- Changes the table at the end of a path. Tables on the way that do not exist are opened. -/
def alter (f : Entries → Option Entries) : List String → Entries → Option Entries
  | [], entries => f entries
  | name :: rest, entries =>
    match entries.lookup name with
    | none => (alter f rest []).map fun inner => place name (.table .passing inner) entries
    | some (.table opening inner) =>
      (alter f rest inner).map fun inner => place name (.table opening inner) entries
    | some (.tables before last) =>
      (alter f rest last).map fun last => place name (.tables before last) entries
    | some (.value _) => none

/-- Opens a table under a name, which a header may do once. -/
def openTable (name : String) (entries : Entries) : Option Entries :=
  match entries.lookup name with
  | none => some (entries ++ [(name, .table .header [])])
  | some (.table .passing inner) => some (place name (.table .header inner) entries)
  | some _ => none

def openNext (name : String) (entries : Entries) : Option Entries :=
  match entries.lookup name with
  | none => some (entries ++ [(name, .tables [] [])])
  | some (.tables before last) => some (place name (.tables (before ++ [last]) []) entries)
  | some _ => none

mutual

def Node.document : Node → Document
  | .value d => d
  | .table _ entries => .fields (documents entries)
  | .tables before last => .list (documentLists before ++ [.fields (documents last)])

def documents : List (String × Node) → List (Option String × Document)
  | [] => []
  | (name, node) :: rest => (some name, node.document) :: documents rest

def documentLists : List (List (String × Node)) → List Document
  | [] => []
  | entries :: rest => .fields (documents entries) :: documentLists rest

end

end Blackboard.Toml
