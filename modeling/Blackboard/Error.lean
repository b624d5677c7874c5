/-!
# Failures of tuple operations

Every failure has a cause and a number. The numbers are what peers and callers exchange, so they are
fixed here once, together with the words that name them.
-/

namespace Blackboard

inductive ErrorCode where
  | generic
  | badKeyName
  | bufferOverflow
  | abstractTuple
  | outOfMemory
  | indexError
  | badHandle
  | badIndex
  | badArgument
  | invalidMeta
  deriving DecidableEq, Repr

namespace ErrorCode

def all : List ErrorCode :=
  [generic, badKeyName, bufferOverflow, abstractTuple, outOfMemory, indexError, badHandle,
    badIndex, badArgument, invalidMeta]

def number : ErrorCode → Nat
  | generic => 1
  | badKeyName => 2
  | bufferOverflow => 3
  | abstractTuple => 4
  | outOfMemory => 5
  | indexError => 6
  | badHandle => 7
  | badIndex => 8
  | badArgument => 9
  | invalidMeta => 10

def ofNumber? (n : Int) : Option ErrorCode := all.find? fun code => (code.number : Int) == n

def text : ErrorCode → String
  | generic => "Generic tuple error"
  | badKeyName => "Invalid key name"
  | bufferOverflow => "Buffer overflow"
  | abstractTuple => "Tuple is abstract"
  | outOfMemory => "Out of memory"
  | indexError => "Hashtable error"
  | badHandle => "Invalid handle"
  | badIndex => "Invalid index"
  | badArgument => "Bad argument"
  | invalidMeta => "Invalid meta tuple"

end ErrorCode

/-- Why an operation on tuples failed. -/
inductive TupleError where
  /-- A pattern was given where one concrete tuple or location is needed. -/
  | abstractUse (subject : String)
  | invalidKey (reason : String)
  | invalidMeta (reason : String)
  | unknownHandle (handle : Nat)
  /-- A failure known by its number alone. -/
  | failed (code : ErrorCode)
  deriving DecidableEq, Repr

namespace TupleError

def code : TupleError → ErrorCode
  | abstractUse _ => .abstractTuple
  | invalidKey _ => .badKeyName
  | invalidMeta _ => .invalidMeta
  | unknownHandle _ => .badHandle
  | failed code => code

def message : TupleError → String
  | abstractUse subject => "Invalid use of abstract tuple: " ++ subject
  | invalidKey reason => "Invalid key: " ++ reason
  | invalidMeta reason => "Invalid meta tuple: " ++ reason
  | unknownHandle handle => "Unknown handle: " ++ toString handle
  | failed code => "Tuple operation failed: " ++ code.text

end TupleError

end Blackboard
