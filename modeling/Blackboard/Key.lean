import Blackboard.Error

/-!
# Keys

A key is a path of at most seven segments. A segment that is a wildcard stands for any one segment,
and a wildcard at the end stands for one or more; the key without segments stands for every key.

In writing, segments are joined by `.` and a wildcard is `*`. `parse` reads that form.
-/

namespace Blackboard

/-- A path of segments. A missing segment is a wildcard. -/
structure Key where
  segments : List (Option String)
  deriving DecidableEq, Repr, Inhabited

namespace Key

def maxDepth : Nat := 7

def maxLength : Nat := 128

def separator : Char := '.'

def wildcard : List Char := ['*']

/-- Keys are ordered as lists of segments, a wildcard before every name. -/
instance : Ord Key := ⟨compareOn segments⟩

instance : Std.TransOrd Key := inferInstanceAs (Std.TransCmp (compareOn segments))

instance : Std.LawfulEqOrd Key where
  compare_self := by simp [Std.ReflCmp.compare_self]
  eq_of_compare := by
    rintro ⟨a⟩ ⟨b⟩ h
    obtain rfl : a = b := Std.LawfulEqCmp.eq_of_compare h
    rfl

def any : Key := ⟨[]⟩

def depth (k : Key) : Nat := k.segments.length

def isAny (k : Key) : Bool := k.segments.isEmpty

/-- True if the key names one place: it has a segment, and none is a wildcard. -/
def isConcrete (k : Key) : Bool := !k.segments.isEmpty && k.segments.all (·.isSome)

/-- True if longer keys are covered too: the last segment is a wildcard, or there is none. -/
def isOpenEnded (k : Key) : Bool :=
  match k.segments.getLast? with
  | none => true
  | some segment => segment.isNone

/-- True if a name can be a segment: it is not empty and holds no separator. -/
def isSegment (name : String) : Bool := !name.isEmpty && !name.toList.contains separator

def ofSegments (segments : List (Option String)) : Except TupleError Key :=
  if maxDepth < segments.length then
    .error (.invalidKey s!"key deeper than {maxDepth} segments")
  else if segments.all fun s => s.all isSegment then .ok ⟨segments⟩
  else .error (.invalidKey "segments must be non-empty and must not contain '.'")

def renderSegment : Option String → List Char
  | none => wildcard
  | some name => name.toList

def render (k : Key) : String :=
  if k.isAny then String.ofList wildcard
  else String.ofList ([separator].intercalate (k.segments.map renderSegment))

/-- A segment as it is read: the star is a wildcard. -/
def readSegment (cs : List Char) : Option String :=
  if cs = wildcard then none else some (String.ofList cs)

/-- Reads the written form. Of several faults the first of these is reported: no text, a text that
is too long, an empty segment, too many segments. -/
def parse (text : String) : Except TupleError Key :=
  if text.isEmpty then .error (.invalidKey "empty key")
  else if maxLength < text.utf8ByteSize then
    .error (.invalidKey s!"key longer than {maxLength} bytes: {text}")
  else
    let parts := text.toList.splitOn separator
    if parts.any List.isEmpty then .error (.invalidKey ("empty segment in " ++ text))
    else ofSegments (parts.map readSegment)

end Key

end Blackboard
