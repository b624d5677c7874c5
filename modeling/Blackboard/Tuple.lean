import Blackboard.Key
import Blackboard.Time
import Blackboard.Text.Octets
import Blackboard.Text.Quoted
import Blackboard.Text.Blank

/-!
# Tuples

A tuple is the unit of data on the board: a record with an owner, a key and a payload. Any field may
be missing, which makes the tuple a pattern that says nothing about that field. A tuple that names
all a writer has to name is concrete and can be stored; the rest is filled in by the store.
-/

namespace Blackboard

/-- The number of a process that owns or writes tuples. -/
abbrev Owner := UInt32

/-- What a payload holds, as declared by its writer. -/
inductive Encoding where
  | unspecified
  | ascii
  | binary
  deriving DecidableEq, Repr, Inhabited

namespace Encoding

def rank : Encoding → Nat
  | unspecified => 0
  | ascii => 1
  | binary => 2

instance : Ord Encoding := ⟨compareOn rank⟩

instance : Std.TransOrd Encoding := inferInstanceAs (Std.TransCmp (compareOn rank))

instance : Std.LawfulEqOrd Encoding where
  compare_self := by simp [Std.ReflCmp.compare_self]
  eq_of_compare := by
    intro a b h
    have hrank : a.rank = b.rank :=
      Std.LawfulEqCmp.eq_of_compare (show compare a.rank b.rank = .eq from h)
    cases a <;> cases b <;> simp_all [rank]

end Encoding

/-- The place of a tuple on the board: each owner has a value per key. -/
structure Location where
  owner : Owner
  key : Key
  deriving DecidableEq, Repr, Inhabited

namespace Location

instance : Ord Location := ⟨compareLex (compareOn owner) (compareOn key)⟩

instance : Std.TransOrd Location :=
  inferInstanceAs (Std.TransCmp (compareLex (compareOn owner) (compareOn key)))

theorem compare_eq (a b : Location) :
    compare a b = (compare a.owner b.owner).then (compare a.key b.key) := rfl

instance : Std.LawfulEqOrd Location where
  compare_self := by simp [Std.ReflCmp.compare_self]
  eq_of_compare := by
    rintro ⟨o, k⟩ ⟨o', k'⟩ h
    obtain ⟨ho, hk⟩ := Ordering.then_eq_eq.1 ((compare_eq _ _).symm.trans h)
    obtain rfl : o = o' := Std.LawfulEqCmp.eq_of_compare ho
    obtain rfl : k = k' := Std.LawfulEqCmp.eq_of_compare hk
    rfl

def render (l : Location) : String := toString l.owner ++ ":" ++ l.key.render

def requireConcrete (l : Location) : Except TupleError Unit :=
  if l.key.isConcrete then .ok () else .error (.abstractUse l.render)

end Location

/-- A record on the board, or a pattern for such records. A missing field stands for any value. -/
structure Tuple where
  owner : Option Owner
  key : Key
  /-- The process that wrote it last. -/
  creator : Option Owner
  /-- When it was last written; set by the store. -/
  written : Option Timestamp
  /-- A time of the writer's own choice. -/
  stamp : Option Timestamp
  expiry : Option Expiry
  payload : Option (List UInt8)
  mimetype : Option String
  encoding : Option Encoding
  /-- The number of writes at this location, a count of 64 bits; set by the store. -/
  seqno : Option Nat
  /-- The number of appends since the last write, a count of 32 bits. -/
  appends : Nat
  /-- On a stored tuple, whether no reader has seen this value. A pattern with `some true` asks for
  such values only. -/
  fresh : Option Bool
  deriving DecidableEq, Repr

namespace Tuple

/-- The pattern that says nothing. -/
def pattern : Tuple where
  owner := none
  key := .any
  creator := none
  written := none
  stamp := none
  expiry := none
  payload := none
  mimetype := none
  encoding := none
  seqno := none
  appends := 0
  fresh := none

instance : Inhabited Tuple := ⟨pattern⟩

/-- A concrete tuple written by its owner, without content type. -/
def new (owner : Owner) (key : Key) (payload : List UInt8) : Tuple where
  owner := some owner
  key := key
  creator := some owner
  written := none
  stamp := some .zero
  expiry := some .never
  payload := some payload
  mimetype := some ""
  encoding := some .unspecified
  seqno := none
  appends := 0
  fresh := none

def plainText (owner : Owner) (key : Key) (text : String) : Tuple :=
  { new owner key (Text.octets text) with encoding := some .ascii, mimetype := some "text/plain" }

def text (owner : Owner) (key text : String) : Except TupleError Tuple :=
  (Key.parse key).map fun k => plainText owner k text

def locator (owner : Option Owner) (key : Key) : Tuple := { pattern with owner, key }

/-- True if a field that a writer has to name is missing or has a wildcard. -/
def isAbstract (t : Tuple) : Bool :=
  t.owner.isNone || t.creator.isNone || t.stamp.isNone || t.expiry.isNone || t.encoding.isNone ||
    t.mimetype.isNone || t.payload.isNone || !t.key.isConcrete

def isDeletion (t : Tuple) : Bool := t.expiry == some .immediately

/-- The payload as text without the NULs at its end, if it is text. -/
def payloadText (t : Tuple) : Option String :=
  (t.payload.bind Text.ofOctets?).map fun s =>
    String.ofList (Text.dropEndWhile (· = '\x00') s.toList)

/-- The owner, the key and the payload on one line. -/
def render (t : Tuple) : String :=
  let owner := match t.owner with
    | some owner => toString owner
    | none => "*"
  let payload := match t.payload, t.payloadText with
    | none, _ => "*"
    | some _, some text => Text.quote text
    | some bytes, none => s!"<{bytes.length} bytes>"
  owner ++ ":" ++ t.key.render ++ " = " ++ payload

def requireConcrete (t : Tuple) : Except TupleError Unit :=
  if t.isAbstract then .error (.abstractUse t.render) else .ok ()

def location (t : Tuple) : Except TupleError Location :=
  match t.owner with
  | some owner => if t.isAbstract then .error (.abstractUse t.render) else .ok ⟨owner, t.key⟩
  | none => .error (.abstractUse t.render)

theorem location_eq_ok_iff {t : Tuple} {l : Location} :
    t.location = .ok l ↔ t.isAbstract = false ∧ t.owner = some l.owner ∧ t.key = l.key := by
  obtain ⟨owner, key⟩ := l
  rw [location]
  cases h : t.owner with
  | none => simp
  | some o =>
    by_cases ha : t.isAbstract = true
    · simp [ha]
    · simp [ha]

end Tuple

def Location.pattern (l : Location) : Tuple := .locator (some l.owner) l.key

end Blackboard
