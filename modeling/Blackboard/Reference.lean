import Blackboard.Tuple.Match
import Blackboard.Text.Numeral

/-!
# References and meta tuples

A meta tuple is a tuple of a content type of its own whose payload names another location, or none
yet. Readers and subscribers go through it to whatever it names at the moment.

`Reference.encode` writes the payload and `Reference.parse` reads it, `Reference.resolve` reads it
from a tuple.
-/

namespace Blackboard

/-- A location that a meta tuple can name: its key has no wildcard. -/
structure Reference where
  location : Location
  concrete : location.key.isConcrete = true
  deriving DecidableEq, Repr

namespace Reference

def mimetype : String := "x-coordspace/meta"

def tag : String := "META"

/-- What stands for the owner while no location is named. -/
def noOwner : String := "-1"

/-- What stands for the key while no location is named. -/
def noKey : String := "NULL"

def ofLocation (location : Location) : Except TupleError Reference :=
  if h : location.key.isConcrete = true then .ok ⟨location, h⟩
  else .error (.abstractUse location.render)

def render (r : Reference) : String := r.location.render

def locator (r : Reference) : Tuple := r.location.pattern

/-- A word for an owner and one for a key between parentheses, after the tag. -/
def enclose (owner key : List Char) : String :=
  String.ofList (['('] ++ tag.toList ++ [' '] ++ owner ++ [' '] ++ key ++ [')'])

def encode : Option Reference → String
  | some r => enclose (Text.decimal r.location.owner.toNat) r.location.key.render.toList
  | none => enclose noOwner.toList noKey.toList

/-- The text between an opening and a closing parenthesis that are its first and last characters. -/
def unwrap? : List Char → Option (List Char)
  | '(' :: rest => if rest.getLast? = some ')' then some rest.dropLast else none
  | _ => none

/-- Reads the three words of a reference; `text` is what a report shows. -/
def parseWords (text : String) (word owner key : List Char) :
    Except TupleError (Option Reference) :=
  if !Text.eqIgnoringCase (String.ofList word) tag then .error (.invalidMeta text)
  else if owner = noOwner.toList then .ok none
  else
    match Text.readNat (UInt32.size - 1) owner with
    | .error _ => .error (.invalidMeta ("bad owner in " ++ text))
    | .ok owner =>
      match (Key.parse (String.ofList key)).bind fun key => ofLocation ⟨UInt32.ofNat owner, key⟩ with
      | .error e => .error (.invalidMeta e.message)
      | .ok r => .ok (some r)

/-- Reads a payload. Blanks around the reference, NULs at the end and the case of the tag do not
matter. -/
def parse (payload : List UInt8) : Except TupleError (Option Reference) :=
  match Text.ofOctets? payload with
  | none => .error (.invalidMeta "payload is not text")
  | some s =>
    let text := Text.trim (Text.dropEndWhile (· = '\x00') s.toList)
    match (unwrap? text).map Text.words with
    | some [word, owner, key] => parseWords (String.ofList text) word owner key
    | _ => .error (.invalidMeta (String.ofList text))

def metaTuple (source : Location) (target : Option Reference) : Tuple :=
  { Tuple.new source.owner source.key (Text.octets (encode target)) with
    mimetype := some mimetype
    encoding := some .ascii }

def isMetaType (t : Tuple) : Bool := t.mimetype.any fun m => Text.eqIgnoringCase m mimetype

def resolve (t : Tuple) : Except TupleError (Option Reference) :=
  if !isMetaType t then .error (.invalidMeta (t.render ++ " is not a meta tuple"))
  else
    match t.payload with
    | some payload => parse payload
    | none => .error (.abstractUse t.render)

/-- The location a tuple names, if it is a meta tuple that names one. -/
def target? (t : Tuple) : Option Reference :=
  match resolve t with
  | .ok target => target
  | .error _ => none

def isMeta (t : Tuple) : Bool := (target? t).isSome

end Reference

end Blackboard
