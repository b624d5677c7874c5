import Blackboard.Json
import Blackboard.Tuple

/-!
# Tuples as JSON

The notation in which tuples are kept outside the board. `toJson` writes an object with every field
in a fixed order. `ofJson?` reads such a text, and any other with the same meaning: fields may come
in any order, unknown ones play no part, and a missing field is a wildcard.
-/

namespace Blackboard

open Json (renderField renderOption renderInt renderString renderBool bracket members? nat? int?
  optional? nullable? list? text? bool?)

/-! ## Writing -/

def renderNat (n : Nat) : List Char := Text.decimal n

def Key.toJson (k : Key) : List Char :=
  bracket '\x7b'
    [renderField "segments" (bracket '[' (k.segments.map (renderOption renderString)) ']')] '\x7d'

def Timestamp.toJson (t : Timestamp) : List Char :=
  bracket '\x7b' [renderField "secs" (renderInt t.secs), renderField "usecs" (renderNat t.usecs)]
    '\x7d'

/-- A word, or a point in time under the word for it. -/
def Expiry.toJson : Expiry → List Char
  | never => renderString "Never"
  | immediately => renderString "Immediately"
  | dueAt time => bracket '\x7b' [renderField "At" time.toJson] '\x7d'

def Encoding.word : Encoding → String
  | unspecified => "Unspecified"
  | ascii => "Ascii"
  | binary => "Binary"

namespace Tuple

def fieldNames : List String :=
  ["owner", "key", "creator", "ts_write", "ts_user", "ts_expire", "data", "mimetype", "encoding",
    "seqno", "append_seqno", "is_new"]

def fieldTexts (t : Tuple) : List (List Char) :=
  [renderOption (fun o => renderNat o.toNat) t.owner,
    t.key.toJson,
    renderOption (fun o => renderNat o.toNat) t.creator,
    renderOption Timestamp.toJson t.written,
    renderOption Timestamp.toJson t.stamp,
    renderOption Expiry.toJson t.expiry,
    renderOption (fun bytes => bracket '[' (bytes.map fun b => renderNat b.toNat) ']') t.payload,
    renderOption renderString t.mimetype,
    renderOption (fun e => renderString e.word) t.encoding,
    renderOption renderNat t.seqno,
    renderNat t.appends,
    renderOption renderBool t.fresh]

def toJson (t : Tuple) : List Char :=
  bracket '\x7b' (List.zipWith renderField fieldNames t.fieldTexts) '\x7d'

end Tuple

/-! ## Reading -/

def Owner.ofJson? (j : Json) : Option Owner := (nat? UInt32.size j).map UInt32.ofNat

def octetOfJson? (j : Json) : Option UInt8 := (nat? UInt8.size j).map UInt8.ofNat

/-- A key. Its segments are taken as they are. -/
def Key.ofJson? (j : Json) : Option Key := do
  match ← members? ["segments"] j with
  | [some segments] => return ⟨← list? (nullable? text?) segments⟩
  | _ => none

def Timestamp.ofJson? (j : Json) : Option Timestamp := do
  match ← members? ["secs", "usecs"] j with
  | [some secs, some usecs] =>
    return ⟨← int? Int64.minValue.toInt Int64.maxValue.toInt secs, ← nat? UInt32.size usecs⟩
  | _ => none

/-- One of several words, each of which may also stand as the only field of an object, with null. -/
def wordOfJson? : Json → Option String
  | .string word => word
  | .object [(word, .null)] => word
  | _ => none

def Expiry.ofJson? (j : Json) : Option Expiry :=
  match j with
  | .object [(some "At", time)] => (Timestamp.ofJson? time).map .dueAt
  | j =>
    match wordOfJson? j with
    | some "Never" => some .never
    | some "Immediately" => some .immediately
    | _ => none

def Encoding.ofJson? (j : Json) : Option Encoding :=
  match wordOfJson? j with
  | some "Unspecified" => some .unspecified
  | some "Ascii" => some .ascii
  | some "Binary" => some .binary
  | _ => none

namespace Tuple

/-- The tuple that a value stands for. The key has to be there; the number of appends may be
missing, which means none, but not null. -/
def ofValue? (j : Json) : Option Tuple := do
  match ← members? fieldNames j with
  | [owner, some key, creator, written, stamp, expiry, payload, mimetype, encoding, seqno, appends,
      fresh] =>
    return {
      owner := ← optional? Owner.ofJson? owner
      key := ← Key.ofJson? key
      creator := ← optional? Owner.ofJson? creator
      written := ← optional? Timestamp.ofJson? written
      stamp := ← optional? Timestamp.ofJson? stamp
      expiry := ← optional? Expiry.ofJson? expiry
      payload := ← optional? (list? octetOfJson?) payload
      mimetype := ← optional? text? mimetype
      encoding := ← optional? Encoding.ofJson? encoding
      seqno := ← optional? (nat? UInt64.size) seqno
      appends := ← match appends with
        | none => some 0
        | some appends => nat? UInt32.size appends
      fresh := ← optional? bool? fresh }
  | _ => none

def ofJson? (text : List Char) : Option Tuple := (Json.parse? text).bind ofValue?

end Tuple

end Blackboard
