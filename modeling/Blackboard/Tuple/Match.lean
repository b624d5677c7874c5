import Blackboard.Tuple

/-!
# Comparing and matching tuples

Four relations on tuples, each for a policy on the case of payloads:

* `compare` orders tuples, by owner and key first;
* `agrees` says that two tuples say the same, wildcards included;
* `covers` says that a pattern asks for nothing a tuple does not have;
* `overlaps` says that two patterns do not contradict each other.

Content types always compare without regard to the case of ASCII letters, keys never do.
-/

namespace Blackboard

/-- Whether payloads that differ only in the case of ASCII letters count as equal. -/
inductive PayloadCase where
  | insensitive
  | sensitive
  deriving DecidableEq, Repr, Inhabited

def PayloadCase.fold (policy : PayloadCase) (bytes : List UInt8) : List UInt8 :=
  match policy with
  | insensitive => bytes.map Text.foldOctet
  | sensitive => bytes

namespace Key

def segmentCovers (p k : Option String) : Bool := p.isNone || p == k

def segmentsOverlap (x y : Option String) : Bool := x.isNone || y.isNone || x == y

/-- True if every key under `k` is under `p` as well. -/
def covers (p k : Key) : Bool :=
  p.isAny ||
    (if p.isOpenEnded then p.depth ≤ k.depth else k.depth == p.depth) &&
      (p.segments.zip k.segments).all fun s => segmentCovers s.1 s.2

/-- True if some key is under both. -/
def overlaps (a b : Key) : Bool :=
  a.isAny || b.isAny ||
    (match compare a.depth b.depth with
      | .eq => true
      | .lt => a.isOpenEnded
      | .gt => b.isOpenEnded) &&
      (a.segments.zip b.segments).all fun s => segmentsOverlap s.1 s.2

end Key

namespace Tuple

/-! ## Fields -/

def fieldCovers {α : Type} [DecidableEq α] (p v : Option α) : Bool :=
  match p with
  | none => true
  | some _ => v = p

def fieldsOverlap {α : Type} [DecidableEq α] (a b : Option α) : Bool :=
  match a, b with
  | some x, some y => x = y
  | _, _ => true

def foldedPayload (policy : PayloadCase) (t : Tuple) : Option (List UInt8) :=
  t.payload.map policy.fold

def foldedMimetype (t : Tuple) : Option (List Char) := t.mimetype.map Text.foldCase

/-! ## Relations -/

/-- The order of tuples: by owner, key, write time, stamp, expiry, payload (shorter ones first),
content type, encoding, creator and sequence number. A missing field comes before every value. -/
def compare (policy : PayloadCase) : Tuple → Tuple → Ordering :=
  compareLex (compareOn owner) <|
  compareLex (compareOn key) <|
  compareLex (compareOn written) <|
  compareLex (compareOn stamp) <|
  compareLex (compareOn expiry) <|
  compareLex (compareOn fun t => t.payload.map List.length) <|
  compareLex (compareOn (foldedPayload policy)) <|
  compareLex (compareOn foldedMimetype) <|
  compareLex (compareOn encoding) <|
  compareLex (compareOn creator) <|
  compareOn seqno

instance (policy : PayloadCase) : Std.TransCmp (compare policy) := by
  unfold compare
  infer_instance

/-- True if two tuples say the same about every field but the marks of appending and reading. -/
def agrees (policy : PayloadCase) (a b : Tuple) : Bool :=
  a.owner = b.owner && a.key = b.key && a.creator = b.creator && a.written = b.written &&
    a.stamp = b.stamp && a.expiry = b.expiry && a.encoding = b.encoding && a.seqno = b.seqno &&
    a.foldedMimetype = b.foldedMimetype && a.foldedPayload policy = b.foldedPayload policy

/-- True if the pattern `p` asks for nothing that `t` does not have. -/
def covers (policy : PayloadCase) (p t : Tuple) : Bool :=
  fieldCovers p.owner t.owner && p.key.covers t.key && fieldCovers p.creator t.creator &&
    fieldCovers p.written t.written && fieldCovers p.stamp t.stamp &&
    fieldCovers p.expiry t.expiry && fieldCovers p.encoding t.encoding &&
    fieldCovers p.seqno t.seqno && fieldCovers p.foldedMimetype t.foldedMimetype &&
    fieldCovers (p.foldedPayload policy) (t.foldedPayload policy) &&
    (p.fresh != some true || t.fresh == some true)

/-- True if no field of one contradicts the other's. Whether a value was read plays no part. -/
def overlaps (policy : PayloadCase) (a b : Tuple) : Bool :=
  fieldsOverlap a.owner b.owner && a.key.overlaps b.key && fieldsOverlap a.creator b.creator &&
    fieldsOverlap a.written b.written && fieldsOverlap a.stamp b.stamp &&
    fieldsOverlap a.expiry b.expiry && fieldsOverlap a.encoding b.encoding &&
    fieldsOverlap a.seqno b.seqno && fieldsOverlap a.foldedMimetype b.foldedMimetype &&
    fieldsOverlap (a.foldedPayload policy) (b.foldedPayload policy)

/-- The places of the tuples of a list once it is sorted. Tuples that compare equal keep their
order. -/
def ranking (policy : PayloadCase) (tuples : List Tuple) : List Nat :=
  (tuples.zipIdx.mergeSort fun a b => (compare policy a.1 b.1).isLE).map (·.2)

def ignoringFresh (p : Tuple) : Tuple := { p with fresh := none }

def onlyFresh (p : Tuple) : Tuple := { p with fresh := some true }

end Tuple

end Blackboard
