import Blackboard.Proofs.Key
import Blackboard.Reference

/-!
# References in writing

The payload of a meta tuple names a location by a word for the owner and a word for the key. A location
is read back from its payload exactly if its key can be read from its written form and this form is one
word. A blank in a key ends the word early: what is read then is another location, or none.
-/

namespace Blackboard

namespace Reference

/-- A reference that is read back from the payload that names it. -/
structure Readable (r : Reference) : Prop where
  legible : r.location.key.Legible
  unbroken : ∀ c ∈ r.location.key.render.toList, Text.isBlank c = false

/-! ## Words between parentheses -/

theorem not_blank_of_isDigit {c : Char} (h : c.isDigit = true) : Text.isBlank c = false := by
  have hrange : 48 ≤ c.toNat ∧ c.toNat ≤ 57 := by
    simpa [Char.isDigit, UInt32.le_iff_toNat_le] using h
  simp only [Text.isBlank, Bool.or_eq_false_iff, Bool.and_eq_false_iff, decide_eq_false_iff_not]
  omega

/-- Enclosed words are read one by one. -/
theorem parse_enclose_eq_ok_iff {owner : List Char} (hne : owner ≠ [])
    (howner : ∀ c ∈ owner, Text.isBlank c = false) (key : List Char) (r : Reference) :
    parse (Text.octets (enclose owner key)) = .ok (some r) ↔ ∃ word, Text.words key = [word] ∧
      parseWords (enclose owner key) tag.toList owner word = .ok (some r) := by
  let inner := tag.toList ++ ' ' :: (owner ++ ' ' :: key)
  have hform : (enclose owner key).toList = '(' :: inner ++ [')'] := by
    simp [enclose, inner]
  have htext : Text.trim (Text.dropEndWhile (· = '\x00') (enclose owner key).toList)
      = (enclose owner key).toList := by
    have hopen : ('(' :: inner ++ [')']).dropWhile Text.isBlank = '(' :: inner ++ [')'] :=
      List.dropWhile_cons_of_neg (by decide)
    rw [hform, Text.dropEndWhile_of_last (by decide), Text.trim, hopen,
      Text.dropEndWhile_of_last (by decide)]
  have hinner : unwrap? (enclose owner key).toList = some inner := by
    rw [hform, List.cons_append, unwrap?]
    simp
  have htag : ∀ c ∈ tag.toList, Text.isBlank c = false := by simp [tag, Text.isBlank]
  have hwords : Text.words inner = tag.toList :: owner :: Text.words key := by
    rw [Text.words_append_blank (by decide), Text.words_append_blank (by decide),
      Text.words_of_not_blank hne howner, Text.words_of_not_blank (by decide) htag]
    rfl
  rw [parse, Text.ofOctets?_octets]
  simp only [htext, hinner, Option.map_some, hwords, String.ofList_toList]
  cases Text.words key with
  | nil => simp
  | cons word rest => cases rest <;> simp

theorem parseWords_eq_ok_iff (text : String) (owner : Owner) (key : List Char) (r : Reference) :
    parseWords text tag.toList (Text.decimal owner.toNat) key = .ok (some r) ↔
      r.location.owner = owner ∧ Key.parse (String.ofList key) = .ok r.location.key := by
  have htag : Text.eqIgnoringCase (String.ofList tag.toList) tag = true := by decide
  have howner : Text.decimal owner.toNat ≠ noOwner.toList := by
    intro heq
    have hminus : '-' ∈ Text.decimal owner.toNat := by simp [heq, noOwner]
    exact absurd (Text.isDigit_of_mem_decimal hminus) (by decide)
  have hread : Text.readNat (UInt32.size - 1) (Text.decimal owner.toNat) = .ok owner.toNat :=
    Text.readNat_decimal (Nat.le_sub_one_of_lt owner.toNat_lt)
  rw [parseWords, htag, if_neg howner, hread]
  simp only [Bool.not_true, Bool.false_eq_true, if_false, UInt32.ofNat_toNat]
  cases Key.parse (String.ofList key) with
  | error e => simp [Except.bind]
  | ok k =>
    simp only [Except.bind]
    obtain ⟨⟨owner', key'⟩, hconcrete⟩ := r
    by_cases hk : k.isConcrete = true
    · simp [ofLocation, hk, eq_comm]
    · have hne : k ≠ key' := by
        rintro rfl
        exact hk hconcrete
      simp [ofLocation, hk, hne]

theorem eq_invalidMeta_of_parseWords {text : String} {word owner key : List Char} {e : TupleError}
    (h : parseWords text word owner key = .error e) : ∃ reason, e = .invalidMeta reason := by
  rw [parseWords] at h
  split at h
  next => cases h; exact ⟨_, rfl⟩
  next =>
    split at h
    next => cases h
    next =>
      split at h
      next => cases h; exact ⟨_, rfl⟩
      next => split at h <;> cases h; exact ⟨_, rfl⟩

/-- Whatever is wrong with a payload, it is reported as no reference. -/
theorem eq_invalidMeta_of_parse {payload : List UInt8} {e : TupleError}
    (h : parse payload = .error e) : ∃ reason, e = .invalidMeta reason := by
  rw [parse] at h
  split at h
  next => cases h; exact ⟨_, rfl⟩
  next =>
    dsimp only at h
    split at h
    next => exact eq_invalidMeta_of_parseWords h
    next => cases h; exact ⟨_, rfl⟩

/-- A reference is read back from its payload exactly if it is readable. -/
theorem parse_encode_eq_ok_iff (r : Reference) :
    parse (Text.octets (encode (some r))) = .ok (some r) ↔ r.Readable := by
  have howner : Text.decimal r.location.owner.toNat ≠ [] := by simp [Text.decimal]
  have hdigits : ∀ c ∈ Text.decimal r.location.owner.toNat, Text.isBlank c = false := fun c hc =>
    not_blank_of_isDigit (Text.isDigit_of_mem_decimal hc)
  rw [encode, parse_enclose_eq_ok_iff howner hdigits]
  constructor
  · rintro ⟨word, hwords, hparse⟩
    obtain ⟨-, hkey⟩ := (parseWords_eq_ok_iff ..).1 hparse
    have hword : r.location.key.render.toList = word := by
      rw [Key.render_of_parse hkey, String.toList_ofList]
    refine ⟨Key.legible_of_parse hkey, ?_⟩
    rw [hword]
    exact Text.not_blank_of_mem_words (hwords ▸ List.mem_singleton.2 rfl)
  · intro h
    have hparse := Key.parse_render h.legible
    refine ⟨_, Text.words_of_not_blank (Key.toList_ne_nil_of_parse hparse) h.unbroken, ?_⟩
    apply (parseWords_eq_ok_iff ..).2
    rw [String.ofList_toList]
    exact ⟨rfl, hparse⟩

theorem target?_eq_some_iff {t : Tuple} {r : Reference} :
    target? t = some r ↔ resolve t = .ok (some r) := by
  rw [target?]
  cases resolve t with
  | error e => simp
  | ok target => simp

/-- A tuple that is not of the type of meta tuples cannot be read as one. -/
theorem resolve_of_ordinary {t : Tuple} (h : isMetaType t = false) :
    resolve t = .error (.invalidMeta (t.render ++ " is not a meta tuple")) := by
  rw [resolve, h]
  rfl

/-- A meta tuple names what its payload names. -/
theorem resolve_of_meta {t : Tuple} {payload : List UInt8} (h : isMetaType t = true)
    (hpayload : t.payload = some payload) : resolve t = parse payload := by
  rw [resolve, h, hpayload]
  rfl

theorem target?_of_ordinary {t : Tuple} (h : isMetaType t = false) : target? t = none := by
  rw [target?, resolve_of_ordinary h]

theorem location_metaTuple {source : Location} (h : source.key.isConcrete = true)
    (target : Option Reference) : (metaTuple source target).location = .ok source := by
  apply Tuple.location_eq_ok_iff.2
  simp [metaTuple, Tuple.new, Tuple.isAbstract, h]

end Reference

end Blackboard
