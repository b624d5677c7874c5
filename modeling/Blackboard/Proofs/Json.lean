import Mathlib.Data.List.Basic
import Mathlib.Data.List.Forall2
import Blackboard.Json

/-!
# Reading what was written

A text denotes a value if the reader takes the whole of it for that value, and no more, wherever it
stands. The texts of the leaves denote their values, and brackets around texts that denote values denote
the list or the object of these; so the reader is never led astray by what a text contains, nor by
what follows it.
-/

namespace Blackboard

namespace Json

/-! ## Strings -/

theorem hexValue4?_control : ∀ n < 0x20,
    hexValue4? '0' '0' (hexDigit (n / 16)) (hexDigit (n % 16)) = some n := by decide

theorem readUnits_of_plain {c : Char} (hquote : c ≠ '"') (hslash : c ≠ '\\') (hc : ¬ c.toNat < 0x20)
    (rest : List Char) :
    readUnits (c :: rest) = (readUnits rest).map fun (units, rest) => (c.toNat :: units, rest) := by
  rw [readUnits.eq_def]
  split
  next => simp_all
  next => simp_all
  next => simp_all
  next => simp_all
  next heq =>
    obtain ⟨rfl, rfl⟩ := List.cons.inj heq
    rw [if_neg hc]

/-- An escaped character is one unit, whatever follows. -/
theorem readUnits_escapeChar (c : Char) (rest : List Char) :
    readUnits (escapeChar c ++ rest)
      = (readUnits rest).map fun (units, rest) => (c.toNat :: units, rest) := by
  rw [escapeChar.eq_def]
  split
  iterate 7 next => cases hrest : readUnits rest <;> simp [readUnits, shortEscape?, hrest]
  next hquote hslash _ _ _ _ _ =>
    split
    next hc =>
      simp only [List.cons_append, List.nil_append, readUnits, hexValue4?_control _ hc]
      cases readUnits rest <;> rfl
    next hc => exact readUnits_of_plain hquote hslash hc rest

theorem readUnits_flatMap_escapeChar (cs rest : List Char) :
    readUnits (cs.flatMap escapeChar ++ '"' :: rest) = some (cs.map Char.toNat, rest) := by
  induction cs with
  | nil => rfl
  | cons c cs ih =>
    rw [List.flatMap_cons, List.append_assoc, readUnits_escapeChar, ih]
    rfl

/-- No character is half of a surrogate pair. -/
theorem charsOfUnits?_map_toNat (cs : List Char) : charsOfUnits? (cs.map Char.toNat) = some cs := by
  induction cs with
  | nil => rfl
  | cons c cs ih =>
    have hc : c.toNat < 0xd800 ∨ 0xdfff < c.toNat := c.valid.imp_right And.left
    rw [List.map_cons, charsOfUnits?.eq_def]
    simp only [Bool.and_eq_true, decide_eq_true_eq]
    rw [if_neg (by omega), if_neg (by omega), ih, Option.map_some, Char.ofNat_toNat]

theorem readString_append (s : String) (rest : List Char) :
    readString (s.toList.flatMap escapeChar ++ '"' :: rest) = some (some s, rest) := by
  simp only [readString, readUnits_flatMap_escapeChar, Option.map_some, charsOfUnits?_map_toNat,
    String.ofList_toList]

/-! ## Numbers -/

/-- What may follow a value in a text without blanks: nothing, a comma or a closing bracket. -/
def Closes (rest : List Char) : Prop := ∀ c ∈ rest.head?, c = ',' ∨ c = ']' ∨ c = '\x7d'

theorem closes_nil : Closes [] := nofun

theorem closes_cons {c : Char} (h : c = ',' ∨ c = ']' ∨ c = '\x7d') (rest : List Char) :
    Closes (c :: rest) := by
  rintro _ ⟨⟩
  exact h

theorem exists_decimal_eq_cons (n : Nat) : ∃ c cs, Text.decimal n = c :: cs ∧ c.isDigit = true := by
  cases hcons : Text.decimal n with
  | nil => exact absurd hcons Text.decimal_ne_nil
  | cons c cs => exact ⟨c, cs, rfl, Text.isDigit_of_mem_decimal (hcons ▸ List.mem_cons_self)⟩

/-- Only zero has a numeral that starts with a zero. -/
theorem head?_decimal {n : Nat} (hn : n ≠ 0) : (Text.decimal n).head? ≠ some '0' := by
  rw [Text.decimal]
  induction n using Nat.strongRecOn with
  | ind n ih =>
    rcases Nat.lt_or_ge n 10 with hsmall | hlarge
    · have hdigit : ∀ d < 10, d ≠ 0 → [d.digitChar].head? ≠ some '0' := by decide
      rw [Nat.toDigits_of_lt_base hsmall]
      exact hdigit n hsmall hn
    · have hrest : n / 10 ≠ 0 := by omega
      rw [Nat.toDigits_of_base_le (by decide) hlarge, List.head?_append_of_ne_nil _ Nat.toDigits_ne_nil]
      exact ih (n / 10) (by omega) hrest

theorem spanDigits_append {digits rest : List Char} (hdigits : ∀ c ∈ digits, c.isDigit = true)
    (hrest : Closes rest) : spanDigits (digits ++ rest) = (digits, rest) := by
  have hnone : rest.takeWhile Char.isDigit = [] ∧ rest.dropWhile Char.isDigit = rest := by
    cases rest with
    | nil => exact ⟨rfl, rfl⟩
    | cons c cs =>
      have hc : c.isDigit = false := by
        obtain rfl | rfl | rfl := hrest c rfl <;> rfl
      simp [hc]
  rw [spanDigits, List.takeWhile_append_of_pos hdigits, List.dropWhile_append_of_pos hdigits, hnone.1,
    hnone.2, List.append_nil]

theorem readFraction_of_closes {rest : List Char} (h : Closes rest) :
    readFraction rest = some (false, rest) := by
  cases rest with
  | nil => rfl
  | cons c cs => obtain rfl | rfl | rfl := h c rfl <;> rfl

theorem readExponent_of_closes {rest : List Char} (h : Closes rest) :
    readExponent rest = some (false, rest) := by
  cases rest with
  | nil => rfl
  | cons c cs => obtain rfl | rfl | rfl := h c rfl <;> rfl

/-- A numeral has a digit in front, and a zero there only if that is all of it. -/
theorem decimal_wellFormed (n : Nat) :
    ((Text.decimal n).isEmpty || ((Text.decimal n).head? = some '0' && 1 < (Text.decimal n).length))
      = false := by
  have hne := Text.decimal_ne_nil (n := n)
  by_cases hn : n = 0
  · subst hn
    rfl
  · simp [head?_decimal hn, hne]

/-- An integer is read back if what follows cannot be a part of it. -/
theorem readNumber_renderInt (i : Int) {rest : List Char} (h : Closes rest) :
    readNumber (renderInt i ++ rest) = some (some i, rest) := by
  have hread (n : Nat) : spanDigits (Text.decimal n ++ rest) = (Text.decimal n, rest) :=
    spanDigits_append (fun _ => Text.isDigit_of_mem_decimal) h
  have hparts := And.intro (readFraction_of_closes h) (readExponent_of_closes h)
  cases i with
  | ofNat n =>
    have hsign : ∀ cs, Text.decimal n ++ rest ≠ '-' :: cs := by
      obtain ⟨c, digits, hcons, hc⟩ := exists_decimal_eq_cons n
      rintro cs heq
      rw [hcons] at heq
      obtain ⟨rfl, -⟩ := List.cons.inj heq
      exact absurd hc (by decide)
    simp [renderInt, readNumber, hread, decimal_wellFormed, hparts, Text.ofDigitChars_decimal]
  | negSucc n =>
    simp [renderInt, readNumber, hread, decimal_wellFormed, hparts, Text.ofDigitChars_decimal,
      Int.negSucc_eq]

/-! ## Values -/

/-- A text is read as this value wherever it stands, and what follows is left. -/
structure Denotes (text : List Char) (value : Json) : Prop where
  starts : ∃ c cs, text = c :: cs ∧ isBlank c = false ∧ c ≠ ']'
  reads : ∀ (fuel : Nat) {rest : List Char}, 2 * text.length ≤ fuel → Closes rest →
    readValue fuel (text ++ rest) = some (value, rest)

theorem skipBlanks_cons {c : Char} (h : isBlank c = false) (cs : List Char) :
    skipBlanks (c :: cs) = c :: cs := by
  rw [skipBlanks, List.dropWhile_cons_of_neg (by simp [h])]

/-- A text that is read after the first step. -/
theorem denotes_of_step {c : Char} {cs : List Char} {value : Json} (hblank : isBlank c = false)
    (hclose : c ≠ ']')
    (hread : ∀ {fuel : Nat} {rest : List Char}, 2 * cs.length + 1 ≤ fuel → Closes rest →
      readValue (fuel + 1) (c :: (cs ++ rest)) = some (value, rest)) :
    Denotes (c :: cs) value where
  starts := ⟨c, cs, rfl, hblank, hclose⟩
  reads := by
    intro fuel rest hfuel hrest
    obtain ⟨fuel, rfl⟩ : ∃ m, fuel = m + 1 := ⟨fuel - 1, by grind⟩
    exact hread (by grind) hrest

theorem denotes_null : Denotes "null".toList .null :=
  denotes_of_step (by decide) (by decide) fun _ _ => rfl

theorem denotes_renderBool (b : Bool) : Denotes (renderBool b) (.bool b) := by
  cases b <;> exact denotes_of_step (by decide) (by decide) fun _ _ => rfl

theorem denotes_renderString (s : String) : Denotes (renderString s) (.string (some s)) := by
  refine denotes_of_step (by decide) (by decide) fun {fuel rest} _ _ => ?_
  have hinside : s.toList.flatMap escapeChar ++ ['"'] ++ rest
      = s.toList.flatMap escapeChar ++ '"' :: rest := by simp
  rw [List.append_eq, hinside, readValue.eq_def]
  simp only [skipBlanks_cons (show isBlank '"' = false by decide), readString_append, Option.map_some]

theorem exists_renderInt_eq_cons (i : Int) :
    ∃ c cs, renderInt i = c :: cs ∧ (c.isDigit = true ∨ c = '-') := by
  cases i with
  | ofNat n =>
    obtain ⟨c, cs, hcons, hc⟩ := exists_decimal_eq_cons n
    exact ⟨c, cs, hcons, .inl hc⟩
  | negSucc n => exact ⟨'-', _, rfl, .inr rfl⟩

theorem denotes_renderInt (i : Int) : Denotes (renderInt i) (.number (some i)) := by
  obtain ⟨c, cs, hcons, hc⟩ := exists_renderInt_eq_cons i
  -- No other value starts like a number.
  have hother : c ∉ [' ', '\n', '\t', '\r', ']', '"', '[', '\x7b', 'n', 't', 'f'] := by
    intro hmem
    have hothers : [' ', '\n', '\t', '\r', ']', '"', '[', '\x7b', 'n', 't', 'f'].all
      (fun d => !d.isDigit && d != '-') = true := rfl
    have hneither := List.all_eq_true.1 hothers c hmem
    rcases hc with hc | rfl
    · simp [hc] at hneither
    · exact nomatch hneither
  rw [hcons]
  refine denotes_of_step (by simp_all [isBlank]) (by simp_all) fun {fuel rest} _ hrest => ?_
  have hblank : isBlank c = false := by simp_all [isBlank]
  have hread := readNumber_renderInt i hrest
  rw [hcons, List.cons_append] at hread
  rw [readValue.eq_def, skipBlanks_cons hblank]
  split
  all_goals simp_all

/-! ## Lists and objects -/

theorem readItems_of_denotes {texts : List (List Char)} {items : List Json}
    (h : List.Forall₂ Denotes texts items) (hne : texts ≠ []) (fuel : Nat)
    (hfuel : 2 * ([','].intercalate texts).length + 1 ≤ fuel) (rest : List Char) :
    readItems fuel ([','].intercalate texts ++ ']' :: rest) = some (items, rest) := by
  induction h generalizing fuel with
  | nil => exact absurd rfl hne
  | @cons text item texts items htext htexts ih =>
    obtain ⟨fuel, rfl⟩ : ∃ m, fuel = m + 1 := ⟨fuel - 1, by omega⟩
    cases htexts with
    | nil =>
      rw [List.intercalate_singleton] at hfuel ⊢
      rw [readItems, htext.reads fuel (by omega) (closes_cons (by simp) rest)]
      simp [skipBlanks, isBlank]
    | cons hnext hlater =>
      rw [List.intercalate_cons_cons] at hfuel ⊢
      simp only [List.length_append, List.length_singleton] at hfuel
      have hlater := ih (by simp) fuel (by omega)
      rw [readItems, List.append_assoc, List.append_assoc, List.singleton_append,
        htext.reads fuel (by omega) (closes_cons (by simp) _)]
      simp [skipBlanks, isBlank, hlater]

/-- A list of texts in brackets. -/
theorem denotes_bracket {texts : List (List Char)} {items : List Json}
    (h : List.Forall₂ Denotes texts items) : Denotes (bracket '[' texts ']') (.array items) := by
  refine denotes_of_step (by decide) (by decide) fun {fuel rest} hfuel _ => ?_
  simp only [List.append_eq, List.length_append, List.length_singleton] at hfuel ⊢
  rw [List.append_assoc, List.singleton_append]
  cases h with
  | nil => rfl
  | @cons text item texts items htext htexts =>
    have hitems := readItems_of_denotes (.cons htext htexts) (by simp) fuel (by omega) rest
    obtain ⟨c, cs, hstart, hblank, hclose⟩ :
        ∃ c cs, [','].intercalate (text :: texts) = c :: cs ∧ isBlank c = false ∧ c ≠ ']' := by
      obtain ⟨c, cs, rfl, hc⟩ := htext.starts
      exact ⟨c, _, List.intercalate_cons_cons_left, hc⟩
    rw [hstart, List.cons_append] at hitems ⊢
    rw [readValue, skipBlanks_cons (by decide)]
    simp [skipBlanks_cons hblank, hclose, hitems]

/-- A text that reads as a field of an object: its name, a colon and its value. -/
def Field (text : List Char) (field : Option String × Json) : Prop :=
  ∃ name value, text = renderField name value ∧ field.1 = some name ∧ Denotes value field.2

theorem renderField_append (name : String) (value rest : List Char) :
    renderField name value ++ rest
      = '"' :: (name.toList.flatMap escapeChar ++ '"' :: ':' :: (value ++ rest)) := by
  simp [renderField, renderString]

theorem readFields_of_field {texts : List (List Char)} {fields : List (Option String × Json)}
    (h : List.Forall₂ Field texts fields) (hne : texts ≠ []) (fuel : Nat)
    (hfuel : 2 * ([','].intercalate texts).length + 1 ≤ fuel) (rest : List Char) :
    readFields fuel ([','].intercalate texts ++ '\x7d' :: rest) = some (fields, rest) := by
  induction h generalizing fuel with
  | nil => exact absurd rfl hne
  | @cons text field texts fields htext htexts ih =>
    obtain ⟨fuel, rfl⟩ : ∃ m, fuel = m + 1 := ⟨fuel - 1, by omega⟩
    obtain ⟨name, value, rfl, hname, hvalue⟩ := htext
    have hlength : value.length ≤ (renderField name value).length := by
      rw [renderField, List.length_append, List.length_cons]
      omega
    cases htexts with
    | nil =>
      rw [List.intercalate_singleton] at hfuel ⊢
      have hread := hvalue.reads fuel (by omega) (closes_cons (c := '\x7d') (by simp) rest)
      rw [renderField_append, readFields, skipBlanks_cons (by decide)]
      simp [readString_append, skipBlanks, isBlank, hread, ← hname]
    | @cons next _ later _ hnext hlater =>
      rw [List.intercalate_cons_cons] at hfuel ⊢
      simp only [List.length_append, List.length_singleton] at hfuel
      have hlater := ih (by simp) fuel (by omega)
      have hread := hvalue.reads fuel (by omega) (closes_cons (c := ',') (by simp)
        ([','].intercalate (next :: later) ++ '\x7d' :: rest))
      rw [List.append_assoc, List.append_assoc, List.singleton_append, renderField_append, readFields,
        skipBlanks_cons (by decide)]
      simp [readString_append, skipBlanks, isBlank, hread, hlater, ← hname]

/-- Fields in braces. -/
theorem denotes_brace {texts : List (List Char)} {fields : List (Option String × Json)}
    (h : List.Forall₂ Field texts fields) :
    Denotes (bracket '\x7b' texts '\x7d') (.object fields) := by
  refine denotes_of_step (by decide) (by decide) fun {fuel rest} hfuel _ => ?_
  simp only [List.append_eq, List.length_append, List.length_singleton] at hfuel ⊢
  rw [List.append_assoc, List.singleton_append]
  cases h with
  | nil => rfl
  | @cons text field texts fields htext htexts =>
    have hfields := readFields_of_field (.cons htext htexts) (by simp) fuel (by omega) rest
    obtain ⟨cs, hstart⟩ : ∃ cs, [','].intercalate (text :: texts) = '"' :: cs := by
      obtain ⟨name, value, rfl, -⟩ := htext
      exact ⟨_, List.intercalate_cons_cons_left⟩
    rw [hstart, List.cons_append] at hfields ⊢
    rw [readValue, skipBlanks_cons (by decide)]
    simp [skipBlanks_cons (show isBlank '"' = false by decide), hfields]

/-- The object with these members under these names, in this order. -/
def record (names : List String) (values : List Json) : Json := .object ((names.map some).zip values)

theorem denotes_record (names : List String) {texts : List (List Char)} {values : List Json}
    (h : List.Forall₂ Denotes texts values) :
    Denotes (bracket '\x7b' (List.zipWith renderField names texts) '\x7d') (record names values) := by
  refine denotes_brace ?_
  induction h generalizing names with
  | nil => simp
  | cons htext _ ih =>
    cases names with
    | nil => exact .nil
    | cons name names => exact .cons ⟨name, _, rfl, rfl, htext⟩ (ih names)

/-- A text on its own is the value it denotes. -/
theorem Denotes.parse? {text : List Char} {value : Json} (h : Denotes text value) :
    parse? text = some value := by
  have hread := h.reads (2 * text.length + 2) (by omega) closes_nil
  rw [List.append_nil] at hread
  rw [Json.parse?, hread]
  rfl

/-! ## Taking values apart -/

theorem mapM_eq_some_of_forall₂ {α β : Type} {f : α → Option β} {as : List α} {bs : List β}
    (h : List.Forall₂ (fun a b => f a = some b) as bs) : as.mapM f = some bs := by
  induction h with
  | nil => rfl
  | cons hhead _ ih => simp [hhead, ih]

/-- Where no name is repeated, each member is found under its own. -/
theorem forall₂_filter_zip {names : List String} {values : List Json} (hnames : names.Nodup)
    (hlength : names.length = values.length) :
    List.Forall₂ (fun name value =>
      ((names.map some).zip values).filter (fun field => field.1 = some name) = [(some name, value)])
      names values := by
  induction names generalizing values with
  | nil =>
    obtain rfl := List.length_eq_zero_iff.1 hlength.symm
    exact .nil
  | cons name names ih =>
    obtain ⟨value, values, rfl⟩ := List.exists_cons_of_length_eq_add_one hlength.symm
    obtain ⟨hname, hnames⟩ := List.nodup_cons.1 hnames
    have hrest : ((names.map some).zip values).filter (fun field => field.1 = some name) = [] := by
      refine List.filter_eq_nil_iff.2 fun field hfield => ?_
      obtain ⟨other, hother, hsome⟩ := List.mem_map.1 (List.of_mem_zip hfield).1
      have hne : other ≠ name := fun heq => hname (heq ▸ hother)
      simpa [← hsome] using hne
    have hothers := (List.forall₂_and_left names values).2
      ⟨fun _ h => h, ih hnames (by simpa using hlength)⟩
    refine .cons (by simp [hrest]) (hothers.imp fun other _ ⟨hmem, hfound⟩ => ?_)
    have hne : name ≠ other := fun heq => hname (heq ▸ hmem)
    simpa [hne] using hfound

/-- The members of a record are found in the order of their names. -/
theorem members?_record {names : List String} {values : List Json} (hnames : names.Nodup)
    (hlength : names.length = values.length) :
    members? names (record names values) = some (values.map some) := by
  have hall : ((names.map some).zip values).any (fun field => field.1.isNone) = false := by
    refine List.any_eq_false.2 fun field hfield => ?_
    obtain ⟨name, -, hname⟩ := List.mem_map.1 (List.of_mem_zip hfield).1
    simp [← hname]
  rw [record, members?, hall]
  refine mapM_eq_some_of_forall₂ (List.forall₂_map_right_iff.2 ?_)
  refine (forall₂_filter_zip hnames hlength).imp fun name value hfound => ?_
  simp only [hfound]

theorem lt_of_nat?_eq_some {bound n : Nat} {value : Json} (h : nat? bound value = some n) : n < bound := by
  rw [nat?.eq_def] at h
  split at h
  · obtain ⟨hn, heq⟩ := Option.ite_none_right_eq_some.1 h
    exact Option.some.inj heq ▸ hn
  · cases h

theorem le_of_int?_eq_some {low high i : Int} {value : Json} (h : int? low high value = some i) :
    low ≤ i ∧ i ≤ high := by
  rw [int?.eq_def] at h
  split at h
  · obtain ⟨hi, heq⟩ := Option.ite_none_right_eq_some.1 h
    exact Option.some.inj heq ▸ hi
  · cases h

/-- A value for a member that may be null was read from one. -/
theorem exists_of_optional?_eq_some {α : Type} {read : Json → Option α} {member : Option Json}
    {a : α} (h : optional? read member = some (some a)) : ∃ value, read value = some a := by
  cases member with
  | none => cases h
  | some value =>
    rw [optional?, nullable?.eq_def] at h
    split at h
    · cases h
    · exact ⟨value, by simpa using h⟩

/-! ## Meaning -/

/-- A text denotes a value that this reading takes for `a`. -/
def Means {α : Type} (read : Json → Option α) (text : List Char) (a : α) : Prop :=
  ∃ value, Denotes text value ∧ read value = some a

section Means

variable {α β : Type} {read : Json → Option α} {write : α → List Char}

theorem means_text (s : String) : Means text? (renderString s) s :=
  ⟨_, denotes_renderString s, rfl⟩

theorem means_bool (b : Bool) : Means bool? (renderBool b) b := ⟨_, denotes_renderBool b, rfl⟩

theorem means_int {low high i : Int} (h : low ≤ i ∧ i ≤ high) : Means (int? low high) (renderInt i) i :=
  ⟨_, denotes_renderInt i, if_pos h⟩

theorem means_nat {bound n : Nat} (h : n < bound) : Means (nat? bound) (Text.decimal n) n :=
  ⟨_, denotes_renderInt n, if_pos h⟩

theorem Means.map {text : List Char} {a : α} (h : Means read text a) (f : α → β) :
    Means (fun value => (read value).map f) text (f a) := by
  obtain ⟨value, hvalue, hread⟩ := h
  exact ⟨value, hvalue, congrArg (Option.map f) hread⟩

theorem means_list (as : List α) (h : ∀ a ∈ as, Means read (write a) a) :
    Means (list? read) (bracket '[' (as.map write) ']') as := by
  obtain ⟨values, hvalues⟩ : ∃ values, List.Forall₂ (fun a value =>
      Denotes (write a) value ∧ read value = some a) as values := by
    induction as with
    | nil => exact ⟨[], .nil⟩
    | cons a as ih =>
      obtain ⟨value, hvalue⟩ := h a List.mem_cons_self
      obtain ⟨values, hvalues⟩ := ih fun b hb => h b (List.mem_cons_of_mem _ hb)
      exact ⟨value :: values, .cons hvalue hvalues⟩
  refine ⟨.array values, denotes_bracket ?_, mapM_eq_some_of_forall₂ ?_⟩
  · exact List.forall₂_map_left_iff.2 (hvalues.imp fun _ _ => And.left)
  · exact (hvalues.imp fun _ _ => And.right).flip

/-- Null is kept apart from all that is written for a value, if the reading takes it for none. -/
theorem means_nullable (hnull : read .null = none) {a : Option α}
    (h : ∀ b ∈ a, Means read (write b) b) : Means (nullable? read) (renderOption write a) a := by
  cases a with
  | none => exact ⟨.null, denotes_null, rfl⟩
  | some a =>
    obtain ⟨value, hvalue, hread⟩ := h a rfl
    refine ⟨value, hvalue, ?_⟩
    rw [nullable?.eq_def]
    split
    next => exact nomatch hnull.symm.trans hread
    next => exact congrArg (Option.map some) hread

end Means

end Json

end Blackboard
