import Blackboard.Tuple.Json
import Blackboard.Proofs.Json

/-!
# Tuples kept as JSON

A tuple whose numbers fit is read back from its own notation in every field, and no text is read as a
tuple whose numbers do not fit. Wildcards are written as null, and what is written for a value is never
null, so the two stay apart.
-/

namespace Blackboard

open Json

/-! ## Values that fit their notation -/

/-- The seconds have 64 bits and a sign, the microseconds 32 bits. -/
structure Timestamp.Fits (t : Timestamp) : Prop where
  secs : Int64.minValue.toInt ≤ t.secs ∧ t.secs ≤ Int64.maxValue.toInt
  usecs : t.usecs < UInt32.size

def Expiry.Fits (e : Expiry) : Prop := ∀ time ∈ e.time?, time.Fits

/-- The times fit, the sequence number has 64 bits and the number of appends 32. -/
structure Tuple.Fits (t : Tuple) : Prop where
  written : ∀ time ∈ t.written, time.Fits
  stamp : ∀ time ∈ t.stamp, time.Fits
  expiry : ∀ e ∈ t.expiry, e.Fits
  seqno : ∀ n ∈ t.seqno, n < UInt64.size
  appends : t.appends < UInt32.size

/-! ## Reading what was written -/

theorem means_owner (o : Owner) : Means Owner.ofJson? (renderNat o.toNat) o := by
  have h := (means_nat o.toNat_lt_size).map UInt32.ofNat
  rwa [UInt32.ofNat_toNat] at h

theorem means_octet (b : UInt8) : Means octetOfJson? (renderNat b.toNat) b := by
  have h := (means_nat b.toNat_lt_size).map UInt8.ofNat
  rwa [UInt8.ofNat_toNat] at h

theorem means_key (k : Key) : Means Key.ofJson? k.toJson k := by
  obtain ⟨segments, hsegments, hread⟩ : Means (list? (nullable? text?))
      (bracket '[' (k.segments.map (renderOption renderString)) ']') k.segments :=
    means_list _ fun segment _ => means_nullable rfl fun name _ => means_text name
  refine ⟨_, denotes_record ["segments"] (.cons hsegments .nil), ?_⟩
  rw [Key.ofJson?, members?_record (by decide) rfl]
  simp [hread]

theorem means_timestamp {t : Timestamp} (h : t.Fits) : Means Timestamp.ofJson? t.toJson t := by
  obtain ⟨secs, hsecs, hreadSecs⟩ := means_int h.secs
  obtain ⟨usecs, husecs, hreadUsecs⟩ := means_nat h.usecs
  refine ⟨_, denotes_record ["secs", "usecs"] (.cons hsecs (.cons husecs .nil)), ?_⟩
  rw [Timestamp.ofJson?, members?_record (by decide) rfl]
  simp only [List.map_cons, List.map_nil, Option.bind_eq_bind, Option.bind_some, hreadSecs, hreadUsecs]
  rfl

theorem means_expiry {e : Expiry} (h : e.Fits) : Means Expiry.ofJson? e.toJson e := by
  cases e with
  | never => exact ⟨_, denotes_renderString "Never", rfl⟩
  | immediately => exact ⟨_, denotes_renderString "Immediately", rfl⟩
  | dueAt time =>
    obtain ⟨value, hvalue, hread⟩ := means_timestamp (h time rfl)
    exact ⟨_, denotes_record ["At"] (.cons hvalue .nil), congrArg (Option.map Expiry.dueAt) hread⟩

theorem means_encoding (e : Encoding) : Means Encoding.ofJson? (renderString e.word) e :=
  ⟨_, denotes_renderString e.word, by cases e <;> rfl⟩

theorem means_tuple {t : Tuple} (h : t.Fits) : Means Tuple.ofValue? t.toJson t := by
  obtain ⟨owner, howner, hreadOwner⟩ := means_nullable (a := t.owner) rfl fun o _ => means_owner o
  obtain ⟨key, hkey, hreadKey⟩ := means_key t.key
  obtain ⟨creator, hcreator, hreadCreator⟩ :=
    means_nullable (a := t.creator) rfl fun o _ => means_owner o
  obtain ⟨written, hwritten, hreadWritten⟩ :=
    means_nullable rfl fun time htime => means_timestamp (h.written time htime)
  obtain ⟨stamp, hstamp, hreadStamp⟩ :=
    means_nullable rfl fun time htime => means_timestamp (h.stamp time htime)
  obtain ⟨expiry, hexpiry, hreadExpiry⟩ :=
    means_nullable rfl fun e he => means_expiry (h.expiry e he)
  obtain ⟨payload, hpayload, hreadPayload⟩ :=
    means_nullable (a := t.payload) rfl fun bytes _ => means_list bytes fun b _ => means_octet b
  obtain ⟨mimetype, hmimetype, hreadMimetype⟩ :=
    means_nullable (a := t.mimetype) rfl fun s _ => means_text s
  obtain ⟨encoding, hencoding, hreadEncoding⟩ :=
    means_nullable (a := t.encoding) rfl fun e _ => means_encoding e
  obtain ⟨seqno, hseqno, hreadSeqno⟩ := means_nullable rfl fun n hn => means_nat (h.seqno n hn)
  obtain ⟨appends, happends, hreadAppends⟩ := means_nat h.appends
  obtain ⟨fresh, hfresh, hreadFresh⟩ := means_nullable (a := t.fresh) rfl fun b _ => means_bool b
  refine ⟨_, denotes_record Tuple.fieldNames <| .cons howner <| .cons hkey <| .cons hcreator <|
    .cons hwritten <| .cons hstamp <| .cons hexpiry <| .cons hpayload <| .cons hmimetype <|
    .cons hencoding <| .cons hseqno <| .cons happends <| .cons hfresh .nil, ?_⟩
  rw [Tuple.ofValue?]
  refine Option.bind_eq_some_iff.2 ⟨_, members?_record (by decide) rfl, ?_⟩
  refine Option.bind_eq_some_iff.2 ⟨_, hreadOwner, ?_⟩
  refine Option.bind_eq_some_iff.2 ⟨_, hreadKey, ?_⟩
  refine Option.bind_eq_some_iff.2 ⟨_, hreadCreator, ?_⟩
  refine Option.bind_eq_some_iff.2 ⟨_, hreadWritten, ?_⟩
  refine Option.bind_eq_some_iff.2 ⟨_, hreadStamp, ?_⟩
  refine Option.bind_eq_some_iff.2 ⟨_, hreadExpiry, ?_⟩
  refine Option.bind_eq_some_iff.2 ⟨_, hreadPayload, ?_⟩
  refine Option.bind_eq_some_iff.2 ⟨_, hreadMimetype, ?_⟩
  refine Option.bind_eq_some_iff.2 ⟨_, hreadEncoding, ?_⟩
  refine Option.bind_eq_some_iff.2 ⟨_, hreadSeqno, ?_⟩
  refine Option.bind_eq_some_iff.2 ⟨_, hreadAppends, ?_⟩
  exact Option.bind_eq_some_iff.2 ⟨_, hreadFresh, rfl⟩

/-! ## What is read -/

theorem Timestamp.fits_of_ofJson? {value : Json} {t : Timestamp} (h : Timestamp.ofJson? value = some t) :
    t.Fits := by
  rw [Timestamp.ofJson?] at h
  obtain ⟨members, -, h⟩ := Option.bind_eq_some_iff.1 h
  split at h
  · obtain ⟨secs, hsecs, h⟩ := Option.bind_eq_some_iff.1 h
    obtain ⟨usecs, husecs, h⟩ := Option.bind_eq_some_iff.1 h
    obtain rfl := Option.some.inj h
    exact ⟨le_of_int?_eq_some hsecs, lt_of_nat?_eq_some husecs⟩
  · cases h

theorem Expiry.fits_of_ofJson? {value : Json} {e : Expiry} (h : Expiry.ofJson? value = some e) :
    e.Fits := by
  rw [Expiry.ofJson?.eq_def] at h
  split at h
  · obtain ⟨time, htime, rfl⟩ := Option.map_eq_some_iff.1 h
    rintro _ ⟨⟩
    exact Timestamp.fits_of_ofJson? htime
  · split at h <;> cases h <;> exact nofun

theorem Tuple.fits_of_ofValue? {value : Json} {t : Tuple} (h : Tuple.ofValue? value = some t) :
    t.Fits := by
  rw [Tuple.ofValue?] at h
  obtain ⟨members, -, h⟩ := Option.bind_eq_some_iff.1 h
  split at h
  · obtain ⟨owner, -, h⟩ := Option.bind_eq_some_iff.1 h
    obtain ⟨key, -, h⟩ := Option.bind_eq_some_iff.1 h
    obtain ⟨creator, -, h⟩ := Option.bind_eq_some_iff.1 h
    obtain ⟨written, hwritten, h⟩ := Option.bind_eq_some_iff.1 h
    obtain ⟨stamp, hstamp, h⟩ := Option.bind_eq_some_iff.1 h
    obtain ⟨expiry, hexpiry, h⟩ := Option.bind_eq_some_iff.1 h
    obtain ⟨payload, -, h⟩ := Option.bind_eq_some_iff.1 h
    obtain ⟨mimetype, -, h⟩ := Option.bind_eq_some_iff.1 h
    obtain ⟨encoding, -, h⟩ := Option.bind_eq_some_iff.1 h
    obtain ⟨seqno, hseqno, h⟩ := Option.bind_eq_some_iff.1 h
    obtain ⟨appends, fresh, happends, rfl⟩ : ∃ appends fresh, appends < UInt32.size ∧
        t = ⟨owner, key, creator, written, stamp, expiry, payload, mimetype, encoding, seqno, appends,
          fresh⟩ := by
      split at h
      · obtain ⟨fresh, -, h⟩ := Option.bind_eq_some_iff.1 ((Option.bind_some ..).symm.trans h)
        exact ⟨0, fresh, by decide, (Option.some.inj h).symm⟩
      · obtain ⟨appends, happends, h⟩ := Option.bind_eq_some_iff.1 h
        obtain ⟨fresh, -, h⟩ := Option.bind_eq_some_iff.1 h
        exact ⟨appends, fresh, lt_of_nat?_eq_some happends, (Option.some.inj h).symm⟩
    refine ⟨?_, ?_, ?_, ?_, happends⟩
    · rintro time rfl
      obtain ⟨_, htime⟩ := exists_of_optional?_eq_some hwritten
      exact Timestamp.fits_of_ofJson? htime
    · rintro time rfl
      obtain ⟨_, htime⟩ := exists_of_optional?_eq_some hstamp
      exact Timestamp.fits_of_ofJson? htime
    · rintro e rfl
      obtain ⟨_, he⟩ := exists_of_optional?_eq_some hexpiry
      exact Expiry.fits_of_ofJson? he
    · rintro n rfl
      obtain ⟨_, hn⟩ := exists_of_optional?_eq_some hseqno
      exact lt_of_nat?_eq_some hn
  · cases h

namespace Tuple

/-- A tuple is read back from its own notation, the same in every field, exactly if its numbers fit. -/
theorem toJson_read_back_iff (t : Tuple) : ofJson? t.toJson = some t ↔ t.Fits := by
  constructor
  · intro h
    obtain ⟨_, -, hvalue⟩ := Option.bind_eq_some_iff.1 h
    exact fits_of_ofValue? hvalue
  · intro h
    obtain ⟨value, hvalue, hread⟩ := means_tuple h
    rw [ofJson?, hvalue.parse?, Option.bind_some, hread]

/-- A pattern with wildcards, with numbers at their bounds and with texts that need escapes. -/
def awkward : Tuple where
  owner := none
  key := ⟨[some "\"\\\x7d", none, some "", some "a.b\x01\x1f\t", some "null", some "𝄞é\x7f"]⟩
  creator := some 4294967295
  written := some ⟨Int64.minValue.toInt, 4294967295⟩
  stamp := none
  expiry := some (.dueAt ⟨Int64.maxValue.toInt, 0⟩)
  payload := some [0, 34, 255]
  mimetype := some ""
  encoding := some .unspecified
  seqno := some 18446744073709551615
  appends := 0
  fresh := none

theorem fits_awkward : awkward.Fits where
  written := by
    rintro _ ⟨⟩
    exact ⟨by decide, by decide⟩
  stamp := nofun
  expiry := by
    rintro _ ⟨⟩ _ ⟨⟩
    exact ⟨by decide, by decide⟩
  seqno := by
    rintro _ ⟨⟩
    decide
  appends := by decide

theorem awkward_read_back : awkward.Fits ∧ ofJson? awkward.toJson = some awkward :=
  ⟨fits_awkward, (toJson_read_back_iff awkward).2 fits_awkward⟩

end Tuple

end Blackboard
