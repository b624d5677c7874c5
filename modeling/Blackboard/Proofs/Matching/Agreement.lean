import Blackboard.Proofs.Matching.Patterns

/-!
# Order, agreement and covering

The order of tuples, their agreement and the covering of one by another are defined apart, and each
goes through the fields in its own way. They fit together because all of them see a tuple through its
key and the values of its `Field`s: the order finds two tuples equal exactly if these are the same, and
so does agreement. Covering looks at the mark of reading as well. That aside, tuples that cover each
other agree.
-/

namespace Blackboard

namespace Key

variable {a b : Key}

theorem covers_self (k : Key) : k.covers k = true :=
  covers_iff.2 ⟨Nat.le_refl _, fun _ => rfl, fun _ _ h => h⟩

theorem ext_name? (hdepth : a.depth = b.depth) (hnames : ∀ i, a.name? i = b.name? i) : a = b := by
  obtain ⟨xs⟩ := a
  obtain ⟨ys⟩ := b
  refine congrArg mk (List.ext_getElem hdepth fun i hx hy => ?_)
  have hi := hnames i
  rwa [name?, name?, List.getElem?_eq_getElem hx, List.getElem?_eq_getElem hy] at hi

theorem covers_antisymm (h : a.covers b = true) (h' : b.covers a = true) : a = b := by
  obtain ⟨hle, -, hnames⟩ := covers_iff.1 h
  obtain ⟨hle', -, hnames'⟩ := covers_iff.1 h'
  refine ext_name? (Nat.le_antisymm hle hle') fun i => ?_
  ext name
  exact ⟨hnames i name, hnames' i name⟩

end Key

@[simp] theorem PayloadCase.length_fold (policy : PayloadCase) (bytes : List UInt8) :
    (policy.fold bytes).length = bytes.length := by
  cases policy with
  | insensitive => exact List.length_map _
  | sensitive => rfl

namespace Tuple

variable {policy : PayloadCase} {a b : Tuple}

/-- Two tuples look the same to the relations: they have one key, and each field holds one value as it
is compared. -/
def Alike (policy : PayloadCase) (a b : Tuple) : Prop :=
  a.key = b.key ∧ ∀ f, a.value? policy f = b.value? policy f

theorem agrees_iff_alike : a.agrees policy b = true ↔ a.Alike policy b := by
  simp only [agrees, Bool.and_eq_true, decide_eq_true_eq]
  constructor
  · rintro ⟨⟨⟨⟨⟨⟨⟨⟨⟨ho, hk⟩, hc⟩, hw⟩, hs⟩, hx⟩, he⟩, hn⟩, hm⟩, hp⟩
    refine ⟨hk, fun f => ?_⟩
    cases f
    all_goals assumption
  · rintro ⟨hk, hv⟩
    exact ⟨⟨⟨⟨⟨⟨⟨⟨⟨hv .owner, hk⟩, hv .creator⟩, hv .written⟩, hv .stamp⟩, hv .expiry⟩, hv .encoding⟩,
      hv .seqno⟩, hv .mimetype⟩, hv .payload⟩

/-- Payloads are compared by their lengths first. That decides nothing between equal payloads: folding
keeps the length. -/
theorem length_payload_of_folded (h : a.foldedPayload policy = b.foldedPayload policy) :
    a.payload.map List.length = b.payload.map List.length := by
  have hlength := congrArg (Option.map List.length) h
  simpa only [foldedPayload, Option.map_map, Function.comp_def, PayloadCase.length_fold] using hlength

theorem compare_eq_eq_iff_alike : compare policy a b = .eq ↔ a.Alike policy b := by
  simp only [compare, compareLex_eq_eq, compareOn, Std.LawfulEqCmp.compare_eq_iff_eq]
  constructor
  · rintro ⟨ho, hk, hw, hs, hx, -, hp, hm, he, hc, hn⟩
    refine ⟨hk, fun f => ?_⟩
    cases f
    all_goals assumption
  · rintro ⟨hk, hv⟩
    exact ⟨hv .owner, hk, hv .written, hv .stamp, hv .expiry, length_payload_of_folded (hv .payload),
      hv .payload, hv .mimetype, hv .encoding, hv .creator, hv .seqno⟩

theorem Alike.covers (h : a.Alike policy b) (hfresh : a.fresh = some true → b.fresh = some true) :
    a.covers policy b = true := by
  obtain ⟨hkey, hvalues⟩ := h
  exact covers_iff.2 ⟨hkey ▸ Key.covers_self a.key, fun f x hx => (hvalues f).symm.trans hx, hfresh⟩

theorem Alike.symm (h : a.Alike policy b) : b.Alike policy a :=
  ⟨h.1.symm, fun f => (h.2 f).symm⟩

theorem alike_of_covers (h : a.covers policy b = true) (h' : b.covers policy a = true) :
    a.Alike policy b := by
  obtain ⟨hkey, hvalues, -⟩ := covers_iff.1 h
  obtain ⟨hkey', hvalues', -⟩ := covers_iff.1 h'
  refine ⟨Key.covers_antisymm hkey hkey', fun f => ?_⟩
  ext x
  exact ⟨hvalues f x, hvalues' f x⟩

/-- The order is total but for tuples that agree. Two tuples with the same mark of reading agree
exactly if each covers the other. -/
theorem compare_total_up_to_agreement (policy : PayloadCase) (a b c : Tuple) :
    compare policy b a = (compare policy a b).swap ∧
    (compare policy a b ≠ .gt → compare policy b c ≠ .gt → compare policy a c ≠ .gt) ∧
    (compare policy a b = .eq ↔ a.agrees policy b = true) ∧
    ((a.fresh = some true ↔ b.fresh = some true) →
      (a.agrees policy b = true ↔ a.covers policy b = true ∧ b.covers policy a = true)) := by
  refine ⟨Std.OrientedCmp.eq_swap, fun hab hbc => ?_, ?_, fun hfresh => ?_⟩
  · have hab := Ordering.isLE_iff_ne_gt.2 hab
    have hbc := Ordering.isLE_iff_ne_gt.2 hbc
    exact Ordering.isLE_iff_ne_gt.1 (Std.TransCmp.isLE_trans hab hbc)
  · rw [compare_eq_eq_iff_alike, agrees_iff_alike]
  · rw [agrees_iff_alike]
    constructor
    · exact fun h => ⟨h.covers hfresh.1, h.symm.covers hfresh.2⟩
    · rintro ⟨h, h'⟩
      exact alike_of_covers h h'

/-- Values that differ in case agree, and cover each other, unless case counts. -/
theorem plainText_agrees_in_capitals :
    let a := plainText 1 ⟨[some "lamp"]⟩ "on"
    let b := { plainText 1 ⟨[some "lamp"]⟩ "ON" with mimetype := some "Text/Plain", appends := 3 }
    a.agrees .sensitive b = false ∧ compare .sensitive b a = .lt ∧
      compare .insensitive a b = .eq ∧
      a.covers .insensitive b = true ∧ b.covers .insensitive a = true := by
  intro a b
  have hagrees : a.agrees .insensitive b = true := by decide +kernel
  obtain ⟨-, -, hequal, hcovers⟩ := compare_total_up_to_agreement .insensitive a b a
  obtain ⟨hswap, -⟩ := compare_total_up_to_agreement .sensitive a b a
  have hgt : compare .sensitive a b = .gt := by decide +kernel
  refine ⟨by decide +kernel, ?_, hequal.2 hagrees, (hcovers Iff.rfl).1 hagrees⟩
  rw [hswap, hgt]
  rfl

end Tuple

end Blackboard
