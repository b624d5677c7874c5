import Blackboard.Key

/-!
# Keys in writing

A legible key is one that `Key.parse` gives back when it reads what `Key.render` wrote. A key made of
segments need not be legible: it may be too long, and a segment may be a star, which is read as a
wildcard.
-/

namespace Blackboard

namespace Key

/-- A key that can be read from its written form. -/
structure Legible (k : Key) : Prop where
  nonempty : k.segments ≠ []
  depth_le : k.depth ≤ maxDepth
  named : ∀ name, some name ∈ k.segments → isSegment name = true ∧ name.toList ≠ wildcard
  length_le : k.render.utf8ByteSize ≤ maxLength

variable {k : Key} {text : String}

/-! ## Segments -/

theorem renderSegment_readSegment (cs : List Char) : renderSegment (readSegment cs) = cs := by
  rw [readSegment]
  split
  next hstar => exact hstar.symm
  next => exact String.toList_ofList

theorem readSegment_renderSegment {segment : Option String}
    (h : ∀ name ∈ segment, name.toList ≠ wildcard) :
    readSegment (renderSegment segment) = segment := by
  cases segment with
  | none => exact if_pos rfl
  | some name =>
    rw [renderSegment, readSegment, if_neg (h name rfl), String.ofList_toList]

theorem isSegment_iff (name : String) :
    isSegment name = true ↔ name.toList ≠ [] ∧ separator ∉ name.toList := by
  simp [isSegment]

theorem renderSegment_spec {segment : Option String} (h : ∀ name ∈ segment, isSegment name = true) :
    renderSegment segment ≠ [] ∧ separator ∉ renderSegment segment := by
  cases segment with
  | none => decide
  | some name => exact (isSegment_iff name).1 (h name rfl)

/-! ## Whole keys -/

theorem toList_render (h : k.segments ≠ []) :
    k.render.toList = [separator].intercalate (k.segments.map renderSegment) := by
  have hany : ¬ k.isAny = true := by simpa [isAny] using h
  rw [render, if_neg hany, String.toList_ofList]

theorem ofSegments_eq_ok {segments : List (Option String)} : ofSegments segments = .ok k ↔
    k.segments = segments ∧ k.depth ≤ maxDepth ∧
      ∀ name, some name ∈ segments → isSegment name = true := by
  have hall : (segments.all fun s => s.all isSegment) = true ↔
      ∀ name, some name ∈ segments → isSegment name = true := by
    simp only [List.all_eq_true]
    constructor
    · exact fun h name hname => h (some name) hname
    · intro h segment hmem
      cases segment with
      | none => rfl
      | some name => exact h name hmem
  rw [ofSegments, ← hall]
  constructor
  · intro h
    split at h
    next => cases h
    next hle =>
      split at h
      next hsegments =>
        cases h
        exact ⟨rfl, Nat.le_of_not_lt hle, hsegments⟩
      next => cases h
  · rintro ⟨rfl, hle, hsegments⟩
    have hnot : ¬ maxDepth < k.segments.length := Nat.not_lt_of_le hle
    rw [if_neg hnot, if_pos hsegments]

theorem parse_eq_ok (h : parse text = .ok k) : text.utf8ByteSize ≤ maxLength ∧
    ofSegments ((text.toList.splitOn separator).map readSegment) = .ok k := by
  rw [parse] at h
  split at h
  next => cases h
  next =>
    split at h
    next => cases h
    next hle =>
      dsimp only at h
      split at h
      next => cases h
      next => exact ⟨Nat.le_of_not_lt hle, h⟩

theorem toList_ne_nil_of_parse (h : parse text = .ok k) : text.toList ≠ [] := by
  intro hnil
  obtain rfl : text = "" := String.toList_eq_nil_iff.1 hnil
  cases h

/-- A text that is read is the written form of the key. -/
theorem render_of_parse (h : parse text = .ok k) : k.render = text := by
  obtain ⟨-, hok⟩ := parse_eq_ok h
  obtain ⟨hsegments, -, -⟩ := ofSegments_eq_ok.1 hok
  have hne : k.segments ≠ [] := by simp [hsegments]
  apply String.toList_inj.1
  rw [toList_render hne, hsegments, List.map_map]
  have hsame : renderSegment ∘ readSegment = id := funext renderSegment_readSegment
  rw [hsame, List.map_id, List.intercalate_splitOn]

theorem legible_of_parse (h : parse text = .ok k) : k.Legible := by
  obtain ⟨hle, hok⟩ := parse_eq_ok h
  obtain ⟨hsegments, hdepth, hnames⟩ := ofSegments_eq_ok.1 hok
  refine ⟨by simp [hsegments], hdepth, fun name hname => ?_, by rwa [render_of_parse h]⟩
  rw [hsegments] at hname
  refine ⟨hnames name hname, fun hstar => ?_⟩
  -- A segment that is read as a name was not written as a star.
  obtain ⟨cs, -, hread⟩ := List.mem_map.1 hname
  have hcs : cs = wildcard := by
    rw [← renderSegment_readSegment cs, hread]
    exact hstar
  rw [hcs] at hread
  cases hread

theorem parse_render (h : k.Legible) : parse k.render = .ok k := by
  have hspec : ∀ part ∈ k.segments.map renderSegment, part ≠ [] ∧ separator ∉ part := by
    intro part hpart
    obtain ⟨segment, hmem, rfl⟩ := List.mem_map.1 hpart
    apply renderSegment_spec
    rintro name rfl
    exact (h.named name hmem).1
  have hsplit : k.render.toList.splitOn separator = k.segments.map renderSegment := by
    rw [toList_render h.nonempty]
    exact List.splitOn_intercalate _ (fun part hpart => (hspec part hpart).2)
      (by simpa using h.nonempty)
  have hread : (k.segments.map renderSegment).map readSegment = k.segments := by
    rw [List.map_map]
    refine (List.map_congr_left fun segment hmem => ?_).trans (List.map_id _)
    apply readSegment_renderSegment
    rintro name rfl
    exact (h.named name hmem).2
  have hnonempty : ¬ k.render.isEmpty = true := by
    intro hempty
    rw [String.isEmpty_iff] at hempty
    rw [hempty] at hsplit
    have hpart : [] ∈ k.segments.map renderSegment := hsplit ▸ List.mem_singleton.2 rfl
    exact (hspec [] hpart).1 rfl
  have hparts : ¬ (k.segments.map renderSegment).any List.isEmpty = true := by
    simp only [List.any_eq_true, not_exists, not_and, List.isEmpty_iff]
    exact fun part hpart => (hspec part hpart).1
  rw [parse, if_neg hnonempty, if_neg (Nat.not_lt_of_le h.length_le)]
  dsimp only
  rw [hsplit, if_neg hparts, hread]
  exact ofSegments_eq_ok.2 ⟨rfl, h.depth_le, fun name hmem => (h.named name hmem).1⟩

/-! ## Reading and writing -/

theorem parse_eq_ok_iff : parse text = .ok k ↔ k.Legible ∧ k.render = text := by
  constructor
  · exact fun h => ⟨legible_of_parse h, render_of_parse h⟩
  · rintro ⟨h, rfl⟩
    exact parse_render h

theorem parse_injective {other : String} (h : parse text = .ok k) (h' : parse other = .ok k) :
    text = other :=
  (render_of_parse h).symm.trans (render_of_parse h')

theorem isSegment_and_ne_wildcard_iff (name : String) :
    isSegment name = true ∧ name.toList ≠ wildcard ↔
      name ≠ "" ∧ '.' ∉ name.toList ∧ name ≠ "*" := by
  have hempty : name.toList ≠ [] ↔ name ≠ "" := not_congr String.toList_eq_nil_iff
  have hstar : name.toList ≠ wildcard ↔ name ≠ "*" := not_congr (@String.toList_inj name "*")
  rw [isSegment_iff, hempty, hstar, and_assoc]
  rfl

theorem legible_iff : k.Legible ↔ 1 ≤ k.depth ∧ k.depth ≤ maxDepth ∧
    (∀ segment ∈ k.segments, segment = none ∨
      ∃ name, segment = some name ∧ name ≠ "" ∧ '.' ∉ name.toList ∧ name ≠ "*") ∧
    k.render.utf8ByteSize ≤ maxLength := by
  have hnamed : (∀ name, some name ∈ k.segments → isSegment name = true ∧ name.toList ≠ wildcard) ↔
      ∀ segment ∈ k.segments, segment = none ∨
        ∃ name, segment = some name ∧ name ≠ "" ∧ '.' ∉ name.toList ∧ name ≠ "*" := by
    simp only [isSegment_and_ne_wildcard_iff]
    constructor
    · intro h segment hmem
      cases segment with
      | none => exact .inl rfl
      | some name => exact .inr ⟨name, rfl, h name hmem⟩
    · intro h name hmem
      obtain hnone | ⟨other, heq, hother⟩ := h (some name) hmem
      · cases hnone
      · cases heq
        exact hother
  have hdepth : k.segments ≠ [] ↔ 1 ≤ k.depth := List.length_pos_iff.symm
  rw [← hnamed, ← hdepth]
  exact ⟨fun h => ⟨h.nonempty, h.depth_le, h.named, h.length_le⟩,
    fun ⟨hne, hle, hnames, hlength⟩ => ⟨hne, hle, hnames, hlength⟩⟩

/-- A text is read as a key exactly if it is the written form of the key, has at most 128 octets, and
the key has one to seven segments, each of them a wildcard or a name that is neither empty nor a star
and holds no separator. So no two texts are read as one key, and what is read is written as it was. -/
theorem parse_inverts_render :
    (∀ (text : String) (k : Key), parse text = .ok k ↔ (1 ≤ k.depth ∧ k.depth ≤ 7) ∧
      (∀ segment ∈ k.segments, segment = none ∨
        ∃ name, segment = some name ∧ name ≠ "" ∧ '.' ∉ name.toList ∧ name ≠ "*") ∧
      k.render = text ∧ text.utf8ByteSize ≤ 128) ∧
    (∀ (a b : String) (k : Key), parse a = .ok k → parse b = .ok k → a = b) ∧
    (∀ (text : String) (k : Key), parse text = .ok k → k.render = text) := by
  refine ⟨fun text k => ?_, fun a b k => parse_injective, fun text k => render_of_parse⟩
  rw [parse_eq_ok_iff, legible_iff]
  constructor
  · rintro ⟨⟨hpos, hle, hnames, hlength⟩, rfl⟩
    exact ⟨⟨hpos, hle⟩, hnames, rfl, hlength⟩
  · rintro ⟨⟨hpos, hle⟩, hnames, rfl, hlength⟩
    exact ⟨⟨hpos, hle, hnames, hlength⟩, rfl⟩

end Key

end Blackboard
