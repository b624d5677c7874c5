/-!
# Sorted tables

A finite map kept as a list of entries in strictly increasing key order. The order is part of the
type, so a table has one representation: two tables that answer every look-up alike are equal, and
walking a table always visits its keys in the same order.

Main statements: `get?_insert`, `get?_erase`, `get?_mapValues` and `Table.ext_get?`.
-/

namespace Blackboard

/-- A finite map whose entries are listed in strictly increasing key order. -/
structure Table (κ : Type) (ν : Type) [Ord κ] where
  entries : List (κ × ν)
  sorted : entries.Pairwise fun a b => compare a.1 b.1 = .lt

namespace Table

variable {κ ν : Type}

/-! ## Entry lists -/

/-- Puts a value under a key, in place of the one it had. -/
def insertEntry [Ord κ] (key : κ) (value : ν) : List (κ × ν) → List (κ × ν)
  | [] => [(key, value)]
  | (k, v) :: rest =>
    match compare key k with
    | .lt => (key, value) :: (k, v) :: rest
    | .eq => (key, value) :: rest
    | .gt => (k, v) :: insertEntry key value rest

def findEntry [Ord κ] (key : κ) : List (κ × ν) → Option ν
  | [] => none
  | (k, v) :: rest => if compare key k = .eq then some v else findEntry key rest

theorem mem_insertEntry [Ord κ] {key : κ} {value : ν} {e : κ × ν} {entries : List (κ × ν)}
    (h : e ∈ insertEntry key value entries) : e = (key, value) ∨ e ∈ entries := by
  induction entries with
  | nil => simpa [insertEntry] using h
  | cons head rest ih =>
    obtain ⟨k, v⟩ := head
    rw [insertEntry] at h
    split at h
    · simpa using h
    · rcases List.mem_cons.1 h with rfl | hr
      · exact .inl rfl
      · exact .inr (List.mem_cons_of_mem _ hr)
    · rcases List.mem_cons.1 h with rfl | hr
      · exact .inr List.mem_cons_self
      · exact (ih hr).imp_right (List.mem_cons_of_mem _)

theorem sorted_insertEntry [Ord κ] [Std.TransOrd κ] (key : κ) (value : ν)
    {entries : List (κ × ν)} (h : entries.Pairwise fun a b => compare a.1 b.1 = .lt) :
    (insertEntry key value entries).Pairwise fun a b => compare a.1 b.1 = .lt := by
  induction entries with
  | nil => simp [insertEntry]
  | cons head rest ih =>
    obtain ⟨k, v⟩ := head
    obtain ⟨hhead, hrest⟩ := List.pairwise_cons.1 h
    rw [insertEntry]
    split
    next hlt =>
      refine List.pairwise_cons.2 ⟨fun e he => ?_, h⟩
      rcases List.mem_cons.1 he with rfl | he
      · exact hlt
      · exact Std.TransCmp.lt_trans hlt (hhead e he)
    next heq =>
      refine List.pairwise_cons.2 ⟨fun e he => ?_, hrest⟩
      exact (Std.TransCmp.congr_left heq).trans (hhead e he)
    next hgt =>
      refine List.pairwise_cons.2 ⟨fun e he => ?_, ih hrest⟩
      rcases mem_insertEntry he with rfl | he
      · exact Std.OrientedCmp.gt_iff_lt.1 hgt
      · exact hhead e he

theorem findEntry_insertEntry [Ord κ] [Std.TransOrd κ] [Std.LawfulEqOrd κ] [DecidableEq κ]
    (key other : κ) (value : ν) (entries : List (κ × ν)) :
    findEntry other (insertEntry key value entries)
      = if other = key then some value else findEntry other entries := by
  induction entries with
  | nil => simp [insertEntry, findEntry, Std.LawfulEqCmp.compare_eq_iff_eq]
  | cons head rest ih =>
    obtain ⟨k, v⟩ := head
    rw [insertEntry]
    split
    next => simp [findEntry, Std.LawfulEqCmp.compare_eq_iff_eq]
    next heq =>
      obtain rfl := Std.LawfulEqCmp.compare_eq_iff_eq.1 heq
      by_cases h : other = key <;> simp [findEntry, Std.LawfulEqCmp.compare_eq_iff_eq, h]
    next hgt =>
      have hne : k ≠ key := by
        rintro rfl
        simp [Std.ReflCmp.compare_self] at hgt
      by_cases h : other = k
      · subst h
        simp [findEntry, hne]
      · simp [findEntry, Std.LawfulEqCmp.compare_eq_iff_eq, h, ih]

/-! ## Tables -/

def empty [Ord κ] : Table κ ν := ⟨[], .nil⟩

instance [Ord κ] : Inhabited (Table κ ν) := ⟨empty⟩

def get? [Ord κ] (t : Table κ ν) (key : κ) : Option ν := findEntry key t.entries

def contains [Ord κ] (t : Table κ ν) (key : κ) : Bool := (t.get? key).isSome

/-- Puts a value under a key, in place of the one it had. -/
def insert [Ord κ] [Std.TransOrd κ] (t : Table κ ν) (key : κ) (value : ν) : Table κ ν :=
  ⟨insertEntry key value t.entries, sorted_insertEntry key value t.sorted⟩

def erase [Ord κ] (t : Table κ ν) (key : κ) : Table κ ν :=
  ⟨t.entries.filter fun e => compare key e.1 != .eq, t.sorted.filter _⟩

def mapValues [Ord κ] (t : Table κ ν) (f : ν → ν) : Table κ ν :=
  ⟨t.entries.map fun e => (e.1, f e.2), t.sorted.map _ fun _ _ h => h⟩

def keys [Ord κ] (t : Table κ ν) : List κ := t.entries.map (·.1)

def values [Ord κ] (t : Table κ ν) : List ν := t.entries.map (·.2)

def size [Ord κ] (t : Table κ ν) : Nat := t.entries.length

def isEmpty [Ord κ] (t : Table κ ν) : Bool := t.entries.isEmpty

@[simp] theorem get?_empty [Ord κ] (key : κ) : (empty : Table κ ν).get? key = none := rfl

theorem get?_insert [Ord κ] [Std.TransOrd κ] [Std.LawfulEqOrd κ] [DecidableEq κ]
    (t : Table κ ν) (key other : κ) (value : ν) :
    (t.insert key value).get? other = if other = key then some value else t.get? other :=
  findEntry_insertEntry key other value t.entries

@[simp] theorem get?_insert_self [Ord κ] [Std.TransOrd κ] [Std.LawfulEqOrd κ] [DecidableEq κ]
    (t : Table κ ν) (key : κ) (value : ν) : (t.insert key value).get? key = some value := by
  simp [get?_insert]

theorem get?_erase [Ord κ] [Std.TransOrd κ] [Std.LawfulEqOrd κ] [DecidableEq κ]
    (t : Table κ ν) (key other : κ) :
    (t.erase key).get? other = if other = key then none else t.get? other := by
  obtain ⟨entries, _⟩ := t
  simp only [get?, erase]
  induction entries with
  | nil => simp [findEntry]
  | cons head rest ih =>
    obtain ⟨k, v⟩ := head
    rename_i hsorted
    have ih := ih (List.pairwise_cons.1 hsorted).2
    by_cases hk : key = k
    · subst hk
      by_cases h : other = key <;>
        simp_all [findEntry, Std.ReflCmp.compare_self, Std.LawfulEqCmp.compare_eq_iff_eq]
    · by_cases h : other = k
      · subst h
        simp [findEntry, Std.LawfulEqCmp.compare_eq_iff_eq, hk, Ne.symm hk]
      · simp [findEntry, Std.LawfulEqCmp.compare_eq_iff_eq, hk, h, ih]

theorem get?_mapValues [Ord κ] (t : Table κ ν) (f : ν → ν) (key : κ) :
    (t.mapValues f).get? key = (t.get? key).map f := by
  obtain ⟨entries, hsorted⟩ := t
  simp only [get?, mapValues]
  clear hsorted
  induction entries with
  | nil => rfl
  | cons head rest ih => by_cases h : compare key head.1 = .eq <;> simp [findEntry, h, ih]

@[simp] theorem keys_mapValues [Ord κ] (t : Table κ ν) (f : ν → ν) :
    (t.mapValues f).keys = t.keys := by
  simp [keys, mapValues]

theorem mem_entries_iff [Ord κ] [Std.TransOrd κ] [Std.LawfulEqOrd κ] (t : Table κ ν) (key : κ)
    (value : ν) : (key, value) ∈ t.entries ↔ t.get? key = some value := by
  obtain ⟨entries, hsorted⟩ := t
  simp only [get?]
  induction entries with
  | nil => simp [findEntry]
  | cons head rest ih =>
    obtain ⟨k, v⟩ := head
    obtain ⟨hhead, hrest⟩ := List.pairwise_cons.1 hsorted
    rw [List.mem_cons, findEntry, ih hrest]
    by_cases h : compare key k = .eq
    · obtain rfl := Std.LawfulEqCmp.compare_eq_iff_eq.1 h
      have hnone : findEntry key rest ≠ some value := by
        intro hfind
        have := hhead _ ((ih hrest).2 hfind)
        simp [Std.ReflCmp.compare_self] at this
      simp [Std.ReflCmp.compare_self, hnone, eq_comm]
    · have hne : key ≠ k := fun heq => h (Std.LawfulEqCmp.compare_eq_iff_eq.2 heq)
      simp [h, hne]

theorem mem_values_iff [Ord κ] [Std.TransOrd κ] [Std.LawfulEqOrd κ] (t : Table κ ν) (value : ν) :
    value ∈ t.values ↔ ∃ key, t.get? key = some value := by
  simp only [values, List.mem_map]
  constructor
  · rintro ⟨⟨k, v⟩, he, rfl⟩
    exact ⟨k, (t.mem_entries_iff k v).1 he⟩
  · rintro ⟨k, hk⟩
    exact ⟨(k, value), (t.mem_entries_iff k value).2 hk, rfl⟩

theorem mem_keys_iff [Ord κ] [Std.TransOrd κ] [Std.LawfulEqOrd κ] (t : Table κ ν) (key : κ) :
    key ∈ t.keys ↔ t.contains key = true := by
  simp only [keys, contains, List.mem_map, Option.isSome_iff_exists]
  constructor
  · rintro ⟨⟨k, v⟩, he, rfl⟩
    exact ⟨v, (t.mem_entries_iff k v).1 he⟩
  · rintro ⟨v, hv⟩
    exact ⟨(key, v), (t.mem_entries_iff key v).2 hv, rfl⟩

theorem mem_keys_iff_exists [Ord κ] [Std.TransOrd κ] [Std.LawfulEqOrd κ] (t : Table κ ν) (key : κ) :
    key ∈ t.keys ↔ ∃ value, t.get? key = some value := by
  rw [mem_keys_iff, contains, Option.isSome_iff_exists]

theorem nodup_keys [Ord κ] [Std.TransOrd κ] (t : Table κ ν) : t.keys.Nodup := by
  refine List.pairwise_map.2 (t.sorted.imp fun {a b} hlt heq => ?_)
  simp [heq, Std.ReflCmp.compare_self] at hlt

theorem length_keys [Ord κ] (t : Table κ ν) : t.keys.length = t.size := List.length_map _

theorem isEmpty_of_get? [Ord κ] [Std.TransOrd κ] [Std.LawfulEqOrd κ] {t : Table κ ν}
    (h : ∀ key, t.get? key = none) : t.isEmpty = true := by
  refine List.isEmpty_iff.2 (List.eq_nil_iff_forall_not_mem.2 fun ⟨k, v⟩ he => ?_)
  exact nomatch (h k).symm.trans ((t.mem_entries_iff k v).1 he)

/-- Strictly sorted lists with the same members are equal. -/
theorem eq_of_mem_iff {α : Type} {cmp : α → α → Ordering} [Std.TransCmp cmp] {xs ys : List α}
    (hx : xs.Pairwise fun a b => cmp a b = .lt) (hy : ys.Pairwise fun a b => cmp a b = .lt)
    (h : ∀ a, a ∈ xs ↔ a ∈ ys) : xs = ys := by
  induction xs generalizing ys with
  | nil =>
    cases ys with
    | nil => rfl
    | cons y ys => exact absurd ((h y).2 List.mem_cons_self) List.not_mem_nil
  | cons x xs ih =>
    cases ys with
    | nil => exact absurd ((h x).1 List.mem_cons_self) List.not_mem_nil
    | cons y ys =>
      obtain ⟨hxs, hxrest⟩ := List.pairwise_cons.1 hx
      obtain ⟨hys, hyrest⟩ := List.pairwise_cons.1 hy
      have irrefl (a : α) : cmp a a ≠ .lt := by simp [Std.ReflCmp.compare_self]
      have hxy : x = y := by
        rcases List.mem_cons.1 ((h x).1 List.mem_cons_self) with heq | hmem
        · exact heq
        rcases List.mem_cons.1 ((h y).2 List.mem_cons_self) with heq | hmem'
        · exact heq.symm
        · exact absurd (Std.TransCmp.lt_trans (hys x hmem) (hxs y hmem')) (irrefl _)
      subst hxy
      congr 1
      refine ih hxrest hyrest fun a => ⟨fun ha => ?_, fun ha => ?_⟩
      · rcases List.mem_cons.1 ((h a).1 (List.mem_cons_of_mem _ ha)) with rfl | hmem
        · exact absurd (hxs _ ha) (irrefl _)
        · exact hmem
      · rcases List.mem_cons.1 ((h a).2 (List.mem_cons_of_mem _ ha)) with rfl | hmem
        · exact absurd (hys _ ha) (irrefl _)
        · exact hmem

instance [Ord κ] [Std.TransOrd κ] : Std.TransCmp fun a b : κ × ν => compare a.1 b.1 :=
  inferInstanceAs (Std.TransCmp (compareOn Prod.fst))

theorem ext_get? [Ord κ] [Std.TransOrd κ] [Std.LawfulEqOrd κ] {s t : Table κ ν}
    (h : ∀ key, s.get? key = t.get? key) : s = t := by
  have hentries : s.entries = t.entries :=
    eq_of_mem_iff s.sorted t.sorted fun ⟨k, v⟩ => by
      rw [mem_entries_iff, mem_entries_iff, h]
  cases s
  cases t
  simp_all

theorem erase_of_get?_eq_none [Ord κ] [Std.TransOrd κ] [Std.LawfulEqOrd κ] [DecidableEq κ]
    {t : Table κ ν} {key : κ} (h : t.get? key = none) : t.erase key = t :=
  ext_get? fun other => by
    rw [get?_erase]
    split
    next heq => rw [heq, h]
    next => rfl

/-! ## Sizes -/

theorem perm_keys_of_contains [Ord κ] [Std.TransOrd κ] [Std.LawfulEqOrd κ] [DecidableEq κ]
    {t : Table κ ν} {key : κ} (h : t.contains key = true) :
    t.keys.Perm (key :: (t.erase key).keys) := by
  have hnot : key ∉ (t.erase key).keys := by
    intro hmem
    obtain ⟨value, hvalue⟩ := (mem_keys_iff_exists _ key).1 hmem
    rw [get?_erase, if_pos rfl] at hvalue
    cases hvalue
  refine (List.perm_ext_iff_of_nodup t.nodup_keys (List.nodup_cons.2 ⟨hnot, nodup_keys _⟩)).2 ?_
  intro other
  rw [List.mem_cons, mem_keys_iff, mem_keys_iff, contains, contains, get?_erase]
  by_cases heq : other = key
  · subst heq
    simpa [contains] using h
  · simp [heq]

theorem size_of_contains [Ord κ] [Std.TransOrd κ] [Std.LawfulEqOrd κ] [DecidableEq κ]
    {t : Table κ ν} {key : κ} (h : t.contains key = true) : t.size = (t.erase key).size + 1 := by
  rw [← length_keys, (perm_keys_of_contains h).length_eq, List.length_cons, length_keys]

theorem erase_insert [Ord κ] [Std.TransOrd κ] [Std.LawfulEqOrd κ] [DecidableEq κ]
    (t : Table κ ν) (key : κ) (value : ν) : (t.insert key value).erase key = t.erase key :=
  ext_get? fun other => by
    rw [get?_erase, get?_erase, get?_insert]
    split <;> rfl

theorem size_insert [Ord κ] [Std.TransOrd κ] [Std.LawfulEqOrd κ] [DecidableEq κ]
    (t : Table κ ν) (key : κ) (value : ν) : (t.insert key value).size = (t.erase key).size + 1 := by
  have h : (t.insert key value).contains key = true := by simp [contains]
  rw [size_of_contains h, erase_insert]

@[simp] theorem size_mapValues [Ord κ] (t : Table κ ν) (f : ν → ν) :
    (t.mapValues f).size = t.size := by
  rw [← length_keys, keys_mapValues, length_keys]

end Table

end Blackboard
