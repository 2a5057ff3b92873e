/-!
# Finite maps with text keys

A map holds one value a key and lists its keys in ascending order, so that two maps with the same
entries are equal and every walk over a map has one order. `KeyMap.get?_insert` says what writing
an entry does, and `KeyMap.ext_get?` that a map is determined by its look-ups.
-/

namespace BatchTransfer

/-- A finite map whose entries are listed in ascending order of their keys. -/
structure KeyMap (α : Type) where
  entries : List (String × α)
  sorted : (entries.map Prod.fst).Pairwise (· < ·)

namespace KeyMap

variable {α β : Type}

/-- The map without entries. -/
def empty : KeyMap α := ⟨[], List.Pairwise.nil⟩

instance : Inhabited (KeyMap α) := ⟨empty⟩

/-- Two maps with the same list of entries are the same. -/
@[ext]
theorem ext {a b : KeyMap α} (h : a.entries = b.entries) : a = b := by
  cases a; cases b; simp_all

/-- The keys in ascending order. -/
def keys (m : KeyMap α) : List String := m.entries.map Prod.fst

/-- The number of entries. -/
def size (m : KeyMap α) : Nat := m.entries.length

/-- The value listed first under a key. -/
def lookup (key : String) : List (String × α) → Option α
  | [] => none
  | (k, v) :: rest => if k = key then some v else lookup key rest

/-- The value under a key. -/
def get? (m : KeyMap α) (key : String) : Option α := lookup key m.entries

/-- Whether the map has an entry under the key. -/
def contains (m : KeyMap α) (key : String) : Bool := (m.get? key).isSome

/-- Puts an entry into its place, instead of one under the same key. -/
def place (key : String) (value : α) : List (String × α) → List (String × α)
  | [] => [(key, value)]
  | (k, v) :: rest =>
      if key < k then (key, value) :: (k, v) :: rest
      else if key = k then (key, value) :: rest
      else (k, v) :: place key value rest

theorem mem_keys_place {key other : String} {value : α} {entries : List (String × α)}
    (h : other ∈ (place key value entries).map Prod.fst) :
    other = key ∨ other ∈ entries.map Prod.fst := by
  fun_induction place key value entries <;> simp_all <;> grind

theorem sorted_place (key : String) (value : α) {entries : List (String × α)}
    (h : (entries.map Prod.fst).Pairwise (· < ·)) :
    ((place key value entries).map Prod.fst).Pairwise (· < ·) := by
  fun_induction place key value entries with
  | case1 => simp
  | case2 k v rest lt =>
    simp only [List.map_cons, List.pairwise_cons, List.mem_cons] at h ⊢
    refine ⟨?_, h⟩
    rintro a (rfl | ha)
    · exact lt
    · exact String.lt_trans lt (h.1 a ha)
  | case3 k rest nlt => simpa using h
  | case4 k v rest nlt ne ih =>
    simp only [List.map_cons, List.pairwise_cons] at h ⊢
    refine ⟨?_, ih h.2⟩
    intro a ha
    rcases mem_keys_place ha with rfl | ha
    · rcases String.le_total k a with le | le
      · exact Decidable.byContradiction fun n =>
          ne (String.le_antisymm (String.not_lt.1 n) le)
      · exact absurd (String.le_antisymm le (String.not_lt.1 nlt)) ne
    · exact h.1 a ha

/-- Writes an entry, instead of one under the same key. -/
def insert (m : KeyMap α) (key : String) (value : α) : KeyMap α :=
  ⟨place key value m.entries, sorted_place key value m.sorted⟩

theorem lookup_place {key : String} (value : α) (other : String)
    {entries : List (String × α)} :
    lookup other (place key value entries) =
      if other = key then some value else lookup other entries := by
  fun_induction place key value entries <;> simp_all [lookup] <;> grind

@[simp]
theorem get?_insert (m : KeyMap α) (key other : String) (value : α) :
    (m.insert key value).get? other = if other = key then some value else m.get? other :=
  lookup_place value other

@[simp]
theorem get?_empty (key : String) : (empty : KeyMap α).get? key = none := rfl

/-- The map that results from writing the entries one after the other. -/
def ofList (entries : List (String × α)) : KeyMap α :=
  entries.foldl (fun m e => m.insert e.1 e.2) empty

/-- The map with every value replaced by a function of it and its key. -/
def map (f : String → α → β) (m : KeyMap α) : KeyMap β where
  entries := m.entries.map fun e => (e.1, f e.1 e.2)
  sorted := by simpa [List.map_map, Function.comp_def] using m.sorted

theorem lookup_map (f : String → α → β) (key : String) (entries : List (String × α)) :
    lookup key (entries.map fun e => (e.1, f e.1 e.2)) = (lookup key entries).map (f key) := by
  induction entries with
  | nil => rfl
  | cons e rest ih =>
    by_cases h : e.1 = key
    · simp [lookup, h]
    · simp [lookup, h, ih]

@[simp]
theorem get?_map (f : String → α → β) (m : KeyMap α) (key : String) :
    (m.map f).get? key = (m.get? key).map (f key) :=
  lookup_map f key m.entries

@[simp]
theorem keys_map (f : String → α → β) (m : KeyMap α) : (m.map f).keys = m.keys := by
  simp [keys, map, List.map_map, Function.comp_def]

/-- The map without the entry under a key. -/
def erase (m : KeyMap α) (key : String) : KeyMap α where
  entries := m.entries.filter (·.1 != key)
  sorted := by
    exact m.sorted.sublist (List.Sublist.map _ List.filter_sublist)

theorem lookup_filter (key other : String) (entries : List (String × α)) :
    lookup other (entries.filter (·.1 != key)) =
      if other = key then none else lookup other entries := by
  induction entries with
  | nil => simp [lookup]
  | cons e rest ih =>
    obtain ⟨k, v⟩ := e
    by_cases hk : k = key
    · rw [List.filter_cons_of_neg (by simp [hk]), ih, lookup]
      by_cases hother : other = key
      · rw [if_pos hother, if_pos hother]
      · rw [if_neg hother, if_neg hother, if_neg (hk ▸ Ne.symm hother)]
    · rw [List.filter_cons_of_pos (by simp [hk]), lookup, lookup, ih]
      by_cases hother : k = other
      · rw [if_pos hother, if_pos hother, if_neg (hother ▸ hk)]
      · rw [if_neg hother, if_neg hother]

@[simp]
theorem get?_erase (m : KeyMap α) (key other : String) :
    (m.erase key).get? other = if other = key then none else m.get? other :=
  lookup_filter key other m.entries

theorem lookup_eq_none {key : String} {entries : List (String × α)}
    (h : ∀ k ∈ entries.map Prod.fst, key < k) : lookup key entries = none := by
  induction entries with
  | nil => rfl
  | cons e rest ih =>
    have he : e.1 ≠ key := fun eq => String.lt_irrefl key (by simpa [eq] using h e.1 (by simp))
    simp only [lookup, he, if_false]
    exact ih fun k hk => h k (by simp only [List.map_cons, List.mem_cons]; exact .inr hk)

theorem eq_of_lookup_eq {as bs : List (String × α)}
    (ha : (as.map Prod.fst).Pairwise (· < ·)) (hb : (bs.map Prod.fst).Pairwise (· < ·))
    (h : ∀ key, lookup key as = lookup key bs) : as = bs := by
  induction as generalizing bs with
  | nil =>
    cases bs with
    | nil => rfl
    | cons b bs => simpa [lookup] using h b.1
  | cons a as ih =>
    cases bs with
    | nil => simpa [lookup] using h a.1
    | cons b bs =>
      simp only [List.map_cons, List.pairwise_cons] at ha hb
      have key : a.1 = b.1 := by
        refine String.le_antisymm (String.not_lt.1 fun lt => ?_) (String.not_lt.1 fun lt => ?_)
        · have := @lookup_eq_none α b.1 (a :: as) (by
            simp only [List.map_cons, List.mem_cons]
            rintro k (rfl | hk)
            · exact lt
            · exact String.lt_trans lt (ha.1 k hk))
          rw [h] at this
          simp [lookup] at this
        · have := @lookup_eq_none α a.1 (b :: bs) (by
            simp only [List.map_cons, List.mem_cons]
            rintro k (rfl | hk)
            · exact lt
            · exact String.lt_trans lt (hb.1 k hk))
          rw [← h] at this
          simp [lookup] at this
      have value : a.2 = b.2 := by simpa [lookup, key] using h b.1
      have rest : as = bs := by
        refine ih ha.2 hb.2 fun k => ?_
        by_cases hk : b.1 = k
        · subst hk
          rw [lookup_eq_none (key ▸ ha.1), lookup_eq_none hb.1]
        · simpa [lookup, key, hk] using h k
      rw [show a = b from Prod.ext key value, rest]

/-- A map is determined by its look-ups. -/
theorem ext_get? {a b : KeyMap α} (h : ∀ key, a.get? key = b.get? key) : a = b :=
  ext (eq_of_lookup_eq a.sorted b.sorted h)

theorem lookup_eq_some_iff {key : String} {value : α} {entries : List (String × α)}
    (h : (entries.map Prod.fst).Pairwise (· < ·)) :
    lookup key entries = some value ↔ (key, value) ∈ entries := by
  induction entries with
  | nil => simp [lookup]
  | cons e rest ih =>
    obtain ⟨k, v⟩ := e
    simp only [List.map_cons, List.pairwise_cons] at h
    simp only [lookup, List.mem_cons, Prod.mk.injEq]
    split
    · rename_i hk
      subst hk
      have absent : (k, value) ∉ rest := fun hmem =>
        String.lt_irrefl k (h.1 k (List.mem_map_of_mem hmem))
      simp [absent, eq_comm]
    · rename_i hk
      simp [ih h.2, Ne.symm hk]

/-- The look-ups of a map are its entries. -/
theorem get?_eq_some_iff {m : KeyMap α} {key : String} {value : α} :
    m.get? key = some value ↔ (key, value) ∈ m.entries :=
  lookup_eq_some_iff m.sorted

/-- The keys are those under which there is a value. -/
theorem mem_keys_iff {m : KeyMap α} {key : String} :
    key ∈ m.keys ↔ ∃ value, m.get? key = some value := by
  simp [keys, get?_eq_some_iff]

theorem keys_nodup (m : KeyMap α) : m.keys.Nodup :=
  m.sorted.imp fun h => String.ne_of_lt h

end KeyMap

end BatchTransfer
