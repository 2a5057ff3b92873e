import BatchTransfer.Proofs.Staging.Atomicity

/-!
# Staging areas

The objects of an area that lie below the folder of a job are its own: a part is put there and
nowhere else (`get?_put?_of_ne`), and when the folder is removed these are gone and all others are
as they were (`get?_removeBelow_of_isBelow`, `get?_removeBelow_of_not_isWithin`). Both rest on
names that can be read back from the texts by which a store finds its objects.
-/

namespace BatchTransfer

open BatchTransfer.Decimal BatchTransfer.Text

namespace Staging

open FileTree (IsName)

namespace ObjectPath

variable {p q folder : ObjectPath}

/-- Whether all segments are names. -/
def IsProper (p : ObjectPath) : Prop := FileTree.IsPath p.segments

/-- Whether an object lies below a folder or is named as the folder. -/
def IsWithin (p folder : ObjectPath) : Prop := folder.segments <+: p.segments

theorem isWithin_of_isBelow (h : p.isBelow folder = true) : p.IsWithin folder := by
  rw [isBelow, Bool.and_eq_true] at h
  exact List.isPrefixOf_iff_prefix.mp h.1

/-- A path is read back from its text. -/
theorem ofEncoded_text (h : p.IsProper) : ofEncoded p.text = p := by
  obtain ⟨segments⟩ := p
  by_cases hne : segments = []
  · subst hne
    rfl
  · rw [ofEncoded, pieces, text, FileTree.splitPieces_intercalate_names hne h]
    have hfilter : (segments.map String.toList).filter (!·.isEmpty) =
        segments.map String.toList := by
      refine List.filter_eq_self.mpr fun piece hpiece => ?_
      obtain ⟨name, hname, rfl⟩ := List.mem_map.mp hpiece
      simpa using (h name hname).1
    rw [hfilter, List.map_map]
    simp [Function.comp_def]

theorem text_inj (h : p.IsProper) (h' : q.IsProper) (htext : p.text = q.text) : p = q := by
  rw [← ofEncoded_text h, htext, ofEncoded_text h']

end ObjectPath

/-! ### Names of parts -/

/-- A byte in percent-encoding holds no slash. -/
theorem slash_not_mem_percentByte (b : UInt8) : '/' ∉ percentByte b := by
  have hdigit : ∀ n < 16, '/' ≠ upperHexDigit n := by decide
  have hb := b.toNat_lt
  simp only [percentByte, List.mem_cons, List.not_mem_nil, or_false, not_or]
  exact ⟨by decide, hdigit _ (by omega), hdigit _ (by omega)⟩

theorem slash_not_mem_percentEncode (name : List Char) :
    '/' ∉ percentEncode isEncodedInSegment name := by
  rw [percentEncode, List.mem_flatMap]
  rintro ⟨c, -, hslash⟩
  split at hslash
  · obtain ⟨b, -, hb⟩ := List.mem_flatMap.mp hslash
    exact slash_not_mem_percentByte b hb
  · rename_i hplain
    rw [List.mem_singleton] at hslash
    subst hslash
    exact hplain (by decide)

/-- An encoded character is written by a percent sign first; any other stands for itself. -/
theorem exists_percentEncode_cons (p : Char → Bool) (c : Char) (name : List Char) :
    ∃ first rest, percentEncode p (c :: name) = first :: rest ∧
      (first = '%' ∨ first = c ∧ rest = percentEncode p name) := by
  rw [percentEncode, List.flatMap_cons]
  split
  · cases hbytes : String.utf8EncodeChar c with
    | nil =>
        have hlength := String.length_utf8EncodeChar c
        have hpos := Char.utf8Size_pos c
        rw [hbytes, List.length_nil] at hlength
        omega
    | cons b bytes => exact ⟨_, _, rfl, .inl rfl⟩
  · exact ⟨_, _, rfl, .inr ⟨rfl, rfl⟩⟩

/-- The segment for a name can be a name in a path. -/
theorem isName_encodeSegment {name : List Char} (hne : name ≠ []) :
    IsName (String.ofList (encodeSegment name)) := by
  unfold encodeSegment
  split
  · exact ⟨by decide, by decide, by decide⟩
  · split
    · exact ⟨by decide, by decide, by decide⟩
    · rename_i hdot _
      obtain ⟨c, name, rfl⟩ := List.exists_cons_of_ne_nil hne
      obtain ⟨first, rest, hchars, hfirst⟩ := exists_percentEncode_cons isEncodedInSegment c name
      have hslash := slash_not_mem_percentEncode (c :: name)
      rw [hchars] at hslash ⊢
      refine ⟨fun hempty => ?_, fun hsingle => ?_, by rwa [String.toList_ofList]⟩
      · simpa using congrArg String.toList hempty
      · have hone : first = '.' ∧ rest = [] := by
          simpa using congrArg String.toList hsingle
        rcases hfirst with rfl | ⟨rfl, rfl⟩
        · exact absurd hone.1 (by decide)
        · -- Only the name of one dot has this text, and that is encoded apart.
          cases name with
          | nil => exact hdot (by simp [hone.1])
          | cons d name =>
              obtain ⟨_, _, hmore, -⟩ := exists_percentEncode_cons isEncodedInSegment d name
              rw [hmore] at hone
              cases hone.2

theorem ObjectPath.isProper_ofText (text : String) : (ObjectPath.ofText text).IsProper := by
  intro segment hsegment
  obtain ⟨piece, hpiece, rfl⟩ := List.mem_map.mp hsegment
  obtain ⟨-, hne⟩ := List.mem_filter.mp hpiece
  exact isName_encodeSegment (by simpa using hne)

theorem toList_partName (i : Nat) :
    (partName i).toList = "part-".toList ++ padded 5 i ++ ".jsonl".toList := String.toList_ofList

theorem isName_partName (i : Nat) : IsName (partName i) := by
  have hdigits : '/' ∉ padded 5 i := not_mem_padded (by decide)
  refine FileTree.isName_of_cons (toList_partName i) (by decide) ?_
  rw [toList_partName, List.mem_append, List.mem_append, not_or, not_or]
  exact ⟨⟨by decide, hdigits⟩, by decide⟩

theorem isProper_partPath (folder : String) (i : Nat) : (partPath folder i).IsProper := by
  intro segment hsegment
  rcases List.mem_append.mp hsegment with hsegment | hsegment
  · exact ObjectPath.isProper_ofText folder segment hsegment
  · rw [List.mem_singleton.mp hsegment]
    exact isName_partName i

/-- The parts of a job lie below its folder. -/
theorem isBelow_partPath (folder : String) (i : Nat) :
    (partPath folder i).isBelow (.ofText folder) = true := by
  simp [ObjectPath.isBelow, partPath, ObjectPath.append]

/-! ### What is put and removed -/

namespace Store

variable {store store' : Store} {shelves shelves' : Shelves} {p q folder : ObjectPath}

/-- Whether a store that keeps files keeps them below a path of names. -/
def IsRooted (store : Store) : Prop := ∀ root, store = .directory root → FileTree.IsPath root

theorem isPath_fileOf {root : FilePath} (hroot : FileTree.IsPath root) (hp : p.IsProper) :
    FileTree.IsPath (fileOf root p) := by
  intro name hname
  exact (List.mem_append.mp hname).elim (hroot name) (hp name)

/-- Two objects do not have the same address. -/
theorem address_inj (hstore : store.IsRooted) (hp : p.IsProper) (hq : q.IsProper)
    (h : store.address p = store.address q) : p = q := by
  cases store with
  | own objects => exact ObjectPath.text_inj hp hq h
  | «shared» => exact ObjectPath.text_inj hp hq h
  | directory root =>
      have hroot : FileTree.IsPath root := hstore root rfl
      have hfiles := FileTree.key_inj (isPath_fileOf hroot hp) (isPath_fileOf hroot hq) h
      obtain ⟨segments⟩ := p
      obtain ⟨segments'⟩ := q
      exact congrArg ObjectPath.mk (List.append_cancel_left hfiles)

/-- Nothing but the object that is put is another afterwards. -/
theorem get?_put?_of_ne (hstore : store.IsRooted) (hp : p.IsProper) (hq : q.IsProper)
    {content : Content} (h : store.put? shelves p content = some (store', shelves')) (hne : q ≠ p) :
    store'.get? shelves' q = store.get? shelves q := by
  rw [get?_put? h, if_neg fun haddress => hne (address_inj hstore hq hp haddress)]

theorem get?_foldl_erase_of_not_mem {α : Type} {erased : List String} {key : String}
    (h : key ∉ erased) (m : KeyMap α) : (erased.foldl KeyMap.erase m).get? key = m.get? key := by
  induction erased generalizing m with
  | nil => rfl
  | cons k erased ih =>
      rw [List.mem_cons, not_or] at h
      rw [List.foldl_cons, ih h.2, KeyMap.get?_erase, if_neg h.1]

theorem get?_foldl_erase_of_mem {α : Type} {erased : List String} {key : String}
    (h : key ∈ erased) (m : KeyMap α) : (erased.foldl KeyMap.erase m).get? key = none := by
  induction erased generalizing m with
  | nil => cases h
  | cons k erased ih =>
      rw [List.foldl_cons]
      rcases List.mem_cons.mp h with rfl | h
      · rcases KeyMap.get?_foldl_erase erased (m.erase key) key with hsame | hgone
        · rw [hsame, KeyMap.get?_erase, if_pos rfl]
        · exact hgone
      · exact ih h _

/-- Objects in memory without those below a folder. -/
theorem get?_below_erased (objects : Objects) (hp : p.IsProper) :
    ((objects.below folder).foldl KeyMap.erase objects).get? p.text =
      if p.isBelow folder = true then none else objects.get? p.text := by
  have hmem : p.text ∈ objects.below folder ↔ p.text ∈ objects.keys ∧ p.isBelow folder = true := by
    rw [Objects.below, List.mem_filter, ObjectPath.ofEncoded_text hp]
  by_cases hbelow : p.isBelow folder = true
  · rw [if_pos hbelow]
    by_cases hkey : p.text ∈ objects.keys
    · exact get?_foldl_erase_of_mem (hmem.mpr ⟨hkey, hbelow⟩) _
    · rw [get?_foldl_erase_of_not_mem fun h => hkey (hmem.mp h).1]
      exact Option.eq_none_iff_forall_ne_some.mpr fun content hcontent =>
        hkey (KeyMap.mem_keys_iff.mpr ⟨content, hcontent⟩)
  · rw [if_neg hbelow, get?_foldl_erase_of_not_mem fun h => hbelow (hmem.mp h).2]

/-- When a folder is removed, no object is left below it. -/
theorem get?_removeBelow_of_isBelow (hstore : store.IsRooted) (hp : p.IsProper)
    (h : store.removeBelow shelves folder = (store', shelves')) (hbelow : p.isBelow folder = true) :
    store'.get? shelves' p = none := by
  cases store with
  | own objects =>
      cases h
      exact (get?_below_erased objects hp).trans (if_pos hbelow)
  | «shared» =>
      cases h
      exact (get?_below_erased shelves.shared hp).trans (if_pos hbelow)
  | directory root =>
      cases h
      have hwithin := ObjectPath.isWithin_of_isBelow hbelow
      rw [get?_directory, FileTree.content?_removed _ (isPath_fileOf (hstore root rfl) hp)]
      exact if_pos ((List.prefix_append_right_inj root).mpr hwithin)

/-- When a folder is removed, all objects but those in it are as they were. -/
theorem get?_removeBelow_of_not_isWithin (hstore : store.IsRooted) (hp : p.IsProper)
    (h : store.removeBelow shelves folder = (store', shelves')) (hout : ¬ p.IsWithin folder) :
    store'.get? shelves' p = store.get? shelves p := by
  have hbelow : p.isBelow folder ≠ true := fun h => hout (ObjectPath.isWithin_of_isBelow h)
  cases store with
  | own objects =>
      cases h
      exact (get?_below_erased objects hp).trans (if_neg hbelow)
  | «shared» =>
      cases h
      exact (get?_below_erased shelves.shared hp).trans (if_neg hbelow)
  | directory root =>
      cases h
      rw [get?_directory, get?_directory,
        FileTree.content?_removed _ (isPath_fileOf (hstore root rfl) hp)]
      exact if_neg fun h => hout ((List.prefix_append_right_inj root).mp h)

/-- Whether a store is another one, but for the objects that it holds itself. -/
def IsLike (store other : Store) : Prop := ∃ objects, store = other.withObjects objects

theorem IsLike.refl (store : Store) : store.IsLike store := by
  cases store with
  | own objects => exact ⟨objects, rfl⟩
  | _ => exact ⟨default, rfl⟩

theorem IsLike.trans {other : Store} (h : store'.IsLike store) (h' : store.IsLike other) :
    store'.IsLike other := by
  obtain ⟨objects, rfl⟩ := h
  obtain ⟨objects', rfl⟩ := h'
  cases other with
  | own => exact ⟨objects, rfl⟩
  | _ => exact ⟨default, rfl⟩

theorem IsRooted.of_isLike (h : store.IsRooted) (hlike : store'.IsLike store) :
    store'.IsRooted := by
  intro root hroot
  obtain ⟨objects, rfl⟩ := hlike
  cases store with
  | directory root' => exact h root hroot
  | _ => cases hroot

/-- What is put changes neither the kind of the store nor the working directory. -/
theorem isLike_put? {content : Content}
    (h : store.put? shelves p content = some (store', shelves')) :
    store'.IsLike store ∧ shelves'.files.workingDirectory = shelves.files.workingDirectory := by
  unfold put? at h
  split at h
  · cases h
    exact ⟨⟨_, rfl⟩, rfl⟩
  · cases h
    exact ⟨⟨default, rfl⟩, rfl⟩
  · dsimp only at h
    split at h
    · cases h
    · rename_i files _ hcreate
      split at h
      · cases h
      · rename_i files' hwrite
        cases h
        refine ⟨⟨default, rfl⟩, ?_⟩
        obtain ⟨-, hworking⟩ := FileTree.createAlong_eq hcreate
        rw [← hworking]
        unfold FileTree.writeAt at hwrite
        split at hwrite
        · cases hwrite
        · cases hwrite
          rfl

theorem isLike_removeBelow (h : store.removeBelow shelves folder = (store', shelves')) :
    store'.IsLike store ∧ shelves'.files.workingDirectory = shelves.files.workingDirectory := by
  cases store with
  | own objects =>
      cases h
      exact ⟨⟨_, rfl⟩, rfl⟩
  | «shared» =>
      cases h
      exact ⟨⟨default, rfl⟩, rfl⟩
  | directory root =>
      cases h
      refine ⟨⟨default, rfl⟩, ?_⟩
      generalize shelves.files.filesBelow (fileOf root folder) = erased
      generalize shelves.files = files
      induction erased generalizing files with
      | nil => rfl
      | cons file erased ih => exact ih (files.erase _)

end Store

end Staging

end BatchTransfer
