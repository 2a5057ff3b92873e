import BatchTransfer.Proofs.Files.Lines
import BatchTransfer.Proofs.Files.Trees
import BatchTransfer.Staging.Sink

/-!
# What object stores keep

An object store keeps what is put under a path until something else is put there or it is removed.
Every kind of store finds an object by an address; the parts of a job have different addresses
(`address_partPath_inj`), so that no part takes the place of another, and the records of a batch are
read back from the part that holds it (`recordsOfText?_toJsonLines`).
-/

namespace BatchTransfer

open BatchTransfer.Decimal BatchTransfer.Text

theorem KeyMap.get?_foldl_erase {α : Type} (erased : List String) (m : KeyMap α) (key : String) :
    (erased.foldl KeyMap.erase m).get? key = m.get? key ∨
      (erased.foldl KeyMap.erase m).get? key = none := by
  induction erased generalizing m with
  | nil => exact .inl rfl
  | cons k erased ih =>
      rcases ih (m.erase k) with h | h
      · rw [KeyMap.get?_erase] at h
        split at h
        · exact .inr h
        · exact .inl h
      · exact .inr h

namespace Staging

/-! ### Addresses -/

namespace Store

variable {store store' : Store} {shelves shelves' : Shelves} {path : ObjectPath}

/-- The text by which a store finds an object. -/
def address (store : Store) (path : ObjectPath) : String :=
  match store with
  | directory root => FileTree.key (fileOf root path)
  | _ => path.text

theorem get?_directory (root : FilePath) (shelves : Shelves) (path : ObjectPath) :
    (directory root).get? shelves path = shelves.files.content? (fileOf root path) := rfl

/-- An object that is put takes the place of that at its address, and of no other. -/
theorem get?_put? {content : Content}
    (h : store.put? shelves path content = some (store', shelves')) (other : ObjectPath) :
    store'.get? shelves' other =
      if store.address other = store.address path then some content
      else store.get? shelves other := by
  unfold put? at h
  split at h
  · cases h
    exact KeyMap.get?_insert _ _ _ _
  · cases h
    exact KeyMap.get?_insert _ _ _ _
  · dsimp only at h
    split at h
    · cases h
    · rename_i files _ hcreate
      split at h
      · cases h
      · rename_i files' hwrite
        cases h
        rw [get?_directory, FileTree.content?_writeAt hwrite, FileTree.content?_createAlong hcreate]
        rfl

/-- Removing takes objects away and changes none. -/
theorem get?_removeBelow {folder : ObjectPath}
    (h : store.removeBelow shelves folder = (store', shelves')) (path : ObjectPath) :
    store'.get? shelves' path = store.get? shelves path ∨ store'.get? shelves' path = none := by
  cases store with
  | own objects =>
      cases h
      exact KeyMap.get?_foldl_erase _ _ _
  | «shared» =>
      cases h
      exact KeyMap.get?_foldl_erase _ _ _
  | directory root =>
      cases h
      exact FileTree.content?_foldl_erase (fun file : FilePath × Content =>
        fileOf root folder ++ file.1) _ _ _

end Store

/-! ### The parts of a job -/

/-- The name of the part of a number. -/
def partName (i : Nat) : String :=
  String.ofList ("part-".toList ++ padded 5 i ++ ".jsonl".toList)

/-- The path of the part of a number in the folder of a job. -/
def partPath (folder : String) (i : Nat) : ObjectPath :=
  (ObjectPath.ofText folder).append ⟨[partName i]⟩

theorem partName_inj {i j : Nat} (h : partName i = partName j) : i = j := by
  exact padded_inj
    (List.append_cancel_left (List.append_cancel_right (String.ofList_injective h)))

/-- Parts of different numbers have different addresses. -/
theorem address_partPath_inj {store : Store} {folder : String} {i j : Nat}
    (h : store.address (partPath folder i) = store.address (partPath folder j)) : i = j := by
  cases store with
  | directory root =>
      -- Files are found below the root, by the folder and the name.
      have htexts := String.append_right_inj _ |>.mp h
      rw [Store.fileOf, Store.fileOf, partPath, partPath, ObjectPath.append, ObjectPath.append,
        ← List.append_assoc, ← List.append_assoc] at htexts
      exact partName_inj (FileTree.intercalate_inj htexts)
  | own objects => exact partName_inj (FileTree.intercalate_inj h)
  | «shared» => exact partName_inj (FileTree.intercalate_inj h)

/-! ### The records of a part -/

/-- The records of the object under a path, if it can be read as records. -/
def recordsAt? (store : Store) (shelves : Shelves) (path : ObjectPath) : Option (List Record) :=
  (store.get? shelves path).bind fun content => content.text?.bind Manifest.recordsOfText?

/-- The records of a batch are read from its lines one by one. -/
theorem recordsOfText?_eq_mapM (b : Batch) :
    Manifest.recordsOfText? b.toJsonLines = b.toRecords.mapM Record.reread? := by
  rw [Manifest.recordsOfText?, Batch.toJsonLines, String.toList_ofList]
  generalize b.toRecords = records
  induction records with
  | nil => rfl
  | cons r records ih =>
      have hread : Json.readRecord? (String.ofList (Json.chars r.toJson)) = r.reread? := rfl
      have hline : (!(Json.chars r.toJson).isEmpty) = true := by
        obtain ⟨inner, hchars, -⟩ := Json.exists_objectChars r.fields
        rw [Record.toJson, hchars]
        rfl
      rw [List.flatMap_cons, Batch.recordLine, List.append_assoc, List.singleton_append,
        splitPieces_line (Json.newline_not_mem_chars r.toJson),
        List.filter_cons_of_pos (p := fun line : List Char => !line.isEmpty) hline, List.map_cons,
        List.mapM_cons, List.mapM_cons, hread, ih]

/-- Records that are read back are read from their texts as they are. -/
theorem mapM_reread?_eq_some {records : List Record} (h : ∀ r ∈ records, r.ReadsBack) :
    records.mapM Record.reread? = some records := by
  induction records with
  | nil => rfl
  | cons r records ih =>
      rw [List.forall_mem_cons] at h
      have hread : r.reread? = some r := h.1
      rw [List.mapM_cons, hread, ih h.2]
      rfl

theorem mapM_flatten_eq_some {α β : Type} {f : α → Option β} {xss : List (List α)}
    {yss : List (List β)} (h : xss.map (·.mapM f) = yss.map some) :
    xss.flatten.mapM f = some yss.flatten := by
  induction xss generalizing yss with
  | nil =>
      cases List.map_eq_nil_iff.mp h.symm
      rfl
  | cons xs xss ih =>
      cases yss with
      | nil => cases h
      | cons ys yss =>
          obtain ⟨hxs, hxss⟩ : xs.mapM f = some ys ∧ xss.map (·.mapM f) = yss.map some :=
            List.cons.inj h
          rw [List.flatten_cons, List.flatten_cons, List.mapM_append, hxs, ih hxss]
          rfl

theorem length_of_mapM_eq_some {α β : Type} {f : α → Option β} {xs : List α} {ys : List β}
    (h : xs.mapM f = some ys) : ys.length = xs.length := by
  induction xs generalizing ys with
  | nil =>
      cases h
      rfl
  | cons x xs ih =>
      rw [List.mapM_cons] at h
      obtain ⟨y, -, h⟩ := Option.bind_eq_some_iff.mp h
      obtain ⟨rest, hrest, h⟩ := Option.bind_eq_some_iff.mp h
      cases h
      rw [List.length_cons, List.length_cons, ih hrest]

/-- The records of a batch are read back from its lines. -/
theorem recordsOfText?_toJsonLines {b : Batch} (h : ∀ r ∈ b.toRecords, r.ReadsBack) :
    Manifest.recordsOfText? b.toJsonLines = some b.toRecords :=
  (recordsOfText?_eq_mapM b).trans (mapM_reread?_eq_some h)

/-- The records of a batch are read from the object that has been put for it. -/
theorem recordsAt?_put? {store store' : Store} {shelves shelves' : Shelves} {path : ObjectPath}
    {b : Batch}
    (hput : store.put? shelves path (.text b.toJsonLines) = some (store', shelves'))
    (h : ∀ r ∈ b.toRecords, r.ReadsBack) : recordsAt? store' shelves' path = some b.toRecords := by
  rw [recordsAt?, Store.get?_put? hput, if_pos rfl]
  exact recordsOfText?_toJsonLines h

theorem recordsOf_eq_ok {store : Store} {shelves : Shelves} {p : Part} {records : List Record} :
    Manifest.recordsOf store shelves p = .ok records ↔
      recordsAt? store shelves p.path = some records := by
  unfold Manifest.recordsOf recordsAt?
  cases store.get? shelves p.path with
  | none => simp
  | some content =>
      cases hrecords : content.text?.bind Manifest.recordsOfText? <;> simp [hrecords]

/-- The records of parts are those of all of them in order, if each can be read. -/
theorem recordsOfParts_eq_ok {store : Store} {shelves : Shelves} {parts : List Part}
    {records : List Record} :
    Manifest.recordsOfParts store shelves parts = .ok records ↔
      ∃ found : List (List Record),
        (parts.map Part.path).map (recordsAt? store shelves) = found.map some ∧
        records = found.flatten := by
  induction parts generalizing records with
  | nil =>
      constructor
      · intro h
        cases h
        exact ⟨[], rfl, rfl⟩
      · rintro ⟨found, hfound, rfl⟩
        rw [List.map_eq_nil_iff.mp hfound.symm]
        rfl
  | cons p parts ih =>
      rw [Manifest.recordsOfParts]
      constructor
      · intro h
        split at h
        · cases h
        · rename_i first hfirst
          cases hrest : Manifest.recordsOfParts store shelves parts with
          | error e =>
              rw [hrest] at h
              cases h
          | ok rest =>
              rw [hrest] at h
              cases h
              obtain ⟨found, hfound, rfl⟩ := ih.mp hrest
              refine ⟨first :: found, ?_, rfl⟩
              rw [List.map_cons, List.map_cons, recordsOf_eq_ok.mp hfirst, hfound, List.map_cons]
      · rintro ⟨found, hfound, rfl⟩
        cases found with
        | nil => cases hfound
        | cons first found =>
            obtain ⟨hfirst, hrest⟩ := List.cons.inj hfound
            rw [recordsOf_eq_ok.mpr hfirst, ih.mpr ⟨found, hrest, rfl⟩]
            rfl

end Staging

end BatchTransfer
