import BatchTransfer.Connector.Files
import BatchTransfer.Proofs.Files.Trees

/-!
# Directories and the files in them

`FileTree.HoldsExactly` says what stands below a directory. A file that is written under a new name
joins the others (`HoldsExactly.put`), the names in the directory are listed in ascending order
(`pairwise_fileNames_of_keys`), and a written path that leads to the directory leads to its
files when their names are put behind it (`find_joined`).
-/

namespace BatchTransfer

open BatchTransfer.Text

namespace FileTree

variable {t t' : FileTree} {directory path at_ : FilePath} {names : List String} {text name : String}
  {entry : FileEntry} {content : Content} {files : List (String × Content)}

/-! ### What stands below a directory -/

/-- Whether the files stand in the directory, each under its name, and nothing else below it. -/
structure HoldsExactly (t : FileTree) (directory : FilePath) (files : List (String × Content)) :
    Prop where
  isPath : IsPath directory
  here : t.entry? directory = some .directory
  isName : ∀ file ∈ files, IsName file.1
  distinct : (files.map Prod.fst).Nodup
  holds : ∀ file ∈ files, t.entry? (directory ++ [file.1]) = some (.file file.2)
  nothingElse : ∀ k entry, t.entries[k]? = some entry → directory <+: pathOfKey k →
    k = key directory ∨ ∃ file ∈ files, k = key (directory ++ [file.1])

/-- A directory that is put where nothing stands at its path or below is empty. -/
theorem holdsExactly_put_directory (hpath : IsPath directory)
    (hnone : ∀ k entry, t.entries[k]? = some entry → ¬ directory <+: pathOfKey k) :
    (t.put directory .directory).HoldsExactly directory [] where
  isPath := hpath
  here := by rw [entry?_put, if_pos rfl]
  isName := nofun
  distinct := List.nodup_nil
  holds := nofun
  nothingElse := by
    intro k entry hentry hbelow
    rw [put, Std.TreeMap.getElem?_insert] at hentry
    split at hentry
    · rename_i hkey
      exact .inl (Std.LawfulEqCmp.eq_of_compare hkey).symm
    · exact absurd hbelow (hnone k entry hentry)

/-- In a new tree with the root only, a directory is created empty. -/
theorem holdsExactly_created (hpath : IsPath directory) (hne : directory ≠ []) :
    ((empty []).put directory .directory).HoldsExactly directory [] := by
  refine holdsExactly_put_directory hpath fun k entry hentry hbelow => ?_
  have hroot : (empty []).entries = (∅ : Std.TreeMap String FileEntry).insert (key []) .directory :=
    Std.TreeMap.ofList_singleton
  rw [hroot, Std.TreeMap.getElem?_insert] at hentry
  split at hentry
  · rename_i hkey
    rw [← Std.LawfulEqCmp.eq_of_compare hkey, pathOfKey_key (by decide)] at hbelow
    exact hne (List.prefix_nil.mp hbelow)
  · simp at hentry

/-! ### The names in a directory -/

theorem nameInside?_eq_some_iff {file : FilePath × Content} :
    nameInside? file = some name ↔ file.1 = [name] := by
  obtain ⟨rest, content⟩ := file
  unfold nameInside?
  split <;> simp_all

/-- The names in a directory are listed in ascending order, since the keys are. -/
theorem pairwise_fileNames_of_keys (hkeys : ∀ k entry name, t.entries[k]? = some entry →
    pathOfKey k = directory ++ [name] → k = key (directory ++ [name])) :
    (t.fileNames directory).Pairwise (· < ·) := by
  have hkey {p : String × FileEntry} {file : FilePath × Content} {name : String}
      (hp : p ∈ t.entries.toList) (hfile : fileBelow? directory p = some file)
      (hname : nameInside? file = some name) : p.1 = key (directory ++ [name]) := by
    have hpath := (fileBelow?_eq_some_iff.mp hfile).2
    rw [nameInside?_eq_some_iff.mp hname] at hpath
    exact hkeys _ _ _ (Std.TreeMap.mem_toList_iff_getElem?_eq_some.mp hp) hpath.symm
  rw [fileNames, filesBelow, List.pairwise_filterMap, List.pairwise_filterMap]
  refine Std.TreeMap.ordered_keys_toList.imp_of_mem fun {p q} hp hq hlt => ?_
  intro file hfile file' hfile' name hname name' hname'
  rw [hkey hp hfile hname, hkey hq hfile' hname', compare_lt_iff_lt] at hlt
  exact key_concat_lt hlt

namespace IsRegular

theorem key_pathOfKey (h : t.IsRegular) {k : String} (hentry : t.entries[k]? = some entry) :
    key (pathOfKey k) = k := by
  obtain ⟨path, hpath, rfl⟩ := h.keys k entry hentry
  rw [pathOfKey_key hpath]

theorem pairwise_fileNames (h : t.IsRegular) (directory : FilePath) :
    (t.fileNames directory).Pairwise (· < ·) :=
  pairwise_fileNames_of_keys fun _ _ _ hentry hpath => by rw [← hpath, h.key_pathOfKey hentry]

/-- The names that are listed are those of the files in the directory. -/
theorem mem_fileNames (h : t.IsRegular) (hdirectory : IsPath directory) :
    name ∈ t.fileNames directory ↔
      IsName name ∧ ∃ content, t.entry? (directory ++ [name]) = some (.file content) := by
  rw [fileNames, List.mem_filterMap]
  constructor
  · rintro ⟨⟨rest, content⟩, hfile, hname⟩
    obtain rfl : rest = [name] := nameInside?_eq_some_iff.mp hname
    obtain ⟨k, hentry, hpath⟩ := mem_filesBelow.mp hfile
    have hkey := h.key_pathOfKey hentry
    rw [← hpath] at hkey
    have hmem : name ∈ pathOfKey k :=
      hpath ▸ List.mem_append_right _ (List.mem_singleton_self name)
    exact ⟨isName_of_mem_names hmem, content, by rw [FileTree.entry?, hkey, hentry]⟩
  · rintro ⟨hname, content, hentry⟩
    refine ⟨([name], content), mem_filesBelow.mpr ⟨_, hentry, ?_⟩, rfl⟩
    rw [pathOfKey_key (isPath_concat hdirectory hname)]

end IsRegular

namespace HoldsExactly

/-- Nothing stands under a name that no file has. -/
theorem entry?_eq_none (h : t.HoldsExactly directory files) (hname : IsName name)
    (hnew : name ∉ files.map Prod.fst) : t.entry? (directory ++ [name]) = none := by
  by_contra hentry
  obtain ⟨entry, hentry⟩ := Option.ne_none_iff_exists'.mp hentry
  have hpath := isPath_concat h.isPath hname
  have hbelow : directory <+: pathOfKey (key (directory ++ [name])) := by
    rw [pathOfKey_key hpath]
    exact List.prefix_append _ _
  rcases h.nothingElse _ _ hentry hbelow with hkey | ⟨file, hfile, hkey⟩
  · have hsame := key_inj hpath h.isPath hkey
    simp at hsame
  · have hsame := key_inj hpath (isPath_concat h.isPath (h.isName file hfile)) hkey
    have hname : name = file.1 := by simpa using hsame
    exact hnew (hname ▸ List.mem_map_of_mem hfile)

/-- A file that is written under a new name joins those that are there. -/
theorem put (h : t.HoldsExactly directory files) (hname : IsName name)
    (hnew : name ∉ files.map Prod.fst) (content : Content) :
    (t.put (directory ++ [name]) (.file content)).HoldsExactly directory
      (files ++ [(name, content)]) := by
  have hpath := isPath_concat h.isPath hname
  have hother : ∀ file ∈ files, key (directory ++ [file.1]) ≠ key (directory ++ [name]) := by
    intro file hfile hkey
    have hsame := key_inj (isPath_concat h.isPath (h.isName file hfile)) hpath hkey
    have hname : file.1 = name := by simpa using hsame
    exact hnew (hname ▸ List.mem_map_of_mem hfile)
  refine ⟨h.isPath, ?_, ?_, ?_, ?_, ?_⟩
  · have hne : key directory ≠ key (directory ++ [name]) := by
      intro hkey
      have hsame := key_inj h.isPath hpath hkey
      simp at hsame
    rw [entry?_put, if_neg hne, h.here]
  · intro file hfile
    rcases List.mem_append.mp hfile with hfile | hfile
    · exact h.isName file hfile
    · rw [List.mem_singleton.mp hfile]
      exact hname
  · rw [List.map_append, List.nodup_append]
    refine ⟨h.distinct, by simp, ?_⟩
    rintro a ha b hb rfl
    rw [List.mem_singleton.mp hb] at ha
    exact hnew ha
  · intro file hfile
    rcases List.mem_append.mp hfile with hfile | hfile
    · rw [entry?_put, if_neg (hother file hfile), h.holds file hfile]
    · rw [List.mem_singleton.mp hfile, entry?_put, if_pos rfl]
  · intro k entry hentry hbelow
    rw [FileTree.put, Std.TreeMap.getElem?_insert] at hentry
    split at hentry
    · rename_i hkey
      exact .inr ⟨(name, content), by simp, (Std.LawfulEqCmp.eq_of_compare hkey).symm⟩
    · rcases h.nothingElse k entry hentry hbelow with hkey | ⟨file, hfile, hkey⟩
      · exact .inl hkey
      · exact .inr ⟨file, List.mem_append_left _ hfile, hkey⟩

/-- Below an empty directory no file is found. -/
theorem filesBelow_eq_nil (h : t.HoldsExactly directory []) : t.filesBelow directory = [] := by
  refine List.eq_nil_iff_forall_not_mem.mpr fun (rest, content) hfile => ?_
  obtain ⟨k, hentry, hpath⟩ := mem_filesBelow.mp hfile
  rcases h.nothingElse k _ hentry (hpath ▸ List.prefix_append _ _) with rfl | ⟨file, hfile, -⟩
  · cases hentry.symm.trans h.here
  · cases hfile

/-- A file that lies right in the directory has one of the names, which its key ends with. -/
theorem exists_of_pathOfKey (h : t.HoldsExactly directory files) {k : String}
    (hentry : t.entries[k]? = some entry) (hpath : pathOfKey k = directory ++ [name]) :
    name ∈ files.map Prod.fst ∧ k = key (directory ++ [name]) := by
  rcases h.nothingElse k entry hentry (hpath ▸ List.prefix_append _ _) with rfl | ⟨file, hfile, rfl⟩
  · rw [pathOfKey_key h.isPath] at hpath
    simp at hpath
  · rw [pathOfKey_key (isPath_concat h.isPath (h.isName file hfile))] at hpath
    have hname : file.1 = name := by simpa using hpath
    rw [← hname]
    exact ⟨List.mem_map_of_mem hfile, rfl⟩

theorem mem_fileNames (h : t.HoldsExactly directory files) :
    name ∈ t.fileNames directory ↔ name ∈ files.map Prod.fst := by
  rw [fileNames, List.mem_filterMap]
  constructor
  · rintro ⟨⟨rest, content⟩, hfile, hname⟩
    obtain rfl : rest = [name] := nameInside?_eq_some_iff.mp hname
    obtain ⟨k, hentry, hpath⟩ := mem_filesBelow.mp hfile
    exact (h.exists_of_pathOfKey hentry hpath.symm).1
  · intro hname
    obtain ⟨file, hfile, rfl⟩ := List.mem_map.mp hname
    refine ⟨([file.1], file.2), mem_filesBelow.mpr ⟨_, h.holds file hfile, ?_⟩, rfl⟩
    exact (pathOfKey_key (isPath_concat h.isPath (h.isName file hfile))).symm

theorem pairwise_fileNames (h : t.HoldsExactly directory files) :
    (t.fileNames directory).Pairwise (· < ·) :=
  pairwise_fileNames_of_keys fun _ _ _ hentry hpath => (h.exists_of_pathOfKey hentry hpath).2

theorem fileNames_perm (h : t.HoldsExactly directory files) :
    (t.fileNames directory).Perm (files.map Prod.fst) :=
  (List.perm_ext_iff_of_nodup (h.pairwise_fileNames.imp fun hlt => ne_of_lt hlt) h.distinct).mpr
    fun _ => h.mem_fileNames

end HoldsExactly

/-! ### The way to a directory and its files -/

theorem find_eq_ok_directory : t.find text = .ok (directory, .directory) ↔
    text.isEmpty = false ∧ t.follow (t.start text) (FileTree.names text) = .ok directory ∧
      t.entry? directory = some .directory := by
  constructor
  · intro h
    unfold find at h
    split at h
    · cases h
    · rename_i hne
      split at h
      · cases h
      · rename_i path hfollow
        split at h
        · cases h
        · rename_i hentry
          cases h
          exact ⟨by simpa using hne, hfollow, hentry⟩
        · split at h <;> cases h
  · rintro ⟨hne, hfollow, hentry⟩
    rw [find, if_neg (by simp [hne]), hfollow]
    dsimp only
    rw [hentry]

/-- In a tree whose keys are paths, a written path leads to a path. -/
theorem IsRegular.isPath_of_find (h : t.IsRegular)
    (hfind : t.find text = .ok (directory, .directory)) : IsPath directory := by
  obtain ⟨-, hfollow, -⟩ := find_eq_ok_directory.mp hfind
  rw [eq_walk_of_follow hfollow]
  exact isPath_walk (h.isPath_start text) fun _ => isName_of_mem_names

theorem start_congr (h : t'.workingDirectory = t.workingDirectory) (text : String) :
    t'.start text = t.start text := by
  unfold start
  split
  · rfl
  · exact h

/-- Whether the directories of one tree are directories in another. -/
structure KeepsDirectories (t t' : FileTree) : Prop where
  workingDirectory : t'.workingDirectory = t.workingDirectory
  directories : ∀ path, t.entry? path = some .directory →
    FileTree.entry? t' path = some .directory

namespace KeepsDirectories

theorem refl (t : FileTree) : t.KeepsDirectories t := ⟨rfl, fun _ h => h⟩

theorem trans {t'' : FileTree} (h : t.KeepsDirectories t') (h' : t'.KeepsDirectories t'') :
    t.KeepsDirectories t'' :=
  ⟨h'.workingDirectory.trans h.workingDirectory, fun path hpath =>
    h'.directories path (h.directories path hpath)⟩

/-- What is put where nothing stands takes no directory away. -/
theorem put (hnone : t.entry? path = none) (entry : FileEntry) :
    t.KeepsDirectories (t.put path entry) where
  workingDirectory := rfl
  directories := by
    intro other hother
    have hne : key other ≠ key path := by
      intro hkey
      rw [FileTree.entry?, hkey] at hother
      rw [FileTree.entry?, hother] at hnone
      cases hnone
    rw [entry?_put, if_neg hne, hother]

/-- Names are followed to the same place. -/
theorem follow (h : t.KeepsDirectories t') (hfollow : t.follow at_ names = .ok directory) :
    t'.follow at_ names = .ok directory := by
  fun_induction FileTree.follow t at_ names with
  | case1 => exact hfollow
  | case2 at_ rest ih => exact ih hfollow
  | case3 at_ name hname => 
      rw [FileTree.follow]
      · exact hfollow
      · exact hname
  | case4 at_ name rest hname hrest hentry ih =>
      rw [FileTree.follow, h.directories _ hentry]
      · exact ih hfollow
      · exact hname
      · exact hrest
  | case5 => cases hfollow
  | case6 => cases hfollow

/-- A written path leads to the same directory. -/
theorem find (h : t.KeepsDirectories t') (hfind : t.find text = .ok (directory, .directory)) :
    t'.find text = .ok (directory, .directory) := by
  obtain ⟨hne, hfollow, hentry⟩ := find_eq_ok_directory.mp hfind
  refine find_eq_ok_directory.mpr ⟨hne, ?_, h.directories _ hentry⟩
  rw [start_congr h.workingDirectory]
  exact h.follow hfollow

end KeepsDirectories

/-- A directory on the way is passed. -/
theorem follow_cons_of_directory {rest : List String} (hname : name ≠ "..")
    (hentry : t.entry? (at_ ++ [name]) = some .directory) :
    t.follow at_ (name :: rest) = t.follow (at_ ++ [name]) rest := by
  cases rest with
  | nil =>
      rw [FileTree.follow, FileTree.follow]
      exact hname
  | cons next rest =>
      rw [FileTree.follow, hentry]
      · exact hname
      · exact List.cons_ne_nil _ _

/-- Where names lead to a directory, one more name leads to what stands in it. -/
theorem follow_concat (hname : name ≠ "..") (hentry : t.entry? directory = some .directory)
    (h : t.follow at_ names = .ok directory) :
    t.follow at_ (names ++ [name]) = .ok (directory ++ [name]) := by
  fun_induction FileTree.follow t at_ names with
  | case1 =>
      cases h
      rw [List.nil_append, FileTree.follow]
      exact hname
  | case2 at_ rest ih =>
      rw [List.cons_append, FileTree.follow]
      exact ih h
  | case3 at_ last hlast =>
      cases h
      rw [List.cons_append, follow_cons_of_directory hlast hentry, List.nil_append, FileTree.follow]
      exact hname
  | case4 at_ first rest hfirst _ hfound ih =>
      rw [List.cons_append, follow_cons_of_directory hfirst hfound]
      exact ih h
  | case5 => cases h
  | case6 => cases h

/-- The directories that are created along names can be followed, and no directory is lost. -/
theorem follow_of_createAlong (h : t.createAlong at_ names = some (t', directory)) :
    t'.follow at_ names = .ok directory ∧ t.KeepsDirectories t' := by
  fun_induction createAlong t at_ names with
  | case1 t at_ =>
      cases h
      exact ⟨rfl, .refl _⟩
  | case2 t at_ rest ih => exact ih h
  | case3 t at_ name rest hname hentry ih =>
      obtain ⟨hfollow, hkeeps⟩ := ih h
      rw [follow_cons_of_directory hname (hkeeps.directories _ hentry)]
      exact ⟨hfollow, hkeeps⟩
  | case4 => cases h
  | case5 t at_ name rest hname hnone ih =>
      obtain ⟨hfollow, hkeeps⟩ := ih h
      have hput : FileTree.entry? (t.put (at_ ++ [name]) .directory) (at_ ++ [name]) =
          some .directory := by
        rw [entry?_put, if_pos rfl]
      rw [follow_cons_of_directory hname (hkeeps.directories _ hput)]
      exact ⟨hfollow, (KeepsDirectories.put hnone .directory).trans hkeeps⟩

/-- The path of directories that are created leads to the last of them. -/
theorem find_of_createDirectories (h : t.createDirectories text = some (t', directory))
    (hne : text ≠ "") (hentry : FileTree.entry? t' directory = some .directory) :
    t'.find text = .ok (directory, .directory) := by
  obtain ⟨hfollow, hkeeps⟩ := follow_of_createAlong h
  refine find_eq_ok_directory.mpr ⟨by simpa using hne, ?_, hentry⟩
  rw [start_congr hkeeps.workingDirectory]
  exact hfollow

/-! ### A name behind a path -/

theorem exists_joined (path name : String) : ∃ front,
    (FileSource.joined path name).toList = front ++ '/' :: name.toList ∧
      (path.toList = front ∨ path.toList = front ++ ['/']) := by
  unfold FileSource.joined
  split
  · rename_i hlast
    obtain ⟨front, hfront⟩ := List.getLast?_eq_some_iff.mp (eq_of_beq hlast)
    refine ⟨front, ?_, .inr hfront⟩
    rw [String.toList_append, hfront]
    simp
  · refine ⟨path.toList, ?_, .inl rfl⟩
    rw [String.toList_append, String.toList_append]
    simp

theorem splitPieces_slash {front : List Char} {name : String} (h : IsName name) :
    splitPieces (· == '/') (front ++ '/' :: name.toList) =
      splitPieces (· == '/') front ++ [name.toList] := by
  have hclear : ∀ c ∈ name.toList, (c == '/') = false := fun c hc =>
    beq_eq_false_iff_ne.mpr fun heq => h.2.2 (heq ▸ hc)
  rw [splitPieces_append_separator, splitPieces_of_forall hclear]

theorem names_joined (path : String) (h : IsName name) :
    FileTree.names (FileSource.joined path name) = FileTree.names path ++ [name] := by
  obtain ⟨front, hjoined, hpath⟩ := exists_joined path name
  have hkept : (name != "" && name != ".") = true := by simp [h.1, h.2.1]
  have hnames : FileTree.names path =
      ((splitPieces (· == '/') front).map String.ofList).filter fun n => n != "" && n != "." := by
    rcases hpath with hpath | hpath
    · rw [FileTree.names, hpath]
    · rw [FileTree.names, hpath, splitPieces_append_separator]
      simp [splitPieces]
  rw [hnames, FileTree.names, hjoined, splitPieces_slash h, List.map_append, List.filter_append]
  simp [hkept]

theorem start_joined (t : FileTree) {path : String} (hne : path ≠ "") :
    t.start (FileSource.joined path name) = t.start path := by
  obtain ⟨first, rest, hpath⟩ := List.exists_cons_of_ne_nil
    (show path.toList ≠ [] by simpa using hne)
  have hjoined : ∃ rest', (FileSource.joined path name).toList = first :: rest' := by
    unfold FileSource.joined
    split
    · exact ⟨_, by rw [String.toList_append, hpath, List.cons_append]⟩
    · exact ⟨_, by rw [String.append_assoc, String.toList_append, hpath, List.cons_append]⟩
  obtain ⟨rest', hjoined⟩ := hjoined
  rw [start, start, hpath, hjoined]
  split <;> simp_all

theorem meansDirectory_joined (path : String) (h : IsName name) (hname : name ≠ "..") :
    meansDirectory (FileSource.joined path name) = false := by
  obtain ⟨front, hjoined, -⟩ := exists_joined path name
  rw [meansDirectory, hjoined, splitPieces_slash h, List.getLast?_concat]
  simp [h.1, h.2.1, hname]

/-- The name of a file behind the path of its directory leads to the file. -/
theorem find_joined {path : String} (hfind : t.find path = .ok (directory, .directory))
    (h : IsName name) (hname : name ≠ "..")
    (hentry : t.entry? (directory ++ [name]) = some (.file content)) :
    t.find (FileSource.joined path name) = .ok (directory ++ [name], .file content) := by
  obtain ⟨hne, hfollow, hdirectory⟩ := find_eq_ok_directory.mp hfind
  have hjoined : (FileSource.joined path name).isEmpty = false := by
    obtain ⟨front, hjoined, -⟩ := exists_joined path name
    rw [String.isEmpty_eq_false_iff, ne_eq, ← String.toList_eq_nil_iff, hjoined]
    simp
  rw [find, if_neg (by simp [hjoined]), start_joined t (by simpa using hne), names_joined path h,
    follow_concat hname hdirectory hfollow]
  dsimp only
  rw [hentry]
  dsimp only
  rw [meansDirectory_joined path h hname, if_neg Bool.false_ne_true]

end FileTree

end BatchTransfer
