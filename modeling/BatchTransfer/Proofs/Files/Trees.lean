import BatchTransfer.Host.FileTree
import BatchTransfer.Proofs.Decimal.Order

/-!
# What trees of files keep

A file tree keeps the content of a file until another is written in its place or it is erased
(`content?_writeAt`, `content?_erase_eq`). A path of names is read back from the key under which it
is kept (`pathOfKey_key`), so that two such paths have one key only if they are the same, and the
names in a directory have the order of their keys (`key_concat_lt`). That everything stands under
the key of a path is kept as well (`IsRegular`).
-/

namespace BatchTransfer

open BatchTransfer.Text

/-- The pieces before a separator and those behind it are those of the two texts. -/
theorem Text.splitPieces_append_separator (separator : Char) (cs ds : List Char) :
    splitPieces (· == separator) (cs ++ separator :: ds) =
      splitPieces (· == separator) cs ++ splitPieces (· == separator) ds := by
  induction cs with
  | nil => simp [splitPieces]
  | cons c cs ih =>
      rw [List.cons_append, splitPieces, splitPieces, ih]
      by_cases hc : (c == separator) = true
      · rw [if_pos hc, if_pos hc, List.cons_append]
      · rw [if_neg hc, if_neg hc]
        obtain ⟨piece, rest, hsplit⟩ :=
          List.exists_cons_of_ne_nil (splitPieces_ne_nil (· == separator) cs)
        rw [hsplit]
        rfl

namespace FileTree

variable {t t' : FileTree} {path other : FilePath}

/-! ### Files that are written and erased -/

/-- The content of the file under a path, if there is one. -/
def content? (t : FileTree) (path : FilePath) : Option Content :=
  match t.entry? path with
  | some (.file content) => some content
  | _ => none

theorem content?_eq_some_iff {content : Content} :
    t.content? path = some content ↔ t.entry? path = some (.file content) := by
  unfold content?
  split <;> simp_all

/-- A directory that is put where nothing stands takes no file away. -/
theorem content?_put_directory (h : t.entry? path = none) (other : FilePath) :
    (t.put path .directory).content? other = t.content? other := by
  by_cases hkey : key other = key path
  · have hother : t.entry? other = none := by rw [FileTree.entry?, hkey]; exact h
    simp [content?, entry?_put, hkey, hother]
  · simp [content?, entry?_put, hkey]

/-- Directories are created without a change to any file. -/
theorem content?_createAlong {at_ last : FilePath} {names : List String}
    (h : t.createAlong at_ names = some (t', last)) (other : FilePath) :
    t'.content? other = t.content? other := by
  fun_induction createAlong t at_ names with
  | case1 => cases h; rfl
  | case2 t at_ rest ih => exact ih h
  | case3 t at_ name rest _ _ ih => exact ih h
  | case4 => cases h
  | case5 t at_ name rest _ hnone ih =>
      -- A directory is put only where nothing stands.
      rw [ih h, content?_put_directory hnone]

/-- A file that is written takes the place of that under its path, and of no other. -/
theorem content?_writeAt {content : Content} (h : t.writeAt path content = some t')
    (other : FilePath) :
    t'.content? other = if key other = key path then some content else t.content? other := by
  unfold writeAt at h
  split at h
  · cases h
  · cases h
    by_cases hkey : key other = key path <;> simp [content?, entry?_put, hkey]

/-- A file is there or not after another has been erased. -/
theorem content?_erase (t : FileTree) (path other : FilePath) :
    (t.erase path).content? other = t.content? other ∨ (t.erase path).content? other = none := by
  by_cases hkey : key other = key path
  · exact .inr (by simp [content?, hkey])
  · exact .inl (by simp [content?, hkey])

theorem content?_foldl_erase {α : Type} (pathOf : α → FilePath) (erased : List α) (t : FileTree)
    (other : FilePath) :
    let t' := erased.foldl (fun t a => t.erase (pathOf a)) t
    t'.content? other = t.content? other ∨ t'.content? other = none := by
  induction erased generalizing t with
  | nil => exact .inl rfl
  | cons a erased ih =>
      rcases ih (t.erase (pathOf a)) with h | h
      · rcases t.content?_erase (pathOf a) other with h' | h'
        · exact .inl (h.trans h')
        · exact .inr (h.trans h')
      · exact .inr h

/-! ### Names and keys -/

/-- Whether a text can be a name in a path: it is not empty, does not mean the directory itself, and
holds no slash. -/
def IsName (name : String) : Prop := name ≠ "" ∧ name ≠ "." ∧ '/' ∉ name.toList

instance (name : String) : Decidable (IsName name) := inferInstanceAs (Decidable (_ ∧ _))

/-- Whether a path holds names only. -/
def IsPath (path : FilePath) : Prop := ∀ name ∈ path, IsName name

instance (path : FilePath) : Decidable (IsPath path) :=
  inferInstanceAs (Decidable (∀ name ∈ path, _))

theorem isPath_concat {directory : FilePath} {name : String} (hdirectory : IsPath directory)
    (hname : IsName name) : IsPath (directory ++ [name]) := by
  intro n hn
  rcases List.mem_append.mp hn with hn | hn
  · exact hdirectory n hn
  · rw [List.mem_singleton.mp hn]
    exact hname

/-- A text that begins with no dot and holds no slash is a name. -/
theorem isName_of_cons {name : String} {c : Char} {rest : List Char}
    (hname : name.toList = c :: rest) (hdot : c ≠ '.') (hslash : '/' ∉ name.toList) :
    IsName name := by
  refine ⟨?_, ?_, hslash⟩
  · rintro rfl
    cases hname
  · rintro rfl
    obtain ⟨rfl, -⟩ := List.cons.inj hname
    exact hdot rfl

theorem isName_of_mem_names {text name : String} (h : name ∈ names text) : IsName name := by
  rw [names, List.mem_filter, List.mem_map, Bool.and_eq_true, bne_iff_ne, bne_iff_ne] at h
  obtain ⟨⟨piece, hpiece, rfl⟩, hne, hdot⟩ := h
  refine ⟨hne, hdot, fun hslash => ?_⟩
  rw [String.toList_ofList] at hslash
  exact beq_eq_false_iff_ne.mp (eq_false_of_mem_splitPieces hpiece _ hslash) rfl

/-- The pieces of a text in which slashes stand between names are the names. -/
theorem splitPieces_intercalate_names (hne : path ≠ []) (h : IsPath path) :
    splitPieces (· == '/') ("/".intercalate path).toList = path.map String.toList := by
  rw [String.toList_intercalate]
  refine splitPieces_intercalate (by simpa using hne) fun piece hpiece => ?_
  obtain ⟨name, hname, rfl⟩ := List.mem_map.mp hpiece
  exact (h name hname).2.2

/-- A path is read back from its key. -/
theorem pathOfKey_key (h : IsPath path) : pathOfKey (key path) = path := by
  have hslash : (key path).toList = '/' :: ("/".intercalate path).toList := by
    rw [key, String.toList_append]
    rfl
  rw [pathOfKey, names, hslash, splitPieces, if_pos (beq_self_eq_true _), List.map_cons,
    List.filter_cons_of_neg (by simp)]
  by_cases hpath : path = []
  · subst hpath
    rfl
  · have hfilter : path.filter (fun n => n != "" && n != ".") = path := by
      refine List.filter_eq_self.mpr fun name hname => ?_
      obtain ⟨hne, hdot, -⟩ := h name hname
      simp [hne, hdot]
    rw [splitPieces_intercalate_names hpath h, List.map_map]
    simpa [Function.comp_def] using hfilter

theorem key_inj (h : IsPath path) (h' : IsPath other) (hkey : key path = key other) :
    path = other := by
  rw [← pathOfKey_key h, hkey, pathOfKey_key h']

/-- Texts with a separator between them end with the last text, whatever it is. -/
theorem exists_intercalate_append (separator : List Char) (init : List (List Char)) :
    ∃ before, ∀ last, separator.intercalate (init ++ [last]) = before ++ last := by
  induction init with
  | nil => exact ⟨[], fun last => by simp⟩
  | cons first init ih =>
      obtain ⟨before, hbefore⟩ := ih
      refine ⟨first ++ separator ++ before, fun last => ?_⟩
      rw [List.cons_append, List.intercalate_cons_of_ne_nil (by simp), hbefore]
      simp

/-- Paths that differ in their last segment are different texts. -/
theorem intercalate_inj {init : List String} {a b : String}
    (h : "/".intercalate (init ++ [a]) = "/".intercalate (init ++ [b])) : a = b := by
  obtain ⟨before, hbefore⟩ := exists_intercalate_append ['/'] (init.map String.toList)
  have hchars := congrArg String.toList h
  simp only [String.toList_intercalate, List.map_append, List.map_singleton] at hchars
  rw [show "/".toList = ['/'] from rfl, hbefore, hbefore] at hchars
  exact String.toList_inj.mp (List.append_cancel_left hchars)

/-- The keys of names in one directory have the order of the names. -/
theorem key_concat_lt {directory : FilePath} {a b : String}
    (h : key (directory ++ [a]) < key (directory ++ [b])) : a < b := by
  obtain ⟨before, hbefore⟩ := exists_intercalate_append ['/'] (directory.map String.toList)
  rw [String.lt_iff_toList_lt] at h ⊢
  simp only [key, String.toList_append, String.toList_intercalate, List.map_append,
    List.map_singleton] at h
  rw [show "/".toList = ['/'] from rfl, hbefore, hbefore, ← List.append_assoc,
    ← List.append_assoc] at h
  exact append_lt_append_iff.mp h

/-! ### Removing the files below a directory -/

theorem content?_erase_eq (t : FileTree) (path other : FilePath) :
    (t.erase path).content? other = if key other = key path then none else t.content? other := by
  by_cases hkey : key other = key path <;> simp [content?, hkey]

/-- After files have been erased, those are left that were not among them. -/
theorem content?_foldl_erase_of_ne {α : Type} (pathOf : α → FilePath) (erased : List α)
    (h : ∀ a ∈ erased, key other ≠ key (pathOf a)) (t : FileTree) :
    (erased.foldl (fun t a => t.erase (pathOf a)) t).content? other = t.content? other := by
  induction erased generalizing t with
  | nil => rfl
  | cons a erased ih =>
      rw [List.forall_mem_cons] at h
      rw [List.foldl_cons, ih h.2, content?_erase_eq, if_neg h.1]

/-- After files have been erased, none of them is left. -/
theorem content?_foldl_erase_of_mem {α : Type} (pathOf : α → FilePath) (erased : List α)
    (h : ∃ a ∈ erased, key other = key (pathOf a)) (t : FileTree) :
    (erased.foldl (fun t a => t.erase (pathOf a)) t).content? other = none := by
  induction erased generalizing t with
  | nil =>
      obtain ⟨a, ha, -⟩ := h
      cases ha
  | cons a erased ih =>
      obtain ⟨b, hb, hkey⟩ := h
      rw [List.foldl_cons]
      rcases List.mem_cons.mp hb with rfl | hb
      · rcases content?_foldl_erase pathOf erased (t.erase (pathOf b)) other with hsame | hgone
        · rw [hsame, content?_erase_eq, if_pos hkey]
        · exact hgone
      · exact ih ⟨b, hb, hkey⟩ _

theorem fileBelow?_eq_some_iff {directory rest : FilePath} {k : String} {entry : FileEntry}
    {content : Content} : fileBelow? directory (k, entry) = some (rest, content) ↔
      entry = .file content ∧ directory ++ rest = pathOfKey k := by
  cases entry with
  | directory => simp [fileBelow?]
  | file c =>
      rw [fileBelow?]
      constructor
      · intro h
        split at h
        · rename_i hprefix
          cases h
          obtain ⟨tail, htail⟩ := List.isPrefixOf_iff_prefix.mp hprefix
          rw [← htail, List.drop_left]
          exact ⟨rfl, rfl⟩
        · cases h
      · rintro ⟨hcontent, hpath⟩
        cases hcontent
        rw [if_pos (List.isPrefixOf_iff_prefix.mpr ⟨rest, hpath⟩), ← hpath, List.drop_left]

theorem mem_filesBelow {directory rest : FilePath} {content : Content} :
    (rest, content) ∈ t.filesBelow directory ↔
      ∃ k : String, t.entries[k]? = some (.file content) ∧ directory ++ rest = pathOfKey k := by
  rw [filesBelow, List.mem_filterMap]
  constructor
  · rintro ⟨⟨k, entry⟩, hentry, hrest⟩
    obtain ⟨rfl, hpath⟩ := fileBelow?_eq_some_iff.mp hrest
    exact ⟨k, Std.TreeMap.mem_toList_iff_getElem?_eq_some.mp hentry, hpath⟩
  · rintro ⟨k, hk, hpath⟩
    exact ⟨(k, .file content), Std.TreeMap.mem_toList_iff_getElem?_eq_some.mpr hk,
      fileBelow?_eq_some_iff.mpr ⟨rfl, hpath⟩⟩

/-- The tree without the files below a directory. -/
theorem content?_removed (directory : FilePath) (h : IsPath other) :
    ((t.filesBelow directory).foldl (fun t file => t.erase (directory ++ file.1)) t).content?
      other = if directory <+: other then none else t.content? other := by
  split
  · rename_i hbelow
    obtain ⟨rest, rfl⟩ := hbelow
    cases hcontent : t.content? (directory ++ rest) with
    | none =>
        rcases content?_foldl_erase (fun file : FilePath × Content => directory ++ file.1)
          (t.filesBelow directory) t (directory ++ rest) with hsame | hgone
        · exact hsame.trans hcontent
        · exact hgone
    | some content =>
        refine content?_foldl_erase_of_mem _ _ ⟨(rest, content), ?_, rfl⟩ t
        exact mem_filesBelow.mpr ⟨key (directory ++ rest), content?_eq_some_iff.mp hcontent,
          (pathOfKey_key h).symm⟩
  · rename_i houtside
    refine content?_foldl_erase_of_ne _ _ (fun file hfile hkey => houtside ?_) t
    obtain ⟨k, -, hpath⟩ := mem_filesBelow.mp hfile
    -- A file that is erased has the path that its key spells, which is a path of names.
    have hnames : IsPath (directory ++ file.1) := by
      rw [hpath]
      exact fun name hname => isName_of_mem_names hname
    exact ⟨file.1, (key_inj h hnames hkey).symm⟩

/-! ### The way to a directory -/

/-- Where names lead from a directory. -/
def walk (at_ : FilePath) : List String → FilePath
  | [] => at_
  | ".." :: rest => walk (above at_) rest
  | name :: rest => walk (at_ ++ [name]) rest

theorem isPath_walk {at_ : FilePath} {names : List String} (hat : IsPath at_)
    (hnames : ∀ name ∈ names, IsName name) : IsPath (walk at_ names) := by
  fun_induction walk at_ names with
  | case1 => exact hat
  | case2 at_ rest ih =>
      exact ih (fun name hname => hat name (List.dropLast_subset _ hname))
        fun name hname => hnames name (List.mem_cons_of_mem _ hname)
  | case3 at_ name rest _ ih =>
      exact ih (isPath_concat hat (hnames name List.mem_cons_self))
        fun n hn => hnames n (List.mem_cons_of_mem _ hn)

/-- A written path starts at a path, if the working directory is one. -/
theorem isPath_start (h : IsPath t.workingDirectory) (text : String) : IsPath (t.start text) := by
  rw [start]
  split
  · exact nofun
  · exact h

/-- Names are followed to where they lead. -/
theorem eq_walk_of_follow {at_ last : FilePath} {names : List String}
    (h : t.follow at_ names = .ok last) : last = walk at_ names := by
  fun_induction FileTree.follow t at_ names with
  | case1 => cases h; rfl
  | case2 at_ rest ih => exact ih h
  | case3 at_ name hname =>
      cases h
      rw [walk, walk]
      exact hname
  | case4 at_ name rest hname _ _ ih =>
      rw [walk]
      · exact ih h
      · exact hname
  | case5 => cases h
  | case6 => cases h

/-- Directories are created up to the place where the names lead, and the working directory stays
the same. -/
theorem createAlong_eq {at_ last : FilePath} {names : List String}
    (h : t.createAlong at_ names = some (t', last)) :
    last = walk at_ names ∧ t'.workingDirectory = t.workingDirectory := by
  fun_induction createAlong t at_ names with
  | case1 => cases h; exact ⟨rfl, rfl⟩
  | case2 t at_ rest ih => exact ih h
  | case3 t at_ name rest hname _ ih =>
      rw [walk]
      · exact ih h
      · exact hname
  | case4 => cases h
  | case5 t at_ name rest hname _ ih =>
      rw [walk]
      · exact ih h
      · exact hname

/-! ### Trees whose keys are paths

A new tree is regular, and stays so when directories are created and files written and erased. -/

/-- A tree in which everything stands under the key of a path of names, and the working directory is
one. -/
structure IsRegular (t : FileTree) : Prop where
  workingDirectory : IsPath t.workingDirectory
  keys : ∀ k entry, t.entries[k]? = some entry → ∃ path, IsPath path ∧ k = key path

theorem isRegular_empty (h : IsPath path) : (empty path).IsRegular where
  workingDirectory := h
  keys k entry hentry := by
    have hmem : k ∈ (empty path).entries :=
      Std.TreeMap.mem_iff_isSome_getElem?.mpr (Option.isSome_of_eq_some hentry)
    rw [empty, Std.TreeMap.mem_ofList, List.contains_iff_mem, List.map_map] at hmem
    obtain ⟨n, -, rfl⟩ := List.mem_map.mp hmem
    exact ⟨path.take n, fun name hname => h name (List.mem_of_mem_take hname), rfl⟩

namespace IsRegular

theorem put (h : t.IsRegular) (hpath : IsPath path) (entry : FileEntry) :
    (t.put path entry).IsRegular where
  workingDirectory := h.workingDirectory
  keys k found hfound := by
    rw [FileTree.put, Std.TreeMap.getElem?_insert] at hfound
    split at hfound
    · rename_i hkey
      exact ⟨path, hpath, (Std.LawfulEqCmp.eq_of_compare hkey).symm⟩
    · exact h.keys k found hfound

theorem erase (h : t.IsRegular) (path : FilePath) : (t.erase path).IsRegular where
  workingDirectory := h.workingDirectory
  keys k found hfound := by
    rw [FileTree.erase, Std.TreeMap.getElem?_erase] at hfound
    split at hfound
    · cases hfound
    · exact h.keys k found hfound

theorem isPath_start (h : t.IsRegular) (text : String) : IsPath (t.start text) :=
  FileTree.isPath_start h.workingDirectory text

theorem createAlong {at_ last : FilePath} {names : List String} (h : t.IsRegular)
    (hat : IsPath at_) (hnames : ∀ name ∈ names, IsName name)
    (hcreate : t.createAlong at_ names = some (t', last)) : t'.IsRegular := by
  fun_induction FileTree.createAlong t at_ names with
  | case1 => cases hcreate; exact h
  | case2 t at_ rest ih =>
      exact ih h (fun name hname => hat name (List.dropLast_subset _ hname))
        (fun name hname => hnames name (List.mem_cons_of_mem _ hname)) hcreate
  | case3 t at_ name rest _ _ ih =>
      rw [List.forall_mem_cons] at hnames
      exact ih h (isPath_concat hat hnames.1) hnames.2 hcreate
  | case4 => cases hcreate
  | case5 t at_ name rest _ _ ih =>
      rw [List.forall_mem_cons] at hnames
      have hpath := isPath_concat hat hnames.1
      exact ih (h.put hpath .directory) hpath hnames.2 hcreate

theorem createDirectories {text : String} {last : FilePath} (h : t.IsRegular)
    (hcreate : t.createDirectories text = some (t', last)) : t'.IsRegular :=
  h.createAlong (h.isPath_start text) (fun _ => isName_of_mem_names) hcreate

theorem writeAt {content : Content} (h : t.IsRegular) (hpath : IsPath path)
    (hwrite : t.writeAt path content = some t') : t'.IsRegular := by
  unfold FileTree.writeAt at hwrite
  split at hwrite
  · cases hwrite
  · cases hwrite
    exact h.put hpath _

theorem write {text : String} {content : Content} (h : t.IsRegular)
    (hwrite : t.write text content = some t') : t'.IsRegular := by
  have hnames (name : String) (hname : name ∈ names text) : IsName name :=
    isName_of_mem_names hname
  have habove (name : String) (hname : name ∈ (names text).dropLast) : IsName name :=
    hnames name (List.dropLast_subset _ hname)
  unfold FileTree.write at hwrite
  dsimp only at hwrite
  split at hwrite
  · rename_i created directory hcreate
    split at hwrite
    · rename_i name hname
      have hdirectory : IsPath directory := by
        rw [(createAlong_eq hcreate).1]
        exact isPath_walk (h.isPath_start text) habove
      exact (h.createAlong (h.isPath_start text) habove hcreate).writeAt
        (isPath_concat hdirectory (hnames name (List.mem_of_getLast? hname))) hwrite
    · cases hwrite
  · cases hwrite

end IsRegular

end FileTree

end BatchTransfer
