import BatchTransfer.Proofs.Staging.Attempts

/-!
# The folders of jobs

In a staging area that is a directory, the folder of a job is one segment, which spells the
identifier of its run (`segments_jobFolder`), so that nothing lies in the folders of two runs
(`not_isWithin_jobFolder`). What a call of a sink does to the objects of the area, it does in the
folder of its own job (`StagingSink.Step.spared`).
-/

namespace BatchTransfer.Staging

open BatchTransfer.Text

/-! ### One segment for each run -/

/-- Whether a character of a name is encoded in its segment. -/
def isChangedInSegment (c : Char) : Bool := isEncodedInSegment c || c.toNat ≥ 0x80

/-- A name that holds nothing that is encoded, and is not of dots alone, is its own segment. -/
theorem encodeSegment_eq_self {c : Char} {cs : List Char} (hc : c ≠ '.')
    (h : ∀ d ∈ c :: cs, isChangedInSegment d = false) : encodeSegment (c :: cs) = c :: cs := by
  have hencode (name : List Char) (h : ∀ d ∈ name, isChangedInSegment d = false) :
      percentEncode isEncodedInSegment name = name := by
    induction name with
    | nil => rfl
    | cons d name ih =>
        obtain ⟨hd, hname⟩ := List.forall_mem_cons.mp h
        rw [isChangedInSegment] at hd
        rw [percentEncode, List.flatMap_cons, hd, if_neg Bool.false_ne_true, ← percentEncode,
          ih hname]
        rfl
  rw [encodeSegment, if_neg (by simp [hc]), if_neg (by simp [hc]), hencode _ h]

/-- The path of such a name has it as its only segment. -/
theorem ObjectPath.segments_ofText {text : String} {c : Char} {cs : List Char}
    (htext : text.toList = c :: cs) (hc : c ≠ '.')
    (h : ∀ d ∈ c :: cs, isChangedInSegment d = false) : (ofText text).segments = [text] := by
  have hslash : ∀ d ∈ c :: cs, (d == '/') = false := fun d hd => by
    refine beq_eq_false_iff_ne.mpr ?_
    rintro rfl
    exact absurd (h _ hd) (by decide)
  have hpieces : pieces text = [c :: cs] := by
    rw [pieces, htext, splitPieces_of_forall hslash]
    rfl
  rw [ofText, hpieces, List.map_singleton, encodeSegment_eq_self hc h, ← htext,
    String.ofList_toList]

/-- The digits of an identifier are not encoded. -/
theorem isChangedInSegment_of_mem_hexDigits {places n : Nat} {c : Char}
    (h : c ∈ RunId.hexDigits places n) : isChangedInSegment c = false := by
  have hdigit : ∀ n < 16, isChangedInSegment (RunId.hexDigit n) = false := by decide
  induction places generalizing n with
  | zero => cases h
  | succ places ih =>
      rw [RunId.hexDigits, List.mem_append, List.mem_singleton] at h
      rcases h with h | rfl
      · exact ih h
      · exact hdigit _ (Nat.mod_lt _ (by omega))

namespace StagingSink

variable {root : String} {run run' : RunId} {p : ObjectPath}

/-- The folder of a run in a directory is one segment. -/
theorem segments_jobFolder :
    (ObjectPath.ofText (jobFolder (.directory root) run)).segments =
      ["datatunnel-" ++ run.full] := by
  have hchars : ("datatunnel-" ++ run.full).toList = "datatunnel-".toList ++
      (run.shortChars ++ "-0000-4000-8000-".toList ++
        RunId.hexDigits 12 (run.number / Nat.pow 16 8)) := by
    rw [String.toList_append, RunId.full]
    exact congrArg _ String.toList_ofList
  have hfolder : jobFolder (.directory root) run = "datatunnel-" ++ run.full := by
    rw [jobFolder, joinNonEmpty, Location.folder, List.filter_cons_of_neg (by simp),
      List.filter_cons_of_pos (by simp)]
    rfl
  rw [hfolder]
  refine ObjectPath.segments_ofText hchars (by decide) fun c hc => ?_
  change c ∈ "datatunnel-".toList ++ _ at hc
  rw [List.mem_append, List.mem_append, List.mem_append] at hc
  have hname : "datatunnel-".toList.all (!isChangedInSegment ·) = true := by decide
  have hmiddle : "-0000-4000-8000-".toList.all (!isChangedInSegment ·) = true := by decide
  rcases hc with hc | (hc | hc) | hc
  · simpa using List.all_eq_true.mp hname c hc
  · exact isChangedInSegment_of_mem_hexDigits hc
  · simpa using List.all_eq_true.mp hmiddle c hc
  · exact isChangedInSegment_of_mem_hexDigits hc

/-- Nothing lies in the folders of two runs. -/
theorem not_isWithin_jobFolder (hrun : run.full ≠ run'.full)
    (h : p.IsWithin (.ofText (jobFolder (.directory root) run))) :
    ¬ p.IsWithin (.ofText (jobFolder (.directory root) run')) := by
  intro h'
  rw [ObjectPath.IsWithin, segments_jobFolder] at h h'
  obtain ⟨rest, hrest⟩ := h
  obtain ⟨rest', hrest'⟩ := h'
  have hsame : "datatunnel-" ++ run.full = "datatunnel-" ++ run'.full :=
    (List.cons.inj (hrest.trans hrest'.symm)).1
  exact hrun (String.append_right_inj _ |>.mp hsame)

/-! ### What a call does to the area -/

variable {g g' : StagingSink} {host host' : Host} {event : StagingEvent} {path : FilePath}

theorem isRooted_directory (h : FileTree.IsPath path) : (Store.directory path).IsRooted := by
  rintro _ ⟨⟩
  exact h

theorem eq_directory_of_isLike {store : Store} (h : store.IsLike (.directory path)) :
    store = .directory path := by
  obtain ⟨objects, hlike⟩ := h
  exact hlike

/-- The sink of an area that is a directory has this area as its store, if it has any. -/
theorem store_eq_of_usesArea {store : Store} (h : g.UsesArea (.directory path))
    (hstore : g.store = some store) : store = .directory path :=
  eq_directory_of_isLike (h store hstore)

/-- The objects of the area of a sink are those of its store. -/
theorem objectAt?_of_usesArea (h : g.UsesArea (.directory path)) (p : ObjectPath) :
    objectAt? (.directory path) (g, host) p = (Store.directory path).get? host.shelves p := by
  cases hstore : g.store with
  | none => rw [objectAt?, hstore, Option.getD_none]
  | some store => rw [objectAt?_of_store hstore, store_eq_of_usesArea h hstore]

/-- What is known of the area when a call of a sink has ended: it is still the area of the sink, and
all objects but those in the folder of its job are as they were. -/
structure Spared (path : FilePath) (folder : String) (g' : StagingSink) (host host' : Host) :
    Prop where
  uses : g'.UsesArea (.directory path)
  workingDirectory :
    host'.shelves.files.workingDirectory = host.shelves.files.workingDirectory
  outside : ∀ p : ObjectPath, p.IsProper → ¬ p.IsWithin (.ofText folder) →
    (Store.directory path).get? host'.shelves p = (Store.directory path).get? host.shelves p

/-- What a call leaves as it was, when the area is looked at from the call on. -/
theorem Tidy.spared (h : Tidy (g, host) (g', host')) (huses : g.UsesArea (.directory path))
    (harea : g.area host.shelves = .directory path) : Spared path g.folder g' host host' := by
  have huses' : g'.UsesArea (.directory path) := harea ▸ h.uses
  refine ⟨huses', h.workingDirectory, fun p hp hout => ?_⟩
  have hbelow : p.isBelow (.ofText g.folder) = false :=
    eq_false_of_ne_true fun h => hout (ObjectPath.isWithin_of_isBelow h)
  have houtside := h.outside p hp hbelow
  rwa [harea, objectAt?_of_usesArea huses', objectAt?_of_usesArea huses] at houtside

/-- A call of a sink does nothing outside of the folder of its job. -/
theorem Step.spared (hstep : Step (g, host) event (g', host')) (hcall : event.isCall = true)
    (hroot : FileTree.IsPath path) (huses : g.UsesArea (.directory path))
    (harea : g.area host.shelves = .directory path) : Spared path g.folder g' host host' := by
  have hrooted := isRooted_directory hroot
  cases hstep with
  | opened hopened =>
      cases (complete_openCall ..).symm.trans hopened
      exact ((Tidy.refl (g, host)).openStore rfl).spared huses harea
  | @written _ _ _ _ batch _ _ hwritten =>
      cases (complete_writeCall ..).symm.trans hwritten
      exact ((Tidy.refl (g, host)).write (harea ▸ hrooted) rfl batch).spared huses harea
  | committed hcommitted =>
      rw [complete_commitCall] at hcommitted
      split at hcommitted <;> cases hcommitted <;> exact ⟨huses, rfl, fun _ _ _ => rfl⟩
  | closed hclosed =>
      cases (complete_closeCall ..).symm.trans hclosed
      rcases close_cases g host.shelves with ⟨hnothing, -⟩ | hremoved
      · rw [hnothing]
        exact ⟨huses, rfl, fun _ _ _ => rfl⟩
      · obtain ⟨store, store', shelves', hstore, -, hremove, hclose⟩ := hremoved
        rw [hclose]
        cases store_eq_of_usesArea huses hstore
        obtain ⟨hlike, hworking⟩ := Store.isLike_removeBelow hremove
        cases eq_directory_of_isLike hlike
        refine ⟨?_, hworking, fun p hp hout =>
          Store.get?_removeBelow_of_not_isWithin hrooted hp hremove hout⟩
        rintro _ ⟨⟩
        exact .refl _
  | elsewhere => cases hcall
  | tampered => cases hcall

/-- Closing an open sink that is not to keep its parts removes all below the folder of its job. -/
theorem Step.emptied {answer : ConnectorResult Unit}
    (hstep : Step (g, host) (.closed answer) (g', host')) (hroot : FileTree.IsPath path)
    (huses : g.UsesArea (.directory path)) (hkeeps : g.keeps = false) (hstore : g.store ≠ none)
    (hp : p.IsProper) (hbelow : p.isBelow (.ofText g.folder) = true) :
    (Store.directory path).get? host'.shelves p = none := by
  cases hstep with
  | closed hclosed =>
      cases (complete_closeCall ..).symm.trans hclosed
      rcases close_cases g host.shelves with ⟨-, hnone | hkept⟩ | hremoved
      · exact absurd hnone hstore
      · rw [hkeeps] at hkept
        cases hkept
      · obtain ⟨store, store', shelves', hopen, -, hremove, hclose⟩ := hremoved
        cases store_eq_of_usesArea huses hopen
        cases eq_directory_of_isLike (Store.isLike_removeBelow hremove).1
        rw [hclose]
        exact Store.get?_removeBelow_of_isBelow (isRooted_directory hroot) hp hremove hbelow

end StagingSink

end BatchTransfer.Staging
