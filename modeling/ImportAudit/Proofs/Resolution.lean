import ImportAudit.Resolution
import ImportAudit.Proofs.Disk
import ImportAudit.Proofs.Path
import Mathlib.Data.List.Find

/-! Which files a specifier can stand for. Seen from an absolute path they are found at a place of
the tree, or beyond it by one of three additions for each extension: a bound that does not depend on
the specifier. -/
namespace ImportAudit.Resolution

variable {disk : Disk} {extensions : List String} {importer target path : Path} {specifier : String}

theorem resolve?_isFile (found : resolve? disk extensions importer specifier = some target) :
    disk.isFile target = true := by
  unfold resolve? at found
  split at found
  · exact List.find?_some found
  · cases found

theorem resolve?_candidate (found : resolve? disk extensions importer specifier = some target) :
    isRelative specifier = true ∧ target ∈ candidates extensions (base importer specifier) := by
  unfold resolve? at found
  split at found
  · exact ⟨‹_›, List.mem_of_find?_eq_some found⟩
  · cases found

theorem parse_anchor_of_isRelative (relative : isRelative specifier = true) :
    (Path.parse specifier).anchor = .relative := by
  unfold isRelative at relative
  cases text : specifier.toList with
  | nil => simp [text] at relative
  | cons c rest =>
      obtain rfl : '.' = c := by simpa [text] using relative
      simp [Path.parse, text, Anchor.ofText]

theorem base_anchor (importer : Path) (relative : isRelative specifier = true) :
    (base importer specifier).anchor = importer.anchor := by
  simp [base, Path.normalize, Path.join, parse_anchor_of_isRelative relative, Path.parent]

theorem parent_not_mem_normalize (absolute : path.anchor ≠ .relative) :
    ".." ∉ path.normalize.parts := by
  simp only [Path.normalize, decide_eq_false absolute]
  exact Path.parent_not_mem_normalizeParts path.parts List.not_mem_nil

theorem parent_not_mem_base (relative : isRelative specifier = true)
    (absolute : importer.anchor ≠ .relative) : ".." ∉ (base importer specifier).parts := by
  apply parent_not_mem_normalize
  simpa [Path.join, parse_anchor_of_isRelative relative, Path.parent] using absolute

/-- What an extension can add to a place: its pieces beyond the first, an index file, or the whole of
it where the place is the top. -/
def additions (extension : String) : List (List String) :=
  [Path.partsAmong (Text.split '/' extension.toList).tail, (Path.parse ("index" ++ extension)).parts,
    (Path.parse extension).parts]

/-- The places of a disk, each without and with every addition. -/
def extendedPlaces (disk : Disk) (extensions : List String) : List (List String) :=
  ([] :: disk.entries.places).flatMap fun place =>
    place :: extensions.flatMap fun extension => (additions extension).map (place ++ ·)

theorem length_extendedPlaces (disk : Disk) (extensions : List String) :
    (extendedPlaces disk extensions).length =
      (disk.entries.size + 1) * (3 * extensions.length + 1) := by
  have each (place : List String) :
      (place :: extensions.flatMap fun extension =>
        (additions extension).map (place ++ ·)).length = 3 * extensions.length + 1 := by
    simp [List.length_flatMap, additions, List.map_const', Nat.mul_comm]
  simp only [extendedPlaces, List.length_flatMap, each, List.map_const', List.sum_replicate_nat,
    List.length_cons, Entries.length_places]

theorem place_mem_extendedPlaces {place : List String} (there : place ∈ [] :: disk.entries.places) :
    place ∈ extendedPlaces disk extensions :=
  List.mem_flatMap.mpr ⟨place, there, List.mem_cons_self⟩

theorem addition_mem_extendedPlaces {place addition : List String} {extension : String}
    (there : place ∈ [] :: disk.entries.places) (listed : extension ∈ extensions)
    (added : addition ∈ additions extension) : place ++ addition ∈ extendedPlaces disk extensions :=
  List.mem_flatMap.mpr ⟨place, there, List.mem_cons_of_mem _ (List.mem_flatMap.mpr
    ⟨extension, listed, List.mem_map.mpr ⟨addition, added, rfl⟩⟩)⟩

/-- Text added to a component makes no `..` of it. -/
theorem append_ne_parent {part : String} (component : IsComponent part) (notParent : ".." ≠ part)
    (text : Text) : ".." ≠ String.ofList (part.toList ++ text) := by
  obtain ⟨notEmpty, notDot, -⟩ := component
  intro parent
  have letters : part.toList ++ text = ['.', '.'] := by
    simpa using congrArg String.toList parent.symm
  rcases List.append_eq_cons_iff.mp letters with ⟨empty, -⟩ | ⟨rest, whole, more⟩
  · exact notEmpty (String.toList_injective empty)
  · rcases List.append_eq_cons_iff.mp more.symm with ⟨empty, -⟩ | ⟨ending, after, last⟩
    · exact notDot (String.toList_injective (by rw [whole, empty]; rfl))
    · obtain ⟨rfl, -⟩ := List.append_eq_nil_iff.mp last.symm
      exact notParent (String.toList_injective (by rw [whole, after]; rfl))

theorem withExtension_parts (written : ¬ (path.anchor = .relative ∧ path.parts = []))
    (extension : String) : (withExtension path extension).parts =
      Path.partsOf (("/".intercalate path.parts).toList ++ extension.toList) := by
  simp only [withExtension, Path.parse, Path.render, if_neg written, String.toList_append,
    List.append_assoc, Path.partsOf_anchored]

theorem withExtension_parts_top (absolute : path.anchor ≠ .relative) (top : path.parts = [])
    (extension : String) : (withExtension path extension).parts = (Path.parse extension).parts := by
  rw [withExtension_parts fun bare => absolute bare.1, top]
  rfl

/-- The last name takes the extension's first piece to itself. -/
theorem withExtension_parts_concat {folders : List String} {last : String}
    (parts : path.parts = folders ++ [last]) (extension : String) :
    (withExtension path extension).parts =
      (folders ++ [String.ofList (last.toList ++ (Text.split '/' extension.toList).headD [])]) ++
        Path.partsAmong (Text.split '/' extension.toList).tail := by
  have component : IsComponent last := path.proper last (by simp [parts])
  have folderParts : ∀ part ∈ folders, IsComponent part := fun part member =>
    path.proper part (by simp [parts, member])
  rw [withExtension_parts (by simp [parts]), parts, Path.partsOf_joined folderParts,
    Path.partsOf_component_append component]
  simp

theorem withExtension_mem {extension : String} (absolute : path.anchor ≠ .relative)
    (down : ".." ∉ path.parts) (listed : extension ∈ extensions)
    (file : disk.isFile (withExtension path extension) = true) :
    (withExtension path extension).parts ∈ extendedPlaces disk extensions := by
  rcases List.eq_nil_or_concat path.parts with top | ⟨folders, last, parts⟩
  · rw [withExtension_parts_top absolute top]
    have whole : (Path.parse extension).parts ∈ additions extension := by simp [additions]
    exact addition_mem_extendedPlaces List.mem_cons_self listed whole
  · rw [List.concat_eq_append] at parts
    have component : IsComponent last := path.proper last (by simp [parts])
    obtain ⟨above, notParent⟩ : ".." ∉ folders ∧ ".." ≠ last := by simpa [parts] using down
    -- the last name with what it takes, and its folders, are a place
    have split := withExtension_parts_concat parts extension
    have place := Disk.place_of_isFile file split
      (by simpa [above] using append_ne_parent component notParent _)
    rw [split]
    exact addition_mem_extendedPlaces place listed (by simp [additions])

theorem indexFile_parts (folder : Path) (extension : String) :
    (indexFile folder extension).parts =
      folder.parts ++ (Path.parse ("index" ++ extension)).parts := by
  have relative : (Path.parse ("index" ++ extension)).anchor = .relative := by
    simp [Path.parse, String.toList_append, Anchor.ofText]
  simp [indexFile, Path.join, relative]

/-- Seen from an absolute path, a specifier leads to a place of the disk or beyond it by an
addition. -/
theorem resolve?_mem_extendedPlaces (absolute : importer.anchor ≠ .relative)
    (found : resolve? disk extensions importer specifier = some target) :
    target.parts ∈ extendedPlaces disk extensions := by
  obtain ⟨relative, candidate⟩ := resolve?_candidate found
  have file := resolve?_isFile found
  have down := parent_not_mem_base relative absolute
  simp only [candidates, List.cons_append, List.mem_cons, List.mem_append, List.mem_map]
    at candidate
  rcases candidate with rfl | ⟨extension, listed, rfl⟩ | ⟨extension, listed, rfl⟩
  · exact place_mem_extendedPlaces (Disk.place_of_isFile file (List.append_nil _).symm down)
  · exact withExtension_mem (by rwa [base_anchor importer relative]) down listed file
  · rw [indexFile_parts]
    exact addition_mem_extendedPlaces (Disk.place_of_isFile file (indexFile_parts _ _) down) listed
      (by simp [additions])

section Plain

variable {one other : Disk} {candidate : Path}
  (plain : ∀ extension ∈ extensions, '/' ∉ extension.toList)
include plain

/-- Extensions without a slash bring no `..` into a path, unless all of the path is the extension. -/
theorem parent_not_mem_candidate (absolute : path.anchor ≠ .relative) (down : ".." ∉ path.parts)
    (listed : candidate ∈ candidates extensions path) :
    ".." ∉ candidate.parts ∨ candidate.parts = [".."] := by
  simp only [candidates, List.cons_append, List.mem_cons, List.mem_append, List.mem_map] at listed
  rcases listed with rfl | ⟨extension, given, rfl⟩ | ⟨extension, given, rfl⟩
  · exact Or.inl down
  · have slashless := plain extension given
    rcases List.eq_nil_or_concat path.parts with top | ⟨folders, last, parts⟩
    · rw [withExtension_parts_top absolute top]
      rcases Path.parse_parts_of_not_mem slashless with none | one
      · exact Or.inl (by simp [none])
      · by_cases up : extension = ".."
        · exact Or.inr (one.trans (by rw [up]))
        · exact Or.inl (by simp [one, Ne.symm up])
    · rw [List.concat_eq_append] at parts
      have component : IsComponent last := path.proper last (by simp [parts])
      obtain ⟨above, notParent⟩ : ".." ∉ folders ∧ ".." ≠ last := by simpa [parts] using down
      have named := append_ne_parent component notParent extension.toList
      refine Or.inl ?_
      rw [withExtension_parts_concat parts, Text.split_of_not_mem slashless]
      simpa [Path.partsAmong, above] using named
  · refine Or.inl ?_
    have slashless : '/' ∉ ("index" ++ extension).toList := by
      simpa [String.toList_append] using plain extension given
    have component : IsComponent "index" := by decide
    have named := append_ne_parent component (by decide) extension.toList
    rw [← String.toList_append, String.ofList_toList] at named
    rw [indexFile_parts]
    rcases Path.parse_parts_of_not_mem slashless with none | one
    · simpa only [none, List.append_nil] using down
    · rw [one]
      simp only [List.mem_append, List.mem_singleton, not_or]
      exact ⟨down, named⟩

theorem resolve?_down (absolute : importer.anchor ≠ .relative)
    (found : resolve? disk extensions importer specifier = some target) : ".." ∉ target.parts := by
  obtain ⟨relative, candidate⟩ := resolve?_candidate found
  have anchored : (base importer specifier).anchor ≠ .relative := by
    rwa [base_anchor importer relative]
  have down := parent_not_mem_base relative absolute
  rcases parent_not_mem_candidate plain anchored down candidate with clean | up
  · exact clean
  · have file := resolve?_isFile found
    rw [Disk.isFile_of_up up] at file
    cases file

/-- Disks with files at the same places give a specifier the same meaning. -/
theorem resolve?_congr (absolute : importer.anchor ≠ .relative)
    (same : ∀ path : Path, ".." ∉ path.parts → other.isFile path = one.isFile path)
    (specifier : String) :
    resolve? other extensions importer specifier = resolve? one extensions importer specifier := by
  unfold resolve?
  split
  · rename_i relative
    have anchored : (base importer specifier).anchor ≠ .relative := by
      rwa [base_anchor importer relative]
    have down := parent_not_mem_base relative absolute
    refine List.find?_congr fun candidate listed => ?_
    rcases parent_not_mem_candidate plain anchored down listed with clean | up
    · exact same candidate clean
    · rw [Disk.isFile_of_up up, Disk.isFile_of_up up]
  · rfl

end Plain

end ImportAudit.Resolution
