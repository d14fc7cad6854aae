import ImportAudit.Proofs.NameOrder
import ImportAudit.Proofs.Overwrite
import ImportAudit.Proofs.Survey

/-! A survey lists each source file below its root once, in the order of the components of the paths.
The names of one folder are put in order, and what lies below a name stays together; since paths are
compared by their components first, this is the order of all files at once. -/
namespace ImportAudit

namespace Path

variable {folder : Path} {name : Name} {way : List Name}

/-- The path some names further down. -/
def descend (folder : Path) (way : List Name) : Path := way.foldl child folder

@[simp] theorem descend_nil : folder.descend [] = folder := rfl

@[simp] theorem descend_cons : folder.descend (name :: way) = (folder.child name).descend way := rfl

theorem descend_parts : (folder.descend way).parts = folder.parts ++ way.map Name.text := by
  induction way generalizing folder with
  | nil => simp
  | cons name way ih => simp [ih, child]

/-- Earlier by the first component that differs, and there by code points. -/
def Precedes (path other : Path) : Prop := path.parts < other.parts

instance (path other : Path) : Decidable (path.Precedes other) :=
  inferInstanceAs (Decidable (path.parts < other.parts))

theorem precedes_of_name {first second : Name} (before : first.text < second.text)
    (way way' : List Name) :
    (folder.descend (first :: way)).Precedes (folder.descend (second :: way')) := by
  rw [Precedes, descend_parts, descend_parts, List.map_cons, List.map_cons]
  exact List.append_left_lt (List.cons_lt_cons_iff.mpr (.inl before))

end Path

namespace Entries

variable {entries inside : Entries} {name : Name} {node : Node}

theorem size_lt_of_find? {text : String} (found : entries.find? text = some (.folder inside)) :
    inside.size < entries.size := by
  induction entries with
  | nil => cases found
  | file other bytes others ih =>
      rw [find?] at found
      split at found
      · cases found
      · exact Nat.lt_succ_of_lt (ih found)
  | folder other content others _ ih =>
      rw [find?] at found
      split at found
      · cases found
        rw [size]
        omega
      · have smaller := ih found
        rw [size]
        omega

/-- What holds of a folder when it holds of the folders in it holds of every folder. -/
@[elab_as_elim]
theorem foldersInduction {motive : Entries → Prop} (step : ∀ entries, (∀ name inside,
    entries.find? name = some (.folder inside) → motive inside) → motive entries)
    (entries : Entries) : motive entries := by
  induction size : entries.size using Nat.strong_induction_on generalizing entries with
  | _ n ih =>
      refine step entries fun name inside found => ?_
      exact ih inside.size (size ▸ size_lt_of_find? found) inside rfl

theorem Distinct.nodup_names (distinct : entries.Distinct) : entries.names.Nodup := by
  induction entries with
  | nil => exact List.nodup_nil
  | file name bytes others ih => exact List.nodup_cons.mpr ⟨distinct.1, ih distinct.2⟩
  | folder name inside others _ ih => exact List.nodup_cons.mpr ⟨distinct.1, ih distinct.2.2⟩

end Entries

/-- A path through a folder goes on from what the folder holds. -/
theorem Disk.exists_above {above : List Entries} {here inside : Entries} {parts : List String}
    (found : follow above here parts = .ok (.folder inside)) :
    ∃ uppers, ∀ rest, follow above here (parts ++ rest) = follow uppers inside rest := by
  induction parts generalizing above here with
  | nil =>
      obtain rfl : here = inside := by simpa [follow] using found
      exact ⟨above, fun _ => rfl⟩
  | cons part parts ih =>
      by_cases up : part = ".."
      · subst up
        cases above with
        | nil => exact ih found
        | cons upper uppers => exact ih found
      · simp only [List.cons_append, follow, if_neg up] at found ⊢
        cases next : here.find? part with
        | none => simp [next] at found
        | some node =>
            cases node with
            | file bytes =>
                simp only [next] at found
                split at found <;> cases found
            | folder inner =>
                simp only [next] at found
                exact ih found

namespace Survey

variable {rules : Rules} {disk : Disk} {root folder file : Path} {entries : Entries}

/-- What the survey of a folder meets under a name. -/
def met (rules : Rules) (folder : Path) (name : Name) : Node → List Event
  | .file _ =>
      if isSourceFile rules.extensions (folder.child name) then [.scanned (folder.child name)] else []
  | .folder inside =>
      if isIgnoredFolder rules.ignored name.text then [.skipped (folder.child name)]
      else inNameOrder (byName rules (folder.child name) inside)

theorem mem_byName_iff (once : entries.names.Nodup) {entry : String × List Event} :
    entry ∈ byName rules folder entries ↔ ∃ name node, entries.find? name.text = some node ∧
      entry = (name.text, met rules folder name node) := by
  induction entries with
  | nil => simp [byName, Entries.find?]
  | file first bytes others ih | folder first inside others _ ih =>
      obtain ⟨fresh, once⟩ := List.nodup_cons.mp once
      rw [byName, List.mem_cons, ih once]
      constructor
      · rintro (rfl | ⟨name, node, found, rfl⟩)
        · exact ⟨first, _, if_pos rfl, rfl⟩
        · refine ⟨name, node, ?_, rfl⟩
          rw [Entries.find?, if_neg, found]
          intro same
          rw [← Name.eq_of_text same] at found
          exact fresh (Entries.mem_names_of_find? found)
      · rintro ⟨name, node, found, rfl⟩
        rw [Entries.find?] at found
        split at found
        · rename_i same
          obtain rfl : first = name := Name.eq_of_text same
          cases found
          exact .inl rfl
        · exact .inr ⟨name, node, found, rfl⟩

/-- A way down to a file passes only folders that the survey enters. -/
def Enters (rules : Rules) (way : List Name) : Prop :=
  ∀ name ∈ way.dropLast, isIgnoredFolder rules.ignored name.text = false

theorem mem_met_iff {name : Name} {node : Node} :
    .scanned file ∈ met rules folder name node ↔
      (∃ bytes, node = .file bytes ∧ file = folder.child name ∧
        isSourceFile rules.extensions (folder.child name) = true) ∨
        ∃ inside, node = .folder inside ∧ isIgnoredFolder rules.ignored name.text = false ∧
          .scanned file ∈ inNameOrder (byName rules (folder.child name) inside) := by
  cases node with
  | file bytes =>
      cases source : isSourceFile rules.extensions (folder.child name) <;> simp [met, source]
  | folder inside =>
      cases ignored : isIgnoredFolder rules.ignored name.text <;> simp [met, ignored]

/-- The files that a survey of a folder lists: the source files at the ends of ways down that it
enters. -/
theorem scanned_iff (distinct : entries.Distinct) (above : List Entries) :
    .scanned file ∈ inNameOrder (byName rules folder entries) ↔
      ∃ way bytes, Disk.follow above entries (way.map Name.text) = .ok (.file bytes) ∧
        file = folder.descend way ∧ isSourceFile rules.extensions file = true ∧ Enters rules way := by
  induction entries using Entries.foldersInduction generalizing folder above with
  | step entries ih =>
      rw [mem_inNameOrder]
      constructor
      · rintro ⟨entry, listed, scanned⟩
        obtain ⟨name, node, found, rfl⟩ := (mem_byName_iff distinct.nodup_names).mp listed
        rcases mem_met_iff.mp scanned with ⟨bytes, rfl, rfl, source⟩ | ⟨inside, rfl, entered, scanned⟩
        · refine ⟨[name], bytes, ?_, rfl, source, by simp [Enters]⟩
          exact (Disk.follow_file found).trans (if_pos rfl)
        · obtain ⟨way, bytes, below, rfl, source, enters⟩ :=
            (ih name.text inside found (distinct.of_find? found) (entries :: above)).mp scanned
          have further : way ≠ [] := by
            rintro rfl
            cases below
          refine ⟨name :: way, bytes, (Disk.follow_folder found).trans below, rfl, source, ?_⟩
          rw [Enters, List.dropLast_cons_of_ne_nil further, List.forall_mem_cons]
          exact ⟨entered, enters⟩
      · rintro ⟨way, bytes, reached, rfl, source, enters⟩
        cases way with
        | nil => cases reached
        | cons name way =>
            have member {node : Node} (found : entries.find? name.text = some node) :=
              (@mem_byName_iff rules folder entries distinct.nodup_names _).mpr ⟨name, node, found, rfl⟩
            rcases Disk.find?_of_follow reached with ⟨ended, found⟩ | ⟨inside, found, below⟩
            · obtain rfl : way = [] := List.map_eq_nil_iff.mp ended
              exact ⟨_, member found, mem_met_iff.mpr (.inl ⟨bytes, rfl, rfl, source⟩)⟩
            · have further : way ≠ [] := by
                rintro rfl
                cases below
              rw [Enters, List.dropLast_cons_of_ne_nil further, List.forall_mem_cons] at enters
              refine ⟨_, member found, mem_met_iff.mpr (.inr ⟨inside, rfl, enters.1, ?_⟩)⟩
              exact (ih name.text inside found (distinct.of_find? found) (entries :: above)).mpr
                ⟨way, bytes, below, rfl, source, enters.2⟩

theorem byName_names : (byName rules folder entries).map Prod.fst = entries.names.map Name.text := by
  induction entries with
  | nil => rfl
  | file name bytes others ih => simp [byName, Entries.names, ih]
  | folder name inside others _ ih => simp [byName, Entries.names, ih]

theorem files_inNameOrder (named : List (String × List Event)) :
    files (inNameOrder named) =
      (named.mergeSort fun a b => a.1 ≤ b.1).flatMap fun entry => files entry.2 := by
  rw [files, inNameOrder, List.filterMap_flatMap]
  rfl

theorem exists_way (distinct : entries.Distinct) {name : Name} {node : Node}
    (found : entries.find? name.text = some node)
    (member : file ∈ files (met rules folder name node)) :
    ∃ way, file = folder.descend (name :: way) := by
  rcases mem_met_iff.mp (mem_files.mp member) with ⟨_, -, rfl, -⟩ | ⟨inside, rfl, -, scanned⟩
  · exact ⟨[], rfl⟩
  · obtain ⟨way, -, -, below, -⟩ := (scanned_iff (distinct.of_find? found) []).mp scanned
    exact ⟨way, below⟩

/-- Below each name the files are in order, and the names are. -/
theorem files_ascend (distinct : entries.Distinct) (rules : Rules) (folder : Path) :
    (files (inNameOrder (byName rules folder entries))).Pairwise Path.Precedes := by
  induction entries using Entries.foldersInduction generalizing folder with
  | step entries ih =>
      have once : ((byName rules folder entries).map Prod.fst).Nodup := by
        rw [byName_names]
        exact distinct.nodup_names.map fun _ _ => Name.eq_of_text
      have member {entry : String × List Event}
          (sorted : entry ∈ (byName rules folder entries).mergeSort fun a b => a.1 ≤ b.1) :=
        (mem_byName_iff distinct.nodup_names).mp (List.mem_mergeSort.mp sorted)
      rw [files_inNameOrder, List.pairwise_flatMap]
      constructor
      · intro entry sorted
        obtain ⟨name, node, found, rfl⟩ := member sorted
        cases node with
        | file bytes =>
            dsimp only [met]
            split
            · exact List.pairwise_singleton _ _
            · exact List.Pairwise.nil
        | folder inside =>
            dsimp only [met]
            split
            · exact List.Pairwise.nil
            · exact ih name.text inside found (distinct.of_find? found) (folder.child name)
      · refine (ascends_by_name Prod.fst once).imp_of_mem fun {first second} sorted sorted' before => ?_
        obtain ⟨name, node, found, rfl⟩ := member sorted
        obtain ⟨name', node', found', rfl⟩ := member sorted'
        intro file listed file' listed'
        obtain ⟨way, rfl⟩ := exists_way distinct found listed
        obtain ⟨way', rfl⟩ := exists_way distinct found' listed'
        exact Path.precedes_of_name before way way'

/-- A survey of a folder lists, in strict order and so each of them once, the source files below it to
which only folders lead that are neither hidden nor to be ignored. The name of the folder itself does
not matter. -/
theorem lists_in_order (rules : Rules) (disk : Disk) (root : Path)
    (there : disk.isFolder root = true) :
    ∃ events, Survey.events rules disk root = .ok events ∧
      (files events).Pairwise Path.Precedes ∧
      ∀ file, file ∈ files events ↔ disk.isFile file = true ∧
        isSourceFile rules.extensions file = true ∧
        ∃ way : List Name, file = root.descend way ∧
          ∀ name ∈ way.dropLast, isIgnoredFolder rules.ignored name.text = false := by
  obtain ⟨inside, found⟩ := Disk.node_of_isFolder there
  have distinct := Disk.distinct_of_node found
  obtain ⟨uppers, onward⟩ := Disk.exists_above found
  refine ⟨inNameOrder (byName rules root inside), ?_, files_ascend distinct rules root, fun file => ?_⟩
  · rw [Survey.events, Disk.list_of_node found]
    rfl
  · rw [mem_files, scanned_iff distinct uppers]
    have reached (way : List Name) : disk.node (root.descend way) =
        Disk.follow uppers inside (way.map Name.text) := by
      rw [Disk.node, Path.descend_parts, onward]
    constructor
    · rintro ⟨way, bytes, below, rfl, source, enters⟩
      refine ⟨?_, source, way, rfl, enters⟩
      rw [Disk.isFile, reached, below]
    · rintro ⟨isFile, source, way, rfl, enters⟩
      obtain ⟨bytes, below⟩ := Disk.node_of_isFile isFile
      exact ⟨way, bytes, (reached way).symm.trans below, rfl, source, enters⟩

/-- A hidden folder with a file beside a folder whose name the file's name goes on from, and with a
hidden folder in it. -/
def nestedFiles : Disk :=
  (((default : Disk).put (.parse "/.w/a.ts") []).put (.parse "/.w/a/z.ts") []).put
    (.parse "/.w/.git/x.ts") []

def nestedRules : Rules := ⟨[".ts"], ["dist"]⟩

theorem nestedFiles_in_order :
    nestedFiles.isFolder (.parse "/.w") = true ∧
    ∃ events, Survey.events nestedRules nestedFiles (.parse "/.w") = .ok events ∧
      (files events).Pairwise Path.Precedes ∧
      .parse "/.w/a.ts" ∈ files events ∧ .parse "/.w/a/z.ts" ∈ files events ∧
      (Path.parse "/.w/a/z.ts").Precedes (.parse "/.w/a.ts") ∧
      .parse "/.w/.git/x.ts" ∉ files events := by
  have there : nestedFiles.isFolder (.parse "/.w") = true := by decide +kernel
  obtain ⟨events, surveyed, ascending, listed⟩ := lists_in_order nestedRules nestedFiles _ there
  refine ⟨there, events, surveyed, ascending, (listed _).mpr ?_, (listed _).mpr ?_, ?_, ?_⟩
  · refine ⟨by decide +kernel, by decide +kernel, [⟨"a.ts", by decide, by decide, by decide⟩],
      by decide, by simp⟩
  · refine ⟨by decide +kernel, by decide +kernel, [⟨"a", by decide, by decide, by decide⟩,
      ⟨"z.ts", by decide, by decide, by decide⟩], by decide, ?_⟩
    exact List.forall_mem_singleton.mpr (by decide +kernel)
  · decide +kernel
  · intro member
    obtain ⟨-, -, way, same, enters⟩ := (listed _).mp member
    have names : [".w"] ++ way.map Name.text = [".w"] ++ [".git", "x.ts"] := by
      have parts := congrArg Path.parts same
      rw [Path.descend_parts] at parts
      exact parts.symm
    obtain ⟨hidden, others, rfl, first, rest⟩ := List.map_eq_cons_iff.mp (List.append_cancel_left names)
    have further : others ≠ [] := by
      rintro rfl
      cases rest
    have entered := enters hidden (by simp [List.dropLast_cons_of_ne_nil further])
    rw [first] at entered
    exact absurd entered (by decide)

end Survey
end ImportAudit
