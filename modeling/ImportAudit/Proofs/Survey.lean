import ImportAudit.Proofs.Disk
import ImportAudit.Survey
import Mathlib.Data.List.Basic

/-! A survey of a folder on disk comes to its end, and every file that it lists is there: the names
of a folder are distinct, so what it holds under a name is what a path with that name leads to. -/
namespace ImportAudit.Survey

variable {disk : Disk} {rules : Rules} {folder file : Path} {entries : Entries}

theorem mem_inNameOrder {named : List (String × List Event)} {event : Event} :
    event ∈ inNameOrder named ↔ ∃ entry ∈ named, event ∈ entry.2 := by
  simp [inNameOrder, List.mem_mergeSort]

theorem mem_files {events : List Event} : file ∈ files events ↔ .scanned file ∈ events := by
  unfold files
  rw [List.mem_filterMap]
  constructor
  · rintro ⟨event, member, scanned⟩
    cases event with
    | scanned found =>
        obtain rfl : found = file := by simpa [Event.scanned?] using scanned
        exact member
    | _ => cases scanned
  · intro member
    exact ⟨_, member, rfl⟩

/-- The paths of a folder's entries lead to them. -/
def Leads (disk : Disk) (folder : Path) (entries : Entries) : Prop :=
  ∀ name node, entries.find? name.text = some node → disk.node (folder.child name) = .ok node

theorem Leads.of_node (down : ".." ∉ folder.parts)
    (found : disk.node folder = .ok (.folder entries)) : Leads disk folder entries :=
  fun _ _ entry => Disk.node_child down found entry

/-- A name that comes first hides nothing of the entries after it, which do not have it. -/
theorem Leads.beside {others : Entries} {name : Name} (leads : Leads disk folder entries)
    (fresh : name ∉ others.names)
    (passes : ∀ text, name.text ≠ text → entries.find? text = others.find? text) :
    Leads disk folder others := by
  intro other node found
  apply leads
  rw [passes, found]
  intro same
  rw [← Name.eq_of_text same] at found
  exact fresh (Entries.mem_names_of_find? found)

theorem isFile_of_scanned (down : ".." ∉ folder.parts) (distinct : entries.Distinct)
    (leads : Leads disk folder entries) {entry : String × List Event}
    (listed : entry ∈ byName rules folder entries) (scanned : .scanned file ∈ entry.2) :
    disk.isFile file = true := by
  induction entries generalizing folder entry with
  | nil => cases listed
  | file name bytes others ih =>
      rcases List.mem_cons.mp listed with rfl | listed
      · have found := leads name (.file bytes) (by simp [Entries.find?])
        dsimp only at scanned
        split at scanned
        · obtain rfl : file = folder.child name := by simpa using scanned
          simp [Disk.isFile, found]
        · cases scanned
      · exact ih down distinct.2 (leads.beside distinct.1 fun _ other => if_neg other) listed scanned
  | folder name inside others inner ih =>
      -- Below the folder the paths start anew; beside it the folder itself stays the same.
      obtain ⟨fresh, within, rest⟩ := distinct
      rcases List.mem_cons.mp listed with rfl | listed
      · have found := leads name (.folder inside) (by simp [Entries.find?])
        have further : ".." ∉ (folder.child name).parts := by
          simpa [Path.child, Ne.symm name.notParent] using down
        dsimp only at scanned
        split at scanned
        · simp at scanned
        · obtain ⟨entry, listed, scanned⟩ := mem_inNameOrder.mp scanned
          exact inner further within (.of_node further found) listed scanned
      · exact ih down rest (leads.beside fresh fun _ other => if_neg other) listed scanned

/-- The survey of a folder on disk lists files on disk. -/
theorem events_of_isFolder (rules : Rules) (down : ".." ∉ folder.parts)
    (there : disk.isFolder folder = true) :
    ∃ events, Survey.events rules disk folder = .ok events ∧
      ∀ file ∈ files events, disk.isFile file = true := by
  obtain ⟨inside, found⟩ := Disk.node_of_isFolder there
  refine ⟨inNameOrder (byName rules folder inside), ?_, ?_⟩
  · rw [Survey.events, Disk.list_of_node found]
    rfl
  · intro file member
    obtain ⟨entry, named, scanned⟩ := mem_inNameOrder.mp (mem_files.mp member)
    exact isFile_of_scanned down (Disk.distinct_of_node found) (.of_node down found) named scanned

end ImportAudit.Survey
