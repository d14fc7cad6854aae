import ImportAudit.Disk

/-! Where paths lead. The places of a tree are the ways down to its files and folders, one for each
of them; a path without `..` that leads somewhere is one of these or the top itself. -/
namespace ImportAudit

theorem Name.eq_of_text {name other : Name} (same : name.text = other.text) : name = other := by
  cases name
  cases other
  simp_all

namespace Entries

/-- The names on the way down to every file and folder. -/
def places : Entries → List (List String)
  | nil => []
  | file name _ others => [name.text] :: others.places
  | folder name inside others =>
      [name.text] :: (inside.places.map (name.text :: ·) ++ others.places)

theorem length_places (entries : Entries) : entries.places.length = entries.size := by
  induction entries with
  | nil => rfl
  | file name bytes others ih => simp [places, size, ih]
  | folder name inside others inner ih =>
      simp only [places, size, List.length_cons, List.length_append, List.length_map, inner, ih]

theorem singleton_mem_places {entries : Entries} {name : String}
    (found : entries.find? name = some node) : [name] ∈ entries.places := by
  induction entries with
  | nil => simp [find?] at found
  | file other bytes others ih | folder other inside others _ ih =>
      rw [find?] at found
      split at found
      · rename_i same
        simp [places, same]
      · have later := ih found
        simp [places, later]

theorem cons_mem_places {entries inside : Entries} {name : String} {place : List String}
    (found : entries.find? name = some (.folder inside)) (below : place ∈ inside.places) :
    name :: place ∈ entries.places := by
  induction entries with
  | nil => simp [find?] at found
  | file other bytes others ih =>
      rw [find?] at found
      split at found
      · cases found
      · have later := ih found
        simp [places, later]
  | folder other inner others _ ih =>
      rw [find?] at found
      split at found
      · rename_i same
        cases found
        simp [places, same, below]
      · have later := ih found
        simp [places, later]

theorem noNul_of_find? {entries : Entries} {name : String}
    (found : entries.find? name = some node) : '\x00' ∉ name.toList := by
  induction entries with
  | nil => cases found
  | file other bytes others ih | folder other inside others _ ih =>
      rw [find?] at found
      split at found
      · rename_i same
        exact same ▸ other.noNul
      · exact ih found

theorem mem_names_of_find? {entries : Entries} {name : Name}
    (found : entries.find? name.text = some node) : name ∈ entries.names := by
  induction entries with
  | nil => cases found
  | file other bytes others ih | folder other inside others _ ih =>
      rw [find?] at found
      split at found
      · rename_i same
        obtain rfl : other = name := Name.eq_of_text same
        exact List.mem_cons_self
      · exact List.mem_cons_of_mem _ (ih found)

end Entries

namespace Disk

variable {disk : Disk} {above : List Entries} {here : Entries} {path : Path}

/-- As far as a path that leads somewhere goes without `..`, it goes down the tree. -/
theorem place_of_follow {names rest : List String} (down : ".." ∉ names)
    (found : follow above here (names ++ rest) = .ok place) :
    names ∈ [] :: here.places := by
  induction names generalizing above here with
  | nil => exact List.mem_cons_self
  | cons name names ih =>
      obtain ⟨proper, down⟩ : ".." ≠ name ∧ ".." ∉ names := by simpa using down
      refine List.mem_cons_of_mem _ ?_
      simp only [List.cons_append, follow, if_neg (Ne.symm proper)] at found
      cases entry : here.find? name with
      | none => simp [entry] at found
      | some next =>
          cases next with
          | file bytes =>
              simp only [entry] at found
              split at found
              · rename_i last
                have ended : names = [] := (List.append_eq_nil_iff.mp last).1
                exact ended ▸ Entries.singleton_mem_places entry
              · cases found
          | folder inside =>
              simp only [entry] at found
              rcases List.mem_cons.mp (ih down found) with ended | below
              · exact ended ▸ Entries.singleton_mem_places entry
              · exact Entries.cons_mem_places entry below

theorem place_of_isFile {names rest : List String} (file : disk.isFile path = true)
    (split : path.parts = names ++ rest) (down : ".." ∉ names) :
    names ∈ [] :: disk.entries.places := by
  unfold isFile node at file
  rw [split] at file
  cases found : follow [] disk.entries (names ++ rest) with
  | error obstacle => simp [found] at file
  | ok place => exact place_of_follow down found

theorem follow_child {names : List String} {name : Name} (down : ".." ∉ names)
    (found : follow above here names = .ok (.folder inside))
    (entry : inside.find? name.text = some place) :
    follow above here (names ++ [name.text]) = .ok place := by
  induction names generalizing above here with
  | nil =>
      obtain rfl : here = inside := by simpa [follow] using found
      cases place <;> simp [follow, name.notParent, entry]
  | cons first names ih =>
      obtain ⟨proper, down⟩ : ".." ≠ first ∧ ".." ∉ names := by simpa using down
      simp only [List.cons_append, follow, if_neg (Ne.symm proper)] at found ⊢
      cases next : here.find? first with
      | none => simp [next] at found
      | some node =>
          cases node with
          | file bytes =>
              simp only [next] at found
              split at found <;> cases found
          | folder inner =>
              simp only [next] at found
              exact ih down found

theorem node_child {inside : Entries} {name : Name} (down : ".." ∉ path.parts)
    (found : disk.node path = .ok (.folder inside))
    (entry : inside.find? name.text = some place) : disk.node (path.child name) = .ok place :=
  follow_child down found entry

theorem distinct_of_follow {parts : List String} (distinct : here.Distinct)
    (upper : ∀ entries ∈ above, entries.Distinct)
    (found : follow above here parts = .ok (.folder inside)) : inside.Distinct := by
  induction parts generalizing above here with
  | nil =>
      obtain rfl : here = inside := by simpa [follow] using found
      exact distinct
  | cons part parts ih =>
      unfold follow at found
      split at found
      · cases above with
        | nil => exact ih distinct upper found
        | cons first above =>
            exact ih (upper first List.mem_cons_self)
              (fun entries member => upper entries (List.mem_cons_of_mem _ member)) found
      · split at found
        · cases found
        · rename_i inner entry
          refine ih (distinct.of_find? entry) ?_ found
          simpa using ⟨distinct, upper⟩
        · split at found <;> cases found

theorem distinct_of_node {inside : Entries} (found : disk.node path = .ok (.folder inside)) :
    inside.Distinct :=
  distinct_of_follow disk.distinct (by simp) found

/-- Whatever a path leads to, each component on the way has a name or is `..`. -/
theorem noNul_of_follow {parts : List String} (found : follow above here parts = .ok place) :
    ∀ part ∈ parts, '\x00' ∉ part.toList := by
  induction parts generalizing above here with
  | nil => simp
  | cons part parts ih =>
      rw [List.forall_mem_cons]
      unfold follow at found
      split at found
      · rename_i up
        refine ⟨up ▸ by decide, ?_⟩
        cases above with
        | nil => exact ih found
        | cons upper uppers => exact ih found
      · split at found
        · cases found
        · rename_i entry
          exact ⟨Entries.noNul_of_find? entry, ih found⟩
        · rename_i entry
          split at found
          · rename_i last
            exact ⟨Entries.noNul_of_find? entry, by simp [last]⟩
          · cases found

theorem node_of_isFile (file : disk.isFile path = true) :
    ∃ bytes, disk.node path = .ok (.file bytes) := by
  unfold isFile at file
  split at file
  · exact ⟨_, ‹_›⟩
  · cases file

/-- Nothing lies above the top. -/
theorem isFile_of_up (up : path.parts = [".."]) : disk.isFile path = false := by
  simp [isFile, node, up, follow]

theorem node_of_isFolder (folder : disk.isFolder path = true) :
    ∃ inside, disk.node path = .ok (.folder inside) := by
  unfold isFolder at folder
  split at folder
  · exact ⟨_, ‹_›⟩
  · cases folder

theorem locate_of_node (found : disk.node path = .ok place) :
    disk.locate path path = .ok place := by
  have noNul : hasNul path = false := by
    simp only [hasNul, List.any_eq_false, List.contains_iff_mem]
    exact noNul_of_follow found
  simp only [locate, noNul, found, Bool.false_eq_true, if_false]

/-- A path that leads to a file can be read. -/
theorem read_of_node {bytes : Text.Utf8.Bytes} (found : disk.node path = .ok (.file bytes)) :
    disk.read path = .ok bytes := by
  rw [read, readAs, locate_of_node found]
  rfl

theorem list_of_node {inside : Entries} (found : disk.node path = .ok (.folder inside)) :
    disk.list path = .ok inside := by
  rw [list, locate_of_node found]
  rfl

theorem isFolder_of_list {inside : Entries} (listed : disk.list path = .ok inside) :
    disk.isFolder path = true := by
  unfold list locate at listed
  split at listed
  · cases listed
  · cases found : disk.node path with
    | error obstacle => cases obstacle <;> simp [found, bind, Except.bind] at listed
    | ok place =>
        cases place with
        | file bytes => simp [found, bind, Except.bind] at listed
        | folder inside => simp [isFolder, found]

end Disk
end ImportAudit
