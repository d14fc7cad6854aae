import ImportAudit.Proofs.Disk
import ImportAudit.Proofs.Path

/-! Writing over a file. The new content is at its path, and at every other path, unless it is on the
way to the file, everything is as before: two paths without `..` that differ never lead to one
file. -/
namespace ImportAudit

theorem mapM_ofText? {parts : List String}
    (named : ∀ part ∈ parts, IsComponent part ∧ part ≠ ".." ∧ '\x00' ∉ part.toList) :
    ∃ names, parts.mapM Name.ofText? = some names ∧ names.map Name.text = parts := by
  induction parts with
  | nil => exact ⟨[], rfl, rfl⟩
  | cons part parts ih =>
      obtain ⟨first, others⟩ := List.forall_mem_cons.mp named
      obtain ⟨names, rest, texts⟩ := ih others
      refine ⟨⟨part, first.1, first.2.1, first.2.2⟩ :: names, ?_, ?_⟩
      · rw [List.mapM_cons, Name.ofText?, dif_pos first, rest]
        rfl
      · rw [List.map_cons, texts]

namespace Entries

variable {name : Name} {text : String} {node : Node}

theorem find?_erase_of_ne (other : name.text ≠ text) (entries : Entries) :
    (entries.erase name).find? text = entries.find? text := by
  induction entries with
  | nil => rfl
  | file entry bytes others ih | folder entry inside others _ ih =>
      by_cases same : entry = name
      · rw [erase, if_pos same, ih, find?, if_neg (same ▸ other)]
      · rw [erase, if_neg same, find?, find?, ih]

theorem find?_set_self (name : Name) (node : Node) (entries : Entries) :
    (entries.set name node).find? name.text = some node := by
  cases node <;> simp [set, add, find?]

theorem find?_set_of_ne (other : name.text ≠ text) (node : Node) (entries : Entries) :
    (entries.set name node).find? text = entries.find? text := by
  cases node <;> simp [set, add, find?, other, find?_erase_of_ne]

theorem inside_of_find? {entries inner : Entries}
    (found : entries.find? name.text = some (.folder inner)) : entries.inside name = inner := by
  rw [inside, found]

end Entries

namespace Disk

variable {disk : Disk} {above : List Entries} {here : Entries} {path other : Path}
  {bytes : Text.Utf8.Bytes} {init : List Name} {last : Name}

/-- Without `..` it makes no difference what lies above. -/
theorem follow_of_down {parts : List String} (down : ".." ∉ parts) (above others : List Entries) :
    follow above here parts = follow others here parts := by
  induction parts generalizing here above others with
  | nil => rfl
  | cons part parts ih =>
      obtain ⟨proper, down⟩ : ".." ≠ part ∧ ".." ∉ parts := by simpa using down
      unfold follow
      rw [if_neg (Ne.symm proper), if_neg (Ne.symm proper)]
      split
      · rfl
      · exact ih down _ _
      · rfl

/-- What a name leads to when it leads to the same entry of two folders. -/
theorem follow_cons_of_find? {there : Entries} {part : String} {parts : List String}
    (down : ".." ∉ part :: parts) (same : there.find? part = here.find? part)
    (above others : List Entries) :
    follow others there (part :: parts) = follow above here (part :: parts) := by
  obtain ⟨proper, down⟩ : ".." ≠ part ∧ ".." ∉ parts := by simpa using down
  unfold follow
  rw [if_neg (Ne.symm proper), if_neg (Ne.symm proper), same]
  split
  · rfl
  · exact follow_of_down down _ _
  · rfl

theorem follow_folder {inner : Entries} {name : Name} {parts : List String}
    (found : here.find? name.text = some (.folder inner)) :
    follow above here (name.text :: parts) = follow (here :: above) inner parts := by
  simp only [follow, if_neg name.notParent, found]

theorem follow_file {name : Name} {parts : List String}
    (found : here.find? name.text = some (.file bytes)) :
    follow above here (name.text :: parts) =
      if parts = [] then .ok (.file bytes) else .error .notFolder := by
  simp only [follow, if_neg name.notParent, found]

/-- A path of names that leads to a file goes down through folders to it. -/
theorem find?_of_follow {name : Name} {parts : List String}
    (found : follow above here (name.text :: parts) = .ok (.file bytes)) :
    (parts = [] ∧ here.find? name.text = some (.file bytes)) ∨
      ∃ inner, here.find? name.text = some (.folder inner) ∧
        follow (here :: above) inner parts = .ok (.file bytes) := by
  simp only [follow, if_neg name.notParent] at found
  split at found
  · cases found
  · exact Or.inr ⟨_, ‹_›, found⟩
  · split at found
    · cases found
      exact Or.inl ⟨‹_›, ‹_›⟩
    · cases found

/-- The file that is written is there afterwards. -/
theorem follow_modify_self (above : List Entries) (here : Entries) (init : List Name) (last : Name)
    (bytes : Text.Utf8.Bytes) :
    follow above (here.modify (Entries.set last (.file bytes)) init)
      ((init ++ [last]).map Name.text) = .ok (.file bytes) := by
  induction init generalizing above here with
  | nil => exact follow_file (Entries.find?_set_self last (.file bytes) here)
  | cons name init ih =>
      rw [Entries.modify, List.cons_append, List.map_cons,
        follow_folder (Entries.find?_set_self name _ here)]
      exact ih _ _

/-- A file written over another one changes only what the paths on the way to it lead to. -/
theorem follow_modify_other {parts : List String} {old : Text.Utf8.Bytes} (down : ".." ∉ parts)
    (file : follow above here ((init ++ [last]).map Name.text) = .ok (.file old))
    (aside : ¬ parts <+: (init ++ [last]).map Name.text) :
    follow above (here.modify (Entries.set last (.file bytes)) init) parts =
      follow above here parts := by
  induction init generalizing above here parts with
  | nil =>
      cases parts with
      | nil => exact absurd List.nil_prefix aside
      | cons part parts =>
          by_cases same : last.text = part
          · subst part
            have before : here.find? last.text = some (.file old) := by
              rcases find?_of_follow file with ⟨-, found⟩ | ⟨inner, -, ended⟩
              · exact found
              · cases ended
            have further : parts ≠ [] := by
              rintro rfl
              exact aside (List.prefix_refl _)
            rw [follow_file before, Entries.modify,
              follow_file (Entries.find?_set_self last (.file bytes) here),
              if_neg further, if_neg further]
          · exact follow_cons_of_find? down (Entries.find?_set_of_ne same _ here) _ _
  | cons name init ih =>
      cases parts with
      | nil => exact absurd List.nil_prefix aside
      | cons part parts =>
          by_cases same : name.text = part
          · subst part
            obtain ⟨inner, before, below⟩ : ∃ inner, here.find? name.text = some (.folder inner) ∧
                follow (here :: above) inner ((init ++ [last]).map Name.text) =
                  .ok (.file old) := by
              rcases find?_of_follow file with ⟨ended, -⟩ | found
              · simp at ended
              · exact found
            have down : ".." ∉ parts := fun up => down (List.mem_cons_of_mem _ up)
            have aside : ¬ parts <+: (init ++ [last]).map Name.text := fun onWay =>
              aside ((List.prefix_cons_inj _).mpr onWay)
            rw [follow_folder before, Entries.modify,
              follow_folder (Entries.find?_set_self name _ here), Entries.inside_of_find? before]
            exact (follow_of_down down _ _).trans (ih down below aside)
          · exact follow_cons_of_find? down (Entries.find?_set_of_ne same _ here) _ _

/-- Before a path of names reaches a file it leads through folders. -/
theorem folder_of_follow {names rest : List String} (down : ".." ∉ names) (more : rest ≠ [])
    (found : follow above here (names ++ rest) = .ok (.file bytes)) :
    ∃ inside, follow above here names = .ok (.folder inside) := by
  induction names generalizing above here with
  | nil => exact ⟨here, rfl⟩
  | cons name names ih =>
      obtain ⟨proper, down⟩ : ".." ≠ name ∧ ".." ∉ names := by simpa using down
      simp only [List.cons_append, follow, if_neg (Ne.symm proper)] at found ⊢
      split at found
      · cases found
      · exact ih down found
      · simp [more] at found

/-- The names on the way to a file are the components of its path. -/
theorem place?_of_isFile (down : ".." ∉ path.parts) (file : disk.isFile path = true) :
    ∃ init last, place? path = some (init ++ [last]) ∧
      path.parts = (init ++ [last]).map Name.text := by
  obtain ⟨bytes, found⟩ := node_of_isFile file
  have named : ∀ part ∈ path.parts, IsComponent part ∧ part ≠ ".." ∧ '\x00' ∉ part.toList :=
    fun part member => ⟨path.proper part member, fun up => down (up ▸ member),
      noNul_of_follow found part member⟩
  obtain ⟨names, placed, parts⟩ := mapM_ofText? named
  have whole : place? path = some names := by
    simp only [place?, Path.resolve, Path.normalize, Path.normalizeParts_of_down down]
    exact placed
  rcases List.eq_nil_or_concat names with rfl | ⟨init, last, rfl⟩
  · simp [node, ← parts, follow] at found
  · rw [List.concat_eq_append] at whole parts
    exact ⟨init, last, whole, parts.symm⟩

theorem put_entries (placed : place? path = some (init ++ [last])) :
    (disk.put path bytes).entries =
      disk.entries.modify (Entries.set last (.file bytes)) init := by
  unfold put
  cases place : init ++ [last] with
  | nil => simp at place
  | cons first others =>
      rw [placed, place]
      simp only [← place, modify]
      simp

theorem node_put_self (down : ".." ∉ path.parts) (file : disk.isFile path = true)
    (bytes : Text.Utf8.Bytes) : (disk.put path bytes).node path = .ok (.file bytes) := by
  obtain ⟨init, last, placed, parts⟩ := place?_of_isFile down file
  rw [node, put_entries placed, parts]
  exact follow_modify_self [] disk.entries init last bytes

theorem node_put_other (down : ".." ∉ path.parts) (file : disk.isFile path = true)
    (otherDown : ".." ∉ other.parts) (aside : ¬ other.parts <+: path.parts)
    (bytes : Text.Utf8.Bytes) : (disk.put path bytes).node other = disk.node other := by
  obtain ⟨init, last, placed, parts⟩ := place?_of_isFile down file
  obtain ⟨old, found⟩ := node_of_isFile file
  rw [node, parts] at found
  rw [parts] at aside
  rw [node, put_entries placed]
  exact follow_modify_other otherDown found aside

/-- On the way to a file there are only folders. -/
theorem not_isFile_on_way (file : disk.isFile path = true) (otherDown : ".." ∉ other.parts)
    (onWay : other.parts <+: path.parts) (apart : other.parts ≠ path.parts) :
    disk.isFile other = false := by
  obtain ⟨rest, parts⟩ := onWay
  obtain ⟨bytes, found⟩ := node_of_isFile file
  have more : rest ≠ [] := by
    rintro rfl
    exact apart (by simpa using parts)
  rw [node, ← parts] at found
  obtain ⟨inside, folder⟩ := folder_of_follow otherDown more found
  rw [isFile, node, folder]

/-- Writing over a file neither makes a file nor removes one. -/
theorem isFile_put (down : ".." ∉ path.parts) (file : disk.isFile path = true)
    (otherDown : ".." ∉ other.parts) (bytes : Text.Utf8.Bytes) :
    (disk.put path bytes).isFile other = disk.isFile other := by
  have written := node_put_self down file bytes
  have still : (disk.put path bytes).isFile path = true := by
    rw [isFile, written]
  by_cases onWay : other.parts <+: path.parts
  · by_cases same : other.parts = path.parts
    · rw [isFile, isFile, node, node, same]
      exact still.trans file.symm
    · rw [not_isFile_on_way still otherDown onWay same,
        not_isFile_on_way file otherDown onWay same]
  · rw [isFile, isFile, node_put_other down file otherDown onWay]

end Disk
end ImportAudit
