import ImportAudit.Path
import ImportAudit.Text.Quoted
import ImportAudit.Text.Utf8

/-! A disk is a finite tree of named files and folders. A path is followed from the top of the tree:
`..` leads back to the folder before, and at the top it leads nowhere. -/
namespace ImportAudit

/-- The content of a folder, in no particular order. -/
inductive Entries
  | nil
  | file (name : Name) (bytes : Text.Utf8.Bytes) (others : Entries)
  | folder (name : Name) (inside : Entries) (others : Entries)
deriving DecidableEq, Repr, Inhabited

inductive Node
  | file (bytes : Text.Utf8.Bytes)
  | folder (inside : Entries)
deriving DecidableEq, Repr, Inhabited

namespace Entries

def find? (name : String) : Entries → Option Node
  | nil => none
  | file other bytes others => if other.text = name then some (.file bytes) else others.find? name
  | folder other inside others =>
      if other.text = name then some (.folder inside) else others.find? name

/-- How many files and folders there are at all depths. -/
def size : Entries → Nat
  | nil => 0
  | file _ _ others => others.size + 1
  | folder _ inside others => inside.size + others.size + 1

def names : Entries → List Name
  | nil => []
  | file name _ others => name :: others.names
  | folder name _ others => name :: others.names

/-- No folder holds two entries of one name, at any depth. -/
def Distinct : Entries → Prop
  | nil => True
  | file name _ others => name ∉ others.names ∧ others.Distinct
  | folder name inside others => name ∉ others.names ∧ inside.Distinct ∧ others.Distinct

def decideDistinct : (entries : Entries) → Decidable entries.Distinct
  | nil => inferInstanceAs (Decidable True)
  | file name _ others =>
      have := decideDistinct others
      inferInstanceAs (Decidable (name ∉ others.names ∧ _))
  | folder name inside others =>
      have := decideDistinct inside
      have := decideDistinct others
      inferInstanceAs (Decidable (name ∉ others.names ∧ _ ∧ _))

instance : DecidablePred Distinct := decideDistinct

def add (name : Name) (node : Node) (entries : Entries) : Entries :=
  match node with
  | .file bytes => file name bytes entries
  | .folder inside => folder name inside entries

def erase (name : Name) : Entries → Entries
  | nil => nil
  | file other bytes others =>
      if other = name then others.erase name else file other bytes (others.erase name)
  | folder other inside others =>
      if other = name then others.erase name else folder other inside (others.erase name)

/-- The entry of that name is the node, whatever it was before. -/
def set (name : Name) (node : Node) (entries : Entries) : Entries :=
  (entries.erase name).add name node

/-- What is inside the folder of that name; nothing if there is none. -/
def inside (name : Name) (entries : Entries) : Entries :=
  match entries.find? name.text with
  | some (.folder inner) => inner
  | _ => nil

/-- Changes the folder at a place; folders on the way are made where they are missing. -/
def modify (change : Entries → Entries) : List Name → Entries → Entries
  | [], entries => change entries
  | name :: place, entries => entries.set name (.folder (modify change place (entries.inside name)))

theorem mem_names_erase {name other : Name} {entries : Entries}
    (member : other ∈ (entries.erase name).names) : other ∈ entries.names ∧ other ≠ name := by
  induction entries with
  | nil => simp [erase, names] at member
  | file entry bytes others ih | folder entry inside others _ ih =>
      by_cases same : entry = name
      · simp only [erase, same, if_true] at member
        exact ⟨List.mem_cons_of_mem _ (ih member).1, (ih member).2⟩
      · simp only [erase, same, if_false, names, List.mem_cons] at member ⊢
        rcases member with rfl | member
        · exact ⟨Or.inl rfl, same⟩
        · exact ⟨Or.inr (ih member).1, (ih member).2⟩

theorem Distinct.erase {entries : Entries} (distinct : entries.Distinct) (name : Name) :
    (entries.erase name).Distinct := by
  induction entries with
  | nil => exact trivial
  | file entry bytes others ih =>
      obtain ⟨fresh, rest⟩ := distinct
      by_cases same : entry = name
      · simpa only [Entries.erase, same, if_true] using ih rest
      · simp only [Entries.erase, same, if_false]
        exact ⟨fun member => fresh (mem_names_erase member).1, ih rest⟩
  | folder entry inside others _ ih =>
      obtain ⟨fresh, within, rest⟩ := distinct
      by_cases same : entry = name
      · simpa only [Entries.erase, same, if_true] using ih rest
      · simp only [Entries.erase, same, if_false]
        exact ⟨fun member => fresh (mem_names_erase member).1, within, ih rest⟩

theorem Distinct.setFile {entries : Entries} (distinct : entries.Distinct) (name : Name)
    (bytes : Text.Utf8.Bytes) : (entries.set name (.file bytes)).Distinct :=
  ⟨fun member => (mem_names_erase member).2 rfl, distinct.erase name⟩

theorem Distinct.setFolder {entries inner : Entries} (distinct : entries.Distinct) (name : Name)
    (within : inner.Distinct) : (entries.set name (.folder inner)).Distinct :=
  ⟨fun member => (mem_names_erase member).2 rfl, within, distinct.erase name⟩

theorem Distinct.of_find? {entries inner : Entries} {name : String} (distinct : entries.Distinct)
    (found : entries.find? name = some (.folder inner)) : inner.Distinct := by
  induction entries with
  | nil => simp [find?] at found
  | file entry bytes others ih =>
      rw [find?] at found
      split at found
      · simp at found
      · exact ih distinct.2 found
  | folder entry inside others _ ih =>
      rw [find?] at found
      split at found
      · cases found
        exact distinct.2.1
      · exact ih distinct.2.2 found

theorem Distinct.inside {entries : Entries} (distinct : entries.Distinct) (name : Name) :
    (entries.inside name).Distinct := by
  unfold Entries.inside
  split
  · exact distinct.of_find? ‹_›
  · exact trivial

theorem Distinct.modify {entries : Entries} {change : Entries → Entries}
    (keeps : ∀ {entries}, Distinct entries → (change entries).Distinct) (distinct : entries.Distinct)
    (place : List Name) : (entries.modify change place).Distinct := by
  induction place generalizing entries with
  | nil => exact keeps distinct
  | cons name place ih => exact distinct.setFolder name (ih (distinct.inside name))

end Entries

/-- Why a path leads to no file or folder, or to the wrong one. -/
inductive Disk.Fault
  | missing (path : Path)
  | notFolder (path : Path)
  | isFolder (path : Path)
  | nulInPath
deriving DecidableEq, Repr

def Disk.Fault.message : Disk.Fault → String
  | .missing path => "[Errno 2] No such file or directory: " ++ Text.Quoted.render path.render
  | .notFolder path => "[Errno 20] Not a directory: " ++ Text.Quoted.render path.render
  | .isFolder path => "[Errno 21] Is a directory: " ++ Text.Quoted.render path.render
  | .nulInPath => "embedded null byte"

structure Disk where
  entries : Entries
  distinct : entries.Distinct := by trivial
deriving DecidableEq, Repr

instance : Inhabited Disk := ⟨{ entries := .nil }⟩

namespace Disk

/-- Where following a path can fail: nothing has the next name, or a file stands in the way. -/
inductive Obstacle
  | missing
  | notFolder
deriving DecidableEq, Repr

/-- Follows components from the folder `here`; `above` holds the folders it lies in, innermost
first. -/
def follow (above : List Entries) (here : Entries) : List String → Except Obstacle Node
  | [] => .ok (.folder here)
  | part :: parts =>
      if part = ".." then
        match above with
        | [] => follow [] here parts
        | upper :: uppers => follow uppers upper parts
      else
        match here.find? part with
        | none => .error .missing
        | some (.folder inside) => follow (here :: above) inside parts
        | some (.file bytes) => if parts = [] then .ok (.file bytes) else .error .notFolder

def node (disk : Disk) (path : Path) : Except Obstacle Node := follow [] disk.entries path.parts

def isFile (disk : Disk) (path : Path) : Bool :=
  match disk.node path with
  | .ok (.file _) => true
  | _ => false

def isFolder (disk : Disk) (path : Path) : Bool :=
  match disk.node path with
  | .ok (.folder _) => true
  | _ => false

def hasNul (path : Path) : Bool := path.parts.any fun part => part.toList.contains '\x00'

/-- The node at a path; faults name the path as `shown`. -/
def locate (disk : Disk) (path shown : Path) : Except Fault Node :=
  if hasNul shown then .error .nulInPath
  else
    match disk.node path with
    | .ok node => .ok node
    | .error .missing => .error (.missing shown)
    | .error .notFolder => .error (.notFolder shown)

/-- The bytes of the file at a path; faults name the path as `shown`. -/
def readAs (disk : Disk) (path shown : Path) : Except Fault Text.Utf8.Bytes := do
  match ← disk.locate path shown with
  | .file bytes => return bytes
  | .folder _ => throw (.isFolder shown)

def read (disk : Disk) (path : Path) : Except Fault Text.Utf8.Bytes := disk.readAs path path

/-- The content of the folder at a path. -/
def list (disk : Disk) (path : Path) : Except Fault Entries := do
  match ← disk.locate path path with
  | .folder inside => return inside
  | .file _ => throw (.notFolder path)

/-- The names on the way from the top to a path, where something can be. -/
def place? (path : Path) : Option (List Name) := path.resolve.parts.mapM Name.ofText?

/-- Changes the folder at a place, with the folders it needs. -/
def modify (disk : Disk) (change : Entries → Entries)
    (keeps : ∀ {entries}, Entries.Distinct entries → (change entries).Distinct) (place : List Name) :
    Disk :=
  ⟨disk.entries.modify change place, disk.distinct.modify keeps place⟩

/-- Puts a file at a path, with the folders it needs. -/
def put (disk : Disk) (path : Path) (bytes : Text.Utf8.Bytes) : Disk :=
  match place? path with
  | none | some [] => disk
  | some (first :: others) =>
      let place := first :: others
      disk.modify (Entries.set (place.getLast (by simp [place])) (.file bytes))
        (fun distinct => distinct.setFile _ bytes) place.dropLast

/-- Makes the folder at a path, with the folders it needs. -/
def makeFolder (disk : Disk) (path : Path) : Disk :=
  match place? path with
  | none => disk
  | some place => disk.modify id id place

/-- Puts a whole tree into the folder at a path, in place of what was there. -/
def graft (disk : Disk) (path : Path) (tree : Disk) : Disk :=
  match place? path with
  | none => disk
  | some place => disk.modify (fun _ => tree.entries) (fun _ => tree.distinct) place

/-- Removes the file or the whole folder at a path, if there is one. -/
def remove (disk : Disk) (path : Path) : Disk :=
  match disk.node path, place? path with
  | .ok _, some (first :: others) =>
      let place := first :: others
      disk.modify (Entries.erase (place.getLast (by simp [place]))) (·.erase _) place.dropLast
  | _, _ => disk

/-- Writes a file whose folder exists; faults name the path as `shown`. -/
def writeAs (disk : Disk) (path shown : Path) (bytes : Text.Utf8.Bytes) : Except Fault Disk :=
  match disk.locate path shown with
  | .ok (.file _) => .ok (disk.put path bytes)
  | .ok (.folder _) => .error (.isFolder shown)
  | .error (.missing _) =>
      match disk.node path.parent with
      | .ok (.folder _) => .ok (disk.put path bytes)
      | .ok (.file _) => .error (.notFolder shown)
      | .error _ => .error (.missing shown)
  | .error fault => .error fault

end Disk
end ImportAudit
