import ImportAudit.Codebase
import Mathlib.Data.List.Basic

/-! Loading seen from outside. A codebase lies over the disk: it answers from what it has read and,
for all other paths, from the disk. Loading moves a source from the disk into the codebase, which no
later answer can tell while the disk stays as it is. -/
namespace ImportAudit

theorem Source.link?_eq_some {disk : Disk} {root importer : Path} {extensions : List String}
    {text : Text} {mention : Script.Mention} {link : Link}
    (linked : link? disk root extensions importer text mention = some link) :
    Resolution.resolve? disk extensions importer mention.specifier = some link.target ∧
      link.target.isWithin root = true ∧
      link = ⟨link.target, mention.specifier, mention.bindings,
        text.lineOf mention.span.start, mention.span⟩ := by
  unfold link? at linked
  split at linked
  · cases linked
  · split at linked
    · cases linked
      exact ⟨‹_›, ‹_›, rfl⟩
    · cases linked

namespace Codebase

variable {disk : Disk} {codebase before after : Codebase} {path other : Path}

/-- The source that the disk holds at a path now. -/
def onDisk? (disk : Disk) (codebase : Codebase) (path : Path) : Option Source :=
  match disk.node path with
  | .ok (.file bytes) => some (Source.parse disk codebase.root codebase.extensions path bytes)
  | _ => none

/-- The source at a path: the one that was read, else the one on disk. -/
def sourceAt? (disk : Disk) (codebase : Codebase) (path : Path) : Option Source :=
  (codebase.find? path).or (codebase.onDisk? disk path)

/-- The source that loading a path adds to those read before. -/
def unread? (disk : Disk) (codebase : Codebase) (path : Path) : Option Source :=
  if (codebase.find? path).isSome then none else codebase.onDisk? disk path

theorem onDisk?_eq_some (found : codebase.onDisk? disk path = some source) :
    ∃ bytes, disk.node path = .ok (.file bytes) ∧
      source = Source.parse disk codebase.root codebase.extensions path bytes := by
  unfold onDisk? at found
  split at found
  · cases found
    exact ⟨_, ‹_›, rfl⟩
  · cases found

theorem onDisk?_path (found : codebase.onDisk? disk path = some source) : source.path = path := by
  obtain ⟨bytes, -, rfl⟩ := onDisk?_eq_some found
  rfl

theorem onDisk?_isSome : (codebase.onDisk? disk path).isSome = disk.isFile path := by
  unfold onDisk? Disk.isFile
  split <;> simp_all

theorem map_path_onDisk? {paths : List Path} (files : ∀ path ∈ paths, disk.isFile path = true) :
    (paths.filterMap (codebase.onDisk? disk)).map Source.path = paths := by
  induction paths with
  | nil => rfl
  | cons path paths ih =>
      have there := files path List.mem_cons_self
      rw [← @onDisk?_isSome disk codebase] at there
      obtain ⟨source, found⟩ := Option.isSome_iff_exists.mp there
      rw [List.filterMap_cons, found, List.map_cons, onDisk?_path found,
        ih fun path member => files path (List.mem_cons_of_mem _ member)]

/-- The links of a source on disk lead to files that their specifiers stand for. -/
theorem onDisk?_link (found : codebase.onDisk? disk path = some source) {link : Link}
    (listed : link ∈ source.links) :
    Resolution.resolve? disk codebase.extensions path link.specifier = some link.target ∧
      link.target.isWithin codebase.root = true := by
  obtain ⟨bytes, -, rfl⟩ := onDisk?_eq_some found
  obtain ⟨mention, -, linked⟩ := List.mem_filterMap.mp listed
  obtain ⟨resolved, within, same⟩ := Source.link?_eq_some linked
  rw [same]
  exact ⟨resolved, within⟩

theorem load_value : (codebase.load disk path).value = codebase.sourceAt? disk path := by
  unfold load sourceAt? onDisk?
  cases codebase.find? path with
  | some source => rfl
  | none =>
      rcases disk.node path with _ | (bytes | inside) <;> rfl

/-- The codebase with what it has not read of some paths. -/
def adding (disk : Disk) (paths : List Path) (codebase : Codebase) : Codebase :=
  { codebase with sources := codebase.sources ++ paths.filterMap (codebase.unread? disk) }

@[simp] theorem adding_root (paths : List Path) : (codebase.adding disk paths).root = codebase.root :=
  rfl

@[simp] theorem adding_extensions (paths : List Path) :
    (codebase.adding disk paths).extensions = codebase.extensions := rfl

@[simp] theorem adding_nil : codebase.adding disk [] = codebase := by
  simp [adding]

theorem load_codebase : (codebase.load disk path).codebase = codebase.adding disk [path] := by
  unfold load adding unread? onDisk?
  cases read : codebase.find? path with
  | some source => simp [read]
  | none =>
      rcases there : disk.node path with _ | (bytes | inside) <;> simp [read, there]

/-- The codebase afterwards gives the same answers as before. -/
structure Agrees (disk : Disk) (before after : Codebase) : Prop where
  root : after.root = before.root
  extensions : after.extensions = before.extensions
  sourceAt? : ∀ path, after.sourceAt? disk path = before.sourceAt? disk path

namespace Agrees

@[refl] theorem refl (disk : Disk) (codebase : Codebase) : Agrees disk codebase codebase :=
  ⟨rfl, rfl, fun _ => rfl⟩

theorem symm (agrees : Agrees disk before after) : Agrees disk after before :=
  ⟨agrees.root.symm, agrees.extensions.symm, fun path => (agrees.sourceAt? path).symm⟩

theorem trans (first : Agrees disk before codebase) (second : Agrees disk codebase after) :
    Agrees disk before after :=
  ⟨second.root.trans first.root, second.extensions.trans first.extensions,
    fun path => (second.sourceAt? path).trans (first.sourceAt? path)⟩

end Agrees

theorem onDisk?_eq_of_settings (root : after.root = before.root)
    (extensions : after.extensions = before.extensions) (path : Path) :
    after.onDisk? disk path = before.onDisk? disk path := by
  unfold onDisk?
  rw [root, extensions]

@[simp] theorem onDisk?_adding (paths : List Path) :
    (codebase.adding disk paths).onDisk? disk path = codebase.onDisk? disk path := rfl

theorem unread?_eq_some (added : codebase.unread? disk path = some source) :
    codebase.find? path = none ∧ codebase.onDisk? disk path = some source := by
  unfold unread? at added
  split at added
  · cases added
  · rename_i absent
    exact ⟨by simpa using absent, added⟩

theorem find?_adding (paths : List Path) :
    (codebase.adding disk paths).find? path =
      (codebase.find? path).or ((paths.filterMap (codebase.unread? disk)).find? (·.path = path)) :=
  List.find?_append

theorem onDisk?_of_find?_added {paths : List Path}
    (found : (paths.filterMap (codebase.unread? disk)).find? (·.path = path) = some source) :
    path ∈ paths ∧ codebase.onDisk? disk path = some source := by
  obtain ⟨origin, listed, added⟩ := List.mem_filterMap.mp (List.mem_of_find?_eq_some found)
  have there := (unread?_eq_some added).2
  have named : source.path = path := by simpa using List.find?_some found
  obtain rfl : origin = path := (onDisk?_path there).symm.trans named
  exact ⟨listed, there⟩

/-- Sources from the disk, added to those read, change no answer. -/
theorem adding_agrees (disk : Disk) (paths : List Path) (codebase : Codebase) :
    Agrees disk codebase (codebase.adding disk paths) := by
  refine ⟨rfl, rfl, fun path => ?_⟩
  rw [sourceAt?, sourceAt?, find?_adding, onDisk?_adding, Option.or_assoc]
  cases found : (paths.filterMap (codebase.unread? disk)).find? (·.path = path) with
  | none => rfl
  | some source => rw [(onDisk?_of_find?_added found).2, Option.some_or]

theorem load_agrees (disk : Disk) (path : Path) (codebase : Codebase) :
    Agrees disk codebase (codebase.load disk path).codebase := by
  rw [load_codebase]
  exact adding_agrees disk [path] codebase

theorem unread?_adding {paths : List Path} (absent : path ∉ paths) :
    (codebase.adding disk paths).unread? disk path = codebase.unread? disk path := by
  have none_added : (paths.filterMap (codebase.unread? disk)).find? (·.path = path) = none := by
    cases found : (paths.filterMap (codebase.unread? disk)).find? (·.path = path) with
    | none => rfl
    | some source => exact absurd (onDisk?_of_find?_added found).1 absent
  rw [unread?, unread?, find?_adding, none_added, Option.or_none, onDisk?_adding]

theorem adding_append {first second : List Path} (apart : ∀ path ∈ second, path ∉ first) :
    codebase.adding disk (first ++ second) = (codebase.adding disk first).adding disk second := by
  have same : second.filterMap ((codebase.adding disk first).unread? disk) =
      second.filterMap (codebase.unread? disk) :=
    List.filterMap_congr fun path member => unread?_adding (apart path member)
  simp only [adding, List.filterMap_append, List.append_assoc] at same ⊢
  rw [same]

/-- Every source that was read is the one on disk. -/
def IsCurrent (disk : Disk) (codebase : Codebase) : Prop :=
  ∀ source ∈ codebase.sources, codebase.onDisk? disk source.path = some source

theorem IsCurrent.sourceAt? (current : codebase.IsCurrent disk) (path : Path) :
    codebase.sourceAt? disk path = codebase.onDisk? disk path := by
  unfold Codebase.sourceAt?
  cases read : codebase.find? path with
  | none => rfl
  | some source =>
      have named : source.path = path := by simpa using List.find?_some read
      rw [Option.some_or, ← named, current source (List.mem_of_find?_eq_some read)]

theorem isCurrent_empty (disk : Disk) {root : Path} (extensions : List String)
    (absolute : root.anchor ≠ .relative) : (empty root extensions absolute).IsCurrent disk := by
  simp [IsCurrent, empty]

theorem IsCurrent.adding (current : codebase.IsCurrent disk) (paths : List Path) :
    (codebase.adding disk paths).IsCurrent disk := by
  intro source member
  rw [onDisk?_adding]
  rcases List.mem_append.mp member with member | member
  · exact current source member
  · obtain ⟨path, -, added⟩ := List.mem_filterMap.mp member
    have there := (unread?_eq_some added).2
    rw [onDisk?_path there]
    exact there

theorem IsCurrent.agrees (current : before.IsCurrent disk) (other : after.IsCurrent disk)
    (root : after.root = before.root) (extensions : after.extensions = before.extensions) :
    Agrees disk before after :=
  ⟨root, extensions, fun path => by
    rw [current.sourceAt?, other.sourceAt?, onDisk?_eq_of_settings root extensions]⟩

theorem loadAll_value (disk : Disk) (paths : List Path) (codebase : Codebase) :
    (codebase.loadAll disk paths).value = paths.filterMap (codebase.sourceAt? disk) := by
  induction paths generalizing codebase with
  | nil => rfl
  | cons path paths ih =>
      have same : (codebase.load disk path).codebase.sourceAt? disk = codebase.sourceAt? disk :=
        funext (load_agrees disk path codebase).sourceAt?
      simp only [loadAll, load_value, ih, same, List.filterMap_cons]
      cases codebase.sourceAt? disk path <;> rfl

/-- A codebase for a root and extensions that holds nothing but what is on disk. -/
structure Mirrors (disk : Disk) (root : Path) (extensions : List String) (codebase : Codebase) :
    Prop where
  root_eq : codebase.root = root
  extensions_eq : codebase.extensions = extensions
  current : codebase.IsCurrent disk

namespace Mirrors

variable {root : Path} {extensions : List String} {paths : List Path}

theorem empty (disk : Disk) (extensions : List String) (absolute : root.anchor ≠ .relative) :
    (Codebase.empty root extensions absolute).Mirrors disk root extensions :=
  ⟨rfl, rfl, isCurrent_empty disk extensions absolute⟩

theorem absolute (mirrors : codebase.Mirrors disk root extensions) : root.anchor ≠ .relative :=
  mirrors.root_eq ▸ codebase.absolute

theorem adding (mirrors : codebase.Mirrors disk root extensions) (paths : List Path) :
    (codebase.adding disk paths).Mirrors disk root extensions :=
  ⟨mirrors.root_eq, mirrors.extensions_eq, mirrors.current.adding paths⟩

theorem load (mirrors : codebase.Mirrors disk root extensions) (path : Path) :
    (codebase.load disk path).codebase.Mirrors disk root extensions := by
  rw [load_codebase]
  exact mirrors.adding [path]

theorem loadAll (mirrors : codebase.Mirrors disk root extensions) (paths : List Path) :
    (codebase.loadAll disk paths).codebase.Mirrors disk root extensions := by
  induction paths generalizing codebase with
  | nil => exact mirrors
  | cons path paths ih => exact ih (mirrors.load path)

theorem agrees (mirrors : before.Mirrors disk root extensions)
    (other : after.Mirrors disk root extensions) : Agrees disk before after :=
  mirrors.current.agrees other.current (other.root_eq.trans mirrors.root_eq.symm)
    (other.extensions_eq.trans mirrors.extensions_eq.symm)

theorem sourceAt? (mirrors : codebase.Mirrors disk root extensions) (path : Path) :
    codebase.sourceAt? disk path =
      (Codebase.empty root extensions mirrors.absolute).onDisk? disk path := by
  have unread := empty disk extensions mirrors.absolute
  rw [(unread.agrees mirrors).sourceAt?, unread.current.sourceAt?]

end Mirrors
end Codebase
end ImportAudit
