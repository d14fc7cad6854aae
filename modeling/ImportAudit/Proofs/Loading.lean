import ImportAudit.Proofs.Codebase
import ImportAudit.Reach

/-! Loading is the only way into a codebase. Whatever is asked of it comes to loads one after the
other, each from the disk of its moment. The first load of a path that finds a file settles the
source of that path for good, and is noted once. -/
namespace ImportAudit

/-- Whether a file was read. -/
def Event.isParsed : Event → Bool
  | parsed .. => true
  | _ => false

/-- What is noted when a source has been read. -/
def Source.parsedEvent (source : Source) : Event :=
  .parsed source.path source.links.length source.exports.length

namespace Codebase

variable {disk : Disk} {codebase before middle after : Codebase} {path other : Path}
  {loads later : List (Disk × Path)} {events more : List Event}

theorem load_events : (codebase.load disk path).events =
    (codebase.unread? disk path).toList.map Source.parsedEvent := by
  unfold load unread? onDisk?
  cases read : codebase.find? path with
  | some source => simp
  | none =>
      rcases there : disk.node path with _ | (bytes | inside)
      · rfl
      · rfl
      · rfl

theorem load_sources : (codebase.load disk path).codebase.sources =
    codebase.sources ++ (codebase.unread? disk path).toList := by
  rw [load_codebase]
  cases added : codebase.unread? disk path <;> simp [adding, added]

theorem find?_load : (codebase.load disk other).codebase.find? path =
    (codebase.find? path).or (if other = path then codebase.onDisk? disk path else none) := by
  unfold find?
  rw [load_sources, List.find?_append]
  cases read : codebase.sources.find? (·.path = path) with
  | some source => rfl
  | none =>
      by_cases same : other = path
      · subst other
        rw [if_pos rfl, unread?, find?, read]
        cases there : codebase.onDisk? disk path with
        | none => rfl
        | some source => simp [onDisk?_path there]
      · rw [if_neg same]
        cases added : codebase.unread? disk other with
        | none => rfl
        | some source => simp [onDisk?_path (unread?_eq_some added).2, same]

/-- Loads some paths, each from the disk of its own moment. -/
def loadEach : List (Disk × Path) → Codebase → Step Unit
  | [], codebase => ⟨(), codebase, []⟩
  | (disk, path) :: loads, codebase =>
      let first := codebase.load disk path
      let others := loadEach loads first.codebase
      ⟨(), others.codebase, first.events ++ others.events⟩

theorem loadEach_append (loads later : List (Disk × Path)) (codebase : Codebase) :
    codebase.loadEach (loads ++ later) =
      ⟨(), ((codebase.loadEach loads).codebase.loadEach later).codebase,
        (codebase.loadEach loads).events ++
          ((codebase.loadEach loads).codebase.loadEach later).events⟩ := by
  induction loads generalizing codebase with
  | nil => rfl
  | cons load loads ih => simp only [List.cons_append, loadEach, ih, List.append_assoc]

theorem loadEach_settings (loads : List (Disk × Path)) (codebase : Codebase) :
    (codebase.loadEach loads).codebase.root = codebase.root ∧
      (codebase.loadEach loads).codebase.extensions = codebase.extensions := by
  induction loads generalizing codebase with
  | nil => exact ⟨rfl, rfl⟩
  | cons load loads ih =>
      obtain ⟨root, extensions⟩ := ih (codebase.load load.1 load.2).codebase
      have agrees := load_agrees load.1 load.2 codebase
      exact ⟨root.trans agrees.root, extensions.trans agrees.extensions⟩

/-- Loads add sources at the end, and each source that they add is noted. -/
theorem loadEach_adds (loads : List (Disk × Path)) (codebase : Codebase) :
    ∃ fresh, (codebase.loadEach loads).codebase.sources = codebase.sources ++ fresh ∧
      (codebase.loadEach loads).events = fresh.map Source.parsedEvent := by
  induction loads generalizing codebase with
  | nil => exact ⟨[], by simp [loadEach], rfl⟩
  | cons load loads ih =>
      obtain ⟨fresh, sources, events⟩ := ih (codebase.load load.1 load.2).codebase
      refine ⟨(codebase.unread? load.1 load.2).toList ++ fresh, ?_, ?_⟩
      · simp only [loadEach, sources, load_sources, List.append_assoc]
      · simp only [loadEach, events, load_events, List.map_append]

/-- The disk on which the first load of a path that found a file found it. -/
def foundOn? (path : Path) (loads : List (Disk × Path)) : Option Disk :=
  (loads.find? fun load => load.2 = path && load.1.isFile path).map Prod.fst

theorem find?_loadEach (loads : List (Disk × Path)) (codebase : Codebase) (path : Path) :
    (codebase.loadEach loads).codebase.find? path =
      (codebase.find? path).or
        ((foundOn? path loads).bind fun disk => codebase.onDisk? disk path) := by
  induction loads generalizing codebase with
  | nil => simp [loadEach, foundOn?]
  | cons load loads ih =>
      obtain ⟨disk, other⟩ := load
      have agrees := load_agrees disk other codebase
      have settings : ∀ now, (codebase.load disk other).codebase.onDisk? now path =
          codebase.onDisk? now path := fun now =>
        onDisk?_eq_of_settings agrees.root agrees.extensions path
      simp only [loadEach, ih, find?_load, Option.or_assoc, settings, foundOn?, List.find?_cons]
      congr 1
      by_cases same : other = path
      · subst other
        rw [← @onDisk?_isSome disk codebase]
        cases found : codebase.onDisk? disk path with
        | none => simp
        | some source => simp [found]
      · simp [same]

theorem nodup_loadEach (distinct : codebase.paths.Nodup) (loads : List (Disk × Path)) :
    (codebase.loadEach loads).codebase.paths.Nodup := by
  induction loads generalizing codebase with
  | nil => exact distinct
  | cons load loads ih =>
      apply ih
      unfold paths at distinct ⊢
      rw [load_sources, List.map_append]
      cases added : codebase.unread? load.1 load.2 with
      | none => simpa using distinct
      | some source =>
          obtain ⟨absent, there⟩ := unread?_eq_some added
          refine List.nodup_append.mpr ⟨distinct, by simp, ?_⟩
          rintro _ known _ new rfl
          obtain ⟨read, listed, named⟩ := List.mem_map.mp known
          have fresh := List.find?_eq_none.mp absent read listed
          simp only [Option.toList_some, List.map_cons, List.map_nil, List.mem_singleton] at new
          exact fresh (by simpa [new, onDisk?_path there] using named)

/-- What holds of the sources before and of all that the loads find holds of the sources after. -/
theorem forall_loadEach {holds : Source → Prop} (known : ∀ source ∈ codebase.sources, holds source)
    (found : ∀ load ∈ loads, ∀ source, codebase.onDisk? load.1 load.2 = some source → holds source) :
    ∀ source ∈ (codebase.loadEach loads).codebase.sources, holds source := by
  induction loads generalizing codebase with
  | nil => exact known
  | cons load loads ih =>
      obtain ⟨first, others⟩ := List.forall_mem_cons.mp found
      have agrees := load_agrees load.1 load.2 codebase
      apply ih
      · rw [load_sources]
        intro source member
        rcases List.mem_append.mp member with before | added
        · exact known source before
        · exact first source (unread?_eq_some (Option.mem_toList.mp added)).2
      · intro later listed source there
        rw [onDisk?_eq_of_settings agrees.root agrees.extensions] at there
        exact others later listed source there

theorem forall_loadAll {holds : Source → Prop} {paths : List Path}
    (known : ∀ source ∈ codebase.sources, holds source)
    (found : ∀ path ∈ paths, ∀ source, codebase.onDisk? disk path = some source → holds source) :
    ∀ source ∈ (codebase.loadAll disk paths).value, holds source := by
  intro source member
  rw [loadAll_value] at member
  obtain ⟨path, listed, given⟩ := List.mem_filterMap.mp member
  rcases Option.or_eq_some_iff.mp given with read | ⟨-, there⟩
  · exact known source (List.mem_of_find?_eq_some read)
  · exact found path listed source there

/-- From one codebase to another by some loads, among other events. -/
structure Loads (before : Codebase) (loads : List (Disk × Path)) (after : Codebase)
    (events : List Event) : Prop where
  codebase : after = (before.loadEach loads).codebase
  noted : events.filter Event.isParsed = (before.loadEach loads).events

namespace Loads

theorem refl (codebase : Codebase) (quiet : events.filter Event.isParsed = []) :
    Loads codebase [] codebase events :=
  ⟨rfl, quiet⟩

theorem trans (first : Loads before loads middle events) (second : Loads middle later after more) :
    Loads before (loads ++ later) after (events ++ more) := by
  obtain ⟨rfl, noted⟩ := first
  obtain ⟨rfl, further⟩ := second
  constructor
  · rw [loadEach_append]
  · rw [loadEach_append, List.filter_append, noted, further]

theorem load (disk : Disk) (path : Path) (codebase : Codebase) :
    Loads codebase [(disk, path)] (codebase.load disk path).codebase
      (codebase.load disk path).events := by
  refine ⟨rfl, ?_⟩
  simp only [loadEach, List.append_nil, load_events]
  cases codebase.unread? disk path <;> rfl

theorem loadAll (disk : Disk) (paths : List Path) (codebase : Codebase) :
    Loads codebase (paths.map (disk, ·)) (codebase.loadAll disk paths).codebase
      (codebase.loadAll disk paths).events := by
  induction paths generalizing codebase with
  | nil => exact .refl codebase rfl
  | cons path paths ih => exact (load disk path codebase).trans (ih _)

theorem settings (loaded : Loads before loads after events) :
    after.root = before.root ∧ after.extensions = before.extensions :=
  loaded.codebase ▸ loadEach_settings loads before

/-- Loads from one disk change no answer on it. -/
theorem agrees {paths : List Path} (loaded : Loads before (paths.map (disk, ·)) after events) :
    Agrees disk before after := by
  obtain ⟨rfl, -⟩ := loaded
  induction paths generalizing before with
  | nil => exact .refl disk before
  | cons path paths ih => exact (load_agrees disk path before).trans ih

theorem mirrors {root : Path} {extensions : List String} {paths : List Path}
    (loaded : Loads before (paths.map (disk, ·)) after events)
    (mirrors : before.Mirrors disk root extensions) : after.Mirrors disk root extensions := by
  obtain ⟨rfl, -⟩ := loaded
  induction paths generalizing before with
  | nil => exact mirrors
  | cons path paths ih => exact ih (mirrors.load path)

end Loads

namespace Walk

variable {walk next final : Walk} {stack : List Path} {visits : Nat}

/-- A walk that has gone on, and has loaded every file that it visited on the way. -/
def Proceeds (disk : Disk) (walk next : Walk) : Prop :=
  ∃ fresh events, next.visited = walk.visited ++ fresh ∧ next.events = walk.events ++ events ∧
    Loads walk.codebase (fresh.map (disk, ·)) next.codebase events

namespace Proceeds

theorem refl (disk : Disk) (walk : Walk) : Proceeds disk walk walk :=
  ⟨[], [], by simp, by simp, .refl walk.codebase rfl⟩

theorem trans (first : Proceeds disk walk next) (second : Proceeds disk next final) :
    Proceeds disk walk final := by
  obtain ⟨fresh, events, visited, noted, loaded⟩ := first
  obtain ⟨further, more, visitedMore, notedMore, loadedMore⟩ := second
  refine ⟨fresh ++ further, events ++ more, ?_, ?_, ?_⟩
  · rw [visitedMore, visited, List.append_assoc]
  · rw [notedMore, noted, List.append_assoc]
  · rw [List.map_append]
    exact loaded.trans loadedMore

theorem visit (disk : Disk) (path : Path) (walk : Walk) :
    Proceeds disk walk (walk.visit disk path).2 := by
  have quiet : ∀ targets : List Path,
      (targets.map (Event.reached · path)).filter Event.isParsed = [] := by
    intro targets
    simp [List.filter_eq_nil_iff, Event.isParsed]
  refine ⟨[path], _, rfl, List.append_assoc _ _ _, ?_⟩
  exact (Loads.load disk path walk.codebase).trans (.refl _ (quiet _))

theorem run (disk : Disk) (visits : Nat) (stack : List Path) (walk : Walk) :
    Proceeds disk walk (Walk.run disk visits stack walk) := by
  induction visits generalizing stack walk with
  | zero => exact .refl disk walk
  | succ visits ih =>
      rw [Walk.run]
      split
      · exact .refl disk walk
      · exact (visit disk _ walk).trans (ih _ _)

theorem fromEntries (disk : Disk) (visits : Nat) (entries : List Path) (walk : Walk) :
    Proceeds disk walk (Walk.fromEntries disk visits entries walk) := by
  induction entries generalizing walk with
  | nil => exact .refl disk walk
  | cons entry entries ih =>
      rw [Walk.fromEntries]
      split
      · exact (run disk visits [entry] walk).trans (ih _)
      · refine trans ?_ (ih _)
        exact ⟨[], [.entryMissing entry], by simp, rfl, .refl walk.codebase rfl⟩

end Proceeds
end Walk

/-- A walk loads the files that it visits, in this order. -/
theorem Loads.reach (disk : Disk) (entries : List Path) (codebase : Codebase) :
    Loads codebase ((codebase.reach disk entries).value.map (disk, ·))
      (codebase.reach disk entries).codebase (codebase.reach disk entries).events := by
  obtain ⟨fresh, events, visited, noted, loaded⟩ :=
    Walk.Proceeds.fromEntries disk (codebase.visitLimit disk entries) entries ⟨[], codebase, []⟩
  obtain rfl : (codebase.reach disk entries).value = fresh := visited
  obtain rfl : (codebase.reach disk entries).events = events := noted
  exact loaded

end Codebase
end ImportAudit
