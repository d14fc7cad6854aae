import ImportAudit.Reach
import ImportAudit.Proofs.Exploration
import ImportAudit.Proofs.Resolution
import Mathlib.Data.List.Perm.Subperm
import Mathlib.Data.List.TakeWhile
import Mathlib.Order.Bounds.Basic

/-! The walk with a stack does what the recursive form does. Each round visits one more file of a
finite stock: the entry points, the targets already read, and the places of the disk with their
additions. The limit on the visits is the size of that stock, so no walk is cut short. -/
namespace ImportAudit.Codebase

variable {disk : Disk} {codebase : Codebase} {path : Path}

namespace Walk

def trip (walk : Walk) : Trip := ⟨walk.visited, walk.codebase⟩

theorem visit_fresh (walk : Walk) :
    (walk.visit disk path).1 =
      (walk.codebase.targetsAt disk path).filter (· ∉ (walk.trip.enter disk path).visited) := by
  simp only [visit, load_value]
  rfl

theorem passesBy_iff {walk : Walk} : walk.passesBy path = true ↔
    path ∈ walk.trip.visited ∨ path.isWithin walk.trip.codebase.root = false := by
  simp [passesBy, trip]

theorem explores_of_dropWhile {walk : Walk} {stack : List Path} {final : Trip}
    (explored : Explores disk (stack.dropWhile walk.passesBy) walk.trip final) :
    Explores disk stack walk.trip final := by
  induction stack with
  | nil => exact explored
  | cons path stack ih =>
      by_cases passed : walk.passesBy path = true
      · rw [List.dropWhile_cons_of_pos passed] at explored
        exact .passBy (passesBy_iff.mp passed) (ih explored)
      · rwa [List.dropWhile_cons_of_neg passed] at explored

/-- What is left on the stack was on it, and the first of it is to be visited. -/
theorem of_dropWhile {walk : Walk} {stack below : List Path}
    (rest : stack.dropWhile walk.passesBy = path :: below) :
    (∀ other ∈ path :: below, other ∈ stack) ∧ path ∉ walk.visited ∧
      path.isWithin walk.codebase.root = true := by
  have stays : ¬ walk.passesBy path = true := by
    have head := List.head?_dropWhile_not walk.passesBy stack
    simpa [rest] using head
  obtain ⟨unvisited, within⟩ := not_or.mp (mt passesBy_iff.mpr stays)
  refine ⟨fun other member => ?_, unvisited, by simpa [trip] using within⟩
  exact (List.dropWhile_sublist walk.passesBy).subset (rest ▸ member)

/-- A walk among the files of a stock: links lead out of the root or to files of the stock, and the
visits left reach for all of it. -/
structure Fits (disk : Disk) (stock : List Path) (visits : Nat) (walk : Walk) : Prop where
  nodup : walk.visited.Nodup
  stocked : walk.visited ⊆ stock
  closed : ∀ path ∈ stock, ∀ target ∈ walk.codebase.targetsAt disk path,
    target.isWithin walk.codebase.root = true → target ∈ stock
  enough : stock.length ≤ walk.visited.length + visits

namespace Fits

variable {stock stack : List Path} {visits : Nat} {walk : Walk}

theorem visited_of_none (fits : Fits disk stock 0 walk) (member : path ∈ stock) :
    path ∈ walk.visited := by
  by_contra unvisited
  have more : (path :: walk.visited).Subperm stock :=
    List.subperm_of_subset (List.nodup_cons.mpr ⟨unvisited, fits.nodup⟩)
      (List.cons_subset.mpr ⟨member, fits.stocked⟩)
  have count := more.length_le
  have limit := fits.enough
  simp only [List.length_cons] at count
  omega

theorem visit (fits : Fits disk stock (visits + 1) walk) (member : path ∈ stock)
    (unvisited : path ∉ walk.visited) : Fits disk stock visits (walk.visit disk path).2 := by
  have agrees : Agrees disk walk.codebase (walk.visit disk path).2.codebase :=
    load_agrees disk path walk.codebase
  have visited : (walk.visit disk path).2.visited = walk.visited ++ [path] := rfl
  refine ⟨?_, ?_, ?_, ?_⟩
  · rw [visited]
    exact List.nodup_append.mpr ⟨fits.nodup, by simp, by
      rintro other seen _ last rfl
      exact unvisited (List.mem_singleton.mp last ▸ seen)⟩
  · rw [visited]
    exact List.append_subset.mpr ⟨fits.stocked, by simpa using member⟩
  · intro origin listed target linked within
    rw [agrees.targetsAt] at linked
    rw [agrees.root] at within
    exact fits.closed origin listed target linked within
  · rw [visited, List.length_append, List.length_singleton]
    have limit := fits.enough
    omega

/-- The next file on the stack that is not passed by is one to visit, and the visit leaves a walk that
fits with fewer visits. -/
theorem next {below : List Path} (fits : Fits disk stock (visits + 1) walk)
    (pending : ∀ path ∈ stack, path.isWithin walk.codebase.root = true → path ∈ stock)
    (rest : stack.dropWhile walk.passesBy = path :: below) :
    path ∉ walk.visited ∧ path.isWithin walk.codebase.root = true ∧
      Fits disk stock visits (walk.visit disk path).2 ∧
      ∀ other ∈ (walk.visit disk path).1 ++ below,
        other.isWithin (walk.visit disk path).2.codebase.root = true → other ∈ stock := by
  obtain ⟨onStack, unvisited, inside⟩ := of_dropWhile rest
  have member := pending path (onStack path List.mem_cons_self) inside
  have agrees : Agrees disk walk.codebase (walk.visit disk path).2.codebase :=
    load_agrees disk path walk.codebase
  refine ⟨unvisited, inside, fits.visit member unvisited, ?_⟩
  intro other listed within
  rw [agrees.root] at within
  rcases List.mem_append.mp listed with fresh | later
  · rw [visit_fresh] at fresh
    exact fits.closed path member other (List.mem_filter.mp fresh).1 within
  · exact pending other (onStack other (List.mem_cons_of_mem _ later)) within

theorem known_of_none (fits : Fits disk stock 0 walk)
    (pending : ∀ path ∈ stack, path.isWithin walk.codebase.root = true → path ∈ stock) :
    ∀ path ∈ stack, path ∈ walk.visited ∨ path.isWithin walk.codebase.root = false := by
  intro path member
  by_cases within : path.isWithin walk.codebase.root = true
  · exact Or.inl (fits.visited_of_none (pending path member within))
  · exact Or.inr (Bool.eq_false_iff.mpr within)

/-- As many rounds as the stock holds files explore the whole stack. -/
theorem run_explores (fits : Fits disk stock visits walk)
    (pending : ∀ path ∈ stack, path.isWithin walk.codebase.root = true → path ∈ stock) :
    Explores disk stack walk.trip (run disk visits stack walk).trip := by
  induction visits generalizing stack walk with
  | zero =>
      -- The stock is used up, so whatever is on the stack is passed by.
      exact Explores.of_known (fits.known_of_none pending)
  | succ visits ih =>
      apply explores_of_dropWhile
      rw [run]
      cases rest : stack.dropWhile walk.passesBy with
      | nil => exact .done walk.trip
      | cons path below =>
          obtain ⟨unvisited, inside, fitsOn, queued⟩ := fits.next pending rest
          obtain ⟨middle, links, others⟩ := Explores.append_iff.mp (ih fitsOn queued)
          rw [visit_fresh] at links
          exact .enter unvisited inside (Explores.of_filter (List.Subset.refl _) links) others

/-- More rounds than that make no difference. -/
theorem run_of_le (fits : Fits disk stock visits walk)
    (pending : ∀ path ∈ stack, path.isWithin walk.codebase.root = true → path ∈ stock)
    {more : Nat} (enough : visits ≤ more) :
    run disk more stack walk = run disk visits stack walk := by
  induction visits generalizing stack walk more with
  | zero =>
      have passed : stack.dropWhile walk.passesBy = [] :=
        List.dropWhile_eq_nil_iff.mpr fun path member =>
          passesBy_iff.mpr (fits.known_of_none pending path member)
      cases more with
      | zero => rfl
      | succ more => rw [run, run, passed]
  | succ visits ih =>
      obtain ⟨more, rfl⟩ := Nat.exists_eq_add_of_le' enough
      rw [run, ← Nat.add_assoc, run]
      cases rest : stack.dropWhile walk.passesBy with
      | nil => rfl
      | cons path below =>
          obtain ⟨-, -, fitsOn, queued⟩ := fits.next pending rest
          exact ih fitsOn queued (Nat.le_add_left visits more)

theorem of_explores {paths : List Path} {next : Walk} (fits : Fits disk stock visits walk)
    (pending : ∀ path ∈ paths, path.isWithin walk.codebase.root = true → path ∈ stock)
    (explored : Explores disk paths walk.trip next.trip) : Fits disk stock visits next := by
  obtain ⟨fresh, extension⟩ := explored.exists_extends
  have visited : next.visited = walk.visited ++ fresh := extension.visited
  have agrees : Agrees disk walk.codebase next.codebase := extension.agrees
  refine ⟨?_, ?_, ?_, ?_⟩
  · rw [visited]
    exact List.nodup_append.mpr ⟨fits.nodup, extension.nodup, by
      rintro path before _ added rfl
      exact extension.unvisited path added before⟩
  · intro path member
    rcases explored.stays (· ∈ stock) pending fits.closed member with before | inside
    · exact fits.stocked before
    · exact inside
  · intro path member target linked within
    rw [agrees.targetsAt] at linked
    rw [agrees.root] at within
    exact fits.closed path member target linked within
  · rw [visited, List.length_append]
    have limit := fits.enough
    omega

theorem run_fits {entry : Path} (fits : Fits disk stock visits walk)
    (pending : entry.isWithin walk.codebase.root = true → entry ∈ stock) :
    Explores disk [entry] walk.trip (run disk visits [entry] walk).trip ∧
      (run disk visits [entry] walk).codebase.root = walk.codebase.root ∧
      Fits disk stock visits (run disk visits [entry] walk) := by
  have alone : ∀ path ∈ [entry], path.isWithin walk.codebase.root = true → path ∈ stock := by
    simpa using pending
  have explored := fits.run_explores alone
  exact ⟨explored, explored.agrees.root, fits.of_explores alone explored⟩

theorem fromEntries_explores {entries : List Path} (fits : Fits disk stock visits walk)
    (pending : ∀ entry ∈ entries, entry.isWithin walk.codebase.root = true → entry ∈ stock) :
    Explores disk (entries.filter disk.isFile) walk.trip
      (fromEntries disk visits entries walk).trip := by
  induction entries generalizing walk with
  | nil => exact .done walk.trip
  | cons entry entries ih =>
      obtain ⟨first, others⟩ := List.forall_mem_cons.mp pending
      by_cases file : disk.isFile entry = true
      · obtain ⟨explored, root, fitsOn⟩ := fits.run_fits first
        rw [List.filter_cons_of_pos file, fromEntries, if_pos file, ← List.singleton_append]
        exact Explores.append_iff.mpr ⟨_, explored, ih fitsOn (by rwa [root])⟩
      · rw [List.filter_cons_of_neg file, fromEntries, if_neg file]
        have noted : Fits disk stock visits
            { walk with events := walk.events ++ [.entryMissing entry] } :=
          ⟨fits.nodup, fits.stocked, fits.closed, fits.enough⟩
        exact ih noted others

theorem fromEntries_of_le {entries : List Path} (fits : Fits disk stock visits walk)
    (pending : ∀ entry ∈ entries, entry.isWithin walk.codebase.root = true → entry ∈ stock)
    {more : Nat} (enough : visits ≤ more) :
    fromEntries disk more entries walk = fromEntries disk visits entries walk := by
  induction entries generalizing walk with
  | nil => rfl
  | cons entry entries ih =>
      obtain ⟨first, others⟩ := List.forall_mem_cons.mp pending
      rw [fromEntries, fromEntries]
      split
      · obtain ⟨-, root, fitsOn⟩ := fits.run_fits first
        rw [fits.run_of_le (by simpa using first) enough]
        exact ih fitsOn (by rwa [root])
      · have noted : Fits disk stock visits
            { walk with events := walk.events ++ [.entryMissing entry] } :=
          ⟨fits.nodup, fits.stocked, fits.closed, fits.enough⟩
        exact ih noted others

end Fits
end Walk

def pathOf? (anchor : Anchor) (parts : List String) : Option Path :=
  if proper : ∀ part ∈ parts, IsComponent part then some ⟨anchor, parts, proper⟩ else none

theorem pathOf?_parts (path : Path) : pathOf? path.anchor path.parts = some path :=
  dif_pos path.proper

/-- All that a walk within an absolute root can visit, and more. -/
def stock (disk : Disk) (entries : List Path) (codebase : Codebase) : List Path :=
  (entries ++ codebase.sources.flatMap (fun source => source.links.map Link.target) ++
    (Resolution.extendedPlaces disk codebase.extensions).filterMap
      (pathOf? codebase.root.anchor)).filter (·.isWithin codebase.root)

theorem length_targets (sources : List Source) :
    (sources.flatMap fun source => source.links.map Link.target).length = linkCount sources := by
  induction sources with
  | nil => rfl
  | cons source sources ih => simp [linkCount, ← ih]

theorem length_stock_le (disk : Disk) (entries : List Path) (codebase : Codebase) :
    (stock disk entries codebase).length ≤ codebase.visitLimit disk entries := by
  have places := List.length_filterMap_le (pathOf? codebase.root.anchor)
    (Resolution.extendedPlaces disk codebase.extensions)
  rw [Resolution.length_extendedPlaces] at places
  refine Nat.le_trans (List.length_filter_le _ _) ?_
  simp only [List.length_append, length_targets, visitLimit]
  omega

theorem target_mem_stock {entries : List Path} {target : Path}
    (origin : path ∈ stock disk entries codebase)
    (linked : target ∈ codebase.targetsAt disk path)
    (within : target.isWithin codebase.root = true) : target ∈ stock disk entries codebase := by
  refine List.mem_filter.mpr ⟨?_, within⟩
  unfold targetsAt at linked
  cases found : codebase.sourceAt? disk path with
  | none => simp [found] at linked
  | some source =>
      obtain ⟨link, listed, rfl⟩ : ∃ link ∈ source.links, link.target = target := by
        simpa [found] using linked
      rcases Option.or_eq_some_iff.mp found with read | ⟨-, there⟩
      · refine List.mem_append_left _ (List.mem_append_right _ (List.mem_flatMap.mpr ?_))
        exact ⟨source, List.mem_of_find?_eq_some read, List.mem_map_of_mem listed⟩
      · refine List.mem_append_right _ (List.mem_filterMap.mpr ⟨link.target.parts, ?_, ?_⟩)
        · refine Resolution.resolve?_mem_extendedPlaces ?_ (onDisk?_link there listed).1
          rw [(Path.isWithin_iff.mp (List.mem_filter.mp origin).2).1]
          exact codebase.absolute
        · rw [← (Path.isWithin_iff.mp within).1, pathOf?_parts]

theorem fits_stock (disk : Disk) (entries : List Path) (codebase : Codebase) :
    Walk.Fits disk (stock disk entries codebase) (codebase.visitLimit disk entries)
      ⟨[], codebase, []⟩ :=
  ⟨List.nodup_nil, List.nil_subset _,
    fun _ origin _ linked within => target_mem_stock origin linked within,
    by simpa using length_stock_le disk entries codebase⟩

theorem entry_mem_stock {entries : List Path} {entry : Path} (member : entry ∈ entries)
    (within : entry.isWithin codebase.root = true) : entry ∈ stock disk entries codebase :=
  List.mem_filter.mpr ⟨List.mem_append_left _ (List.mem_append_left _ member), within⟩

/-- The walk from the entry points explores them as the recursive form does. -/
theorem reach_explores (disk : Disk) (entries : List Path) (codebase : Codebase) :
    Explores disk (entries.filter disk.isFile) ⟨[], codebase⟩
      ⟨(codebase.reach disk entries).value, (codebase.reach disk entries).codebase⟩ :=
  (fits_stock disk entries codebase).fromEntries_explores fun _ => entry_mem_stock

/-- A walk that may visit more files than the limit does what the walk with the limit does. -/
theorem reach_eq_of_le {entries : List Path} {visits : Nat}
    (enough : codebase.visitLimit disk entries ≤ visits) :
    codebase.reach disk entries =
      (Walk.fromEntries disk visits entries ⟨[], codebase, []⟩).outcome := by
  have same := (fits_stock disk entries codebase).fromEntries_of_le
    (fun _ => entry_mem_stock) enough
  rw [same, reach]

/-- What was read from the disk before makes no difference to the walk. -/
theorem reach_value_of_agrees {before after : Codebase} (agrees : Agrees disk before after)
    (entries : List Path) :
    (after.reach disk entries).value = (before.reach disk entries).value := by
  have start : Trip.visited ⟨[], after⟩ = Trip.visited ⟨[], before⟩ := rfl
  obtain ⟨last, again, same⟩ := (reach_explores disk entries before).of_agrees start agrees
  have explored := reach_explores disk entries after
  exact (congrArg Trip.visited (explored.unique again)).trans same

theorem Mirrors.reach {root : Path} {extensions : List String}
    (mirrors : codebase.Mirrors disk root extensions) (entries : List Path) :
    (codebase.reach disk entries).codebase.Mirrors disk root extensions := by
  obtain ⟨fresh, extension⟩ := (reach_explores disk entries codebase).exists_extends
  have read : (codebase.reach disk entries).codebase = codebase.adding disk fresh :=
    extension.codebase
  rw [read]
  exact mirrors.adding fresh

/-- A set of files that holds the entry points and that links do not lead out of, as far as these
lie within the root. -/
structure Holds (disk : Disk) (entries : List Path) (codebase : Codebase) (files : Set Path) :
    Prop where
  entry : ∀ entry ∈ entries, disk.isFile entry = true → entry.isWithin codebase.root = true →
    entry ∈ files
  link : ∀ path ∈ files, ∀ source, codebase.sourceAt? disk path = some source →
    ∀ link ∈ source.links, link.target.isWithin codebase.root = true → link.target ∈ files

theorem mem_targetsAt_iff {target : Path} : target ∈ codebase.targetsAt disk path ↔
    ∃ source, codebase.sourceAt? disk path = some source ∧
      ∃ link ∈ source.links, link.target = target := by
  unfold targetsAt
  cases codebase.sourceAt? disk path <;> simp

theorem reach_least (disk : Disk) (entries : List Path) (codebase : Codebase) :
    IsLeast {files | Holds disk entries codebase files}
      {path | path ∈ (codebase.reach disk entries).value} := by
  have explored := reach_explores disk entries codebase
  refine ⟨⟨?_, ?_⟩, ?_⟩
  · intro entry member file within
    exact explored.visits (List.mem_filter.mpr ⟨member, file⟩) within
  · intro path visited source found link listed within
    exact explored.follows visited List.not_mem_nil
      (mem_targetsAt_iff.mpr ⟨source, found, link, listed, rfl⟩) within
  · intro files holds path visited
    refine (explored.stays (· ∈ files) ?_ ?_ visited).resolve_left List.not_mem_nil
    · intro entry member within
      obtain ⟨member, file⟩ := List.mem_filter.mp member
      exact holds.entry entry member file within
    · intro path inside target linked within
      obtain ⟨source, found, link, listed, rfl⟩ := mem_targetsAt_iff.mp linked
      exact holds.link path inside source found link listed within

theorem Holds.of_agrees {before after : Codebase} {entries others : List Path} {files : Set Path}
    (agrees : Agrees disk before after) (same : ∀ entry, entry ∈ others ↔ entry ∈ entries)
    (holds : Holds disk entries before files) : Holds disk others after files := by
  refine ⟨?_, ?_⟩
  · intro entry member file within
    rw [agrees.root] at within
    exact holds.entry entry ((same entry).mp member) file within
  · intro path inside source found link listed within
    rw [agrees.root] at within
    rw [agrees.sourceAt?] at found
    exact holds.link path inside source found link listed within

end ImportAudit.Codebase
