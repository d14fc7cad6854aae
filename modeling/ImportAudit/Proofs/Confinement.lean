import ImportAudit.Proofs.ImportFindings
import ImportAudit.Proofs.Overwrite
import ImportAudit.Proofs.Reach

/-! Codebases inside a root. A source inside the root links to paths inside it, whatever its specifiers
climb over, so loads, walks and checks that begin inside end inside; and what files outside the root
hold makes no difference to them. -/
namespace ImportAudit

namespace Path

variable {path root : Path}

/-- At or below the root, and written from the top of the disk without `..`. -/
structure IsInside (path root : Path) : Prop where
  resolved : path.IsResolved
  within : path.isWithin root = true

theorem IsInside.of_isWithin (resolved : root.IsResolved) (within : path.isWithin root = true)
    (down : ".." ∉ path.parts) : path.IsInside root :=
  ⟨⟨(isWithin_iff.mp within).1.trans resolved.1, down⟩, within⟩

theorem IsInside.self (resolved : root.IsResolved) : root.IsInside root :=
  ⟨resolved, isWithin_iff.mpr ⟨rfl, List.prefix_refl _⟩⟩

theorem IsInside.child (inside : path.IsInside root) (name : Name) :
    (path.child name).IsInside root := by
  obtain ⟨anchor, above⟩ := isWithin_iff.mp inside.within
  refine ⟨⟨inside.resolved.1, ?_⟩, isWithin_iff.mpr ⟨anchor, above.trans (List.prefix_append _ _)⟩⟩
  simpa [Path.child, Ne.symm name.notParent] using inside.resolved.2

/-- Without `.` and `..`, from the top of the disk, below the components of the root. -/
theorem IsInside.spelled (inside : path.IsInside root) :
    path.anchor = .root ∧ "." ∉ path.parts ∧ ".." ∉ path.parts ∧ root.parts <+: path.parts :=
  ⟨inside.resolved.1, fun dot => (path.proper "." dot).2.1 rfl, inside.resolved.2,
    (isWithin_iff.mp inside.within).2⟩

end Path

/-- Disks that differ outside the root only, and there not in where the files are. -/
structure Disk.AgreeWithin (root : Path) (one other : Disk) : Prop where
  isFile : ∀ path, ".." ∉ path.parts → other.isFile path = one.isFile path
  node : ∀ path, path.IsInside root → other.node path = one.node path

/-- Writing over a file outside the root. -/
theorem Disk.AgreeWithin.put {disk : Disk} {root path : Path} (resolved : path.IsResolved)
    (file : disk.isFile path = true) (outside : path.isWithin root = false)
    (bytes : Text.Utf8.Bytes) : AgreeWithin root disk (disk.put path bytes) where
  isFile other down := isFile_put resolved.2 file down bytes
  node other inside := by
    obtain ⟨anchor, above⟩ := Path.isWithin_iff.mp inside.within
    refine node_put_other resolved.2 file inside.resolved.2 (fun onWay => ?_) bytes
    have within : path.isWithin root = true := Path.isWithin_iff.mpr
      ⟨resolved.1.trans (inside.resolved.1.symm.trans anchor), above.trans onWay⟩
    rw [outside] at within
    cases within

/-- A source inside the root as files make it: its links are sound and lead inside. -/
structure Source.IsConfined (root : Path) (source : Source) : Prop where
  path : source.path.IsInside root
  target : ∀ link ∈ source.links, link.target.IsInside root
  sound : source.IsSound

namespace Codebase

variable {disk one other : Disk} {codebase before after : Codebase} {path : Path} {source : Source}
  {entries : List Path}

structure IsConfined (codebase : Codebase) : Prop where
  resolved : codebase.root.IsResolved
  plain : ∀ extension ∈ codebase.extensions, '/' ∉ extension.toList
  source : ∀ source ∈ codebase.sources, source.IsConfined codebase.root

namespace IsConfined

theorem empty {root : Path} {extensions : List String} (resolved : root.IsResolved)
    (plain : ∀ extension ∈ extensions, '/' ∉ extension.toList) :
    (Codebase.empty root extensions resolved.anchor_ne).IsConfined :=
  ⟨resolved, plain, by simp [Codebase.empty]⟩

theorem onDisk? (confined : codebase.IsConfined) (inside : path.IsInside codebase.root)
    (found : codebase.onDisk? disk path = some source) : source.IsConfined codebase.root := by
  refine ⟨onDisk?_path found ▸ inside, fun link listed => ?_, onDisk?_isSound found⟩
  obtain ⟨resolved, within⟩ := onDisk?_link found listed
  exact .of_isWithin confined.resolved within
    (Resolution.resolve?_down confined.plain inside.resolved.anchor_ne resolved)

theorem sourceAt? (confined : codebase.IsConfined) (inside : path.IsInside codebase.root)
    (found : codebase.sourceAt? disk path = some source) : source.IsConfined codebase.root := by
  rcases Option.or_eq_some_iff.mp found with read | ⟨-, there⟩
  · exact confined.source source (List.mem_of_find?_eq_some read)
  · exact confined.onDisk? inside there

/-- Loads inside the root lead from a confined codebase to another one. -/
theorem loads {loads : List (Disk × Path)} {events : List Event} (confined : before.IsConfined)
    (loaded : Loads before loads after events)
    (inside : ∀ load ∈ loads, load.2.IsInside before.root) : after.IsConfined := by
  obtain ⟨root, extensions⟩ := loaded.settings
  refine ⟨root ▸ confined.resolved, extensions ▸ confined.plain, ?_⟩
  rw [root, loaded.codebase]
  exact forall_loadEach confined.source fun load listed _ found =>
    confined.onDisk? (inside load listed) found

theorem load (confined : codebase.IsConfined) (disk : Disk) (inside : path.IsInside codebase.root) :
    (codebase.load disk path).codebase.IsConfined :=
  confined.loads (.load disk path codebase) (by simpa using inside)

theorem loadAll {paths : List Path} (confined : codebase.IsConfined) (disk : Disk)
    (inside : ∀ path ∈ paths, path.IsInside codebase.root) :
    (codebase.loadAll disk paths).codebase.IsConfined ∧
      ∀ source ∈ (codebase.loadAll disk paths).value, source.IsConfined codebase.root :=
  ⟨confined.loads (.loadAll disk paths codebase) (by simpa using inside),
    forall_loadAll confined.source fun path listed _ found =>
      confined.onDisk? (inside path listed) found⟩

/-- A walk from entry points without `..` visits files inside the root. -/
theorem reach (confined : codebase.IsConfined) (disk : Disk)
    (down : ∀ entry ∈ entries, ".." ∉ entry.parts) :
    (∀ path ∈ (codebase.reach disk entries).value, path.IsInside codebase.root) ∧
      (codebase.reach disk entries).codebase.IsConfined := by
  have explored := reach_explores disk entries codebase
  have inside : ∀ path ∈ (codebase.reach disk entries).value, path.IsInside codebase.root := by
    intro path visited
    refine (explored.stays (·.IsInside codebase.root) ?_ ?_ visited).resolve_left List.not_mem_nil
    · intro entry member within
      exact .of_isWithin confined.resolved within (down entry (List.mem_filter.mp member).1)
    · intro path inside target linked _
      obtain ⟨source, found, link, listed, rfl⟩ := mem_targetsAt_iff.mp linked
      exact (confined.sourceAt? inside found).target link listed
  exact ⟨inside, confined.loads (.reach disk entries codebase) (by simpa using inside)⟩

end IsConfined

section Agreement

variable (agree : Disk.AgreeWithin codebase.root one other) (confined : codebase.IsConfined)
include agree confined

theorem load_congr (inside : path.IsInside codebase.root) :
    codebase.load other path = codebase.load one path := by
  have parsed : Source.parse other codebase.root codebase.extensions path =
      Source.parse one codebase.root codebase.extensions path := by
    funext bytes
    have linked : Source.link? other codebase.root codebase.extensions path =
        Source.link? one codebase.root codebase.extensions path := by
      funext text mention
      unfold Source.link?
      rw [Resolution.resolve?_congr confined.plain inside.resolved.anchor_ne agree.isFile]
    simp only [Source.parse, Source.linksOf, linked]
  unfold load
  rw [agree.node path inside, parsed]

theorem exportsOf_congr (inside : path.IsInside codebase.root) :
    codebase.exportsOf other path = codebase.exportsOf one path := by
  rw [exportsOf, exportsOf, load_congr agree confined inside]

theorem loadAll_congr {paths : List Path} (inside : ∀ path ∈ paths, path.IsInside codebase.root) :
    codebase.loadAll other paths = codebase.loadAll one paths := by
  induction paths generalizing codebase with
  | nil => rfl
  | cons path paths ih =>
      obtain ⟨first, others⟩ := List.forall_mem_cons.mp inside
      have root := (load_agrees one path codebase).root
      rw [loadAll, loadAll, load_congr agree confined first,
        ih (root ▸ agree) (confined.load one first) (root ▸ others)]

end Agreement

namespace Walk

variable {walk : Walk} {stack below : List Path}

/-- The next file that a walk visits is inside, and so is all that it leads to. -/
theorem visit_confined (confined : walk.codebase.IsConfined)
    (down : ∀ path ∈ stack, ".." ∉ path.parts)
    (rest : stack.dropWhile walk.passesBy = path :: below) (disk : Disk) :
    path.IsInside walk.codebase.root ∧ (walk.visit disk path).2.codebase.IsConfined ∧
      ∀ other ∈ (walk.visit disk path).1 ++ below, ".." ∉ other.parts := by
  obtain ⟨onStack, -, within⟩ := of_dropWhile rest
  have inside : path.IsInside walk.codebase.root :=
    .of_isWithin confined.resolved within (down path (onStack path List.mem_cons_self))
  refine ⟨inside, confined.load disk inside, fun other member => ?_⟩
  rcases List.mem_append.mp member with fresh | later
  · rw [visit_fresh] at fresh
    obtain ⟨source, found, link, listed, rfl⟩ :=
      mem_targetsAt_iff.mp (List.mem_filter.mp fresh).1
    exact ((confined.sourceAt? inside found).target link listed).resolved.2
  · exact down other (onStack other (List.mem_cons_of_mem _ later))

theorem run_congr (agree : Disk.AgreeWithin walk.codebase.root one other)
    (confined : walk.codebase.IsConfined) (down : ∀ path ∈ stack, ".." ∉ path.parts) (visits : Nat) :
    run other visits stack walk = run one visits stack walk ∧
      (run one visits stack walk).codebase.root = walk.codebase.root ∧
      (run one visits stack walk).codebase.IsConfined := by
  induction visits generalizing stack walk with
  | zero => exact ⟨rfl, rfl, confined⟩
  | succ visits ih =>
      rw [run, run]
      cases rest : stack.dropWhile walk.passesBy with
      | nil => exact ⟨rfl, rfl, confined⟩
      | cons path below =>
          obtain ⟨inside, confinedOn, downOn⟩ := visit_confined confined down rest one
          have visited : walk.visit other path = walk.visit one path := by
            rw [visit, visit, load_congr agree confined inside]
          have root : (walk.visit one path).2.codebase.root = walk.codebase.root :=
            (load_agrees one path walk.codebase).root
          obtain ⟨same, rootOn, confinedEnd⟩ := ih (root ▸ agree) confinedOn downOn
          simp only [visited]
          exact ⟨same, rootOn.trans root, confinedEnd⟩

theorem fromEntries_congr (agree : Disk.AgreeWithin walk.codebase.root one other)
    (confined : walk.codebase.IsConfined) (down : ∀ entry ∈ entries, ".." ∉ entry.parts)
    (visits : Nat) : fromEntries other visits entries walk = fromEntries one visits entries walk := by
  induction entries generalizing walk with
  | nil => rfl
  | cons entry entries ih =>
      obtain ⟨first, others⟩ := List.forall_mem_cons.mp down
      rw [fromEntries, fromEntries, agree.isFile entry first]
      split
      · have alone : ∀ path ∈ [entry], ".." ∉ path.parts := by simpa using first
        obtain ⟨same, root, confinedOn⟩ := run_congr agree confined alone visits
        rw [same]
        exact ih (root ▸ agree) confinedOn others
      · exact ih agree confined others

end Walk

theorem reach_congr (agree : Disk.AgreeWithin codebase.root one other)
    (confined : codebase.IsConfined) (down : ∀ entry ∈ entries, ".." ∉ entry.parts) :
    codebase.reach other entries = codebase.reach one entries := by
  -- The limits on the visits differ, but what exceeds both of them serves both walks.
  rw [reach_eq_of_le (Nat.le_max_left (codebase.visitLimit other entries)
      (codebase.visitLimit one entries)),
    reach_eq_of_le (Nat.le_max_right (codebase.visitLimit other entries)
      (codebase.visitLimit one entries)),
    Walk.fromEntries_congr agree confined down]

end Codebase

namespace Source.IsConfined

variable {root : Path} {source : Source}

theorem unusedBindings (confined : source.IsConfined root) :
    ∀ finding ∈ source.unusedBindings, finding.file.IsInside root ∧ finding.target.IsInside root := by
  intro finding member
  obtain ⟨link, listed, member⟩ := List.mem_flatMap.mp member
  obtain ⟨binding, -, rfl⟩ := List.mem_map.mp member
  exact ⟨confined.path, confined.target link listed⟩

theorem idleImports (confined : source.IsConfined root) (exports : Path → List String) :
    ∀ finding ∈ source.idleImports exports,
      finding.file.IsInside root ∧ finding.target.IsInside root := by
  intro finding member
  obtain ⟨link, idle, rfl⟩ := List.mem_map.mp member
  exact ⟨confined.path, confined.target link (List.mem_filter.mp idle).1⟩

theorem idleTargets (confined : source.IsConfined root) :
    ∀ path ∈ source.idleTargets, path.IsInside root := by
  intro path member
  obtain ⟨link, idle, rfl⟩ := List.mem_map.mp member
  exact confined.target link (List.mem_filter.mp idle).1

end Source.IsConfined

/-- Two loops do the same if their steps do, wherever the loop can get. -/
theorem foldlM_congr {σ α ε : Type} {step again : σ → α → Except ε σ} {holds : σ → Prop}
    {items : List α} {state : σ}
    (same : ∀ item ∈ items, ∀ state, holds state → again state item = step state item)
    (keeps : ∀ item ∈ items, ∀ state, holds state → ∃ next, step state item = .ok next ∧ holds next)
    (start : holds state) : items.foldlM again state = items.foldlM step state := by
  induction items generalizing state with
  | nil => rfl
  | cons item items ih =>
      obtain ⟨next, stepped, kept⟩ := keeps item List.mem_cons_self state start
      rw [List.foldlM_cons, List.foldlM_cons, same item List.mem_cons_self state start, stepped]
      exact ih (fun item member => same item (List.mem_cons_of_mem _ member))
        (fun item member => keeps item (List.mem_cons_of_mem _ member)) kept

namespace ImportCheck

variable {disk one other : Disk} {root : Path} {check next : ImportCheck} {source : Source}
  {link : Link}

/-- A check over a confined codebase with this root. -/
structure IsConfined (root : Path) (check : ImportCheck) : Prop where
  root_eq : check.codebase.root = root
  codebase : check.codebase.IsConfined

theorem Records.confined {bindings : List UnusedBinding} {targets : List UnusedTarget}
    {paths : List Path} (records : Records disk check bindings targets paths next)
    (confined : check.IsConfined root) (inside : ∀ path ∈ paths, path.IsInside root) :
    next.IsConfined root := by
  obtain ⟨rfl, codebase⟩ := confined
  obtain ⟨events, -, loaded⟩ := records.loads
  exact ⟨records.agrees.root, codebase.loads loaded (by simpa using inside)⟩

theorem checkLink_congr (agree : Disk.AgreeWithin root one other) (inside : link.target.IsInside root)
    (confined : check.IsConfined root) :
    checkLink other source check link = checkLink one source check link := by
  obtain ⟨rfl, codebase⟩ := confined
  have reported (noted : ImportCheck) (same : noted.codebase = check.codebase) :
      noted.reportTarget other source link = noted.reportTarget one source link := by
    unfold reportTarget
    rw [same, Codebase.exportsOf_congr agree codebase inside]
  unfold checkLink
  cases unusedAmong source.text link.span link.bindings with
  | error fault => rfl
  | ok unused => simp only [bind, Except.bind, reported]

theorem checkSource_congr (agree : Disk.AgreeWithin root one other)
    (confined : source.IsConfined root) (start : check.IsConfined root) :
    checkSource other check source = checkSource one check source := by
  refine foldlM_congr (fun link listed check =>
    checkLink_congr agree (confined.target link listed)) ?_ start
  intro link listed check holds
  obtain ⟨next, checked, records⟩ :=
    checkLink_records confined.sound listed (.refl one check.codebase)
  refine ⟨next, checked, records.confined holds fun path member => ?_⟩
  obtain ⟨link, idle, rfl⟩ := List.mem_map.mp member
  exact confined.target link (List.mem_singleton.mp (List.mem_filter.mp idle).1 ▸ listed)

end ImportCheck

open ImportCheck

theorem checkImports_congr {one other : Disk} {codebase : Codebase} {sources : List Source}
    (agree : Disk.AgreeWithin codebase.root one other) (confined : codebase.IsConfined)
    (each : ∀ source ∈ sources, source.IsConfined codebase.root) :
    checkImports other sources codebase = checkImports one sources codebase := by
  refine foldlM_congr (fun source member check =>
    checkSource_congr agree (each source member)) ?_ (IsConfined.mk rfl confined)
  intro source member check holds
  obtain ⟨next, checked, records⟩ :=
    checkSource_records (each source member).sound (.refl one check.codebase)
  exact ⟨next, checked, records.confined holds (each source member).idleTargets⟩

/-- The check of confined sources keeps the codebase confined, and its findings are inside. -/
theorem checkImports_confined {codebase : Codebase} {sources : List Source} (disk : Disk)
    (confined : codebase.IsConfined)
    (each : ∀ source ∈ sources, source.IsConfined codebase.root) :
    ∃ check, checkImports disk sources codebase = .ok check ∧ check.IsConfined codebase.root ∧
      (∀ finding ∈ check.bindings,
        finding.file.IsInside codebase.root ∧ finding.target.IsInside codebase.root) ∧
      ∀ finding ∈ check.targets,
        finding.file.IsInside codebase.root ∧ finding.target.IsInside codebase.root := by
  obtain ⟨check, checked, records⟩ :=
    checkImports_records disk codebase fun source member => (each source member).sound
  refine ⟨check, checked, records.confined ⟨rfl, confined⟩ ?_, ?_, ?_⟩
  · intro path member
    obtain ⟨source, listed, idle⟩ := List.mem_flatMap.mp member
    exact (each source listed).idleTargets path idle
  · rw [records.bindings]
    intro finding member
    obtain ⟨source, listed, unused⟩ := List.mem_flatMap.mp member
    exact (each source listed).unusedBindings finding unused
  · rw [records.targets]
    intro finding member
    have start : (([] : List UnusedTarget).map UnusedTarget.pair).Nodup := List.nodup_nil
    rcases (UnusedTarget.foldl_addNew_spec start _).2.1 finding member with none | member
    · cases none
    · obtain ⟨source, listed, idle⟩ := List.mem_flatMap.mp member
      exact (each source listed).idleImports _ finding idle

end ImportAudit
