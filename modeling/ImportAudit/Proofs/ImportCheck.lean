import ImportAudit.Finding.Imports
import ImportAudit.Proofs.Loading
import ImportAudit.Proofs.Usage

/-! What the check of imports does to its findings and its codebase, link by link. The findings are
read off the sources here, without the order in which the check loads its targets; so what was read
before makes no difference to them. -/
namespace ImportAudit

namespace Source

variable {source : Source} {link : Link}

/-- The spans of the links lie within the text, and their bindings are of known kinds. -/
def IsSound (source : Source) : Prop :=
  ∀ link ∈ source.links, Text.Fits source.text link.span ∧
    ∀ binding ∈ link.bindings, binding.kind.IsKnown

instance : DecidablePred Script.BindingKind.IsKnown
  | .unrecognized _ => inferInstanceAs (Decidable False)
  | .wholeModule | .defaultExport | .named | .requireCall | .importCall =>
      inferInstanceAs (Decidable True)

instance : DecidablePred IsSound := fun source =>
  inferInstanceAs (Decidable (∀ link ∈ source.links, _ ∧ ∀ binding ∈ link.bindings, _))

theorem parse_isSound (disk : Disk) (root : Path) (extensions : List String) (path : Path)
    (bytes : Text.Utf8.Bytes) : (parse disk root extensions path bytes).IsSound := by
  intro link listed
  obtain ⟨mention, member, linked⟩ := List.mem_filterMap.mp listed
  have sound := Script.mention_isSound member
  rw [(link?_eq_some linked).2.2]
  exact ⟨sound.fits, sound.known⟩

/-- Whether the text uses a binding of the link. -/
def uses (source : Source) (link : Link) (binding : Script.Binding) : Bool :=
  match Script.isBindingUsed source.text link.span binding with
  | .ok used => used
  | .error _ => false

theorem IsSound.isBindingUsed (sound : source.IsSound) (listed : link ∈ source.links)
    {binding : Script.Binding} (bound : binding ∈ link.bindings) :
    Script.isBindingUsed source.text link.span binding = .ok (source.uses link binding) := by
  obtain ⟨fits, known⟩ := sound link listed
  obtain ⟨used, verdict⟩ := Script.isBindingUsed_total fits (known binding bound)
  rw [uses, verdict]

/-- The link binds something, and the text uses nothing of it. -/
def IsIdle (source : Source) (link : Link) : Prop :=
  link.bindings ≠ [] ∧ ∀ binding ∈ link.bindings, source.uses link binding = false

instance : DecidablePred source.IsIdle := fun _ => inferInstanceAs (Decidable (_ ∧ _))

def unusedOf (source : Source) (link : Link) : List Script.Binding :=
  link.bindings.filter fun binding => !source.uses link binding

/-- The findings about the bindings of a source. -/
def unusedBindings (source : Source) : List UnusedBinding :=
  source.links.flatMap fun link => (source.unusedOf link).map fun binding =>
    ⟨source.path, link.target, binding, if binding.line = 0 then link.line else binding.line⟩

/-- The idle links of a source to targets that export something, each as a finding. -/
def idleImports (exports : Path → List String) (source : Source) : List UnusedTarget :=
  (source.links.filter fun link => source.IsIdle link ∧ exports link.target ≠ []).map fun link =>
    ⟨source.path, link.target, link.line⟩

/-- The targets of the idle links of a source. -/
def idleTargets (source : Source) : List Path :=
  (source.links.filter source.IsIdle).map Link.target

theorem isIdle_iff : source.IsIdle link ↔
    ¬ ((source.unusedOf link).isEmpty ∨ (source.unusedOf link).length < link.bindings.length) := by
  have all : (source.unusedOf link).length < link.bindings.length ↔
      ¬ ∀ binding ∈ link.bindings, source.uses link binding = false := by
    rw [unusedOf, List.length_filter_lt_length_iff_exists]
    simp
  rw [IsIdle, all, not_or, not_not]
  constructor
  · rintro ⟨binds, idle⟩
    refine ⟨?_, idle⟩
    rw [unusedOf, List.filter_eq_self.mpr (by simpa using idle)]
    simpa using binds
  · rintro ⟨some, idle⟩
    refine ⟨?_, idle⟩
    rintro empty
    simp [unusedOf, empty] at some

end Source

theorem Codebase.onDisk?_isSound {disk : Disk} {codebase : Codebase} {path : Path}
    {source : Source} (found : codebase.onDisk? disk path = some source) : source.IsSound := by
  obtain ⟨bytes, -, rfl⟩ := onDisk?_eq_some found
  exact Source.parse_isSound disk codebase.root codebase.extensions path bytes

theorem Codebase.forall_onDisk?_isSound {disk : Disk} {codebase : Codebase} {paths : List Path} :
    ∀ source ∈ paths.filterMap (codebase.onDisk? disk), source.IsSound := by
  intro source member
  obtain ⟨path, -, found⟩ := List.mem_filterMap.mp member
  exact onDisk?_isSound found

theorem Codebase.exportsOf_value (disk : Disk) (path : Path) (codebase : Codebase) :
    (codebase.exportsOf disk path).value =
      ((codebase.sourceAt? disk path).map Source.exports).getD [] := by
  simp only [exportsOf, load_value]

/-- Whether two findings are about the same file and the same target. -/
def UnusedTarget.samePair (finding other : UnusedTarget) : Bool :=
  finding.file = other.file ∧ finding.target = other.target

/-- The findings with one more, unless its pair has been reported. -/
def UnusedTarget.addNew (targets : List UnusedTarget) (finding : UnusedTarget) :
    List UnusedTarget :=
  if targets.any (·.samePair finding) then targets else targets ++ [finding]

namespace ImportCheck

variable {disk : Disk} {check next final : ImportCheck} {source : Source} {link : Link}
  {codebase : Codebase} {bindings more : List UnusedBinding} {targets others : List UnusedTarget}
  {paths later : List Path}

/-- From one check to another by some findings: the bindings are added, the targets unless their pair
has been reported, and nothing but some paths was loaded. -/
structure Records (disk : Disk) (check : ImportCheck) (bindings : List UnusedBinding)
    (targets : List UnusedTarget) (paths : List Path) (next : ImportCheck) : Prop where
  bindings : next.bindings = check.bindings ++ bindings
  targets : next.targets = targets.foldl UnusedTarget.addNew check.targets
  loads : ∃ events, next.events = check.events ++ events ∧
    Codebase.Loads check.codebase (paths.map (disk, ·)) next.codebase events

namespace Records

theorem refl (disk : Disk) (check : ImportCheck) : Records disk check [] [] [] check :=
  ⟨by simp, rfl, [], by simp, .refl check.codebase rfl⟩

theorem trans (first : Records disk check bindings targets paths next)
    (second : Records disk next more others later final) :
    Records disk check (bindings ++ more) (targets ++ others) (paths ++ later) final := by
  obtain ⟨events, noted, loaded⟩ := first.loads
  obtain ⟨further, notedMore, loadedMore⟩ := second.loads
  refine ⟨?_, ?_, events ++ further, ?_, ?_⟩
  · rw [second.bindings, first.bindings, List.append_assoc]
  · rw [second.targets, first.targets, List.foldl_append]
  · rw [notedMore, noted, List.append_assoc]
  · rw [List.map_append]
    exact loaded.trans loadedMore

theorem agrees (records : Records disk check bindings targets paths next) :
    Codebase.Agrees disk check.codebase next.codebase :=
  records.loads.elim fun _ loaded => loaded.2.agrees

/-- A loop whose steps each record what belongs to their item records what belongs to all. -/
theorem foldlM {α : Type} {step : ImportCheck → α → Except Script.Fault ImportCheck}
    {items : List α} {bindings : α → List UnusedBinding} {targets : α → List UnusedTarget}
    {paths : α → List Path}
    (each : ∀ item ∈ items, ∀ check : ImportCheck, Codebase.Agrees disk codebase check.codebase →
      ∃ next, step check item = .ok next ∧
        Records disk check (bindings item) (targets item) (paths item) next)
    (start : Codebase.Agrees disk codebase check.codebase) :
    ∃ final, items.foldlM step check = .ok final ∧
      Records disk check (items.flatMap bindings) (items.flatMap targets) (items.flatMap paths)
        final := by
  induction items generalizing check with
  | nil => exact ⟨check, rfl, .refl disk check⟩
  | cons item items ih =>
      obtain ⟨next, stepped, first⟩ := each item List.mem_cons_self check start
      obtain ⟨final, rest, others⟩ :=
        ih (fun item member => each item (List.mem_cons_of_mem _ member)) (start.trans first.agrees)
      refine ⟨final, ?_, first.trans others⟩
      rw [List.foldlM_cons, stepped]
      exact rest

end Records

theorem unusedAmong_eq (sound : source.IsSound) (listed : link ∈ source.links) :
    unusedAmong source.text link.span link.bindings = .ok (source.unusedOf link) := by
  have each : ∀ bindings ⊆ link.bindings, unusedAmong source.text link.span bindings =
      .ok (bindings.filter fun binding => !source.uses link binding) := by
    intro bindings within
    induction bindings with
    | nil => rfl
    | cons binding bindings ih =>
        obtain ⟨bound, within⟩ := List.cons_subset.mp within
        rw [unusedAmong, sound.isBindingUsed listed bound, ih within]
        cases used : source.uses link binding <;> simp [bind, Except.bind, pure, Except.pure, used]
  exact each link.bindings (List.Subset.refl _)

theorem reportTarget_records (check : ImportCheck) (source : Source) (link : Link) :
    Records disk check []
      (if (check.codebase.exportsOf disk link.target).value = [] then []
        else [⟨source.path, link.target, link.line⟩])
      [link.target] (check.reportTarget disk source link) := by
  have loaded := Codebase.Loads.load disk link.target check.codebase
  unfold reportTarget
  simp only [List.isEmpty_iff]
  split
  · refine ⟨by simp, rfl, _, List.append_assoc _ _ _, ?_⟩
    exact loaded.trans (.refl _ rfl)
  · split
    · rename_i reported
      refine ⟨by simp, ?_, _, rfl, loaded⟩
      simp only [List.foldl_cons, List.foldl_nil, UnusedTarget.addNew]
      rw [if_pos (by simpa [UnusedTarget.samePair] using reported)]
    · rename_i fresh
      refine ⟨by simp, ?_, _, rfl, loaded⟩
      simp only [List.foldl_cons, List.foldl_nil, UnusedTarget.addNew]
      rw [if_neg (by simpa [UnusedTarget.samePair] using fresh)]

/-- What one link adds: its unused bindings, and a finding about its target where it is idle and the
target exports something; only where it is idle is the target loaded. -/
theorem checkLink_records (sound : source.IsSound) (listed : link ∈ source.links)
    (agrees : Codebase.Agrees disk codebase check.codebase) :
    ∃ next, checkLink disk source check link = .ok next ∧
      Records disk check
        ((source.unusedOf link).map fun binding =>
          ⟨source.path, link.target, binding,
            if binding.line = 0 then link.line else binding.line⟩)
        (([link].filter fun link => source.IsIdle link ∧
          (codebase.exportsOf disk link.target).value ≠ []).map fun link =>
            ⟨source.path, link.target, link.line⟩)
        (([link].filter source.IsIdle).map Link.target) next := by
  have quiet : ((source.unusedOf link).map (bindingEvent source)).filter Event.isParsed = [] := by
    simp [List.filter_eq_nil_iff, bindingEvent, Event.isParsed]
  have noted : Records disk check
      ((source.unusedOf link).map fun binding =>
        ⟨source.path, link.target, binding, if binding.line = 0 then link.line else binding.line⟩)
      [] [] { check with
        bindings := check.bindings ++ (source.unusedOf link).map (bindingFinding source link)
        events := check.events ++ (source.unusedOf link).map (bindingEvent source) } :=
    ⟨rfl, rfl, _, rfl, .refl check.codebase quiet⟩
  have exports : (check.codebase.exportsOf disk link.target).value =
      (codebase.exportsOf disk link.target).value := by
    rw [Codebase.exportsOf_value, Codebase.exportsOf_value, agrees.sourceAt?]
  unfold checkLink
  rw [unusedAmong_eq sound listed]
  simp only [bind, Except.bind]
  by_cases idle : source.IsIdle link
  · rw [if_neg (Source.isIdle_iff.mp idle)]
    refine ⟨_, rfl, ?_⟩
    have reported := noted.trans (reportTarget_records _ source link)
    rw [exports] at reported
    by_cases none : (codebase.exportsOf disk link.target).value = []
    · simpa [idle, none] using reported
    · simpa [idle, none] using reported
  · rw [if_pos (not_not.mp (mt Source.isIdle_iff.mpr idle))]
    refine ⟨_, rfl, ?_⟩
    simpa [idle] using noted

theorem flatMap_filter_map {α β : Type} (keeps : α → Bool) (f : α → β) (items : List α) :
    (items.flatMap fun item => ([item].filter keeps).map f) = (items.filter keeps).map f := by
  induction items with
  | nil => rfl
  | cons item items ih =>
      rw [List.flatMap_cons, ih, ← List.map_append, ← List.filter_append, List.singleton_append]

theorem checkSource_records (sound : source.IsSound)
    (agrees : Codebase.Agrees disk codebase check.codebase) :
    ∃ next, checkSource disk check source = .ok next ∧
      Records disk check source.unusedBindings
        (source.idleImports fun path => (codebase.exportsOf disk path).value) source.idleTargets
        next := by
  have each := fun link (listed : link ∈ source.links) (check : ImportCheck)
    (agrees : Codebase.Agrees disk codebase check.codebase) =>
      checkLink_records sound listed agrees
  obtain ⟨next, checked, records⟩ := Records.foldlM each agrees
  rw [flatMap_filter_map, flatMap_filter_map] at records
  exact ⟨next, checked, records⟩

end ImportCheck

open ImportCheck

variable {disk : Disk} {codebase : Codebase} {sources : List Source}

theorem checkImports_records (disk : Disk) (codebase : Codebase)
    (sound : ∀ source ∈ sources, source.IsSound) :
    ∃ check, checkImports disk sources codebase = .ok check ∧
      Records disk ⟨[], [], codebase, []⟩ (sources.flatMap Source.unusedBindings)
        (sources.flatMap (Source.idleImports fun path => (codebase.exportsOf disk path).value))
        (sources.flatMap Source.idleTargets) check :=
  Records.foldlM
    (fun source member _ agrees => checkSource_records (sound source member) agrees)
    (.refl disk codebase)

/-- The check comes to its end with the same findings, whichever sources of the disk were read
before. -/
theorem checkImports_of_mirrors {root : Path} {extensions : List String} {other : Codebase}
    (sound : ∀ source ∈ sources, source.IsSound) (mirrors : codebase.Mirrors disk root extensions)
    (otherMirrors : other.Mirrors disk root extensions) :
    ∃ check again, checkImports disk sources codebase = .ok check ∧
      checkImports disk sources other = .ok again ∧ check.bindings = again.bindings ∧
      check.targets = again.targets ∧ check.codebase.Mirrors disk root extensions := by
  obtain ⟨check, checked, records⟩ := checkImports_records disk codebase sound
  obtain ⟨again, checkedAgain, recordsAgain⟩ := checkImports_records disk other sound
  obtain ⟨events, -, loaded⟩ := records.loads
  have exports : (fun path => (other.exportsOf disk path).value) =
      fun path => (codebase.exportsOf disk path).value := by
    funext path
    rw [Codebase.exportsOf_value, Codebase.exportsOf_value, mirrors.sourceAt?,
      otherMirrors.sourceAt?]
  refine ⟨check, again, checked, checkedAgain, ?_, ?_, loaded.mirrors mirrors⟩
  · rw [records.bindings, recordsAgain.bindings]
  · rw [records.targets, recordsAgain.targets, exports]

end ImportAudit
