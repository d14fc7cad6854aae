import ImportAudit.Proofs.ImportCheck
import Mathlib.Data.List.Nodup

/-! What the check of imports finds: every binding that its text does not use, in the order of the
text, and every pair of a file and a target for which some import of it uses nothing, at the first
such import. -/
namespace ImportAudit

namespace UnusedTarget

variable {findings targets : List UnusedTarget} {finding other : UnusedTarget}

@[simp] theorem samePair_iff : finding.samePair other = true ↔
    finding.file = other.file ∧ finding.target = other.target := by
  simp [samePair]

theorem samePair_comm (finding other : UnusedTarget) :
    finding.samePair other = other.samePair finding := by
  simp only [samePair, eq_comm]

/-- Findings added one by one are the first ones of their pairs. -/
theorem foldl_addNew (findings targets : List UnusedTarget) :
    findings.foldl addNew targets = targets ++
      (findings.filter fun finding => !targets.any (·.samePair finding)).eraseDupsBy samePair := by
  induction findings generalizing targets with
  | nil => simp
  | cons finding findings ih =>
      rw [List.foldl_cons, ih, addNew]
      cases reported : targets.any (·.samePair finding) with
      | true => simp [reported]
      | false =>
          have later : findings.filter (fun other =>
                !(targets ++ [finding]).any (·.samePair other)) =
              (findings.filter fun other => !targets.any (·.samePair other)).filter
                (fun other => decide (other.samePair finding = false)) := by
            rw [List.filter_filter]
            refine List.filter_congr fun other _ => ?_
            simp [samePair_comm other finding, Bool.and_comm]
          rw [List.filter_cons_of_pos (by simp [reported]), List.eraseDupsBy_cons, ← later]
          simp

theorem mem_of_mem_addNew (member : other ∈ addNew targets finding) :
    other ∈ targets ∨ other = finding := by
  unfold addNew at member
  split at member
  · exact Or.inl member
  · simpa using member

theorem any_addNew (targets : List UnusedTarget) (finding other : UnusedTarget) :
    (addNew targets finding).any (·.samePair other) =
      (targets.any (·.samePair other) || finding.samePair other) := by
  unfold addNew
  split
  · rename_i reported
    obtain ⟨known, member, same⟩ := List.any_eq_true.mp reported
    obtain ⟨file, target⟩ := samePair_iff.mp same
    -- A finding left out has the pair of one that was reported.
    cases again : finding.samePair other with
    | false => simp
    | true =>
        obtain ⟨otherFile, otherTarget⟩ := samePair_iff.mp again
        rw [Bool.or_true]
        refine List.any_eq_true.mpr ⟨known, member, samePair_iff.mpr ⟨?_, ?_⟩⟩
        · exact file.trans otherFile
        · exact target.trans otherTarget
  · simp

/-- What a finding is about: a file and the target that it imports. -/
def pair (finding : UnusedTarget) : Path × Path := (finding.file, finding.target)

theorem nodup_addNew (once : (targets.map pair).Nodup) (finding : UnusedTarget) :
    ((addNew targets finding).map pair).Nodup := by
  unfold addNew
  split
  · exact once
  · rename_i fresh
    rw [List.map_append]
    refine List.nodup_append.mpr ⟨once, by simp, ?_⟩
    rintro _ reported _ last rfl
    obtain ⟨known, member, same⟩ := List.mem_map.mp reported
    obtain ⟨file, target⟩ := Prod.mk.inj (same.trans (List.mem_singleton.mp last))
    exact fresh (List.any_eq_true.mpr ⟨known, member, samePair_iff.mpr ⟨file, target⟩⟩)

/-- The first findings of their pairs: none is invented, none is about a pair of another one, and
every pair is still there. -/
theorem foldl_addNew_spec (once : (targets.map pair).Nodup) (findings : List UnusedTarget) :
    ((findings.foldl addNew targets).map pair).Nodup ∧
      (∀ finding ∈ findings.foldl addNew targets, finding ∈ targets ∨ finding ∈ findings) ∧
      ∀ other, (findings.foldl addNew targets).any (·.samePair other) =
        (targets.any (·.samePair other) || findings.any (·.samePair other)) := by
  induction findings generalizing targets with
  | nil => exact ⟨once, fun _ => Or.inl, by simp⟩
  | cons finding findings ih =>
      obtain ⟨distinct, members, covered⟩ := ih (nodup_addNew once finding)
      refine ⟨distinct, ?_, ?_⟩
      · intro other member
        rcases members other member with known | later
        · rcases mem_of_mem_addNew known with known | rfl
          · exact Or.inl known
          · exact Or.inr List.mem_cons_self
        · exact Or.inr (List.mem_cons_of_mem _ later)
      · intro other
        rw [List.foldl_cons, covered, any_addNew, List.any_cons, Bool.or_assoc]

/-- Findings of different files do not get in each other's way. -/
theorem foldl_addNew_apart {others : List UnusedTarget}
    (apart : ∀ finding ∈ findings, ∀ other ∈ others, finding.file ≠ other.file) :
    (findings ++ others).foldl addNew [] = findings.foldl addNew [] ++ others.foldl addNew [] := by
  have start : (([] : List UnusedTarget).map pair).Nodup := List.nodup_nil
  have fresh : ∀ other ∈ others, (findings.foldl addNew []).any (·.samePair other) = false := by
    intro other member
    rw [(foldl_addNew_spec start findings).2.2 other]
    simp only [List.any_nil, Bool.false_or, List.any_eq_false, samePair_iff]
    intro finding listed same
    exact apart finding listed other member same.1
  rw [List.foldl_append, foldl_addNew others, foldl_addNew others,
    List.filter_eq_self.mpr (by simpa using fresh)]
  simp

end UnusedTarget

open ImportCheck

variable {disk : Disk} {codebase : Codebase} {sources : List Source}

/-- Some idle link to the target, which exports something, stands behind a finding, and every such
link leads to one. -/
theorem mem_idleImports_iff {exports : Path → List String} {file target : Path} :
    (∃ finding ∈ sources.flatMap (Source.idleImports exports),
        finding.file = file ∧ finding.target = target) ↔
      ∃ source ∈ sources, source.path = file ∧
        ∃ link ∈ source.links, link.target = target ∧ source.IsIdle link ∧ exports target ≠ [] := by
  simp only [List.mem_flatMap, Source.idleImports, List.mem_map, List.mem_filter,
    decide_eq_true_eq]
  constructor
  · rintro ⟨_, ⟨source, member, link, ⟨listed, idle, exported⟩, rfl⟩, rfl, rfl⟩
    exact ⟨source, member, rfl, link, listed, rfl, idle, exported⟩
  · rintro ⟨source, member, rfl, link, listed, rfl, idle, exported⟩
    exact ⟨_, ⟨source, member, link, ⟨listed, idle, exported⟩, rfl⟩, rfl, rfl⟩

/-- The pairs that are reported, and each of them once. -/
theorem ImportCheck.Records.pairs {check : ImportCheck} {bindings : List UnusedBinding}
    {targets : List UnusedTarget} {paths : List Path}
    (records : Records disk ⟨[], [], codebase, []⟩ bindings targets paths check) :
    (check.targets.map UnusedTarget.pair).Nodup ∧ ∀ file target,
      (∃ finding ∈ check.targets, finding.file = file ∧ finding.target = target) ↔
        ∃ finding ∈ targets, finding.file = file ∧ finding.target = target := by
  have start : (([] : List UnusedTarget).map UnusedTarget.pair).Nodup := List.nodup_nil
  obtain ⟨once, -, covered⟩ := UnusedTarget.foldl_addNew_spec start targets
  rw [← records.targets] at once covered
  refine ⟨once, fun file target => ?_⟩
  have same := covered ⟨file, target, 0⟩
  simp only [List.any_nil, Bool.false_or] at same
  simpa [List.any_eq_true] using Bool.eq_iff_iff.mp same

/-- Every binding is judged. The check finds every unused one in the order of the text, and every pair
of a file and a target that some link of it imports in vain, at the first such link. Idle links have
all their bindings found, and sources of different paths are checked apart. -/
theorem checkImports_finds (disk : Disk) (sources : List Source) (codebase : Codebase)
    (sound : ∀ source ∈ sources, source.IsSound) :
    (∀ source ∈ sources, ∀ link ∈ source.links, ∀ binding ∈ link.bindings,
      Script.isBindingUsed source.text link.span binding = .ok (source.uses link binding)) ∧
    ∃ check, checkImports disk sources codebase = .ok check ∧
      check.bindings = sources.flatMap Source.unusedBindings ∧
      check.targets =
        (sources.flatMap (Source.idleImports fun path =>
          (codebase.exportsOf disk path).value)).eraseDupsBy UnusedTarget.samePair ∧
      (check.targets.map UnusedTarget.pair).Nodup ∧
      (∀ file target,
        (∃ finding ∈ check.targets, finding.file = file ∧ finding.target = target) ↔
          ∃ source ∈ sources, source.path = file ∧ ∃ link ∈ source.links, link.target = target ∧
            source.IsIdle link ∧ (codebase.exportsOf disk target).value ≠ []) ∧
      (∀ source ∈ sources, ∀ link ∈ source.links, source.IsIdle link →
        ∀ binding ∈ link.bindings,
          ⟨source.path, link.target, binding,
            if binding.line = 0 then link.line else binding.line⟩ ∈ check.bindings) ∧
      ∀ first second, sources = first ++ second →
        (∀ source ∈ first, ∀ other ∈ second, source.path ≠ other.path) →
        ∃ one two, checkImports disk first codebase = .ok one ∧
          checkImports disk second codebase = .ok two ∧
          check.bindings = one.bindings ++ two.bindings ∧
          check.targets = one.targets ++ two.targets := by
  obtain ⟨check, checked, records⟩ := checkImports_records disk codebase sound
  obtain ⟨once, pairs⟩ := records.pairs
  have bindings : check.bindings = sources.flatMap Source.unusedBindings := records.bindings
  refine ⟨fun source member link listed binding bound =>
    (sound source member).isBindingUsed listed bound, check, checked, bindings, ?_, once, ?_, ?_, ?_⟩
  · rw [records.targets, UnusedTarget.foldl_addNew]
    simp
  · intro file target
    rw [pairs, mem_idleImports_iff]
  · intro source member link listed idle binding bound
    rw [bindings]
    refine List.mem_flatMap.mpr ⟨source, member, List.mem_flatMap.mpr ⟨link, listed, ?_⟩⟩
    refine List.mem_map.mpr ⟨binding, List.mem_filter.mpr ⟨bound, ?_⟩, rfl⟩
    simp [idle.2 binding bound]
  · rintro first second rfl apart
    obtain ⟨one, checkedOne, recordsOne⟩ := checkImports_records disk codebase
      fun source member => sound source (List.mem_append_left _ member)
    obtain ⟨two, checkedTwo, recordsTwo⟩ := checkImports_records disk codebase
      fun source member => sound source (List.mem_append_right _ member)
    refine ⟨one, two, checkedOne, checkedTwo, ?_, ?_⟩
    · rw [bindings, recordsOne.bindings, recordsTwo.bindings]
      exact List.flatMap_append
    · rw [records.targets, recordsOne.targets, recordsTwo.targets, List.flatMap_append]
      apply UnusedTarget.foldl_addNew_apart
      intro finding member other memberOther
      obtain ⟨source, listed, found⟩ := List.mem_flatMap.mp member
      obtain ⟨link, -, rfl⟩ := List.mem_map.mp found
      obtain ⟨otherSource, otherListed, otherFound⟩ := List.mem_flatMap.mp memberOther
      obtain ⟨otherLink, -, rfl⟩ := List.mem_map.mp otherFound
      exact apart source listed otherSource otherListed

/-- A file that exports a name, and one that exports nothing. -/
def exporting : Disk :=
  ((default : Disk).put (.parse "/lib.ts") (Text.Utf8.encode "export const a = 1".toList)).put
    (.parse "/bare.ts") (Text.Utf8.encode "".toList)

def importing (target : String) (line : Int) (names : List String) : Link :=
  ⟨.parse target, target, names.map fun name => ⟨.named, name, name, 0⟩, line, ⟨0, 1⟩⟩

/-- Imports used in part, used not at all, once more not at all, for effect, and of a file that
exports nothing. -/
def mixedImports : Source :=
  ⟨.parse "/m.ts", ";a()".toList, [],
    [importing "/lib.ts" 1 ["a", "b"], importing "/lib.ts" 2 ["c"], importing "/lib.ts" 3 ["d"],
      importing "/lib.ts" 4 [], importing "/bare.ts" 5 ["e"]]⟩

theorem mixedImports_finds :
    mixedImports.IsSound ∧
    ∃ check, checkImports exporting [mixedImports] (.empty (.parse "/") [".ts"]) = .ok check ∧
      check.bindings.map (fun finding => (finding.binding.localName, finding.line)) =
        [("b", 1), ("c", 2), ("d", 3), ("e", 5)] ∧
      check.targets = [⟨.parse "/m.ts", .parse "/lib.ts", 2⟩] := by
  have sound : ∀ source ∈ [mixedImports], source.IsSound := by decide +kernel
  obtain ⟨-, check, checked, bindings, targets, -⟩ :=
    checkImports_finds exporting [mixedImports] (.empty (.parse "/") [".ts"]) sound
  refine ⟨sound _ List.mem_cons_self, check, checked, ?_, ?_⟩
  · rw [bindings]
    decide +kernel
  · rw [targets]
    decide +kernel

/-- When a reported target is unused in its file: always, unless the file imports it by one link of
which it uses nothing and by another of which it uses something. -/
theorem checkImports_reports_unused_iff (disk : Disk) (sources : List Source) (codebase : Codebase)
    (sound : ∀ source ∈ sources, source.IsSound) (distinct : (sources.map Source.path).Nodup) :
    ∃ check, checkImports disk sources codebase = .ok check ∧
      ∀ source ∈ sources, ∀ target,
        ((∃ finding ∈ check.targets, finding.file = source.path ∧ finding.target = target) →
          ∀ link ∈ source.links, link.target = target → ∀ binding ∈ link.bindings,
            Script.isBindingUsed source.text link.span binding = .ok false) ↔
        ¬ ((codebase.exportsOf disk target).value ≠ [] ∧
          (∃ link ∈ source.links, link.target = target ∧ source.IsIdle link) ∧
          ∃ link ∈ source.links, link.target = target ∧ ∃ binding ∈ link.bindings,
            Script.isBindingUsed source.text link.span binding = .ok true) := by
  obtain ⟨check, checked, records⟩ := checkImports_records disk codebase sound
  refine ⟨check, checked, fun source member target => ?_⟩
  have reported : (∃ finding ∈ check.targets,
        finding.file = source.path ∧ finding.target = target) ↔
      (codebase.exportsOf disk target).value ≠ [] ∧
        ∃ link ∈ source.links, link.target = target ∧ source.IsIdle link := by
    rw [records.pairs.2, mem_idleImports_iff]
    constructor
    · rintro ⟨other, listed, named, link, linked, leads, idle, exported⟩
      -- No other source has this path.
      obtain rfl : other = source := List.inj_on_of_nodup_map distinct listed member named
      exact ⟨exported, link, linked, leads, idle⟩
    · rintro ⟨exported, link, linked, leads, idle⟩
      exact ⟨source, member, rfl, link, linked, leads, idle, exported⟩
  constructor
  · rintro unused ⟨exported, idle, link, linked, leads, binding, bound, used⟩
    have verdict := unused (reported.mpr ⟨exported, idle⟩) link linked leads binding bound
    simp [verdict] at used
  · intro consistent found link linked leads binding bound
    obtain ⟨exported, idle⟩ := reported.mp found
    have verdict := (sound source member).isBindingUsed linked bound
    cases used : source.uses link binding with
    | false => rw [verdict, used]
    | true =>
        refine absurd ⟨exported, idle, link, linked, leads, binding, bound, ?_⟩ consistent
        rw [verdict, used]

/-- Two imports of one file, with no use of either. -/
def vainImports : Source :=
  ⟨.parse "/m.ts", ";".toList, [], [importing "/lib.ts" 1 ["a"], importing "/lib.ts" 2 ["b"]]⟩

theorem vainImports_reports_unused :
    vainImports.IsSound ∧
    ∃ check, checkImports exporting [vainImports] (.empty (.parse "/") [".ts"]) = .ok check ∧
      ((∃ finding ∈ check.targets,
          finding.file = vainImports.path ∧ finding.target = .parse "/lib.ts") →
        ∀ link ∈ vainImports.links, link.target = .parse "/lib.ts" → ∀ binding ∈ link.bindings,
          Script.isBindingUsed vainImports.text link.span binding = .ok false) := by
  have sound : ∀ source ∈ [vainImports], source.IsSound := by decide +kernel
  obtain ⟨check, checked, unused⟩ := checkImports_reports_unused_iff exporting [vainImports]
    (.empty (.parse "/") [".ts"]) sound (List.nodup_singleton _)
  refine ⟨sound _ List.mem_cons_self, check, checked, ?_⟩
  refine (unused vainImports List.mem_cons_self (.parse "/lib.ts")).mpr ?_
  rintro ⟨-, -, used⟩
  revert used
  decide +kernel

/-- A file that imports another one twice, and uses what it imports first. -/
def partlyUsed : Disk :=
  ((default : Disk).put (.parse "/b.ts") (Text.Utf8.encode "export const a = 1".toList)).put
    (.parse "/a.ts") (Text.Utf8.encode "import {a} from './b'\nimport {c} from './b'\na()".toList)

/-- The file as it is read. -/
def partlyUsedSource : Source :=
  ⟨.parse "/a.ts", "import {a} from './b'\nimport {c} from './b'\na()".toList, [],
    [⟨.parse "/b.ts", "./b", [⟨.named, "a", "a", 1⟩], 1, ⟨0, 21⟩⟩,
      ⟨.parse "/b.ts", "./b", [⟨.named, "c", "c", 2⟩], 2, ⟨22, 43⟩⟩]⟩

theorem partlyUsed_loaded :
    ((Codebase.empty (.parse "/") [".ts"]).loadAll partlyUsed [.parse "/a.ts"]).value =
      [partlyUsedSource] := by
  have there : partlyUsed.node (.parse "/a.ts") =
      .ok (.file (Text.Utf8.encode partlyUsedSource.text)) := by decide +kernel
  have text : Source.textOf (Text.Utf8.encode partlyUsedSource.text) = partlyUsedSource.text := by
    decide +kernel
  have sorted : Script.mentions partlyUsedSource.text =
      Script.mentionsByForm partlyUsedSource.text :=
    List.mergeSort_of_pairwise (by decide +kernel)
  have links : Source.linksOf partlyUsed (.parse "/") [".ts"] (.parse "/a.ts")
      partlyUsedSource.text = partlyUsedSource.links := by
    rw [Source.linksOf, sorted]
    decide +kernel
  have exports : Script.exports partlyUsedSource.text = [] := by decide +kernel
  rw [Codebase.loadAll_value, List.filterMap_cons, Codebase.sourceAt?, Codebase.onDisk?, there]
  simp only [Source.parse, text, Codebase.empty, links, exports]
  rfl

/-- A target is reported although its file uses what it imports from it by another link. -/
theorem partlyUsed_reported :
    ∃ loaded check,
      loaded = (Codebase.empty (.parse "/") [".ts"]).loadAll partlyUsed [.parse "/a.ts"] ∧
      checkImports partlyUsed loaded.value loaded.codebase = .ok check ∧
      ∃ source ∈ loaded.value,
        (∃ finding ∈ check.targets,
          finding.file = source.path ∧ finding.target = .parse "/b.ts") ∧
        ∃ link ∈ source.links, link.target = .parse "/b.ts" ∧ ∃ binding ∈ link.bindings,
          Script.isBindingUsed source.text link.span binding = .ok true := by
  let loaded := (Codebase.empty (.parse "/") [".ts"]).loadAll partlyUsed [.parse "/a.ts"]
  have exported : (loaded.codebase.exportsOf partlyUsed (.parse "/b.ts")).value ≠ [] := by
    decide +kernel
  have sound : ∀ source ∈ [partlyUsedSource], source.IsSound := by decide +kernel
  have idle : ∃ link ∈ partlyUsedSource.links, link.target = .parse "/b.ts" ∧
      partlyUsedSource.IsIdle link := by decide +kernel
  have used : ∃ link ∈ partlyUsedSource.links, link.target = .parse "/b.ts" ∧
      ∃ binding ∈ link.bindings,
        Script.isBindingUsed partlyUsedSource.text link.span binding = .ok true := by
    decide +kernel
  obtain ⟨check, checked, records⟩ := checkImports_records partlyUsed loaded.codebase sound
  refine ⟨loaded, check, rfl, ?_, partlyUsedSource, ?_, ?_, used⟩
  · rw [partlyUsed_loaded]
    exact checked
  · rw [partlyUsed_loaded]
    exact List.mem_cons_self
  · rw [records.pairs.2, mem_idleImports_iff]
    obtain ⟨link, linked, leads, idle⟩ := idle
    exact ⟨_, List.mem_cons_self, rfl, link, linked, leads, idle, exported⟩

end ImportAudit
