import ImportAudit.Proofs.AuditConfinement
import ImportAudit.Proofs.Mentions
import ImportAudit.Proofs.Session

/-! Every run comes to its end. A source keeps its links together with the text they were read from,
so it can be judged whatever has become of its file since; a run in a known mode stops early only
where the root is no folder. -/
namespace ImportAudit

namespace Source

variable {root : Path} {extensions : List String} {source : Source}

/-- A source that was read from some bytes, on the disk as it was then. -/
def WasRead (root : Path) (extensions : List String) (source : Source) : Prop :=
  ∃ disk bytes, source = parse disk root extensions source.path bytes

theorem WasRead.links_eq (read : source.WasRead root extensions) :
    ∃ disk, source.links = linksOf disk root extensions source.path source.text := by
  obtain ⟨disk, bytes, same⟩ := read
  refine ⟨disk, ?_⟩
  rw [same]
  rfl

/-- The links of a source that was read lie within its text, and their bindings are of known kinds. -/
theorem WasRead.legible (read : source.WasRead root extensions) {link : Link}
    (listed : link ∈ source.links) :
    link.span.start < link.span.stop ∧ link.span.stop ≤ source.text.length ∧
      ∀ binding ∈ link.bindings, binding.kind.IsKnown := by
  obtain ⟨disk, bytes, same⟩ := read
  rw [same] at listed ⊢
  obtain ⟨form, found⟩ := exists_form listed
  have shapes := Script.Form.shapes_of_mem found
  have sound := parse_isSound disk root extensions source.path bytes
  exact ⟨shapes.start_lt, shapes.stop_le, (sound link listed).2⟩

theorem WasRead.isSound (read : source.WasRead root extensions) : source.IsSound := by
  intro link listed
  obtain ⟨-, inside, known⟩ := read.legible listed
  exact ⟨fun _ => inside, known⟩

end Source

namespace Codebase

variable {disk : Disk} {codebase before after : Codebase} {path : Path} {source : Source}

theorem onDisk?_wasRead (found : codebase.onDisk? disk path = some source) :
    source.WasRead codebase.root codebase.extensions := by
  obtain ⟨bytes, -, rfl⟩ := onDisk?_eq_some found
  exact ⟨disk, bytes, rfl⟩

/-- A codebase for the settings whose sources were all read. -/
structure IsGenuine (settings : Settings) (codebase : Codebase) : Prop where
  root_eq : codebase.root = settings.root
  extensions_eq : codebase.extensions = settings.extensions
  read : ∀ source ∈ codebase.sources, source.WasRead settings.root settings.extensions

namespace IsGenuine

variable {settings : Settings}

theorem onDisk? (genuine : codebase.IsGenuine settings)
    (found : codebase.onDisk? disk path = some source) :
    source.WasRead settings.root settings.extensions :=
  genuine.root_eq ▸ genuine.extensions_eq ▸ onDisk?_wasRead found

theorem loads {loads : List (Disk × Path)} {events : List Event}
    (genuine : before.IsGenuine settings) (loaded : Loads before loads after events) :
    after.IsGenuine settings := by
  obtain ⟨root, extensions⟩ := loaded.settings
  refine ⟨root.trans genuine.root_eq, extensions.trans genuine.extensions_eq, ?_⟩
  rw [loaded.codebase]
  exact forall_loadEach genuine.read fun _ _ _ => genuine.onDisk?

end IsGenuine

/-- All sources of a session were read. -/
theorem Session.run_wasRead (codebase : Codebase) (history : List Moment) :
    ∃ session, (Session.start codebase).run history = .ok session ∧
      ∀ source ∈ session.codebase.sources, source.WasRead codebase.root codebase.extensions := by
  obtain ⟨session, ran, came⟩ := Session.run_loads codebase history
  refine ⟨session, ran, ?_⟩
  rw [came.codebase]
  exact forall_loadEach (by simp [cleared]) fun _ _ _ => onDisk?_wasRead

end Codebase

theorem Survey.isFolder_of_events {rules : Rules} {disk : Disk} {root : Path} {events : List Event}
    (surveyed : Survey.events rules disk root = .ok events) : disk.isFolder root = true := by
  unfold Survey.events at surveyed
  cases content : disk.list root with
  | error fault =>
      rw [content] at surveyed
      cases surveyed
  | ok inside => exact Disk.isFolder_of_list content

namespace Audit

variable {disk : Disk} {settings : Settings} {audit : Audit}

/-- An audit whose sources were all read. -/
structure IsGenuine (settings : Settings) (audit : Audit) : Prop where
  settings_eq : audit.settings = settings
  codebase : audit.codebase.IsGenuine settings
  source : ∀ source ∈ audit.sources, source.WasRead settings.root settings.extensions

/-- How a run can end, and where it ends so. -/
inductive Ends (disk : Disk) (settings : Settings) : Option Mode → Except Fault Bool → Prop
  | unknown (modeName : String) : Ends disk settings none (.error (.unknownMode modeName))
  | noFolder (mode : Mode) (fault : Disk.Fault) (absent : disk.isFolder settings.root = false) :
      Ends disk settings (some mode) (.error (.disk fault))
  | verdict (mode : Mode) (clean : Bool) (folder : disk.isFolder settings.root = true) :
      Ends disk settings (some mode) (.ok clean)

namespace IsGenuine

theorem start (settings : Settings) : (start settings).IsGenuine settings where
  settings_eq := rfl
  codebase := ⟨rfl, rfl, by simp [Audit.start, Codebase.empty]⟩
  source := by simp [Audit.start]

theorem readFiles (genuine : audit.IsGenuine settings) (disk : Disk) (files : List Path) :
    (audit.readFiles disk files).1.IsGenuine settings where
  settings_eq := genuine.settings_eq
  codebase := genuine.codebase.loads (.loadAll disk files audit.codebase)
  source := Codebase.forall_loadAll genuine.codebase.read fun _ _ _ => genuine.codebase.onDisk?

theorem traced (genuine : audit.IsGenuine settings) (disk : Disk) :
    (audit.traced disk).1.IsGenuine settings := by
  unfold Audit.traced
  split
  · exact { genuine with
      codebase := genuine.codebase.loads (.reach disk audit.settings.entryPoints audit.codebase) }
  · exact genuine

/-- Sources that were read are judged to the end. -/
theorem judgeImports (genuine : audit.IsGenuine settings) (disk : Disk) :
    (audit.judgeImports disk).audit.IsGenuine settings ∧
      ∃ verdict, (audit.judgeImports disk).outcome = .ok verdict := by
  obtain ⟨check, checked, records⟩ := checkImports_records disk audit.codebase
    fun source listed => (genuine.source source listed).isSound
  obtain ⟨events, -, loaded⟩ := records.loads
  unfold Audit.judgeImports
  rw [checked]
  exact ⟨{ genuine with codebase := genuine.codebase.loads loaded }, _, rfl⟩

theorem analyze (genuine : audit.IsGenuine settings) (disk : Disk) :
    (audit.analyze disk).audit.IsGenuine settings ∧
      ∃ verdict, (audit.analyze disk).outcome = .ok verdict := by
  rw [analyze_eq]
  split
  · exact (genuine.traced disk).judgeImports disk
  · exact ⟨genuine.traced disk, _, rfl⟩

/-- A run leads from an audit of read sources to another one, and nothing but its mode and the survey
can stop it. -/
theorem run (genuine : audit.IsGenuine settings) (disk : Disk) (modeName : String) :
    (audit.run disk modeName).audit.IsGenuine settings ∧
      Ends disk settings (Mode.ofName? modeName) (audit.run disk modeName).outcome := by
  obtain rfl := genuine.settings_eq
  unfold Audit.run
  cases Mode.ofName? modeName with
  | none => exact ⟨genuine, .unknown modeName⟩
  | some mode =>
      have begun : { audit with mode }.IsGenuine audit.settings := { genuine with }
      unfold Audit.runWith
      dsimp only
      split
      · rename_i fault stopped
        refine ⟨begun, .noFolder mode fault (Bool.eq_false_iff.mpr fun folder => ?_)⟩
        obtain ⟨events, surveyed, -⟩ := Survey.events_of_isFolder { audit with mode }.surveyRules
          audit.settings.resolved.2 folder
        cases stopped.symm.trans surveyed
      · rename_i events surveyed
        obtain ⟨after, clean, outcome⟩ :=
          (begun.readFiles disk (Survey.files events)).analyze disk
        refine ⟨after, ?_⟩
        rw [outcome]
        exact .verdict mode clean (Survey.isFolder_of_events surveyed)

end IsGenuine

theorem Arises.isGenuine (arises : Arises settings audit) : audit.IsGenuine settings := by
  induction arises with
  | start => exact .start settings
  | run _ disk modeName ih => exact (ih.run disk modeName).1

/-- However the disk changes between the runs, every source that an audit holds was read as a whole:
its links lie within its text and its bindings are of known kinds. So no run fails over a script, and a
run in a known mode gives a verdict if and only if the root is a folder then. -/
theorem Arises.comes_to_end (settings : Settings) (audit : Audit) (arises : Arises settings audit) :
    (∀ source ∈ audit.codebase.sources ++ audit.sources,
      source.WasRead settings.root settings.extensions ∧
      ∀ link ∈ source.links, link.span.start < link.span.stop ∧
        link.span.stop ≤ source.text.length ∧
        ∀ binding ∈ link.bindings, binding.kind.IsKnown) ∧
    ∀ disk : Disk,
      (∀ modeName fault, (audit.run disk modeName).outcome ≠ .error (.script fault)) ∧
      ∀ mode : Mode, (∃ verdict, (audit.run disk mode.name).outcome = .ok verdict) ↔
        disk.isFolder settings.root = true := by
  have genuine := arises.isGenuine
  refine ⟨?_, fun disk => ⟨?_, fun mode => ?_⟩⟩
  · intro source member
    have read : source.WasRead settings.root settings.extensions := by
      rcases List.mem_append.mp member with stored | listed
      · exact genuine.codebase.read source stored
      · exact genuine.source source listed
    exact ⟨read, fun link => read.legible⟩
  · intro modeName fault failed
    have ends := (genuine.run disk modeName).2
    rw [failed] at ends
    generalize Mode.ofName? modeName = mode at ends
    cases ends
  · have ends := (genuine.run disk mode.name).2
    rw [Mode.ofName?_name] at ends
    cases outcome : (audit.run disk mode.name).outcome with
    | error fault =>
        rw [outcome] at ends
        cases ends with
        | noFolder _ _ absent => simp [absent]
    | ok clean =>
        rw [outcome] at ends
        cases ends with
        | verdict _ _ folder => simp [folder]

/-- A file that imports from itself a name it does not use. -/
def selfImport : Disk :=
  (default : Disk).put (.parse "/a.ts") (Text.Utf8.encode "import {y} from './a'".toList)

theorem top_isResolved : (Path.parse "/").IsResolved := ⟨rfl, by decide⟩

def selfImportSettings : Settings :=
  { root := .parse "/"
    resolved := top_isResolved
    entries := ["a.ts"]
    extensions := [".ts"]
    ignored := [] }

/-- Between two runs the file becomes empty: on disk nothing is left of the statement that the second
run judges. -/
theorem selfImport_comes_to_end :
    let audit := ((start selfImportSettings).run selfImport "all").audit
    let emptied := selfImport.put (.parse "/a.ts") []
    emptied.read (.parse "/a.ts") = .ok [] ∧
      audit.codebase.sources.flatMap (·.links.map Link.span) = [⟨0, 21⟩] ∧
      (∀ source ∈ audit.codebase.sources ++ audit.sources, ∀ link ∈ source.links,
        link.span.stop ≤ source.text.length) ∧
      ∃ verdict, (audit.run emptied "imports").outcome = .ok verdict := by
  intro audit emptied
  obtain ⟨read, ends⟩ :=
    Arises.comes_to_end selfImportSettings audit (.run .start selfImport "all")
  refine ⟨by decide +kernel, by decide +kernel, ?_, ?_⟩
  · intro source member link listed
    exact ((read source member).2 link listed).2.1
  · exact ((ends emptied).2 .imports).mpr (by decide +kernel)

end Audit
end ImportAudit
