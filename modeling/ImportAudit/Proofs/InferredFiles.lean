import ImportAudit.Proofs.Resolution
import ImportAudit.Proofs.SettingsDocument
import ImportAudit.Proofs.SurveyOrder

/-! Files that a specifier stands for by an extension it does not write, and whether a survey lists them.
The search adds the whole extension to a name, and the survey reads the name from its last dot on: they
agree on an extension with one dot, and otherwise as far as its last part is an extension too. -/
namespace ImportAudit

namespace Path

variable {path : Path} {stem stem' text front letters : Text}

/-- What the last dot of a name divides. -/
theorem suffixOf_last_dot (last : '.' ∉ letters) : suffixOf (front ++ '.' :: letters) =
    if front ≠ [] ∧ letters ≠ [] then '.' :: letters else [] := by
  have passed : ((front ++ '.' :: letters).reverse.takeWhile (· != '.')) = letters.reverse := by
    rw [List.reverse_append, List.reverse_cons, List.append_assoc, List.singleton_append,
      List.takeWhile_append_of_pos (by simpa using fun c member => ne_of_mem_of_not_mem member last)]
    simp
  have before : letters.length + 1 < (front ++ '.' :: letters).length ↔ front ≠ [] := by
    rw [← List.length_pos_iff]
    simp only [List.length_append, List.length_cons]
    omega
  simp only [suffixOf, passed, List.length_reverse, before, List.reverse_eq_nil_iff, ne_eq,
    List.reverse_reverse]

theorem exists_last_dot (dot : '.' ∈ text) :
    ∃ front letters, text = front ++ '.' :: letters ∧ '.' ∉ letters := by
  obtain ⟨back, rest, split, first⟩ := List.eq_append_cons_of_mem (List.mem_reverse.mpr dot)
  refine ⟨rest.reverse, back.reverse, ?_, by simpa using first⟩
  simpa using congrArg List.reverse split

/-- What stands before a text with a dot is no part of the suffix. -/
theorem suffixOf_append (some : stem ≠ []) (some' : stem' ≠ []) (dot : '.' ∈ text) :
    suffixOf (stem ++ text) = suffixOf (stem' ++ text) := by
  obtain ⟨front, letters, rfl, last⟩ := exists_last_dot dot
  rw [← List.append_assoc, ← List.append_assoc, suffixOf_last_dot last, suffixOf_last_dot last]
  simp [some, some']

theorem head_split_dotted (dot : text.head? = some '.') : '.' ∈ (text.split '/').headD [] := by
  cases text with
  | nil => cases dot
  | cons c rest =>
      obtain rfl : c = '.' := Option.some.inj dot
      rw [Text.split, if_neg (by decide)]
      split <;> simp

/-- A stem takes the first piece of a text with a leading dot to itself. -/
theorem partsOf_append_dotted (given : stem ≠ []) (plain : '/' ∉ stem) (dot : text.head? = some '.') :
    partsOf (stem ++ text) = String.ofList (stem ++ (text.split '/').headD []) ::
      partsAmong (text.split '/').tail := by
  have first := head_split_dotted dot
  have kept : stem ++ (text.split '/').headD [] ≠ [] ∧ stem ++ (text.split '/').headD [] ≠ ['.'] := by
    have some := List.length_pos_iff.mpr given
    have some' := List.length_pos_of_mem first
    constructor <;> intro same <;> have length := congrArg List.length same <;>
      simp only [List.length_append, List.length_cons, List.length_nil] at length <;> omega
  rw [partsOf_eq, Text.split_append_of_not_mem plain, partsAmong, List.filter_cons,
    if_pos (decide_eq_true kept), List.map_cons]
  rfl

theorem name_append_dotted {folders : List String} (parts : path.parts = folders ++ partsOf (stem ++ text))
    (given : stem ≠ []) (plain : '/' ∉ stem) (dot : text.head? = some '.') :
    path.name = (partsAmong (text.split '/').tail).getLast?.getD
      (.ofList (stem ++ (text.split '/').headD [])) := by
  rw [name, parts, partsOf_append_dotted given plain dot, List.getLast?_append, List.getLast?_cons]
  rfl

end Path

theorem isSourceFile_iff {extensions : List String} {path : Path} :
    isSourceFile extensions path = true ↔
      path.suffix ∈ extensions ∧ ¬ ".d.ts".toList <:+ path.name.toList := by
  rw [isSourceFile, Bool.and_eq_true, List.contains_iff_mem, Bool.not_eq_true', Bool.eq_false_iff, ne_eq,
    List.isSuffixOf_iff_suffix]
  rfl

namespace Survey

variable {rules : Rules} {disk : Disk} {root : Path} {events : List Event}

/-- A file below a surveyed folder is listed if it is a source file and the survey gets there. -/
theorem mem_files_iff_isSourceFile (surveyed : Survey.events rules disk root = .ok events)
    {way : List Name} (file : disk.isFile (root.descend way) = true) (enters : Enters rules way) :
    root.descend way ∈ files events ↔
      isSourceFile rules.extensions (root.descend way) = true := by
  cases listed : disk.list root with
  | error fault => simp [Survey.events, listed, bind, Except.bind] at surveyed
  | ok inside =>
      obtain rfl : inNameOrder (byName rules root inside) = events := by
        simpa [Survey.events, listed, bind, Except.bind, pure, Except.pure] using surveyed
      obtain ⟨here, found⟩ := Disk.node_of_isFolder (Disk.isFolder_of_list listed)
      obtain rfl : here = inside := Except.ok.inj ((Disk.list_of_node found).symm.trans listed)
      obtain ⟨uppers, onward⟩ := Disk.exists_above found
      rw [mem_files, scanned_iff (Disk.distinct_of_node found) uppers]
      constructor
      · rintro ⟨-, -, -, -, source, -⟩
        exact source
      · intro source
        obtain ⟨bytes, below⟩ := Disk.node_of_isFile file
        rw [Disk.node, Path.descend_parts, onward] at below
        exact ⟨way, bytes, below, rfl, source, enters⟩

end Survey

namespace Resolution

variable {disk : Disk} {extensions : List String} {importer target path : Path}
  {specifier extension : String}

/-- The suffix of an index file with an extension. -/
def ending (extension : String) : String := (Path.parse ("index" ++ extension)).suffix

theorem parse_index_parts (extension : String) : (Path.parse ("index" ++ extension)).parts =
    Path.partsOf ("index".toList ++ extension.toList) :=
  congrArg Path.partsOf String.toList_append

section Dotted

variable (dot : extension.toList.head? = some '.')
include dot

/-- Every name with the extension has the suffix of the index file. -/
theorem suffix_eq_ending {folders : List String} {stem : Text}
    (parts : path.parts = folders ++ Path.partsOf (stem ++ extension.toList))
    (given : stem ≠ []) (plain : '/' ∉ stem) : path.suffix = ending extension := by
  have index : (Path.parse ("index" ++ extension)).parts =
      [] ++ Path.partsOf ("index".toList ++ extension.toList) := parse_index_parts extension
  have word : "index".toList ≠ [] := by decide
  rw [ending, Path.suffix, Path.suffix, Path.name_append_dotted parts given plain dot,
    Path.name_append_dotted index word (by decide) dot]
  -- the stem shows in the name only if the extension has no components after its first piece
  cases (Path.partsAmong (Text.split '/' extension.toList).tail).getLast? with
  | some name => rfl
  | none =>
      simp only [Option.getD_none, String.toList_ofList]
      rw [Path.suffixOf_append given word (Path.head_split_dotted dot)]

theorem suffix_indexFile (folder : Path) : (indexFile folder extension).suffix = ending extension := by
  have parts : (indexFile folder extension).parts =
      folder.parts ++ Path.partsOf ("index".toList ++ extension.toList) := by
    rw [indexFile_parts, parse_index_parts]
  exact suffix_eq_ending dot parts (by decide) (by decide)

/-- The paths that are nothing but the top of the disk. -/
def IsTop (path : Path) : Prop := path.anchor ≠ .relative ∧ path.parts = []

theorem suffix_withExtension (below : ¬ IsTop path) :
    (withExtension path extension).suffix = ending extension := by
  rcases List.eq_nil_or_concat path.parts with bare | ⟨folders, last, parts⟩
  · have relative : path.anchor = .relative := by
      by_contra absolute
      exact below ⟨absolute, bare⟩
    -- a relative path without components is written as a dot, which is then the stem
    have written : (withExtension path extension).parts =
        [] ++ Path.partsOf (['.'] ++ extension.toList) := by
      simp [withExtension, Path.render, relative, bare, Path.parse, String.toList_append]
    exact suffix_eq_ending dot written (by decide) (by decide)
  · rw [List.concat_eq_append] at parts
    have component : IsComponent last := path.proper last (by simp [parts])
    have proper : ∀ part ∈ folders, IsComponent part := fun part member =>
      path.proper part (by simp [parts, member])
    have written : (withExtension path extension).parts =
        folders ++ Path.partsOf (last.toList ++ extension.toList) := by
      rw [withExtension_parts (by simp [parts]), parts, Path.partsOf_joined proper]
    exact suffix_eq_ending dot written (by simpa using component.1) component.2.2

end Dotted

/-- A dot, and something without dots and slashes after it. -/
def IsPlain (extension : String) : Prop :=
  ∃ letters : Text, extension.toList = '.' :: letters ∧ letters ≠ [] ∧ '.' ∉ letters ∧ '/' ∉ letters

theorem IsPlain.component (plain : IsPlain extension) (stem : String) (slashless : '/' ∉ stem.toList) :
    IsComponent (stem ++ extension) := by
  obtain ⟨letters, written, given, -, slashless'⟩ := plain
  have text : (stem ++ extension).toList = stem.toList ++ '.' :: letters := by
    rw [String.toList_append, written]
  have long : 1 < (stem ++ extension).toList.length := by
    have more := List.length_pos_iff.mpr given
    rw [text, List.length_append, List.length_cons]
    omega
  refine ⟨?_, ?_, by simpa [text] using ⟨slashless, slashless'⟩⟩
  · intro empty
    rw [empty] at long
    cases long
  · intro dot
    rw [dot] at long
    exact absurd long (by decide)

theorem ending_of_isPlain (plain : IsPlain extension) : ending extension = extension := by
  have one : (Path.parse ("index" ++ extension)).parts = ["index" ++ extension] :=
    Path.partsOf_component (plain.component "index" (by decide))
  obtain ⟨letters, written, given, last, -⟩ := plain
  rw [ending, Path.suffix, Path.name, one, List.getLast?_singleton, Option.getD_some,
    String.toList_append, written, Path.suffixOf_last_dot last, if_pos ⟨by decide, given⟩, ← written,
    String.ofList_toList]

/-- At the top an extension is the whole name, and no suffix of it. -/
theorem suffix_withExtension_top (top : IsTop path) (plain : IsPlain extension) :
    (withExtension path extension).suffix = "" := by
  have component := plain.component "" List.not_mem_nil
  rw [String.empty_append] at component
  have one : (withExtension path extension).parts = [extension] :=
    (withExtension_parts_top top.1 top.2 extension).trans (Path.partsOf_component component)
  obtain ⟨letters, written, -, last, -⟩ := plain
  rw [Path.suffix, Path.name, one, List.getLast?_singleton, Option.getD_some, written,
    ← List.nil_append ('.' :: letters), Path.suffixOf_last_dot last, if_neg (by simp)]

/-- A specifier stands for a file by an extension that it does not write. -/
structure Infers (disk : Disk) (extensions : List String) (importer : Path) (specifier extension : String)
    (target : Path) : Prop where
  found : resolve? disk extensions importer specifier = some target
  listed : extension ∈ extensions
  added : target = withExtension (base importer specifier) extension ∨
    target = indexFile (base importer specifier) extension

/-- The target is the extension alone, at the top of the disk. -/
def IsBareExtension (importer : Path) (specifier extension : String) (target : Path) : Prop :=
  IsTop (base importer specifier) ∧ target = withExtension (base importer specifier) extension

theorem Infers.suffix (infers : Infers disk extensions importer specifier extension target)
    (dot : extension.toList.head? = some '.')
    (longer : ¬ IsBareExtension importer specifier extension target) : target.suffix = ending extension := by
  rcases infers.added with rfl | rfl
  · exact suffix_withExtension dot fun top => longer ⟨top, rfl⟩
  · exact suffix_indexFile dot _

/-- Whether an inferred file is a source file for the extensions of loaded settings, and so whether a survey
that gets there lists it. The suffix of an index file with the extension decides, and where the extension is
a dot with no dot or slash after it, that is the extension. -/
theorem inferred_isSourceFile_iff {config : Disk} {working file : Path} {settings : Settings}
    (loaded : Settings.load config working file = .ok settings)
    (infers : Infers disk settings.extensions importer specifier extension target) :
    (¬ IsBareExtension importer specifier extension target →
      (isSourceFile settings.extensions target = true ↔
        ending extension ∈ settings.extensions ∧ ¬ ".d.ts".toList <:+ target.name.toList)) ∧
    (IsPlain extension →
      (isSourceFile settings.extensions target = true ↔
        ¬ IsBareExtension importer specifier extension target ∧ ¬ ".d.ts".toList <:+ target.name.toList)) ∧
    ∀ ignored root events way,
      Survey.events ⟨settings.extensions, ignored⟩ disk root = .ok events →
      target = root.descend way → Survey.Enters ⟨settings.extensions, ignored⟩ way →
      (target ∈ Survey.files events ↔ isSourceFile settings.extensions target = true) := by
  have dot := Settings.load_dotted loaded infers.listed
  refine ⟨fun longer => ?_, fun plain => ?_, ?_⟩
  · rw [isSourceFile_iff, infers.suffix dot longer]
  · rw [isSourceFile_iff]
    refine and_congr_left fun _ => ?_
    by_cases bare : IsBareExtension importer specifier extension target
    · refine iff_of_false (fun listed => ?_) (not_not_intro bare)
      rw [bare.2, suffix_withExtension_top bare.1 plain] at listed
      cases Settings.load_dotted loaded listed
    · rw [infers.suffix dot bare, ending_of_isPlain plain]
      exact iff_of_true infers.listed bare
  · rintro ignored root events way surveyed rfl enters
    exact Survey.mem_files_iff_isSourceFile surveyed (resolve?_isFile infers.found) enters

/-- Settings whose only extension but `.js` is given, and a file that has it beside one that imports it. -/
def testedDisk (extension : String) : Disk :=
  (((default : Disk).put (.parse "/c.yaml")
    (Text.Utf8.encode ("extensions: [.js, " ++ extension ++ "]\n").toList)).put (.parse "/src/main.js")
      (Text.Utf8.encode "import './a'\n".toList)).put (.parse ("/src/a" ++ extension)) []

def testedSettings (extension : String) : Settings :=
  ⟨(Path.parse "/src").resolve, Path.resolve_isResolved _, ["index.ts"], [".js", extension],
    ["node_modules"]⟩

/-- With an extension of two dots, the search finds the file and the survey reads another one off its
name. -/
theorem testedDisk_unlisted :
    let disk := testedDisk ".test.ts"
    let settings := testedSettings ".test.ts"
    let target := Path.parse "/src/a.test.ts"
    Settings.load disk (.parse "/") (.parse "c.yaml") = .ok settings ∧
    disk.isFile (base (.parse "/src/main.js") "./a") = false ∧
    Infers disk settings.extensions (.parse "/src/main.js") "./a" ".test.ts" target ∧
    ¬ ".d.ts".toList <:+ target.name.toList ∧
    isSourceFile settings.extensions target = false ∧
    ∃ events, Survey.events ⟨settings.extensions, settings.ignored⟩ disk settings.root = .ok events ∧
      target ∉ Survey.files events := by
  intro disk settings target
  have source : isSourceFile settings.extensions target = false := by decide +kernel
  have way : target = settings.root.descend [⟨"a.test.ts", by decide, by decide, by decide⟩] := by
    decide +kernel
  refine ⟨by decide +kernel, by decide +kernel, ⟨by decide +kernel, by decide, .inl (by decide +kernel)⟩,
    by decide +kernel, source, ?_⟩
  obtain ⟨events, surveyed, -⟩ := @Survey.events_of_isFolder disk settings.root
    ⟨settings.extensions, settings.ignored⟩ settings.resolved.2 (by decide +kernel)
  rw [way] at source ⊢
  refine ⟨events, surveyed, fun listed => ?_⟩
  rw [Survey.mem_files_iff_isSourceFile surveyed (by decide +kernel) (by simp [Survey.Enters]), source] at listed
  cases listed

/-- With an extension of one dot, both agree. -/
theorem testedDisk_listed :
    let disk := testedDisk ".ts"
    let settings := testedSettings ".ts"
    let target := Path.parse "/src/a.ts"
    Settings.load disk (.parse "/") (.parse "c.yaml") = .ok settings ∧
    Infers disk settings.extensions (.parse "/src/main.js") "./a" ".ts" target ∧
    isSourceFile settings.extensions target = true ∧
    ∃ events, Survey.events ⟨settings.extensions, settings.ignored⟩ disk settings.root = .ok events ∧
      target ∈ Survey.files events := by
  intro disk settings target
  have loaded : Settings.load disk (.parse "/") (.parse "c.yaml") = .ok settings := by decide +kernel
  have infers : Infers disk settings.extensions (.parse "/src/main.js") "./a" ".ts" target :=
    ⟨by decide +kernel, by decide, .inl (by decide +kernel)⟩
  obtain ⟨-, plain, listed⟩ := inferred_isSourceFile_iff loaded infers
  have source := (plain ⟨"ts".toList, by decide, by decide, by decide, by decide⟩).mpr
    ⟨fun bare => absurd bare.1.2 (by decide +kernel), by decide +kernel⟩
  obtain ⟨events, surveyed, -⟩ := @Survey.events_of_isFolder disk settings.root
    ⟨settings.extensions, settings.ignored⟩ settings.resolved.2 (by decide +kernel)
  have way : target = settings.root.descend [⟨"a.ts", by decide, by decide, by decide⟩] := by
    decide +kernel
  exact ⟨loaded, infers, source, events, surveyed,
    (listed _ _ events _ surveyed way (by simp [Survey.Enters])).mpr source⟩

end Resolution
end ImportAudit
