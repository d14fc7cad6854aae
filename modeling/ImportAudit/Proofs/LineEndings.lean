import ImportAudit.Codebase
import ImportAudit.Proofs.Utf8

/-! How lines end makes no difference to what is read. A line can end in a line feed, a carriage return or
both; whichever is written, the text read has line feeds, and where it stands on disk the codebase gets the
same source. Specifiers are resolved by the names on the disk, not by what the files hold. -/
namespace ImportAudit

namespace Text

variable {text : Text} {c : Char}

/-- The ways to end a line. -/
inductive LineEnding
  | feed
  | returnFeed
  | loneReturn
deriving DecidableEq, Repr

namespace LineEnding

def mark : LineEnding → Text
  | feed => ['\n']
  | returnFeed => ['\r', '\n']
  | loneReturn => ['\r']

/-- The text with its lines ended in that way. -/
def write (ending : LineEnding) (text : Text) : Text :=
  text.flatMap fun c => if c = '\n' then ending.mark else [c]

theorem write_cons (ending : LineEnding) (c : Char) (rest : Text) :
    ending.write (c :: rest) = (if c = '\n' then ending.mark else [c]) ++ ending.write rest :=
  List.flatMap_cons

@[simp] theorem write_feed (text : Text) : feed.write text = text := by
  have kept : (fun c => if c = '\n' then feed.mark else [c]) = fun c => [c] := by
    funext c
    split
    · rename_i same
      rw [same]
      rfl
    · rfl
  rw [write, kept]
  exact List.flatMap_singleton' text

theorem feed_not_mem_write (text : Text) : '\n' ∉ loneReturn.write text := by
  intro member
  obtain ⟨c, -, piece⟩ := List.mem_flatMap.mp member
  split at piece
  · simp [mark] at piece
  · rename_i other
    exact other (List.mem_singleton.mp piece).symm

end LineEnding

theorem unifyLineEndings_cons (other : c ≠ '\r') (rest : Text) :
    unifyLineEndings (c :: rest) = c :: unifyLineEndings rest := by
  rw [unifyLineEndings.eq_def]
  split
  · rename_i none
    cases none
  · rename_i pair
    exact absurd (List.cons.inj pair).1 other
  · rename_i plain
    obtain ⟨rfl, rfl⟩ := List.cons.inj plain
    rw [if_neg other]

/-- A carriage return that no line feed follows is the end of a line. -/
theorem unifyLineEndings_return {rest : Text} (lone : rest.head? ≠ some '\n') :
    unifyLineEndings ('\r' :: rest) = '\n' :: unifyLineEndings rest := by
  rw [unifyLineEndings.eq_def]
  split
  · rename_i none
    cases none
  · rename_i pair
    rw [(List.cons.inj pair).2] at lone
    exact absurd rfl lone
  · rename_i plain
    obtain ⟨rfl, rfl⟩ := List.cons.inj plain
    rw [if_pos rfl]

theorem return_not_mem_unifyLineEndings (text : Text) : '\r' ∉ unifyLineEndings text := by
  fun_induction unifyLineEndings text with
  | case1 => exact List.not_mem_nil
  | case2 rest ih => simpa using ih
  | case3 c rest pair ih =>
      have kept : '\r' ≠ if c = '\r' then '\n' else c := by
        split
        · decide
        · rename_i other
          exact Ne.symm other
      exact List.not_mem_cons_of_ne_of_not_mem kept ih

/-- However its lines end, a text without carriage returns is read as it is. -/
theorem unifyLineEndings_write (clean : '\r' ∉ text) (ending : LineEnding) :
    unifyLineEndings (ending.write text) = text := by
  induction text with
  | nil => rfl
  | cons c rest ih =>
      obtain ⟨other, further⟩ : '\r' ≠ c ∧ '\r' ∉ rest := by simpa using clean
      rw [LineEnding.write_cons]
      by_cases feed : c = '\n'
      · subst feed
        rw [if_pos rfl]
        cases ending with
        | feed => exact (unifyLineEndings_cons (Ne.symm other) _).trans (congrArg _ (ih further))
        | returnFeed => exact congrArg _ (ih further)
        | loneReturn =>
            have lone : (LineEnding.loneReturn.write rest).head? ≠ some '\n' := fun first =>
              LineEnding.feed_not_mem_write rest (List.mem_of_head? first)
            exact (unifyLineEndings_return lone).trans (congrArg _ (ih further))
      · rw [if_neg feed, List.singleton_append, unifyLineEndings_cons (Ne.symm other), ih further]

end Text

section Names

/-- The names of files and folders at all depths, with nothing in the files. -/
def Entries.outline : Entries → Entries
  | nil => nil
  | file name _ others => file name [] others.outline
  | folder name inside others => folder name inside.outline others.outline

def Node.outline : Node → Node
  | file _ => file []
  | folder inside => folder inside.outline

/-- The disks differ at most in what their files hold. -/
def Disk.SameNames (one other : Disk) : Prop := one.entries.outline = other.entries.outline

instance (one other : Disk) : Decidable (one.SameNames other) :=
  inferInstanceAs (Decidable (one.entries.outline = other.entries.outline))

theorem Entries.find?_outline (entries : Entries) (name : String) :
    entries.outline.find? name = (entries.find? name).map Node.outline := by
  induction entries with
  | nil => rfl
  | file other bytes others ih | folder other inside others _ ih =>
      simp only [outline, find?, ih]
      split <;> rfl

namespace Disk

variable {one other : Disk}

theorem follow_outline (above : List Entries) (here : Entries) (parts : List String) :
    follow (above.map Entries.outline) here.outline parts =
      (follow above here parts).map Node.outline := by
  induction parts generalizing above here with
  | nil => rfl
  | cons part parts ih =>
      unfold follow
      split
      · cases above with
        | nil => exact ih [] here
        | cons upper uppers => exact ih uppers upper
      · rw [Entries.find?_outline]
        cases next : here.find? part with
        | none => rfl
        | some node =>
            cases node with
            | file bytes =>
                dsimp only [Option.map_some, Node.outline]
                split <;> rfl
            | folder inside => exact ih (here :: above) inside

/-- Where the files are is a matter of names. -/
theorem SameNames.isFile (same : one.SameNames other) (path : Path) :
    other.isFile path = one.isFile path := by
  have outlined (disk : Disk) : disk.isFile path = true ↔
      follow [] disk.entries.outline path.parts = .ok (.file []) := by
    have nodes := follow_outline [] disk.entries path.parts
    rw [List.map_nil] at nodes
    rw [nodes, Disk.isFile, node]
    rcases follow [] disk.entries path.parts with _ | (_ | _) <;> simp [Except.map, Node.outline]
  rw [Bool.eq_iff_iff, outlined, outlined, same]

theorem SameNames.resolve? (same : one.SameNames other) (extensions : List String) (importer : Path)
    (specifier : String) : Resolution.resolve? other extensions importer specifier =
      Resolution.resolve? one extensions importer specifier := by
  rw [Resolution.resolve?, Resolution.resolve?, funext same.isFile]

theorem SameNames.linksOf (same : one.SameNames other) (root : Path) (extensions : List String)
    (importer : Path) (text : Text) : Source.linksOf other root extensions importer text =
      Source.linksOf one root extensions importer text := by
  unfold Source.linksOf
  congr 1
  funext mention
  rw [Source.link?, Source.link?, same.resolve?]

end Disk
end Names

namespace Codebase

open Text.Utf8 (encode)

variable {disk one other : Disk} {codebase : Codebase} {path : Path} {text : Text}

theorem textOf_encode_write (clean : '\r' ∉ text) (ending : Text.LineEnding) :
    Source.textOf (encode (ending.write text)) = text := by
  rw [Source.textOf, Text.Utf8.decodeLossy_encode, Text.unifyLineEndings_write clean]

/-- A file that was not read before makes the source of the text that it is read as. -/
theorem load_of_textOf {bytes : Text.Utf8.Bytes} (reads : Source.textOf bytes = text)
    (found : disk.node path = .ok (.file bytes)) (fresh : codebase.find? path = none) :
    codebase.load disk path =
      let source : Source := ⟨path, text, Script.exports text,
        Source.linksOf disk codebase.root codebase.extensions path text⟩
      ⟨some source, { codebase with sources := codebase.sources ++ [source] },
        [.parsed path source.links.length source.exports.length]⟩ := by
  simp only [load, fresh, found, Source.parse, reads]

/-- However the lines of a file end, a text without carriage returns is read from its UTF-8 bytes as it
is; and so loading the file gives the same source and leaves the same codebase. No file at all is read
with a carriage return. -/
theorem load_ignores_line_endings {text : Text} (clean : '\r' ∉ text) :
    encode text = (String.ofList text).toUTF8.data.toList ∧
      (∀ ending : Text.LineEnding, Source.textOf (encode (ending.write text)) = text) ∧
      (∀ bytes, '\r' ∉ Source.textOf bytes) ∧
      ∀ (ending : Text.LineEnding) (disk other : Disk) (codebase : Codebase) (path : Path),
        disk.SameNames other → disk.node path = .ok (.file (encode text)) →
        other.node path = .ok (.file (encode (ending.write text))) →
        codebase.load other path = codebase.load disk path ∧
          (codebase.find? path = none → (codebase.load other path).value =
            some ⟨path, text, Script.exports text,
              Source.linksOf disk codebase.root codebase.extensions path text⟩) := by
  refine ⟨Text.Utf8.encode_eq_toUTF8 text, textOf_encode_write clean,
    fun bytes => Text.return_not_mem_unifyLineEndings _, ?_⟩
  intro ending disk other codebase path same found found'
  have reads : Source.textOf (encode text) = text := by
    simpa using textOf_encode_write clean .feed
  have reads' := textOf_encode_write clean ending
  have links := same.linksOf codebase.root codebase.extensions path text
  constructor
  · cases read : codebase.find? path with
    | some source => simp only [load, read]
    | none => rw [load_of_textOf reads found read, load_of_textOf reads' found' read, links]
  · intro fresh
    rw [load_of_textOf reads' found' fresh, links]

/-- Characters of two, three and four bytes, and an empty line. -/
def accentedScript : Text := "import {é} from './b'\n\n// €😀\n".toList

def accentedDisk (ending : Text.LineEnding) : Disk :=
  ((default : Disk).put (.parse "/b.ts") []).put (.parse "/a.ts") (encode (ending.write accentedScript))

theorem accentedScript_ignores_line_endings :
    '\r' ∉ accentedScript ∧ ∀ ending, ∃ source,
      ((empty (.parse "/") [".ts"]).load (accentedDisk ending) (.parse "/a.ts")).value = some source ∧
        source.text = accentedScript ∧ source.links.map Link.target = [.parse "/b.ts"] := by
  have clean : '\r' ∉ accentedScript := by decide
  refine ⟨clean, fun ending => ?_⟩
  obtain ⟨-, -, -, alike⟩ := load_ignores_line_endings clean
  have written : (accentedDisk .feed).node (.parse "/a.ts") = .ok (.file (encode accentedScript)) := by
    rw [← Text.LineEnding.write_feed accentedScript]
    rfl
  have names : (accentedDisk .feed).SameNames (accentedDisk ending) := by
    cases ending <;> decide +kernel
  have loaded := (alike ending _ _ (empty (.parse "/") [".ts"]) _ names written
    (by cases ending <;> rfl)).2 rfl
  exact ⟨_, loaded, rfl, by decide +kernel⟩

end Codebase
end ImportAudit
