import ImportAudit.Settings.Document
import ImportAudit.Proofs.YamlValue
import Mathlib.Data.List.Forall2

/-! What a mapping writes. Each part of it is settled in turn: either it says one thing, or it is at fault
and says nothing. The keys come first, and only there can a fault be of another kind, since keys of unlike
kinds cannot be listed in order. -/
namespace ImportAudit

namespace Codes

/-- Texts that a path can have: of characters, without a NUL. -/
def IsPathText (codes : Codes) : Prop := ∃ name : String, codes = name ∧ '\x00' ∉ name.toList

theorem isPathText_ofString {name : String} : IsPathText name ↔ '\x00' ∉ name.toList := by
  constructor
  · rintro ⟨name', same, clean⟩
    exact ofString_inj.mp same ▸ clean
  · intro clean
    exact ⟨name, rfl, clean⟩

theorem isPathText_iff {codes : Codes} :
    codes.IsPathText ↔ ∀ code ∈ codes, ∃ c, code = .char c ∧ c ≠ '\x00' := by
  constructor
  · rintro ⟨name, rfl, clean⟩ code member
    obtain ⟨c, listed, rfl⟩ := List.mem_map.mp member
    exact ⟨c, rfl, ne_of_mem_of_not_mem listed clean⟩
  · intro every
    have shown : ofText codes.shown = codes :=
      calc ofText codes.shown
          = codes.map (CodePoint.char ∘ CodePoint.shown) := List.map_map
        _ = codes.map id := List.map_congr_left fun code member => by
            obtain ⟨c, rfl, -⟩ := every code member
            rfl
        _ = codes := List.map_id codes
    refine ⟨.ofList codes.shown, by rw [ofString, String.toList_ofList, shown], ?_⟩
    rw [String.toList_ofList]
    intro nul
    obtain ⟨code, member, same⟩ := List.mem_map.mp nul
    obtain ⟨c, rfl, other⟩ := every code member
    exact other same

theorem forall_mem_split {separator : Char} {holds : CodePoint → Prop} (codes : Codes)
    (held : holds (.char separator)) :
    (∀ piece ∈ codes.split separator, ∀ code ∈ piece, holds code) ↔ ∀ code ∈ codes, holds code := by
  induction codes with
  | nil => simp [split]
  | cons code rest ih =>
      rw [split, List.forall_mem_cons, ← ih]
      split
      · rename_i same
        simp [same, held]
      · cases pieces : Codes.split separator rest with
        | nil => simp
        | cons piece others => simp [and_assoc]

theorem isPathText_split_iff {codes : Codes} :
    (∀ piece ∈ codes.split '/', piece.IsPathText) ↔ codes.IsPathText := by
  simp only [isPathText_iff]
  exact forall_mem_split codes ⟨'/', rfl, by decide⟩

end Codes

/-- A value that is a text, or a list of texts. -/
inductive Yaml.Value.Texts : Yaml.Value → List Codes → Prop
  | one (text : Codes) : Texts (.scalar (.text text)) [text]
  | many (texts : List Codes) : Texts (.sequence (texts.map fun text => .scalar (.text text))) texts

namespace Settings

variable {fields : Fields} {key : String} {value : Yaml.Value} {α β : Type}

/-- Faults that lie in what a document says. -/
def Fault.IsOfValue : Fault → Prop
  | .disk .nulInPath | .yaml (.tooManyDigits _) | .notMapping _ | .unknownKeys _ _ | .rootNotText
  | .unwritableRoot _ _ | .notTextList _ | .noExtensions => True
  | _ => False

/-- The result is the one thing that is asked for; where there is no such thing, the fault lies in what
the document says. -/
def Settles (asked : α → Prop) : Except Fault α → Prop
  | .ok found => ∀ other, asked other ↔ other = found
  | .error fault => fault.IsOfValue ∧ ∀ other, ¬ asked other

section Settles

variable {asked : α → Prop} {result : Except Fault α}

theorem Settles.ok_iff (settles : Settles asked result) {found : α} :
    result = .ok found ↔ asked found := by
  cases result with
  | ok value => rw [settles found, Except.ok.injEq, eq_comm]
  | error fault => simpa using settles.2 found

/-- One part after another. -/
theorem Settles.bind {next : α → Except Fault β} {asks : α → β → Prop} (first : Settles asked result)
    (second : ∀ found, asked found → Settles (asks found) (next found)) :
    Settles (fun other => ∃ found, asked found ∧ asks found other) (result >>= next) := by
  cases result with
  | error fault => exact ⟨first.1, fun other ⟨found, here, _⟩ => first.2 found here⟩
  | ok found =>
      -- the first part leaves one value, so the second is asked of that value alone
      have only (other : β) : (∃ found, asked found ∧ asks found other) ↔ asks found other := by
        constructor
        · rintro ⟨found', here, there⟩
          exact (first found').mp here ▸ there
        · intro there
          exact ⟨found, (first found).mpr rfl, there⟩
      have settled := second found ((first found).mpr rfl)
      change Settles _ (next found)
      cases made : next found with
      | ok value =>
          rw [made] at settled
          exact fun other => (only other).trans (settled other)
      | error fault =>
          rw [made] at settled
          exact ⟨settled.1, fun other => mt (only other).mp (settled.2 other)⟩

theorem Settles.of_unique {found : α} (holds : asked found) (only : ∀ other, asked other → other = found) :
    Settles asked (.ok found) := by
  intro other
  refine ⟨only other, ?_⟩
  rintro rfl
  exact holds

theorem Settles.pure (found : α) : Settles (· = found) (Except.ok found) := fun _ => Iff.rfl

end Settles

section Lookup

theorem lookup?_eq_none_iff : lookup? key fields = none ↔ ∀ value, (.text key, value) ∉ fields := by
  rw [lookup?, Option.map_eq_none_iff, List.find?_eq_none]
  constructor
  · intro others value member
    simpa using others _ member
  · rintro absent ⟨present, value⟩ member
    simp only [decide_eq_true_eq]
    rintro rfl
    exact absent value member

/-- A key that is there once leads to its value. -/
theorem lookup?_eq_some_iff (distinct : Yaml.Value.DistinctKeys fields) :
    lookup? key fields = some value ↔ (.text key, value) ∈ fields := by
  induction fields with
  | nil => simp [lookup?]
  | cons entry fields ih =>
      obtain ⟨apart, further⟩ := List.pairwise_cons.mp distinct
      obtain ⟨present, old⟩ := entry
      by_cases same : present = .text key
      · subst same
        have absent : (.text key, value) ∉ fields := by
          intro later
          simpa using apart _ later
        simp [lookup?, absent, eq_comm]
      · have skipped : lookup? key ((present, old) :: fields) = lookup? key fields := by
          simp [lookup?, same]
        rw [skipped, ih further, List.mem_cons, or_iff_right]
        rintro ⟨⟩
        exact same rfl

end Lookup

/-- The root that a document writes, or the default one. -/
def GivesRoot (fields : Fields) (text : Codes) : Prop :=
  (.text "root", .scalar (.text text)) ∈ fields ∨
    (∀ value, (.text "root", value) ∉ fields) ∧ text = "src"

/-- What a document gives for a key: texts, or nothing if the key is absent or null. -/
inductive Gives (fields : Fields) (key : String) : Option (List Codes) → Prop
  | absent : (∀ value, (.text key, value) ∉ fields) → Gives fields key none
  | null : (.text key, .scalar .null) ∈ fields → Gives fields key none
  | texts {value : Yaml.Value} {texts : List Codes} : (.text key, value) ∈ fields →
      value.Texts texts → Gives fields key (some texts)

theorem text?_eq_some_iff {text : Codes} : text? value = some text ↔ value = .scalar (.text text) := by
  unfold text?
  split
  · simp
  · rename_i other
    simpa using fun same => other text same

theorem mapM_text?_eq_some_iff {items : List Yaml.Value} {texts : List Codes} :
    items.mapM text? = some texts ↔ items = texts.map fun text => .scalar (.text text) := by
  induction items generalizing texts with
  | nil => cases texts <;> simp
  | cons item items ih => cases texts <;> simp [Option.bind_eq_some_iff, text?_eq_some_iff, ih]

theorem mapM_text?_of_texts {items : List Yaml.Value} {texts : List Codes}
    (lists : (Yaml.Value.sequence items).Texts texts) : items.mapM text? = some texts := by
  cases lists
  exact mapM_text?_eq_some_iff.mpr rfl

theorem gives_unique (distinct : Yaml.Value.DistinctKeys fields) (member : (.text key, value) ∈ fields)
    {given : Option (List Codes)} : Gives fields key given ↔
      value = .scalar .null ∧ given = none ∨ ∃ texts, value.Texts texts ∧ given = some texts := by
  have only {value' : Yaml.Value} (there : (.text key, value') ∈ fields) : value = value' :=
    Option.some.inj (((lookup?_eq_some_iff distinct).mpr member).symm.trans
      ((lookup?_eq_some_iff distinct).mpr there))
  constructor
  · rintro (absent | null | ⟨there, lists⟩)
    · exact absurd member (absent value)
    · exact .inl ⟨only null, rfl⟩
    · exact .inr ⟨_, only there ▸ lists, rfl⟩
  · rintro (⟨rfl, rfl⟩ | ⟨texts, lists, rfl⟩)
    · exact .null member
    · exact .texts member lists

theorem rootText_settles (distinct : Yaml.Value.DistinctKeys fields) :
    Settles (GivesRoot fields) (rootText fields) := by
  unfold rootText
  cases found : lookup? "root" fields with
  | none =>
      have absent := lookup?_eq_none_iff.mp found
      intro text
      simp [GivesRoot, absent, defaultRoot]
  | some value =>
      have member := (lookup?_eq_some_iff distinct).mp found
      have given (text : Codes) : GivesRoot fields text ↔ text? value = some text := by
        rw [GivesRoot, ← lookup?_eq_some_iff distinct, found, Option.some.injEq, text?_eq_some_iff,
          or_iff_left]
        rintro ⟨absent, -⟩
        exact absent value member
      dsimp only
      cases written : text? value with
      | none =>
          refine ⟨trivial, fun text => ?_⟩
          simp [given, written]
      | some text =>
          intro other
          simp [given, written, eq_comm]

theorem textList_settles (distinct : Yaml.Value.DistinctKeys fields) (key : String) :
    Settles (Gives fields key) (textList key fields) := by
  unfold textList
  cases found : lookup? key fields with
  | none =>
      have absent := lookup?_eq_none_iff.mp found
      refine .of_unique (.absent absent) ?_
      rintro given (_ | null | ⟨there, _⟩)
      · rfl
      · rfl
      · exact absurd there (absent _)
  | some value =>
      have member := (lookup?_eq_some_iff distinct).mp found
      -- the key is there once, so what it gives is a matter of its value
      rw [funext fun given => propext (@gives_unique fields key value distinct member given)]
      cases value with
      | scalar scalar =>
          cases scalar with
          | null =>
              refine .of_unique (.inl ⟨rfl, rfl⟩) ?_
              rintro given (⟨-, rfl⟩ | ⟨texts, ⟨⟩, rfl⟩)
              rfl
          | text text =>
              refine .of_unique (.inr ⟨_, .one text, rfl⟩) ?_
              rintro given (⟨⟨⟩, -⟩ | ⟨texts, ⟨⟩, rfl⟩)
              rfl
          | _ => exact ⟨trivial, by rintro given (⟨⟨⟩, -⟩ | ⟨texts, ⟨⟩, -⟩)⟩
      | sequence items =>
          dsimp only
          cases listed : items.mapM text? with
          | none =>
              refine ⟨trivial, ?_⟩
              rintro given (⟨⟨⟩, -⟩ | ⟨texts, lists, -⟩)
              cases (mapM_text?_of_texts lists).symm.trans listed
          | some texts =>
              obtain rfl := mapM_text?_eq_some_iff.mp listed
              refine .of_unique (.inr ⟨texts, .many texts, rfl⟩) ?_
              rintro given (⟨⟨⟩, -⟩ | ⟨others, lists, rfl⟩)
              exact (mapM_text?_of_texts lists).symm.trans listed
      | _ => exact ⟨trivial, by rintro given (⟨⟨⟩, -⟩ | ⟨texts, ⟨⟩, -⟩)⟩

theorem badComponent?_eq_none_iff {above : Path} {parts : List Codes} :
    badComponent? above parts = none ↔ ∀ part ∈ parts, part.IsPathText := by
  induction parts generalizing above with
  | nil => simp [badComponent?]
  | cons part parts ih =>
      rw [badComponent?, List.forall_mem_cons]
      cases named : part.string? with
      | none =>
          have unnamed : ¬ part.IsPathText := fun ⟨name, same, _⟩ => by
            rw [same, Codes.string?_ofString] at named
            cases named
          simp [unnamed]
      | some name =>
          obtain rfl := Codes.string?_eq_some_iff.mp named
          by_cases nul : '\x00' ∈ name.toList
          · simp [nul, Codes.isPathText_ofString]
          · simp [nul, Codes.isPathText_ofString, ih]

theorem badComponent?_isOfValue {above : Path} {parts : List Codes} {fault : Fault}
    (bad : badComponent? above parts = some fault) : fault.IsOfValue := by
  induction parts generalizing above with
  | nil => cases bad
  | cons part parts ih =>
      rw [badComponent?] at bad
      split at bad
      · cases bad
        trivial
      · split at bad
        · cases bad
          trivial
        · exact ih bad

/-- The root that a text names, if it can name one. -/
def NamesRoot (working file : Path) (text : Codes) (root : Path) : Prop :=
  ∃ name : String, text = name ∧ '\x00' ∉ name.toList ∧
    root = (working.join (file.parent.join (.parse name))).resolve

theorem rootAt_settles (working file : Path) (text : Codes) :
    Settles (fun root : { path : Path // path.IsResolved } => NamesRoot working file text root.val)
      (rootAt working file text) := by
  unfold rootAt
  dsimp only
  split
  · rename_i fault bad
    refine ⟨badComponent?_isOfValue bad, ?_⟩
    rintro root ⟨name, rfl, clean, -⟩
    have plain := Codes.isPathText_split_iff.mpr (Codes.isPathText_ofString.mpr clean)
    rw [badComponent?_eq_none_iff.mpr plain] at bad
    cases bad
  · rename_i sound
    obtain ⟨name, rfl, clean⟩ := Codes.isPathText_split_iff.mp (badComponent?_eq_none_iff.mp sound)
    have shown : String.ofList (Codes.ofString name).shown = name := by
      rw [Codes.ofString, Codes.shown_ofText, String.ofList_toList]
    simp only [shown]
    refine .of_unique ⟨name, rfl, clean, rfl⟩ ?_
    rintro other ⟨name', same, -, root⟩
    obtain rfl := Codes.ofString_inj.mp same
    exact Subtype.ext root

/-- The entry points: those given, or the default ones if none are. -/
def ChoosesEntries (fields : Fields) (entries : List Codes) : Prop :=
  ∃ given, Gives fields "entry_points" given ∧
    entries = match given with
      | none | some [] => ["index.ts"]
      | some texts => texts

/-- An extension as it is written, with a dot in front if it has none there. -/
inductive Dots (text : Codes) : Codes → Prop
  | kept : text.head? = some (.char '.') → Dots text text
  | added : text.head? ≠ some (.char '.') → Dots text (.char '.' :: text)

/-- The extensions: those given, one by one, or the default ones; a given list is not empty. -/
def ChoosesExtensions (fields : Fields) (extensions : List Codes) : Prop :=
  ∃ given, Gives fields "extensions" given ∧
    match given with
    | none => extensions = [".ts", ".tsx", ".js", ".jsx"].map Codes.ofString
    | some texts => texts ≠ [] ∧ List.Forall₂ Dots texts extensions

/-- The folders to pass by: those given, even if there are none, or the default ones. -/
def ChoosesIgnored (fields : Fields) (ignored : List Codes) : Prop :=
  ∃ given, Gives fields "ignore_dirs" given ∧ ignored = given.getD ["node_modules"]

theorem dots_iff {text extension : Codes} : Dots text extension ↔ extension = dotted text := by
  by_cases dot : text.head? = some (.char '.')
  · rw [dotted, if_pos dot]
    constructor
    · rintro (_ | other)
      · rfl
      · exact absurd dot other
    · rintro rfl
      exact .kept dot
  · rw [dotted, if_neg dot]
    constructor
    · rintro (same | _)
      · exact absurd same dot
      · rfl
    · rintro rfl
      exact .added dot

theorem forall₂_dots_iff {texts extensions : List Codes} :
    List.Forall₂ Dots texts extensions ↔ extensions = texts.map dotted := by
  have same : Dots = fun text extension => dotted text = extension := by
    funext text extension
    exact propext (dots_iff.trans eq_comm)
  rw [same, ← List.forall₂_map_left_iff (R := (· = ·)), List.forall₂_eq_eq_eq]
  exact eq_comm

theorem Dots.head {text extension : Codes} (dots : Dots text extension) :
    extension.head? = some (.char '.') := by
  cases dots with
  | kept dot => exact dot
  | added => rfl

theorem entriesFrom_settles (distinct : Yaml.Value.DistinctKeys fields) :
    Settles (ChoosesEntries fields) (entriesFrom fields) := by
  refine (textList_settles distinct "entry_points").bind fun given _ => ?_
  rcases given with _ | (_ | ⟨first, texts⟩) <;> exact .pure _

theorem extensionsFrom_settles (distinct : Yaml.Value.DistinctKeys fields) :
    Settles (ChoosesExtensions fields) (extensionsFrom fields) := by
  refine (textList_settles distinct "extensions").bind fun given _ => ?_
  rcases given with _ | (_ | ⟨first, texts⟩)
  · exact .pure _
  · exact ⟨trivial, fun extensions chosen => chosen.1 rfl⟩
  · intro extensions
    exact (and_iff_right (List.cons_ne_nil first texts)).trans forall₂_dots_iff

theorem ignoredFrom_settles (distinct : Yaml.Value.DistinctKeys fields) :
    Settles (ChoosesIgnored fields) (ignoredFrom fields) := by
  exact (textList_settles distinct "ignore_dirs").bind fun given _ => .pure _

/-- The document that a mapping with known keys is. -/
def Writes (working file : Path) (fields : Fields) (document : Document) : Prop :=
  ∃ text, GivesRoot fields text ∧ ∃ root : { path : Path // path.IsResolved },
    NamesRoot working file text root.val ∧
    ∃ entries, ChoosesEntries fields entries ∧ ∃ extensions, ChoosesExtensions fields extensions ∧
      ∃ ignored, ChoosesIgnored fields ignored ∧
        document = ⟨root, entries, extensions, ignored⟩

section Keys

def IsKnown (key : Yaml.Scalar) : Prop :=
  ∃ name ∈ ["root", "entry_points", "extensions", "ignore_dirs"], key = .text name

/-- Two unknown keys cannot be ordered. -/
def Unordered (fields : Fields) : Prop :=
  ∃ first ∈ fields, ∃ second ∈ fields, ¬ IsKnown first.1 ∧ ¬ IsKnown second.1 ∧
    first.1 ≠ second.1 ∧ ¬ first.1.Comparable second.1

theorem mem_unknownKeys {key : Yaml.Scalar} :
    key ∈ unknownKeys fields ↔ (∃ value, (key, value) ∈ fields) ∧ ¬ IsKnown key := by
  simp [unknownKeys, knownKeys, IsKnown]

theorem unknownKeys_eq_nil_iff : unknownKeys fields = [] ↔ ∀ entry ∈ fields, IsKnown entry.1 := by
  simp [List.eq_nil_iff_forall_not_mem, mem_unknownKeys]

/-- Keys of one class can be ordered, whichever of them is compared with the others. -/
theorem areOrdered_eq_false_iff {keys : List Yaml.Scalar} : areOrdered keys = false ↔
    ∃ first ∈ keys, ∃ second ∈ keys, first ≠ second ∧ ¬ first.Comparable second := by
  constructor
  · intro unordered
    cases keys with
    | nil => cases unordered
    | cons key keys =>
        obtain ⟨other, member, unlike⟩ : ∃ other ∈ keys, ¬ other.orderClass = key.orderClass := by
          simpa [areOrdered] using unordered
        refine ⟨other, List.mem_cons_of_mem _ member, key, List.mem_cons_self, ?_, ?_⟩
        · rintro rfl
          exact unlike rfl
        · exact fun comparable => unlike comparable.orderClass_eq
  · rintro ⟨first, member, second, member', apart, incomparable⟩
    cases keys with
    | nil => cases member
    | cons key keys =>
        refine Bool.eq_false_iff.mpr fun ordered => incomparable ?_
        -- only the first key was compared with the others, but being of one class carries over
        have alike {other : Yaml.Scalar} (member : other ∈ key :: keys) :
            other.orderClass = key.orderClass := by
          rcases List.mem_cons.mp member with rfl | later
          · rfl
          · exact eq_of_beq (List.all_eq_true.mp ordered other later)
        exact Yaml.Scalar.comparable_of_orderClass ((alike member).trans (alike member').symm) apart

theorem unordered_iff : Unordered fields ↔ areOrdered (unknownKeys fields) = false := by
  rw [areOrdered_eq_false_iff]
  constructor
  · rintro ⟨first, member, second, member', unknown, unknown', rest⟩
    exact ⟨first.1, mem_unknownKeys.mpr ⟨⟨_, member⟩, unknown⟩, second.1,
      mem_unknownKeys.mpr ⟨⟨_, member'⟩, unknown'⟩, rest⟩
  · rintro ⟨first, listed, second, listed', rest⟩
    obtain ⟨⟨value, member⟩, unknown⟩ := mem_unknownKeys.mp listed
    obtain ⟨⟨value', member'⟩, unknown'⟩ := mem_unknownKeys.mp listed'
    exact ⟨_, member, _, member', unknown, unknown', rest⟩

/-- Known keys pass, unknown keys that cannot be ordered are one fault, and others another. -/
theorem checkKeys_cases (file : Path) (fields : Fields) :
    ((∀ entry ∈ fields, IsKnown entry.1) ∧ ¬ Unordered fields ∧ checkKeys file fields = .ok ()) ∨
      (Unordered fields ∧ checkKeys file fields = .error .unorderedKeys) ∨
      ((∃ entry ∈ fields, ¬ IsKnown entry.1) ∧ ¬ Unordered fields ∧
        ∃ fault : Fault, fault.IsOfValue ∧ checkKeys file fields = .error fault) := by
  unfold checkKeys
  dsimp only
  by_cases none : unknownKeys fields = []
  · refine .inl ⟨unknownKeys_eq_nil_iff.mp none, ?_, by rw [none]; rfl⟩
    simp [unordered_iff, none, areOrdered]
  · have unknown : ∃ entry ∈ fields, ¬ IsKnown entry.1 := by
      simpa [unknownKeys_eq_nil_iff] using none
    rw [if_neg (mt List.isEmpty_iff.mp none), unordered_iff]
    cases ordered : areOrdered (unknownKeys fields) with
    | false => exact .inr (.inl ⟨rfl, rfl⟩)
    | true =>
        refine .inr (.inr ⟨unknown, by decide, ?_⟩)
        rw [if_neg (by decide)]
        split
        · exact ⟨.unknownKeys file _, trivial, rfl⟩
        · exact ⟨.yaml (.tooManyDigits .none), trivial, rfl⟩

end Keys

section Fields

variable {working file : Path} {document : Document} (distinct : Yaml.Value.DistinctKeys fields)
include distinct

theorem ofFields_settles (passed : checkKeys file fields = .ok ()) :
    Settles (Writes working file fields) (Document.ofFields working file fields) := by
  unfold Document.ofFields
  rw [passed]
  refine (rootText_settles distinct).bind fun text _ => (rootAt_settles working file text).bind fun root _ =>
    (entriesFrom_settles distinct).bind fun entries _ =>
      (extensionsFrom_settles distinct).bind fun extensions _ =>
        (ignoredFrom_settles distinct).bind fun ignored _ => .pure _

theorem ofFields_eq_ok_iff : Document.ofFields working file fields = .ok document ↔
    (∀ entry ∈ fields, IsKnown entry.1) ∧ Writes working file fields document := by
  rcases checkKeys_cases file fields with ⟨known, -, passed⟩ | ⟨unordered, failed⟩ |
    ⟨⟨entry, member, unknown⟩, -, fault, -, failed⟩
  · rw [(ofFields_settles distinct passed).ok_iff, and_iff_right known]
  · obtain ⟨first, member, -, -, unknown, -⟩ := unordered
    rw [Document.ofFields, failed]
    exact ⟨nofun, fun both => absurd (both.1 first member) unknown⟩
  · rw [Document.ofFields, failed]
    exact ⟨nofun, fun both => absurd (both.1 entry member) unknown⟩

end Fields

end Settings
end ImportAudit
