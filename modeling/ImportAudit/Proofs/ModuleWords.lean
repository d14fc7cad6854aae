import ImportAudit.Proofs.AuditCompletion
import ImportAudit.Proofs.Interruptions

/-! When a call of `require` or `import` counts as used. The text of the call is blanked, and the words
`require` and `import` are looked for in what is left. A call starts and ends at a word boundary, so
blanking it makes no word and breaks none. Hence of two calls each makes the other used. -/
namespace ImportAudit

namespace Text

variable {word text before taken gap rest : Text} {mark : Char}

/-- A word stands in a text, and no word character touches it. -/
def HasWord (word text : Text) : Prop :=
  ∃ before after, text = before ++ (word ++ after) ∧ before.getLast?.any isWord = false ∧
    after.head?.any isWord = false

/-- A word stands in a text outside of a stretch, and no word character touches it. -/
def HasWordOutside (word text : Text) (span : Span) : Prop :=
  ∃ before after, text = before ++ (word ++ after) ∧ before.getLast?.any isWord = false ∧
    after.head?.any isWord = false ∧
    (before.length + word.length ≤ span.start ∨ span.stop ≤ before.length)

theorem any_getLast?_append (holds : Char → Bool) (first second : Text) :
    (first ++ second).getLast?.any holds =
      if second = [] then first.getLast?.any holds else second.getLast?.any holds := by
  by_cases empty : second = []
  · simp [empty]
  · rw [List.getLast?_append_of_ne_nil _ empty, if_neg empty]

theorem any_head?_append (holds : Char → Bool) (first second : Text) :
    (first ++ second).head?.any holds =
      if first = [] then second.head?.any holds else first.head?.any holds := by
  cases first <;> simp

theorem not_hasWord_nil (nonempty : word ≠ []) : ¬ HasWord word [] := by
  rintro ⟨before, after, same, -⟩
  have word_nil := (List.append_eq_nil_iff.mp (List.append_eq_nil_iff.mp same.symm).2).1
  exact nonempty word_nil

/-- A word is on one side of a mark that is no word character. -/
theorem hasWord_append_mark (letters : ∀ c ∈ word, isWord c = true) (plain : isWord mark = false) :
    HasWord word (before ++ mark :: rest) ↔ HasWord word before ∨ HasWord word rest := by
  have absent : mark ∉ word := fun member => by simp [letters mark member] at plain
  constructor
  · rintro ⟨left, after, same, free, ends⟩
    rcases exists_side absent same with ⟨right, rfl, rfl⟩ | ⟨left, rfl, rfl⟩
    · refine .inl ⟨left, right, rfl, free, ?_⟩
      rw [any_head?_append] at ends
      split at ends <;> simp_all
    · refine .inr ⟨left, after, rfl, ?_, ends⟩
      rw [any_getLast?_append, if_neg (List.cons_ne_nil _ _), ← List.singleton_append,
        any_getLast?_append] at free
      split at free <;> simp_all
  · rintro (⟨left, right, rfl, free, ends⟩ | ⟨left, right, rfl, free, ends⟩)
    · refine ⟨left, right ++ mark :: rest, by simp, free, ?_⟩
      rw [any_head?_append]
      split
      · simpa using plain
      · exact ends
    · refine ⟨before ++ mark :: left, right, by simp, ?_, ends⟩
      rw [← List.singleton_append, ← List.append_assoc, any_getLast?_append]
      split
      · simpa using plain
      · exact free

/-- A stretch without word characters separates words. -/
theorem hasWord_gap (letters : ∀ c ∈ word, isWord c = true) (nonempty : word ≠ [])
    (some : gap ≠ []) (wordless : ∀ c ∈ gap, isWord c = false) :
    HasWord word (before ++ (gap ++ rest)) ↔ HasWord word before ∨ HasWord word rest := by
  induction gap generalizing before with
  | nil => exact absurd rfl some
  | cons c gap ih =>
      have plain := wordless c List.mem_cons_self
      rw [List.cons_append, hasWord_append_mark letters plain]
      by_cases last : gap = []
      · rw [last, List.nil_append]
      · have further := @ih [] last fun d member => wordless d (List.mem_cons_of_mem _ member)
        rw [List.nil_append] at further
        rw [further, or_iff_right (not_hasWord_nil nonempty)]

theorem exists_of_length_le {first second taken rest : Text} (same : first ++ second = taken ++ rest)
    (short : first.length ≤ taken.length) :
    ∃ extra, taken = first ++ extra ∧ second = extra ++ rest := by
  rcases exists_extra same with ⟨extra, -, longer, follows⟩ | ⟨extra, rfl, rfl⟩
  · exact ⟨extra, longer, follows⟩
  · obtain rfl : extra = [] := by
      rw [List.length_append] at short
      exact List.length_eq_zero_iff.mp (by omega)
    exact ⟨[], by simp, by simp⟩

/-- Outside a stretch that starts and ends at a word boundary, the words are those before and behind
it. -/
theorem hasWordOutside_iff (letters : ∀ c ∈ word, isWord c = true) (nonempty : word ≠ [])
    (edge : before.getLast?.any isWord = false)
    (edge' : (before ++ taken).getLast?.any isWord = false) :
    HasWordOutside word (before ++ (taken ++ rest)) ⟨before.length, (before ++ taken).length⟩ ↔
      HasWord word before ∨ HasWord word rest := by
  constructor
  · rintro ⟨left, after, same, free, ends, ahead | behind⟩
    · rw [← List.append_assoc left] at same
      obtain ⟨extra, rfl, rfl⟩ := exists_of_length_le same.symm (by simpa using ahead)
      refine .inl ⟨left, extra, by simp, free, ?_⟩
      rw [any_head?_append] at ends
      split at ends <;> simp_all
    · rw [← List.append_assoc before] at same
      obtain ⟨extra, rfl, rfl⟩ := exists_of_length_le same behind
      refine .inr ⟨extra, after, rfl, ?_, ends⟩
      rw [any_getLast?_append] at free
      split at free <;> simp_all
  · rintro (⟨left, right, rfl, free, ends⟩ | ⟨left, right, rfl, free, ends⟩)
    · refine ⟨left, right ++ (taken ++ rest), by simp, free, ?_, .inl (by simp)⟩
      rw [any_head?_append, if_neg, ends]
      rintro rfl
      -- The text before the stretch does not end in a letter of the word.
      rw [List.append_nil, any_getLast?_append, if_neg nonempty,
        List.getLast?_eq_some_getLast nonempty, Option.any_some, letters _ (List.getLast_mem _)] at edge
      cases edge
    · refine ⟨before ++ taken ++ left, right, by simp, ?_, ends, .inr (by simp)⟩
      rw [any_getLast?_append]
      split
      · exact edge'
      · exact free

theorem isWord_blankChar (c : Char) : isWord (blankChar c) = false := by
  unfold blankChar
  split
  · rename_i feed
    rw [feed]
    decide
  · decide

theorem mapIdx_eq_map {change : Nat → Char → Char} {same : Char → Char} {text : Text}
    (agree : ∀ i < text.length, ∀ c, change i c = same c) : text.mapIdx change = text.map same := by
  apply List.ext_getElem
  · simp
  · intro i inside inside'
    rw [List.getElem_mapIdx, List.getElem_map]
    exact agree i (by simpa using inside) _

/-- Blanking one stretch leaves what is before and behind it. -/
theorem blank_append (before taken rest : Text) :
    blank (before ++ (taken ++ rest)) [⟨before.length, (before ++ taken).length⟩] =
      before ++ (taken.map blankChar ++ rest) := by
  have covered (i : Nat) : [Span.mk before.length (before ++ taken).length].any (·.covers i) = true ↔
      before.length ≤ i ∧ i < before.length + taken.length := by
    simp [Span.covers]
  rw [blank, List.mapIdx_append, List.mapIdx_append, @mapIdx_eq_map _ id before,
    @mapIdx_eq_map _ blankChar taken, @mapIdx_eq_map _ id rest, List.map_id, List.map_id]
  · intro i inside c
    have behind : ¬ (before.length ≤ i + taken.length + before.length ∧
        i + taken.length + before.length < before.length + taken.length) := by omega
    exact if_neg (mt (covered _).mp behind)
  · intro i inside c
    have within : before.length ≤ i + before.length ∧ i + before.length < before.length + taken.length := by
      omega
    exact if_pos ((covered _).mpr within)
  · intro i inside c
    have ahead : ¬ (before.length ≤ i ∧ i < before.length + taken.length) := by omega
    exact if_neg (mt (covered _).mp ahead)

end Text

namespace Script
open Pattern Text

variable {text before after : Text}

/-- The words that a module is asked for by. -/
def moduleWords : List Text := ["require".toList, "import".toList]

theorem letters_of_moduleWords {word : Text} (listed : word ∈ moduleWords) :
    word ≠ [] ∧ ∀ c ∈ word, isWord c = true := by
  rcases List.mem_pair.mp listed with rfl | rfl
  · exact ⟨by decide, List.all_eq_true.mp (by decide)⟩
  · exact ⟨by decide, List.all_eq_true.mp (by decide)⟩

theorem mem_ways_moduleWord {found : Unit × Cursor} :
    found ∈ moduleWord.ways (.between before after) ↔ ∃ word ∈ moduleWords, ∃ rest,
      before.getLast?.any isWord = false ∧ after = word ++ rest ∧ rest.head?.any isWord = false ∧
      found = ((), .between (before ++ word) rest) := by
  have choice (place : Cursor) :
      ((), place) ∈ (either (keyword "require") (keyword "import")).ways (.between before after) ↔
        ∃ word ∈ moduleWords, ((), place) ∈ (wordChars word).ways (.between before after) := by
    simp only [moduleWords, keyword, ways_either, List.mem_append, List.mem_cons, List.not_mem_nil,
      or_false, exists_eq_or_imp, exists_eq_left]
  have edge {word : Text} (listed : word ∈ moduleWords) (rest : Text) :
      boundary.ways (.between (before ++ word) rest) =
        if rest.head?.any isWord then [] else [((), .between (before ++ word) rest)] := by
    obtain ⟨nonempty, letters⟩ := letters_of_moduleWords listed
    have last : (before ++ word).getLast?.any isWord = true := by
      rw [any_getLast?_append, if_neg nonempty, List.getLast?_eq_some_getLast nonempty,
        Option.any_some, letters _ (List.getLast_mem _)]
    rw [boundary, ways_between, isBoundary, last]
    cases rest.head?.any isWord <;> rfl
  constructor
  · intro way
    obtain ⟨⟨⟩, place, named, ended⟩ := mem_ways_bind.mp way
    obtain ⟨word, listed, named⟩ := (choice place).mp named
    obtain ⟨nonempty, letters⟩ := letters_of_moduleWords listed
    obtain ⟨rest, free, rfl, rfl⟩ := (mem_ways_wordChars_letters nonempty letters).mp named
    rw [edge listed] at ended
    cases ends : rest.head?.any isWord with
    | true => simp [ends] at ended
    | false => exact ⟨word, listed, rest, free, rfl, ends, by simpa [ends] using ended⟩
  · rintro ⟨word, listed, rest, free, rfl, ends, rfl⟩
    obtain ⟨nonempty, letters⟩ := letters_of_moduleWords listed
    refine mem_ways_bind.mpr ⟨(), .between (before ++ word) rest, (choice _).mpr ⟨word, listed, ?_⟩, ?_⟩
    · exact (mem_ways_wordChars_letters nonempty letters).mpr ⟨rest, free, rfl, rfl⟩
    · rw [edge listed, ends]
      exact List.mem_singleton_self _

theorem occurs_moduleWord : moduleWord.occurs text = true ↔ ∃ word ∈ moduleWords, HasWord word text := by
  rw [occurs_iff]
  constructor
  · rintro ⟨left, right, rfl, matched⟩
    obtain ⟨way, member⟩ := List.exists_mem_of_ne_nil _ matched
    obtain ⟨word, listed, rest, free, rfl, ends, -⟩ := mem_ways_moduleWord.mp member
    exact ⟨word, listed, left, rest, rfl, free, ends⟩
  · rintro ⟨word, listed, left, rest, rfl, free, ends⟩
    have way : ((), .between (left ++ word) rest) ∈ moduleWord.ways (.between left (word ++ rest)) :=
      mem_ways_moduleWord.mpr ⟨word, listed, rest, free, rfl, ends, rfl⟩
    exact ⟨left, word ++ rest, rfl, List.ne_nil_of_mem way⟩

namespace Form

variable {form other : Form} {first second mention : Mention}

/-- Blanking a mention leaves the words outside of it. -/
theorem isModuleWordUsed_iff (member : mention ∈ form.mentions text) :
    ∃ used, isModuleWordUsed text mention.span = some used ∧
      (used = true ↔ ∃ word ∈ moduleWords, HasWordOutside word text mention.span) := by
  have fits : Text.Fits text mention.span := fun _ => (shapes_of_mem member).stop_le
  refine ⟨moduleWord.occurs (text.blank [mention.span]), ?_, ?_⟩
  · rw [isModuleWordUsed, blank?, if_pos (by simpa using fits)]
    rfl
  · obtain ⟨before, taken, rest, rfl, span, opens, edge, edge'⟩ := exists_taken member
    have some : taken.map blankChar ≠ [] := by
      rintro empty
      obtain rfl := List.map_eq_nil_iff.mp empty
      exact form.word_ne_nil (List.prefix_nil.mp opens)
    have wordless : ∀ c ∈ taken.map blankChar, isWord c = false := by
      intro c listed
      obtain ⟨d, -, rfl⟩ := List.mem_map.mp listed
      exact isWord_blankChar d
    rw [span, blank_append, occurs_moduleWord]
    refine exists_congr fun word => and_congr_right fun listed => ?_
    obtain ⟨nonempty, letters⟩ := letters_of_moduleWords listed
    rw [hasWord_gap letters nonempty some wordless, hasWordOutside_iff letters nonempty edge edge']

/-- But for re-exports, no word character comes right behind the first word of a mention. -/
theorem exists_stop (member : mention ∈ form.mentions text) (single : form ≠ reexport) :
    ∃ c rest, text.drop mention.span.start = form.word ++ c :: rest ∧ isWord c = false := by
  have behind_blanks {blanks rest : Text} {mark : Char} (blank : ∀ c ∈ blanks, isBlank c = true)
      (plain : isWord mark = false) : ∃ c others, blanks ++ mark :: rest = c :: others ∧
        isWord c = false := by
    cases blanks with
    | nil => exact ⟨mark, rest, rfl, plain⟩
    | cons b blanks => exact ⟨b, _, rfl, isWord_of_isBlank (blank b List.mem_cons_self)⟩
  obtain ⟨blanks, mark, rest, opens, blank, marked⟩ := (shapes_of_mem member).opens
  cases form with
  | reexport => exact absurd rfl single
  | clauseImport =>
      obtain ⟨found, listed, rfl⟩ := List.mem_map.mp member
      obtain ⟨before, after, place, rfl, first, span, -⟩ := first_of_mem_all listed
      obtain ⟨⟨⟩, place, started, way⟩ := mem_ways_bind.mp first.mem
      obtain ⟨-, rest, rfl, ⟨⟩⟩ := mem_ways_wordChars.mp started
      obtain ⟨⟨⟩, place, spaced, -⟩ := mem_ways_bind.mp way
      obtain ⟨gap, rest, rfl, nonempty, blank, -⟩ := mem_ways_many1.mp spaced
      obtain ⟨c, gap, rfl⟩ := List.exists_cons_of_ne_nil nonempty
      have start : found.span.start = before.length := congrArg Span.start span
      refine ⟨c, gap ++ rest, ?_, isWord_of_isBlank (blank c List.mem_cons_self)⟩
      rw [Mention.ofClauseImport, start, List.drop_left]
      rfl
  | effectImport =>
      have plain : isWord mark = false := by
        rcases isQuote_iff.mp marked with rfl | rfl <;> decide
      obtain ⟨c, others, same, stop⟩ := @behind_blanks blanks rest mark blank plain
      exact ⟨c, others, same ▸ opens, stop⟩
  | requireCall | importCall =>
      obtain rfl : mark = '(' := by simpa [isMark] using marked
      obtain ⟨c, others, same, stop⟩ := @behind_blanks blanks rest '(' blank (by decide)
      exact ⟨c, others, same ▸ opens, stop⟩

/-- A mention that is no re-export has its first word outside of each call but itself. -/
theorem hasWordOutside_of_other (member : first ∈ form.mentions text)
    (call : form = requireCall ∨ form = importCall) (member' : second ∈ other.mentions text)
    (single : other ≠ reexport) (different : first ≠ second)
    (relative : ['.'] <+: second.specifier.toList) :
    (second.span.start < first.span.start ∨ first.span.stop ≤ second.span.start) ∧
      HasWordOutside other.word text first.span := by
  obtain ⟨before, head, quote, tail, rest, anatomy⟩ := exists_anatomy member
  obtain ⟨before', head', quote', tail', rest', anatomy'⟩ := exists_anatomy member'
  obtain ⟨c, more, opens, stop⟩ := exists_stop member' single
  have whole : text = before' ++ (other.word ++ c :: more) := by
    rw [← opens, anatomy'.start, anatomy'.split]
    simp
  have stands (sides : before'.length + other.word.length ≤ first.span.start ∨
      first.span.stop ≤ before'.length) : HasWordOutside other.word text first.span :=
    ⟨before', c :: more, whole, anatomy'.edge, by simpa using stop, sides⟩
  rcases Nat.lt_trichotomy first.span.start second.span.start with later | same | earlier
  · have apart : first.span.stop ≤ second.span.start := by
      refine Nat.le_of_not_lt fun overlap => ?_
      -- Only the first word of a re-export can be part of the text of a call.
      obtain ⟨form', other', _, _, _, _, _, listed, listed', -, inside⟩ :=
        interrupts_of_overlap member member' relative later overlap
      obtain ⟨rfl, -⟩ := eq_of_start member listed rfl
      obtain ⟨rfl, -⟩ := eq_of_start member' listed' rfl
      rcases call with rfl | rfl <;> simp [headAdmits, specifierAdmits, single] at inside
    exact ⟨.inr apart, stands (.inr (anatomy'.start ▸ apart))⟩
  · exact absurd (eq_of_start member member' same).2 different
  · obtain ⟨left, rfl, -⟩ := anatomy'.exists_left anatomy earlier
    refine ⟨.inl earlier, stands (.inl ?_)⟩
    simp [anatomy.start]

end Form
end Script

/-- The binding stands for a call. -/
def Script.BindingKind.isCall : BindingKind → Bool
  | requireCall | importCall => true
  | _ => false

theorem Script.Form.call_of_kind {form : Form} {text : Text} {mention : Mention} {binding : Binding}
    (member : mention ∈ form.mentions text) (bound : binding ∈ mention.bindings)
    (call : binding.kind.isCall = true) : form = .requireCall ∨ form = .importCall := by
  have made := kind_of_mem member bound
  cases form with
  | requireCall => exact .inl rfl
  | importCall => exact .inr rfl
  | effectImport | reexport => cases made
  | clauseImport =>
      simp only [binds, List.mem_cons, List.not_mem_nil, or_false] at made
      rcases made with kind | kind | kind <;> rw [kind] at call <;> cases call

/-- The link is a call. -/
def Link.isCall (link : Link) : Bool := link.bindings.any (·.kind.isCall)

/-- The finding is about a call. -/
def UnusedBinding.isCall (finding : UnusedBinding) : Bool := finding.binding.kind.isCall

namespace Source
open Script

variable {root : Path} {extensions : List String} {source : Source} {link other : Link}
  {binding : Binding}

/-- The word `require` or `import` stands outside of a link. -/
def AsksElsewhere (source : Source) (link : Link) : Prop :=
  ∃ word ∈ moduleWords, Text.HasWordOutside word source.text link.span

/-- The link is of a form that starts with the word `require` or `import`. -/
def Asks (source : Source) (link : Link) : Prop :=
  ∃ form : Form, form ≠ .reexport ∧ link.mention ∈ form.mentions source.text

section WasRead

variable (read : source.WasRead root extensions)
include read

theorem WasRead.links_ascend :
    source.links.Pairwise fun first second => first.span.start < second.span.start := by
  obtain ⟨disk, links⟩ := read.links_eq
  rw [links]
  exact linksOf_strict disk root extensions source.path source.text

theorem WasRead.exists_call (listed : link ∈ source.links) (call : link.isCall = true) :
    ∃ form : Form, link.mention ∈ form.mentions source.text ∧
      (form = .requireCall ∨ form = .importCall) ∧ link.bindings.length = 1 := by
  obtain ⟨disk, links⟩ := read.links_eq
  obtain ⟨binding, bound, kind⟩ := List.any_eq_true.mp call
  obtain ⟨form, mentioned⟩ := exists_form (links ▸ listed)
  have calls := Form.call_of_kind mentioned bound kind
  refine ⟨form, mentioned, calls, ?_⟩
  rcases calls with rfl | rfl
  · obtain ⟨found, -, same⟩ := List.mem_map.mp mentioned
    exact congrArg (fun mention => mention.bindings.length) same.symm
  · obtain ⟨found, -, same⟩ := List.mem_map.mp mentioned
    exact congrArg (fun mention => mention.bindings.length) same.symm

theorem WasRead.asks_of_isCall (listed : link ∈ source.links) (call : link.isCall = true) :
    source.Asks link := by
  obtain ⟨form, mentioned, calls, -⟩ := read.exists_call listed call
  exact ⟨form, by rcases calls with rfl | rfl <;> decide, mentioned⟩

/-- A call is used where a module is asked for elsewhere. -/
theorem WasRead.call_used_iff (listed : link ∈ source.links) (call : binding.kind.isCall = true) :
    ∃ used, isBindingUsed source.text link.span binding = .ok used ∧
      (used = true ↔ source.AsksElsewhere link) := by
  obtain ⟨disk, links⟩ := read.links_eq
  obtain ⟨form, mentioned⟩ := exists_form (links ▸ listed)
  obtain ⟨used, verdict, outside⟩ := Form.isModuleWordUsed_iff mentioned
  have judged : isModuleWordUsed source.text link.span = some used := verdict
  refine ⟨used, ?_, outside⟩
  unfold isBindingUsed
  rw [judged]
  cases kind : binding.kind with
  | requireCall | importCall => rfl
  | wholeModule | defaultExport | named | unrecognized =>
      rw [kind] at call
      cases call

/-- Another link that is no re-export starts outside of a call, and makes it used. -/
theorem WasRead.asksElsewhere (listed : link ∈ source.links) (call : link.isCall = true)
    (listed' : other ∈ source.links) (asks : source.Asks other) (different : other ≠ link) :
    (other.span.start < link.span.start ∨ link.span.stop ≤ other.span.start) ∧
      source.AsksElsewhere link := by
  obtain ⟨form, mentioned, calls, -⟩ := read.exists_call listed call
  obtain ⟨form', single, mentioned'⟩ := asks
  obtain ⟨disk, links⟩ := read.links_eq
  have starts : link.mention ≠ other.mention := by
    intro same
    have distinct : (source.links.map fun link => link.span.start).Nodup :=
      List.pairwise_map.mpr (read.links_ascend.imp Nat.ne_of_lt)
    refine different (List.inj_on_of_nodup_map distinct listed' listed ?_)
    exact congrArg (fun mention => mention.span.start) same.symm
  obtain ⟨outside, word⟩ := Form.hasWordOutside_of_other mentioned calls mentioned' single starts
    (relative_of_mem (links ▸ listed'))
  refine ⟨outside, form'.word, ?_, word⟩
  cases form' <;> first | exact absurd rfl single | decide

/-- A link has at most one unused call, and none if a module is asked for elsewhere. -/
theorem WasRead.unused_calls (listed : link ∈ source.links) :
    ((source.unusedOf link).filter (·.kind.isCall)).length ≤ 1 ∧
      (link.isCall = true → source.AsksElsewhere link →
        (source.unusedOf link).filter (·.kind.isCall) = []) ∧
      (link.isCall = false → (source.unusedOf link).filter (·.kind.isCall) = []) := by
  have none (idle : link.isCall = false) : (source.unusedOf link).filter (·.kind.isCall) = [] := by
    refine List.filter_eq_nil_iff.mpr fun binding unused kind => ?_
    have call : link.isCall = true :=
      List.any_eq_true.mpr ⟨binding, (List.mem_filter.mp unused).1, kind⟩
    rw [idle] at call
    cases call
  refine ⟨?_, ?_, none⟩
  · cases call : link.isCall with
    | false => simp [none call]
    | true =>
        obtain ⟨-, -, -, single⟩ := read.exists_call listed call
        calc ((source.unusedOf link).filter (·.kind.isCall)).length
            ≤ (source.unusedOf link).length := List.length_filter_le _ _
          _ ≤ link.bindings.length := List.length_filter_le _ _
          _ = 1 := single
  · intro call elsewhere
    refine List.filter_eq_nil_iff.mpr fun binding unused kind => ?_
    obtain ⟨used, verdict, outside⟩ := read.call_used_iff listed kind
    have idle := (List.mem_filter.mp unused).2
    rw [uses, verdict, outside.mpr elsewhere] at idle
    cases idle

end WasRead

/-- The findings about the calls of a source. -/
def unusedCalls (source : Source) : List UnusedBinding :=
  source.unusedBindings.filter UnusedBinding.isCall

theorem unusedCalls_eq (source : Source) :
    source.unusedCalls = source.links.flatMap fun link =>
      ((source.unusedOf link).filter (·.kind.isCall)).map
        (ImportCheck.bindingFinding source link) := by
  rw [unusedCalls, unusedBindings, List.filter_flatMap]
  refine congrArg (List.flatMap · source.links) (funext fun link => ?_)
  rw [List.filter_map]
  rfl

theorem length_flatMap_le_one {α β : Type} {list : List α} {f : α → List β}
    (each : ∀ a ∈ list, (f a).length ≤ 1) (pairs : list.Pairwise fun a b => f a = [] ∨ f b = []) :
    (list.flatMap f).length ≤ 1 := by
  induction list with
  | nil => simp
  | cons a list ih =>
      obtain ⟨apart, pairs⟩ := List.pairwise_cons.mp pairs
      by_cases none : f a = []
      · rw [List.flatMap_cons, none, List.nil_append]
        exact ih (fun b member => each b (List.mem_cons_of_mem _ member)) pairs
      · have others : list.flatMap f = [] := by
          refine List.flatMap_eq_nil_iff.mpr fun b member => ?_
          exact (apart b member).resolve_left none
        rw [List.flatMap_cons, others, List.append_nil]
        exact each a List.mem_cons_self

theorem WasRead.calls_apart (read : source.WasRead root extensions) :
    (source.links.filter Link.isCall).Pairwise fun first second =>
      first.span.stop ≤ second.span.start := by
  refine (read.links_ascend.filter Link.isCall).imp_of_mem fun {first second} listed listed' later => ?_
  obtain ⟨listed, call⟩ := List.mem_filter.mp listed
  obtain ⟨listed', call'⟩ := List.mem_filter.mp listed'
  have different : second ≠ first := by
    rintro rfl
    omega
  obtain ⟨before | behind, -⟩ :=
    read.asksElsewhere listed call listed' (read.asks_of_isCall listed' call') different
  · omega
  · exact behind

/-- Of two calls each makes the other used, so at most one of a source is unused. -/
theorem WasRead.unusedCalls_le (read : source.WasRead root extensions) :
    source.unusedCalls.length ≤ 1 := by
  rw [unusedCalls_eq]
  refine length_flatMap_le_one ?_ ?_
  · intro link listed
    rw [List.length_map]
    exact (read.unused_calls listed).1
  · refine read.links_ascend.imp_of_mem fun {first second} listed listed' later => ?_
    rw [List.map_eq_nil_iff, List.map_eq_nil_iff]
    obtain ⟨-, elsewhere, idle⟩ := read.unused_calls listed
    cases call : first.isCall with
    | false => exact .inl (idle call)
    | true =>
        cases call' : second.isCall with
        | false => exact .inr ((read.unused_calls listed').2.2 call')
        | true =>
            refine .inl (elsewhere call ?_)
            have different : second ≠ first := by
              rintro rfl
              omega
            exact (read.asksElsewhere listed call listed' (read.asks_of_isCall listed' call')
              different).2

/-- A call and another link that asks for a module leave no call unused. -/
theorem WasRead.unusedCalls_eq_nil (read : source.WasRead root extensions)
    (listed : link ∈ source.links) (call : link.isCall = true) (listed' : other ∈ source.links)
    (asks : source.Asks other) (different : other ≠ link) : source.unusedCalls = [] := by
  rw [unusedCalls_eq]
  refine List.flatMap_eq_nil_iff.mpr fun each member => ?_
  rw [List.map_eq_nil_iff]
  obtain ⟨-, elsewhere, idle⟩ := read.unused_calls member
  cases kind : each.isCall with
  | false => exact idle kind
  | true =>
      refine elsewhere kind ?_
      by_cases same : each = link
      · subst same
        exact (read.asksElsewhere member kind listed' asks different).2
      · exact (read.asksElsewhere member kind listed (read.asks_of_isCall listed call)
          (Ne.symm same)).2

end Source

/-- The findings about one of several sources are its own. -/
theorem filter_flatMap_unusedBindings {sources : List Source} {source : Source}
    (distinct : (sources.map Source.path).Nodup) (listed : source ∈ sources) :
    ((sources.flatMap Source.unusedBindings).filter fun finding =>
      finding.file = source.path ∧ finding.isCall) = source.unusedCalls := by
  have own (other : Source) : (other.unusedBindings.filter fun finding =>
      finding.file = source.path ∧ finding.isCall) =
        if other.path = source.path then other.unusedCalls else [] := by
    have file : ∀ finding ∈ other.unusedBindings, finding.file = other.path := by
      intro finding member
      obtain ⟨link, -, found⟩ := List.mem_flatMap.mp member
      obtain ⟨binding, -, rfl⟩ := List.mem_map.mp found
      rfl
    split
    · rename_i same
      refine List.filter_congr fun finding member => ?_
      simp [file finding member, same]
    · rename_i different
      refine List.filter_eq_nil_iff.mpr fun finding member => ?_
      simp [file finding member, different]
  induction sources with
  | nil => cases listed
  | cons first others ih =>
      obtain ⟨fresh, distinct⟩ := List.nodup_cons.mp distinct
      rw [List.flatMap_cons, List.filter_append, own]
      rcases List.mem_cons.mp listed with rfl | later
      · have elsewhere : ∀ other ∈ others, other.path ≠ source.path := fun other member same =>
          fresh (same ▸ List.mem_map_of_mem member)
        rw [if_pos rfl, List.filter_flatMap, List.flatMap_eq_nil_iff.mpr, List.append_nil]
        intro other member
        rw [own, if_neg (elsewhere other member)]
      · have different : first.path ≠ source.path := fun same =>
          fresh (same ▸ List.mem_map_of_mem later)
        rw [if_neg different, List.nil_append, ih distinct later]

/-- Whether a call is used is decided by the words `require` and `import` outside of it. So calls are
apart, a file has at most one unused call, and none if it has a call and asks for a module elsewhere. -/
theorem Codebase.Session.calls_used_elsewhere (codebase : Codebase) (history : List Moment) :
    ∃ session, (Session.start codebase).run history = .ok session ∧
      (∀ source ∈ session.codebase.sources,
        (∀ link ∈ source.links, ∀ binding ∈ link.bindings, binding.kind.isCall = true →
          ∃ used, Script.isBindingUsed source.text link.span binding = .ok used ∧
            (used = true ↔ source.AsksElsewhere link)) ∧
        (source.links.filter Link.isCall).Pairwise fun first second =>
          first.span.stop ≤ second.span.start) ∧
      ∀ disk other, ∀ sources ⊆ session.codebase.sources, (sources.map Source.path).Nodup →
        ∃ check, checkImports disk sources other = .ok check ∧ ∀ source ∈ sources,
          (check.bindings.filter fun finding =>
            finding.file = source.path ∧ finding.isCall).length ≤ 1 ∧
          ∀ link ∈ source.links, link.isCall = true → ∀ other ∈ source.links, source.Asks other →
            other ≠ link →
            (other.span.start < link.span.start ∨ link.span.stop ≤ other.span.start) ∧
            (check.bindings.filter fun finding =>
              finding.file = source.path ∧ finding.isCall) = [] := by
  obtain ⟨session, ran, read⟩ := Session.run_wasRead codebase history
  refine ⟨session, ran, fun source loaded => ⟨?_, ?_⟩, ?_⟩
  · intro link listed binding bound call
    exact (read source loaded).call_used_iff listed call
  · exact (read source loaded).calls_apart
  · intro disk other sources loaded distinct
    obtain ⟨check, checked, records⟩ := checkImports_records disk other fun source member =>
      (read source (loaded member)).isSound
    refine ⟨check, checked, fun source member => ?_⟩
    have genuine := read source (loaded member)
    rw [records.bindings, List.nil_append, filter_flatMap_unusedBindings distinct member]
    refine ⟨genuine.unusedCalls_le, fun link listed call other listed' asks different => ⟨?_, ?_⟩⟩
    · exact (genuine.asksElsewhere listed call listed' asks different).1
    · exact genuine.unusedCalls_eq_nil listed call listed' asks different

/-- One module, called for in two ways. -/
def calledTwice : Text := "require('./b')\nimport('./b')\n".toList

def calledTwiceDisk : Disk :=
  ((default : Disk).put (.parse "/b.ts") []).put (.parse "/a.ts") (Text.Utf8.encode calledTwice)

def calledTwiceSource : Source :=
  .parse calledTwiceDisk (.parse "/") [".ts"] (.parse "/a.ts") (Text.Utf8.encode calledTwice)

/-- Neither call is reported, since the other one asks for a module too. -/
theorem calledTwice_used_elsewhere :
    ∃ session, ∃ link ∈ calledTwiceSource.links, ∃ other ∈ calledTwiceSource.links,
      (Codebase.Session.start (.empty (.parse "/") [".ts"])).run [⟨calledTwiceDisk, .load (.parse "/a.ts")⟩] =
        .ok session ∧ session.codebase.sources = [calledTwiceSource] ∧
      link.isCall = true ∧ calledTwiceSource.Asks other ∧ other ≠ link ∧
      link.span.stop ≤ other.span.start ∧
      (∀ binding ∈ link.bindings, binding.kind.isCall = true →
        ∃ used, Script.isBindingUsed calledTwiceSource.text link.span binding = .ok used ∧
          (used = true ↔ calledTwiceSource.AsksElsewhere link)) ∧
      ∃ check, checkImports calledTwiceDisk [calledTwiceSource] session.codebase = .ok check ∧
        (check.bindings.filter fun finding =>
          finding.file = calledTwiceSource.path ∧ finding.isCall) = [] := by
  have text : Source.textOf (Text.Utf8.encode calledTwice) = calledTwice := by decide +kernel
  have sorted : Script.mentions calledTwice = Script.mentionsByForm calledTwice :=
    List.mergeSort_of_pairwise (by decide +kernel)
  obtain ⟨link, linked, other, linked', call, mentioned, different, behind⟩ :
      ∃ link ∈ calledTwiceSource.links, ∃ other ∈ calledTwiceSource.links, link.isCall = true ∧
        other.mention ∈ Script.Form.importCall.mentions calledTwiceSource.text ∧ other ≠ link ∧
        link.span.stop ≤ other.span.start := by
    simp only [calledTwiceSource, Source.parse, text, Source.linksOf, sorted]
    decide +kernel
  obtain ⟨session, ran, decided, checks⟩ := Codebase.Session.calls_used_elsewhere
    (.empty (.parse "/") [".ts"])
    [⟨calledTwiceDisk, .load (.parse "/a.ts")⟩]
  have there : calledTwiceDisk.node (.parse "/a.ts") =
      .ok (.file (Text.Utf8.encode calledTwice)) := by decide +kernel
  obtain ⟨session', ran', sources⟩ := Codebase.Session.run_load there
  obtain rfl : session = session' := Except.ok.inj (ran.symm.trans ran')
  have loaded : calledTwiceSource ∈ session.codebase.sources := sources ▸ List.mem_singleton_self _
  have asks : calledTwiceSource.Asks other := ⟨.importCall, by decide, mentioned⟩
  obtain ⟨check, checked, none⟩ := checks calledTwiceDisk session.codebase [calledTwiceSource]
    (by simpa using loaded) (List.nodup_singleton _)
  exact ⟨session, link, linked, other, linked', ran, sources, call, asks, different, behind,
    (decided _ loaded).1 link linked, check, checked,
    ((none _ List.mem_cons_self).2 link linked call other linked' asks different).2⟩

end ImportAudit
