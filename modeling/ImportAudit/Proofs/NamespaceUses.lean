import ImportAudit.Proofs.Blanking
import ImportAudit.Proofs.UseContexts

/-! Members of a namespace. The import statements are blanked, and a name with a dot behind it is looked
for in what is left. Names and dots are not blank, so they stand outside the statements; between the two
a statement counts as blanks do. -/
namespace ImportAudit

namespace Text

variable {spans : List Span} {offset : Nat} {text first second word : Text}

/-- No span covers a character of the piece that stands at an offset. -/
def Clear (spans : List Span) (offset : Nat) (piece : Text) : Prop :=
  ∀ i < piece.length, ¬ Span.Covered spans (offset + i)

/-- The piece at an offset is blank, apart from what the spans cover. -/
def Passable (spans : List Span) (offset : Nat) (piece : Text) : Prop :=
  ∀ i c, piece[i]? = some c → isBlank c = true ∨ Span.Covered spans (offset + i)

/-- What shows of a character at an offset. -/
def shown (spans : List Span) (offset : Nat) (c : Char) : Char :=
  if spans.any (·.covers offset) then blankChar c else c

/-- What shows of the piece at an offset. -/
def veil (spans : List Span) (offset : Nat) : Text → Text
  | [] => []
  | c :: rest => shown spans offset c :: veil spans (offset + 1) rest

theorem blank_eq_veil (text : Text) (spans : List Span) : text.blank spans = veil spans 0 text := by
  have shifted (text : Text) (offset : Nat) :
      text.mapIdx (fun i c => shown spans (i + offset) c) = veil spans offset text := by
    induction text generalizing offset with
    | nil => rfl
    | cons c rest ih =>
        rw [List.mapIdx_cons, veil, ← ih, Nat.zero_add]
        simp only [Nat.add_right_comm, Nat.add_assoc]
  exact shifted text 0

theorem veil_append (first second : Text) (offset : Nat) :
    veil spans offset (first ++ second) =
      veil spans offset first ++ veil spans (offset + first.length) second := by
  induction first generalizing offset with
  | nil => rfl
  | cons c rest ih =>
      rw [List.cons_append, veil, ih, veil, List.cons_append, List.length_cons, Nat.add_right_comm,
        Nat.add_assoc]

/-- Where the blanked text is in two pieces, the text is too. -/
theorem exists_of_veil_eq_append (same : veil spans offset text = first ++ second) :
    ∃ left right, text = left ++ right ∧ veil spans offset left = first ∧
      veil spans (offset + left.length) right = second := by
  induction first generalizing offset text with
  | nil => exact ⟨[], text, rfl, rfl, same⟩
  | cons c rest ih =>
      cases text with
      | nil => cases same
      | cons d text =>
          rw [veil, List.cons_append, List.cons.injEq] at same
          obtain ⟨left, right, rfl, before, behind⟩ := ih same.2
          refine ⟨d :: left, right, rfl, ?_, ?_⟩
          · rw [veil, same.1, before]
          · rw [List.length_cons, ← Nat.add_assoc, Nat.add_right_comm]
            exact behind

theorem isBlank_blankChar (c : Char) : isBlank (blankChar c) = true := by
  unfold blankChar
  split
  · rename_i feed
    rw [feed]
    decide
  · decide

theorem isBlank_shown_iff {c : Char} :
    isBlank (shown spans offset c) = true ↔ isBlank c = true ∨ Span.Covered spans offset := by
  rw [shown]
  by_cases covered : Span.Covered spans offset
  · rw [if_pos (Span.any_covers.mpr covered)]
    simp [isBlank_blankChar, covered]
  · rw [if_neg (mt Span.any_covers.mp covered)]
    simp [covered]

/-- A character that is not blank shows where it stands outside the spans. -/
theorem shown_eq_iff {c d : Char} (solid : isBlank d = false) :
    shown spans offset c = d ↔ c = d ∧ ¬ Span.Covered spans offset := by
  rw [shown]
  by_cases covered : Span.Covered spans offset
  · rw [if_pos (Span.any_covers.mpr covered)]
    have other : blankChar c ≠ d := by
      rintro rfl
      rw [isBlank_blankChar] at solid
      cases solid
    simp [other, covered]
  · rw [if_neg (mt Span.any_covers.mp covered)]
    simp [covered]

theorem clear_cons {c : Char} :
    Clear spans offset (c :: text) ↔ ¬ Span.Covered spans offset ∧ Clear spans (offset + 1) text := by
  unfold Clear
  rw [List.length_cons, Nat.forall_lt_succ_left]
  simp only [Nat.add_zero, Nat.add_assoc, Nat.add_comm 1]

theorem passable_cons {c : Char} :
    Passable spans offset (c :: text) ↔
      (isBlank c = true ∨ Span.Covered spans offset) ∧ Passable spans (offset + 1) text := by
  constructor
  · intro passable
    refine ⟨passable 0 c rfl, fun i d here => ?_⟩
    rw [Nat.add_assoc, Nat.add_comm 1 i]
    exact passable (i + 1) d here
  · rintro ⟨first, later⟩ i d here
    cases i with
    | zero =>
        obtain rfl : c = d := by simpa using here
        exact first
    | succ i =>
        rw [Nat.add_comm i 1, ← Nat.add_assoc]
        exact later i d here

/-- A word without blanks shows exactly where it stands and no span reaches into it. -/
theorem veil_eq_iff (solid : ∀ c ∈ word, isBlank c = false) :
    veil spans offset text = word ↔ text = word ∧ Clear spans offset word := by
  induction word generalizing offset text with
  | nil => cases text <;> simp [veil, Clear]
  | cons d word ih =>
      cases text with
      | nil => simp [veil]
      | cons c text =>
          obtain ⟨first, later⟩ : isBlank d = false ∧ ∀ c ∈ word, isBlank c = false := by
            simpa using solid
          rw [veil, List.cons.injEq, List.cons.injEq, shown_eq_iff first, ih later, clear_cons]
          exact and_and_and_comm

theorem veil_blank_iff :
    (∀ c ∈ veil spans offset text, isBlank c = true) ↔ Passable spans offset text := by
  induction text generalizing offset with
  | nil => simp [veil, Passable]
  | cons c text ih => rw [veil, List.forall_mem_cons, isBlank_shown_iff, ih, passable_cons]

/-- No character of a class without blanks shows at the end, if there is none or a span covers it. -/
theorem veil_getLast?_iff {holds : Char → Bool} (unblank : ∀ c, isBlank c = true → holds c = false) :
    (veil spans 0 text).getLast?.any holds = false ↔
      ∀ c, text.getLast? = some c → holds c = false ∨ Span.Covered spans (text.length - 1) := by
  rcases List.eq_nil_or_concat text with rfl | ⟨others, c, rfl⟩
  · simp [veil]
  · have last : holds (shown spans others.length c) = false ↔
        holds c = false ∨ Span.Covered spans others.length := by
      by_cases covered : Span.Covered spans others.length
      · simp [unblank _ (isBlank_shown_iff.mpr (.inr covered)), covered]
      · rw [shown, if_neg (mt Span.any_covers.mp covered)]
        simp [covered]
    rw [List.concat_eq_append, veil_append]
    simpa [veil] using last

theorem veil_head?_iff {mark : Char} (solid : isBlank mark = false) :
    (veil spans offset text).head? = some mark ↔
      text.head? = some mark ∧ ¬ Span.Covered spans offset := by
  cases text with
  | nil => simp [veil]
  | cons c text => simp [veil, shown_eq_iff solid]

end Text

namespace Script
open Pattern Text

variable {name before after text : Text} {spans : List Span}

/-- The text behind `before` starts with the name and the dot of a member, and the name starts there. -/
def Owns (name before after : Text) : Prop :=
  before.getLast?.any (fun c => isIdentifier c || c == '.') = false ∧
    ∃ gap query rest, after = name ++ (gap ++ (query ++ '.' :: rest)) ∧
      (∀ c ∈ gap, isBlank c = true) ∧ (query = [] ∨ query = ['?']) ∧ rest.head? ≠ some '.'

/-- A member of the name is taken outside the spans. What they cover counts as blank between the name
and the dot, and as nothing before the name and behind the dot. -/
structure OwnsOutside (spans : List Span) (name before gap query rest : Text) : Prop where
  free : ∀ c, before.getLast? = some c →
    isIdentifier c = false ∧ c ≠ '.' ∨ Span.Covered spans (before.length - 1)
  owner : Clear spans before.length name
  passed : Passable spans (before.length + name.length) gap
  kind : query = [] ∨ query = ['?']
  mark : Clear spans (before.length + name.length + gap.length) (query ++ ['.'])
  single : rest.head? = some '.' →
    Span.Covered spans (before.length + name.length + gap.length + (query ++ ['.']).length)

theorem memberAccess_ways_ne_nil :
    (memberAccess name).ways (.between before after) ≠ [] ↔ Owns name before after := by
  constructor
  · intro matched
    obtain ⟨found, way⟩ := List.exists_mem_of_ne_nil _ matched
    obtain ⟨⟨⟩, place, edge, way⟩ := mem_ways_bind.mp way
    obtain ⟨free, ⟨⟩⟩ := mem_ways_notAfter.mp edge
    obtain ⟨⟨⟩, place, named, access⟩ := mem_ways_bind.mp way
    obtain ⟨rest, rfl, ⟨⟩⟩ := mem_ways_chars.mp named
    obtain ⟨gap, query, rest, rfl, blank, kind, single, -⟩ := mem_ways_accessor.mp access
    exact ⟨free, gap, query, rest, rfl, blank, kind, single⟩
  · rintro ⟨free, gap, query, rest, rfl, blank, kind, single⟩
    have access : _ ∈ Usage.accessor.ways
        (.between (before ++ name) (gap ++ (query ++ '.' :: rest))) :=
      mem_ways_accessor.mpr ⟨gap, query, rest, rfl, blank, kind, single, rfl⟩
    have named : _ ∈ (chars name >>= fun _ => Usage.accessor).ways
        (.between before (name ++ (gap ++ (query ++ '.' :: rest)))) :=
      mem_ways_bind.mpr ⟨(), _, mem_ways_chars.mpr ⟨_, rfl, rfl⟩, access⟩
    exact List.ne_nil_of_mem
      (mem_ways_bind.mpr ⟨(), _, mem_ways_notAfter.mpr ⟨free, rfl⟩, named⟩)

/-- Behind the name there is a blank, a question mark or a dot, and so the name ends there. -/
theorem member_ways_ne_nil :
    (Usage.member.pattern name).ways (.between before after) ≠ [] ↔ Owns name before after := by
  constructor
  · intro matched
    obtain ⟨found, way⟩ := List.exists_mem_of_ne_nil _ matched
    obtain ⟨free, gap, query, rest, blank, kind, rfl, single, -⟩ := mem_ways_member way
    exact ⟨free, gap, query, rest, rfl, blank, kind, single⟩
  · rintro ⟨free, gap, query, rest, rfl, blank, kind, single⟩
    have marks : isIdentifier '?' = false ∧ isIdentifier '.' = false := by decide
    have ends : (gap ++ (query ++ ['.']) ++ rest).head?.any isIdentifier = false := by
      cases gap with
      | nil => rcases kind with rfl | rfl <;> simp [marks]
      | cons c gap =>
          refine Bool.eq_false_iff.mpr fun part => ?_
          have space := blank c List.mem_cons_self
          rw [isBlank_of_isIdentifier part] at space
          cases space
    apply List.ne_nil_of_mem
    refine Usage.member_fits.mpr ⟨[], gap ++ (query ++ ['.']), rest, by simp, rfl, ?_, ?_, rfl⟩
    · exact ⟨gap, query, rfl, blank, kind, single⟩
    · exact ⟨by simpa using free, ends⟩

theorem memberAccess_occurs (name text : Text) :
    (memberAccess name).occurs text = (Usage.member.pattern name).occurs text := by
  rw [Bool.eq_iff_iff, occurs_iff, occurs_iff]
  simp only [memberAccess_ways_ne_nil, member_ways_ne_nil]

/-- Identifiers and dots do not show where the text is blank. -/
theorem not_part_of_isBlank {c : Char} (space : isBlank c = true) :
    (isIdentifier c || c == '.') = false := by
  refine Bool.eq_false_iff.mpr fun part => ?_
  rcases Bool.or_eq_true_iff.mp part with part | dot
  · rw [isBlank_of_isIdentifier part] at space
    cases space
  · obtain rfl : c = '.' := by simpa using dot
    exact absurd space (by decide)

/-- A member that shows in the blanked text is taken outside the spans, and the other way round. -/
theorem owns_blank_iff (solid : ∀ c ∈ name, isBlank c = false) :
    (∃ left right, text.blank spans = left ++ right ∧ Owns name left right) ↔
      ∃ before gap query rest, text = before ++ (name ++ (gap ++ (query ++ '.' :: rest))) ∧
        OwnsOutside spans name before gap query rest := by
  have marks {query : Text} (kind : query = [] ∨ query = ['?']) :
      ∀ c ∈ query ++ ['.'], isBlank c = false := by
    have solid : isBlank '?' = false ∧ isBlank '.' = false := by decide
    rcases kind with rfl | rfl <;> simp [solid]
  have free_iff (before : Text) : (veil spans 0 before).getLast?.any
        (fun c => isIdentifier c || c == '.') = false ↔ ∀ c, before.getLast? = some c →
      isIdentifier c = false ∧ c ≠ '.' ∨ Span.Covered spans (before.length - 1) := by
    simpa using veil_getLast?_iff fun c => not_part_of_isBlank
  have single_iff (offset : Nat) (rest : Text) : (veil spans offset rest).head? ≠ some '.' ↔
      (rest.head? = some '.' → Span.Covered spans offset) := by
    rw [Ne, veil_head?_iff (by decide)]
    simp
  constructor
  · rintro ⟨left, right, same, free, gap, query, rest, rfl, blank, kind, single⟩
    rw [blank_eq_veil, List.append_cons] at same
    obtain ⟨before, tail, rfl, rfl, named⟩ := exists_of_veil_eq_append same
    obtain ⟨owner, tail, rfl, owned, passed⟩ := exists_of_veil_eq_append named
    obtain ⟨gap, tail, rfl, rfl, access⟩ := exists_of_veil_eq_append passed
    obtain ⟨mark, rest, rfl, marked, rfl⟩ := exists_of_veil_eq_append access
    rw [Nat.zero_add] at owned blank marked single
    obtain ⟨rfl, clear⟩ := (veil_eq_iff solid).mp owned
    obtain ⟨rfl, clear'⟩ := (veil_eq_iff (marks kind)).mp marked
    refine ⟨before, gap, query, rest, by simp, ?_⟩
    exact ⟨(free_iff _).mp free, clear, veil_blank_iff.mp blank, kind, clear', (single_iff _ _).mp single⟩
  · rintro ⟨before, gap, query, rest, rfl, outside⟩
    have owned := (veil_eq_iff solid).mpr ⟨rfl, outside.owner⟩
    have marked := (veil_eq_iff (marks outside.kind)).mpr ⟨rfl, outside.mark⟩
    refine ⟨veil spans 0 before, _, ?_, (free_iff _).mpr outside.free, _, query, _, rfl,
      veil_blank_iff.mpr outside.passed, outside.kind, (single_iff _ _).mpr outside.single⟩
    rw [blank_eq_veil, List.append_cons query '.' rest, veil_append, veil_append, veil_append,
      veil_append, Nat.zero_add, owned, marked, List.append_assoc query, List.singleton_append]

/-- The namespace is used where the search for members of a name finds one in the text with the import
statements blanked. The name and the dot of such a member stand outside every import statement, and only
blanks and import statements are between them. -/
theorem isNamespaceUsed_iff_member (text : Text) (name : Identifier) :
    isNamespaceUsed text name.text =
        some ((Usage.member.pattern name.text).occurs (text.blank (importSpans text))) ∧
      (isNamespaceUsed text name.text = some true ↔
        Usage.member.positions name.text (text.blank (importSpans text)) ≠ []) ∧
      (isNamespaceUsed text name.text = some true ↔ ∃ before gap query rest,
        text = before ++ (name.text ++ (gap ++ (query ++ '.' :: rest))) ∧
          OwnsOutside (importSpans text) name.text before gap query rest) := by
  have judged : isNamespaceUsed text name.text =
      some ((Usage.member.pattern name.text).occurs (text.blank (importSpans text))) := by
    have fits : text.blank? (importSpans text) = some (text.blank (importSpans text)) :=
      if_pos fun _ => importSpans_fit
    rw [isNamespaceUsed, fits, Option.map_some, memberAccess_occurs]
  refine ⟨judged, ?_, ?_⟩
  · have consumes : (Usage.member.pattern name.text).Consumes :=
      Usage.consumes (by decide) name.nonempty
    rw [judged, Option.some.injEq, occurs_iff_all_ne_nil consumes, Usage.positions, Ne, Ne,
      List.map_eq_nil_iff]
  · rw [judged, Option.some.injEq, occurs_iff, ← owns_blank_iff name.unbroken]
    simp only [member_ways_ne_nil]

/-- A statement between the name and the dot does not part them. -/
example : isNamespaceUsed "import * as ns from './a'\nns\nimport './b'\n?.x".toList "ns".toList =
    some true := by decide +kernel

end Script
end ImportAudit
