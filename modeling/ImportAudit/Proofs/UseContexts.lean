import ImportAudit.Proofs.NameOrder
import ImportAudit.Proofs.SearchCoverage
import ImportAudit.Proofs.StandaloneUses

/-! Searches for a use by the text right before or behind the name. For a name of letters that is not one of
the words that announce a use, such a search misses no place: besides the name, a match takes marks and
blanks, or one of these words, and none of them holds another place at which the name stands alone. -/
namespace ImportAudit.Script
open Pattern Text

/-- The words behind which a name is used. -/
def Usage.announcers : List Text := typeWords ++ ["return".toList, "await".toList]

/-- A name of letters that is none of the words before a use. -/
structure Unannounced (name : Text) : Prop where
  nonempty : name ≠ []
  letters : ∀ c ∈ name, isWord c = true
  other : name ∉ Usage.announcers

section Overlaps

variable {usage : Usage} {name before after lead trail rest : Text}

theorem Usage.takes_iff (beside : usage ∈ adjacent) {taken : Text} {position : Nat} :
    (usage.pattern name).Takes before taken rest position ↔ ∃ lead trail,
      taken = lead ++ (name ++ trail) ∧ usage.Leads before lead ∧ usage.Trails trail rest ∧
      Alone (before ++ lead) (trail ++ rest) ∧ position = (before ++ lead).length := by
  refine (mem_ways_iff beside).trans ?_
  constructor
  · rintro ⟨lead, trail, rest', same, leads, trails, alone, found⟩
    obtain ⟨rfl, place⟩ := Prod.mk.inj found
    obtain rfl : rest = rest' := congrArg Cursor.rest place
    obtain rfl : taken = lead ++ (name ++ trail) := by simpa [← List.append_assoc] using same
    exact ⟨lead, trail, rfl, leads, trails, alone, rfl⟩
  · rintro ⟨lead, trail, rfl, leads, trails, alone, rfl⟩
    exact ⟨lead, trail, rest, by simp, leads, trails, alone, rfl⟩

/-- Before the name come marks and blanks, or a word and blanks. -/
theorem Usage.Leads.cases (leads : usage.Leads before lead) : (∀ c ∈ lead, isWord c = false) ∨
    ∃ word ∈ announcers, ∃ gap, (∀ c ∈ gap, isBlank c = true) ∧
      before.getLast?.any isWord = false ∧ lead = word ++ gap := by
  have blanks : ∀ {gap : Text}, (∀ c ∈ gap, isBlank c = true) → ∀ c ∈ gap, isWord c = false :=
    fun blank c member => isWord_of_isBlank (blank c member)
  cases usage with
  | call | member | assignmentTarget | routeArgument | reexported =>
      obtain rfl : lead = [] := leads
      exact .inl (by simp)
  | assignmentSource =>
      obtain ⟨gap, rfl, blank, -⟩ := leads
      exact .inl (List.forall_mem_cons.mpr ⟨by decide, blanks blank⟩)
  | destructuring =>
      obtain ⟨c, gap, gap', rfl, closes, blank, blank'⟩ := leads
      refine .inl (List.forall_mem_cons.mpr ⟨?_, List.forall_mem_append.mpr
        ⟨blanks blank, List.forall_mem_cons.mpr ⟨by decide, blanks blank'⟩⟩⟩)
      rcases closes with rfl | rfl <;> decide
  | typePosition =>
      obtain ⟨gap, blank, ⟨c, marks, rfl⟩ | ⟨word, among, edge, rfl⟩⟩ := leads
      · refine .inl (List.forall_mem_cons.mpr ⟨?_, blanks blank⟩)
        simp only [typeMark, Bool.or_eq_true, beq_iff_eq] at marks
        rcases marks with ((rfl | rfl) | rfl) | rfl <;> decide
      · exact .inr ⟨word, List.mem_append_left _ among, gap, blank, edge, rfl⟩
  | returned =>
      obtain ⟨gap, separated, edge, rfl⟩ := leads
      exact .inr ⟨_, by decide, gap, separated.2, edge, rfl⟩
  | awaited =>
      obtain ⟨gap, separated, edge, rfl⟩ := leads
      exact .inr ⟨_, by decide, gap, separated.2, edge, rfl⟩

/-- Only marks and blanks come behind the name. -/
theorem Usage.Trails.wordless (trails : usage.Trails trail rest) : ∀ c ∈ trail, isIdentifier c = false := by
  have blanks : ∀ {gap : Text}, (∀ c ∈ gap, isBlank c = true) → ∀ c ∈ gap, isIdentifier c = false :=
    fun blank c member => isIdentifier_of_isBlank (blank c member)
  cases usage with
  | call =>
      obtain ⟨gap, rfl, blank⟩ := trails
      exact List.forall_mem_append.mpr ⟨blanks blank, List.forall_mem_singleton.mpr (by decide)⟩
  | member =>
      obtain ⟨gap, query, rfl, blank, kind, -⟩ := trails
      have marks : isIdentifier '.' = false ∧ isIdentifier '?' = false := by decide
      refine List.forall_mem_append.mpr ⟨blanks blank, ?_⟩
      rcases kind with rfl | rfl
      · simpa using marks.1
      · simpa using marks.symm
  | assignmentTarget =>
      obtain ⟨gap, rfl, blank, -⟩ := trails
      exact List.forall_mem_append.mpr ⟨blanks blank, List.forall_mem_singleton.mpr (by decide)⟩
  | assignmentSource | destructuring | typePosition | returned | awaited | routeArgument | reexported =>
      obtain rfl : trail = [] := trails
      simp

/-- A shape is about one side of the name. -/
theorem Usage.one_sided (usage : Usage) : (∀ before lead, usage.Leads before lead → lead = []) ∨
    ∀ trail rest, usage.Trails trail rest → trail = [] := by
  cases usage with
  | call | member | assignmentTarget | routeArgument | reexported => exact .inl fun _ _ bare => bare
  | assignmentSource | destructuring | typePosition | returned | awaited =>
      exact .inr fun _ _ bare => bare

theorem Usage.letters_of_announcers {word : Text} (among : word ∈ announcers) :
    ∀ c ∈ word, isIdentifier c = true := by
  have letters : ∀ word ∈ announcers, word.all isIdentifier = true := by decide
  exact List.all_eq_true.mp (letters word among)

/-- In a word and blanks only the word can stand for itself. -/
theorem eq_of_word_gap {word gap left right : Text} (letters : ∀ c ∈ word, isIdentifier c = true)
    (blank : ∀ c ∈ gap, isBlank c = true) (nonempty : name ≠ [])
    (proper : ∀ c ∈ name, isIdentifier c = true)
    (free : left.getLast?.any isIdentifier = false) (ends : right.head?.any isIdentifier = false)
    (same : word ++ gap = left ++ (name ++ right)) : name = word := by
  have apart : ∀ c, isIdentifier c = true → c ∉ gap := by
    intro c letter member
    rw [isIdentifier_of_isBlank (blank c member)] at letter
    cases letter
  obtain ⟨n, others, text⟩ := List.exists_cons_of_ne_nil nonempty
  rcases Text.exists_extra same with ⟨extra, -, rfl, inside⟩ | ⟨extra, rfl, within⟩
  · refine absurd ?_ (apart n (proper n (by simp [text])))
    simp [inside, text]
  · -- The name starts within the word, so at its start.
    obtain rfl : left = [] := by
      by_contra some
      have last := letters _ (List.mem_append_left extra (List.getLast_mem some))
      simp [List.getLast?_eq_some_getLast some, last] at free
    rcases Text.exists_extra within with ⟨more, some, rfl, rfl⟩ | ⟨more, rfl, inside⟩
    · obtain ⟨c, others, rfl⟩ := List.exists_cons_of_ne_nil some
      simp [letters c (by simp)] at ends
    · obtain rfl : more = [] := by
        refine List.eq_nil_iff_forall_not_mem.mpr fun c member => ?_
        refine apart c (proper c (by simp [member])) ?_
        simp [inside, member]
      simp

/-- A name that stands alone further on starts behind the end of the first. -/
theorem exists_middle {before' after' : Text} (proper : ∀ c ∈ name, isIdentifier c = true)
    (free : before'.getLast?.any (fun c => isIdentifier c || c == '.') = false)
    (same : before ++ (name ++ after) = before' ++ (name ++ after'))
    (further : before.length < before'.length) :
    ∃ middle, before' = before ++ (name ++ middle) ∧ after = middle ++ (name ++ after') := by
  rcases Text.exists_extra same with ⟨extra, some, rfl, within⟩ | ⟨extra, rfl, -⟩
  · rcases Text.exists_extra within with ⟨more, -, rfl, rfl⟩ | ⟨more, rfl, -⟩
    · exact ⟨more, rfl, rfl⟩
    · have last := proper _ (List.mem_append_left more (List.getLast_mem some))
      simp [List.getLast?_eq_some_getLast some, last] at free
  · rw [List.length_append] at further
    omega

/-- A name that stands alone is no part of what announces a use of it. -/
theorem Unannounced.not_in_lead (plain : Unannounced name) {left right : Text}
    (free : left.getLast?.any isIdentifier = false) (ends : right.head?.any isIdentifier = false) :
    ¬ usage.Leads before (left ++ (name ++ right)) := by
  intro leads
  have proper : ∀ c ∈ name, isIdentifier c = true := fun c member =>
    isIdentifier_of_isWord (plain.letters c member)
  rcases leads.cases with wordless | ⟨word, among, gap, blank, -, same⟩
  · obtain ⟨n, others, rfl⟩ := List.exists_cons_of_ne_nil plain.nonempty
    have other := wordless n (by simp)
    rw [plain.letters n (by simp)] at other
    cases other
  · have named : name = word := eq_of_word_gap (Usage.letters_of_announcers among) blank plain.nonempty
      proper free ends same.symm
    exact plain.other (named ▸ among)

theorem Usage.consumes (beside : usage ∈ adjacent) (nonempty : name ≠ []) :
    (usage.pattern name).Consumes := by
  intro before after found member
  obtain ⟨lead, trail, rest, rfl, -, -, -, rfl⟩ := (mem_ways_iff beside).mp member
  refine ⟨lead ++ (name ++ trail), rest, ?_, by simp, rfl⟩
  simp [nonempty]

theorem getLast?_of_append {left : Text}
    (free : (before ++ left).getLast?.any (fun c => isIdentifier c || c == '.') = false) :
    left.getLast?.any isIdentifier = false := by
  by_cases empty : left = []
  · simp [empty]
  · rw [List.getLast?_append_of_ne_nil _ empty] at free
    cases last : left.getLast? with
    | none => rfl
    | some c =>
        rw [last, Option.any_some, Bool.or_eq_false_iff] at free
        exact free.1

theorem head?_of_append {right : Text} (ends : (right ++ after).head?.any isIdentifier = false) :
    right.head?.any isIdentifier = false := by
  cases right with
  | nil => rfl
  | cons c right => exact ends

/-- A match that starts with the name ends before the next place at which it stands alone. -/
theorem Unannounced.not_in_trail (plain : Unannounced name) {middle right : Text} (nonempty : right ≠ [])
    (trails : usage.Trails (middle ++ right) rest) : right ++ rest ≠ name ++ after := by
  intro same
  obtain ⟨c, right, rfl⟩ := List.exists_cons_of_ne_nil nonempty
  obtain ⟨n, others, rfl⟩ := List.exists_cons_of_ne_nil plain.nonempty
  obtain ⟨rfl, -⟩ := List.cons_eq_cons.mp same
  have other := trails.wordless c (by simp)
  rw [isIdentifier_of_isWord (plain.letters c (by simp))] at other
  cases other

/-- What announces a use does not start within the name. -/
theorem Unannounced.not_across_lead (plain : Unannounced name) {left right middle : Text}
    (split : name = left ++ right) (some : left ≠ []) (others : right ≠ []) :
    ¬ usage.Leads (before ++ left) (right ++ middle) := by
  intro leads
  rcases leads.cases with wordless | ⟨-, -, -, -, edge, -⟩
  · obtain ⟨c, right, rfl⟩ := List.exists_cons_of_ne_nil others
    have other := wordless c (by simp)
    rw [plain.letters c (by simp [split])] at other
    cases other
  · have last := plain.letters (left.getLast some) (by simp [split])
    rw [List.getLast?_append_of_ne_nil _ some, List.getLast?_eq_some_getLast some, Option.any_some,
      last] at edge
    cases edge

/-- Of two matches that overlap, neither holds the name of the other besides its own, so they have the
name in common. -/
theorem Usage.unanimous (beside : usage ∈ adjacent) (plain : Unannounced name) :
    (usage.pattern name).Unanimous := by
  intro before left right rest position taken rest' position' nonempty takes same takes'
  obtain ⟨lead, trail, split, leads, trails, alone, rfl⟩ := (takes_iff beside).mp takes
  obtain ⟨lead', trail', rfl, leads', trails', alone', rfl⟩ := (takes_iff beside).mp takes'
  have proper : ∀ c ∈ name, isIdentifier c = true := fun c member =>
    isIdentifier_of_isWord (plain.letters c member)
  have whole : before ++ lead ++ (name ++ (trail ++ rest)) =
      before ++ left ++ lead' ++ (name ++ (trail' ++ rest')) := by
    calc before ++ lead ++ (name ++ (trail ++ rest))
        = before ++ (left ++ right) ++ rest := by simp [split]
      _ = before ++ left ++ (right ++ rest) := by simp
      _ = before ++ left ++ lead' ++ (name ++ (trail' ++ rest')) := by simp [same]
  rcases Nat.lt_trichotomy (before ++ lead).length (before ++ left ++ lead').length with
    further | level | nearer
  · obtain ⟨middle, apart, follows⟩ := exists_middle proper alone'.free whole further
    have reach : left ++ lead' = lead ++ (name ++ middle) := by simpa using apart
    rcases usage.one_sided with bare | bare
    · obtain rfl := bare _ _ leads
      obtain rfl := bare _ _ leads'
      obtain rfl : left = name ++ middle := by simpa using reach
      obtain rfl : middle ++ right = trail := by simpa using split
      exact absurd (by simpa using follows) (plain.not_in_trail nonempty trails)
    · obtain rfl := bare _ _ trails
      rw [List.append_nil] at split
      -- The second match starts within the first name, or before it.
      rcases Text.exists_extra split.symm with ⟨extra, some, rfl, within⟩ | ⟨extra, rfl, rfl⟩
      · obtain rfl : lead' = right ++ middle := by simpa [within] using reach
        rw [← List.append_assoc] at leads'
        exact absurd leads' (plain.not_across_lead within some nonempty)
      · obtain rfl : lead' = extra ++ (name ++ middle) := by simpa using reach
        rw [← List.append_assoc] at alone
        have ends : (middle ++ (name ++ (trail' ++ rest'))).head?.any isIdentifier = false := by
          rw [← follows]
          exact alone.ends
        exact absurd leads' (plain.not_in_lead (getLast?_of_append alone.free) (head?_of_append ends))
  · exact level
  · obtain ⟨middle, apart, follows⟩ := exists_middle proper alone.free whole.symm nearer
    obtain rfl : lead = left ++ lead' ++ (name ++ middle) := by simpa using apart
    have free : (before ++ (left ++ lead')).getLast?.any (fun c => isIdentifier c || c == '.') = false := by
      simpa using alone'.free
    have ends : (middle ++ (name ++ (trail ++ rest))).head?.any isIdentifier = false := by
      rw [← follows]
      exact alone'.ends
    exact absurd leads (plain.not_in_lead (getLast?_of_append free) (head?_of_append ends))

/-- No place is missed. -/
theorem Usage.mem_positions_iff (beside : usage ∈ adjacent) (plain : Unannounced name) {text : Text}
    {position : Nat} : position ∈ usage.positions name text ↔ ∃ before after,
      text = before ++ (name ++ after) ∧ before.length = position ∧ Alone before after ∧
      usage.Surrounds before after := by
  refine (mem_values_iff (consumes beside plain.nonempty) (unanimous beside plain)).trans ?_
  constructor
  · rintro ⟨before, taken, rest, rfl, takes⟩
    obtain ⟨lead, trail, rfl, leads, trails, alone, rfl⟩ := (takes_iff beside).mp takes
    exact ⟨before ++ lead, trail ++ rest, by simp, rfl, alone,
      before, lead, trail, rest, rfl, leads, rfl, trails⟩
  · rintro ⟨_, _, rfl, rfl, alone, outer, lead, trail, rest, rfl, leads, rfl, trails⟩
    exact ⟨outer, lead ++ (name ++ trail), rest, by simp,
      (takes_iff beside).mpr ⟨lead, trail, rfl, leads, trails, alone, rfl⟩⟩

theorem Usage.positions_increase (beside : usage ∈ adjacent) (nonempty : name ≠ []) (text : Text) :
    (usage.positions name text).Pairwise (· < ·) := by
  refine values_increase fun found listed => ?_
  obtain ⟨before, after, place, rfl, first, spans, -⟩ := first_of_mem_all listed
  obtain ⟨lead, trail, rest, rfl, -, -, -, same⟩ := (mem_ways_iff beside).mp first.mem
  obtain ⟨value, rfl⟩ := Prod.mk.inj same
  have some := List.length_pos_iff.mpr nonempty
  simp only [value, spans, Cursor.between_offset, List.length_append]
  omega

/-- A value taken apart by a pattern is assigned. -/
theorem Usage.surrounds_source (surrounds : destructuring.Surrounds before after) :
    assignmentSource.Surrounds before after := by
  obtain ⟨outer, _, trail, rest, rfl, ⟨c, gap, gap', rfl, closes, blank, blank'⟩, rfl, trails⟩ := surrounds
  have plain : ∀ d ∈ c :: gap, (d == '=' || d == '!' || d == '<' || d == '>') = false := by
    rw [List.forall_mem_cons]
    constructor
    · rcases closes with rfl | rfl <;> decide
    · intro d member
      apply Bool.eq_false_iff.mpr
      intro mark
      have space := blank d member
      simp only [Bool.or_eq_true, beq_iff_eq] at mark
      rcases mark with ((rfl | rfl) | rfl) | rfl <;> exact absurd space (by decide)
  refine ⟨outer ++ c :: gap, '=' :: gap', trail, rest, by simp, ⟨gap', rfl, blank', ?_⟩, rfl, trails⟩
  rw [List.getLast?_append_of_ne_nil _ (by simp), List.getLast?_eq_some_getLast (by simp), Option.any_some]
  exact plain _ (List.getLast_mem _)

theorem Usage.source_of_destructuring (plain : Unannounced name) {text : Text} {position : Nat}
    (member : position ∈ destructuring.positions name text) :
    position ∈ assignmentSource.positions name text := by
  obtain ⟨before, after, split, place, alone, surrounds⟩ :=
    (mem_positions_iff (by decide) plain).mp member
  exact (mem_positions_iff (by decide) plain).mpr
    ⟨before, after, split, place, alone, surrounds_source surrounds⟩

end Overlaps

theorem mem_usePositions {name text : Text} {position : Nat} :
    position ∈ usePositions name text ↔ ∃ usage : Usage, position ∈ usage.positions name text := by
  rw [usePositions, List.mem_eraseDups, List.mem_flatMap]
  constructor
  · rintro ⟨usage, -, member⟩
    exact ⟨usage, member⟩
  · rintro ⟨usage, member⟩
    exact ⟨usage, usage.mem_all, member⟩

/-- Every use of a name, of whatever shape, is a place at which it stands alone, and each such place counts
once. For a name of letters that is none of the words before a use, the shapes about the text next to
the name miss no place with such text around it, and what is taken apart is also assigned. -/
theorem uses_stand_alone (name text : Text) :
    (∀ usage : Usage, ∀ position ∈ usage.positions name text, StandsAlone name text position) ∧
    (usePositions name text).Nodup ∧
    (∀ position, position ∈ usePositions name text ↔
      ∃ usage : Usage, position ∈ usage.positions name text) ∧
    (Unannounced name →
      (∀ usage ∈ Usage.adjacent, (usage.positions name text).Pairwise (· < ·) ∧
        ∀ position, position ∈ usage.positions name text ↔ ∃ before after,
          text = before ++ (name ++ after) ∧ before.length = position ∧ Alone before after ∧
          usage.Surrounds before after) ∧
      ∀ position ∈ Usage.destructuring.positions name text,
        position ∈ Usage.assignmentSource.positions name text) := by
  refine ⟨fun usage position member => usage.standsAlone_of_mem member, nodup_eraseDups _,
    fun position => mem_usePositions, fun plain => ⟨fun usage beside => ?_, fun position member => ?_⟩⟩
  · exact ⟨usage.positions_increase beside plain.nonempty text,
      fun position => usage.mem_positions_iff beside plain⟩
  · exact Usage.source_of_destructuring plain member

def spreadCall : Text := "const {a} = load(b); return load".toList

theorem spreadCall_uses_stand_alone :
    Unannounced "load".toList ∧
    Usage.destructuring.positions "load".toList spreadCall = [12] ∧
    12 ∈ Usage.assignmentSource.positions "load".toList spreadCall ∧
    Usage.returned.positions "load".toList spreadCall = [28] ∧
    StandsAlone "load".toList spreadCall 28 := by
  have plain : Unannounced "load".toList := ⟨by decide, List.all_eq_true.mp (by decide), by decide⟩
  have taken : Usage.destructuring.positions "load".toList spreadCall = [12] := by decide +kernel
  have given : Usage.returned.positions "load".toList spreadCall = [28] := by decide +kernel
  obtain ⟨alone, -, -, complete⟩ := uses_stand_alone "load".toList spreadCall
  exact ⟨plain, taken, (complete plain).2 12 (taken ▸ List.mem_singleton_self 12), given,
    alone .returned 28 (given ▸ List.mem_singleton_self 28)⟩

end ImportAudit.Script
