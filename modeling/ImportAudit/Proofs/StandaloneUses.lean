import ImportAudit.Proofs.UsePositions

/-! Every use of a name is a place at which it stands alone. A shape that is about the text right before or
behind the name matches exactly where that text is as the shape says; the other shapes end in the name, and
their other parts only move forward within the text. -/
namespace ImportAudit.Script
open Pattern Text

/-- A name stands alone between two pieces of text: no identifier character touches it, and no dot
comes before it. -/
structure Alone (before after : Text) : Prop where
  free : before.getLast?.any (fun c => isIdentifier c || c == '.') = false
  ends : after.head?.any isIdentifier = false

/-- The name stands alone at a position of a text. -/
def StandsAlone (name text : Text) (position : Nat) : Prop :=
  ∃ before after, text = before ++ (name ++ after) ∧ before.length = position ∧ Alone before after

namespace Usage

/-- The shapes about the text right before or behind the name. -/
def adjacent : List Usage := all.take 8

/-- What comes right before the name, behind some text. -/
def Leads : Usage → Text → Text → Prop
  | assignmentSource, before, lead => ∃ gap, lead = '=' :: gap ∧ (∀ c ∈ gap, isBlank c = true) ∧
      before.getLast?.any (fun c => c == '=' || c == '!' || c == '<' || c == '>') = false
  | destructuring, _, lead => ∃ c gap gap', lead = c :: (gap ++ '=' :: gap') ∧ (c = '}' ∨ c = ']') ∧
      (∀ c ∈ gap, isBlank c = true) ∧ ∀ c ∈ gap', isBlank c = true
  | typePosition, before, lead => ∃ gap, (∀ c ∈ gap, isBlank c = true) ∧
      ((∃ c, typeMark c = true ∧ lead = c :: gap) ∨
        ∃ word ∈ typeWords, before.getLast?.any isWord = false ∧ lead = word ++ gap)
  | returned, before, lead => ∃ gap, IsGap gap ∧ before.getLast?.any isWord = false ∧
      lead = "return".toList ++ gap
  | awaited, before, lead => ∃ gap, IsGap gap ∧ before.getLast?.any isWord = false ∧
      lead = "await".toList ++ gap
  | _, _, lead => lead = []

/-- What comes right behind the name, before some text. -/
def Trails : Usage → Text → Text → Prop
  | call, trail, _ => ∃ gap, trail = gap ++ ['('] ∧ ∀ c ∈ gap, isBlank c = true
  | member, trail, rest => ∃ gap query, trail = gap ++ (query ++ ['.']) ∧
      (∀ c ∈ gap, isBlank c = true) ∧ (query = [] ∨ query = ['?']) ∧ rest.head? ≠ some '.'
  | assignmentTarget, trail, rest => ∃ gap, trail = gap ++ ['='] ∧ (∀ c ∈ gap, isBlank c = true) ∧
      rest.head?.any (fun c => c == '=' || c == '>') = false
  | _, trail, _ => trail = []

/-- The text on the two sides of a name makes a use of it. -/
def Surrounds (usage : Usage) (before after : Text) : Prop :=
  ∃ outer lead trail rest, before = outer ++ lead ∧ usage.Leads outer lead ∧
    after = trail ++ rest ∧ usage.Trails trail rest

end Usage

section Shapes

variable {α : Type} {name before after : Text} {found : Nat × Cursor}

/-- Characters of a class up to a mark that is not of it. -/
theorem mem_ways_run_one {accepts marks : Char → Bool} {next : Unit → Pattern α} {found : α × Cursor}
    (apart : ∀ c, marks c = true → accepts c = false) :
    found ∈ (run accepts >>= fun _ => one marks >>= next).ways (.between before after) ↔
      ∃ gap c rest, after = gap ++ c :: rest ∧ (∀ d ∈ gap, accepts d = true) ∧ marks c = true ∧
        found ∈ (next ()).ways (.between (before ++ gap ++ [c]) rest) := by
  constructor
  · intro way
    obtain ⟨⟨⟩, place, passed, way⟩ := mem_ways_bind.mp way
    obtain ⟨gap, rest, rfl, all, ⟨⟩⟩ := mem_ways_run passed
    obtain ⟨⟨⟩, place, marked, way⟩ := mem_ways_bind.mp way
    obtain ⟨c, rest, rfl, mark, ⟨⟩⟩ := mem_ways_one.mp marked
    exact ⟨gap, c, rest, rfl, all, mark, way⟩
  · rintro ⟨gap, c, rest, rfl, all, mark, way⟩
    have stop : ∀ d, (c :: rest).head? = some d → accepts d = false := by
      intro d next
      obtain rfl : c = d := by simpa using next
      exact apart c mark
    have passed := ways_run_append before all stop
    refine mem_ways_bind.mpr ⟨(), _, passed ▸ List.mem_singleton_self _, ?_⟩
    exact mem_ways_bind.mpr ⟨(), _, mem_ways_one.mpr ⟨c, rest, rfl, mark, rfl⟩, way⟩

/-- A name that stands alone, and what comes behind it. -/
theorem mem_ways_standalone_bind {next : Nat → Pattern Nat} :
    found ∈ (standalone name >>= next).ways (.between before after) ↔
      ∃ rest, after = name ++ rest ∧ Alone before rest ∧
        found ∈ (next before.length).ways (.between (before ++ name) rest) := by
  rw [mem_ways_bind]
  constructor
  · rintro ⟨offset, place, named, way⟩
    obtain ⟨free, rest, rfl, ends, ⟨⟩⟩ := mem_ways_standalone.mp named
    exact ⟨rest, rfl, ⟨free, ends⟩, way⟩
  · rintro ⟨rest, rfl, alone, way⟩
    exact ⟨_, _, mem_ways_standalone.mpr ⟨alone.free, rest, rfl, alone.ends, rfl⟩, way⟩

theorem mem_ways_notAfter {rejects : Char → Bool} {found : Unit × Cursor} :
    found ∈ (notAfter rejects).ways (.between before after) ↔
      before.getLast?.any rejects = false ∧ found = ((), .between before after) := by
  unfold notAfter
  cases rejected : before.getLast?.any rejects <;> simp [rejected]

/-- The place of a match of a shape: what comes before the name, the name, and what comes behind it. -/
def Usage.Fits (usage : Usage) (name before after : Text) (found : Nat × Cursor) : Prop :=
  ∃ lead trail rest, after = lead ++ (name ++ (trail ++ rest)) ∧ usage.Leads before lead ∧
    usage.Trails trail rest ∧ Alone (before ++ lead) (trail ++ rest) ∧
    found = ((before ++ lead).length, .between (before ++ (lead ++ (name ++ trail))) rest)

/-- A shape that starts with the name. -/
theorem Usage.fits_of_trail {usage : Usage} {next : Nat → Pattern Nat}
    (bare : ∀ before lead, usage.Leads before lead ↔ lead = [])
    (behind : ∀ offset before after found, found ∈ (next offset).ways (.between before after) ↔
      ∃ trail rest, after = trail ++ rest ∧ usage.Trails trail rest ∧
        found = (offset, .between (before ++ trail) rest)) :
    found ∈ (standalone name >>= next).ways (.between before after) ↔
      usage.Fits name before after found := by
  rw [mem_ways_standalone_bind]
  constructor
  · rintro ⟨_, rfl, alone, way⟩
    obtain ⟨trail, rest, rfl, trails, rfl⟩ := (behind _ _ _ _).mp way
    exact ⟨[], trail, rest, rfl, (bare _ _).mpr rfl, trails, by simpa using alone, by simp⟩
  · rintro ⟨lead, trail, rest, rfl, leads, trails, alone, rfl⟩
    obtain rfl := (bare _ _).mp leads
    refine ⟨trail ++ rest, rfl, by simpa using alone, ?_⟩
    exact (behind _ _ _ _).mpr ⟨trail, rest, rfl, trails, by simp⟩

/-- A shape that ends in the name. -/
theorem Usage.fits_of_lead {usage : Usage} {p : Pattern Nat}
    (bare : ∀ trail rest, usage.Trails trail rest ↔ trail = [])
    (ahead : ∀ before after found, found ∈ p.ways (.between before after) ↔
      ∃ lead rest, after = lead ++ rest ∧ usage.Leads before lead ∧
        found ∈ (standalone name).ways (.between (before ++ lead) rest)) :
    found ∈ p.ways (.between before after) ↔ usage.Fits name before after found := by
  rw [ahead]
  constructor
  · rintro ⟨lead, _, rfl, leads, named⟩
    obtain ⟨free, rest, rfl, ends, rfl⟩ := mem_ways_standalone.mp named
    exact ⟨lead, [], rest, rfl, leads, (bare _ _).mpr rfl, ⟨free, ends⟩, by simp⟩
  · rintro ⟨lead, trail, rest, rfl, leads, trails, alone, rfl⟩
    obtain rfl := (bare _ _).mp trails
    refine ⟨lead, name ++ rest, rfl, leads, ?_⟩
    exact mem_ways_standalone.mpr ⟨alone.free, rest, rfl, alone.ends, by simp⟩

theorem Usage.call_fits : found ∈ (call.pattern name).ways (.between before after) ↔
    call.Fits name before after found := by
  refine fits_of_trail (fun _ _ => Iff.rfl) fun offset before after found => ?_
  refine (mem_ways_run_one ?_).trans ?_
  · intro c mark
    obtain rfl : c = '(' := by simpa using mark
    decide
  · constructor
    · rintro ⟨gap, c, rest, rfl, blank, mark, way⟩
      obtain rfl : c = '(' := by simpa using mark
      obtain rfl := List.mem_singleton.mp way
      exact ⟨gap ++ ['('], rest, by simp, ⟨gap, rfl, blank⟩, by simp⟩
    · rintro ⟨_, rest, rfl, ⟨gap, rfl, blank⟩, rfl⟩
      exact ⟨gap, '(', rest, by simp, blank, rfl, by simp⟩

theorem Usage.member_fits : found ∈ (member.pattern name).ways (.between before after) ↔
    member.Fits name before after found := by
  refine fits_of_trail (fun _ _ => Iff.rfl) fun offset before after found => ?_
  rw [mem_ways_bind]
  constructor
  · rintro ⟨⟨⟩, place, access, last⟩
    obtain ⟨gap, query, rest, rfl, blank, kind, single, ⟨⟩⟩ := mem_ways_accessor.mp access
    obtain rfl := List.mem_singleton.mp last
    exact ⟨gap ++ (query ++ ['.']), rest, by simp, ⟨gap, query, rfl, blank, kind, single⟩, by simp⟩
  · rintro ⟨_, rest, rfl, ⟨gap, query, rfl, blank, kind, single⟩, rfl⟩
    refine ⟨(), .between (before ++ gap ++ query ++ ['.']) rest, mem_ways_accessor.mpr ?_, by simp⟩
    exact ⟨gap, query, rest, by simp, blank, kind, single, rfl⟩

theorem Usage.assignmentTarget_fits :
    found ∈ (assignmentTarget.pattern name).ways (.between before after) ↔
      assignmentTarget.Fits name before after found := by
  refine fits_of_trail (fun _ _ => Iff.rfl) fun offset before after found => ?_
  refine (mem_ways_run_one ?_).trans ?_
  · intro c mark
    obtain rfl : c = '=' := by simpa using mark
    decide
  · constructor
    · rintro ⟨gap, c, rest, rfl, blank, mark, way⟩
      obtain rfl : c = '=' := by simpa using mark
      obtain ⟨⟨⟩, place, plain, last⟩ := mem_ways_bind.mp way
      obtain ⟨single, ⟨⟩⟩ := mem_ways_notBefore.mp plain
      obtain rfl := List.mem_singleton.mp last
      exact ⟨gap ++ ['='], rest, by simp, ⟨gap, rfl, blank, single⟩, by simp⟩
    · rintro ⟨_, rest, rfl, ⟨gap, rfl, blank, single⟩, rfl⟩
      refine ⟨gap, '=', rest, by simp, blank, rfl, ?_⟩
      exact mem_ways_bind.mpr ⟨(), _, mem_ways_notBefore.mpr ⟨single, rfl⟩, by simp⟩

theorem Usage.assignmentSource_fits :
    found ∈ (assignmentSource.pattern name).ways (.between before after) ↔
      assignmentSource.Fits name before after found := by
  refine fits_of_lead (fun _ _ => Iff.rfl) fun before after found => ?_
  refine mem_ways_headed.trans ?_
  constructor
  · rintro ⟨-, way⟩
    obtain ⟨⟨⟩, place, plain, way⟩ := mem_ways_bind.mp way
    obtain ⟨edge, ⟨⟩⟩ := mem_ways_notAfter.mp plain
    obtain ⟨⟨⟩, place, marked, way⟩ := mem_ways_bind.mp way
    obtain ⟨c, rest, rfl, mark, ⟨⟩⟩ := mem_ways_one.mp marked
    obtain rfl : c = '=' := by simpa using mark
    obtain ⟨⟨⟩, place, blanks, way⟩ := mem_ways_bind.mp way
    obtain ⟨gap, rest, rfl, blank, ⟨⟩⟩ := mem_ways_many.mp blanks
    exact ⟨'=' :: gap, rest, rfl, ⟨gap, rfl, blank, edge⟩, by simpa using way⟩
  · rintro ⟨_, rest, rfl, ⟨gap, rfl, blank, edge⟩, way⟩
    refine ⟨rfl, mem_ways_bind.mpr ⟨(), _, mem_ways_notAfter.mpr ⟨edge, rfl⟩, ?_⟩⟩
    refine mem_ways_bind.mpr ⟨(), _, mem_ways_one.mpr ⟨'=', gap ++ rest, rfl, rfl, rfl⟩, ?_⟩
    refine mem_ways_bind.mpr ⟨(), _, mem_ways_many.mpr ⟨gap, rest, rfl, blank, rfl⟩, ?_⟩
    simpa using way

theorem Usage.destructuring_fits :
    found ∈ (destructuring.pattern name).ways (.between before after) ↔
      destructuring.Fits name before after found := by
  refine fits_of_lead (fun _ _ => Iff.rfl) fun before after found => ?_
  have equals : ∀ c, (c == '=') = true → isBlank c = false := by
    intro c mark
    obtain rfl : c = '=' := by simpa using mark
    decide
  constructor
  · intro way
    obtain ⟨⟨⟩, place, marked, way⟩ := mem_ways_bind.mp way
    obtain ⟨closer, rest, rfl, closes, ⟨⟩⟩ := mem_ways_one.mp marked
    obtain ⟨gap, c, rest, rfl, blank, mark, way⟩ := (mem_ways_run_one equals).mp way
    obtain rfl : c = '=' := by simpa using mark
    obtain ⟨⟨⟩, place, blanks, way⟩ := mem_ways_bind.mp way
    obtain ⟨gap', rest, rfl, blank', ⟨⟩⟩ := mem_ways_many.mp blanks
    exact ⟨closer :: (gap ++ '=' :: gap'), rest, by simp,
      ⟨closer, gap, gap', rfl, by simpa using closes, blank, blank'⟩, by simpa using way⟩
  · rintro ⟨_, rest, rfl, ⟨closer, gap, gap', rfl, closes, blank, blank'⟩, way⟩
    refine mem_ways_bind.mpr ⟨(), _, mem_ways_one.mpr
      ⟨closer, gap ++ '=' :: (gap' ++ rest), by simp, by simpa using closes, rfl⟩, ?_⟩
    refine (mem_ways_run_one equals).mpr ⟨gap, '=', gap' ++ rest, rfl, blank, rfl, ?_⟩
    refine mem_ways_bind.mpr ⟨(), _, mem_ways_many.mpr ⟨gap', rest, rfl, blank', rfl⟩, ?_⟩
    simpa using way

theorem Usage.typePosition_fits :
    found ∈ (typePosition.pattern name).ways (.between before after) ↔
      typePosition.Fits name before after found := by
  refine fits_of_lead (fun _ _ => Iff.rfl) fun before after found => ?_
  have initial : ∀ word ∈ typeWords, word.head?.any typeLetter = true := by decide
  constructor
  · intro way
    obtain ⟨⟨⟩, place, kind, way⟩ := mem_ways_bind.mp way
    rw [ways_either, List.mem_append] at kind
    rcases kind with mark | headed
    · obtain ⟨c, rest, rfl, marks, ⟨⟩⟩ := mem_ways_one.mp mark
      obtain ⟨⟨⟩, place, blanks, way⟩ := mem_ways_bind.mp way
      obtain ⟨gap, rest, rfl, blank, ⟨⟩⟩ := mem_ways_many.mp blanks
      exact ⟨c :: gap, rest, rfl, ⟨gap, blank, .inl ⟨c, marks, rfl⟩⟩, by simpa using way⟩
    · obtain ⟨p, listed, matched⟩ := mem_ways_anyOf.mp (mem_ways_headed.mp headed).2
      obtain ⟨word, among, rfl⟩ := List.mem_map.mp listed
      obtain ⟨rest, edge, rfl, rfl⟩ := (mem_ways_wordChars_letters
        (typeWords_heralds.nonempty word among) (typeWords_heralds.letters word among)).mp matched
      obtain ⟨⟨⟩, place, blanks, way⟩ := mem_ways_bind.mp way
      obtain ⟨gap, rest, rfl, blank, ⟨⟩⟩ := mem_ways_many.mp blanks
      exact ⟨word ++ gap, rest, by simp, ⟨gap, blank, .inr ⟨word, among, edge, rfl⟩⟩,
        by simpa using way⟩
  · rintro ⟨_, rest, rfl, ⟨gap, blank, ⟨c, marks, rfl⟩ | ⟨word, among, edge, rfl⟩⟩, way⟩
    · refine mem_ways_bind.mpr ⟨(), .between (before ++ [c]) (gap ++ rest), ?_, ?_⟩
      · rw [ways_either, List.mem_append]
        exact .inl (mem_ways_one.mpr ⟨c, gap ++ rest, rfl, marks, rfl⟩)
      · refine mem_ways_bind.mpr ⟨(), _, mem_ways_many.mpr ⟨gap, rest, rfl, blank, rfl⟩, ?_⟩
        simpa using way
    · refine mem_ways_bind.mpr ⟨(), .between (before ++ word) (gap ++ rest), ?_, ?_⟩
      · rw [ways_either, List.mem_append]
        refine .inr (mem_ways_headed.mpr ⟨?_, mem_ways_anyOf.mpr ⟨_, List.mem_map_of_mem among, ?_⟩⟩)
        · rw [List.append_assoc, List.head?_append_of_ne_nil _ (typeWords_heralds.nonempty word among)]
          exact initial word among
        · exact (mem_ways_wordChars_letters (typeWords_heralds.nonempty word among)
            (typeWords_heralds.letters word among)).mpr ⟨gap ++ rest, edge, by simp, rfl⟩
      · refine mem_ways_bind.mpr ⟨(), _, mem_ways_many.mpr ⟨gap, rest, rfl, blank, rfl⟩, ?_⟩
        simpa using way

/-- A keyword, blanks and the name. -/
theorem mem_ways_announced {word : String} (nonempty : word.toList ≠ [])
    (letters : ∀ c ∈ word.toList, isWord c = true) (before after : Text) (found : Nat × Cursor) :
    found ∈ (keyword word >>= fun _ => blanks1 >>= fun _ => standalone name).ways
        (.between before after) ↔
      ∃ lead rest, after = lead ++ rest ∧
        (∃ gap, IsGap gap ∧ before.getLast?.any isWord = false ∧ lead = word.toList ++ gap) ∧
        found ∈ (standalone name).ways (.between (before ++ lead) rest) := by
  constructor
  · intro way
    obtain ⟨⟨⟩, place, first, way⟩ := mem_ways_bind.mp way
    obtain ⟨rest, edge, rfl, rfl⟩ := (mem_ways_wordChars_letters nonempty letters).mp first
    obtain ⟨⟨⟩, place, blanks, way⟩ := mem_ways_bind.mp way
    obtain ⟨gap, rest, rfl, some, blank, ⟨⟩⟩ := mem_ways_many1.mp blanks
    exact ⟨word.toList ++ gap, rest, by simp, ⟨gap, ⟨some, blank⟩, edge, rfl⟩, by simpa using way⟩
  · rintro ⟨_, rest, rfl, ⟨gap, separated, edge, rfl⟩, way⟩
    refine mem_ways_bind.mpr ⟨(), _, (mem_ways_wordChars_letters nonempty letters).mpr
      ⟨gap ++ rest, edge, by simp, rfl⟩, ?_⟩
    refine mem_ways_bind.mpr ⟨(), _, mem_ways_many1.mpr
      ⟨gap, rest, rfl, separated.1, separated.2, rfl⟩, ?_⟩
    simpa using way

theorem Usage.returned_fits : found ∈ (returned.pattern name).ways (.between before after) ↔
    returned.Fits name before after found :=
  fits_of_lead (fun _ _ => Iff.rfl)
    (mem_ways_announced (by decide) (List.all_eq_true.mp (by decide)))

theorem Usage.awaited_fits : found ∈ (awaited.pattern name).ways (.between before after) ↔
    awaited.Fits name before after found :=
  fits_of_lead (fun _ _ => Iff.rfl)
    (mem_ways_announced (by decide) (List.all_eq_true.mp (by decide)))

/-- A shape about the text next to the name matches where that text is as the shape says. -/
theorem Usage.mem_ways_iff {usage : Usage} (beside : usage ∈ adjacent) :
    found ∈ (usage.pattern name).ways (.between before after) ↔
      usage.Fits name before after found := by
  cases usage with
  | call => exact call_fits
  | member => exact member_fits
  | assignmentTarget => exact assignmentTarget_fits
  | assignmentSource => exact assignmentSource_fits
  | destructuring => exact destructuring_fits
  | typePosition => exact typePosition_fits
  | returned => exact returned_fits
  | awaited => exact awaited_fits
  | routeArgument | reexported => exact absurd beside (by decide)

end Shapes

section Locating

variable {α : Type} {name : Text}

theorem manyUntil_advances (accepts : Char → Bool) (holds : Option Char → Text → Bool) :
    (manyUntil accepts holds).Advances := by
  intro before after found member
  rw [ways_manyUntil, List.mem_reverse] at member
  obtain ⟨place, listed, rfl⟩ := List.mem_map.mp member
  obtain ⟨taken, rest, rfl, -, rfl⟩ := Cursor.mem_through.mp (List.mem_of_mem_filter listed)
  exact ⟨taken, rest, rfl, rfl⟩

/-- Steps that move forward add up. -/
theorem upTo_advances {step : Cursor → Option Cursor}
    (forward : ∀ before after place, step (.between before after) = some place →
      ∃ taken rest, after = taken ++ rest ∧ place = .between (before ++ taken) rest) (limit : Nat) :
    (upTo step limit).Advances := by
  induction limit with
  | zero => exact .pure ()
  | succ limit ih =>
      intro before after found member
      unfold ways upTo at member
      rw [Ways.toList_way] at member
      rcases List.mem_cons.mp member with rfl | later
      · exact ⟨[], after, rfl, by simp⟩
      · cases moved : step (.between before after) with
        | none => simp [moved] at later
        | some place =>
            obtain ⟨taken, middle, rfl, rfl⟩ := forward before after place moved
            have deeper : found ∈ (upTo step limit).ways (.between (before ++ taken) middle) := by
              simpa [ways, moved] using later
            obtain ⟨more, rest, rfl, further⟩ := ih _ _ found deeper
            exact ⟨taken ++ more, rest, by simp, by simp [further]⟩

theorem fewTimes_advances {p : Pattern Unit} (advances : p.Advances) : (fewTimes p).Advances := by
  intro before after found member
  refine upTo_advances ?_ after.length before after found member
  intro before after place moved
  obtain ⟨⟨⟨⟩, next⟩, first, rfl⟩ := Option.map_eq_some_iff.mp moved
  rw [Ways.first?_eq_head?] at first
  exact advances before after _ (List.mem_of_head? first)

/-- Every match has as its value the offset of the name, which stands alone there. -/
def Locates (name : Text) (p : Pattern Nat) : Prop :=
  ∀ before after found, found ∈ p.ways (.between before after) → ∃ lead rest,
    after = lead ++ (name ++ rest) ∧ Alone (before ++ lead) rest ∧ found.1 = (before ++ lead).length

namespace Locates

theorem standalone (name : Text) : Locates name (standalone name) := by
  intro before after found member
  obtain ⟨free, rest, rfl, ends, rfl⟩ := mem_ways_standalone.mp member
  exact ⟨[], rest, rfl, ⟨by simpa using free, ends⟩, by simp⟩

theorem later {p : Pattern α} {next : α → Pattern Nat} (advances : p.Advances)
    (located : ∀ a, Locates name (next a)) : Locates name (p >>= next) := by
  intro before after found member
  obtain ⟨a, place, start, finish⟩ := mem_ways_bind.mp member
  obtain ⟨taken, middle, rfl, moved⟩ := advances before after _ start
  obtain rfl : place = .between (before ++ taken) middle := moved
  obtain ⟨lead, rest, rfl, alone, value⟩ := located a _ _ found finish
  exact ⟨taken ++ lead, rest, by simp, by simpa using alone, by simpa using value⟩

end Locates

theorem Usage.locates (usage : Usage) (name : Text) : Locates name (usage.pattern name) := by
  have last : Locates name (standalone name) := .standalone name
  by_cases beside : usage ∈ adjacent
  · intro before after found member
    obtain ⟨lead, trail, rest, rfl, -, -, alone, rfl⟩ := (mem_ways_iff beside).mp member
    exact ⟨lead, trail ++ rest, rfl, alone, rfl⟩
  · cases usage with
    | routeArgument =>
        have piece : Usage.argumentPiece.Advances :=
          .either (.one _) (.bind (.one _) fun _ => .bind (.run _) fun _ => .one _)
        have methods : (anyOf (routeMethods.map chars)).Advances := by
          apply anyOf_advances
          intro p listed
          obtain ⟨text, -, rfl⟩ := List.mem_map.mp listed
          exact .chars text
        exact .later (.one _) fun _ => .later methods fun _ => .later (.run _) fun _ =>
          .later (.one _) fun _ => .later (fewTimes_advances piece) fun _ => last
    | reexported =>
        have gap : blanks1.Advances := .bind (.one _) fun _ => .many _
        refine .later (.wordChars _) fun _ => .later (.either ?_ ?_) fun _ => last
        · exact .bind (.bind (.one _) fun _ => .run _) fun _ => .bind (.chars _) fun _ => gap
        · exact .bind (.run _) fun _ => .bind (.one _) fun _ => manyUntil_advances _ _
    | _ => exact absurd (by decide) beside

/-- Every use is a place at which the name stands alone. -/
theorem Usage.standsAlone_of_mem {usage : Usage} {text : Text} {position : Nat}
    (member : position ∈ usage.positions name text) : StandsAlone name text position := by
  obtain ⟨found, listed, rfl⟩ := List.mem_map.mp member
  obtain ⟨before, after, place, rfl, first, -⟩ := first_of_mem_all listed
  obtain ⟨lead, rest, rfl, alone, value⟩ := usage.locates name before after _ first.mem
  exact ⟨before ++ lead, rest, by simp, value.symm, alone⟩

end Locating
end ImportAudit.Script
