import ImportAudit.Proofs.Pattern

/-! What a search finds. A search from a place on passes over a stretch in which the pattern matches
nowhere, takes the preferred way at the first place that has one, and goes on behind it. The matches
come in the order in which they start. -/
namespace ImportAudit

/-- The first character of a class, and what stands before and after it, are determined. -/
theorem Text.append_cons_inj {holds : Char → Bool} {first first' rest rest' : Text} {c c' : Char}
    (same : first ++ c :: rest = first' ++ c' :: rest') (free : ∀ d ∈ first, holds d = false)
    (free' : ∀ d ∈ first', holds d = false) (held : holds c = true) (held' : holds c' = true) :
    first = first' ∧ c = c' ∧ rest = rest' := by
  induction first generalizing first' with
  | nil =>
      cases first' with
      | nil => simpa using same
      | cons d first' =>
          obtain ⟨rfl, -⟩ : c = d ∧ _ := by simpa using same
          simp [free' c List.mem_cons_self] at held
  | cons d first ih =>
      cases first' with
      | nil =>
          obtain ⟨rfl, -⟩ : d = c' ∧ _ := by simpa using same
          simp [free d List.mem_cons_self] at held'
      | cons d' first' =>
          obtain ⟨rfl, tails⟩ : d = d' ∧ first ++ c :: rest = first' ++ c' :: rest' := by
            simpa using same
          obtain ⟨rfl, rest⟩ := ih tails (fun d member => free d (List.mem_cons_of_mem _ member))
            (fun d member => free' d (List.mem_cons_of_mem _ member))
          exact ⟨rfl, rest⟩

/-- A text that starts with a word, and whose rest does not go on with a character of it, starts with it
before the rest. -/
theorem Text.exists_of_append {word body rest rest' : Text} (same : body ++ rest = word ++ rest')
    (stop : ∀ c, rest.head? = some c → c ∉ word) :
    ∃ body', body = word ++ body' ∧ rest' = body' ++ rest := by
  rcases List.append_eq_append_iff.mp same with ⟨extra, rfl, split⟩ | ⟨extra, rfl, split⟩
  · cases extra with
    | nil => exact ⟨[], by simp, by simpa using split.symm⟩
    | cons c extra => exact absurd (by simp) (stop c (by simp [split]))
  · exact ⟨extra, rfl, split⟩

namespace Pattern

variable {α : Type} {p : Pattern α} {a : α} {before after stretch rest : Text}

theorem matchAt?_eq (p : Pattern α) (cursor : Cursor) :
    p.matchAt? cursor =
      (p.ways cursor).head?.map fun found => ⟨⟨cursor.offset, found.2.offset⟩, found.1⟩ := by
  unfold matchAt? ways
  rw [Ways.first?_eq_head?]

theorem First.matchAt? {cursor place : Cursor} (first : p.First cursor a place) :
    p.matchAt? cursor = some ⟨⟨cursor.offset, place.offset⟩, a⟩ := by
  rw [matchAt?_eq, first]
  rfl

theorem First.of_matchAt? {cursor : Cursor} {found : Match α}
    (matched : p.matchAt? cursor = some found) :
    ∃ place, p.First cursor found.value place ∧ found.span = ⟨cursor.offset, place.offset⟩ := by
  rw [matchAt?_eq] at matched
  obtain ⟨⟨a, place⟩, first, rfl⟩ := Option.map_eq_some_iff.mp matched
  exact ⟨place, first, rfl⟩

theorem matchAt?_eq_none {cursor : Cursor} (fails : p.ways cursor = []) :
    p.matchAt? cursor = none := by
  rw [matchAt?_eq, fails]
  rfl

/-- The pattern matches at no place of the stretch between two pieces of text. -/
def Quiet (p : Pattern α) (before stretch rest : Text) : Prop :=
  ∀ left c right, stretch = left ++ c :: right →
    p.ways (.between (before ++ left) (c :: right ++ rest)) = []

namespace Quiet

theorem head {c : Char} (quiet : p.Quiet before (c :: stretch) rest) :
    p.ways (.between before (c :: (stretch ++ rest))) = [] := by
  simpa using quiet [] c stretch rfl

theorem tail {c : Char} (quiet : p.Quiet before (c :: stretch) rest) :
    p.Quiet (before ++ [c]) stretch rest := by
  intro left d right split
  simpa using quiet (c :: left) d right (by simp [split])

theorem cons {c : Char} (head : p.ways (.between before (c :: (stretch ++ rest))) = [])
    (tail : p.Quiet (before ++ [c]) stretch rest) : p.Quiet before (c :: stretch) rest := by
  intro left d right split
  cases left with
  | nil =>
      obtain ⟨rfl, rfl⟩ := List.cons_eq_cons.mp split
      simpa using head
  | cons e left =>
      obtain ⟨rfl, later⟩ := List.cons_eq_cons.mp split
      simpa using tail left d right later

/-- A pattern whose matches all start with characters of a class is quiet without them. -/
theorem of_heads {starts : Char → Prop}
    (heads : ∀ before c after, p.ways (.between before (c :: after)) ≠ [] → starts c)
    (absent : ∀ c ∈ stretch, ¬ starts c) : p.Quiet before stretch rest := by
  rintro left c right rfl
  by_contra matched
  exact absent c (by simp) (heads _ _ _ matched)

theorem append {second : Text} (quiet : p.Quiet before stretch (second ++ rest))
    (later : p.Quiet (before ++ stretch) second rest) : p.Quiet before (stretch ++ second) rest := by
  intro left c right split
  rcases List.append_eq_append_iff.mp split with ⟨extra, rfl, rfl⟩ | ⟨extra, rfl, tail⟩
  · simpa using later extra c right rfl
  · cases extra with
    | nil => simpa using later [] c right (by simpa using tail.symm)
    | cons d extra =>
        obtain ⟨rfl, rfl⟩ := List.cons_eq_cons.mp tail
        simpa using quiet left c extra rfl

/-- The places of a stretch and one more character are those within the stretch and at its end. -/
theorem of_places {c : Char} (fails : ∀ left right, stretch = left ++ right →
    p.ways (.between (before ++ left) (right ++ c :: rest)) = []) :
    p.Quiet before (stretch ++ [c]) rest := by
  intro left d right split
  rcases List.append_eq_append_iff.mp split with ⟨extra, rfl, last⟩ | ⟨extra, rfl, last⟩
  · obtain ⟨rfl, rfl, rfl⟩ : extra = [] ∧ d = c ∧ right = [] := by
      cases extra <;> simp_all
    simpa using fails stretch [] (by simp)
  · simpa [last] using fails left extra rfl

/-- A pattern that needs a mark, after characters that are none, is quiet up to a mark that it does
not take. -/
theorem of_mark {marks : Char → Bool} {c : Char}
    (needs : ∀ before after, p.ways (.between before after) ≠ [] → ∃ plain mark rest,
      after = plain ++ mark :: rest ∧ (∀ d ∈ plain, marks d = false) ∧ marks mark = true ∧ mark ≠ c)
    (plain : ∀ d ∈ stretch, marks d = false) (marked : marks c = true) :
    p.Quiet before (stretch ++ [c]) rest := by
  refine of_places fun left right split => ?_
  by_contra matched
  obtain ⟨first, mark, others, same, unmarked, taken, other⟩ := needs _ _ matched
  have free : ∀ d ∈ right, marks d = false := fun d member => plain d (by simp [split, member])
  exact other (Text.append_cons_inj same free unmarked marked taken).2.1.symm

end Quiet

/-- The matches from the place between two pieces of text on. -/
def allBetween (p : Pattern α) (before after : Text) : List (Match α) :=
  p.allFrom 0 before.getLast? before.length after

theorem all_eq_allBetween (p : Pattern α) (text : Text) : p.all text = p.allBetween [] text := rfl

@[simp] theorem allBetween_nil : p.allBetween before [] = [] := by
  simp [allBetween, allFrom]

theorem allBetween_pass (quiet : p.Quiet before stretch rest) :
    p.allBetween before (stretch ++ rest) = p.allBetween (before ++ stretch) rest := by
  induction stretch generalizing before with
  | nil => simp
  | cons c stretch ih =>
      have nothing : p.matchAt? ⟨before.getLast?, before.length, c :: (stretch ++ rest)⟩ = none :=
        matchAt?_eq_none quiet.head
      have later := ih quiet.tail
      rw [List.append_assoc] at later
      rw [List.cons_append, allBetween, allFrom, nothing, ← List.singleton_append, ← later]
      simp [allBetween]

theorem allBetween_eq_nil (quiet : p.Quiet before after []) : p.allBetween before after = [] := by
  have passed := allBetween_pass quiet
  simpa using passed

/-- Characters inside a match are passed without a look. -/
theorem allFrom_skip (before matched rest : Text) :
    p.allFrom matched.length before.getLast? before.length (matched ++ rest) =
      p.allBetween (before ++ matched) rest := by
  induction matched generalizing before with
  | nil => simp [allBetween]
  | cons c matched ih =>
      have later := ih (before ++ [c])
      simpa [allFrom] using later

theorem allBetween_found {matched : Text} (nonempty : matched ≠ [])
    (first : p.First (.between before (matched ++ rest)) a (.between (before ++ matched) rest)) :
    p.allBetween before (matched ++ rest) =
      ⟨⟨before.length, (before ++ matched).length⟩, a⟩ :: p.allBetween (before ++ matched) rest := by
  obtain ⟨c, matched, rfl⟩ := List.exists_cons_of_ne_nil nonempty
  have found : p.matchAt? ⟨before.getLast?, before.length, c :: (matched ++ rest)⟩ =
      some ⟨⟨before.length, (before ++ c :: matched).length⟩, a⟩ := first.matchAt?
  have later := allFrom_skip (p := p) (before ++ [c]) matched rest
  have advance : before.length < (before ++ c :: matched).length := by simp
  have inside : (before ++ c :: matched).length - (before.length + 1) = matched.length := by
    simp; omega
  rw [List.cons_append, allBetween, allFrom, found]
  simp only [advance, if_true, inside]
  simpa using later

/-- One step of the search: a character is passed, or it starts a match. -/
theorem allFrom_cons (p : Pattern α) (skip : Nat) (prev : Option Char) (offset : Nat) (c : Char)
    (rest : Text) : ∃ further, skip ≤ further + 1 ∧
      (p.allFrom skip prev offset (c :: rest) = p.allFrom further (some c) (offset + 1) rest ∨
        ∃ found place, skip = 0 ∧ p.First ⟨prev, offset, c :: rest⟩ found.value place ∧
          found.span = ⟨offset, place.offset⟩ ∧ place.offset = offset + 1 + further ∧
          p.allFrom skip prev offset (c :: rest) =
            found :: p.allFrom further (some c) (offset + 1) rest) := by
  cases skip with
  | succ skip => exact ⟨skip, Nat.le_refl _, .inl (by rw [allFrom])⟩
  | zero =>
      cases matched : p.matchAt? ⟨prev, offset, c :: rest⟩ with
      | none => exact ⟨0, Nat.zero_le _, .inl (by rw [allFrom, matched])⟩
      | some found =>
          by_cases advance : offset < found.span.stop
          · obtain ⟨place, first, span⟩ := First.of_matchAt? matched
            have stop : found.span.stop = place.offset := congrArg Span.stop span
            refine ⟨found.span.stop - (offset + 1), Nat.zero_le _,
              .inr ⟨found, place, rfl, first, span, by omega, ?_⟩⟩
            simp only [allFrom, matched, advance, if_true]
          · refine ⟨0, Nat.zero_le _, .inl ?_⟩
            simp only [allFrom, matched, advance, if_false]

theorem le_start_of_mem_allFrom {skip offset : Nat} {prev : Option Char} {text : Text}
    {found : Match α} (member : found ∈ p.allFrom skip prev offset text) :
    offset + skip ≤ found.span.start := by
  induction text generalizing skip prev offset with
  | nil => simp [allFrom] at member
  | cons c rest ih =>
      obtain ⟨further, bound, same | ⟨here, place, rfl, -, span, -, same⟩⟩ :=
        p.allFrom_cons skip prev offset c rest
      · have later := ih (same ▸ member)
        omega
      · rcases List.mem_cons.mp (same ▸ member) with rfl | later
        · exact (congrArg Span.start span).ge
        · have behind := ih later
          omega

theorem allFrom_pairwise (p : Pattern α) (skip : Nat) (prev : Option Char) (offset : Nat)
    (text : Text) :
    (p.allFrom skip prev offset text).Pairwise fun first second =>
      first.span.start < second.span.start := by
  induction text generalizing skip prev offset with
  | nil => simp [allFrom]
  | cons c rest ih =>
      obtain ⟨further, -, same | ⟨here, place, -, -, span, -, same⟩⟩ :=
        p.allFrom_cons skip prev offset c rest
      · rw [same]
        exact ih _ _ _
      · rw [same, List.pairwise_cons]
        refine ⟨fun later member => ?_, ih _ _ _⟩
        have start : here.span.start = offset := congrArg Span.start span
        have behind := le_start_of_mem_allFrom member
        omega

/-- A match starts where the one before it has ended. -/
theorem allFrom_ordered (p : Pattern α) (skip : Nat) (prev : Option Char) (offset : Nat)
    (text : Text) :
    (p.allFrom skip prev offset text).Pairwise fun first second =>
      first.span.stop ≤ second.span.start := by
  induction text generalizing skip prev offset with
  | nil => simp [allFrom]
  | cons c rest ih =>
      obtain ⟨further, -, same | ⟨here, place, -, -, span, stop, same⟩⟩ :=
        p.allFrom_cons skip prev offset c rest
      · rw [same]
        exact ih _ _ _
      · rw [same, List.pairwise_cons]
        refine ⟨fun later member => ?_, ih _ _ _⟩
        have ends : here.span.stop = place.offset := congrArg Span.stop span
        have behind := le_start_of_mem_allFrom member
        omega

theorem first_of_mem_allFrom {skip : Nat} {found : Match α}
    (member : found ∈ p.allFrom skip before.getLast? before.length after) :
    ∃ passed rest place, after = passed ++ rest ∧
      p.First (.between (before ++ passed) rest) found.value place ∧
      found.span = ⟨(before ++ passed).length, place.offset⟩ ∧
      (before ++ passed).length < place.offset := by
  induction after generalizing skip before with
  | nil => simp [allFrom] at member
  | cons c rest ih =>
      -- A later match is one of a search that starts a character further on.
      have behind : ∀ further, found ∈ p.allFrom further (some c) (before.length + 1) rest →
          ∃ passed rest' place, c :: rest = passed ++ rest' ∧
            p.First (.between (before ++ passed) rest') found.value place ∧
            found.span = ⟨(before ++ passed).length, place.offset⟩ ∧
            (before ++ passed).length < place.offset := by
        intro further later
        obtain ⟨passed, rest', place, split, first, span, advance⟩ :=
          @ih (before ++ [c]) further (by simpa using later)
        rw [List.append_assoc, List.singleton_append] at first span advance
        exact ⟨c :: passed, rest', place, by simp [split], first, span, advance⟩
      obtain ⟨further, -, same | ⟨here, place, -, first, span, advance, same⟩⟩ :=
        p.allFrom_cons skip before.getLast? before.length c rest
      · exact behind further (same ▸ member)
      · rcases List.mem_cons.mp (same ▸ member) with rfl | later
        · have further : before.length < place.offset := by omega
          exact ⟨[], c :: rest, place, rfl, by simpa [Cursor.between] using first,
            by simpa using span, by simpa using further⟩
        · exact behind further later

/-- A match that a search finds is the preferred way at its place, and it takes some text. -/
theorem first_of_mem_all {text : Text} {found : Match α} (member : found ∈ p.all text) :
    ∃ before after place, text = before ++ after ∧
      p.First (.between before after) found.value place ∧
      found.span = ⟨before.length, place.offset⟩ ∧ before.length < place.offset :=
  @first_of_mem_allFrom _ p [] text 0 found member

/-- The leftmost match from the place between two pieces of text on. -/
def firstBetween (p : Pattern α) (before after : Text) : Option (Match α) :=
  p.firstFrom before.getLast? before.length after

theorem firstBetween_found {place : Cursor} (first : p.First (.between before after) a place) :
    p.firstBetween before after = some ⟨⟨before.length, place.offset⟩, a⟩ := by
  have found : p.matchAt? ⟨before.getLast?, before.length, after⟩ = _ := first.matchAt?
  rw [firstBetween, firstFrom.eq_def, found]
  rfl

theorem firstBetween_pass (quiet : p.Quiet before stretch rest) :
    p.firstBetween before (stretch ++ rest) = p.firstBetween (before ++ stretch) rest := by
  induction stretch generalizing before with
  | nil => simp
  | cons c stretch ih =>
      have nothing : p.matchAt? ⟨before.getLast?, before.length, c :: (stretch ++ rest)⟩ = none :=
        matchAt?_eq_none quiet.head
      have later := ih quiet.tail
      rw [List.append_assoc] at later
      rw [List.cons_append, firstBetween, firstFrom, nothing, ← List.singleton_append, ← later]
      simp [firstBetween]

theorem first?_eq_some {lead : Text} {place : Cursor} (quiet : p.Quiet [] lead after)
    (first : p.First (.between lead after) a place) :
    p.first? (lead ++ after) = some ⟨⟨lead.length, place.offset⟩, a⟩ := by
  have passed : p.first? (lead ++ after) = p.firstBetween lead after := firstBetween_pass quiet
  rw [passed, firstBetween_found first]

theorem first?_eq_none {text : Text} (quiet : p.Quiet [] text [])
    (fails : p.ways (.between text []) = []) : p.first? text = none := by
  have passed : p.first? (text ++ []) = p.firstBetween text [] := firstBetween_pass quiet
  have nothing : p.matchAt? ⟨text.getLast?, text.length, []⟩ = none := matchAt?_eq_none fails
  rw [List.append_nil] at passed
  rw [passed, firstBetween, firstFrom, nothing]

theorem matchAt?_eq_none_iff {cursor : Cursor} : p.matchAt? cursor = none ↔ p.ways cursor = [] := by
  rw [matchAt?_eq, Option.map_eq_none_iff, List.head?_eq_none_iff]

theorem firstBetween_eq_none_iff : p.firstBetween before after = none ↔
    ∀ left right, after = left ++ right → p.ways (.between (before ++ left) right) = [] := by
  induction after generalizing before with
  | nil =>
      have last : p.firstBetween before [] = none ↔ p.ways (.between before []) = [] := by
        rw [← matchAt?_eq_none_iff, Cursor.between, firstBetween, firstFrom]
        split <;> simp_all
      rw [last]
      constructor
      · intro fails left right split
        obtain ⟨rfl, rfl⟩ := List.append_eq_nil_iff.mp split.symm
        simpa using fails
      · intro fails
        simpa using fails [] [] rfl
  | cons c after ih =>
      have next : p.firstBetween before (c :: after) = none ↔
          p.ways (.between before (c :: after)) = [] ∧ p.firstBetween (before ++ [c]) after = none := by
        rw [← matchAt?_eq_none_iff, Cursor.between, firstBetween, firstFrom]
        split <;> simp_all [firstBetween]
      rw [next, ih]
      constructor
      · rintro ⟨fails, later⟩ left right split
        cases left with
        | nil =>
            obtain rfl : c :: after = right := split
            simpa using fails
        | cons d left =>
            obtain ⟨rfl, rfl⟩ := List.cons_eq_cons.mp split
            simpa using later left right rfl
      · intro fails
        constructor
        · simpa using fails [] (c :: after) rfl
        · intro left right split
          simpa using fails (c :: left) right (by simp [split])

/-- A pattern occurs in a text where it matches at some place. -/
theorem occurs_iff {text : Text} : p.occurs text = true ↔
    ∃ left right, text = left ++ right ∧ p.ways (.between left right) ≠ [] := by
  have none : p.first? text = none ↔ _ := @firstBetween_eq_none_iff α p [] text
  rw [occurs, ← Option.ne_none_iff_isSome, Ne, none]
  simp

end Pattern
end ImportAudit
