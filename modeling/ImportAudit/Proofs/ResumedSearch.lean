import ImportAudit.Proofs.Usage

/-! A search that starts behind a match. A pattern sees of the text before a place only its last
character, so a search in the text from some place on finds what the search in the whole text finds
there, with all offsets moved. The search in the whole text comes to that place if a match ends there. -/
namespace ImportAudit

/-- The place with some more text before it. -/
def Cursor.shift (distance : Nat) (cursor : Cursor) : Cursor :=
  { cursor with offset := cursor.offset + distance }

def Span.shift (distance : Nat) (span : Span) : Span :=
  ⟨span.start + distance, span.stop + distance⟩

theorem Text.slice_drop (text : Text) (distance : Nat) (span : Span) :
    slice (text.drop distance) span = text.slice (span.shift distance) := by
  rw [slice, slice, List.drop_drop, Span.shift, Nat.add_comm distance]
  congr 1
  simp only
  omega

namespace Cursor

variable {prev : Option Char} {offset distance : Nat} {text : Text}

theorem after?_shift (cursor : Cursor) :
    (cursor.shift distance).after? text = (cursor.after? text).map (shift distance) := by
  obtain ⟨prev, offset, rest⟩ := cursor
  simp only [after?, shift]
  induction text generalizing prev offset rest with
  | nil => simp [after?.advance, shift]
  | cons c text ih =>
      cases rest with
      | nil => simp [after?.advance]
      | cons d rest =>
          have later := ih (some d) (offset + 1) rest
          rw [Nat.add_right_comm] at later
          simp only [after?.advance]
          split
          · exact later
          · rfl

/-- Behind some text it does not matter what came before the text. -/
theorem after?_of_prev (prev other : Option Char) (offset : Nat) (rest : Text) (nonempty : text ≠ []) :
    (⟨other, offset, rest⟩ : Cursor).after? text = (⟨prev, offset, rest⟩ : Cursor).after? text := by
  obtain ⟨c, text, rfl⟩ := List.exists_cons_of_ne_nil nonempty
  cases rest <;> rfl

theorem skip_shift (accepts : Char → Bool) :
    skip accepts prev (offset + distance) text = (skip accepts prev offset text).shift distance := by
  induction text generalizing prev offset with
  | nil => rfl
  | cons c text ih =>
      rw [skip, skip]
      split
      · rw [Nat.add_right_comm, ih]
      · rfl

theorem near_shift (accepts : Char → Bool) (holds : Option Char → Text → Bool) :
    (near accepts holds prev (offset + distance) text).toList =
      (near accepts holds prev offset text).toList.map (shift distance) := by
  induction text generalizing prev offset with
  | nil => cases held : holds prev [] <;> simp [near, held, shift]
  | cons c rest ih =>
      have later : (near accepts holds (some c) (offset + distance + 1) rest).toList =
          (near accepts holds (some c) (offset + 1) rest).toList.map (shift distance) := by
        rw [Nat.add_right_comm]
        exact ih
      cases held : holds prev (c :: rest) <;> cases taken : accepts c <;>
        simp [near, held, taken, later, shift]

end Cursor

def Match.shift {α : Type} (distance : Nat) (move : α → α) (found : Match α) : Match α :=
  ⟨found.span.shift distance, move found.value⟩

namespace Pattern

variable {α β : Type} {distance : Nat} {move : α → α} {p p' q q' : Pattern α}

/-- With more text before a place the second pattern matches as the first one does without it, where
the values are moved. -/
def Moves (distance : Nat) (move : α → α) (p p' : Pattern α) : Prop :=
  ∀ cursor, p'.ways (cursor.shift distance) =
    (p.ways cursor).map fun found => (move found.1, found.2.shift distance)

namespace Moves

theorem pure (a : α) : Moves distance move (pure a) (pure (move a)) := fun _ => rfl

theorem bind {move' : β → β} {next next' : α → Pattern β} (first : Moves distance move p p')
    (later : ∀ a, Moves distance move' (next a) (next' (move a))) :
    Moves distance move' (p >>= next) (p' >>= next') := by
  intro cursor
  rw [ways_bind, ways_bind, first, List.flatMap_map, List.map_flatMap]
  exact congrArg (List.flatMap · (p.ways cursor)) (funext fun found => later found.1 found.2)

theorem either (first : Moves distance move p p') (second : Moves distance move q q') :
    Moves distance move (either p q) (either p' q') := by
  intro cursor
  rw [ways_either, ways_either, List.map_append, first, second]

theorem maybe {p p' : Pattern Unit} (moves : Moves distance id p p') :
    Moves distance id (maybe p) (maybe p') :=
  moves.either (.pure ())

theorem one (accepts : Char → Bool) : Moves distance id (one accepts) (one accepts) := by
  rintro ⟨prev, offset, rest⟩
  cases rest with
  | nil => rfl
  | cons c rest =>
      cases taken : accepts c
      · simp [ways, Pattern.one, Cursor.shift, taken]
      · simp [ways, Pattern.one, Cursor.shift, Cursor.past, taken, Nat.add_right_comm]

theorem run (accepts : Char → Bool) : Moves distance id (run accepts) (run accepts) := by
  intro cursor
  simp only [ways, Pattern.run, Cursor.shift, Cursor.skip_shift, Ways.toList_only, List.map_cons,
    List.map_nil, id]

theorem fewUntil (accepts : Char → Bool) (holds : Option Char → Text → Bool) :
    Moves distance id (fewUntil accepts holds) (fewUntil accepts holds) := by
  intro cursor
  simp only [ways, Pattern.fewUntil, Cursor.shift, Ways.toList_flatMap, Cursor.near_shift,
    List.flatMap_map, List.map_flatMap, Ways.toList_only, List.map_cons, List.map_nil, id]

theorem many (accepts : Char → Bool) : Moves distance id (many accepts) (many accepts) := by
  intro cursor
  simp only [ways, Pattern.many, manyUntil, Cursor.shift, Ways.toList_flatMap, Ways.toList_ofList,
    Cursor.far_eq_reverse_near, List.append_nil, Cursor.near_shift, ← List.map_reverse,
    List.flatMap_map, List.map_flatMap, Ways.toList_only, List.map_cons, List.map_nil, id]

theorem chars (text : Text) : Moves distance id (chars text) (chars text) := by
  intro cursor
  simp only [ways, Pattern.chars, Cursor.after?_shift]
  cases cursor.after? text <;> rfl

theorem wordChars (text : Text) : Moves distance id (wordChars text) (wordChars text) := by
  intro cursor
  simp only [ways, Pattern.wordChars, Cursor.after?_shift]
  cases cursor.after? text with
  | none => rfl
  | some after =>
      cases edge : isBoundary cursor.prev cursor.rest.head? <;> simp [Cursor.shift, edge]

theorem spanOf {p p' : Pattern Unit} (moves : Moves distance id p p') :
    Moves distance (Span.shift distance) (spanOf p) (spanOf p') := by
  intro cursor
  rw [ways_spanOf, ways_spanOf, moves, List.map_map, List.map_map]
  rfl

theorem matchAt? (moves : Moves distance move p p') (cursor : Cursor) :
    p'.matchAt? (cursor.shift distance) = (p.matchAt? cursor).map (Match.shift distance move) := by
  rw [matchAt?_eq, matchAt?_eq, moves, List.head?_map, Option.map_map, Option.map_map]
  rfl

theorem allFrom (moves : Moves distance move p p) (skip : Nat) (prev : Option Char) (offset : Nat)
    (text : Text) : p.allFrom skip prev (offset + distance) text =
      (p.allFrom skip prev offset text).map (Match.shift distance move) := by
  induction text generalizing skip prev offset with
  | nil => simp [Pattern.allFrom]
  | cons c rest ih =>
      have later (further : Nat) := ih further (some c) (offset + 1)
      simp only [Nat.add_right_comm offset 1 distance] at later
      cases skip with
      | succ skip => rw [Pattern.allFrom, Pattern.allFrom, later]
      | zero =>
          have found : p.matchAt? ⟨prev, offset + distance, c :: rest⟩ = _ :=
            moves.matchAt? ⟨prev, offset, c :: rest⟩
          rw [Pattern.allFrom, Pattern.allFrom, found]
          cases p.matchAt? ⟨prev, offset, c :: rest⟩ with
          | none => exact later 0
          | some here =>
              have gap : here.span.stop + distance - (offset + distance + 1) =
                  here.span.stop - (offset + 1) := by omega
              have advance : offset + distance < here.span.stop + distance ↔
                  offset < here.span.stop := by omega
              simp only [Option.map_some, Match.shift, Span.shift, advance, gap, later]
              split <;> rfl

end Moves

variable {before after text : Text} {found : Match α}

/-- What a search looks for at its start depends on the character before only as the pattern does. -/
theorem allFrom_of_prev {prev other : Option Char} {offset : Nat}
    (same : p.ways ⟨other, offset, text⟩ = p.ways ⟨prev, offset, text⟩) :
    p.allFrom 0 other offset text = p.allFrom 0 prev offset text := by
  cases text with
  | nil => simp [allFrom]
  | cons c rest => rw [allFrom, allFrom, matchAt?_eq, matchAt?_eq, same]

/-- A pattern that starts with a word sees of the text before only whether it ends in a word. -/
theorem ways_wordChars_bind_of_prev {word : Text} {next : Unit → Pattern α} {prev other : Option Char}
    (offset : Nat) (rest : Text) (nonempty : word ≠ [])
    (same : other.any Text.isWord = prev.any Text.isWord) :
    (wordChars word >>= next).ways ⟨other, offset, rest⟩ =
      (wordChars word >>= next).ways ⟨prev, offset, rest⟩ := by
  have start : (wordChars word).ways ⟨other, offset, rest⟩ =
      (wordChars word).ways ⟨prev, offset, rest⟩ := by
    simp only [ways, wordChars, isBoundary, same, Cursor.after?_of_prev prev other _ _ nonempty]
    rfl
  rw [ways_bind, ways_bind, start]

/-- Behind a match the search goes on as one that starts there. -/
theorem exists_later (advances : p.Advances) {skip : Nat}
    (member : found ∈ p.allFrom skip before.getLast? before.length after) :
    ∃ earlier passed rest, after = passed ++ rest ∧ found.span.stop = (before ++ passed).length ∧
      p.allFrom skip before.getLast? before.length after =
        earlier ++ found :: p.allBetween (before ++ passed) rest := by
  induction after generalizing skip before with
  | nil => simp [allFrom] at member
  | cons c after ih =>
      have behind (further : Nat)
          (later : found ∈ p.allFrom further (some c) (before.length + 1) after) :
          ∃ earlier passed rest, c :: after = passed ++ rest ∧
            found.span.stop = (before ++ passed).length ∧
            p.allFrom further (some c) (before.length + 1) after =
              earlier ++ found :: p.allBetween (before ++ passed) rest := by
        obtain ⟨earlier, passed, rest, rfl, stop, same⟩ :=
          @ih (before ++ [c]) further (by simpa using later)
        exact ⟨earlier, c :: passed, rest, rfl, by simpa using stop, by simpa using same⟩
      obtain ⟨further, -, same | ⟨here, place, rfl, first, span, stop, same⟩⟩ :=
        p.allFrom_cons skip before.getLast? before.length c after
      · rw [same] at member ⊢
        exact behind further member
      · rw [same] at member ⊢
        rcases List.mem_cons.mp member with rfl | later
        · obtain ⟨taken, rest, split, moved⟩ := advances before (c :: after) _ first.mem
          obtain rfl : place = .between (before ++ taken) rest := moved
          cases taken with
          | nil => exact absurd stop (by simp; omega)
          | cons d taken =>
              obtain ⟨rfl, rfl⟩ := List.cons_eq_cons.mp split
              obtain rfl : further = taken.length := by
                simp at stop
                omega
              have later := allFrom_skip (p := p) (before ++ [c]) taken rest
              refine ⟨[], c :: taken, rest, rfl, congrArg Span.stop span, ?_⟩
              simpa using later
        · obtain ⟨earlier, passed, rest, split, stop, same⟩ := behind further later
          exact ⟨here :: earlier, passed, rest, split, stop, by rw [same, List.cons_append]⟩

/-- The matches that start behind one of them are found from its end on. -/
theorem filter_all_eq_allBetween (advances : p.Advances) (member : found ∈ p.all text) :
    ((p.all text).filter fun other => found.span.stop ≤ other.span.start) =
      p.allBetween (text.take found.span.stop) (text.drop found.span.stop) := by
  obtain ⟨earlier, passed, rest, rfl, stop, same⟩ :=
    @exists_later _ p [] text found advances 0 member
  have split : p.all (passed ++ rest) = earlier ++ found :: p.allBetween passed rest := same
  have ordered : (p.all (passed ++ rest)).Pairwise fun first second =>
      first.span.stop ≤ second.span.start := p.allFrom_ordered 0 none 0 (passed ++ rest)
  have nonempty {other : Match α} (listed : other ∈ p.all (passed ++ rest)) :
      other.span.start < other.span.stop := by
    obtain ⟨before, after, place, -, -, span, advance⟩ := first_of_mem_all listed
    rw [span]
    exact advance
  have ends : found.span.stop = passed.length := stop
  have early : earlier.filter (fun other => found.span.stop ≤ other.span.start) = [] := by
    rw [split] at ordered
    refine List.filter_eq_nil_iff.mpr fun other listed => ?_
    have before := (List.pairwise_append.mp ordered).2.2 other listed found List.mem_cons_self
    have length := nonempty member
    have length' := @nonempty other (by simp [split, listed])
    simp only [decide_eq_true_eq]
    omega
  have late : (p.allBetween passed rest).filter (fun other => found.span.stop ≤ other.span.start) =
      p.allBetween passed rest := by
    refine List.filter_eq_self.mpr fun other listed => ?_
    have behind := le_start_of_mem_allFrom listed
    simpa [ends] using behind
  have itself : ¬ found.span.stop ≤ found.span.start := Nat.not_le.mpr (nonempty member)
  rw [split, List.filter_append, early, List.filter_cons_of_neg (by simpa using itself), late, ends]
  simp

end Pattern
end ImportAudit
