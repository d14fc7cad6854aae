import ImportAudit.Pattern.Search
import Mathlib.Data.List.TakeWhile

/-! What patterns match. A place is given by the text before it and the text after it. For each
pattern the ways to match at a place are listed, or it is said which splits of the text after the
place they stand for. The preferred way is the first of the list, which is what a search finds. -/
namespace ImportAudit

/-- The place between two pieces of a text. -/
def Cursor.between (before after : Text) : Cursor := ⟨before.getLast?, before.length, after⟩

namespace Cursor

variable {before after text : Text}

theorem start_eq (text : Text) : start text = between [] text := rfl

@[simp] theorem between_rest : (between before after).rest = after := rfl

@[simp] theorem between_prev : (between before after).prev = before.getLast? := rfl

@[simp] theorem between_offset : (between before after).offset = before.length := rfl

theorem past_between (c : Char) :
    (between before (c :: after)).past c after = between (before ++ [c]) after := by
  simp [past, between]

theorem after?_append (before text after : Text) :
    (between before (text ++ after)).after? text = some (between (before ++ text) after) := by
  unfold after?
  induction text generalizing before with
  | nil => simp [after?.advance, between]
  | cons c text ih =>
      have further := ih (before ++ [c])
      simpa [after?.advance, between] using further

theorem after?_eq_some {place : Cursor} (found : (between before after).after? text = some place) :
    ∃ rest, after = text ++ rest ∧ place = between (before ++ text) rest := by
  unfold after? at found
  induction text generalizing before after with
  | nil =>
      simp only [after?.advance, Option.some.injEq] at found
      exact ⟨after, rfl, by simp [← found, between]⟩
  | cons c text ih =>
      cases after with
      | nil => simp [after?.advance] at found
      | cons d after =>
          simp only [between_rest, after?.advance] at found
          split at found
          · rename_i same
            obtain rfl : d = c := by simpa using same
            have moved : after?.advance (between (before ++ [d]) after).prev
                (between (before ++ [d]) after).offset after text = some place := by
              simpa [between] using found
            obtain ⟨rest, rfl, rfl⟩ := ih moved
            exact ⟨rest, rfl, by simp⟩
          · cases found

theorem skip_between (accepts : Char → Bool) (before after : Text) :
    skip accepts before.getLast? before.length after =
      between (before ++ after.takeWhile accepts) (after.dropWhile accepts) := by
  induction after generalizing before with
  | nil => simp [skip, between]
  | cons c rest ih =>
      cases taken : accepts c with
      | false => simp [skip, taken, between]
      | true =>
          have further := ih (before ++ [c])
          simpa [skip, taken] using further

/-- The places through characters of a class, the nearest first. -/
def through (accepts : Char → Bool) (before : Text) : Text → List Cursor
  | [] => [between before []]
  | c :: rest =>
      between before (c :: rest) :: if accepts c then through accepts (before ++ [c]) rest else []

theorem near_between (accepts : Char → Bool) (holds : Option Char → Text → Bool)
    (before after : Text) :
    (near accepts holds before.getLast? before.length after).toList =
      (through accepts before after).filter fun place => holds place.prev place.rest := by
  induction after generalizing before with
  | nil => cases held : holds before.getLast? [] <;> simp [near, through, held, between]
  | cons c rest ih =>
      have further := ih (before ++ [c])
      simp only [List.getLast?_concat, List.length_append, List.length_singleton] at further
      cases held : holds before.getLast? (c :: rest) <;> cases taken : accepts c <;>
        simp [near, through, held, taken, further, between]

theorem mem_through {accepts : Char → Bool} {place : Cursor} :
    place ∈ through accepts before after ↔ ∃ taken rest, after = taken ++ rest ∧
      (∀ c ∈ taken, accepts c = true) ∧ place = between (before ++ taken) rest := by
  induction after generalizing before with
  | nil =>
      constructor
      · intro member
        exact ⟨[], [], rfl, by simp, by simpa [through] using member⟩
      · rintro ⟨taken, rest, split, -, rfl⟩
        obtain ⟨rfl, rfl⟩ := List.append_eq_nil_iff.mp split.symm
        simp [through]
  | cons c after ih =>
      constructor
      · intro member
        rcases List.mem_cons.mp member with rfl | later
        · exact ⟨[], c :: after, rfl, by simp, by simp⟩
        · cases accepted : accepts c with
          | false => simp [accepted] at later
          | true =>
              obtain ⟨taken, rest, rfl, all, rfl⟩ := ih.mp (by simpa [accepted] using later)
              exact ⟨c :: taken, rest, rfl, by simpa [accepted] using all, by simp⟩
      · rintro ⟨taken, rest, split, all, rfl⟩
        cases taken with
        | nil =>
            obtain rfl : rest = c :: after := by simpa using split.symm
            simp [through]
        | cons d taken =>
            obtain ⟨rfl, rfl⟩ : c = d ∧ after = taken ++ rest := by simpa using split
            have accepted : accepts c = true := all c List.mem_cons_self
            refine List.mem_cons_of_mem _ ?_
            rw [if_pos accepted]
            exact ih.mpr ⟨taken, rest, rfl, fun d member => all d (List.mem_cons_of_mem _ member),
              by simp⟩

theorem through_eq_cons (accepts : Char → Bool) (before after : Text) :
    ∃ farther, through accepts before after = between before after :: farther := by
  cases after with
  | nil => exact ⟨[], rfl⟩
  | cons c after => exact ⟨_, rfl⟩

theorem through_of_stop {accepts : Char → Bool}
    (stop : ∀ c, after.head? = some c → accepts c = false) :
    through accepts before after = [between before after] := by
  cases after with
  | nil => rfl
  | cons c after => simp [through, stop c rfl]

/-- The places within `taken` come before those behind it. -/
theorem through_append {accepts : Char → Bool} {taken : Text} (before after : Text)
    (all : ∀ c ∈ taken, accepts c = true) :
    ∃ nearer, through accepts before (taken ++ after) =
      nearer ++ through accepts (before ++ taken) after ∧
      ∀ place ∈ nearer, ∃ left right, taken = left ++ right ∧ right ≠ [] ∧
        place = between (before ++ left) (right ++ after) := by
  induction taken generalizing before with
  | nil => exact ⟨[], by simp, by simp⟩
  | cons c taken ih =>
      have accepted : accepts c = true := all c List.mem_cons_self
      obtain ⟨nearer, places, inside⟩ :=
        ih (before ++ [c]) fun d member => all d (List.mem_cons_of_mem _ member)
      refine ⟨between before (c :: taken ++ after) :: nearer, ?_, ?_⟩
      · simp only [List.cons_append, through, accepted, if_true, places]
        simp
      · intro place member
        rcases List.mem_cons.mp member with rfl | member
        · exact ⟨[], c :: taken, rfl, by simp, by simp⟩
        · obtain ⟨left, right, rfl, nonempty, rfl⟩ := inside place member
          exact ⟨c :: left, right, rfl, nonempty, by simp⟩

end Cursor
namespace Pattern

variable {α β : Type} {p q : Pattern α} {next : α → Pattern β} {before after text : Text}
  {cursor place : Cursor}

/-- The ways to match at a place, the preferred one first. -/
def ways (p : Pattern α) (cursor : Cursor) : List (α × Cursor) := (p cursor).toList

@[simp] theorem ways_pure (a : α) : (pure a : Pattern α).ways cursor = [(a, cursor)] := rfl

@[simp] theorem ways_bind :
    (p >>= next).ways cursor = (p.ways cursor).flatMap fun found => (next found.1).ways found.2 :=
  Ways.toList_flatMap _ _

@[simp] theorem ways_map (f : α → β) :
    (f <$> p).ways cursor = (p.ways cursor).map fun found => (f found.1, found.2) := by
  rw [List.map_eq_flatMap]
  exact Ways.toList_flatMap _ _

@[simp] theorem ways_either : (either p q).ways cursor = p.ways cursor ++ q.ways cursor :=
  Ways.toList_append _ _

@[simp] theorem ways_here : here.ways cursor = [(cursor.offset, cursor)] := rfl

@[simp] theorem ways_one_nil (accepts : Char → Bool) :
    (one accepts).ways (.between before []) = [] := rfl

@[simp] theorem ways_one_cons (accepts : Char → Bool) (c : Char) :
    (one accepts).ways (.between before (c :: after)) =
      if accepts c then [((), .between (before ++ [c]) after)] else [] := by
  cases accepted : accepts c <;>
    simp [ways, one, accepted, Cursor.past_between, Ways.only]

theorem ways_chars (before text after : Text) :
    (chars text).ways (.between before (text ++ after)) = [((), .between (before ++ text) after)] := by
  simp [ways, chars, Cursor.after?_append]

theorem mem_ways_chars {found : Unit × Cursor} :
    found ∈ (chars text).ways (.between before after) ↔
      ∃ rest, after = text ++ rest ∧ found = ((), .between (before ++ text) rest) := by
  constructor
  · intro member
    unfold ways chars at member
    cases moved : (Cursor.between before after).after? text with
    | none => simp [moved] at member
    | some place =>
        obtain ⟨rest, split, rfl⟩ := Cursor.after?_eq_some moved
        exact ⟨rest, split, by simpa [moved] using member⟩
  · rintro ⟨rest, rfl, rfl⟩
    simp [ways_chars]

theorem ways_wordChars (before text after : Text)
    (edge : isBoundary before.getLast? (text ++ after).head? = true) :
    (wordChars text).ways (.between before (text ++ after)) =
      [((), .between (before ++ text) after)] := by
  simp only [ways, wordChars, Cursor.after?_append, Cursor.between_prev, Cursor.between_rest, edge,
    if_true, Ways.toList_only]

theorem mem_ways_wordChars {found : Unit × Cursor} :
    found ∈ (wordChars text).ways (.between before after) ↔
      isBoundary before.getLast? after.head? = true ∧
        ∃ rest, after = text ++ rest ∧ found = ((), .between (before ++ text) rest) := by
  constructor
  · intro member
    unfold ways wordChars at member
    cases moved : (Cursor.between before after).after? text with
    | none => simp [moved] at member
    | some place =>
        obtain ⟨rest, split, rfl⟩ := Cursor.after?_eq_some moved
        cases edge : isBoundary before.getLast? after.head? with
        | false => simp [moved, edge] at member
        | true => exact ⟨rfl, rest, split, by simpa [moved, edge] using member⟩
  · rintro ⟨edge, rest, rfl, rfl⟩
    simp [ways_wordChars before text rest edge]

@[simp] theorem ways_run (accepts : Char → Bool) :
    (run accepts).ways (.between before after) =
      [((), .between (before ++ after.takeWhile accepts) (after.dropWhile accepts))] := by
  simp [ways, run, Cursor.skip_between]

theorem ways_run_append {accepts : Char → Bool} {taken rest : Text} (before : Text)
    (all : ∀ c ∈ taken, accepts c = true) (stop : ∀ c, rest.head? = some c → accepts c = false) :
    (run accepts).ways (.between before (taken ++ rest)) =
      [((), .between (before ++ taken) rest)] := by
  have stays : rest.takeWhile accepts = [] ∧ rest.dropWhile accepts = rest := by
    cases rest with
    | nil => simp
    | cons c rest => simp [stop c rfl]
  rw [ways_run, List.takeWhile_append_of_pos all, List.dropWhile_append_of_pos all, stays.1, stays.2,
    List.append_nil]

theorem mem_ways_run {accepts : Char → Bool} {found : Unit × Cursor}
    (member : found ∈ (run accepts).ways (.between before after)) :
    ∃ taken rest, after = taken ++ rest ∧ (∀ c ∈ taken, accepts c = true) ∧
      found = ((), .between (before ++ taken) rest) := by
  rw [ways_run, List.mem_singleton] at member
  exact ⟨_, _, List.takeWhile_append_dropWhile.symm, fun c => List.mem_takeWhile_imp, member⟩

@[simp] theorem ways_fewUntil (accepts : Char → Bool) (holds : Option Char → Text → Bool) :
    (fewUntil accepts holds).ways (.between before after) =
      ((Cursor.through accepts before after).filter fun place =>
        holds place.prev place.rest).map ((), ·) := by
  unfold ways fewUntil
  rw [Ways.toList_flatMap, List.map_eq_flatMap]
  exact congrArg (List.flatMap _) (Cursor.near_between accepts holds before after)

@[simp] theorem ways_manyUntil (accepts : Char → Bool) (holds : Option Char → Text → Bool) :
    (manyUntil accepts holds).ways (.between before after) =
      (((Cursor.through accepts before after).filter fun place =>
        holds place.prev place.rest).map ((), ·)).reverse := by
  unfold ways manyUntil
  rw [Ways.toList_flatMap, Ways.toList_ofList, Cursor.far_eq_reverse_near, List.append_nil,
    ← List.map_reverse, List.map_eq_flatMap]
  exact congrArg (List.flatMap _ ·.reverse) (Cursor.near_between accepts holds before after)

@[simp] theorem ways_between (holds : Option Char → Option Char → Bool) :
    (between holds).ways (.between before after) =
      if holds before.getLast? after.head? then [((), .between before after)] else [] := by
  cases held : holds before.getLast? after.head? <;> simp [ways, between, held]

theorem mem_ways_atEnd {found : Unit × Cursor} :
    found ∈ atEnd.ways (.between before after) ↔ after = [] ∧ found = ((), .between before []) := by
  unfold atEnd
  cases after <;> simp

theorem mem_ways_one {accepts : Char → Bool} {found : Unit × Cursor} :
    found ∈ (one accepts).ways (.between before after) ↔
      ∃ c rest, after = c :: rest ∧ accepts c = true ∧
        found = ((), .between (before ++ [c]) rest) := by
  cases after with
  | nil => simp
  | cons c after =>
      constructor
      · intro member
        cases accepted : accepts c with
        | false => simp [accepted] at member
        | true => exact ⟨c, after, rfl, accepted, by simpa [accepted] using member⟩
      · rintro ⟨_, _, ⟨⟩, accepted, rfl⟩
        simp [accepted]

theorem mem_ways_many {accepts : Char → Bool} {found : Unit × Cursor} :
    found ∈ (many accepts).ways (.between before after) ↔
      ∃ taken rest, after = taken ++ rest ∧ (∀ c ∈ taken, accepts c = true) ∧
        found = ((), .between (before ++ taken) rest) := by
  obtain ⟨⟨⟩, place⟩ := found
  have places : ((), place) ∈ (many accepts).ways (.between before after) ↔
      place ∈ Cursor.through accepts before after := by simp [many]
  rw [places, Cursor.mem_through]
  simp

theorem mem_ways_bind {found : β × Cursor} :
    found ∈ (p >>= next).ways cursor ↔
      ∃ a place, (a, place) ∈ p.ways cursor ∧ found ∈ (next a).ways place := by
  simp

theorem mem_ways_many1 {accepts : Char → Bool} {found : Unit × Cursor} :
    found ∈ (many1 accepts).ways (.between before after) ↔
      ∃ taken rest, after = taken ++ rest ∧ taken ≠ [] ∧ (∀ c ∈ taken, accepts c = true) ∧
        found = ((), .between (before ++ taken) rest) := by
  unfold many1
  rw [mem_ways_bind]
  constructor
  · rintro ⟨⟨⟩, place, first, later⟩
    obtain ⟨c, rest, rfl, accepted, ⟨⟩⟩ := mem_ways_one.mp first
    obtain ⟨taken, rest, rfl, all, rfl⟩ := mem_ways_many.mp later
    exact ⟨c :: taken, rest, rfl, by simp, by simpa [accepted] using all, by simp⟩
  · rintro ⟨taken, rest, rfl, nonempty, all, rfl⟩
    obtain ⟨c, taken, rfl⟩ := List.exists_cons_of_ne_nil nonempty
    refine ⟨(), .between (before ++ [c]) (taken ++ rest), ?_, ?_⟩
    · exact mem_ways_one.mpr ⟨c, taken ++ rest, rfl, all c List.mem_cons_self, rfl⟩
    · exact mem_ways_many.mpr ⟨taken, rest, rfl,
        fun d member => all d (List.mem_cons_of_mem _ member), by simp⟩

theorem ways_run1_append {accepts : Char → Bool} {taken rest : Text} (before : Text)
    (nonempty : taken ≠ []) (all : ∀ c ∈ taken, accepts c = true)
    (stop : ∀ c, rest.head? = some c → accepts c = false) :
    (run1 accepts).ways (.between before (taken ++ rest)) =
      [((), .between (before ++ taken) rest)] := by
  obtain ⟨c, taken, rfl⟩ := List.exists_cons_of_ne_nil nonempty
  have accepted : accepts c = true := all c List.mem_cons_self
  have later := ways_run_append (before ++ [c])
    (fun d member => all d (List.mem_cons_of_mem _ member)) stop
  unfold run1
  rw [ways_bind, List.cons_append, ways_one_cons, if_pos accepted, List.flatMap_singleton, later,
    List.append_assoc, List.singleton_append]

theorem mem_ways_run1 {accepts : Char → Bool} {found : Unit × Cursor}
    (member : found ∈ (run1 accepts).ways (.between before after)) :
    ∃ taken rest, after = taken ++ rest ∧ taken ≠ [] ∧ (∀ c ∈ taken, accepts c = true) ∧
      found = ((), .between (before ++ taken) rest) := by
  obtain ⟨⟨⟩, place, first, later⟩ := mem_ways_bind.mp member
  obtain ⟨c, rest, rfl, accepted, ⟨⟩⟩ := mem_ways_one.mp first
  obtain ⟨taken, rest, rfl, all, rfl⟩ := mem_ways_run later
  exact ⟨c :: taken, rest, rfl, by simp, by simpa [accepted] using all, by simp⟩

@[simp] theorem ways_spanOf (p : Pattern Unit) :
    (spanOf p).ways cursor =
      (p.ways cursor).map fun found => (⟨cursor.offset, found.2.offset⟩, found.2) := by
  simp [spanOf, List.map_eq_flatMap]

/-- The preferred way to match at a place. -/
def First (p : Pattern α) (cursor : Cursor) (a : α) (place : Cursor) : Prop :=
  (p.ways cursor).head? = some (a, place)

namespace First

variable {a : α} {b : β} {final : Cursor}

theorem of_ways (only : p.ways cursor = [(a, place)]) : p.First cursor a place := by
  simp [First, only]

theorem mem (first : p.First cursor a place) : (a, place) ∈ p.ways cursor :=
  List.mem_of_head? first

theorem of_unique (member : (a, place) ∈ p.ways cursor)
    (unique : ∀ found ∈ p.ways cursor, found = (a, place)) : p.First cursor a place := by
  obtain ⟨first, others, ways⟩ := List.exists_cons_of_ne_nil (List.ne_nil_of_mem member)
  have same : first = (a, place) := unique first (by simp [ways])
  simp [First, ways, same]

/-- Ways after which the rest of the pattern fails do not count. -/
theorem bind_of_ways {skipped others : List (α × Cursor)}
    (found : p.ways cursor = skipped ++ (a, place) :: others)
    (fails : ∀ way ∈ skipped, (next way.1).ways way.2 = [])
    (first : (next a).First place b final) : (p >>= next).First cursor b final := by
  have nothing : skipped.flatMap (fun way => (next way.1).ways way.2) = [] := by
    simpa using fails
  unfold First at first ⊢
  rw [ways_bind, found, List.flatMap_append, nothing, List.nil_append, List.flatMap_cons,
    List.head?_append, first, Option.some_or]

theorem bind (first : p.First cursor a place) (second : (next a).First place b final) :
    (p >>= next).First cursor b final := by
  obtain ⟨others, found⟩ := List.head?_eq_some_iff.mp first
  have none_skipped : p.ways cursor = [] ++ (a, place) :: others := found
  exact bind_of_ways none_skipped (by simp) second

theorem left (first : p.First cursor a place) : (either p q).First cursor a place := by
  unfold First at first ⊢
  rw [ways_either, List.head?_append, first, Option.some_or]

theorem right (fails : p.ways cursor = []) (first : q.First cursor a place) :
    (either p q).First cursor a place := by
  unfold First at first ⊢
  rw [ways_either, fails, List.nil_append, first]

theorem bind_left (first : (p >>= next).First cursor b final) :
    (either p q >>= next).First cursor b final := by
  unfold First at first ⊢
  rw [ways_bind] at first ⊢
  rw [ways_either, List.flatMap_append, List.head?_append, first, Option.some_or]

/-- The first branch may match, if the rest of the pattern fails behind it. -/
theorem bind_right (fails : (p >>= next).ways cursor = []) (first : (q >>= next).First cursor b final) :
    (either p q >>= next).First cursor b final := by
  unfold First at first ⊢
  rw [ways_bind] at fails first ⊢
  rw [ways_either, List.flatMap_append, fails, List.nil_append, first]

theorem bind_assoc {γ : Type} {later : β → Pattern γ} {c : γ}
    (first : (p >>= fun a => next a >>= later).First cursor c final) :
    ((p >>= next) >>= later).First cursor c final := by
  unfold First at first ⊢
  simpa only [ways_bind, List.flatMap_assoc] using first

/-- Greedy repetition prefers to take every character of the class that follows. -/
theorem many {accepts : Char → Bool} {taken rest : Text} (before : Text)
    (all : ∀ c ∈ taken, accepts c = true) (stop : ∀ c, rest.head? = some c → accepts c = false) :
    (many accepts).First (.between before (taken ++ rest)) () (.between (before ++ taken) rest) := by
  obtain ⟨nearer, places, -⟩ := Cursor.through_append before rest all
  rw [Cursor.through_of_stop stop] at places
  simp [First, Pattern.many, places]

theorem many1 {accepts : Char → Bool} {taken rest : Text} (before : Text) (nonempty : taken ≠ [])
    (all : ∀ c ∈ taken, accepts c = true) (stop : ∀ c, rest.head? = some c → accepts c = false) :
    (many1 accepts).First (.between before (taken ++ rest)) () (.between (before ++ taken) rest) := by
  obtain ⟨c, taken, rfl⟩ := List.exists_cons_of_ne_nil nonempty
  have accepted : accepts c = true := all c List.mem_cons_self
  have head : (one accepts).First (.between before (c :: (taken ++ rest))) ()
      (.between (before ++ [c]) (taken ++ rest)) := of_ways (by simp [accepted])
  have later := First.many (before ++ [c])
    (fun d member => all d (List.mem_cons_of_mem _ member)) stop
  exact head.bind (by simpa using later)

theorem run {accepts : Char → Bool} {taken rest : Text} (before : Text)
    (all : ∀ c ∈ taken, accepts c = true) (stop : ∀ c, rest.head? = some c → accepts c = false) :
    (run accepts).First (.between before (taken ++ rest)) () (.between (before ++ taken) rest) :=
  of_ways (ways_run_append before all stop)

theorem run_stop {accepts : Char → Bool} {rest : Text} (before : Text)
    (stop : ∀ c, rest.head? = some c → accepts c = false) :
    (Pattern.run accepts).First (.between before rest) () (.between before rest) := by
  have nothing := First.run before (List.forall_mem_nil _) stop
  simpa using nothing

theorem run1 {accepts : Char → Bool} {taken rest : Text} (before : Text) (nonempty : taken ≠ [])
    (all : ∀ c ∈ taken, accepts c = true) (stop : ∀ c, rest.head? = some c → accepts c = false) :
    (run1 accepts).First (.between before (taken ++ rest)) () (.between (before ++ taken) rest) :=
  of_ways (ways_run1_append before nonempty all stop)

theorem pure (a : α) : (pure a : Pattern α).First cursor a cursor := rfl

theorem char (before : Text) (c : Char) (rest : Text) :
    (char c).First (.between before (c :: rest)) () (.between (before ++ [c]) rest) :=
  of_ways (by simp [Pattern.char])

theorem chars (before text rest : Text) :
    (chars text).First (.between before (text ++ rest)) () (.between (before ++ text) rest) :=
  of_ways (ways_chars before text rest)

theorem atEnd (before : Text) : atEnd.First (.between before []) () (.between before []) :=
  of_ways (by simp [Pattern.atEnd])

theorem spanOf {p : Pattern Unit} (first : p.First cursor () place) :
    (spanOf p).First cursor ⟨cursor.offset, place.offset⟩ place := by
  unfold First at first ⊢
  simp [first]

theorem spanOf_bind_of_ways {p : Pattern Unit} {next : Span → Pattern β}
    {skipped others : List (Unit × Cursor)} (found : p.ways cursor = skipped ++ ((), place) :: others)
    (fails : ∀ way ∈ skipped, (next ⟨cursor.offset, way.2.offset⟩).ways way.2 = [])
    (first : (next ⟨cursor.offset, place.offset⟩).First place b final) :
    (Pattern.spanOf p >>= next).First cursor b final := by
  have spans : (Pattern.spanOf p).ways cursor = _ := ways_spanOf p
  rw [found, List.map_append, List.map_cons] at spans
  refine bind_of_ways spans (fun way member => ?_) first
  obtain ⟨inner, listed, rfl⟩ := List.mem_map.mp member
  exact fails inner listed

end First

/-- Some way to match leads from one place to another. -/
def Reaches (p : Pattern α) (cursor place : Cursor) : Prop := ∃ a, (a, place) ∈ p.ways cursor

namespace Reaches

theorem bind {final : Cursor} (first : p.Reaches cursor place)
    (later : ∀ a, (next a).Reaches place final) : (p >>= next).Reaches cursor final := by
  obtain ⟨a, found⟩ := first
  obtain ⟨b, finished⟩ := later a
  exact ⟨b, mem_ways_bind.mpr ⟨a, place, found, finished⟩⟩

theorem pure (a : α) : (pure a : Pattern α).Reaches cursor cursor := ⟨a, List.mem_singleton_self _⟩

theorem run {accepts : Char → Bool} {taken rest : Text} (before : Text)
    (all : ∀ c ∈ taken, accepts c = true) (stop : ∀ c, rest.head? = some c → accepts c = false) :
    (run accepts).Reaches (.between before (taken ++ rest)) (.between (before ++ taken) rest) :=
  ⟨(), ways_run_append before all stop ▸ List.mem_singleton_self _⟩

theorem run1 {accepts : Char → Bool} {taken rest : Text} (before : Text) (nonempty : taken ≠ [])
    (all : ∀ c ∈ taken, accepts c = true) (stop : ∀ c, rest.head? = some c → accepts c = false) :
    (run1 accepts).Reaches (.between before (taken ++ rest)) (.between (before ++ taken) rest) :=
  ⟨(), ways_run1_append before nonempty all stop ▸ List.mem_singleton_self _⟩

theorem chars (before text rest : Text) :
    (chars text).Reaches (.between before (text ++ rest)) (.between (before ++ text) rest) :=
  ⟨(), ways_chars before text rest ▸ List.mem_singleton_self _⟩

theorem atEnd (before : Text) : atEnd.Reaches (.between before []) (.between before []) :=
  ⟨(), mem_ways_atEnd.mpr ⟨rfl, rfl⟩⟩

theorem maybe? (reached : p.Reaches cursor place) : (maybe? p).Reaches cursor place := by
  obtain ⟨a, found⟩ := reached
  refine ⟨some a, ?_⟩
  simp only [Pattern.maybe?, ways_either, ways_map, List.mem_append, List.mem_map]
  exact .inl ⟨(a, place), found, rfl⟩

theorem exists_first (reached : p.Reaches cursor place) : ∃ a final, p.First cursor a final := by
  obtain ⟨a, way⟩ := reached
  obtain ⟨⟨a, final⟩, others, ways⟩ := List.exists_cons_of_ne_nil (List.ne_nil_of_mem way)
  exact ⟨a, final, by simp [First, ways]⟩

end Reaches

end Pattern
end ImportAudit
