import ImportAudit.Proofs.OtherForms
import ImportAudit.Proofs.Usage

/-! An import with a clause, searched in the plain way. The plain pattern lets a clause end behind any
character of its class, the nearest end first, and a run of blanks gives its blanks back one by one.
`clauseImport` tries fewer ends and gives nothing back, and its preferred match is the same at every
place, so a search finds the same statements. -/
namespace ImportAudit
namespace Pattern

variable {α β : Type} {p q r : Pattern α}

/-- The two patterns have the same preferred way to match at every place of every text. -/
def SameFirst (p q : Pattern α) : Prop :=
  ∀ before after, (p.ways (.between before after)).head? = (q.ways (.between before after)).head?

namespace SameFirst

theorem trans (first : SameFirst p q) (second : SameFirst q r) : SameFirst p r :=
  fun before after => (first before after).trans (second before after)

/-- Which way is preferred is settled way by way, so what comes first may stand in front of both. -/
theorem after {next next' : α → Pattern β} (advances : p.Advances)
    (same : ∀ a, SameFirst (next a) (next' a)) : SameFirst (p >>= next) (p >>= next') := by
  intro before after
  have each : ∀ found ∈ p.ways (.between before after),
      ((next found.1).ways found.2).head? = ((next' found.1).ways found.2).head? := by
    intro found member
    obtain ⟨taken, rest, -, moved⟩ := advances before after found member
    rw [moved]
    exact same found.1 _ _
  rw [ways_bind, ways_bind, List.head?_flatMap, List.head?_flatMap]
  generalize p.ways (.between before after) = ways at each
  induction ways with
  | nil => rfl
  | cons found ways ih =>
      rw [List.findSome?_cons, List.findSome?_cons, each found List.mem_cons_self,
        ih fun later member => each later (List.mem_cons_of_mem _ member)]

theorem allFrom_eq (same : SameFirst p q) (skip : Nat) (before after : Text) :
    p.allFrom skip before.getLast? before.length after =
      q.allFrom skip before.getLast? before.length after := by
  induction after generalizing skip before with
  | nil => simp [allFrom]
  | cons c rest ih =>
      have later : ∀ skip, p.allFrom skip (some c) (before.length + 1) rest =
          q.allFrom skip (some c) (before.length + 1) rest := by
        intro skip
        simpa using ih skip (before ++ [c])
      have here : p.matchAt? ⟨before.getLast?, before.length, c :: rest⟩ =
          q.matchAt? ⟨before.getLast?, before.length, c :: rest⟩ := by
        rw [matchAt?_eq, matchAt?_eq]
        exact congrArg _ (same before (c :: rest))
      cases skip with
      | succ skip => exact later skip
      | zero => simp only [allFrom, here, later]

theorem all_eq (same : SameFirst p q) (text : Text) : p.all text = q.all text :=
  same.allFrom_eq 0 [] text

/-- A repetition that gives characters back goes on only from its end, if what follows it cannot
start with a character of the class. -/
theorem run_many {accepts : Char → Bool} {next : Unit → Pattern β}
    (solid : ∀ before c after, accepts c = true →
      (next ()).ways (.between before (c :: after)) = []) :
    SameFirst (run accepts >>= next) (many accepts >>= next) := by
  have ways : ∀ before after, (many accepts >>= next).ways (.between before after) =
      (Cursor.through accepts before after).reverse.flatMap (next ()).ways := by
    intro before after
    simp [many, List.flatMap_map, ← List.map_reverse]
  intro before after
  refine congrArg List.head? ?_
  induction after generalizing before with
  | nil => simp [ways, Cursor.through]
  | cons c rest ih =>
      have later := ih (before ++ [c])
      rw [ways] at later ⊢
      cases accepted : accepts c with
      | false => simp [Cursor.through, accepted]
      | true => simpa [Cursor.through, accepted, solid before c rest accepted] using later

end SameFirst
end Pattern

namespace Script
open Pattern Text

/-- The characters of a clause, as few as possible. -/
def lazyClause : Pattern Unit := do
  one isClauseChar
  fewUntil isClauseChar fun _ _ => true

/-- What follows the clause of an import, where blanks are given back. -/
def lazyAfter (clause : Span) : Pattern ClauseImport := do
  blanks
  keyword "from"
  blanks
  let target ← specifier
  return ⟨clause, target⟩

/-- `import clause from 'specifier'`, where the clause may end anywhere. -/
def lazyImport : Pattern ClauseImport := do
  keyword "import"
  blanks1
  typeModifier
  let clause ← spanOf lazyClause
  lazyAfter clause

/-- The word `from` and the specifier behind it. -/
def fromTarget : Pattern Span := do
  keyword "from"
  blankRun
  specifier

/-- What follows a clause starts behind all blanks. -/
theorem ways_afterClause (clause : Span) (before after : Text) :
    (afterClause clause).ways (.between before after) =
      (fromTarget.ways (.between (before ++ after.takeWhile isBlank) (after.dropWhile isBlank))).map
        fun found => (⟨clause, found.1⟩, found.2) := by
  simp [afterClause, fromTarget, blankRun, List.map_eq_flatMap, List.flatMap_assoc]

/-- A blank that a clause ends in may as well stand behind the clause. -/
theorem afterClause_past_blank {c : Char} (clause clause' : Span) (before rest : Text)
    (blank : isBlank c = true)
    (fails : (afterClause clause).ways (.between before (c :: rest)) = []) :
    (afterClause clause').ways (.between (before ++ [c]) rest) = [] := by
  rw [ways_afterClause, List.map_eq_nil_iff] at fails ⊢
  simpa [blank] using fails

theorem afterClause_of_not_follows {after : Text} (clause : Span) (before : Text)
    (absent : fromFollows after = false) : (afterClause clause).ways (.between before after) = [] := by
  refine List.eq_nil_iff_forall_not_mem.mpr fun found way => ?_
  obtain ⟨lead, trail, quote, inner, rest, blank, -, -, -, rfl, -⟩ := mem_ways_afterClause way
  rw [fromFollows_of_blank blank] at absent
  cases absent

/-- The ends of a clause behind its first character: the nearest in any case, a farther one where
`endsClause` holds. -/
theorem ways_clauseText_eq {c : Char} (before rest : Text) (first : isClauseChar c = true) :
    clauseText.ways (.between before (c :: rest)) =
      ((), .between (before ++ [c]) rest) ::
        ((Cursor.through isClauseChar (before ++ [c]) rest).tail.filter endsClause).map ((), ·) := by
  cases rest with
  | nil => simp [clauseText, first, Cursor.through]
  | cons d rest =>
      cases second : isClauseChar d with
      | false => simp [clauseText, first, second, Cursor.through]
      | true => simp [ways_clauseText_cons before rest first second, Cursor.through, second]

/-- The ways to go on behind a clause that starts at an offset. -/
def waysBehind (start : Nat) : Cursor → List (ClauseImport × Cursor) :=
  fun place => (afterClause ⟨start, place.offset⟩).ways place

/-- An end that `clauseText` leaves out is never the first one to go on from: `from` does not follow
there, or the statement goes on from the place before a blank as well. -/
theorem waysBehind_of_left_out {c : Char} (start : Nat) (before rest : Text)
    (leftOut : endsClause (.between (before ++ [c]) rest) = false)
    (fails : waysBehind start (.between before (c :: rest)) = []) :
    waysBehind start (.between (before ++ [c]) rest) = [] := by
  cases blank : isBlank c with
  | true => exact afterClause_past_blank _ _ before rest blank fails
  | false =>
      have absent : fromFollows rest = false := by simpa [endsClause, blank] using leftOut
      exact afterClause_of_not_follows _ _ absent

theorem head?_ends (start : Nat) (before after : Text) :
    (waysBehind start (.between before after) ++
      ((Cursor.through isClauseChar before after).tail.filter endsClause).flatMap
        (waysBehind start)).head? =
      ((Cursor.through isClauseChar before after).flatMap (waysBehind start)).head? := by
  induction after generalizing before with
  | nil => simp [Cursor.through]
  | cons c rest ih =>
      cases accepted : isClauseChar c with
      | false => simp [Cursor.through, accepted]
      | true =>
          have places : Cursor.through isClauseChar before (c :: rest) =
              .between before (c :: rest) :: Cursor.through isClauseChar (before ++ [c]) rest := by
            simp [Cursor.through, accepted]
          obtain ⟨farther, nearest⟩ := Cursor.through_eq_cons isClauseChar (before ++ [c]) rest
          have later := ih (before ++ [c])
          rw [places, List.tail_cons, List.flatMap_cons, List.head?_append, List.head?_append, ← later,
            nearest, List.tail_cons]
          -- Only where nothing goes on from here does it matter whether the next place is kept.
          cases here : waysBehind start (.between before (c :: rest)) with
          | cons found others => rfl
          | nil =>
              cases kept : endsClause (.between (before ++ [c]) rest) with
              | true => rw [List.filter_cons_of_pos kept, List.flatMap_cons]
              | false =>
                  rw [List.filter_cons_of_neg (by simp [kept]),
                    waysBehind_of_left_out start before rest kept here, List.nil_append]

theorem clausePart_sameFirst :
    SameFirst (spanOf clauseText >>= afterClause) (spanOf lazyClause >>= afterClause) := by
  intro before after
  cases after with
  | nil => simp [clauseText, lazyClause]
  | cons c rest =>
      cases first : isClauseChar c with
      | false => simp [clauseText, lazyClause, first]
      | true =>
          have ends := head?_ends before.length (before ++ [c]) rest
          unfold waysBehind at ends
          simpa [ways_clauseText_eq before rest first, lazyClause, first, List.flatMap_map] using ends

theorem afterClause_sameFirst (clause : Span) : SameFirst (afterClause clause) (lazyAfter clause) := by
  have wordStarts : ∀ (next : Unit → Pattern ClauseImport) before c after, isBlank c = true →
      (keyword "from" >>= next).ways (.between before (c :: after)) = [] := by
    intro next before c after blank
    by_contra matched
    obtain rfl : 'f' = c := by simpa using heads_of_wordChars before c after matched
    exact absurd blank (by decide)
  have targetStarts : ∀ before c after, isBlank c = true →
      (do let target ← specifier; return (⟨clause, target⟩ : ClauseImport)).ways
        (.between before (c :: after)) = [] := by
    intro before c after blank
    by_contra matched
    obtain ⟨found, way⟩ := List.exists_mem_of_ne_nil _ matched
    obtain ⟨target, place, named, -⟩ := mem_ways_bind.mp way
    obtain ⟨quote, inner, rest, quoted, -, same, -⟩ := mem_ways_specifier named
    obtain ⟨rfl, -⟩ : c = quote ∧ _ := List.cons_eq_cons.mp same
    rw [isQuote_of_clause (.inl blank)] at quoted
    cases quoted
  refine (SameFirst.after (.run _) fun _ => .after (.wordChars _) fun _ => ?_).trans
    (SameFirst.run_many (wordStarts _))
  exact SameFirst.run_many targetStarts

/-- At every place the preferred match of an import with a clause is that of the plain pattern. -/
theorem clauseImport_sameFirst : SameFirst clauseImport lazyImport := by
  have lazyClause_advances : lazyClause.Advances := .bind (.one _) fun _ => .fewUntil _ _
  have clause : SameFirst (spanOf clauseText >>= afterClause) (spanOf lazyClause >>= lazyAfter) :=
    clausePart_sameFirst.trans (.after (.spanOf lazyClause_advances) afterClause_sameFirst)
  exact .after (.wordChars _) fun _ => .after (.bind (.one _) fun _ => .many _) fun _ =>
    .after typeModifier_advances fun _ => clause

theorem clauseImport_all (text : Text) : clauseImport.all text = lazyImport.all text :=
  clauseImport_sameFirst.all_eq text

end Script
end ImportAudit
