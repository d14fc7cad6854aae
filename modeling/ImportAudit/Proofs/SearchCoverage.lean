import ImportAudit.Proofs.Usage

/-! What a search can miss. It goes on behind each match, so it misses a match only where another one
covers its start. Where matches that overlap have the same value, the values found are therefore those
of all matches in the text. -/
namespace ImportAudit

/-- Of two first parts of a text, one is longer and goes on into the other's rest, or it is part of the
other. -/
theorem Text.exists_extra {first second taken rest : Text} (same : first ++ second = taken ++ rest) :
    (∃ extra, extra ≠ [] ∧ taken = first ++ extra ∧ second = extra ++ rest) ∨
      ∃ extra, first = taken ++ extra ∧ rest = extra ++ second := by
  rcases List.append_eq_append_iff.mp same with ⟨extra, rfl, rfl⟩ | ⟨extra, rfl, rfl⟩
  · by_cases empty : extra = []
    · exact .inr ⟨[], by simp [empty], by simp [empty]⟩
    · exact .inl ⟨extra, empty, rfl, rfl⟩
  · exact .inr ⟨extra, rfl, rfl⟩

namespace Pattern

variable {α : Type} {p : Pattern α} {before after passed text : Text} {a : α}

/-- The pattern can match the text `taken`, with a value, between two pieces of text. -/
def Takes (p : Pattern α) (before taken rest : Text) (a : α) : Prop :=
  (a, .between (before ++ taken) rest) ∈ p.ways (.between before (taken ++ rest))

/-- However the pattern matches, it takes some text. -/
def Consumes (p : Pattern α) : Prop :=
  ∀ before after found, found ∈ p.ways (.between before after) →
    ∃ taken rest, taken ≠ [] ∧ after = taken ++ rest ∧ found.2 = .between (before ++ taken) rest

/-- A match that starts where another one has not yet ended has the same value. -/
def Unanimous (p : Pattern α) : Prop :=
  ∀ before left right rest a taken rest' b, right ≠ [] → p.Takes before (left ++ right) rest a →
    right ++ rest = taken ++ rest' → p.Takes (before ++ left) taken rest' b → a = b

theorem Consumes.exists_first (consumes : p.Consumes)
    (matched : p.ways (.between before after) ≠ []) :
    ∃ a taken rest, taken ≠ [] ∧ after = taken ++ rest ∧
      p.First (.between before (taken ++ rest)) a (.between (before ++ taken) rest) := by
  obtain ⟨⟨a, place⟩, others, ways⟩ := List.exists_cons_of_ne_nil matched
  have first : p.First (.between before after) a place := by simp [First, ways]
  obtain ⟨taken, rest, nonempty, rfl, moved⟩ := consumes before after _ first.mem
  obtain rfl : place = .between (before ++ taken) rest := moved
  exact ⟨a, taken, rest, nonempty, rfl, first⟩

/-- Where the pattern matches, the search finds a match that covers the place. -/
theorem exists_covering (consumes : p.Consumes)
    (matched : p.ways (.between (before ++ passed) after) ≠ []) :
    ∃ found ∈ p.allBetween before (passed ++ after), ∃ earlier left right rest,
      before ++ passed = earlier ++ left ∧ after = right ++ rest ∧ right ≠ [] ∧
      p.Takes earlier (left ++ right) rest found.value := by
  -- The induction is on what the search has still to pass before it comes to the place.
  induction size : passed.length using Nat.strong_induction_on generalizing before passed with
  | _ n ih =>
      by_cases quiet : p.ways (.between before (passed ++ after)) = []
      · cases passed with
        | nil =>
            rw [List.append_nil] at matched
            exact absurd quiet matched
        | cons c passed =>
            have pass : p.allBetween before (c :: (passed ++ after)) =
                p.allBetween (before ++ [c]) (passed ++ after) := by
              have single : p.Quiet before [c] (passed ++ after) := by
                apply Quiet.cons
                · exact quiet
                · intro left d right split
                  simp at split
              exact allBetween_pass single
            have later : p.ways (.between (before ++ [c] ++ passed) after) ≠ [] := by
              simpa using matched
            obtain ⟨found, member, earlier, left, right, rest, split, covered⟩ :=
              ih passed.length (by rw [← size]; simp) later rfl
            refine ⟨found, ?_, earlier, left, right, rest, ?_, covered⟩
            · rw [List.cons_append, pass]
              exact member
            · rw [← split]
              simp
      · obtain ⟨a, taken, rest, nonempty, same, first⟩ := consumes.exists_first quiet
        rcases Text.exists_extra same with ⟨extra, longer, rfl, rfl⟩ | ⟨extra, rfl, rfl⟩
        · refine ⟨⟨⟨before.length, (before ++ (passed ++ extra)).length⟩, a⟩, ?_,
            before, passed, extra, rest, rfl, rfl, longer, first.mem⟩
          rw [← List.append_assoc, allBetween_found nonempty first]
          exact List.mem_cons_self
        · -- The match ends before the place, and the search goes on behind it.
          have step := allBetween_found nonempty first
          have later : p.ways (.between (before ++ taken ++ extra) after) ≠ [] := by
            simpa using matched
          have shorter : extra.length < n := by
            have some := List.length_pos_iff.mpr nonempty
            rw [← size, List.length_append]
            omega
          obtain ⟨found, member, earlier, left, right, rest, split, covered⟩ :=
            ih extra.length shorter later rfl
          refine ⟨found, ?_, earlier, left, right, rest, ?_, covered⟩
          · rw [List.append_assoc, step]
            exact List.mem_cons_of_mem _ member
          · rw [← split, List.append_assoc]

/-- A pattern that takes some text wherever it matches occurs in a text if the search finds a match. -/
theorem occurs_iff_all_ne_nil (consumes : p.Consumes) :
    p.occurs text = true ↔ p.all text ≠ [] := by
  rw [occurs_iff]
  constructor
  · rintro ⟨left, right, rfl, matched⟩
    have place : p.ways (.between ([] ++ left) right) ≠ [] := matched
    obtain ⟨found, member, -⟩ := exists_covering consumes place
    exact List.ne_nil_of_mem member
  · intro some
    obtain ⟨found, member⟩ := List.exists_mem_of_ne_nil _ some
    obtain ⟨before, after, place, split, first, -⟩ := first_of_mem_all member
    exact ⟨before, after, split, List.ne_nil_of_mem first.mem⟩

/-- The values that a search finds are those of all matches. -/
theorem mem_values_iff (consumes : p.Consumes) (unanimous : p.Unanimous) :
    a ∈ (p.all text).map Match.value ↔
      ∃ before taken rest, text = before ++ (taken ++ rest) ∧ p.Takes before taken rest a := by
  constructor
  · intro listed
    obtain ⟨found, member, rfl⟩ := List.mem_map.mp listed
    obtain ⟨before, after, place, rfl, first, -⟩ := first_of_mem_all member
    obtain ⟨taken, rest, -, rfl, moved⟩ := consumes before after _ first.mem
    obtain rfl : place = .between (before ++ taken) rest := moved
    exact ⟨before, taken, rest, rfl, first.mem⟩
  · rintro ⟨before, taken, rest, rfl, takes⟩
    have matched : p.ways (.between ([] ++ before) (taken ++ rest)) ≠ [] := List.ne_nil_of_mem takes
    obtain ⟨found, member, earlier, left, right, rest', split, same, nonempty, covers⟩ :=
      exists_covering consumes matched
    obtain rfl : before = earlier ++ left := split
    have value : found.value = a :=
      unanimous earlier left right rest' _ taken rest _ nonempty covers same.symm takes
    exact List.mem_map.mpr ⟨found, member, value⟩

end Pattern
end ImportAudit
