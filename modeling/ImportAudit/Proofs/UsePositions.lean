import ImportAudit.Proofs.LineUses
import Mathlib.Algebra.BigOperators.Group.List.Basic
import Mathlib.Data.List.Nodup

/-! The positions of the uses of a name in import lines. Two searches never find the same position, since
what comes before the name differs, so the positions are as many as the uses of the lines. -/
namespace ImportAudit.Script
open Pattern Text

section Order

variable {p : Pattern Nat} {text : Text}

/-- Values that lie within their matches increase from match to match. -/
theorem values_increase (inside : ∀ found ∈ p.all text,
    found.span.start ≤ found.value ∧ found.value < found.span.stop) :
    ((p.all text).map Match.value).Pairwise (· < ·) := by
  rw [List.pairwise_map]
  refine (allFrom_ordered p 0 none 0 text).imp_of_mem fun {first second} member later apart => ?_
  have ends := (inside first member).2
  have starts := (inside second later).1
  omega

end Order

section Dots

variable {first second left right : Text} {c : Char}

/-- A character that the first part does not have is in the second. -/
theorem exists_of_absent (same : first ++ second = left ++ c :: right) (absent : c ∉ first) :
    ∃ left', left = first ++ left' ∧ second = left' ++ c :: right := by
  rcases List.append_eq_append_iff.mp same with ⟨extra, rfl, rfl⟩ | ⟨extra, rfl, tail⟩
  · exact ⟨extra, rfl, rfl⟩
  · cases extra with
    | nil => exact ⟨[], by simp, by simpa using tail.symm⟩
    | cons d extra =>
        obtain ⟨rfl, -⟩ := List.cons_eq_cons.mp tail
        exact absurd (by simp) absent

/-- A dot in the text of import lines is in a specifier: only such characters stand between it and a
quote. -/
theorem Follow.quote_before_dot {lines : List ImportLine} {text : Text} (follow : Follow lines text)
    (split : text = left ++ '.' :: right) :
    ∃ outer, ∃ quote : Quote, ∃ inner, left = outer ++ quote.char :: inner ∧
      ∀ c ∈ inner, isBlank c = false := by
  induction follow generalizing left with
  | last =>
      have inside : '.' ∈ [';'] := by simp [split]
      exact absurd inside (by decide)
  | feed =>
      have inside : '.' ∈ [';', '\n'] := by simp [split]
      exact absurd inside (by decide)
  | @next line lines rest written follow ih =>
      have quoteless : '.' ∉ [written.quote.char] := by cases written.quote <;> decide
      have headless : '.' ∉ ';' :: '\n' :: (written.head ++ [written.quote.char]) := by
        intro inside
        simp only [List.mem_cons, List.mem_append, List.not_mem_nil, or_false] at inside
        rcases inside with same | same | head | same
        · exact absurd same (by decide)
        · exact absurd same (by decide)
        · exact absurd (written.written.mem '.' head) (by decide)
        · exact quoteless (by simpa using same)
      have parts : ';' :: '\n' :: (written.head ++ [written.quote.char]) ++
          (line.specifier.text ++ ([written.quote.char] ++ rest)) = left ++ '.' :: right := by
        rw [← split, written.core_eq]
        simp
      -- The dot is in the specifier of this line or behind it.
      obtain ⟨behind, rfl, tail⟩ := exists_of_absent parts headless
      rcases List.append_eq_append_iff.mp tail with ⟨extra, rfl, later⟩ | ⟨extra, named, later⟩
      · obtain ⟨more, rfl, deeper⟩ := exists_of_absent later quoteless
        obtain ⟨outer, quote, inner, rfl, free⟩ := ih deeper
        exact ⟨';' :: '\n' :: (written.head ++ [written.quote.char]) ++
          (line.specifier.text ++ ([written.quote.char] ++ outer)), quote, inner, by simp, free⟩
      · refine ⟨';' :: '\n' :: written.head, written.quote, behind, by simp, fun d inside => ?_⟩
        exact line.specifier.isBlank_of_mem d (by simp [named, inside])

/-- Up to the quote the text goes on without blanks. -/
theorem solid_of_quote {lead tail outer inner : Text} {quote : Quote}
    (same : lead ++ tail = outer ++ quote.char :: inner) (absent : quote.char ∉ tail)
    (free : ∀ c ∈ inner, isBlank c = false) : ∀ c, lead.getLast? = some c → isBlank c = false := by
  intro c last
  rcases List.append_eq_append_iff.mp same with ⟨extra, -, rfl⟩ | ⟨extra, rfl, split⟩
  · exact absurd (by simp) absent
  · cases extra with
    | nil =>
        obtain rfl : quote.char :: inner = tail := split
        exact absurd List.mem_cons_self absent
    | cons q extra =>
        obtain ⟨rfl, rfl⟩ := List.cons_eq_cons.mp split
        rw [List.getLast?_append_of_ne_nil _ (by simp)] at last
        rcases List.mem_cons.mp (List.mem_of_getLast? last) with rfl | inside
        · cases quote <;> decide
        · exact free c (List.mem_append_left _ inside)

/-- No quote stands between a name and the dot of its member. -/
theorem access_unquoted {name : Identifier} {gap query : Text} (blank : ∀ c ∈ gap, isBlank c = true)
    (kind : query = [] ∨ query = ['?']) (quote : Quote) :
    quote.char ∉ name.text ++ (gap ++ query) := by
  have quoted := quote.isQuote_char
  intro inside
  simp only [List.mem_append] at inside
  rcases inside with part | space | last
  · simp [isQuote_of_clause (.inr (isTokenChar_of_isIdentifier (name.proper _ part)))] at quoted
  · simp [isQuote_of_clause (.inl (blank _ space))] at quoted
  · rcases kind with rfl | rfl
    · cases last
    · cases quote <;> exact absurd last (by decide)

end Dots

/-- What comes before a name in a use of the shape. -/
def Usage.Precedes (usage : Usage) (lead : Text) : Prop :=
  (usage = member ∧ ∀ c, lead.getLast? = some c → isBlank c = false) ∨
    ∃ outer, ∃ word ∈ usage.heralds, ∃ gap, IsGap gap ∧ lead = outer ++ (word ++ gap)

theorem Usage.mem_all (usage : Usage) : usage ∈ all := by
  cases usage <;> decide

/-- The last letters of the words tell the shapes apart. -/
theorem Usage.eq_of_last {usage usage' : Usage} {word word' : Text} (listed : word ∈ usage.heralds)
    (listed' : word' ∈ usage'.heralds) (same : word.getLast? = word'.getLast?) : usage = usage' := by
  have table : ∀ usage ∈ all, ∀ usage' ∈ all, ∀ word ∈ usage.heralds, ∀ word' ∈ usage'.heralds,
      word.getLast? = word'.getLast? → usage = usage' := by decide
  exact table usage usage.mem_all usage' usage'.mem_all word listed word' listed' same

theorem Usage.Precedes.unique {usage usage' : Usage} {lead : Text} (precedes : usage.Precedes lead)
    (precedes' : usage'.Precedes lead) : usage = usage' := by
  -- A gap comes before an announced name, and no blank before the owner of a member.
  have blank : ∀ {outer word gap : Text}, IsGap gap → lead = outer ++ (word ++ gap) →
      ¬ ∀ c, lead.getLast? = some c → isBlank c = false := by
    intro outer word gap separated split solid
    have last := List.getLast?_append_of_ne_nil (outer ++ word) separated.1
    rw [List.append_assoc, ← split, List.getLast?_eq_some_getLast separated.1] at last
    have space := separated.2 _ (List.getLast_mem separated.1)
    simp [solid _ last] at space
  have ends : ∀ {usage : Usage} {word : Text} (outer : Text), word ∈ usage.heralds →
      (outer ++ word).getLast? = word.getLast? ∧
        ∀ c, (outer ++ word).getLast? = some c → isBlank c = false := by
    intro usage word outer listed
    have last := List.getLast?_append_of_ne_nil outer (usage.heralds_proper.nonempty word listed)
    refine ⟨last, fun c next => ?_⟩
    have letter := usage.heralds_proper.letters word listed c (List.mem_of_getLast? (last ▸ next))
    exact isBlank_of_isIdentifier (isIdentifier_of_isWord letter)
  rcases precedes with ⟨rfl, solid⟩ | ⟨outer, word, listed, gap, separated, split⟩
  · rcases precedes' with ⟨rfl, -⟩ | ⟨outer', word', listed', gap', separated', split'⟩
    · rfl
    · exact absurd solid (blank separated' split')
  · rcases precedes' with ⟨rfl, solid⟩ | ⟨outer', word', listed', gap', separated', split'⟩
    · exact absurd solid (blank separated split)
    · obtain ⟨last, solid⟩ := ends outer listed
      obtain ⟨last', solid'⟩ := ends outer' listed'
      have same : outer ++ word = outer' ++ word' := eq_of_append_blank
        (by rw [List.append_assoc, List.append_assoc, ← split, ← split']) separated.2 separated'.2 solid
        solid'
      exact eq_of_last listed listed' (by rw [← last, ← last', same])

section Positions

variable {name : Identifier} {lines : List ImportLine} {text : Text}

/-- Where a search in import lines finds a use. -/
theorem Usage.place (usage : Usage) (follow : Follow lines text) {found : Match Nat}
    (member : found ∈ (usage.pattern name.text).all text) :
    usage.Precedes (text.take found.value) ∧
      found.span.start ≤ found.value ∧ found.value < found.span.stop := by
  by_cases dots : usage = .member
  · subst dots
    obtain ⟨⟨gap, query, others, blank, kind, split⟩, bounds⟩ := member_place member
    refine ⟨.inl ⟨rfl, fun c last => ?_⟩, bounds⟩
    have placed : text = (text.take found.value ++ (name.text ++ (gap ++ query))) ++ '.' :: others := by
      simpa using split
    obtain ⟨outer, quote, inner, before, free⟩ := follow.quote_before_dot placed
    exact solid_of_quote before (access_unquoted blank kind quote) free c last
  · by_cases silent : usage.heralds = []
    · have none := usage.count_follow name follow []
      rw [sum_countIn name.text lines ⟨dots, silent⟩] at none
      rw [all_eq_allBetween, List.length_eq_zero_iff.mp none] at member
      cases member
    · obtain ⟨⟨outer, word, listed, gap, separated, split⟩, bounds⟩ :=
        (matches_heralded name.text silent).place (fun c inside =>
          typeMark_of_isLineChar (follow.isLineChar_of_mem c inside)) member
      exact ⟨.inr ⟨outer, word, listed, gap, separated, split⟩, bounds⟩

/-- The uses of all shapes in a line. -/
def ImportLine.uses (name : Text) (line : ImportLine) : Nat :=
  (Usage.all.map fun usage => usage.countIn name line).sum

end Positions

end ImportAudit.Script
