import ImportAudit.Path

/-! Reading back what was written: the components of a text, and of a path with text added to its
written form. -/
namespace ImportAudit

namespace Text

theorem split_of_not_mem {separator : Char} {text : Text} (absent : separator ∉ text) :
    text.split separator = [text] := by
  induction text with
  | nil => rfl
  | cons c rest ih =>
      obtain ⟨other, absent⟩ : separator ≠ c ∧ separator ∉ rest := by simpa using absent
      rw [split, if_neg (Ne.symm other), ih absent]

theorem split_ne_nil (separator : Char) (text : Text) : text.split separator ≠ [] := by
  cases text with
  | nil => simp [split]
  | cons c rest =>
      rw [split]
      split
      · simp
      · split <;> simp

theorem split_append_separator (separator : Char) (first second : Text) :
    (first ++ separator :: second).split separator =
      first.split separator ++ second.split separator := by
  induction first with
  | nil => simp [split]
  | cons c rest ih =>
      rw [List.cons_append, split, split, ih]
      split
      · rfl
      · cases pieces : Text.split separator rest with
        | nil => exact absurd pieces (split_ne_nil separator rest)
        | cons piece others => rfl

/-- Text without a separator goes to the first piece of what follows it. -/
theorem split_append_of_not_mem {separator : Char} {first : Text} (absent : separator ∉ first)
    (second : Text) :
    (first ++ second).split separator =
      (first ++ (second.split separator).headD []) :: (second.split separator).tail := by
  induction first with
  | nil =>
      cases pieces : second.split separator with
      | nil => exact absurd pieces (split_ne_nil separator second)
      | cons piece others => simp [pieces]
  | cons c rest ih =>
      obtain ⟨other, absent⟩ : separator ≠ c ∧ separator ∉ rest := by simpa using absent
      rw [List.cons_append, split, if_neg (Ne.symm other), ih absent]
      rfl

end Text

namespace Anchor

/-- The slashes at the start of a text are an anchor, if no more of them follow. -/
theorem ofText_render (anchor : Anchor) {text : Text} (plain : text.head? ≠ some '/') :
    ofText (anchor.render.toList ++ text) = anchor := by
  cases text with
  | nil => cases anchor <;> rfl
  | cons c rest =>
      have other : c ≠ '/' := by simpa using plain
      cases anchor with
      | relative => simp [render, ofText, other]
      | root => simp [render, ofText, other]
      | doubleRoot => simp [render, ofText, other]

theorem ofText_eq_relative_iff {text : Text} : ofText text = .relative ↔ text.head? ≠ some '/' := by
  cases text with
  | nil => simp [ofText]
  | cons c rest =>
      by_cases slash : c = '/'
      · subst slash
        simp only [ofText, List.head?_cons, ne_eq, not_true_eq_false, iff_false]
        split <;> simp_all
      · simp [ofText, slash]

end Anchor

namespace Path

variable {path : Path} {text : Text}

def partsAmong (pieces : List Text) : List String :=
  (pieces.filter fun part => part ≠ [] ∧ part ≠ ['.']).map String.ofList

theorem partsOf_eq (text : Text) : partsOf text = partsAmong (text.split '/') := rfl

/-- A text without slashes is one component, or none. -/
theorem parse_parts_of_not_mem {text : String} (plain : '/' ∉ text.toList) :
    (parse text).parts = [] ∨ (parse text).parts = [text] := by
  simp only [parse, partsOf, Text.split_of_not_mem plain, List.filter_cons]
  split
  · exact Or.inr (by simp)
  · exact Or.inl rfl

theorem partsOf_slash (first second : Text) :
    partsOf (first ++ '/' :: second) = partsOf first ++ partsOf second := by
  simp only [partsOf, Text.split_append_separator, List.filter_append, List.map_append]

/-- A component takes the first piece of the text that follows it to itself. -/
theorem partsOf_component_append {part : String} (component : IsComponent part) (text : Text) :
    partsOf (part.toList ++ text) =
      String.ofList (part.toList ++ (text.split '/').headD []) ::
        partsAmong (text.split '/').tail := by
  obtain ⟨notEmpty, notDot, noSlash⟩ := component
  have kept : part.toList ++ (text.split '/').headD [] ≠ [] ∧
      part.toList ++ (text.split '/').headD [] ≠ ['.'] := by
    have nonempty : part.toList ≠ [] := by simpa using notEmpty
    refine ⟨by simp [nonempty], fun dot => notDot ?_⟩
    obtain ⟨c, rest, text⟩ := List.exists_cons_of_ne_nil nonempty
    rw [text, List.cons_append, List.cons.injEq] at dot
    have alone : part.toList = ['.'] := by
      rw [text, dot.1, (List.append_eq_nil_iff.mp dot.2).1]
    exact String.toList_injective alone
  rw [partsOf_eq, Text.split_append_of_not_mem noSlash]
  rw [partsAmong, List.filter_cons, if_pos (decide_eq_true kept), List.map_cons]
  rfl

theorem partsOf_component {part : String} (component : IsComponent part) :
    partsOf part.toList = [part] := by
  simpa [Text.split, partsAmong] using partsOf_component_append component []

/-- Components joined by slashes, and text after the last of them. -/
theorem partsOf_joined {parts : List String} {last : String} {text : Text}
    (proper : ∀ part ∈ parts, IsComponent part) :
    partsOf (("/".intercalate (parts ++ [last])).toList ++ text) =
      parts ++ partsOf (last.toList ++ text) := by
  induction parts with
  | nil => simp
  | cons part parts ih =>
      obtain ⟨component, proper⟩ : IsComponent part ∧ ∀ part ∈ parts, IsComponent part := by
        simpa using proper
      rw [List.cons_append, String.intercalate_cons_of_ne_nil (by simp)]
      have written : (part ++ "/" ++ "/".intercalate (parts ++ [last])).toList ++ text =
          part.toList ++ '/' :: (("/".intercalate (parts ++ [last])).toList ++ text) := by
        simp [String.toList_append]
      rw [written, partsOf_slash, partsOf_component component, ih proper, List.singleton_append]
      rfl

theorem take_eq_iff {root : Path} {count : Nat} (short : count ≤ path.parts.length) :
    path.take count = root ↔
      path.anchor = root.anchor ∧ root.parts <+: path.parts ∧ root.parts.length = count := by
  constructor
  · rintro rfl
    exact ⟨rfl, List.take_prefix count path.parts, List.length_take_of_le short⟩
  · rintro ⟨anchors, above, rfl⟩
    exact ext anchors (List.prefix_iff_eq_take.mp above).symm

/-- A path lies within another if it starts with all of its components. -/
theorem isWithin_iff {root : Path} :
    path.isWithin root = true ↔ path.anchor = root.anchor ∧ root.parts <+: path.parts := by
  simp only [isWithin, parents, Bool.or_eq_true, decide_eq_true_eq, List.mem_map, List.mem_reverse,
    List.mem_range]
  constructor
  · rintro (rfl | ⟨count, fewer, above⟩)
    · exact ⟨rfl, List.prefix_refl path.parts⟩
    · obtain ⟨anchors, above, -⟩ := (take_eq_iff (Nat.le_of_lt fewer)).mp above
      exact ⟨anchors, above⟩
  · rintro ⟨anchors, above⟩
    rcases Nat.lt_or_eq_of_le above.length_le with fewer | same
    · exact Or.inr ⟨root.parts.length, fewer,
        (take_eq_iff (Nat.le_of_lt fewer)).mpr ⟨anchors, above, rfl⟩⟩
    · exact Or.inl (ext anchors (above.eq_of_length same).symm)

/-- There is nothing to drop from a path without `..`. -/
theorem normalizeParts_of_down {relative : Bool} {parts : List String} (down : ".." ∉ parts)
    (kept : List String) : normalizeParts relative kept parts = kept.reverse ++ parts := by
  induction parts generalizing kept with
  | nil => simp [normalizeParts]
  | cons part parts ih =>
      obtain ⟨proper, down⟩ : ".." ≠ part ∧ ".." ∉ parts := by simpa using down
      simp [normalizeParts, Ne.symm proper, ih down]

theorem partsOf_anchored (anchor : Anchor) (text : Text) :
    partsOf (anchor.render.toList ++ text) = partsOf text := by
  have leading (text : Text) : partsOf ('/' :: text) = partsOf text := partsOf_slash [] text
  cases anchor with
  | relative => rfl
  | root => exact leading text
  | doubleRoot => exact (leading _).trans (leading text)

theorem partsOf_intercalate {parts : List String} (proper : ∀ part ∈ parts, IsComponent part) :
    partsOf ("/".intercalate parts).toList = parts := by
  rcases List.eq_nil_or_concat parts with rfl | ⟨folders, last, rfl⟩
  · rfl
  · rw [List.concat_eq_append] at proper ⊢
    have component : IsComponent last := proper last (by simp)
    have joined := @partsOf_joined folders last [] fun part member => proper part (by simp [member])
    simpa [partsOf_component component] using joined

/-- Components joined by slashes do not start with one. -/
theorem head_intercalate {parts : List String} (proper : ∀ part ∈ parts, IsComponent part) :
    ("/".intercalate parts).toList.head? ≠ some '/' := by
  cases parts with
  | nil => simp
  | cons part parts =>
      obtain ⟨notEmpty, -, noSlash⟩ := proper part List.mem_cons_self
      have letters : part.toList ≠ [] := by simpa using notEmpty
      have starts : ∃ rest, ("/".intercalate (part :: parts)).toList = part.toList ++ rest := by
        cases parts with
        | nil => exact ⟨[], by simp⟩
        | cons other parts =>
            rw [String.intercalate_cons_of_ne_nil (by simp), String.append_assoc, String.toList_append]
            exact ⟨_, rfl⟩
      obtain ⟨rest, written⟩ := starts
      rw [written, List.head?_append, List.head?_eq_some_head letters, Option.some_or]
      intro slash
      exact noSlash (Option.some.inj slash ▸ List.head_mem letters)

/-- A written path is read back. -/
theorem parse_render (path : Path) : parse path.render = path := by
  unfold parse render
  split
  · rename_i empty
    apply ext
    · exact empty.1.symm
    · exact empty.2.symm
  · apply ext
    · simp only [String.toList_append]
      exact Anchor.ofText_render path.anchor (head_intercalate path.proper)
    · simp only [String.toList_append, partsOf_anchored]
      exact partsOf_intercalate path.proper

end Path
end ImportAudit
