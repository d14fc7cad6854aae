import ImportAudit.Proofs.HeraldedNames

/-! Names before a dot. In a specifier a name can start only behind a quote, a slash or a hyphen, so
each piece between such marks holds at most one use of it as the owner of a member. -/
namespace ImportAudit.Script
open Pattern Text

theorem mem_ways_notBefore {rejects : Char → Bool} {before after : Text} {found : Unit × Cursor} :
    found ∈ (notBefore rejects).ways (.between before after) ↔
      after.head?.any rejects = false ∧ found = ((), .between before after) := by
  unfold notBefore
  cases rejected : after.head?.any rejects <;> simp [rejected]

theorem mem_ways_accessor {before after : Text} {found : Unit × Cursor} :
    found ∈ Usage.accessor.ways (.between before after) ↔ ∃ gap query rest,
      after = gap ++ (query ++ '.' :: rest) ∧ (∀ c ∈ gap, isBlank c = true) ∧
      (query = [] ∨ query = ['?']) ∧ rest.head? ≠ some '.' ∧
      found = ((), .between (before ++ gap ++ query ++ ['.']) rest) := by
  have dot : ∀ {before after : Text} {found : Unit × Cursor},
      found ∈ (char '.' >>= fun _ => notBefore (· == '.')).ways (.between before after) ↔
        ∃ rest, after = '.' :: rest ∧ rest.head? ≠ some '.' ∧
          found = ((), .between (before ++ ['.']) rest) := by
    intro before after found
    rw [mem_ways_bind]
    constructor
    · rintro ⟨⟨⟩, place, marked, last⟩
      obtain ⟨c, rest, rfl, same, ⟨⟩⟩ := mem_ways_one.mp marked
      obtain rfl : c = '.' := by simpa using same
      obtain ⟨single, rfl⟩ := mem_ways_notBefore.mp last
      refine ⟨rest, rfl, ?_, rfl⟩
      intro next
      simp [next] at single
    · rintro ⟨rest, rfl, single, rfl⟩
      refine ⟨(), _, mem_ways_one.mpr ⟨'.', rest, rfl, rfl, rfl⟩, mem_ways_notBefore.mpr ⟨?_, rfl⟩⟩
      cases next : rest.head? with
      | none => rfl
      | some c =>
          have other : c ≠ '.' := fun same => single (same ▸ next)
          simpa using other
  constructor
  · intro way
    obtain ⟨⟨⟩, place, passed, way⟩ := mem_ways_bind.mp way
    obtain ⟨gap, rest, rfl, blank, ⟨⟩⟩ := mem_ways_run passed
    obtain ⟨⟨⟩, place, optional, way⟩ := mem_ways_bind.mp way
    unfold maybe at optional
    rw [ways_either, List.mem_append, ways_pure, List.mem_singleton] at optional
    rcases optional with mark | none
    · obtain ⟨c, rest, rfl, same, ⟨⟩⟩ := mem_ways_one.mp mark
      obtain rfl : c = '?' := by simpa using same
      obtain ⟨rest, rfl, single, rfl⟩ := dot.mp way
      exact ⟨gap, ['?'], rest, rfl, blank, .inr rfl, single, rfl⟩
    · obtain ⟨-, rfl⟩ := Prod.mk.inj none
      obtain ⟨rest, rfl, single, rfl⟩ := dot.mp way
      exact ⟨gap, [], rest, rfl, blank, .inl rfl, single, by simp⟩
  · rintro ⟨gap, query, rest, rfl, blank, kind, single, rfl⟩
    have stop : ∀ c, (query ++ '.' :: rest).head? = some c → isBlank c = false := by
      intro c next
      rcases kind with rfl | rfl
      · obtain rfl : '.' = c := by simpa using next
        decide
      · obtain rfl : '?' = c := by simpa using next
        decide
    have passed := ways_run_append before blank stop
    refine mem_ways_bind.mpr ⟨(), _, passed ▸ List.mem_singleton_self _, ?_⟩
    refine mem_ways_bind.mpr ⟨(), .between (before ++ gap ++ query) ('.' :: rest), ?_,
      dot.mpr ⟨rest, rfl, single, rfl⟩⟩
    unfold maybe
    rw [ways_either, List.mem_append]
    rcases kind with rfl | rfl
    · exact .inr (by simp)
    · exact .inl (mem_ways_one.mpr ⟨'?', _, rfl, rfl, rfl⟩)

theorem mem_ways_member {name before after : Text} {found : Nat × Cursor}
    (way : found ∈ (Usage.member.pattern name).ways (.between before after)) :
    before.getLast?.any (fun c => isIdentifier c || c == '.') = false ∧
      ∃ gap query rest, (∀ c ∈ gap, isBlank c = true) ∧ (query = [] ∨ query = ['?']) ∧
        after = name ++ (gap ++ (query ++ '.' :: rest)) ∧ rest.head? ≠ some '.' ∧
        found = (before.length, .between (before ++ (name ++ (gap ++ (query ++ ['.'])))) rest) := by
  obtain ⟨offset, place, named, way⟩ := mem_ways_bind.mp way
  obtain ⟨free, rest, rfl, -, ⟨⟩⟩ := mem_ways_standalone.mp named
  obtain ⟨⟨⟩, place, access, last⟩ := mem_ways_bind.mp way
  obtain rfl := List.mem_singleton.mp last
  obtain ⟨gap, query, rest, rfl, blank, kind, single, ⟨⟩⟩ := mem_ways_accessor.mp access
  exact ⟨free, gap, query, rest, blank, kind, rfl, single, by simp⟩

/-- A name and a dot that is not the first of two are matched in one way. -/
theorem member_first (name : Identifier) {before rest : Text}
    (free : before.getLast?.any (fun c => isIdentifier c || c == '.') = false)
    (single : rest.head? ≠ some '.') :
    (Usage.member.pattern name.text).First (.between before (name.text ++ ['.'] ++ rest)) before.length
      (.between (before ++ (name.text ++ ['.'])) rest) := by
  have named : (standalone name.text).First (.between before (name.text ++ '.' :: rest)) before.length
      (.between (before ++ name.text) ('.' :: rest)) := by
    refine .of_unique (mem_ways_standalone.mpr ⟨free, '.' :: rest, rfl, ?_, rfl⟩) fun found way => ?_
    · have other : isIdentifier '.' = false := by decide
      simpa using other
    · obtain ⟨-, rest', same, -, rfl⟩ := mem_ways_standalone.mp way
      rw [List.append_cancel_left same]
  have stop : ∀ c, ('.' :: rest).head? = some c → isBlank c = false := by
    intro c next
    obtain rfl : '.' = c := by simpa using next
    decide
  have alone : (notBefore (· == '.')).First (.between (before ++ name.text ++ ['.']) rest) ()
      (.between (before ++ name.text ++ ['.']) rest) := by
    refine .of_unique (mem_ways_notBefore.mpr ⟨?_, rfl⟩) fun found way => (mem_ways_notBefore.mp way).2
    cases next : rest.head? with
    | none => rfl
    | some c =>
        have other : c ≠ '.' := fun same => single (same ▸ next)
        simpa using other
  have optional : (maybe (char '?')).First (.between (before ++ name.text) ('.' :: rest)) ()
      (.between (before ++ name.text) ('.' :: rest)) :=
    First.right (by simp [char]) (First.pure ())
  have whole : (Usage.member.pattern name.text).First _ _ _ := named.bind (((First.run_stop _ stop).bind
    (optional.bind ((First.char _ '.' rest).bind alone))).bind (First.pure _))
  simpa using whole

def isSeparator (c : Char) : Bool := c == '/' || c == '-'

/-- The piece starts with the name and a single dot. -/
def isDotted (name piece : Text) : Bool :=
  (name ++ ['.']).isPrefixOf piece && !(name ++ ['.', '.']).isPrefixOf piece

/-- How many pieces of a specifier start with the name and a single dot. -/
def dotted (name text : Text) : Nat := (text.splitOnP isSeparator).countP (isDotted name)

theorem isDotted_iff {name piece : Text} : isDotted name piece = true ↔
    ∃ rest, piece = name ++ '.' :: rest ∧ rest.head? ≠ some '.' := by
  unfold isDotted
  rw [Bool.and_eq_true, Bool.not_eq_true', Bool.eq_false_iff, Ne, List.isPrefixOf_iff_prefix,
    List.isPrefixOf_iff_prefix]
  constructor
  · rintro ⟨⟨rest, rfl⟩, single⟩
    refine ⟨rest, by simp, fun next => single ?_⟩
    obtain ⟨others, rfl⟩ := List.head?_eq_some_iff.mp next
    exact ⟨others, by simp⟩
  · rintro ⟨rest, rfl, single⟩
    refine ⟨⟨rest, by simp⟩, ?_⟩
    rintro ⟨others, same⟩
    obtain rfl : '.' :: others = rest := by simpa using same
    exact single rfl

/-- The characters of a piece between separators. -/
def isPiece (c : Char) : Bool := isWord c || c == '.'

section Specifiers

variable {name : Identifier} {before stretch piece rest : Text}

/-- A name starts with an identifier character. -/
theorem member_quiet_wordless (wordless : ∀ c ∈ stretch, isIdentifier c = false) :
    (Usage.member.pattern name.text).Quiet before stretch rest := by
  rintro left c right rfl
  refine List.eq_nil_iff_forall_not_mem.mpr fun way found => ?_
  obtain ⟨-, gap, query, others, -, -, same, -⟩ := mem_ways_member found
  obtain ⟨n, letters, text⟩ := List.exists_cons_of_ne_nil name.nonempty
  rw [text, List.cons_append, List.cons_append] at same
  obtain ⟨rfl, -⟩ := List.cons_eq_cons.mp same
  have other := wordless c (by simp)
  rw [name.proper c (by simp [text])] at other
  cases other

/-- Within a piece no name starts. -/
theorem member_quiet_piece (inside : before.getLast?.any (fun c => isIdentifier c || c == '.') = true)
    (proper : ∀ c ∈ piece, isPiece c = true) :
    (Usage.member.pattern name.text).Quiet before piece rest := by
  rintro left c right rfl
  refine List.eq_nil_iff_forall_not_mem.mpr fun way found => ?_
  obtain ⟨free, -⟩ := mem_ways_member found
  by_cases empty : left = []
  · rw [empty, List.append_nil, inside] at free
    cases free
  · have last := proper _ (List.mem_append_left _ (List.getLast_mem empty))
    rw [List.getLast?_append_of_ne_nil _ empty, List.getLast?_eq_some_getLast empty, Option.any_some,
      Bool.or_eq_false_iff] at free
    simp only [isPiece, free.2, Bool.or_false] at last
    simp [isIdentifier_of_isWord last] at free

/-- What can come behind a piece. -/
def EndsPiece (rest : Text) : Prop :=
  ∀ c, rest.head? = some c → isIdentifier c = false ∧ isBlank c = false ∧ c ≠ '.' ∧ c ≠ '?'

theorem isSeparator_ends {c : Char} (mark : isSeparator c = true) :
    isIdentifier c = false ∧ isBlank c = false ∧ c ≠ '.' ∧ c ≠ '?' := by
  rcases Bool.or_eq_true_iff.mp mark with slash | hyphen
  · rw [beq_iff_eq.mp slash]
    decide
  · rw [beq_iff_eq.mp hyphen]
    decide

/-- A match at the start of a piece is its name and a single dot. -/
theorem isDotted_of_member {way : Nat × Cursor} (proper : ∀ c ∈ piece, isPiece c = true)
    (ends : EndsPiece rest)
    (member : way ∈ (Usage.member.pattern name.text).ways (.between before (piece ++ rest))) :
    isDotted name.text piece = true := by
  obtain ⟨-, gap, query, others, blank, kind, same, single, -⟩ := mem_ways_member member
  have taken : piece ++ rest = name.text ++ gap ++ query ++ ['.'] ++ others := by simpa using same
  obtain ⟨behind, rfl, rfl⟩ : ∃ behind, piece = name.text ++ gap ++ query ++ ['.'] ++ behind ∧
      others = behind ++ rest := by
    refine exists_of_append taken fun c next inside => ?_
    obtain ⟨other, solid, dot, question⟩ := ends c next
    simp only [List.mem_append, List.mem_singleton] at inside
    rcases inside with ((part | space) | optional) | last
    · simp [name.proper c part] at other
    · simp [blank c space] at solid
    · rcases kind with rfl | rfl
      · cases optional
      · exact question (List.mem_singleton.mp optional)
    · exact dot last
  -- A piece has neither blanks nor question marks, so the dot comes right behind the name.
  have noGap : gap = [] := by
    refine List.eq_nil_iff_forall_not_mem.mpr fun c inside => ?_
    have part := proper c (by simp [inside])
    have space := blank c inside
    rcases Bool.or_eq_true_iff.mp part with letter | dot
    · rw [isBlank_of_isIdentifier (isIdentifier_of_isWord letter)] at space
      cases space
    · rw [beq_iff_eq.mp dot] at space
      exact absurd space (by decide)
  have noQuery : query = [] := by
    refine kind.resolve_right ?_
    rintro rfl
    exact absurd (proper '?' (by simp)) (by decide)
  subst noGap noQuery
  refine isDotted_iff.mpr ⟨behind, by simp, fun next => single ?_⟩
  obtain ⟨more, rfl⟩ := List.head?_eq_some_iff.mp next
  rfl

theorem member_piece (name : Identifier) (before : Text) (proper : ∀ c ∈ piece, isPiece c = true)
    (free : before.getLast?.any (fun c => isIdentifier c || c == '.') = false) (ends : EndsPiece rest) :
    ((Usage.member.pattern name.text).allBetween before (piece ++ rest)).length =
      [piece].countP (isDotted name.text) +
        ((Usage.member.pattern name.text).allBetween (before ++ piece) rest).length := by
  cases found : isDotted name.text piece with
  | true =>
      obtain ⟨behind, rfl, single⟩ := isDotted_iff.mp found
      have apart : (behind ++ rest).head? ≠ some '.' := by
        cases behind with
        | nil => exact fun next => (ends '.' next).2.2.1 rfl
        | cons c behind => simpa using single
      have taken := allBetween_found (by simp) (member_first name free apart)
      have quiet : (Usage.member.pattern name.text).Quiet (before ++ (name.text ++ ['.'])) behind rest :=
        member_quiet_piece (by simp) fun c inside => proper c (by simp [inside])
      have passed := allBetween_pass quiet
      simp only [List.append_assoc, List.cons_append, List.nil_append] at taken passed ⊢
      rw [taken, passed]
      simp [found, Nat.add_comm]
  | false =>
      have quiet : (Usage.member.pattern name.text).Quiet before piece rest := by
        cases piece with
        | nil =>
            intro left c right split
            simp at split
        | cons c piece =>
            refine .cons (List.eq_nil_iff_forall_not_mem.mpr fun way member => ?_)
              (member_quiet_piece ?_ fun d inside => proper d (List.mem_cons_of_mem c inside))
            · simp [isDotted_of_member proper ends member] at found
            · rcases Bool.or_eq_true_iff.mp (proper c List.mem_cons_self) with letter | dot
              · simp [isIdentifier_of_isWord letter]
              · simp [beq_iff_eq.mp dot]
      rw [allBetween_pass quiet]
      simp [found]

/-- The count of the pieces of a specifier is that of the matches. -/
theorem member_pieces (name : Identifier) (before : Text) {text : Text}
    (proper : ∀ c ∈ text, isPiece c = true ∨ isSeparator c = true)
    (free : before.getLast?.any (fun c => isIdentifier c || c == '.') = false) (ends : EndsPiece rest) :
    ((Usage.member.pattern name.text).allBetween before (text ++ rest)).length =
      dotted name.text text +
        ((Usage.member.pattern name.text).allBetween (before ++ text) rest).length := by
  have pieces : ∀ c ∈ text, isSeparator c = false → isPiece c = true := fun c inside whole =>
    (proper c inside).resolve_right (by simp [whole])
  -- The recursion is on the text behind the first separator.
  cases first : text.find? isSeparator with
  | none =>
      have whole : ∀ c ∈ text, isSeparator c = false := by simpa using first
      rw [member_piece name before (fun c inside => pieces c inside (whole c inside)) free ends, dotted,
        List.splitOnP_eq_singleton whole]
  | some c =>
      obtain ⟨mark, piece, more, rfl, whole⟩ := List.find?_eq_some_iff_append.mp first
      obtain ⟨other, -, dot, -⟩ := isSeparator_ends mark
      have plain : ∀ d ∈ piece, isSeparator d = false := by simpa using whole
      have stops : EndsPiece ([c] ++ (more ++ rest)) := by
        intro d next
        obtain rfl : c = d := by simpa using next
        exact isSeparator_ends mark
      have head := member_piece name before (fun d inside => pieces d (by simp [inside]) (plain d inside))
        free stops
      have quiet : (Usage.member.pattern name.text).Quiet (before ++ piece) [c] (more ++ rest) :=
        member_quiet_wordless (by simpa using other)
      have parts : ∀ d ∈ more, isPiece d = true ∨ isSeparator d = true := fun d inside =>
        proper d (by simp [inside])
      have tail := member_pieces name (before ++ piece ++ [c]) parts (by simp [other, dot]) ends
      rw [allBetween_pass quiet, tail] at head
      rw [dotted, List.splitOnP_append_cons _ _ mark, List.splitOnP_eq_singleton plain,
        List.countP_append]
      simp only [List.append_assoc, List.cons_append, List.nil_append] at head ⊢
      rw [head, dotted]
      omega
termination_by text.length
decreasing_by
  subst_vars
  simp
  omega

/-- A character that ends the search for the dot behind a name. -/
def isAccessMark (c : Char) : Bool := isQuote c || c == '.' || c == '?'

theorem isAccessMark_of_clause {c : Char} (part : isBlank c = true ∨ isTokenChar c = true) :
    isAccessMark c = false := by
  have unquoted := isQuote_of_clause part
  have dot : ¬ (isBlank '.' = true ∨ isTokenChar '.' = true) := by decide
  have question : ¬ (isBlank '?' = true ∨ isTokenChar '?' = true) := by decide
  have notDot : c ≠ '.' := fun same => dot (same ▸ part)
  have notQuestion : c ≠ '?' := fun same => question (same ▸ part)
  simp [isAccessMark, unquoted, notDot, notQuestion]

/-- No dot comes before the specifier. -/
theorem member_quiet_head {head : Text} (plain : ∀ c ∈ head, isBlank c = true ∨ isTokenChar c = true)
    (quote : Quote) : (Usage.member.pattern name.text).Quiet before (head ++ [quote.char]) rest := by
  have marked : isAccessMark quote.char = true := by simp [isAccessMark, quote.isQuote_char]
  refine Quiet.of_mark ?_ (fun c inside => isAccessMark_of_clause (plain c inside)) marked
  intro before after matched
  obtain ⟨way, member⟩ := List.exists_mem_of_ne_nil _ matched
  obtain ⟨-, gap, query, others, blank, kind, rfl, -⟩ := mem_ways_member member
  have unmarked : ∀ c ∈ name.text ++ gap, isAccessMark c = false := by
    intro c inside
    refine isAccessMark_of_clause ((List.mem_append.mp inside).symm.imp (blank c) fun part => ?_)
    exact isTokenChar_of_isIdentifier (name.proper c part)
  rcases kind with rfl | rfl
  · refine ⟨name.text ++ gap, '.', others, by simp, unmarked, rfl, ?_⟩
    cases quote <;> decide
  · refine ⟨name.text ++ gap, '?', '.' :: others, by simp, unmarked, rfl, ?_⟩
    cases quote <;> decide

/-- Where a match has the name: at its start, before blanks and a dot. -/
theorem member_place {text : Text} {found : Match Nat}
    (member : found ∈ (Usage.member.pattern name.text).all text) :
    (∃ gap query others, (∀ c ∈ gap, isBlank c = true) ∧ (query = [] ∨ query = ['?']) ∧
        text = text.take found.value ++ (name.text ++ (gap ++ (query ++ '.' :: others)))) ∧
      found.span.start ≤ found.value ∧ found.value < found.span.stop := by
  obtain ⟨lead, after, place, rfl, first, span, -⟩ := first_of_mem_all member
  obtain ⟨-, gap, query, others, blank, kind, rfl, -, same⟩ := mem_ways_member first.mem
  obtain ⟨value, rfl⟩ := Prod.mk.inj same
  have some := List.length_pos_iff.mpr name.nonempty
  refine ⟨⟨gap, query, others, blank, kind, by rw [value, List.take_left]⟩, ?_, ?_⟩
  · rw [span, value]
  · rw [span, value]
    simp only [Cursor.between_offset, List.length_append]
    omega

end Specifiers

end ImportAudit.Script
