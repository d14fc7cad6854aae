import ImportAudit.Proofs.ImportItem

/-! Import clauses. A clause is given by its parts and written as tokens with gaps between them;
whatever the gaps, the bindings read from the text are those of the parts, in the order of the
clause. -/
namespace ImportAudit.Script
open Pattern Text

/-- A name for the default of a module. In this place `type` would be a modifier. -/
structure DefaultName extends Identifier where
  notType : text ≠ Identifier.typeWord.text

/-- What a clause takes besides the default: the whole module under a name, or a list of names. -/
inductive Selection
  | wholeModule (name : Identifier)
  | named (items : List ImportItem) (trailingComma : Bool)

inductive ImportClause
  | default (name : DefaultName)
  | selected (selection : Selection)
  | both (name : DefaultName) (selection : Selection)

namespace Selection

def tokens : Selection → List Text
  | wholeModule name => [['*'], Identifier.asWord.text, name.text]
  | named items trailingComma => ['{'] :: listTokens items trailingComma ++ [['}']]

def names : Selection → List (BindingKind × String × String)
  | wholeModule name => [(.wholeModule, .ofList name.text, .ofList name.text)]
  | named items _ => items.map ImportItem.names

theorem tokens_ne_nil (selection : Selection) : selection.tokens ≠ [] := by
  cases selection <;> simp [tokens]

end Selection

def DefaultName.names (name : DefaultName) : BindingKind × String × String :=
  (.defaultExport, .ofList name.text, .ofList name.text)

namespace ImportClause

def tokens : ImportClause → List Text
  | default name => [name.text]
  | selected selection => selection.tokens
  | both name selection => name.text :: [','] :: selection.tokens

def names : ImportClause → List (BindingKind × String × String)
  | default name => [name.names]
  | selected selection => selection.names
  | both name selection => name.names :: selection.names

end ImportClause

def isTokenChar (c : Char) : Bool :=
  isIdentifier c || c == '*' || c == '{' || c == '}' || c == ','

theorem isTokenChar_of_isIdentifier {c : Char} (part : isIdentifier c = true) :
    isTokenChar c = true := by
  simp [isTokenChar, part]

theorem isBlank_of_isTokenChar {c : Char} (part : isTokenChar c = true) : isBlank c = false := by
  simp only [isTokenChar, Bool.or_eq_true, beq_iff_eq] at part
  obtain ((((part | rfl) | rfl) | rfl) | rfl) := part
  · exact isBlank_of_isIdentifier part
  all_goals decide

def IsToken (token : Text) : Prop := token ≠ [] ∧ ∀ c ∈ token, isTokenChar c = true

theorem isToken_singleton {c : Char} (part : isTokenChar c = true) : IsToken [c] :=
  ⟨List.cons_ne_nil c [], List.forall_mem_singleton.mpr part⟩

theorem Identifier.isToken (name : Identifier) : IsToken name.text :=
  ⟨name.nonempty, fun c member => isTokenChar_of_isIdentifier (name.proper c member)⟩

/-- The last token of a text that ends in blanks is determined, with what stands before it. -/
theorem IsToken.eq_of_append_blank {token token' before before' gap gap' : Text}
    (isToken : IsToken token) (isToken' : IsToken token')
    (same : before ++ (token ++ gap) = before' ++ (token' ++ gap'))
    (blank : ∀ c ∈ gap, isBlank c = true) (blank' : ∀ c ∈ gap', isBlank c = true) :
    before ++ token = before' ++ token' ∧ token.getLast? = token'.getLast? := by
  have solid : ∀ {before token : Text}, IsToken token →
      ∀ c, (before ++ token).getLast? = some c → isBlank c = false := fun isToken c last =>
    isBlank_of_isTokenChar (isToken.2 c (List.mem_of_getLast?
      (List.getLast?_append_of_ne_nil _ isToken.1 ▸ last)))
  have tokens : before ++ token = before' ++ token' :=
    Text.eq_of_append_blank (by simpa using same) blank blank' (solid isToken) (solid isToken')
  have ends := congrArg List.getLast? tokens
  rw [List.getLast?_append_of_ne_nil _ isToken.1, List.getLast?_append_of_ne_nil _ isToken'.1] at ends
  exact ⟨tokens, ends⟩

theorem isToken_of_mem_listTokens {items : List ImportItem} {trailing : Bool} {token : Text}
    (member : token ∈ listTokens items trailing) : IsToken token := by
  rcases mem_listTokens member with rfl | ⟨item, -, listed⟩
  · exact isToken_singleton (by decide)
  · obtain ⟨nonempty, proper⟩ := item.mem_tokens listed
    exact ⟨nonempty, fun c inside => isTokenChar_of_isIdentifier (proper c inside)⟩

theorem Selection.isToken_of_mem {selection : Selection} {token : Text}
    (member : token ∈ selection.tokens) : IsToken token := by
  have star : IsToken ['*'] := isToken_singleton (by decide)
  have opening : IsToken ['{'] := isToken_singleton (by decide)
  have closing : IsToken ['}'] := isToken_singleton (by decide)
  cases selection with
  | wholeModule name =>
      simp only [tokens, List.mem_cons, List.not_mem_nil, or_false] at member
      rcases member with rfl | rfl | rfl
      exacts [star, Identifier.asWord.isToken, name.isToken]
  | named items trailing =>
      simp only [tokens, List.cons_append, List.mem_cons, List.mem_append, List.not_mem_nil,
        or_false] at member
      rcases member with rfl | listed | rfl
      exacts [opening, isToken_of_mem_listTokens listed, closing]

theorem ImportClause.isToken_of_mem {clause : ImportClause} {token : Text}
    (member : token ∈ clause.tokens) : IsToken token := by
  have comma : IsToken [','] := isToken_singleton (by decide)
  cases clause with
  | default name =>
      obtain rfl : token = name.text := by simpa [tokens] using member
      exact name.isToken
  | selected selection => exact Selection.isToken_of_mem member
  | both name selection =>
      simp only [tokens, List.mem_cons] at member
      rcases member with rfl | rfl | listed
      exacts [name.isToken, comma, Selection.isToken_of_mem listed]

theorem identifier_first (before : Text) (name : Identifier) {rest : Text}
    (stop : ∀ c, rest.head? = some c → isIdentifier c = false) :
    identifier.First (.between before (name.text ++ rest))
      ⟨before.length, (before ++ name.text).length⟩ (.between (before ++ name.text) rest) :=
  First.spanOf (First.many1 before name.nonempty name.proper stop)

/-- What may come after a default name: blanks, and then a comma or the end. -/
inductive EndsDefault : Text → Prop
  | finish : EndsDefault []
  | comma {gap : Text} (rest : Text) : IsGap gap → EndsDefault (gap ++ ',' :: rest)

theorem defaultName_first (name : Identifier) {rest : Text} (ends : EndsDefault rest) :
    ∃ place, defaultName.First (.between [] (name.text ++ rest)) ⟨0, name.text.length⟩ place := by
  cases ends with
  | finish =>
      have finished : (either (char ',') atEnd).First (.between name.text []) () (.between name.text []) :=
        First.right (by simp [char]) (First.atEnd name.text)
      exact ⟨_, (First.run_stop [] (name.solid_head [])).bind
        ((identifier_first [] name (by simp)).bind
          ((First.run_stop name.text (by simp)).bind (finished.bind (First.pure _))))⟩
  | @comma gap rest separated =>
      have stop : ∀ c, (gap ++ ',' :: rest).head? = some c → isIdentifier c = false :=
        fun c next => isIdentifier_of_isBlank (separated.head _ c next)
      exact ⟨_, (First.run_stop [] (name.solid_head _)).bind
        ((identifier_first [] name stop).bind
          ((First.run name.text separated.2 (by simp; decide)).bind
            ((First.char _ ',' rest).left.bind (First.pure _))))⟩

theorem defaultBinding_names (line : Nat → Int) (name : DefaultName) {rest : Text}
    (ends : EndsDefault rest) :
    (defaultBinding line (name.text ++ rest)).map Binding.names = [name.names] := by
  obtain ⟨place, first⟩ := defaultName_first name.toIdentifier ends
  have found : wordAt (name.text ++ rest) ⟨0, name.text.length⟩ = .ofList name.text :=
    congrArg String.ofList (slice_append [] name.text rest)
  have notType : String.ofList name.text ≠ "type" := fun same =>
    name.notType ((String.toList_ofList).symm.trans (congrArg String.toList same))
  simp [defaultBinding, matchStart?, Cursor.start_eq, first.matchAt?, found, notType,
    sameNameBinding, Binding.names, DefaultName.names]

theorem defaultBinding_eq_nil (line : Nat → Int) {c : Char} (rest : Text) (solid : isBlank c = false)
    (other : isIdentifier c = false) : defaultBinding line (c :: rest) = [] := by
  have fails : defaultName.ways (.between [] (c :: rest)) = [] := by
    simp [defaultName, blankRun, identifier, many1, solid, other]
  simp [defaultBinding, matchStart?, Cursor.start_eq, matchAt?_eq_none fails]

theorem namespaceName_first {gap gap' rest : Text} (before : Text)
    (blank : ∀ c ∈ gap, isBlank c = true) (separated : IsGap gap') (name : Identifier)
    (stop : ∀ c, rest.head? = some c → isIdentifier c = false) :
    namespaceName.First
      (.between before ('*' :: (gap ++ (Identifier.asWord.text ++ (gap' ++ (name.text ++ rest))))))
      ⟨(before ++ ['*'] ++ gap ++ Identifier.asWord.text ++ gap').length,
        (before ++ ['*'] ++ gap ++ Identifier.asWord.text ++ gap' ++ name.text).length⟩
      (.between (before ++ ['*'] ++ gap ++ Identifier.asWord.text ++ gap' ++ name.text) rest) := by
  exact (First.char before '*' _).bind ((First.run _ blank (Identifier.asWord.solid_head _)).bind
    ((First.chars _ _ _).bind ((First.run1 _ separated.1 separated.2 (name.solid_head rest)).bind
      (identifier_first _ name stop))))

theorem namespaceName_heads (before : Text) (c : Char) (after : Text)
    (matched : namespaceName.ways (.between before (c :: after)) ≠ []) : c = '*' := by
  by_contra other
  simp [namespaceName, char, other] at matched

theorem namespaceBinding_eq_nil {clause : Text} (line : Nat → Int) (absent : '*' ∉ clause) :
    namespaceBinding line clause = [] := by
  have quiet : namespaceName.Quiet [] clause [] :=
    Quiet.of_heads namespaceName_heads fun c member => ne_of_mem_of_not_mem member absent
  simp [namespaceBinding, first?_eq_none quiet (by simp [namespaceName, char])]

theorem namespaceBinding_names {lead gap gap' rest : Text} (line : Nat → Int) (absent : '*' ∉ lead)
    (blank : ∀ c ∈ gap, isBlank c = true) (separated : IsGap gap') (name : Identifier)
    (stop : ∀ c, rest.head? = some c → isIdentifier c = false) :
    (namespaceBinding line (lead ++ '*' :: (gap ++ (Identifier.asWord.text ++ (gap' ++
      (name.text ++ rest)))))).map Binding.names = (Selection.wholeModule name).names := by
  have quiet : namespaceName.Quiet [] lead
      ('*' :: (gap ++ (Identifier.asWord.text ++ (gap' ++ (name.text ++ rest))))) :=
    Quiet.of_heads namespaceName_heads fun c member => ne_of_mem_of_not_mem member absent
  have found := first?_eq_some quiet (namespaceName_first lead blank separated name stop)
  have word := slice_append (lead ++ ['*'] ++ gap ++ Identifier.asWord.text ++ gap') name.text rest
  simp only [List.append_assoc, List.cons_append, List.nil_append] at found word
  rw [namespaceBinding, found]
  simp only [List.map_cons, List.map_nil, sameNameBinding, Binding.names, wordAt, word,
    Selection.names]

/-- The two forms of a selection, written out. -/
theorem Selection.shape {selection : Selection} {body : Text} (spaced : Spaced selection.tokens body) :
    (∃ gap gap' name, IsGap gap ∧ IsGap gap' ∧ selection = .wholeModule name ∧
      body = '*' :: (gap ++ (Identifier.asWord.text ++ (gap' ++ name.text)))) ∨
    ∃ items trailing inner, Spaced ([] :: listTokens items trailing ++ [[]]) inner ∧
      selection = .named items trailing ∧ body = '{' :: (inner ++ ['}']) := by
  cases selection with
  | wholeModule name =>
      cases spaced with
      | next _ gap later =>
        cases later with
        | next _ gap' later =>
            exact .inl ⟨_, _, name, gap, gap', rfl, by simp [later.eq_of_single]⟩
  | named items trailing =>
      have shape : Spaced ([] ++ ['{'] :: (listTokens items trailing ++ [['}']])) body := spaced
      obtain ⟨left, right, rfl, first, second⟩ := shape.split
      have shape : Spaced (([] :: listTokens items trailing) ++ ['}'] :: []) right := second
      obtain ⟨inner, right, rfl, listed, last⟩ := shape.split
      have left : left = [] := first.eq_of_single
      have right : right = [] := last.eq_of_single
      exact .inr ⟨items, trailing, inner, listed, rfl, by simp [left, right]⟩

theorem mem_of_list {items : List ImportItem} {trailing : Bool} {inner : Text}
    (spaced : Spaced ([] :: listTokens items trailing ++ [[]]) inner) {c : Char} (member : c ∈ inner) :
    isBlank c = true ∨ isIdentifier c = true ∨ c = ',' := by
  rcases spaced.mem member with blank | ⟨token, listed, inside⟩
  · exact .inl blank
  · simp only [List.cons_append, List.mem_cons, List.mem_append, List.not_mem_nil, or_false] at listed
    rcases listed with rfl | listed | rfl
    · simp at inside
    · rcases mem_listTokens listed with rfl | ⟨item, -, own⟩
      · exact .inr (.inr (List.mem_singleton.mp inside))
      · exact .inr (.inl ((item.mem_tokens own).2 c inside))
    · simp at inside

/-- A selection is read behind any text that holds neither a star nor a brace. -/
theorem selection_names {selection : Selection} {lead body : Text} (line : Nat → Int)
    (spaced : Spaced selection.tokens body) (star : '*' ∉ lead) (brace : '{' ∉ lead) :
    (namespaceBinding line (lead ++ body) ++ namedBindings line (lead ++ body)).map Binding.names =
      selection.names := by
  rcases Selection.shape spaced with
    ⟨gap, gap', name, separated, separated', rfl, rfl⟩ | ⟨items, trailing, inner, listed, rfl, rfl⟩
  · have absent : '{' ∉ lead ++ '*' :: (gap ++ (Identifier.asWord.text ++ (gap' ++ name.text))) := by
      have solid : isBlank '{' = false := by decide
      have other : isIdentifier '{' = false := by decide
      simp [brace, separated.not_mem solid, separated'.not_mem solid, Identifier.not_mem _ other]
    have named := @namespaceBinding_names lead gap gap' [] line star separated.2 separated' name (by simp)
    rw [List.append_nil] at named
    rw [List.map_append, namedBindings_eq_nil line absent, List.map_nil, List.append_nil]
    exact named
  · have free : '*' ∉ inner := fun member => absurd (mem_of_list listed member) (by decide)
    have absent : '*' ∉ lead ++ '{' :: (inner ++ ['}']) := by simp [star, free]
    have closed : '}' ∉ inner := fun member => absurd (mem_of_list listed member) (by decide)
    rw [namespaceBinding_eq_nil line absent, List.nil_append, namedBindings_names line [] brace closed,
      names_of_list listed]
    rfl

/-- The bindings read from a clause are those of its parts. -/
theorem clauseBindings_names {clause : ImportClause} {body : Text} (line : Nat → Int)
    (spaced : Spaced clause.tokens body) :
    (clauseBindings line body).map Binding.names = clause.names := by
  have star : isBlank '*' = false ∧ isIdentifier '*' = false := by decide
  have brace : isBlank '{' = false ∧ isIdentifier '{' = false := by decide
  rw [clauseBindings, List.append_assoc, List.map_append]
  cases clause with
  | default name =>
      obtain rfl : body = name.text := spaced.eq_of_single
      have named := defaultBinding_names line name .finish
      rw [List.append_nil] at named
      rw [named, namespaceBinding_eq_nil line (name.not_mem star.2),
        namedBindings_eq_nil line (name.not_mem brace.2)]
      rfl
  | selected selection =>
      have nothing : defaultBinding line body = [] := by
        rcases Selection.shape spaced with ⟨_, _, _, _, _, _, rfl⟩ | ⟨_, _, _, _, _, rfl⟩
        · exact defaultBinding_eq_nil line _ star.1 star.2
        · exact defaultBinding_eq_nil line _ brace.1 brace.2
      have selected := selection_names line spaced List.not_mem_nil List.not_mem_nil
      rw [nothing, List.map_nil, List.nil_append]
      exact selected
  | both name selection =>
      obtain ⟨gap, rest, rfl, separated, later⟩ := spaced.uncons (by simp)
      obtain ⟨gap', body, rfl, separated', later⟩ := later.uncons selection.tokens_ne_nil
      have named := defaultBinding_names line name (.comma (gap' ++ body) separated)
      have lead : ∀ {c}, isBlank c = false → isIdentifier c = false → c ≠ ',' →
          c ∉ name.text ++ gap ++ [','] ++ gap' := fun solid other comma => by
        simp [name.not_mem other, separated.not_mem solid, separated'.not_mem solid, comma]
      have selected := selection_names line later (lead star.1 star.2 (by decide))
        (lead brace.1 brace.2 (by decide))
      simp only [List.append_assoc, List.cons_append, List.nil_append] at named selected ⊢
      rw [named, selected]
      rfl

end ImportAudit.Script
