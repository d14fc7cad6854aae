import ImportAudit.Yaml.Value

/-! What is known of the value of a document: which values count as nothing, which keys can be ordered
among themselves, and that a mapping has each of its keys once. -/
namespace ImportAudit.Yaml

namespace Scalar

variable {a b : Scalar}

def IsNumber : Scalar → Prop
  | .bool _ | .int _ | .float _ | .computed _ => True
  | _ => False

/-- Scalars that can be put in order: numbers of any kind, two texts, two stretches of bytes, two dates,
and two times of which both or neither tell how far they are ahead. -/
inductive Comparable : Scalar → Scalar → Prop
  | numbers {a b : Scalar} : a.IsNumber → b.IsNumber → Comparable a b
  | texts (s t : Codes) : Comparable (.text s) (.text t)
  | binaries (s t : Text.Utf8.Bytes) : Comparable (.binary s) (.binary t)
  | dates (d e : Date) : Comparable (.date d) (.date e)
  | times (d e : Date) {c k : Clock} : c.offset.isSome = k.offset.isSome →
      Comparable (.time d c) (.time e k)

/-- The scalars of a class. -/
def OrderClass.Holds (a : Scalar) : OrderClass → Prop
  | .null => a = .null
  | .number => a.IsNumber
  | .text => ∃ s, a = .text s
  | .binary => ∃ s, a = .binary s
  | .date => ∃ d, a = .date d
  | .floatingTime => ∃ d c, a = .time d c ∧ c.offset.isSome = false
  | .fixedTime => ∃ d c, a = .time d c ∧ c.offset.isSome = true

theorem holds_orderClass (a : Scalar) : a.orderClass.Holds a := by
  cases a with
  | null => rfl
  | bool | int | float | computed => trivial
  | text s => exact ⟨s, rfl⟩
  | binary s => exact ⟨s, rfl⟩
  | date d => exact ⟨d, rfl⟩
  | time d c =>
      simp only [orderClass]
      split
      · exact ⟨d, c, rfl, ‹_›⟩
      · exact ⟨d, c, rfl, Bool.eq_false_iff.mpr ‹_›⟩

theorem Comparable.orderClass_eq (comparable : Comparable a b) : a.orderClass = b.orderClass := by
  cases comparable with
  | numbers first second =>
      have number {c : Scalar} (isNumber : c.IsNumber) : c.orderClass = .number := by
        cases c with
        | bool | int | float | computed => rfl
        | _ => exact isNumber.elim
      rw [number first, number second]
  | times d e same => simp only [orderClass, same]
  | texts | binaries | dates => rfl

/-- There is one null, and scalars of any other class can be ordered among themselves. -/
theorem comparable_of_orderClass (same : a.orderClass = b.orderClass) (other : a ≠ b) :
    Comparable a b := by
  have first := holds_orderClass a
  have second := holds_orderClass b
  rw [← same] at second
  cases found : a.orderClass <;> rw [found] at first second
  case null => exact absurd (first.trans second.symm) other
  case number => exact .numbers first second
  case text =>
      obtain ⟨⟨s, rfl⟩, ⟨t, rfl⟩⟩ := And.intro first second
      exact .texts s t
  case binary =>
      obtain ⟨⟨s, rfl⟩, ⟨t, rfl⟩⟩ := And.intro first second
      exact .binaries s t
  case date =>
      obtain ⟨⟨d, rfl⟩, ⟨e, rfl⟩⟩ := And.intro first second
      exact .dates d e
  case floatingTime | fixedTime =>
      obtain ⟨⟨d, c, rfl, ahead⟩, ⟨e, k, rfl, ahead'⟩⟩ := And.intro first second
      exact .times d e (ahead.trans ahead'.symm)

@[simp] theorem sameKey_self (a : Scalar) : a.sameKey a = true := by
  unfold sameKey
  split
  · simp
  · split <;> simp_all

end Scalar

namespace Value

variable {value : Value} {key : Scalar} {entries : List (Scalar × Value)}

/-- The values that count as nothing. -/
inductive Falsy : Value → Prop
  | null : Falsy (.scalar .null)
  | false : Falsy (.scalar (.bool false))
  | int : Falsy (.scalar (.int 0))
  | float (negative : Bool) (exponent : Int) : Falsy (.scalar (.float (.finite negative 0 exponent)))
  | text : Falsy (.scalar (.text []))
  | binary : Falsy (.scalar (.binary []))
  | sequence : Falsy (.sequence [])
  | mapping : Falsy (.mapping [])
  | set : Falsy (.set [])

/-- A finite number is zero if its mantissa is. -/
theorem isVoid_finite (negative : Bool) (mantissa : Nat) (exponent : Int) :
    (Scalar.float (.finite negative mantissa exponent)).isVoid = true ↔ mantissa = 0 := by
  have top : (Binary64.quotient mantissa exponent).1 = 0 ↔ mantissa = 0 := by
    simp only [Binary64.quotient, Binary64.times]
    split
    · have power : 0 < Nat.pow 2 exponent.toNat := Nat.pow_pos (by decide)
      rw [Nat.mul_eq_zero, or_iff_left (Nat.ne_of_gt power)]
    · rfl
  have signed : Scalar.signed negative (Binary64.quotient mantissa exponent).1 = 0 ↔
      (Binary64.quotient mantissa exponent).1 = 0 := by
    unfold Scalar.signed
    split <;> omega
  simpa [Scalar.isVoid, Scalar.quotient?] using signed.trans top

theorem falsy_iff : value.Falsy ↔ value.isVoid = true := by
  constructor
  · intro falsy
    cases falsy with
    | float negative exponent => exact (isVoid_finite negative 0 exponent).mpr rfl
    | _ => rfl
  · intro void
    cases value with
    | scalar scalar =>
        cases scalar with
        | null => exact .null
        | bool value =>
            cases value with
            | false => exact .false
            | true => cases void
        | int n =>
            obtain rfl : n = 0 := by simpa [isVoid, Scalar.isVoid, Scalar.quotient?] using void
            exact .int
        | float number =>
            cases number with
            | finite negative mantissa exponent =>
                obtain rfl := (isVoid_finite negative mantissa exponent).mp void
                exact .float negative exponent
            | infinite | undefined => cases void
        | text s =>
            obtain rfl := List.isEmpty_iff.mp void
            exact .text
        | binary bytes =>
            obtain rfl := List.isEmpty_iff.mp void
            exact .binary
        | computed | date | time => cases void
    | sequence items =>
        obtain rfl := List.isEmpty_iff.mp void
        exact .sequence
    | mapping entries =>
        obtain rfl := List.isEmpty_iff.mp void
        exact .mapping
    | set members =>
        obtain rfl := List.isEmpty_iff.mp void
        exact .set
    | other => cases void

/-- No two keys are the same. -/
def DistinctKeys (entries : List (Scalar × Value)) : Prop :=
  entries.Pairwise fun first second => first.1.sameKey second.1 = false

/-- A value of which no two keys are the same. -/
def HasDistinctKeys (value : Value) : Prop := ∀ entries, value = .mapping entries → DistinctKeys entries

theorem mem_insert {entry : Scalar × Value} (member : entry ∈ insert key value entries) :
    entry.1 = key ∨ ∃ old, (entry.1, old) ∈ entries := by
  induction entries with
  | nil => exact .inl (congrArg Prod.fst (List.mem_singleton.mp member))
  | cons first entries ih =>
      rw [insert] at member
      split at member
      · rcases List.mem_cons.mp member with rfl | later
        · exact .inr ⟨first.2, List.mem_cons_self⟩
        · exact .inr ⟨entry.2, List.mem_cons_of_mem _ later⟩
      · rcases List.mem_cons.mp member with rfl | later
        · exact .inr ⟨first.2, List.mem_cons_self⟩
        · exact (ih later).imp_right fun ⟨old, listed⟩ => ⟨old, List.mem_cons_of_mem _ listed⟩

/-- A key that is there gets a new value, and only a new one is added. -/
theorem DistinctKeys.insert (distinct : DistinctKeys entries) (key : Scalar) (value : Value) :
    DistinctKeys (insert key value entries) := by
  induction entries with
  | nil => exact List.pairwise_singleton _ _
  | cons first entries ih =>
      obtain ⟨apart, distinct⟩ := List.pairwise_cons.mp distinct
      rw [Value.insert]
      split
      · exact List.pairwise_cons.mpr ⟨apart, distinct⟩
      · rename_i other
        refine List.pairwise_cons.mpr ⟨fun entry member => ?_, ih distinct⟩
        rcases mem_insert member with same | ⟨old, listed⟩
        · rw [same]
          exact Bool.eq_false_iff.mpr other
        · exact apart (entry.1, old) listed

theorem distinctKeys_assemble (entries : List (Scalar × Value)) : DistinctKeys (assemble entries) := by
  have steps (entries made : List (Scalar × Value)) (distinct : DistinctKeys made) :
      DistinctKeys (entries.foldl (fun made entry => insert entry.1 entry.2 made) made) := by
    induction entries generalizing made with
    | nil => exact distinct
    | cons entry entries ih => exact ih _ (distinct.insert entry.1 entry.2)
  exact steps entries [] List.Pairwise.nil

theorem ofNode_distinct {construction : Construction} {values : Array Value} {number : Nat}
    (mapping : ofNode construction values number = .mapping entries) : DistinctKeys entries := by
  unfold ofNode at mapping
  dsimp only at mapping
  split at mapping
  · cases mapping
  · cases mapping
    exact distinctKeys_assemble _
  · cases mapping
  · cases mapping
  · cases scalar : construction.scalars.getD number none <;> simp [scalar] at mapping

/-- Every mapping among the values has each key once. -/
theorem distinct_of_mem_values (construction : Construction) (numbers : List Nat) {values : Array Value}
    (before : ∀ entries, .mapping entries ∈ values → DistinctKeys entries) :
    ∀ entries, .mapping entries ∈ numbers.foldl (fun values number =>
      values.push (ofNode construction values number)) values → DistinctKeys entries := by
  induction numbers generalizing values with
  | nil => exact before
  | cons number numbers ih =>
      refine ih fun entries member => ?_
      rcases Array.mem_push.mp member with earlier | last
      · exact before entries earlier
      · exact ofNode_distinct last.symm

theorem ofDocument_distinct {document : Document} (made : ofDocument document = .ok (.mapping entries)) :
    DistinctKeys entries := by
  unfold ofDocument at made
  cases complete : Construction.complete document with
  | error fault => simp [complete, bind, Except.bind] at made
  | ok construction =>
      simp only [complete, bind, Except.bind, pure, Except.pure, Except.ok.injEq] at made
      have nothing : ∀ entries, .mapping entries ∈ (#[] : Array Value) → DistinctKeys entries := by simp
      apply distinct_of_mem_values construction _ nothing
      rw [Array.getD_eq_getD_getElem?] at made
      cases found : ((List.range construction.nodes.size).foldl (fun values number =>
          values.push (ofNode construction values number)) #[])[document.root]? with
      | none => simp [found] at made
      | some value =>
          obtain rfl : value = .mapping entries := by simpa [found] using made
          exact Array.mem_of_getElem? found

/-- A mapping that is read has each key once. -/
theorem ofBytes_distinct {bytes : Text.Utf8.Bytes} (parsed : ofBytes bytes = .ok value) :
    value.HasDistinctKeys := by
  rintro entries rfl
  unfold ofBytes parse at parsed
  cases read : Document.ofTokens (tokenize (.ofBytes bytes)) with
  | error fault => simp [read, bind, Except.bind] at parsed
  | ok found =>
      cases found with
      | none => simp [read, bind, Except.bind, pure, Except.pure] at parsed
      | some document =>
          simp only [read, bind, Except.bind] at parsed
          exact ofDocument_distinct parsed

end Value
end ImportAudit.Yaml
