/-! Ways to go on, the preferred one first. The ways after the first are worked out only when they are
asked for, so that a search can stop at the first way that succeeds. Read as a list, joining is
concatenation and following each way up is `List.flatMap`. -/
namespace ImportAudit

inductive Ways (α : Type)
  | none
  | way (first : α) (others : Unit → Ways α)

namespace Ways

variable {α β : Type}

/-- The only way. -/
def only (a : α) : Ways α := .way a fun _ => .none

def first? : Ways α → Option α
  | .none => Option.none
  | .way a _ => some a

def ofList : List α → Ways α
  | [] => .none
  | a :: others => .way a fun _ => ofList others

def toList : Ways α → List α
  | .none => []
  | .way a others => a :: (others ()).toList

/-- The ways of the first part, then those of the second. -/
def append : Ways α → (Unit → Ways α) → Ways α
  | .none, second => second ()
  | .way a others, second => .way a fun _ => append (others ()) second

/-- Follows every way up, the preferred one first. -/
def flatMap (follow : α → Ways β) : Ways α → Ways β
  | .none => .none
  | .way a others =>
      match follow a with
      | .none => flatMap follow (others ())
      | .way b more => .way b fun _ => append (more ()) fun _ => flatMap follow (others ())

@[simp] theorem toList_none : (Ways.none : Ways α).toList = [] := rfl

@[simp] theorem toList_way (a : α) (others : Unit → Ways α) :
    (Ways.way a others).toList = a :: (others ()).toList := rfl

@[simp] theorem toList_only (a : α) : (only a).toList = [a] := rfl

@[simp] theorem toList_ofList (list : List α) : (ofList list).toList = list := by
  induction list with
  | nil => rfl
  | cons a others ih => simp [ofList, ih]

@[simp] theorem toList_append (first : Ways α) (second : Unit → Ways α) :
    (first.append second).toList = first.toList ++ (second ()).toList := by
  induction first with
  | none => rfl
  | way a others ih => simp [append, toList, ih]

@[simp] theorem toList_flatMap (follow : α → Ways β) (ways : Ways α) :
    (ways.flatMap follow).toList = ways.toList.flatMap fun a => (follow a).toList := by
  induction ways with
  | none => rfl
  | way a others ih =>
      cases found : follow a with
      | none => simp [flatMap, found, toList, ih]
      | way b more => simp [flatMap, found, toList, ih]

/-- The first way is the head of the list. -/
theorem first?_eq_head? (ways : Ways α) : ways.first? = ways.toList.head? := by
  cases ways <;> rfl

end Ways
end ImportAudit
