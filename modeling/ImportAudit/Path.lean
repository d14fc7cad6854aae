import ImportAudit.Text.Basic

/-! Paths of files: where the path starts, and its components. Components are never empty or `.`;
a `..` stays until the path is normalized. Exactly two leading slashes are kept apart from one. -/
namespace ImportAudit

inductive Anchor
  | relative
  | root
  | doubleRoot
deriving DecidableEq, Repr, Inhabited

def Anchor.render : Anchor → String
  | .relative => ""
  | .root => "/"
  | .doubleRoot => "//"

def Anchor.ofText : Text → Anchor
  | '/' :: '/' :: '/' :: _ => .root
  | '/' :: '/' :: _ => .doubleRoot
  | '/' :: _ => .root
  | _ => .relative

/-- What may stand between two slashes of a path. -/
def IsComponent (text : String) : Prop := text ≠ "" ∧ text ≠ "." ∧ '/' ∉ text.toList

instance : DecidablePred IsComponent := fun _ => inferInstanceAs (Decidable (_ ∧ _ ∧ _))

structure Path where
  anchor : Anchor
  parts : List String
  proper : ∀ part ∈ parts, IsComponent part
deriving DecidableEq, Repr

/-- The name of a file or folder: a component other than `..`, without NUL. -/
structure Name where
  text : String
  component : IsComponent text
  notParent : text ≠ ".."
  noNul : '\x00' ∉ text.toList
deriving DecidableEq, Repr

namespace Name

instance : Inhabited Name := ⟨"_", by decide, by decide, by decide⟩

def ofText? (text : String) : Option Name :=
  if proper : IsComponent text ∧ text ≠ ".." ∧ '\x00' ∉ text.toList then
    some ⟨text, proper.1, proper.2.1, proper.2.2⟩
  else none

end Name

namespace Path

/-- The path without components. -/
def bare (anchor : Anchor) : Path := ⟨anchor, [], by simp⟩

instance : Inhabited Path := ⟨bare .relative⟩

@[ext] theorem ext {path other : Path} (anchors : path.anchor = other.anchor)
    (parts : path.parts = other.parts) : path = other := by
  cases path
  cases other
  simp_all

/-- The components of a text between slashes. -/
def partsOf (text : Text) : List String :=
  ((text.split '/').filter fun part => part ≠ [] ∧ part ≠ ['.']).map String.ofList

theorem partsOf_proper (text : Text) : ∀ part ∈ partsOf text, IsComponent part := by
  intro part member
  obtain ⟨piece, kept, rfl⟩ := List.mem_map.mp member
  simp only [List.mem_filter, decide_eq_true_eq] at kept
  refine ⟨fun empty => kept.2.1 ?_, fun dot => kept.2.2 ?_, ?_⟩
  · simpa using congrArg String.toList empty
  · simpa using congrArg String.toList dot
  · simpa using Text.not_mem_of_mem_split kept.1

def parse (text : String) : Path :=
  ⟨Anchor.ofText text.toList, partsOf text.toList, partsOf_proper text.toList⟩

def render (path : Path) : String :=
  if path.anchor = .relative ∧ path.parts = [] then "."
  else path.anchor.render ++ "/".intercalate path.parts

/-- The second path seen from the first; one that does not start there stands for itself. -/
def join (base path : Path) : Path :=
  if path.anchor = .relative then
    ⟨base.anchor, base.parts ++ path.parts,
      fun part member => (List.mem_append.mp member).elim (base.proper part) (path.proper part)⟩
  else path

def child (folder : Path) (name : Name) : Path :=
  ⟨folder.anchor, folder.parts ++ [name.text], by
    simpa [or_imp, forall_and] using ⟨folder.proper, name.component⟩⟩

def parent (path : Path) : Path :=
  ⟨path.anchor, path.parts.dropLast, fun part member =>
    path.proper part (List.dropLast_subset _ member)⟩

/-- The last component, or nothing for a path without one. -/
def name (path : Path) : String := path.parts.getLast?.getD ""

/-- The name from its last dot on, unless that dot is the first or the last character. -/
def suffixOf (name : Text) : Text :=
  let ending := name.reverse.takeWhile (· != '.')
  if ending.length + 1 < name.length ∧ ending ≠ [] then '.' :: ending.reverse else []

def suffix (path : Path) : String := String.ofList (suffixOf path.name.toList)

/-- Drops each `..` with the component before it. Above the root there is nothing to drop; a relative
path keeps the `..` it starts with. `kept` holds the components so far, the last one first. -/
def normalizeParts (relative : Bool) (kept : List String) : List String → List String
  | [] => kept.reverse
  | part :: parts =>
      if part = ".." then
        match kept with
        | [] => normalizeParts relative (if relative then [part] else []) parts
        | last :: others =>
            if last = ".." then normalizeParts relative (part :: kept) parts
            else normalizeParts relative others parts
      else normalizeParts relative (part :: kept) parts

/-- Normalization invents no component. -/
theorem mem_of_mem_normalizeParts {relative : Bool} {kept parts : List String} {part : String}
    (member : part ∈ normalizeParts relative kept parts) : part ∈ kept ∨ part ∈ parts := by
  fun_induction normalizeParts relative kept parts with
  | case1 kept => exact Or.inl (List.mem_reverse.mp member)
  | case2 parts ih => cases relative <;> simp_all
  | case3 parts others ih =>
      rcases ih member with before | after
      · rcases List.mem_cons.mp before with rfl | before
        · exact Or.inr List.mem_cons_self
        · exact Or.inl before
      · exact Or.inr (List.mem_cons_of_mem _ after)
  | case4 parts last others notUp ih =>
      exact (ih member).imp (List.mem_cons_of_mem _) (List.mem_cons_of_mem _)
  | case5 kept part parts notUp ih =>
      rcases ih member with before | after
      · rcases List.mem_cons.mp before with rfl | before
        · exact Or.inr List.mem_cons_self
        · exact Or.inl before
      · exact Or.inr (List.mem_cons_of_mem _ after)

/-- Above the top there is nothing, so no `..` is left. -/
theorem parent_not_mem_normalizeParts {kept : List String} (parts : List String)
    (clean : ".." ∉ kept) : ".." ∉ normalizeParts false kept parts := by
  fun_induction normalizeParts false kept parts with
  | case1 kept => simpa using clean
  | case2 parts ih => exact ih (by simp)
  | case3 parts others ih => simp at clean
  | case4 parts last others notUp ih => exact ih (by simp_all)
  | case5 kept part parts notUp ih => exact ih (by simp_all [Ne.symm notUp])

/-- The path with no `..` after another component. -/
def normalize (path : Path) : Path :=
  ⟨path.anchor, normalizeParts (path.anchor = .relative) [] path.parts, fun part member =>
    path.proper part ((mem_of_mem_normalizeParts member).resolve_left List.not_mem_nil)⟩

/-- From the top of the disk, and without `..`. -/
def IsResolved (path : Path) : Prop := path.anchor = .root ∧ ".." ∉ path.parts

/-- The path seen from the top of the disk, without `..`. -/
def resolve (path : Path) : Path := ({ path with anchor := .root } : Path).normalize

theorem IsResolved.anchor_ne {path : Path} (resolved : path.IsResolved) : path.anchor ≠ .relative := by
  rw [resolved.1]
  decide

theorem resolve_isResolved (path : Path) : path.resolve.IsResolved :=
  ⟨rfl, parent_not_mem_normalizeParts path.parts List.not_mem_nil⟩

/-- The first components of a path. -/
def take (count : Nat) (path : Path) : Path :=
  ⟨path.anchor, path.parts.take count, fun part member => path.proper part (List.mem_of_mem_take member)⟩

/-- The paths above a path, the nearest first. -/
def parents (path : Path) : List Path := (List.range path.parts.length).reverse.map (take · path)

/-- Whether the path is `root` or lies below it. -/
def isWithin (path root : Path) : Bool := path = root || root ∈ path.parents

/-- The path as seen from `root`, where it starts with the components of `root`. -/
def relativeTo? (path root : Path) : Option Path :=
  if path.anchor = root.anchor ∧ path.parts.take root.parts.length = root.parts then
    some ⟨.relative, path.parts.drop root.parts.length, fun part member =>
      path.proper part (List.mem_of_mem_drop member)⟩
  else none

/-- The path as seen from `root` if it lies within it, else the whole path. -/
def renderFrom (root path : Path) : String := ((path.relativeTo? root).getD path).render

end Path
end ImportAudit
