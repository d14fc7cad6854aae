/-! The kinds of nodes, by their tags. -/
namespace ImportAudit.Yaml

/-- The kind decides which value a node has. `merge` and `default` have a meaning before a colon only,
and a node of kind `other` has no value. -/
inductive Kind
  | null
  | bool
  | int
  | float
  | binary
  | moment
  | text
  | sequence
  | mapping
  | set
  | pairs
  | merge
  | default
  | other
deriving DecidableEq, Repr, Inhabited

namespace Kind

def standardTags : List (String × Kind) :=
  [("null", null), ("bool", bool), ("int", int), ("float", float), ("binary", binary),
    ("timestamp", moment), ("str", text), ("seq", sequence), ("map", mapping), ("set", set),
    ("omap", pairs), ("pairs", pairs), ("merge", merge), ("value", default)]

/-- What stands before the names of standard tags. -/
def standardStart : String := "tag:yaml.org,2002:"

def ofTag (tag : String) : Kind :=
  ((standardTags.find? fun (name, _) => standardStart ++ name = tag).map Prod.snd).getD other

/-- Collections are made empty first and filled later. -/
def isCollection : Kind → Bool
  | sequence | mapping | set | pairs => true
  | _ => false

end Kind
end ImportAudit.Yaml
