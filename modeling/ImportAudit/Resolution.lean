import ImportAudit.Disk

/-! From a specifier to a file. A relative specifier names a path seen from the folder of the file
that holds it; the file itself comes first, then the path with an extension, then an index file
in the folder of that name. -/
namespace ImportAudit.Resolution

/-- The path that a specifier names, seen from a file. -/
def base (importer : Path) (specifier : String) : Path :=
  (importer.parent.join (.parse specifier)).normalize

/-- The path with text added to its written form. -/
def withExtension (path : Path) (extension : String) : Path := .parse (path.render ++ extension)

def indexFile (folder : Path) (extension : String) : Path :=
  folder.join (.parse ("index" ++ extension))

/-- The files that a path may stand for, the preferred one first. -/
def candidates (extensions : List String) (path : Path) : List Path :=
  path :: extensions.map (withExtension path) ++ extensions.map (indexFile path)

def isRelative (specifier : String) : Bool := ['.'].isPrefixOf specifier.toList

/-- The file that a specifier stands for; none for a specifier that is not relative. -/
def resolve? (disk : Disk) (extensions : List String) (importer : Path) (specifier : String) :
    Option Path :=
  if isRelative specifier then
    (candidates extensions (base importer specifier)).find? disk.isFile
  else none

end ImportAudit.Resolution
