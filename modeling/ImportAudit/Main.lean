import ImportAudit.Command

/-! The command line: takes a picture of the folders that matter, runs the command on it, prints what
it prints and writes the report that it wrote. -/
namespace ImportAudit.CommandLine

def isFolder (path : String) : IO Bool := do
  try return ← (← IO.FS.realPath path).isDir
  catch _ => return false

def isFile (path : String) : IO Bool := do
  try
    let place ← IO.FS.realPath path
    return (← place.pathExists) && !(← place.isDir)
  catch _ => return false

/-- The names in a folder, each with whether it is a folder. -/
def namesIn (folder : String) : IO (List (Name × Bool)) := do
  let entries ← (← IO.FS.realPath folder).readDir
  entries.toList.filterMapM fun entry => do
    return (Name.ofText? entry.fileName).map (·, ← entry.path.isDir)

def bytesOf (file : String) : IO Text.Utf8.Bytes := do
  return (← IO.FS.readBinFile file).toList

/-- Everything in a folder, at all depths, as a disk of its own. -/
partial def wholeFolder (folder : Path) : IO Disk := do
  (← namesIn folder.render).foldlM (fun disk (name, isFolder) => do
    let path := folder.child name
    let place := (Path.bare .root).child name
    if isFolder then return disk.graft place (← wholeFolder path)
    else return disk.put place (← bytesOf path.render)) default

/-- The names in a folder, added to a disk; the content of files is left out. -/
def addNames (disk : Disk) (folder : Path) : IO Disk := do
  if !(← isFolder folder.render) then return disk
  (← namesIn folder.render).foldlM (fun disk (name, isFolder) => do
    let path := folder.child name
    if disk.isFile path || disk.isFolder path then return disk
    else if isFolder then return disk.makeFolder path
    else return disk.put path []) (disk.makeFolder folder)

def addFile (disk : Disk) (file : Path) : IO Disk := do
  if ← isFile file.render then return disk.put file (← bytesOf file.render) else return disk

/-- The names around the working folder, the settings file and the place of the report. -/
def surroundings (working : Path) (arguments : Command.Arguments) : IO Disk := do
  let named := [arguments.config, arguments.output].filterMap Command.given
  let files := named.map fun file => working.join (.parse file)
  let disk ← ([working] ++ files.map Path.parent).foldlM addNames default
  match Command.given arguments.config with
  | some file => addFile disk (working.join (.parse file))
  | none => return disk

/-- The tree of the settings' root, with the names around it and its entry points. -/
def addTree (disk : Disk) (settings : Settings) : IO Disk := do
  let root := settings.root
  let above := root.parents.reverse
  let disk ← above.foldlM addNames disk
  let disk ← (settings.entryPoints.filter (!·.isWithin root)).foldlM addFile disk
  if ← isFolder root.render then
    return disk.graft root (← wholeFolder root)
  else return disk

def picture (working : Path) (arguments : Command.Arguments) : IO Disk := do
  let disk ← surroundings working arguments
  match Command.settingsFor disk working arguments with
  | .ok settings => addTree disk settings
  | .error _ => return disk

/-- Writes the report if the command has written it. -/
def writeReport (working : Path) (arguments : Command.Arguments) (before after : Disk) :
    IO Unit := do
  match Command.given arguments.output with
  | none => return
  | some file =>
      let place := working.join (.parse file)
      match (after.read place).toOption with
      | none => return
      | some bytes =>
          if (before.read place).toOption ≠ some bytes then
            IO.FS.writeBinFile place.render ⟨bytes.toArray⟩

def run (words : List String) : IO UInt32 := do
  let working := Path.parse (← IO.currentDir).toString
  match Command.Arguments.parse words with
  | .error _ =>
      let outcome := Command.run default working words
      IO.print outcome.printed
      if outcome.printed.isEmpty then IO.eprintln Command.usage
      return (outcome.result.toOption.getD 1).toUInt32
  | .ok arguments =>
      let before ← picture working arguments
      let outcome := Command.run before working words
      writeReport working arguments before outcome.disk
      IO.print outcome.printed
      match outcome.result with
      | .ok code => return code.toUInt32
      | .error fault =>
          IO.eprintln fault.message
          return 1

end ImportAudit.CommandLine

def main (words : List String) : IO UInt32 := ImportAudit.CommandLine.run words
