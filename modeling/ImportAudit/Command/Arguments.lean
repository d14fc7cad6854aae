import ImportAudit.Audit
import ImportAudit.Text.CharClass

/-! The arguments of the command line. A long option may be shortened as far as it stays
unambiguous, and takes its value from the next argument or after an equals sign. One-letter options
may be run together. An argument that looks like an option is not taken for a value. Two dashes after
an equals sign withhold the value: the option was given, and with nothing. -/
namespace ImportAudit.Command

/-- What the options say. A withheld path, settings file or output counts as not given; an entry
point or a mode that was withheld is `none`. -/
structure Arguments where
  path : Option String
  entries : List (Option String)
  config : Option String
  mode : Option Mode
  report : Bool
  output : Option String
  verbose : Bool
deriving DecidableEq, Repr, Inhabited

def Arguments.none : Arguments := ⟨.none, [], .none, some .all, false, .none, false⟩

inductive Switch
  | help
  | path
  | entry
  | config
  | mode
  | report
  | output
  | verbose
deriving DecidableEq, Repr

namespace Switch

/-- Every spelling of every switch. -/
def spellings : List (String × Switch) :=
  [("-h", help), ("--help", help), ("--path", path), ("--entry", entry), ("--config", config),
    ("--mode", mode), ("--report", report), ("--output", output), ("--verbose", verbose),
    ("-v", verbose)]

def takesValue : Switch → Bool
  | help | report | verbose => false
  | _ => true

end Switch

/-- What an argument looks like. `letters` is a one-letter switch with what is run together with
it. -/
inductive Word
  | value
  | switch (switch : Switch) (attached : Option String)
  | letters (switch : Switch) (others : String)
  | unknown
  | ambiguous
deriving DecidableEq, Repr

namespace Word

/-- Digits, with perhaps a point before the last of them. -/
def isNumber (text : Text) : Bool :=
  let whole := text.takeWhile Text.isDecimalDigit
  match text.drop whole.length with
  | [] => !whole.isEmpty
  | '.' :: fraction => !fraction.isEmpty && fraction.all Text.isDecimalDigit
  | _ => false

/-- A minus sign and a number; a line feed may end it. -/
def isNegativeNumber : Text → Bool
  | '-' :: rest => isNumber (if rest.getLast? = some '\n' then rest.dropLast else rest)
  | _ => false

/-- The part before the first equals sign, and what follows it if there is one. -/
def splitEquals (text : Text) : Text × Option String :=
  let before := text.takeWhile (· != '=')
  match text.drop before.length with
  | [] => (before, none)
  | _ :: after => (before, some (String.ofList after))

/-- The switches with a spelling that starts with a text. -/
def startingWith (text : Text) : List Switch :=
  (Switch.spellings.filter fun (spelling, _) => text.isPrefixOf spelling.toList).map Prod.snd

/-- An argument that is no switch but may be a value all the same. -/
def otherwise (text : Text) : Word :=
  if isNegativeNumber text || text.contains ' ' then .value else .unknown

/-- A dash or two, and more. After a one-letter switch the equals sign counts for nothing. -/
def ofDashed (text : Text) : Word :=
  let (name, attached) := splitEquals text
  match text with
  | '-' :: '-' :: _ =>
      match Switch.spellings.lookup (String.ofList name), startingWith name with
      | some found, _ => .switch found attached
      | none, [found] => .switch found attached
      | none, [] => otherwise text
      | none, _ => .ambiguous
  | '-' :: letter :: others =>
      match Switch.spellings.lookup (String.ofList ['-', letter]) with
      | some found =>
          .letters found (if name.length = 2 then attached.getD "" else String.ofList others)
      | none => otherwise text
  | _ => .value

def ofArgument (argument : String) : Word :=
  match argument.toList with
  | '-' :: rest =>
      match Switch.spellings.lookup argument with
      | some found => .switch found none
      | none => if rest.isEmpty then .value else ofDashed argument.toList
  | _ => .value

end Word

/-- Why there is nothing to run: the arguments do not fit, or help was asked for. -/
inductive Stop
  | misuse
  | help
deriving DecidableEq, Repr

namespace Arguments

def setFlag (switch : Switch) (arguments : Arguments) : Except Stop Arguments :=
  match switch with
  | .help => .error .help
  | .report => .ok { arguments with report := true }
  | .verbose => .ok { arguments with verbose := true }
  | _ => .error .misuse

/-- The last value counts, but entry points add up. -/
def setValue (switch : Switch) (value : Option String) (arguments : Arguments) :
    Except Stop Arguments :=
  match switch with
  | .path => .ok { arguments with path := value }
  | .entry => .ok { arguments with entries := arguments.entries ++ [value] }
  | .config => .ok { arguments with config := value }
  | .output => .ok { arguments with output := value }
  | .mode =>
      match value with
      | Option.none => .ok { arguments with mode := Option.none }
      | some name =>
          match Mode.ofName? name with
          | some mode => .ok { arguments with mode := some mode }
          | Option.none => .error .misuse
  | _ => .error .misuse

/-- One-letter switches behind the first: there must be some, and each must be known. -/
def lettersOf (letters : String) : Except Stop (List Switch) :=
  match letters.toList.mapM fun letter => Switch.spellings.lookup (String.ofList ['-', letter]) with
  | Option.none | some [] => .error .misuse
  | some switches => .ok switches

def withheld : String := "--"

/-- Reads arguments from left to right. Those that fit nowhere are refused once all are read. -/
def read : Nat → Bool → List String → Arguments → Except Stop Arguments
  | 0, _, _, _ => .error .misuse
  | _ + 1, stray, [], arguments => if stray then .error .misuse else .ok arguments
  | fuel + 1, stray, argument :: others, arguments => do
      if argument = "--" then throw .misuse
      match Word.ofArgument argument with
      | .value | .unknown => read fuel true others arguments
      | .ambiguous => throw .misuse
      | .letters switch letters =>
          let switches ← lettersOf letters
          read fuel stray others (← (switch :: switches).foldlM (fun set one => set.setFlag one) arguments)
      | .switch switch (some attached) =>
          if switch.takesValue then
            let value := if attached = withheld then Option.none else some attached
            read fuel stray others (← arguments.setValue switch value)
          else throw .misuse
      | .switch switch Option.none =>
          if switch.takesValue then
            match others with
            | value :: others =>
                if value = "--" || Word.ofArgument value != .value then throw .misuse
                else read fuel stray others (← arguments.setValue switch (some value))
            | [] => throw .misuse
          else read fuel stray others (← arguments.setFlag switch)

/-- The arguments that were given, if they fit. What follows two dashes is not looked at. -/
def parse (arguments : List String) : Except Stop Arguments :=
  let looked := arguments.takeWhile (· ≠ "--")
  if looked.any fun argument => Word.ofArgument argument = .ambiguous then .error .misuse
  else read (arguments.length + 1) false arguments .none

end Arguments
end ImportAudit.Command
