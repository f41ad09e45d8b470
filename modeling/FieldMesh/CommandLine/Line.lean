import FieldMesh.CommandLine.Arguments
import FieldMesh.CommandLine.Value
import FieldMesh.Mesh.Request

/-!
# Command lines

The commands and how they are given.

* `Command.ofArguments`: the command of a list of arguments;
* `Settings.apply`: what the flags of a command change in a request.
-/

namespace FieldMesh.CommandLine

open FieldMesh.Mesh

/-- What the flags of a command say about the region to mesh. -/
structure Settings where
  /-- The file of a request, in place of the usual one. -/
  request : Option String := none
  origin : Option Vec3 := none
  scale : Option Float32 := none
  cells : Option UInt32 := none
  algorithm : Option Algorithm := none
  level : Option Float32 := none
  smooth : Bool := false

/-- A request with what flags say in place of its own values. -/
def Settings.apply (s : Settings) (r : Request) : Request where
  origin := s.origin.getD r.origin
  scale := s.scale.getD r.scale
  cells := s.cells.getD r.cells
  algorithm := s.algorithm.getD r.algorithm
  level := s.level.getD r.level
  smooth := s.smooth || r.smooth
  epsilon := r.epsilon

/-- A command. -/
inductive Command where
  /-- Prints the canonical text of an expression. -/
  | parse (expression : String)
  /-- Prints the value of an expression. -/
  | eval (expression : String) (parameters : List (String × Vec3))
  /-- Prints or stores the program of a formula file. -/
  | compile (formula : String) (output : Option String)
  /-- Stores the mesh of a formula file. -/
  | mesh (formula : String) (settings : Settings) (output : String)
  /-- Stores the mesh of a formula file whenever that changes. -/
  | watch (formula : String) (settings : Settings) (output : String)

/-! ## Flags -/

/-- What the arguments of a command say. -/
structure Said where
  /-- The positional argument: an expression or a file. -/
  subject : String := ""
  parameters : List (String × Vec3) := []
  settings : Settings := {}
  output : Option String := none

/-- A flag that changes settings by a value of some kind. -/
def settingFlag (name : String) (letter : Option Char)
    (read? : String → Option α) (set : Settings → α → Settings) :
    Flag Said where
  name := name
  letter := letter
  action := .value fun text said => do
    return { said with settings := set said.settings (← read? text) }

/-- A file name is not empty. -/
def fileName? (text : String) : Option String :=
  if text.isEmpty then none else some text

/-- The names of the algorithms on the command line. -/
def algorithm? : String → Option Algorithm
  | "mc" => some .marchingCubes
  | "dc" => some .dualContouring
  | _ => none

/-- A number without blanks around it. -/
def number? (text : String) : Option Float32 := Decimal.number? text.toList

/-- The flag for the file to write. -/
def outputFlag : Flag Said where
  name := "output"
  letter := some 'o'
  action := .value fun text said => do
    return { said with output := some (← fileName? text) }

/-- The flag for a parameter of an expression. -/
def parameterFlag : Flag Said where
  name := "param"
  letter := some 'p'
  repeats := true
  action := .value fun text said => do
    let binding ← (readBinding text).toOption
    return { said with parameters := said.parameters ++ [binding] }

/-- The flags for the region to mesh. -/
def settingFlags : List (Flag Said) := [
  settingFlag "request" none fileName? fun s v => { s with request := some v },
  settingFlag "origin" none (fun text => (readVector text).toOption)
    fun s v => { s with origin := some v },
  settingFlag "scale" none number? fun s v => { s with scale := some v },
  settingFlag "voxels" (some 'v') readCount? fun s v =>
    { s with cells := some v },
  settingFlag "algorithm" (some 'a') algorithm? fun s v =>
    { s with algorithm := some v },
  settingFlag "iso" none number? fun s v => { s with level := some v },
  { name := "smooth"
    action := .switch fun said =>
      { said with settings := { said.settings with smooth := true } } }]

/-- A grammar whose positional argument is an expression. -/
def expressionGrammar (flags : List (Flag Said)) : Grammar Said where
  flags := flags
  positional := fun text said => some { said with subject := text }

/-- A grammar whose positional argument is a file. -/
def fileGrammar (flags : List (Flag Said)) : Grammar Said where
  flags := flags
  positional := fun text said => do
    return { said with subject := ← fileName? text }

/-! ## Commands -/

/-- The file that a mesh is written to if none is given. -/
def usualOutput : String := "mesh.obj"

/-- The commands by name: how each reads its arguments. -/
def commands : List (String × (List String → Except Usage Command)) := [
  ("parse", fun arguments => do
    let said ← (expressionGrammar []).read {} arguments
    return .parse said.subject),
  ("eval", fun arguments => do
    let said ← (expressionGrammar [parameterFlag]).read {} arguments
    return .eval said.subject said.parameters),
  ("compile", fun arguments => do
    let said ← (fileGrammar [outputFlag]).read {} arguments
    return .compile said.subject said.output),
  ("mesh", fun arguments => do
    let said ← (fileGrammar (outputFlag :: settingFlags)).read {} arguments
    return .mesh said.subject said.settings (said.output.getD usualOutput)),
  ("watch", fun arguments => do
    let said ← (fileGrammar (outputFlag :: settingFlags)).read {} arguments
    return .watch said.subject said.settings (said.output.getD usualOutput))]

/-- What is printed for the version. -/
def versionLine : String := "isoforge 0.5.0"

/-- What is printed for help. -/
def usageLines : List String := [
  "Density formulas and voxel surface extraction",
  "",
  "Usage: isoforge <COMMAND>",
  "",
  "Commands:",
  "  parse <EXPRESSION>",
  "  eval <EXPRESSION> [-p NAME=X,Y,Z]...",
  "  compile <FORMULA> [-o OUTPUT]",
  "  mesh <FORMULA> [SETTINGS] [-o OUTPUT]",
  "  watch <FORMULA> [SETTINGS] [-o OUTPUT]",
  "",
  "Settings:",
  "  --request FILE, --origin X,Y,Z, --scale SIZE, -v/--voxels COUNT,",
  "  -a/--algorithm mc|dc, --iso LEVEL, --smooth"]

/-- What a request for help is answered with: help on a command that there
is. -/
def helpOn : List String → Usage
  | [] => .help
  | [name] =>
    if name = "help" ∨ (commands.lookup name).isSome then .help else .refused
  | _ => .refused

/-- The command of a list of arguments. -/
def Command.ofArguments : List String → Except Usage Command
  | [] => .error .refused
  | first :: rest =>
    match commands.lookup first with
    | some read => read rest
    | none =>
      match first.toList with
      | '-' :: 'V' :: _ => .error .version
      | '-' :: 'h' :: _ => .error .help
      | _ =>
        if first = "--version" then .error .version
        else if first = "--help" then .error .help
        else if first = "help" then .error (helpOn rest)
        else .error .refused

end FieldMesh.CommandLine
