import FieldMesh.CommandLine.Line
import FieldMesh.CommandLine.Outcome
import FieldMesh.Mesh.Generation
import FieldMesh.Mesh.Wavefront
import FieldMesh.Program.Document

/-!
# Running commands

What the commands do. Files are reached through a `Disk`, which can be a tree
that is carried along or the disk of a machine.

* `Command.run`: does what a command says, up to the watching of a file;
* `rebuild`: does again what a file that has changed is watched for.
-/

namespace FieldMesh.CommandLine

open FieldMesh.Files FieldMesh.Formula FieldMesh.Mesh

/-! ## Files -/

/-- How files are reached. -/
structure Disk (m : Type → Type) where
  /-- The text of a file, if it can be read. -/
  read : String → m (Option String)
  /-- Writes a file, or tells why it cannot be written. -/
  write : String → String → m (Except PathFault Unit)
  /-- The full path of what is under a name, if there is something. -/
  locate : String → m (Option String)

/-- A name without the directory in front. -/
def below (root name : String) : String :=
  let lead := (root ++ "/").toList
  if lead.isPrefixOf name.toList then
    String.ofList (name.toList.drop lead.length)
  else name

/-- A tree that is carried along, below a directory. -/
def treeDisk (root : String) : Disk (StateM Tree) where
  read := fun name => return ((← get).read (below root name)).toOption
  write := fun name text => do
    match (← get).write (below root name) text with
    | .ok (t, _) => set t; return .ok ()
    | .error fault => return .error fault
  locate := fun name => do
    return ((← get).find name).toOption.map fun (path, _) => path.text root

/-! ## Formulas and requests -/

/-- The parameter of formulas whose file declares none. -/
def usualParameter : String := "coords"

/-- The formula of a file with this name and text. -/
def formulaOf (file : String) (text : Option String) :
    Except CommandError Formula :=
  match text.bind fun text => (Formula.ofFile file text).toOption with
  | none => .error (.loadFormula file)
  | some formula =>
    if formula.parameters.isEmpty then
      .ok (formula.setParameters [usualParameter])
    else .ok formula

/-- The request of settings, with the text of its file if there is one. -/
def requestOf (s : Settings) (text : Option String) :
    Except CommandError Request := do
  let base ← match s.request with
    | none => pure {}
    | some file =>
      match text with
      | none => throw (.readRequest file)
      | some text =>
        match Request.ofText? text with
        | some r => pure r
        | none => throw (.invalidRequest file)
  let r := s.apply base
  r.validate.mapError .mesh
  return r

variable {m : Type → Type} [Monad m]

/-- Reads the formula of a file. -/
def loadFormula (disk : Disk m) (file : String) :
    m (Except CommandError Formula) :=
  return formulaOf file (← disk.read file)

/-- Reads the request of settings. -/
def loadRequest (disk : Disk m) (s : Settings) :
    m (Except CommandError Request) := do
  match s.request with
  | none => return requestOf s none
  | some file => return requestOf s (← disk.read file)

/-! ## Commands that print -/

/-- The canonical text of an expression. -/
def runParse (expression : String) : Outcome :=
  match parse expression with
  | .ok (some e) => .done [e.text]
  | .ok none => .done ["(empty)"]
  | .error e => ⟨[], .failed (.parse e)⟩

/-- The value of an expression. -/
def runEval (expression : String) (parameters : List (String × Vec3)) :
    Outcome :=
  let formula := { source := expression : Formula }.setParameters
    (parameters.map (·.1))
  match formula.compile.1 with
  | .error e => ⟨[], .failed (.formula e)⟩
  | .ok compiled =>
    match compiled.program.eval (parameters.map (·.2)) with
    | .ok v => .done [numbersText v]
    | .error fault => ⟨[], .stopped (.program fault)⟩

/-- The line that names the variables of a program, if it has some. -/
def usedLines (used : Names) : List String :=
  if used.isEmpty then []
  else ["Variables: " ++ String.intercalate ", " used]

/-! ## Commands that read and write files -/

/-- Prints the program of a formula file, or stores it. -/
def runCompile (disk : Disk m) (file : String) (output : Option String) :
    m Outcome := do
  match ← loadFormula disk file with
  | .error e => return ⟨[], .failed e⟩
  | .ok formula =>
    match formula.compile.1 with
    | .error e => return ⟨[], .failed (.formula e)⟩
    | .ok compiled =>
      match output with
      | none =>
        return .done (compiled.program.listing ++ usedLines compiled.used)
      | some output =>
        match ← disk.write output compiled.program.toText with
        | .error _ => return ⟨[], .failed (.writeFile output)⟩
        | .ok () =>
          return .done (("Wrote " ++ toString compiled.program.length ++
            " instructions to " ++ output) :: usedLines compiled.used)

/-- The size of a mesh in words. -/
def sizeText (b : Buffers) : String :=
  toString b.vertexCount ++ " vertices, " ++ toString b.triangleCount ++
    " triangles"

/-- Stores the mesh of a formula file. -/
def runMesh (disk : Disk m) (file : String) (s : Settings) (output : String) :
    m Outcome := do
  match ← loadRequest disk s with
  | .error e => return ⟨[], .failed e⟩
  | .ok request =>
    match ← loadFormula disk file with
    | .error e => return ⟨[], .failed e⟩
    | .ok formula =>
      let mesh := do
        let session ← (openSession formula).1
        generate session request
      match mesh with
      | .error e => return ⟨[], .ofMeshError e⟩
      | .ok mesh =>
        let generated := "Generated mesh: " ++ sizeText mesh.buffers
        match ← disk.write output mesh.buffers.wavefront with
        | .error fault => return ⟨[generated], .failed (.exportMesh fault)⟩
        | .ok () => return .done [generated, "Exported to: " ++ output]

/-! ## Watching -/

/-- A file that is watched, and what for. -/
structure Job where
  /-- The full path of the formula. -/
  formula : String
  request : Request
  output : String

/-- What a change has led to. -/
inductive Report where
  | built (mesh : GeneratedMesh)
  /-- A formula that does not compile, and the generation that stays. -/
  | kept (e : FormulaError) (generation : Nat)
  | failed (e : CommandError)
  /-- A fault of a program that was run. It ends the watching. -/
  | stopped (f : Mesh.Fault)

/-- The lines of a report. -/
def Report.lines : Report → List String
  | .built mesh =>
    ["OK - generation " ++ toString mesh.generation ++ ": " ++
      sizeText mesh.buffers]
  | .kept e generation =>
    ["ERROR: " ++ (MeshError.formula e).message,
      "Keeping generation " ++ toString generation]
  | .failed e => ["ERROR: " ++ e.message]
  | .stopped f => [f.message]

/-- Publishes the formula of a file and makes its mesh. -/
def renew (job : Job) (text : Option String) (session : Session) :
    Report × Session :=
  match formulaOf job.formula text with
  | .error e => (.failed e, session)
  | .ok formula =>
    match session.recompile formula with
    | (.error e, session, _) => (.kept e session.generation, session)
    | (.ok _, session, _) =>
      match generate session job.request with
      | .ok mesh => (.built mesh, session)
      | .error (.fault f) => (.stopped f, session)
      | .error e => (.failed (.mesh e), session)

/-- Reads the watched file again, publishes its formula, and stores the
mesh. -/
def rebuild (disk : Disk m) (job : Job) (session : Session) :
    m (Report × Session) := do
  match renew job (← disk.read job.formula) session with
  | (.built mesh, session) =>
    match ← disk.write job.output mesh.buffers.wavefront with
    | .ok () => return (.built mesh, session)
    | .error fault => return (.failed (.exportMesh fault), session)
  | (report, session) => return (report, session)

/-- What is published before the first formula: zero everywhere. -/
def firstSession : Session := .publish (.constant Vec3.zero)

/-- The job of watching a formula file. -/
def startWatch (disk : Disk m) (file : String) (s : Settings)
    (output : String) : m (Except CommandError Job) := do
  match ← loadRequest disk s with
  | .error e => return .error e
  | .ok request =>
    match ← disk.locate file with
    | none => return .error (.notFound file)
    | some formula => return .ok ⟨formula, request, output⟩

/-- The lines printed when the watching begins. -/
def Job.greeting (job : Job) : List String :=
  ["Watching " ++ job.formula ++ " (writing " ++ job.output ++ ")",
    "Press Ctrl+C to stop", ""]

/-- The lines printed before the formula is read. -/
def Job.heading (job : Job) : List String :=
  ["", "--- Compiling: " ++ job.formula ++ " ---"]

/-- Does what a command says. The result is a job if a file is to be
watched. -/
def Command.run (disk : Disk m) :
    Command → m (Outcome ⊕ Job)
  | .parse expression => return .inl (runParse expression)
  | .eval expression parameters => return .inl (runEval expression parameters)
  | .compile file output => return .inl (← runCompile disk file output)
  | .mesh file s output => return .inl (← runMesh disk file s output)
  | .watch file s output => do
    match ← startWatch disk file s output with
    | .ok job => return .inr job
    | .error e => return .inl ⟨[], .failed e⟩

end FieldMesh.CommandLine
