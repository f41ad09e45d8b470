import FieldMesh.CommandLine.Run

/-!
# The program

Reaches the disk of the machine, prints what commands say, and follows a
watched file by looking at it again and again.
-/

open FieldMesh FieldMesh.Files FieldMesh.CommandLine

namespace FieldMesh.Main

/-- What an error of the machine says about a name. -/
def pathFault : IO.Error → PathFault
  | .inappropriateType _ 20 _ => .notDirectory
  | .inappropriateType _ 21 _ => .isDirectory
  | .alreadyExists .. => .occupied
  | _ => .missing

/-- The disk of the machine. -/
def machineDisk : Disk IO where
  read := fun name => do
    try return some (← IO.FS.readFile name) catch _ => return none
  write := fun name text => do
    try
      IO.FS.writeFile name text
      return .ok ()
    catch e => return .error (pathFault e)
  locate := fun name => do
    try
      let path ← IO.FS.realPath name
      let _ ← path.metadata
      return some path.toString
    catch _ => return none

/-- Prints lines at once. -/
def printLines (lines : List String) : IO Unit := do
  lines.forM fun line => IO.println line
  (← IO.getStdout).flush

/-- When a file was last written, if it is there. -/
def writtenAt (name : String) : IO (Option IO.FS.SystemTime) := do
  try
    let path ← IO.FS.realPath name
    return some (← path.metadata).modified
  catch _ => return none

/-- Makes the mesh of a watched formula again, and reports. The result tells
whether to go on. -/
def renewAndReport (job : Job) (session : Formula.Session) :
    IO (Bool × Formula.Session) := do
  printLines job.heading
  let (report, session) ← rebuild machineDisk job session
  match report with
  | .built _ => printLines report.lines
  | _ => report.lines.forM fun line => IO.eprintln line
  match report with
  | .stopped _ => return (false, session)
  | _ => return (true, session)

/-- Makes the mesh again whenever the formula has been written. -/
partial def follow (job : Job) (session : Formula.Session)
    (seen : Option IO.FS.SystemTime) : IO Unit := do
  IO.sleep 100
  let now ← writtenAt job.formula
  if now == seen then follow job session seen
  else
    let (goesOn, session) ← renewAndReport job session
    if goesOn then follow job session now

/-- Watches the formula of a job until a program stops with a fault. -/
def watch (job : Job) : IO UInt32 := do
  printLines job.greeting
  let seen ← writtenAt job.formula
  let (goesOn, session) ← renewAndReport job firstSession
  if goesOn then follow job session seen
  return 101

/-- Prints what a command says, and gives the number it ends with. -/
def finish (outcome : Outcome) : IO UInt32 := do
  printLines outcome.lines
  match outcome.ending with
  | .done => pure ()
  | .failed e => IO.eprintln ("Error: " ++ e.message)
  | .stopped f => IO.eprintln f.message
  return .ofNat outcome.ending.code

end FieldMesh.Main

/-- Does what the arguments say. -/
def main (arguments : List String) : IO UInt32 := do
  match Command.ofArguments arguments with
  | .error .version =>
    FieldMesh.Main.printLines [versionLine]
    return 0
  | .error .help =>
    FieldMesh.Main.printLines usageLines
    return 0
  | .error .refused =>
    usageLines.forM fun line => IO.eprintln line
    return .ofNat refusedCode
  | .ok command =>
    match ← command.run FieldMesh.Main.machineDisk with
    | .inl outcome => FieldMesh.Main.finish outcome
    | .inr job => FieldMesh.Main.watch job
