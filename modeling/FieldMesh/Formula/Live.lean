import FieldMesh.Formula.Basic

/-!
# Live editing

A session publishes the program that new work is to use. Every recompile that
succeeds publishes the next generation; one that fails leaves the published
program as it is and records why.

* `Session.recompile`: compiles a formula and publishes it;
* `Session.snapshot`: a program with its generation, which later recompiles
  do not touch.
-/

namespace FieldMesh.Formula

/-- How the last edit went. -/
inductive EditStatus where
  /-- The published program is that of the last edit. -/
  | clean
  /-- A program is being compiled, and the one before is published. -/
  | recompiling
  /-- The last edit failed, and the program before it is published. -/
  | failed (e : FormulaError)
  deriving DecidableEq, Repr

/-- A session of live editing. -/
structure Session where
  /-- The program that new work is to use. -/
  program : Program
  /-- How many recompiles have succeeded, without the bound that a word of 64
  bits would set. -/
  generation : Nat
  status : EditStatus

namespace Session

/-- Publishes a program as generation zero. -/
def publish (program : Program) : Session := ⟨program, 0, .clean⟩

/-- Compiles a formula and publishes it. -/
def ofFormula (formula : Formula) : Except FormulaError Session × Formula :=
  let (result, formula) := formula.compile
  (result.map fun compiled => publish compiled.program, formula)

/-- The published program with its generation. -/
def snapshot (session : Session) : Program × Nat :=
  (session.program, session.generation)

/-- Begins to compile an edit. -/
def begin (session : Session) : Session :=
  { session with status := .recompiling }

/-- Ends the compilation of an edit. -/
def settle (session : Session) : Except FormulaError Compiled → Session
  | .ok compiled => ⟨compiled.program, session.generation + 1, .clean⟩
  | .error e => { session with status := .failed e }

/-- What a recompile that succeeds gives. -/
structure Recompiled where
  generation : Nat
  used : Names

/-- Compiles a formula and publishes it as the next generation. If that
fails, the published program stays. -/
def recompile (session : Session) (formula : Formula) :
    Except FormulaError Recompiled × Session × Formula :=
  let (result, formula) := formula.compile
  let session := session.begin.settle result
  (result.map fun compiled => ⟨session.generation, compiled.used⟩, session,
    formula)

end Session

end FieldMesh.Formula
