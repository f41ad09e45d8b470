import FieldMesh.Proofs.Mesh.Generation

/-!
# Sessions follow their history

A session and a formula are on a desk. The formula is edited and compiled
again, and in between programs are taken, run and meshed. Beside it goes the
history of what the recompiles gave, which knows nothing of sessions. All that
the session has and answers is told by the history.

* `Desk.perform`, `Desk.run`: what is done with a session, and what it
  answers;
* `History.after`: what is remembered of it;
* `History.Tells`: a desk is as its history tells. `History.Tells.perform`
  keeps it, and tells the answer;
* **main result**: `run_follows_history`.
-/

namespace FieldMesh.Mesh

open FieldMesh.Formula

/-! ## Sessions in use -/

/-- What is done with a session and its formula. -/
inductive Operation where
  /-- Changes the formula. -/
  | edit (change : Formula → Formula)
  /-- Compiles the formula and publishes it. -/
  | recompile
  /-- Takes the published program. -/
  | snapshot
  /-- Runs the published program. -/
  | evaluate (parameters : List Vec3)
  /-- Makes a mesh. -/
  | generate (r : Request)
  /-- Makes a mesh with the store that is kept. -/
  | generateOn (r : Request)

/-- What an operation gives. -/
inductive Answer where
  | done
  | recompiled (result : Except FormulaError Session.Recompiled)
  | snapshot (program : Program) (generation : Nat)
  | value (result : Except Program.Fault Vec3)
  | mesh (result : Except MeshError GeneratedMesh)

/-- A session with the formula that it is for, and a store that is kept. -/
structure Desk where
  session : Session
  formula : Formula
  store : Density

/-- Does one thing. -/
def Desk.perform (d : Desk) : Operation → Answer × Desk
  | .edit change => (.done, { d with formula := change d.formula })
  | .recompile =>
    let (result, session, formula) := d.session.recompile d.formula
    (.recompiled result, { d with session, formula })
  | .snapshot =>
    let (program, generation) := d.session.snapshot
    (.snapshot program generation, d)
  | .evaluate parameters => (.value (d.session.program.eval parameters), d)
  | .generate r => (.mesh (Mesh.generate d.session r), d)
  | .generateOn r =>
    let (result, store) := Mesh.generateOn d.session r d.store
    (.mesh result, { d with store })

/-- Does one thing after the other. -/
def Desk.run (d : Desk) : List Operation → List Answer × Desk
  | [] => ([], d)
  | operation :: rest =>
    let (answer, d) := d.perform operation
    let (answers, d) := d.run rest
    (answer :: answers, d)

/-! ## Histories -/

/-- The formula as it stands, and what all recompiles have given so far. -/
structure History where
  formula : Formula
  attempts : List (Except FormulaError Compiled) := []

namespace History

/-- What is remembered when something has been done. -/
def after (h : History) : Operation → History
  | .edit change => { h with formula := change h.formula }
  | .recompile =>
    let (result, formula) := h.formula.compile
    ⟨formula, h.attempts ++ [result]⟩
  | _ => h

/-- What is remembered of several things. -/
def afterAll (h : History) (operations : List Operation) : History :=
  operations.foldl after h

/-- What the recompiles that have succeeded gave. -/
def successes (h : History) : List Compiled := h.attempts.filterMap Except.toOption

/-- The programs by the generation as which they were published. -/
def published (first : Program) (h : History) : List Program :=
  first :: h.successes.map Compiled.program

/-- The program of the last recompile that succeeded, else the first one. -/
def program (first : Program) (h : History) : Program :=
  h.successes.getLast?.elim first Compiled.program

/-- How the last recompile went. -/
def status (h : History) : EditStatus :=
  match h.attempts.getLast? with
  | some (.error e) => .failed e
  | _ => .clean

end History

/-- What an operation gives with a program that is published as a generation,
and with a formula. A program is meshed as if it were published alone. -/
def Operation.answer (program : Program) (generation : Nat) (formula : Formula) :
    Operation → Answer
  | .edit _ => .done
  | .recompile =>
    .recompiled (formula.compile.1.map fun compiled =>
      ⟨generation + 1, compiled.used⟩)
  | .snapshot => .snapshot program generation
  | .evaluate parameters => .value (program.eval parameters)
  | .generate r =>
    .mesh ((Mesh.generate (.publish program) r).map
      ({ · with generation := generation }))
  | .generateOn r =>
    .mesh ((Mesh.generateOn (.publish program) r (.blank r.lattice)).1.map
      ({ · with generation := generation }))

namespace History

variable {h : History} {first : Program}

/-- The program that is published has the last generation. -/
theorem getElem?_published (first : Program) (h : History) :
    (h.published first)[h.successes.length]? = some (h.program first) := by
  unfold published program
  rcases List.eq_nil_or_concat h.successes with empty | ⟨before, last, split⟩
  · rw [empty]
    rfl
  · rw [split, List.concat_eq_append]
    simp

/-- What has been tried stays, whatever is done then. -/
theorem attempts_prefix (h : History) (operation : Operation) :
    h.attempts <+: (h.after operation).attempts := by
  cases operation with
  | recompile => exact List.prefix_append _ _
  | _ => exact List.prefix_rfl

/-- What has been published stays, whatever is done then. -/
theorem published_prefix (first : Program) (h : History)
    (operations : List Operation) :
    h.published first <+: (h.afterAll operations).published first := by
  induction operations generalizing h with
  | nil => exact List.prefix_rfl
  | cons operation rest ih =>
    refine List.IsPrefix.trans ?_ (ih (h.after operation))
    have kept := (h.attempts_prefix operation).filterMap Except.toOption
    exact (List.prefix_cons_inj first).mpr (kept.map Compiled.program)

/-- A recompile that succeeds is remembered. -/
theorem successes_of_ok {compiled : Compiled}
    (found : h.formula.compile.1 = .ok compiled) :
    (h.after .recompile).successes = h.successes ++ [compiled] := by
  show (h.attempts ++ [h.formula.compile.1]).filterMap _ = _
  rw [found, List.filterMap_append]
  rfl

/-- A recompile that fails publishes nothing. -/
theorem successes_of_error {e : FormulaError}
    (found : h.formula.compile.1 = .error e) :
    (h.after .recompile).successes = h.successes := by
  show (h.attempts ++ [h.formula.compile.1]).filterMap _ = _
  rw [found, List.filterMap_append]
  exact List.append_nil _

/-- The last recompile tells the status. -/
theorem status_recompile (h : History) :
    (h.after .recompile).status =
      match h.formula.compile.1 with
      | .ok _ => .clean
      | .error e => .failed e := by
  show (match (h.attempts ++ [h.formula.compile.1]).getLast? with
    | some (.error e) => EditStatus.failed e
    | _ => .clean) = _
  rw [List.getLast?_concat]
  cases h.formula.compile.1 <;> rfl

end History

/-! ## Sessions -/

/-- A formula that compiles is published as the next generation. -/
theorem recompile_of_ok (session : Session) {formula : Formula}
    {compiled : Compiled} (found : formula.compile.1 = .ok compiled) :
    session.recompile formula =
      (.ok ⟨session.generation + 1, compiled.used⟩,
        session.settle (.ok compiled), formula.compile.2) := by
  simp only [Session.recompile, found]
  rfl

/-- A formula that does not compile changes the status only. -/
theorem recompile_of_error (session : Session) {formula : Formula}
    {e : FormulaError} (found : formula.compile.1 = .error e) :
    session.recompile formula =
      (.error e, session.settle (.error e), formula.compile.2) := by
  simp only [Session.recompile, found]
  rfl

/-- Only the generation of a mesh tells of the session. -/
theorem generateOn_alone (session : Session) (r : Request)
    (store other : Density) :
    (generateOn session r store).1 =
      (generateOn (.publish session.program) r other).1.map
        ({ · with generation := session.generation }) := by
  rw [generateOn_eq, generateOn_eq, Session.publish]
  cases checkInputs session.program r with
  | error e => rfl
  | ok _ =>
    cases sample session.program r.origin r.scale r.lattice with
    | error fault => rfl
    | ok density =>
      simp only
      cases extract density session.program r (.blank r.capacity) <;> rfl

theorem generate_alone (session : Session) (r : Request) :
    generate session r =
      (generate (.publish session.program) r).map
        ({ · with generation := session.generation }) := by
  unfold generate
  cases r.lattice.checkStorage with
  | error fault => rfl
  | ok _ =>
    cases r.validate with
    | error e => rfl
    | ok _ => exact generateOn_alone session r _ _

/-- A mesh is that of its program alone, with the generation of the session. -/
theorem generate_publish {session : Session} {r : Request} {mesh : GeneratedMesh}
    (made : generate session r = .ok mesh) :
    ∃ alone, generate (.publish session.program) r = .ok alone ∧
      mesh = { alone with generation := session.generation } := by
  rw [generate_alone] at made
  cases found : generate (.publish session.program) r with
  | error e =>
    rw [found] at made
    cases made
  | ok alone =>
    rw [found] at made
    cases made
    exact ⟨alone, rfl, rfl⟩

/-! ## Runs -/

/-- A desk is as its history tells. -/
structure History.Tells (first : Program) (h : History) (d : Desk) : Prop where
  formula : d.formula = h.formula
  /-- The recompiles that have succeeded are counted. -/
  generation : d.session.generation = h.successes.length
  /-- The last of them gave the published program. -/
  program : d.session.program = h.program first
  /-- The last recompile gave the status. -/
  status : d.session.status = h.status

namespace History.Tells

variable {h : History} {first : Program} {d : Desk}

theorem start (first : Program) (formula : Formula) (store : Density) :
    Tells first ⟨formula, []⟩ ⟨.publish first, formula, store⟩ :=
  ⟨rfl, rfl, rfl, rfl⟩

/-- The history of a recompile. -/
theorem recompile (tells : h.Tells first d) :
    (h.after .recompile).Tells first (d.perform .recompile).2 := by
  obtain ⟨formula, generation, program, status⟩ := tells
  cases found : h.formula.compile.1 with
  | ok compiled =>
    have recompiled := recompile_of_ok d.session (formula ▸ found)
    have successes := successes_of_ok found
    simp only [Desk.perform, recompiled, Session.settle]
    refine ⟨congrArg (·.compile.2) formula, ?_, ?_, ?_⟩
    · rw [successes, List.length_append, generation]
      rfl
    · rw [History.program, successes, List.getLast?_concat]
      rfl
    · rw [status_recompile, found]
  | error e =>
    have recompiled := recompile_of_error d.session (formula ▸ found)
    have successes := successes_of_error found
    simp only [Desk.perform, recompiled, Session.settle]
    refine ⟨congrArg (·.compile.2) formula, ?_, ?_, ?_⟩
    · rw [successes, generation]
    · rw [History.program, successes]
      exact program
    · rw [status_recompile, found]

/-- Whatever is done, the history tells what the desk becomes. -/
theorem perform (tells : h.Tells first d) (operation : Operation) :
    (h.after operation).Tells first (d.perform operation).2 := by
  cases operation with
  | edit change => exact { tells with formula := congrArg change tells.formula }
  | recompile => exact tells.recompile
  | _ => exact ⟨tells.formula, tells.generation, tells.program, tells.status⟩

/-- Whatever is done, the history tells the answer. -/
theorem answer (tells : h.Tells first d) (operation : Operation) :
    (d.perform operation).1 =
      operation.answer (h.program first) h.successes.length h.formula := by
  rw [← tells.program, ← tells.generation, ← tells.formula]
  cases operation with
  | edit change => rfl
  | recompile =>
    cases found : d.formula.compile.1 with
    | ok compiled =>
      simp only [Desk.perform, Operation.answer, recompile_of_ok _ found, found]
      rfl
    | error e =>
      simp only [Desk.perform, Operation.answer, recompile_of_error _ found, found]
      rfl
  | snapshot => rfl
  | evaluate parameters => rfl
  | generate r => exact congrArg Answer.mesh (generate_alone d.session r)
  | generateOn r => exact congrArg Answer.mesh (generateOn_alone d.session r _ _)

/-- A run is told by what is remembered of it. -/
theorem run (tells : h.Tells first d) (operations : List Operation) :
    (h.afterAll operations).Tells first (d.run operations).2 := by
  induction operations generalizing h d with
  | nil => exact tells
  | cons operation rest ih => exact ih (tells.perform operation)

end History.Tells

/-- The answer to an operation comes after those to the operations before. -/
theorem getElem?_run (d : Desk) (before : List Operation) (operation : Operation)
    (after : List Operation) :
    (d.run (before ++ operation :: after)).1[before.length]? =
      some ((d.run before).2.perform operation).1 := by
  induction before generalizing d with
  | nil => rfl
  | cons earlier rest ih => exact ih (d.perform earlier).2

/-! ## Main result -/

/-- **A session follows its history.** After any operations the generation
counts the recompiles that have succeeded, the published program is that of the
last of them, and the status tells how the last recompile went. A recompile
that fails changes the status only. Every answer is that of the program that
was published when it was asked for, and it is found again under its generation
among all programs published by the end. -/
theorem run_follows_history (first : Program) (formula : Formula)
    (store : Density) (operations : List Operation) :
    let start : Desk := ⟨.publish first, formula, store⟩
    let finish := (start.run operations).2
    let history := History.afterAll ⟨formula, []⟩ operations
    history.Tells first finish ∧
    (history.published first)[finish.session.generation]? =
      some finish.session.program ∧
    (∀ e, finish.formula.compile.1 = .error e →
      (finish.perform .recompile).1 = .recompiled (.error e) ∧
      (finish.perform .recompile).2.session =
        { finish.session with status := .failed e }) ∧
    ∀ before operation after, operations = before ++ operation :: after →
      let past := History.afterAll ⟨formula, []⟩ before
      let generation := past.successes.length
      ∃ program, (history.published first)[generation]? = some program ∧
        (start.run operations).1[before.length]? =
          some (operation.answer program generation past.formula) := by
  intro start finish history
  have tells : history.Tells first finish :=
    (History.Tells.start first formula store).run operations
  refine ⟨tells, ?_, fun e found => ?_, ?_⟩
  · rw [tells.generation, tells.program]
    exact history.getElem?_published first
  · constructor <;> simp only [Desk.perform, recompile_of_error _ found, Session.settle]
  · rintro before operation after rfl past generation
    have whole : history = past.afterAll (operation :: after) :=
      List.foldl_append
    refine ⟨past.program first, ?_, ?_⟩
    · obtain ⟨later, published⟩ :=
        past.published_prefix first (operation :: after)
      rw [whole, ← published]
      have held := past.getElem?_published first
      obtain ⟨below, -⟩ := List.getElem?_eq_some_iff.mp held
      rw [List.getElem?_append_left below, held]
    · rw [getElem?_run]
      have tells : past.Tells first (start.run before).2 :=
        (History.Tells.start first formula store).run before
      rw [tells.answer]

/-- A blank formula is published, and then one is written that is cut short. -/
theorem run_follows_history_cutShort :
    let blank : Formula := { source := "" }
    let cut : Formula := { source := "3 +" }
    let e : FormulaError := .parse ⟨.missingOperand "+", 3⟩
    let start : Desk :=
      ⟨.publish (.constant (.splat 1.0)), blank, .blank ⟨1, .none⟩⟩
    let operations := [.recompile, .edit fun _ => cut, .snapshot]
    let finish := (start.run operations).2
    finish.session.generation = 1 ∧
    (start.run operations).1[2]? = some (.snapshot (.constant .zero) 1) ∧
    finish.formula.compile.1 = .error e ∧
    (finish.perform .recompile).2.session =
      ⟨.constant .zero, 1, .failed e⟩ := by
  intro blank cut e start operations finish
  have nothing : parse "" = .ok none := by with_unfolding_all rfl
  have noOperand : parse "3 +" = .error ⟨.missingOperand "+", 3⟩ := by
    with_unfolding_all rfl
  have compiled : blank.compile = (.ok ⟨.constant .zero, []⟩, blank) := by
    rw [Formula.compile, nothing]
  have refused : cut.compile.1 = .error e := by
    rw [Formula.compile, noOperand]
  have remembered (rest : List Operation) :
      History.afterAll ⟨blank, []⟩ (.recompile :: rest) =
        History.afterAll ⟨blank, [.ok ⟨.constant .zero, []⟩]⟩ rest := by
    simp only [History.afterAll, List.foldl_cons, History.after, compiled]
    rfl
  obtain ⟨tells, -, failing, answers⟩ := run_follows_history
    (.constant (.splat 1.0)) blank (.blank ⟨1, .none⟩) operations
  rw [remembered] at tells answers
  have formula : finish.formula = cut := tells.formula
  have failed : finish.formula.compile.1 = .error e := formula ▸ refused
  have session : finish.session = ⟨.constant .zero, 1, .clean⟩ := by
    show Session.mk finish.session.program finish.session.generation
      finish.session.status = _
    rw [tells.program, tells.generation, tells.status]
    rfl
  obtain ⟨program, published, answer⟩ :=
    answers [.recompile, .edit fun _ => cut] .snapshot [] rfl
  rw [remembered] at published answer
  cases published
  refine ⟨tells.generation, answer, failed, ?_⟩
  rw [(failing e failed).2, session]

end FieldMesh.Mesh
