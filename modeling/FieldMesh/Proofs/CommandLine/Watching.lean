import FieldMesh.CommandLine.Run
import FieldMesh.Proofs.Files.Writing
import FieldMesh.Proofs.Mesh.LiveSession

/-!
# Watching keeps the last good state

A formula file is watched, and with every change its mesh is to be written
again. In between all files may change, but for the output.

* `Renewed`: what a change can lead to before anything is written;
* `Round`: one rebuild, with what it finds and what it leaves;
* `Round.KeepsPromise`: nothing changes with an error, and success publishes
  the formula and writes its mesh;
* `Watched`: rebuilds one after the other;
* **main result**: `watch_keeps_last_good`;
* `rebuild_twoParameters`: a formula of two parameters is published though it
  has no mesh.
-/

namespace FieldMesh.CommandLine

open FieldMesh.Files FieldMesh.Formula FieldMesh.Mesh

/-! ## Renewals -/

/-- What a text of the watched file can lead to. -/
inductive Renewed (job : Job) (text : Option String) (session : Session) :
    Report → Session → Prop
  | unloaded (missing : formulaOf job.formula text =
        .error (.loadFormula job.formula)) :
      Renewed job text session (.failed (.loadFormula job.formula)) session
  | uncompiled {formula : Formula} {e : FormulaError}
      (loaded : formulaOf job.formula text = .ok formula)
      (wrong : formula.compile.1 = .error e) :
      Renewed job text session (.kept e session.generation)
        (session.settle (.error e))
  | unmeshed {formula : Formula} {compiled : Compiled} {e : MeshError}
      (loaded : formulaOf job.formula text = .ok formula)
      (right : formula.compile.1 = .ok compiled)
      (refused : generate (session.settle (.ok compiled)) job.request = .error e)
      (noFault : ∀ f, e ≠ .fault f) :
      Renewed job text session (.failed (.mesh e)) (session.settle (.ok compiled))
  | stopped {formula : Formula} {compiled : Compiled} {f : Mesh.Fault}
      (loaded : formulaOf job.formula text = .ok formula)
      (right : formula.compile.1 = .ok compiled)
      (faulty : generate (session.settle (.ok compiled)) job.request =
        .error (.fault f)) :
      Renewed job text session (.stopped f) (session.settle (.ok compiled))
  | built {formula : Formula} {compiled : Compiled} {mesh : GeneratedMesh}
      (loaded : formulaOf job.formula text = .ok formula)
      (right : formula.compile.1 = .ok compiled)
      (made : generate (session.settle (.ok compiled)) job.request = .ok mesh) :
      Renewed job text session (.built mesh) (session.settle (.ok compiled))

/-- A formula that is not loaded is told by the name of its file. -/
theorem loadFormula_of_formulaOf {file : String} {text : Option String}
    {e : CommandError} (missing : formulaOf file text = .error e) :
    e = .loadFormula file := by
  unfold formulaOf at missing
  split at missing
  · cases missing
    rfl
  · split at missing <;> cases missing

theorem renewed_renew (job : Job) (text : Option String) (session : Session) :
    Renewed job text session (renew job text session).1
      (renew job text session).2 := by
  unfold renew
  cases loaded : formulaOf job.formula text with
  | error e =>
    cases loadFormula_of_formulaOf loaded
    exact .unloaded loaded
  | ok formula =>
    cases compiled : formula.compile.1 with
    | error e =>
      simp only [recompile_of_error _ compiled]
      exact .uncompiled loaded compiled
    | ok program =>
      simp only [recompile_of_ok _ compiled]
      cases made : generate (session.settle (.ok program)) job.request with
      | ok mesh => exact .built loaded compiled made
      | error e =>
        cases e with
        | fault f => exact .stopped loaded compiled made
        | _ => exact .unmeshed loaded compiled made nofun

/-! ## Rebuilds -/

/-- A rebuild below a directory: the tree and the session that it finds, what
it reports, and what it leaves. -/
structure Round where
  before : Tree
  session : Session
  report : Report
  after : Tree
  next : Session

/-- The text of the watched file that a round finds. -/
def Round.text (root : String) (job : Job) (round : Round) : Option String :=
  (round.before.read (below root job.formula)).toOption

/-- A round is made by a rebuild. -/
def Round.Made (root : String) (job : Job) (round : Round) : Prop :=
  Id.run ((rebuild (treeDisk root) job round.session).run round.before) =
    ((round.report, round.next), round.after)

/-- A rebuild renews the session, and then it writes a mesh if there is one. -/
theorem Round.made_iff {root : String} {job : Job} {round : Round} :
    round.Made root job ↔
      (match renew job (round.text root job) round.session with
        | (.built mesh, next) =>
          match round.before.write (below root job.output) mesh.buffers.wavefront with
          | .ok (after, _) => ((.built mesh, next), after)
          | .error fault => ((.failed (.exportMesh fault), next), round.before)
        | (report, next) => ((report, next), round.before)) =
      ((round.report, round.next), round.after) := by
  unfold Made text
  cases renewal : renew job (round.before.read (below root job.formula)).toOption
      round.session with
  | mk report next =>
    cases report with
    | built mesh =>
      cases written :
          round.before.write (below root job.output) mesh.buffers.wavefront with
      | ok result => simp [rebuild, treeDisk, renewal, written]
      | error fault => simp [rebuild, treeDisk, renewal, written]
    | _ => simp [rebuild, treeDisk, renewal]

/-- The output file holds the mesh of a program. -/
def Shows (root : String) (job : Job) (t : Tree) (program : Program) : Prop :=
  ∃ mesh, generate (.publish program) job.request = .ok mesh ∧
    t.read (below root job.output) = .ok mesh.buffers.wavefront

/-- What a rebuild promises by its report. If the formula is not loaded, not
compiled or not meshed, the published program, its generation and all files
are as they were. If there is a mesh, it is the formula's, the formula is
published as the next generation, and the output file holds its mesh. -/
def Round.KeepsPromise (root : String) (job : Job) (round : Round) : Prop :=
  match round.report with
  | .built mesh =>
    (∃ formula compiled, formulaOf job.formula (round.text root job) = .ok formula ∧
      formula.compile.1 = .ok compiled ∧
      round.next.program = compiled.program) ∧
    round.next.generation = round.session.generation + 1 ∧
    mesh.generation = round.next.generation ∧
    Shows root job round.after round.next.program
  | .kept _ _ | .failed (.loadFormula _) | .failed (.mesh _) =>
    round.next.program = round.session.program ∧
    round.next.generation = round.session.generation ∧
    round.after = round.before
  | _ => True

/-- The formula that is found reads at most one parameter. -/
def Round.Single (root : String) (job : Job) (round : Round) : Prop :=
  ∀ formula compiled, formulaOf job.formula (round.text root job) = .ok formula →
    formula.compile.1 = .ok compiled → compiled.program.parameterCount ≤ 1

/-- All that a rebuild can be: a renewal that writes nothing, or one with a
mesh that is then written or not. -/
theorem Round.Made.renewed_or {root : String} {job : Job} {round : Round}
    (made : round.Made root job) :
    (Renewed job (round.text root job) round.session round.report round.next ∧
      ((∀ mesh, round.report ≠ .built mesh) → round.after = round.before) ∧
      ∀ mesh, round.report = .built mesh →
        round.after.read (below root job.output) = .ok mesh.buffers.wavefront) ∨
    ∃ fault, round.report = .failed (.exportMesh fault) := by
  have renewal := renewed_renew job (round.text root job) round.session
  rw [made_iff] at made
  cases found : renew job (round.text root job) round.session with
  | mk report next =>
    rw [found] at made renewal
    cases report with
    | built mesh =>
      dsimp only at made
      cases written :
          round.before.write (below root job.output) mesh.buffers.wavefront with
      | ok result =>
        rw [written] at made
        obtain ⟨⟨told, left⟩, after⟩ := by simpa only [Prod.mk.injEq] using made
        rw [← told, ← left, ← after]
        refine .inl ⟨renewal, fun unread => absurd rfl (unread mesh), ?_⟩
        rintro _ ⟨⟩
        exact Tree.read_write written
      | error fault =>
        rw [written] at made
        obtain ⟨⟨told, -⟩, -⟩ := by simpa only [Prod.mk.injEq] using made
        exact .inr ⟨fault, told.symm⟩
    | _ =>
      obtain ⟨⟨told, left⟩, after⟩ := by simpa only [Prod.mk.injEq] using made
      rw [← told, ← left, ← after]
      exact .inl ⟨renewal, fun _ => rfl, nofun⟩

/-- A rebuild keeps its promise if the formula reads at most one parameter. -/
theorem Round.Made.keepsPromise {root : String} {job : Job} {round : Round}
    (made : round.Made root job) (valid : job.request.validate = .ok ())
    (single : round.Single root job) : round.KeepsPromise root job := by
  obtain ⟨before, session, report, after, next⟩ := round
  rcases made.renewed_or with ⟨renewal, kept, written⟩ | ⟨fault, unwritten⟩
  · change Renewed job (before.read (below root job.formula)).toOption session
      report next at renewal
    cases renewal with
    | unloaded missing => exact ⟨rfl, rfl, kept nofun⟩
    | uncompiled loaded wrong => exact ⟨rfl, rfl, kept nofun⟩
    | stopped loaded right faulty => trivial
    | @unmeshed formula compiled e loaded right refused noFault =>
      have ends := ends_generateOn (session.settle (.ok compiled))
        (checkInputs_ok_iff.mpr ⟨valid, single formula compiled loaded right⟩)
        (.blank job.request.lattice)
      rw [← generate_eq_generateOn _ valid, refused] at ends
      exact absurd ends.1 (noFault _)
    | @built formula compiled mesh loaded right meshed =>
      obtain ⟨alone, published, rfl⟩ := generate_publish meshed
      have shown := written _ rfl
      exact ⟨⟨formula, compiled, loaded, right, rfl⟩, rfl, rfl, alone, published,
        shown⟩
  · rw [KeepsPromise, unwritten]
    trivial

/-! ## Watching -/

/-- Rebuilds one after the other, with the session and the tree that they leave.
The session is carried on. The tree may change in between, as long as the
output file is read as before. -/
inductive Watched (root : String) (job : Job) : List Round → Session → Tree → Prop
  | start (session : Session) (t : Tree) : Watched root job [] session t
  | round {rounds : List Round} {t : Tree} (round : Round)
      (earlier : Watched root job rounds round.session t)
      (kept : round.before.read (below root job.output) =
        t.read (below root job.output))
      (made : round.Made root job) :
      Watched root job (rounds ++ [round]) round.next round.after

/-- Success, or an error of loading, compiling or meshing. -/
def Report.IsPromised : Report → Prop
  | .built _ | .kept _ _ | .failed (.loadFormula _) | .failed (.mesh _) => True
  | _ => False

/-- A round that keeps its promise either shows what it has published, or
leaves the program and all files. -/
theorem Round.KeepsPromise.shows_or {root : String} {job : Job} {round : Round}
    (keeps : round.KeepsPromise root job) (promised : round.report.IsPromised) :
    Shows root job round.after round.next.program ∨
      (∀ mesh, round.report ≠ .built mesh) ∧
      round.next.program = round.session.program ∧ round.after = round.before := by
  unfold KeepsPromise at keeps
  cases told : round.report with
  | built mesh =>
    rw [told] at keeps
    exact .inl keeps.2.2.2
  | kept e generation =>
    rw [told] at keeps
    exact .inr ⟨nofun, keeps.1, keeps.2.2⟩
  | failed e =>
    rw [told] at keeps promised
    cases e with
    | loadFormula | mesh => exact .inr ⟨nofun, keeps.1, keeps.2.2⟩
    | _ => cases promised
  | stopped f =>
    rw [told] at promised
    cases promised

/-- Once there has been a mesh, the output file holds that of the published
program. -/
theorem Watched.shows {root : String} {job : Job} {rounds : List Round}
    {session : Session} {t : Tree} (watched : Watched root job rounds session t)
    (valid : job.request.validate = .ok ())
    (good : ∀ round ∈ rounds, round.Single root job ∧ round.report.IsPromised)
    (built : ∃ round ∈ rounds, ∃ mesh, round.report = .built mesh) :
    Shows root job t session.program := by
  induction watched with
  | start session t =>
    obtain ⟨_, nothing, -⟩ := built
    cases nothing
  | @round rounds t round earlier kept made ih =>
    obtain ⟨single, promised⟩ := good round (by simp)
    have keeps := made.keepsPromise valid single
    rcases keeps.shows_or promised with shown | ⟨noMesh, program, files⟩
    · exact shown
    · have before : ∃ round ∈ rounds, ∃ mesh, round.report = .built mesh := by
        obtain ⟨other, member, mesh, success⟩ := built
        rcases List.mem_append.mp member with earlier | last
        · exact ⟨other, earlier, mesh, success⟩
        · cases List.mem_singleton.mp last
          exact absurd success (noMesh mesh)
      obtain ⟨mesh, made, shown⟩ :=
        ih (fun other member => good other (List.mem_append_left _ member)) before
      refine ⟨mesh, program ▸ made, ?_⟩
      rw [files, kept, shown]

/-- The rounds of watching are made by rebuilds. -/
theorem Watched.made {root : String} {job : Job} {rounds : List Round}
    {session : Session} {t : Tree} (watched : Watched root job rounds session t) :
    ∀ round ∈ rounds, round.Made root job := by
  induction watched with
  | start session t =>
    intro round none
    cases none
  | @round rounds t round earlier kept made ih =>
    intro other member
    rcases List.mem_append.mp member with earlier | last
    · exact ih other earlier
    · cases List.mem_singleton.mp last
      exact made

/-! ## Main result -/

/-- **Watching keeps the last good state.** For a request that is in order,
errors of meshing leave all files, and rebuilds keep their promise as long as
formulas read at most one parameter. Once there has been a mesh, and unless
something else fails, the output file holds that of the published program. -/
theorem watch_keeps_last_good {root : String} {job : Job} {rounds : List Round}
    {session : Session} {t : Tree} (valid : job.request.validate = .ok ())
    (watched : Watched root job rounds session t) :
    (∀ round ∈ rounds,
      (∀ e, round.report = .failed (.mesh e) → round.after = round.before) ∧
      (round.Single root job → round.KeepsPromise root job)) ∧
    ((∀ round ∈ rounds, round.Single root job ∧ round.report.IsPromised) →
      (∃ round ∈ rounds, ∃ mesh, round.report = .built mesh) →
      Shows root job t session.program) := by
  refine ⟨fun round member => ⟨fun e failed => ?_, fun single => ?_⟩,
    watched.shows valid⟩
  · rcases (watched.made round member).renewed_or with
      ⟨-, kept, -⟩ | ⟨fault, unwritten⟩
    · exact kept fun mesh success => by cases failed.symm.trans success
    · cases failed.symm.trans unwritten
  · exact (watched.made round member).keepsPromise valid single

/-- A file with one blank formula is watched, and then it is deleted. -/
theorem watch_keeps_last_good_deleted :
    let job : Job := ⟨"f", { cells := 1 }, "o"⟩
    ∃ (rounds : List Round) (mesh : GeneratedMesh) (session : Session) (t : Tree),
      Watched "/work" job rounds session t ∧
      rounds.map Round.report = [.built mesh, .failed (.loadFormula "f")] ∧
      session.program = .constant .zero ∧
      Shows "/work" job t (.constant .zero) := by
  intro job
  let program : Program := .constant .zero
  let session : Session := firstSession.settle (.ok ⟨program, []⟩)
  let formula : Formula := { source := "", parameters := ["coords"] }
  have valid : job.request.validate = .ok () := by decide
  have loaded : formulaOf "f" (some "") = .ok formula := by with_unfolding_all rfl
  have blank : parse "" = .ok none := by with_unfolding_all rfl
  have compiled : formula.compile.1 = .ok ⟨program, []⟩ := by
    rw [Formula.compile, blank]
  have ends := ends_generateOn session
    (checkInputs_ok_iff.mpr ⟨valid, Nat.zero_le 1⟩) (.blank job.request.lattice)
  rw [← generate_eq_generateOn _ valid] at ends
  cases meshed : generate session job.request with
  | error e =>
    rw [meshed] at ends
    obtain ⟨-, place, -, undefined⟩ := ends
    cases undefined
  | ok mesh =>
    let start : Tree := ⟨[(["f"], ⟨1, some ""⟩)], 2⟩
    let output : Path × Entry := (["o"], ⟨2, some mesh.buffers.wavefront⟩)
    let built : Tree := ⟨[output, (["f"], ⟨1, some ""⟩)], 3⟩
    let deleted : Tree := ⟨[output], 3⟩
    let success : Round := ⟨start, firstSession, .built mesh, built, session⟩
    let failure : Round :=
      ⟨deleted, session, .failed (.loadFormula "f"), deleted, session⟩
    have names : below "/work" "f" = "f" ∧ below "/work" "o" = "o" := by decide
    have plain : Tree.IsPlain "f" ∧ Tree.IsPlain "o" := by decide
    have found : success.text "/work" job = some "" := by
      simp only [Round.text, success, job, names, plain.1.read (t := start) rfl]
      rfl
    have missing : failure.text "/work" job = none := by
      simp only [Round.text, failure, job, names, Tree.read, Tree.find, plain.1.locate]
      rfl
    have renewal : renew job (some "") firstSession = (.built mesh, session) := by
      simp only [renew, job, loaded, recompile_of_ok _ compiled]
      rw [meshed]
    have written : start.write "o" mesh.buffers.wavefront =
        .ok (built, [⟨.made, 0, "o", 2⟩]) := plain.2.write rfl _
    have succeeds : success.Made "/work" job := by
      have before : success.session = firstSession := rfl
      rw [Round.made_iff, found, before, renewal]
      simp only [success, job, names, written]
    have fails : failure.Made "/work" job := by
      rw [Round.made_iff, missing]
      rfl
    have first : Watched "/work" job [success] session built :=
      .round success (.start firstSession start) rfl succeeds
    have kept : deleted.read (below "/work" job.output) =
        built.read (below "/work" job.output) := by
      simp only [job, names]
      exact (plain.2.read rfl).trans (plain.2.read rfl).symm
    have watched : Watched "/work" job [success, failure] session deleted :=
      .round failure first kept fails
    have promised : ∀ round ∈ [success, failure],
        round.Single "/work" job ∧ round.report.IsPromised := by
      intro round member
      rcases List.mem_pair.mp member with rfl | rfl
      · refine ⟨fun other result same gave => ?_, trivial⟩
        rw [found] at same
        cases loaded.symm.trans same
        cases compiled.symm.trans gave
        exact Nat.zero_le 1
      · refine ⟨fun other result same => ?_, trivial⟩
        rw [missing] at same
        cases same
    exact ⟨_, mesh, session, deleted, watched, rfl, rfl,
      (watch_keeps_last_good valid watched).2 promised ⟨success, by simp, mesh, rfl⟩⟩

/-! ## Two parameters -/

/-- A formula of two parameters, which is the second one. -/
def secondFormula : Formula := { source := "b", parameters := ["a", "b"] }

/-- The text of its file. -/
def secondText : String :=
  "\x7b\"source\":\"b\",\"parameters\":[\"a\",\"b\"]\x7d"

/-- The program that gives its second parameter. -/
def secondProgram : Program := ⟨[.param 1], ⟨1, 1, 2⟩, rfl⟩

theorem formulaOf_secondText :
    formulaOf "f.json" (some secondText) = .ok secondFormula := by
  with_unfolding_all rfl

theorem compile_secondFormula :
    secondFormula.compile.1 = .ok ⟨secondProgram, []⟩ := by
  have read : parse secondFormula.source = .ok (some (.reference "b")) := by
    with_unfolding_all rfl
  have names : secondFormula.parameters.map Text.lower = ["a", "b"] := by decide
  have emitted : (emit ⟨["a", "b"], secondFormula.table⟩ [] (.reference "b")).run {} =
      (.ok [.param 1], {}) := by
    rw [emit]
    rfl
  have translated :
      (Formula.translate secondFormula.table secondFormula.parameters (.reference "b")).1 =
        .ok ⟨[.param 1], 0, []⟩ := by
    unfold Formula.translate
    rw [if_neg (by decide), names]
    simp only [emitted]
    rfl
  unfold Formula.compile
  rw [read]
  simp only [translated]
  rfl

/-- A formula of two parameters is refused when its mesh is to be made. By then
it is published. -/
theorem rebuild_twoParameters :
    let job : Job := ⟨"f.json", {}, "o"⟩
    let files : Tree := ⟨[(["f.json"], ⟨1, some secondText⟩)], 2⟩
    let refusal : MeshError := .unsupportedParameters 2
    let round : Round :=
      ⟨files, firstSession, .failed (.mesh refusal), files, ⟨secondProgram, 1, .clean⟩⟩
    job.request.validate = .ok () ∧ round.Made "/work" job ∧
      round.next.generation ≠ round.session.generation ∧
      ¬ round.KeepsPromise "/work" job := by
  intro job files refusal round
  have valid : job.request.validate = .ok () := by decide
  have name : below "/work" "f.json" = "f.json" := by rfl
  have plain : Tree.IsPlain "f.json" := by decide
  have found : round.text "/work" job = some secondText := by
    simp only [Round.text, round, job, name, plain.read (t := files) rfl]
    rfl
  have before : round.session = firstSession := rfl
  have checked : checkInputs secondProgram job.request = .error refusal := by
    rw [checkInputs, valid]
    rfl
  have refused :
      generate (firstSession.settle (.ok ⟨secondProgram, []⟩)) job.request =
        .error refusal := by
    rw [generate_eq_generateOn _ valid (.blank job.request.lattice),
      generateOn_of_refused checked]
  have renewal : renew job (some secondText) firstSession =
      (.failed (.mesh refusal), ⟨secondProgram, 1, .clean⟩) := by
    simp only [renew, job, formulaOf_secondText, recompile_of_ok _ compile_secondFormula]
    rw [refused]
    rfl
  refine ⟨valid, ?_, Nat.one_ne_zero, fun keeps => ?_⟩
  · rw [Round.made_iff, found, before, renewal]
  · exact Nat.one_ne_zero keeps.2.1

end FieldMesh.CommandLine
