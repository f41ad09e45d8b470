import FieldMesh.Proofs.Program.Unbounded

/-!
# What the check of a program says

The check follows heights, the machine moves vectors. Here the machine is let
loose on a stack without a limit, and the check is compared with where it
gets:

* **a step**: `Machine.Moves`, which stops at a missing operand, at a copy of
  an entry that is not there, at a missing parameter and at the invalid
  operation. The heights step exactly where the machine moves
  (`moves_of_step`, `step_of_moves`);
* **a course**: `Machine.Course`, the stacks that instructions lead through.
  The heights can be followed exactly where there is a course
  (`course_of_scan`, `scan_of_course`);
* **main result**: a list of instructions is a program if and only if a course
  through it ends at the expected height, and a program with enough
  parameters always gives the same result, or stops at undefined noise
  (`ofInstructions_exact`).
-/

namespace FieldMesh.Program

/-! ## Operands -/

theorem Opcode.ne_of_arity {op other : Opcode} (takes : 0 < op.arity)
    (nullary : other.arity = 0) : op ≠ other :=
  fun same => Nat.ne_of_gt takes (same ▸ nullary)

/-- With fewer entries than operands an operation underflows. -/
theorem Opcode.apply_short {op : Opcode} {stack : List Vec3}
    (short : stack.length < op.arity) : op.apply stack = .error .underflow := by
  have most : op.arity ≤ 4 := by cases op <;> decide
  match stack with
  | [] | [_] | [_, _] | [_, _, _] =>
    revert short
    cases op <;> simp [arity, apply]
  | _ :: _ :: _ :: _ :: rest =>
    simp only [List.length_cons] at short
    omega

namespace Machine

/-- With enough entries an operation gives what it makes of its operands. -/
theorem value_of_enough {i : Instruction} (takes : 0 < i.opcode.arity)
    {stack : List Vec3} (enough : i.opcode.arity ≤ stack.length)
    (parameters : List Vec3) :
    value parameters stack i =
      (i.opcode.operate (stack.take i.opcode.arity)).map
        (·, stack.drop i.opcode.arity) := by
  have count : (stack.take i.opcode.arity).length = i.opcode.arity := by
    rw [List.length_take]
    omega
  have split := Opcode.apply_append takes count (stack.drop i.opcode.arity)
  rwa [List.take_append_drop, ← value_of_arity takes parameters] at split

/-- Undefined noise and missing operands are faults of operations only. -/
theorem arity_pos_of_value {parameters stack : List Vec3} {i : Instruction}
    {fault : Fault} (stopped : value parameters stack i = .error fault)
    (kind : fault = .noiseUndefined ∨ fault = .underflow) :
    0 < i.opcode.arity := by
  unfold value at stopped
  split at stopped
  · cases stopped
  · split at stopped <;> cases stopped
    rcases kind with kind | kind <;> cases kind
  · simp only at stopped
    split at stopped
    · cases stopped
      rcases kind with kind | kind <;> cases kind
    · split at stopped <;> cases stopped
      rcases kind with kind | kind <;> cases kind
  · cases found : i.opcode <;> try decide
    · rw [found] at stopped
      cases stopped
      rcases kind with kind | kind <;> cases kind
    all_goals contradiction

/-! ## Steps -/

/-- A step on a stack without a limit. Where noise is not defined, any vector
may take its place: then `first` and `last` are its operands, as without
`last` the stack would underflow. -/
inductive Moves (parameters : List Vec3) (i : Instruction) :
    List Vec3 → List Vec3 → Prop
  | value {stack below : List Vec3} {v : Vec3}
      (found : Machine.value parameters stack i = .ok (v, below)) :
      Moves parameters i stack (v :: below)
  | noise {first below : List Vec3} {last v : Vec3}
      (undefined : Machine.value parameters (first ++ [last]) i =
        .error .noiseUndefined)
      (needed : Machine.value parameters first i = .error .underflow) :
      Moves parameters i (first ++ last :: below) (v :: below)

/-- Where noise is not defined on a stack, it is not defined at the operands
on top of it, and any vector may take its place. -/
theorem moves_of_undefined {parameters stack : List Vec3} {i : Instruction}
    (undefined : value parameters stack i = .error .noiseUndefined)
    (enough : i.opcode.arity ≤ stack.length) (v : Vec3) :
    Moves parameters i stack (v :: stack.drop i.opcode.arity) := by
  have takes := arity_pos_of_value undefined (.inl rfl)
  obtain ⟨n, arity⟩ := Nat.exists_eq_succ_of_ne_zero (Nat.ne_of_gt takes)
  have inside : n < stack.length := by omega
  have operands : stack.take n ++ [stack[n]] = stack.take i.opcode.arity := by
    rw [List.take_append_getElem inside, arity]
  have whole : stack.take n ++ stack[n] :: stack.drop i.opcode.arity =
      stack := by
    rw [arity, List.getElem_cons_drop inside, List.take_append_drop]
  have moved : Moves parameters i
      (stack.take n ++ stack[n] :: stack.drop i.opcode.arity)
      (v :: stack.drop i.opcode.arity) := by
    refine .noise ?_ ?_
    · rw [value_of_enough takes enough] at undefined
      rw [operands, value_of_enough takes (by rw [List.length_take]; omega),
        List.take_take, Nat.min_self]
      cases result : i.opcode.operate (stack.take i.opcode.arity) with
      | ok v =>
        rw [result] at undefined
        cases undefined
      | error fault =>
        rw [result] at undefined
        cases undefined
        rfl
    · rw [value_of_arity takes]
      exact Opcode.apply_short (by rw [List.length_take]; omega)
  rwa [whole] at moved

/-- Where the heights step, the machine moves. -/
theorem moves_of_step {position : Nat} {before after : Depths}
    {i : Instruction} (stepped : before.step position i = .ok after)
    {parameters stack : List Vec3} (height : stack.length = before.depth)
    (supplied : after.parameters ≤ parameters.length) :
    ∃ next, Moves parameters i stack next ∧ next.length = after.depth := by
  rcases value_of_step stepped height supplied with
    undefined | ⟨v, below, found, foretold⟩
  · obtain ⟨-, -, enough, depth, -, -⟩ := Depths.step_ok stepped
    refine ⟨_, moves_of_undefined undefined (by omega) Vec3.zero, ?_⟩
    rw [List.length_cons, List.length_drop]
    omega
  · exact ⟨v :: below, .value found, foretold⟩

/-- What an instruction must find on the stack, and among the parameters, to
give a value, and how many entries it leaves. -/
theorem bounds_of_value {parameters stack below : List Vec3}
    {i : Instruction} {v : Vec3}
    (found : value parameters stack i = .ok (v, below)) :
    i.opcode ≠ .invalid ∧
      (i.opcode = .load → 0 < i.slot.toNat ∧ i.slot.toNat ≤ stack.length) ∧
      (i.opcode = .param → i.slot.toNat < parameters.length) ∧
      i.opcode.arity ≤ stack.length ∧
      below.length = stack.length - i.opcode.arity := by
  -- operations look at their operands only; the others are told apart
  by_cases takes : 0 < i.opcode.arity
  · refine ⟨Opcode.ne_of_arity takes rfl,
      fun load => absurd load (Opcode.ne_of_arity takes rfl),
      fun param => absurd param (Opcode.ne_of_arity takes rfl), ?_⟩
    by_cases enough : i.opcode.arity ≤ stack.length
    · rw [value_of_enough takes enough] at found
      cases result : i.opcode.operate (stack.take i.opcode.arity) with
      | error fault =>
        rw [result] at found
        cases found
      | ok w =>
        rw [result] at found
        cases found
        exact ⟨enough, List.length_drop⟩
    · rw [value_of_arity takes,
        Opcode.apply_short (Nat.lt_of_not_le enough)] at found
      cases found
  · unfold value at found
    cases opcode : i.opcode <;> rw [opcode] at found takes <;>
      try exact absurd (by decide) takes
    case invalid => cases found
    case const =>
      cases found
      exact ⟨nofun, nofun, nofun, Nat.zero_le _, rfl⟩
    case param =>
      simp only at found
      split at found
      · next present =>
        cases found
        obtain ⟨inside, -⟩ := List.getElem?_eq_some_iff.mp present
        exact ⟨nofun, nofun, fun _ => inside, Nat.zero_le _, rfl⟩
      · cases found
    case load =>
      simp only at found
      split at found
      · cases found
      · next counted =>
        split at found
        · next present =>
          cases found
          obtain ⟨inside, -⟩ := List.getElem?_eq_some_iff.mp present
          rw [List.length_reverse] at inside
          exact ⟨nofun, fun _ => by omega, nofun, Nat.zero_le _, rfl⟩
        · cases found

/-- One entry more than too few operands is exactly enough. -/
theorem arity_of_needed {parameters first : List Vec3} {last : Vec3}
    {i : Instruction}
    (undefined : value parameters (first ++ [last]) i = .error .noiseUndefined)
    (needed : value parameters first i = .error .underflow) :
    i.opcode.arity = first.length + 1 := by
  have takes := arity_pos_of_value undefined (.inl rfl)
  have missing : first.length < i.opcode.arity := by
    refine Nat.lt_of_not_le fun enough => ?_
    have count : (first.take i.opcode.arity).length = i.opcode.arity := by
      rw [List.length_take]
      omega
    rw [value_of_enough takes enough] at needed
    cases result : i.opcode.operate (first.take i.opcode.arity) with
    | ok w =>
      rw [result] at needed
      cases needed
    | error fault =>
      rw [result, Opcode.operate_error takes count result] at needed
      cases needed
  have enough : i.opcode.arity ≤ (first ++ [last]).length := by
    refine Nat.le_of_not_lt fun short => ?_
    rw [value_of_arity takes, Opcode.apply_short short] at undefined
    cases undefined
  rw [List.length_append] at enough
  exact Nat.le_antisymm enough missing

/-- Where the machine moves, the heights step. -/
theorem step_of_moves {parameters stack next : List Vec3} {i : Instruction}
    (moved : Moves parameters i stack next) {before : Depths}
    (height : stack.length = before.depth) (position : Nat) :
    ∃ after, before.step position i = .ok after ∧
      after.depth = next.length ∧
      after.parameters ≤ max before.parameters parameters.length := by
  cases moved with
  | @value _ below v found =>
    obtain ⟨valid, load, param, enough, left⟩ := bounds_of_value found
    obtain ⟨after, stepped, depth, reads⟩ := Depths.step_eq valid
      (by rwa [height] at load) (by rwa [height] at enough) position
    refine ⟨after, stepped, ?_, ?_⟩
    · rw [List.length_cons]
      omega
    · split at reads
      · next reading =>
        have := param reading
        omega
      · omega
  | @noise first below last v undefined needed =>
    -- it has operands, so it neither loads nor reads a parameter
    have takes := arity_pos_of_value undefined (.inl rfl)
    have count := arity_of_needed undefined needed
    rw [List.length_append, List.length_cons] at height
    have deep : i.opcode.arity ≤ before.depth := by omega
    obtain ⟨after, stepped, depth, reads⟩ := Depths.step_eq
      (Opcode.ne_of_arity takes rfl)
      (fun load => absurd load (Opcode.ne_of_arity takes rfl)) deep position
    rw [if_neg (Opcode.ne_of_arity takes rfl)] at reads
    refine ⟨after, stepped, ?_, reads ▸ Nat.le_max_left _ _⟩
    rw [List.length_cons, depth, ← height]
    omega

/-! ## Courses -/

/-- The stacks that instructions lead through without a limit, from the first
to the one that they leave. -/
inductive Course (parameters : List Vec3) :
    List Instruction → List Vec3 → List (List Vec3) → Prop
  | done (stack : List Vec3) : Course parameters [] stack [stack]
  | next {i : Instruction} {rest : List Instruction}
      {stack after : List Vec3} {later : List (List Vec3)}
      (moved : Moves parameters i stack after)
      (course : Course parameters rest after later) :
      Course parameters (i :: rest) stack (stack :: later)

theorem Course.mem_start {parameters stack : List Vec3}
    {code : List Instruction} {course : List (List Vec3)}
    (ran : Course parameters code stack course) : stack ∈ course := by
  cases ran <;> exact List.mem_cons_self

/-- Where the heights can be followed, there is a course. -/
theorem course_of_scan {code : List Instruction} {position : Nat}
    {before after : Depths} (followed : scan position before code = .ok after)
    {parameters stack : List Vec3} (height : stack.length = before.depth)
    (supplied : after.parameters ≤ parameters.length) :
    ∃ course, Course parameters code stack course := by
  induction code generalizing position before stack with
  | nil => exact ⟨_, .done stack⟩
  | cons i rest ih =>
    rw [scan] at followed
    cases stepped : before.step position i with
    | error fault =>
      rw [stepped] at followed
      cases followed
    | ok middle =>
      rw [stepped] at followed
      obtain ⟨-, reads⟩ := peak_le_of_scan followed
      obtain ⟨next, moved, foretold⟩ :=
        moves_of_step stepped height (Nat.le_trans reads supplied)
      obtain ⟨later, course⟩ := ih followed foretold
      exact ⟨_, .next moved course⟩

/-- Along a course the heights can be followed. They end where it ends, have
its greatest height as theirs, and read no parameter that it does not have. -/
theorem scan_of_course {parameters stack : List Vec3}
    {code : List Instruction} {course : List (List Vec3)}
    (ran : Course parameters code stack course) {before : Depths}
    (height : stack.length = before.depth)
    (low : before.depth ≤ before.peak) (position : Nat) :
    ∃ after, scan position before code = .ok after ∧
      course.getLast?.map List.length = some after.depth ∧
      (∀ later ∈ course, later.length ≤ after.peak) ∧
      (after.peak = before.peak ∨
        ∃ later ∈ course, later.length = after.peak) ∧
      after.parameters ≤ max before.parameters parameters.length := by
  induction ran generalizing before position with
  | done stack =>
    refine ⟨before, rfl, by rw [← height]; rfl, ?_, .inl rfl, by omega⟩
    intro later only
    rw [List.mem_singleton.mp only]
    omega
  | @next i rest stack next later moved course ih =>
    obtain ⟨middle, stepped, depth, read⟩ :=
      step_of_moves moved height position
    obtain ⟨-, -, -, -, raised, -⟩ := Depths.step_ok stepped
    obtain ⟨after, followed, last, most, reached, reads⟩ :=
      ih depth.symm (by omega) (position + 1)
    obtain ⟨peak, -⟩ := peak_le_of_scan followed
    -- the peak is that of before, or this stack's, or one of a later stack
    have above : before.peak ≤ after.peak :=
      Nat.le_trans (raised ▸ Nat.le_max_left _ _) peak
    have first := course.mem_start
    refine ⟨after, by rw [scan, stepped]; exact followed, ?_, ?_, ?_,
      by omega⟩
    · rw [List.getLast?_cons_of_ne_nil (List.ne_nil_of_mem first), last]
    · intro earlier among
      rcases List.mem_cons.mp among with rfl | among
      · exact height ▸ Nat.le_trans low above
      · exact most earlier among
    · rcases reached with same | ⟨highest, among, top⟩
      · rcases Nat.le_total before.peak middle.depth with up | down
        · exact .inr ⟨next, List.mem_cons_of_mem _ first, by omega⟩
        · exact .inl (by omega)
      · exact .inr ⟨highest, List.mem_cons_of_mem _ among, top⟩

/-! ## Parameters that are not read -/

/-- An instruction does not see the parameters beyond those that it may
read. -/
theorem value_take {i : Instruction} {count : Nat} {parameters : List Vec3}
    (read : i.opcode = .param → i.slot.toNat < count)
    (supplied : count ≤ parameters.length) (stack : List Vec3) :
    value (parameters.take count) stack i = value parameters stack i := by
  unfold value
  split
  · rfl
  · next param =>
    have inside := read param
    rw [List.getElem?_take_of_lt inside,
      List.getElem?_eq_getElem (Nat.lt_of_lt_of_le inside supplied)]
  · rfl
  · rfl

/-- Parameters beyond those that are read do not change a run. -/
theorem perform_take {code : List Instruction} {position : Nat}
    {before after : Depths} (followed : scan position before code = .ok after)
    {count : Nat} (read : after.parameters ≤ count) {parameters : List Vec3}
    (supplied : count ≤ parameters.length) (stack : List Vec3) :
    perform (parameters.take count) code stack =
      perform parameters code stack := by
  induction code generalizing position before stack with
  | nil => rfl
  | cons i rest ih =>
    rw [scan] at followed
    cases stepped : before.step position i with
    | error fault =>
      rw [stepped] at followed
      cases followed
    | ok middle =>
      rw [stepped] at followed
      obtain ⟨-, reads⟩ := peak_le_of_scan followed
      obtain ⟨-, -, -, -, -, reading⟩ := Depths.step_ok stepped
      have same : value (parameters.take count) stack i =
          value parameters stack i := by
        refine value_take (fun param => ?_) supplied stack
        rw [if_pos param] at reading
        omega
      cases found : value parameters stack i with
      | error fault =>
        rw [perform_cons_error found, perform_cons_error (same.trans found)]
      | ok result =>
        rw [perform_cons found, perform_cons (same.trans found),
          ih followed]

/-- The result of a program does not depend on what is left on the machine,
nor on parameters beyond those that it reads. -/
theorem run_surplus (machine other : Machine) (program : Program)
    {parameters : List Vec3}
    (enough : program.parameterCount ≤ parameters.length)
    (surplus : List Vec3) :
    (other.run program (parameters ++ surplus)).1 =
      (machine.run program parameters).1 := by
  have more : program.parameterCount ≤ (parameters ++ surplus).length := by
    rw [List.length_append]
    omega
  have followed := scan_of_check program.checked
  have read := Nat.le_refl program.parameterCount
  rw [run_eq_perform other program more, run_eq_perform machine program enough,
    ← perform_take followed read more, ← perform_take followed read enough,
    List.take_append_of_le_length enough]

/-- With enough parameters a program gives a result, or stops at undefined
noise. -/
theorem run_result (machine : Machine) (program : Program)
    {parameters : List Vec3}
    (enough : program.parameterCount ≤ parameters.length) :
    (∃ v, (machine.run program parameters).1 = .ok v) ∨
      (machine.run program parameters).1 = .error .noiseUndefined := by
  rw [run_eq_perform machine program enough]
  have empty : ([] : List Vec3).length = Depths.start.depth := rfl
  rcases executeAll_of_scan (scan_of_check program.checked) empty
      (Nat.le_refl _) enough with ⟨final, performed, -⟩ | ⟨performed, -⟩
  · rw [performed]
    exact .inl ⟨_, rfl⟩
  · rw [performed]
    exact .inr rfl

end Machine

/-! ## Main result -/

/-- Instructions that can be followed are a program of the height at which
they end. -/
theorem ofInstructions_of_scan {code : List Instruction} {depths : Depths}
    (filled : code ≠ []) (followed : scan 0 .start code = .ok depths) :
    ∃ program, ofInstructions code depths.depth = .ok program := by
  have checked : check code depths.depth = .ok depths := by
    unfold check
    rw [if_neg (by simpa using filled), followed]
    exact if_pos rfl
  obtain ⟨program, built, -, -⟩ := ofInstructions_of_check checked
  exact ⟨program, built⟩

/-- What is known of a program that has been built from instructions. -/
theorem of_ofInstructions {code : List Instruction} {final : Nat}
    {program : Program} (built : ofInstructions code final = .ok program) :
    program.instructions = code ∧ program.finalDepth = final ∧ code ≠ [] := by
  unfold ofInstructions at built
  split at built
  · cases built
  · next depths checked =>
    cases built
    refine ⟨rfl, depth_of_check checked, ?_⟩
    rintro rfl
    cases checked

/-- What the check of a program has found out about the courses through it
and about its runs. -/
structure Foretold (program : Program) : Prop where
  /-- Every course ends at the height that was found. -/
  ends {parameters : List Vec3} {course : List (List Vec3)} :
    Machine.Course parameters program.instructions [] course →
    course.getLast?.map List.length = some program.finalDepth
  /-- The greatest height of every course is the one that was found. -/
  peak {parameters : List Vec3} {course : List (List Vec3)} :
    Machine.Course parameters program.instructions [] course →
    (∃ stack ∈ course, stack.length = program.peakDepth) ∧
      ∀ stack ∈ course, stack.length ≤ program.peakDepth
  /-- There is a course for as many parameters as were counted, and for no
  fewer. -/
  reads (parameters : List Vec3) :
    (∃ course, Machine.Course parameters program.instructions [] course) ↔
      program.parameterCount ≤ parameters.length
  /-- Whatever is left on the machine, a run only stops at undefined
  noise. -/
  result (machine : Machine) {parameters : List Vec3} :
    program.parameterCount ≤ parameters.length →
    (∃ v, (machine.run program parameters).1 = .ok v) ∨
      (machine.run program parameters).1 = .error .noiseUndefined
  /-- What is left on the machine and surplus parameters do not change the
  result. -/
  same (machine other : Machine) {parameters : List Vec3}
    (surplus : List Vec3) :
    program.parameterCount ≤ parameters.length →
    (other.run program (parameters ++ surplus)).1 =
      (machine.run program parameters).1

theorem foretold (program : Program) : program.Foretold := by
  have followed := Machine.scan_of_check program.checked
  have empty : ([] : List Vec3).length = Depths.start.depth := rfl
  refine ⟨fun ran => ?_, fun ran => ?_, fun parameters => ⟨?_, ?_⟩,
    fun machine _ => Machine.run_result machine program,
    fun machine other _ surplus enough =>
      Machine.run_surplus machine other program enough surplus⟩
  · obtain ⟨after, again, last, -⟩ :=
      Machine.scan_of_course ran empty (Nat.le_refl _) 0
    cases followed.symm.trans again
    exact last
  · obtain ⟨after, again, -, most, reached, -⟩ :=
      Machine.scan_of_course ran empty (Nat.le_refl _) 0
    cases followed.symm.trans again
    refine ⟨?_, most⟩
    rcases reached with none | reached
    · -- nothing is above the empty stack, where the course starts
      exact ⟨[], ran.mem_start, none.symm⟩
    · exact reached
  · rintro ⟨course, ran⟩
    obtain ⟨after, again, -, -, -, reads⟩ :=
      Machine.scan_of_course ran empty (Nat.le_refl _) 0
    cases followed.symm.trans again
    exact Nat.le_trans reads (Nat.max_le.mpr ⟨Nat.zero_le _, Nat.le_refl _⟩)
  · intro enough
    exact Machine.course_of_scan followed empty enough

/-- Instructions are a program of the height `final` if and only if there are
some and a course through them, with parameters enough, ends at that height.
Every program, wherever it comes from, foretells its courses, and its runs
are safe. -/
theorem ofInstructions_exact (code : List Instruction) (final : Nat) :
    ((∃ program, ofInstructions code final = .ok program) ↔
      code ≠ [] ∧ ∃ parameters course,
        Machine.Course parameters code [] course ∧
        course.getLast?.map List.length = some final) ∧
    (∀ program, ofInstructions code final = .ok program →
      program.instructions = code ∧ program.finalDepth = final) ∧
    ∀ program : Program, program.Foretold := by
  refine ⟨⟨?_, ?_⟩, fun program built => ?_, foretold⟩
  · rintro ⟨program, built⟩
    obtain ⟨rfl, rfl, filled⟩ := of_ofInstructions built
    have enough : program.parameterCount ≤
        (List.replicate program.parameterCount Vec3.zero).length :=
      Nat.le_of_eq List.length_replicate.symm
    obtain ⟨course, ran⟩ := (foretold program).reads _ |>.mpr enough
    exact ⟨filled, _, course, ran, (foretold program).ends ran⟩
  · rintro ⟨filled, parameters, course, ran, last⟩
    have empty : ([] : List Vec3).length = Depths.start.depth := rfl
    obtain ⟨after, followed, ends, -⟩ :=
      Machine.scan_of_course ran empty (Nat.le_refl _) 0
    cases ends.symm.trans last
    exact ofInstructions_of_scan filled followed
  · obtain ⟨same, ends, -⟩ := of_ofInstructions built
    exact ⟨same, ends⟩

/-- The sum of two of three parameters. -/
theorem ofInstructions_exact_sum :
    ∃ program,
      ofInstructions [.param 2, .param 0, .op .add] 1 = .ok program ∧
      program.instructions = [.param 2, .param 0, .op .add] ∧
      program.finalDepth = 1 ∧ program.peakDepth = 2 ∧
      program.parameterCount = 3 ∧ program.Foretold := by
  refine ⟨_, rfl, ?_⟩
  obtain ⟨-, built, known⟩ :=
    ofInstructions_exact [.param 2, .param 0, .op .add] 1
  obtain ⟨same, ends⟩ := built _ rfl
  exact ⟨same, ends, rfl, rfl, known _⟩

end FieldMesh.Program
