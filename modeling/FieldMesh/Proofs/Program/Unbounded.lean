import FieldMesh.Program.Machine

/-!
# Running on an unbounded stack

The machine compares the height of its stack with a limit at every
instruction. Here instructions run without that limit, which is what
statements about their results are made for, and the two ways of running are
tied together:

* **operations**: `Opcode.operate` is what an operation makes of exactly its
  operands; on a larger stack it does the same and leaves the rest alone
  (`apply_append`), and it can only stop at undefined noise
  (`operate_error`);
* **composition**: instructions after instructions (`perform_append`);
* **the limit**: instructions whose heights have been followed never meet a
  limit that is not below the greatest height (`executeAll_of_scan`).
-/

namespace FieldMesh.Program

/-! ## Operations on their operands -/

/-- The result of an operation on its operands, the leftmost first. -/
def Opcode.operate (op : Opcode) (operands : List Vec3) : Except Fault Vec3 :=
  (op.apply operands).map Prod.fst

/-- The result of an operation on the results of its operands. It is a fault
if one of them is. -/
def Opcode.combine (op : Opcode) (operands : List (Except Fault Vec3)) :
    Except Fault Vec3 :=
  operands.mapM id >>= op.operate

/-- A list with as many entries as an operation has operands, spelled out. -/
theorem Opcode.operands_cases {op : Opcode} {operands : List Vec3}
    (count : operands.length = op.arity) :
    operands = [] ∨ (∃ a, operands = [a]) ∨ (∃ a b, operands = [a, b]) ∨
      (∃ a b c, operands = [a, b, c]) ∨
      (∃ a b c d, operands = [a, b, c, d]) := by
  have most : op.arity ≤ 4 := by cases op <;> decide
  match operands with
  | [] => exact .inl rfl
  | [a] => exact .inr (.inl ⟨a, rfl⟩)
  | [a, b] => exact .inr (.inr (.inl ⟨a, b, rfl⟩))
  | [a, b, c] => exact .inr (.inr (.inr (.inl ⟨a, b, c, rfl⟩)))
  | [a, b, c, d] => exact .inr (.inr (.inr (.inr ⟨a, b, c, d, rfl⟩)))
  | _ :: _ :: _ :: _ :: _ :: rest =>
    simp only [List.length_cons] at count
    omega

theorem noise_error {value : Option Float32} {fault : Fault}
    (stopped : noise value = .error fault) : fault = .noiseUndefined := by
  cases value with
  | none =>
    cases stopped
    rfl
  | some n => cases stopped

/-- Below its operands an operation changes nothing. -/
theorem Opcode.apply_append {op : Opcode} (takes : 0 < op.arity)
    {operands : List Vec3} (count : operands.length = op.arity)
    (rest : List Vec3) :
    op.apply (operands ++ rest) = (op.operate operands).map (·, rest) := by
  rcases operands_cases count with rfl | ⟨a, rfl⟩ | ⟨a, b, rfl⟩ |
      ⟨a, b, c, rfl⟩ | ⟨a, b, c, d, rfl⟩ <;> cases op <;>
    simp [arity] at count takes
  all_goals simp only [operate, apply, List.cons_append, List.nil_append]
  -- what is left is either evaluated or waits for a noise value
  all_goals first | rfl | (cases noise _ <;> rfl)

/-- With its operands at hand an operation can only stop at undefined
noise. -/
theorem Opcode.operate_error {op : Opcode} (takes : 0 < op.arity)
    {operands : List Vec3} (count : operands.length = op.arity)
    {fault : Fault} (stopped : op.operate operands = .error fault) :
    fault = .noiseUndefined := by
  rcases operands_cases count with rfl | ⟨a, rfl⟩ | ⟨a, b, rfl⟩ |
      ⟨a, b, c, rfl⟩ | ⟨a, b, c, d, rfl⟩ <;> cases op <;>
    simp [arity] at count takes
  all_goals simp only [operate, apply] at stopped
  all_goals first
    | contradiction
    | (cases value : noise _ with
       | error other =>
         rw [value] at stopped
         cases stopped
         exact noise_error value
       | ok v =>
         rw [value] at stopped
         cases stopped)

/-! ## What a step of the heights says -/

/-- What the heights allow an instruction to be, and the heights after it. -/
theorem Depths.step_ok {position : Nat} {before after : Depths}
    {i : Instruction} (stepped : before.step position i = .ok after) :
    i.opcode ≠ .invalid ∧
      (i.opcode = .load → 0 < i.slot.toNat ∧ i.slot.toNat ≤ before.depth) ∧
      i.opcode.arity ≤ before.depth ∧
      after.depth = before.depth - i.opcode.arity + 1 ∧
      after.peak = max before.peak after.depth ∧
      after.parameters =
        if i.opcode = .param then max before.parameters (i.slot.toNat + 1)
        else before.parameters := by
  unfold step at stepped
  simp only at stepped
  split at stepped
  · cases stepped
  · next valid =>
    split at stepped
    · cases stepped
    · next inside =>
      split at stepped
      · cases stepped
      · next enough =>
        cases stepped
        refine ⟨valid, fun loads => ?_, by omega, rfl, rfl, rfl⟩
        have bounds : ¬ (i.slot.toNat = 0 ∨ before.depth < i.slot.toNat) :=
          fun outside => inside ⟨loads, outside⟩
        omega

/-- The heights after an instruction that is allowed. -/
theorem Depths.step_eq {before : Depths} {i : Instruction}
    (valid : i.opcode ≠ .invalid)
    (loads : i.opcode = .load → 0 < i.slot.toNat ∧ i.slot.toNat ≤ before.depth)
    (enough : i.opcode.arity ≤ before.depth) (position : Nat) :
    ∃ after, before.step position i = .ok after ∧
      after.depth = before.depth - i.opcode.arity + 1 ∧
      after.parameters =
        if i.opcode = .param then max before.parameters (i.slot.toNat + 1)
        else before.parameters := by
  have inside : ¬ (i.opcode = .load ∧
      (i.slot.toNat = 0 ∨ before.depth < i.slot.toNat)) := by
    rintro ⟨load, outside⟩
    have := loads load
    omega
  unfold step
  simp only [if_neg valid, if_neg inside, if_neg (Nat.not_lt.mpr enough)]
  exact ⟨_, rfl, rfl, rfl⟩

namespace Machine

/-- An operation with operands is applied to the stack. -/
theorem value_of_arity {i : Instruction} (takes : 0 < i.opcode.arity)
    (parameters stack : List Vec3) :
    value parameters stack i = i.opcode.apply stack := by
  unfold value
  cases found : i.opcode <;> first | rfl | (rw [found] at takes; cases takes)

/-- An instruction that the heights allow gives a value, unless noise is not
defined, and leaves a stack of the height that was foretold. -/
theorem value_of_step {position : Nat} {before after : Depths}
    {i : Instruction} (stepped : before.step position i = .ok after)
    {parameters stack : List Vec3} (height : stack.length = before.depth)
    (supplied : after.parameters ≤ parameters.length) :
    value parameters stack i = .error .noiseUndefined ∨
      ∃ v below, value parameters stack i = .ok (v, below) ∧
        below.length + 1 = after.depth := by
  obtain ⟨valid, loads, enough, depth, -, reads⟩ := Depths.step_ok stepped
  -- operations take their operands off the stack, the others only read it
  by_cases takes : 0 < i.opcode.arity
  · rw [value_of_arity takes]
    have count : (stack.take i.opcode.arity).length = i.opcode.arity := by
      rw [List.length_take]
      omega
    have split := Opcode.apply_append takes count (stack.drop i.opcode.arity)
    rw [List.take_append_drop] at split
    rw [split]
    cases result : i.opcode.operate (stack.take i.opcode.arity) with
    | error fault =>
      rw [Opcode.operate_error takes count result]
      exact .inl rfl
    | ok v =>
      refine .inr ⟨v, _, rfl, ?_⟩
      rw [List.length_drop]
      omega
  · unfold value
    cases found : i.opcode with
    | invalid => exact absurd found valid
    | const =>
      rw [found] at depth
      exact .inr ⟨_, _, rfl, by rw [depth, height]; rfl⟩
    | param =>
      rw [found] at depth reads
      have inside : i.slot.toNat < parameters.length := by
        rw [if_pos rfl] at reads
        omega
      rw [List.getElem?_eq_getElem inside]
      exact .inr ⟨_, _, rfl, by rw [depth, height]; rfl⟩
    | load =>
      rw [found] at depth
      obtain ⟨counted, present⟩ := loads found
      have inside : i.slot.toNat - 1 < stack.reverse.length := by
        rw [List.length_reverse]
        omega
      simp only [if_neg (Nat.ne_of_gt counted),
        List.getElem?_eq_getElem inside]
      exact .inr ⟨_, _, rfl, by rw [depth, height]; rfl⟩
    | _ =>
      rw [found] at takes
      exact absurd (by decide) takes

/-! ## Running without a limit -/

/-- Executes instructions on a stack that may grow as it needs to. -/
def perform (parameters : List Vec3) :
    List Instruction → List Vec3 → Except Fault (List Vec3)
  | [], stack => .ok stack
  | i :: rest, stack => do
    let (v, below) ← value parameters stack i
    perform parameters rest (v :: below)

theorem perform_cons {parameters : List Vec3} {i : Instruction}
    {rest : List Instruction} {stack below : List Vec3} {v : Vec3}
    (found : value parameters stack i = .ok (v, below)) :
    perform parameters (i :: rest) stack =
      perform parameters rest (v :: below) := by
  rw [perform, found]
  rfl

theorem perform_cons_error {parameters : List Vec3} {i : Instruction}
    {rest : List Instruction} {stack : List Vec3} {fault : Fault}
    (stopped : value parameters stack i = .error fault) :
    perform parameters (i :: rest) stack = .error fault := by
  rw [perform, stopped]
  rfl

/-- Instructions one after the other. -/
theorem perform_append (parameters : List Vec3)
    (first second : List Instruction) (stack : List Vec3) :
    perform parameters (first ++ second) stack =
      perform parameters first stack >>= perform parameters second := by
  induction first generalizing stack with
  | nil => rfl
  | cons i rest ih =>
    rw [List.cons_append]
    cases found : value parameters stack i with
    | error fault =>
      rw [perform_cons_error found, perform_cons_error found]
      rfl
    | ok result => rw [perform_cons found, perform_cons found, ih]

/-! ## The limit -/

theorem peak_le_of_scan {position : Nat} {before after : Depths}
    {code : List Instruction}
    (followed : scan position before code = .ok after) :
    before.peak ≤ after.peak ∧ before.parameters ≤ after.parameters := by
  induction code generalizing position before with
  | nil =>
    cases followed
    exact ⟨Nat.le_refl _, Nat.le_refl _⟩
  | cons i rest ih =>
    rw [scan] at followed
    cases stepped : before.step position i with
    | error fault =>
      rw [stepped] at followed
      cases followed
    | ok next =>
      rw [stepped] at followed
      obtain ⟨peak, reads⟩ := ih followed
      obtain ⟨-, -, -, -, raised, read⟩ := Depths.step_ok stepped
      refine ⟨by omega, ?_⟩
      split at read <;> omega

/-- Instructions whose heights were followed run alike with and without a
limit, as long as it is not below the greatest height. They leave the
foretold height, or stop at undefined noise. -/
theorem executeAll_of_scan {position limit : Nat} {before after : Depths}
    {code : List Instruction}
    (followed : scan position before code = .ok after)
    {parameters stack : List Vec3} (height : stack.length = before.depth)
    (room : after.peak ≤ limit)
    (supplied : after.parameters ≤ parameters.length) :
    (∃ final, perform parameters code stack = .ok final ∧
        executeAll parameters limit code stack = (none, final) ∧
        final.length = after.depth) ∨
      (perform parameters code stack = .error .noiseUndefined ∧
        ∃ left, executeAll parameters limit code stack =
          (some .noiseUndefined, left)) := by
  induction code generalizing position before stack with
  | nil =>
    cases followed
    exact .inl ⟨stack, rfl, rfl, height⟩
  | cons i rest ih =>
    rw [scan] at followed
    cases stepped : before.step position i with
    | error fault =>
      rw [stepped] at followed
      cases followed
    | ok next =>
      rw [stepped] at followed
      obtain ⟨peak, reads⟩ := peak_le_of_scan followed
      obtain ⟨-, -, -, -, raised, -⟩ := Depths.step_ok stepped
      rcases value_of_step stepped height (Nat.le_trans reads supplied) with
        stopped | ⟨v, below, found, foretold⟩
      · have halted : execute parameters limit stack i =
            .error .noiseUndefined := by
          rw [execute, stopped]
          rfl
        refine .inr ⟨perform_cons_error stopped, stack, ?_⟩
        rw [executeAll, halted]
      · -- the height after this step is at most the greatest one
        have low : below.length < limit := by omega
        have pushed : execute parameters limit stack i = .ok (v :: below) := by
          rw [execute, found]
          exact if_pos low
        rw [perform_cons found, executeAll, pushed]
        exact ih followed foretold

/-- What a check has followed. -/
theorem scan_of_check {code : List Instruction} {final : Nat}
    {depths : Depths} (checked : check code final = .ok depths) :
    scan 0 .start code = .ok depths := by
  unfold check at checked
  split at checked
  · cases checked
  · split at checked
    · cases checked
    · next found =>
      split at checked
      · cases checked
        exact found
      · cases checked

/-- A program with enough parameters gives what is on top of the stack when
its instructions have run without a limit, whatever was left on the
machine. -/
theorem run_eq_perform (machine : Machine) (program : Program)
    {parameters : List Vec3}
    (enough : program.parameterCount ≤ parameters.length) :
    (machine.run program parameters).1 =
      (perform parameters program.instructions []).map
        (·.head?.getD Vec3.zero) := by
  have followed := scan_of_check program.checked
  have empty : ([] : List Vec3).length = Depths.start.depth := rfl
  unfold run
  rw [if_neg (Nat.not_lt.mpr enough)]
  rcases executeAll_of_scan followed empty (Nat.le_refl _) enough with
    ⟨final, performed, executed, height⟩ | ⟨performed, left, executed⟩
  · have foretold : final.length = program.finalDepth := height
    unfold peakDepth
    rw [performed, executed]
    simp only [if_pos foretold]
    rfl
  · unfold peakDepth
    rw [performed, executed]
    rfl

end Machine

/-- Instructions that pass the check are a program. -/
theorem ofInstructions_of_check {code : List Instruction} {final : Nat}
    {depths : Depths} (checked : check code final = .ok depths) :
    ∃ program, ofInstructions code final = .ok program ∧
      program.instructions = code ∧ program.depths = depths := by
  unfold ofInstructions
  split
  · next fault failed =>
    rw [checked] at failed
    cases failed
  · next found passed =>
    rw [checked] at passed
    cases passed
    exact ⟨_, rfl, rfl, rfl⟩

/-! ## Results of operands -/

theorem mapM_id_ok (values : List Vec3) :
    (values.map (Except.ok : Vec3 → Except Fault Vec3)).mapM id = .ok values := by
  induction values with
  | nil => rfl
  | cons v rest ih =>
    rw [List.map_cons, List.mapM_cons, ih]
    rfl

/-- Results that give values together are values. -/
theorem eq_map_of_mapM_id {results : List (Except Fault Vec3)}
    {values : List Vec3} (given : results.mapM id = .ok values) :
    results = values.map .ok := by
  induction results generalizing values with
  | nil =>
    cases given
    rfl
  | cons r rest ih =>
    rw [List.mapM_cons] at given
    cases r with
    | error fault => cases given
    | ok v =>
      cases later : rest.mapM id with
      | error fault =>
        rw [later] at given
        cases given
      | ok others =>
        rw [later] at given
        cases given
        rw [ih later]
        rfl

/-- Results that stop together stop with the fault of one of them. -/
theorem mem_of_mapM_id {results : List (Except Fault Vec3)} {fault : Fault}
    (stopped : results.mapM id = .error fault) : .error fault ∈ results := by
  induction results with
  | nil => cases stopped
  | cons r rest ih =>
    rw [List.mapM_cons] at stopped
    cases r with
    | error other =>
      cases stopped
      exact List.mem_cons_self
    | ok v =>
      cases later : rest.mapM id with
      | error other =>
        rw [later] at stopped
        cases stopped
        exact List.mem_cons_of_mem _ (ih later)
      | ok values =>
        rw [later] at stopped
        cases stopped

/-- Results are values, or there is a fault among them. -/
theorem values_or_fault (results : List (Except Fault Vec3)) :
    (∃ values : List Vec3, results = values.map .ok) ∨
      ∃ fault, .error fault ∈ results := by
  cases found : results.mapM id with
  | error fault => exact .inr ⟨fault, mem_of_mapM_id found⟩
  | ok values => exact .inl ⟨values, eq_map_of_mapM_id found⟩

theorem not_mem_map_ok {values : List Vec3} {fault : Fault} :
    .error fault ∉ values.map (Except.ok : Vec3 → Except Fault Vec3) := by
  simp

theorem Opcode.combine_ok (op : Opcode) (values : List Vec3) :
    op.combine (values.map .ok) = op.operate values := by
  rw [combine, mapM_id_ok]
  rfl

/-- An operand with a fault makes the result of an operation one. -/
theorem Opcode.combine_of_mem {op : Opcode}
    {results : List (Except Fault Vec3)} {fault : Fault}
    (member : .error fault ∈ results) :
    ∃ other, op.combine results = .error other := by
  rw [combine]
  cases found : results.mapM id with
  | error other => exact ⟨other, rfl⟩
  | ok values =>
    rw [eq_map_of_mapM_id found] at member
    exact absurd member not_mem_map_ok

/-- Where operands only stop at undefined noise, an operation on them does
too. -/
theorem Opcode.combine_error {op : Opcode} (takes : 0 < op.arity)
    {results : List (Except Fault Vec3)} (count : results.length = op.arity)
    (only : ∀ fault, .error fault ∈ results → fault = .noiseUndefined)
    {fault : Fault} (stopped : op.combine results = .error fault) :
    fault = .noiseUndefined := by
  rcases values_or_fault results with ⟨values, rfl⟩ | ⟨other, member⟩
  · rw [combine_ok] at stopped
    rw [List.length_map] at count
    exact operate_error takes count stopped
  · rw [combine] at stopped
    cases found : results.mapM id with
    | error first =>
      rw [found] at stopped
      cases stopped
      exact only _ (mem_of_mapM_id found)
    | ok values =>
      rw [eq_map_of_mapM_id found] at member
      exact absurd member not_mem_map_ok

/-! ## Code that pushes results -/

/-- On this stack the code pushes the results, the first of them on top; if
one of them is a fault, it stops at undefined noise. -/
structure Pushes (parameters : List Vec3) (code : List Instruction)
    (stack : List Vec3) (results : List (Except Fault Vec3)) : Prop where
  values : ∀ vs : List Vec3, results = vs.map .ok →
    Machine.perform parameters code stack = .ok (vs ++ stack)
  fault : ∀ f, .error f ∈ results →
    Machine.perform parameters code stack = .error .noiseUndefined

namespace Pushes

open Machine

variable {parameters stack : List Vec3} {code : List Instruction}
  {results : List (Except Fault Vec3)}

theorem nil : Pushes parameters [] stack [] where
  values vs none := by
    rw [List.map_eq_nil_iff.mp none.symm]
    rfl
  fault f member := nomatch member

/-- One more instruction that pushes a value. -/
theorem snoc (pushes : Pushes parameters code stack results)
    {i : Instruction} {v : Vec3}
    (found : ∀ vs : List Vec3, results = vs.map .ok →
      value parameters (vs ++ stack) i = .ok (v, vs ++ stack)) :
    Pushes parameters (code ++ [i]) stack (.ok v :: results) where
  values vs same := by
    rcases vs with _ | ⟨w, vs⟩
    · cases same
    · obtain ⟨head, tail⟩ := List.cons.inj same
      cases head
      rw [perform_append, pushes.values vs tail]
      exact perform_cons (found vs tail)
  fault f member := by
    rcases List.mem_cons.mp member with same | member
    · cases same
    · rw [perform_append, pushes.fault f member]
      rfl

/-- One more operation, on the results that were pushed last. -/
theorem op {opcode : Opcode} (takes : 0 < opcode.arity)
    {operands : List (Except Fault Vec3)}
    (count : operands.length = opcode.arity)
    (pushes : Pushes parameters code stack (operands ++ results)) :
    Pushes parameters (code ++ [.op opcode]) stack
      (opcode.combine operands :: results) where
  values vs same := by
    rcases vs with _ | ⟨w, vs⟩
    · cases same
    obtain ⟨head, rfl⟩ := List.cons.inj same
    -- a value of the operation needs values of all operands
    rcases values_or_fault operands with ⟨inputs, rfl⟩ | ⟨f, member⟩
    · rw [Opcode.combine_ok] at head
      rw [List.length_map] at count
      have pushed := pushes.values (inputs ++ vs) (by rw [List.map_append])
      rw [perform_append, pushed, List.append_assoc]
      refine perform_cons ?_
      rw [value_of_arity (i := .op opcode) takes]
      show opcode.apply _ = _
      rw [Opcode.apply_append takes count, head]
      rfl
    · obtain ⟨other, stopped⟩ : ∃ other, opcode.combine operands =
          .error other := Opcode.combine_of_mem member
      rw [stopped] at head
      cases head
  fault f member := by
    -- the fault is the operation's own, or one of the results below stopped
    rcases values_or_fault (operands ++ results) with ⟨vs, same⟩ | ⟨g, inside⟩
    · obtain ⟨inputs, others, rfl, first, second⟩ :=
        List.map_eq_append_iff.mp same.symm
      subst first second
      rw [Opcode.combine_ok] at member
      rw [List.length_map] at count
      rcases List.mem_cons.mp member with stopped | member
      · rw [perform_append, pushes.values _ same, List.append_assoc]
        refine perform_cons_error ?_
        rw [value_of_arity (i := .op opcode) takes]
        show opcode.apply _ = _
        rw [Opcode.apply_append takes count, ← stopped,
          Opcode.operate_error takes count stopped.symm]
        rfl
      · exact absurd member not_mem_map_ok
    · rw [perform_append, pushes.fault g inside]
      rfl

/-- Code after code. The second may rely on what the first left. -/
theorem append {second : List Instruction} {more : List (Except Fault Vec3)}
    (pushes : Pushes parameters code stack results)
    (next : ∀ vs : List Vec3, results = vs.map .ok →
      Pushes parameters second (vs ++ stack) more) :
    Pushes parameters (code ++ second) stack (more ++ results) where
  values vs same := by
    obtain ⟨inputs, others, rfl, first, second⟩ :=
      List.map_eq_append_iff.mp same.symm
    rw [perform_append, pushes.values others second.symm]
    show perform _ _ _ = _
    rw [(next others second.symm).values inputs first.symm, List.append_assoc]
  fault f member := by
    -- the second code is reached only if the first did not stop
    rcases values_or_fault results with ⟨vs, same⟩ | ⟨g, inside⟩
    · have later : .error f ∈ more := by
        rcases List.mem_append.mp member with later | earlier
        · exact later
        · rw [same] at earlier
          exact absurd earlier not_mem_map_ok
      rw [perform_append, pushes.values vs same]
      exact (next vs same).fault f later
    · rw [perform_append, pushes.fault g inside]
      rfl

end Pushes

end FieldMesh.Program
