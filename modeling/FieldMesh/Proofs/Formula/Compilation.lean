import Mathlib.Data.List.Forall2
import Mathlib.Data.List.TakeWhile
import FieldMesh.Formula.Basic
import FieldMesh.Proofs.Formula.Evaluation

/-!
# Compiled formulas compute their values

The instructions of an expression push its value on whatever stack holds the
results of the blocks at its bottom. Together with the blocks, which make
that bottom, they are a program for the value of the expression.

* **heights**: emitted instructions pass the check of programs
  (`Emits.heights`), with a height for every block and one more;
* **values**: emitted instructions push the value of what they were emitted
  for (`Emits.pushes`), by induction on the emission, with the values of the
  blocks as the invariant (`Valued`);
* **programs**: whatever translates is a program that computes the value.
-/

namespace FieldMesh.Formula

open FieldMesh.Program (Fault Instruction Opcode Depths Pushes scan)
open FieldMesh.Program.Machine (perform)
open FieldMesh.Text

/-! ## Heights -/

/-- Instructions after instructions. -/
theorem scan_append (first second : List Instruction) :
    ∀ (position : Nat) {before mid after : Depths},
      scan position before first = .ok mid →
      scan (position + first.length) mid second = .ok after →
      scan position before (first ++ second) = .ok after := by
  -- the position moves on with every instruction, so it is not fixed here
  induction first with
  | nil =>
    intro position before mid after front back
    cases front
    exact back
  | cons i rest ih =>
    intro position before mid after front back
    rw [scan] at front
    rw [List.cons_append, scan]
    cases stepped : before.step position i with
    | error fault =>
      rw [stepped] at front
      cases front
    | ok next =>
      rw [stepped] at front
      refine ih (position + 1) front ?_
      rw [List.length_cons] at back
      rwa [show position + 1 + rest.length = position + (rest.length + 1) by
        omega]

/-- What instructions do to heights: wherever `low` entries are on the stack,
they leave `pushed` more, and they read fewer than `count` parameters. -/
def Raises (low count : Nat) (code : List Instruction) (pushed : Nat) : Prop :=
  ∀ (position : Nat) (before : Depths), low ≤ before.depth →
    ∃ after, scan position before code = .ok after ∧
      after.depth = before.depth + pushed ∧
      after.parameters ≤ max before.parameters count

namespace Raises

variable {low count pushed : Nat} {code : List Instruction}

theorem nil : Raises low count [] 0 :=
  fun _ before _ => ⟨before, rfl, rfl, Nat.le_max_left _ _⟩

theorem mono {low' : Nat} (raises : Raises low count code pushed)
    (more : low ≤ low') : Raises low' count code pushed :=
  fun position before high => raises position before (Nat.le_trans more high)

/-- Instructions after instructions. -/
theorem append {second : List Instruction} {pushed' : Nat}
    (raises : Raises low count code pushed)
    (raises' : Raises (low + pushed) count second pushed') :
    Raises low count (code ++ second) (pushed + pushed') := by
  intro position before high
  obtain ⟨mid, front, depth, reads⟩ := raises position before high
  obtain ⟨after, back, depth', reads'⟩ :=
    raises' (position + code.length) mid (by omega)
  exact ⟨after, scan_append code second position front back, by omega, by omega⟩

/-- One more instruction. -/
theorem step {i : Instruction} (valid : i.opcode ≠ .invalid)
    (loads : i.opcode = .load → 0 < i.slot.toNat ∧ i.slot.toNat ≤ low)
    (reads : i.opcode = .param → i.slot.toNat < count)
    (raises : Raises low count code (i.opcode.arity + pushed)) :
    Raises low count (code ++ [i]) (pushed + 1) := by
  intro position before high
  obtain ⟨mid, front, depth, read⟩ := raises position before high
  have inside : i.opcode = .load →
      0 < i.slot.toNat ∧ i.slot.toNat ≤ mid.depth := by
    intro load
    have := loads load
    omega
  obtain ⟨after, stepped, depth', read'⟩ := Depths.step_eq valid inside
    (by omega) (position + code.length)
  refine ⟨after, scan_append code [i] position front ?_, by omega, ?_⟩
  · rw [scan, stepped]
    rfl
  · rw [read']
    split
    · next param =>
      have := reads param
      omega
    · exact read

/-- One more instruction without operands. -/
theorem leaf {i : Instruction} (raises : Raises low count code pushed)
    (nullary : i.opcode.arity = 0) (valid : i.opcode ≠ .invalid)
    (loads : i.opcode = .load → 0 < i.slot.toNat ∧ i.slot.toNat ≤ low)
    (reads : i.opcode = .param → i.slot.toNat < count) :
    Raises low count (code ++ [i]) (pushed + 1) := by
  refine step valid loads reads ?_
  rwa [nullary, Nat.zero_add]

/-- One more operation. -/
theorem op {opcode : Opcode} (takes : 0 < opcode.arity)
    (raises : Raises low count code (opcode.arity + pushed)) :
    Raises low count (code ++ [.op opcode]) (pushed + 1) := by
  have hasNone : ∀ {other : Opcode}, other.arity = 0 → opcode ≠ other := by
    rintro other none rfl
    omega
  exact step (i := .op opcode) (hasNone rfl) (fun load => absurd load (hasNone rfl))
    (fun param => absurd param (hasNone rfl)) raises

end Raises

theorem toNat_ofNat_of_lt {n : Nat} (small : n < 256) :
    (UInt8.ofNat n).toNat = n :=
  Nat.mod_eq_of_lt small

/-- The blocks in a log make an entry each, and every slot is one of them. -/
structure Log.Sized (log : Log) (count : Nat) : Prop where
  blocks : Raises 0 count log.blocks.flatten log.blocks.length
  slots : ∀ name slot, log.slots.lookup name = some slot →
    0 < slot.toNat ∧ slot.toNat ≤ log.blocks.length

/-- Emission only adds blocks. -/
theorem Emits.blocks_le {scope : Scope} {path : List String} {log log' : Log}
    {es : List Expr} {code : List Instruction}
    (emitted : Emits scope path log es code log') :
    log.blocks.length ≤ log'.blocks.length := by
  induction emitted with
  | nil => exact Nat.le_refl _
  | constant _ _ ih | parameter _ _ ih | plus _ ih | minus _ ih
  | binary _ _ ih | call _ _ ih => exact ih
  | undeclared _ _ _ _ ih | declared _ _ _ _ ih | shared _ _ _ _ _ _ ih =>
    exact ih
  | block _ _ _ _ _ _ _ _ _ ih ihBlock =>
    simp only [Log.complete, List.length_append, List.length_singleton]
    simp only [Log.noteRead, Log.use] at ihBlock
    omega

/-- Where a new block is completed, slots are those from before and the new
one. -/
theorem Log.lookup_complete {log : Log} {name other : String} {slot slot' : UInt8}
    {block : List Instruction}
    (found : (log.complete name slot block).slots.lookup other = some slot') :
    (other = name ∧ slot' = slot) ∨ log.slots.lookup other = some slot' := by
  simp only [complete, List.lookup_cons] at found
  cases same : other == name with
  | true =>
    rw [same] at found
    cases found
    exact .inl ⟨eq_of_beq same, rfl⟩
  | false =>
    rw [same] at found
    exact .inr found

theorem Log.lookup_new {log : Log} {name : String} {slot : UInt8}
    {block : List Instruction} :
    (log.complete name slot block).slots.lookup name = some slot := by
  simp [complete]

/-- Emitted instructions raise the stack by one for every expression, over
the results of the blocks. -/
theorem Emits.heights {scope : Scope} {path : List String} {log log' : Log}
    {es : List Expr} {code : List Instruction}
    (emitted : Emits scope path log es code log')
    (few : scope.parameters.length ≤ 256)
    (sized : log.Sized scope.parameters.length) :
    log'.Sized scope.parameters.length ∧
      Raises log'.blocks.length scope.parameters.length code es.length := by
  induction emitted with
  | nil => exact ⟨sized, .nil⟩
  | constant value _ ih =>
    obtain ⟨sized', raises⟩ := ih sized
    exact ⟨sized', raises.leaf rfl nofun nofun nofun⟩
  | @parameter _ _ _ _ _ name index found _ ih =>
    obtain ⟨sized', raises⟩ := ih sized
    have inside : index < scope.parameters.length :=
      (List.findIdx?_eq_some_iff_getElem.mp found).1
    -- at most 256 parameters, so that the number survives in a byte
    refine ⟨sized', raises.leaf rfl nofun nofun fun _ => ?_⟩
    show (UInt8.ofNat index).toNat < _
    rw [toNat_ofNat_of_lt (by omega)]
    exact inside
  | undeclared _ _ _ _ ih | declared _ _ _ _ ih =>
    obtain ⟨sized', raises⟩ := ih sized
    exact ⟨⟨sized'.blocks, sized'.slots⟩, raises.leaf rfl nofun nofun nofun⟩
  | shared _ _ _ _ has _ ih =>
    obtain ⟨sized', raises⟩ := ih sized
    refine ⟨⟨sized'.blocks, sized'.slots⟩, raises.leaf rfl nofun ?_ nofun⟩
    exact fun _ => sized'.slots _ _ has
  | @block _ _ _ _ log' name v tree block log'' _ _ _ _ _ _ fits before inner
      ih ihBlock =>
    -- the block stands after those that its own text completed
    obtain ⟨sized', raises⟩ := ih sized
    obtain ⟨sized'', raisesBlock⟩ := ihBlock ⟨sized'.blocks, sized'.slots⟩
    have more : log'.blocks.length ≤ log''.blocks.length := inner.blocks_le
    have number : (UInt8.ofNat (log''.blocks.length + 1)).toNat =
        log''.blocks.length + 1 := toNat_ofNat_of_lt (by omega)
    have grown : (log''.blocks ++ [block]).length = log''.blocks.length + 1 := by
      simp
    refine ⟨⟨?_, ?_⟩, ?_⟩
    · show Raises 0 _ (log''.blocks ++ [block]).flatten _
      rw [List.flatten_append, List.flatten_singleton, Log.complete, grown]
      refine sized''.blocks.append (raisesBlock.mono ?_)
      omega
    · intro other slot found
      show _ ∧ _ ≤ (log''.blocks ++ [block]).length
      rw [grown]
      rcases Log.lookup_complete found with ⟨-, rfl⟩ | earlier
      · omega
      · have := sized''.slots _ _ earlier
        omega
    · show Raises (log''.blocks ++ [block]).length _ _ _
      rw [grown]
      refine (raises.mono (by omega)).leaf rfl nofun (fun _ => ?_) nofun
      show 0 < (UInt8.ofNat _).toNat ∧ (UInt8.ofNat _).toNat ≤ _
      omega
  | plus _ ih => exact ih sized
  | minus _ ih =>
    obtain ⟨sized', raises⟩ := ih sized
    refine ⟨sized', Raises.op (by decide) ?_⟩
    rwa [Nat.add_comm]
  | @binary _ _ _ _ es _ _ op _ ih =>
    obtain ⟨sized', raises⟩ := ih sized
    have two := op.arity_opcode
    refine ⟨sized', Raises.op (by omega) ?_⟩
    rw [two, Nat.add_comm]
    exact raises
  | call resolved _ ih =>
    obtain ⟨sized', raises⟩ := ih sized
    refine ⟨sized', Raises.op (Functions.arity_pos_of_resolve resolved) ?_⟩
    rw [Functions.arity_of_resolve resolved, ← List.length_append]
    exact raises

/-! ## Values -/

/-- The results of the blocks in a log: they are what the blocks push when
they run first, and a slot holds the value of its sub-formula. -/
structure Valued (scope : Scope) (arguments : List Vec3) (log : Log)
    (results : List (Except Fault Vec3)) : Prop where
  count : results.length = log.blocks.length
  blocks : Pushes arguments log.blocks.flatten [] results.reverse
  slots : ∀ name slot, log.slots.lookup name = some slot →
    0 < slot.toNat ∧ ∃ r, results[slot.toNat - 1]? = some r ∧
      Evaluates scope arguments (.reference name) r

/-- The bottom of a stack, read upwards, is what the blocks left there. -/
def Holds (results : List (Except Fault Vec3)) (stack : List Vec3) : Prop :=
  ∃ held : List Vec3, results = held.map .ok ∧ held.reverse <:+ stack

theorem Holds.prefix {results more : List (Except Fault Vec3)}
    {stack : List Vec3} (holds : Holds (results ++ more) stack) :
    Holds results stack := by
  obtain ⟨held, same, bottom⟩ := holds
  obtain ⟨first, second, rfl, here, -⟩ := List.map_eq_append_iff.mp same.symm
  refine ⟨first, here.symm, List.IsSuffix.trans ?_ bottom⟩
  rw [List.reverse_append]
  exact List.suffix_append _ _

/-- An entry of the bottom is loaded from under whatever stands on it. -/
theorem Holds.value_load {results : List (Except Fault Vec3)}
    {stack : List Vec3} (holds : Holds results stack) {slot : UInt8}
    (counted : 0 < slot.toNat) {r : Except Fault Vec3}
    (found : results[slot.toNat - 1]? = some r) :
    ∃ v, r = .ok v ∧ ∀ arguments vs,
      Program.Machine.value arguments (vs ++ stack) (.load slot) =
        .ok (v, vs ++ stack) := by
  obtain ⟨held, rfl, above, rfl⟩ := holds
  rw [List.getElem?_map] at found
  obtain ⟨v, entry, rfl⟩ := Option.map_eq_some_iff.mp found
  refine ⟨v, rfl, fun arguments vs => ?_⟩
  have present : (vs ++ (above ++ held.reverse)).reverse[slot.toNat - 1]? =
      some v := by
    rw [List.reverse_append, List.reverse_append, List.reverse_reverse,
      List.append_assoc]
    exact List.getElem?_append_left (List.getElem?_eq_some_iff.mp entry).1
      |>.trans entry
  unfold Program.Machine.value
  simp only [Instruction.load, if_neg (Nat.ne_of_gt counted), present]

/-- What an emission promises: the blocks that it completed have results, the
expressions have values, the code pushes these where the results are held,
and a fault among the new results is a fault of an expression. -/
def Delivers (scope : Scope) (arguments : List Vec3) (log' : Log)
    (es : List Expr) (code : List Instruction)
    (results : List (Except Fault Vec3)) : Prop :=
  ∃ more values, Valued scope arguments log' (results ++ more) ∧
    List.Forall₂ (Evaluates scope arguments) es values ∧
    (∀ stack, Holds (results ++ more) stack →
      Pushes arguments code stack values) ∧
    ((∃ f, .error f ∈ more) → ∃ f, .error f ∈ values)

theorem Valued.congr {scope : Scope} {arguments : List Vec3} {log log' : Log}
    {results : List (Except Fault Vec3)}
    (valued : Valued scope arguments log results)
    (blocks : log'.blocks = log.blocks) (slots : log'.slots = log.slots) :
    Valued scope arguments log' results where
  count := blocks ▸ valued.count
  blocks := blocks ▸ valued.blocks
  slots := slots ▸ valued.slots

/-- A block that pushes one result over those of the blocks before it. -/
theorem Valued.complete {scope : Scope} {arguments : List Vec3} {log : Log}
    {results : List (Except Fault Vec3)}
    (valued : Valued scope arguments log results)
    (fits : log.blocks.length < 255) {name : String} {block : List Instruction}
    {r : Except Fault Vec3}
    (pushes : ∀ stack, Holds results stack → Pushes arguments block stack [r])
    (evaluates : Evaluates scope arguments (.reference name) r) :
    Valued scope arguments
      (log.complete name (UInt8.ofNat (log.blocks.length + 1)) block)
      (results ++ [r]) where
  count := by
    show _ = (log.blocks ++ [block]).length
    rw [List.length_append, List.length_append, valued.count]
    rfl
  blocks := by
    show Pushes arguments (log.blocks ++ [block]).flatten [] _
    rw [List.flatten_append, List.flatten_singleton, List.reverse_append]
    refine valued.blocks.append fun vs same => ?_
    refine pushes (vs ++ []) ⟨vs.reverse, ?_, ?_⟩
    · rw [List.map_reverse, ← same, List.reverse_reverse]
    · exact ⟨[], by rw [List.reverse_reverse, List.append_nil, List.nil_append]⟩
  slots other slot has := by
    rcases Log.lookup_complete has with ⟨rfl, rfl⟩ | earlier
    · rw [toNat_ofNat_of_lt (by omega), Nat.add_sub_cancel, ← valued.count]
      exact ⟨Nat.succ_pos _, r, List.getElem?_concat_length, evaluates⟩
    · obtain ⟨counted, q, stored, evaluatesOther⟩ :=
        valued.slots other slot earlier
      refine ⟨counted, q, ?_, evaluatesOther⟩
      rw [List.getElem?_append_left (List.getElem?_eq_some_iff.mp stored).1]
      exact stored

/-- What a fresh variable gives as its tree is what its text says. -/
theorem Variable.parse_of_tree {v : Variable} (fresh : v.Fresh) {tree : Expr}
    (read : v.tree = .ok tree) : parse v.text = .ok (some tree) := by
  rw [tree_of_fresh fresh, readTree] at read
  split at read
  · cases read
  · cases read
  · next same =>
    cases read
    exact same

namespace Delivers

variable {scope : Scope} {arguments : List Vec3} {log log' : Log}
  {es : List Expr} {e : Expr} {code : List Instruction}
  {results : List (Except Fault Vec3)}

/-- One more expression, whose value is pushed by one instruction. -/
theorem push (delivers : Delivers scope arguments log es code results)
    {i : Instruction} {v : Vec3} (evaluates : Evaluates scope arguments e (.ok v))
    (pushed : ∀ stack, Program.Machine.value arguments stack i = .ok (v, stack))
    (blocks : log'.blocks = log.blocks) (slots : log'.slots = log.slots) :
    Delivers scope arguments log' (e :: es) (code ++ [i]) results := by
  obtain ⟨more, values, valued, evaluated, pushes, faults⟩ := delivers
  refine ⟨more, .ok v :: values, valued.congr blocks slots,
    .cons evaluates evaluated, fun stack holds => ?_, fun fault => ?_⟩
  · exact (pushes stack holds).snoc fun vs _ => pushed (vs ++ stack)
  · obtain ⟨f, member⟩ := faults fault
    exact ⟨f, List.mem_cons_of_mem _ member⟩

/-- An operation in place of its operands. -/
theorem op {opcode : Opcode} (operands : List Expr) (takes : 0 < opcode.arity)
    (count : operands.length = opcode.arity)
    (delivers : Delivers scope arguments log (operands ++ es) code results)
    (combined : ∀ rs, List.Forall₂ (Evaluates scope arguments) operands rs →
      Evaluates scope arguments e (opcode.combine rs)) :
    Delivers scope arguments log (e :: es) (code ++ [.op opcode]) results := by
  obtain ⟨more, values, valued, evaluated, pushes, faults⟩ := delivers
  -- the values split where the operands end and the other expressions begin
  have front := List.forall₂_take operands.length evaluated
  have back := List.forall₂_drop operands.length evaluated
  rw [List.take_left] at front
  rw [List.drop_left] at back
  have split := List.take_append_drop operands.length values
  generalize values.take operands.length = rs at front split
  generalize values.drop operands.length = rest at back split
  subst split
  refine ⟨more, opcode.combine rs :: rest, valued, .cons (combined rs front) back,
    fun stack holds => ?_, fun fault => ?_⟩
  · exact (pushes stack holds).op takes (front.length_eq.symm.trans count)
  · obtain ⟨f, member⟩ := faults fault
    rcases List.mem_append.mp member with inside | after
    · obtain ⟨g, stopped⟩ := Opcode.combine_of_mem inside
      exact ⟨g, stopped ▸ List.mem_cons_self⟩
    · exact ⟨f, List.mem_cons_of_mem _ after⟩

/-- A sub-formula that has a block already: its result is loaded. -/
theorem load (delivers : Delivers scope arguments log es code results)
    {name : String} {slot : UInt8} (has : log.slots.lookup name = some slot)
    (blocks : log'.blocks = log.blocks) (slots : log'.slots = log.slots) :
    Delivers scope arguments log' (.reference name :: es) (code ++ [.load slot])
      results := by
  obtain ⟨more, values, valued, evaluated, pushes, faults⟩ := delivers
  -- loading under the entries pushed so far reaches the block's result
  obtain ⟨counted, r, stored, evaluates⟩ := valued.slots name slot has
  refine ⟨more, r :: values, valued.congr blocks slots,
    .cons evaluates evaluated, fun stack holds => ?_, fun fault => ?_⟩
  · obtain ⟨w, rfl, loaded⟩ := holds.value_load counted stored
    exact (pushes stack holds).snoc fun vs _ => loaded arguments vs
  · obtain ⟨f, member⟩ := faults fault
    exact ⟨f, List.mem_cons_of_mem _ member⟩

/-- A sub-formula that gets its block now: the block comes after those that
the other expressions needed. -/
theorem block {name : String} {tree : Expr} {block : List Instruction}
    (delivers : Delivers scope arguments log es code results)
    (inner : ∀ more, Valued scope arguments log (results ++ more) →
      Delivers scope arguments log' [tree] block (results ++ more))
    (named : ∀ r, Evaluates scope arguments tree r →
      Evaluates scope arguments (.reference name) r)
    (fits : log'.blocks.length < 255) :
    Delivers scope arguments
      (log'.complete name (UInt8.ofNat (log'.blocks.length + 1)) block)
      (.reference name :: es)
      (code ++ [.load (UInt8.ofNat (log'.blocks.length + 1))]) results := by
  obtain ⟨more, values, valued, evaluated, pushes, faults⟩ := delivers
  obtain ⟨nested, innerValues, valued', evaluatedBlock, pushesBlock,
    faultsBlock⟩ := inner more valued
  obtain ⟨r, _, evaluatedTree, nothing, rfl⟩ :=
    List.forall₂_cons_left_iff.mp evaluatedBlock
  cases nothing
  -- the name has the value of its own text, which is what the block pushes
  have evaluates := named r evaluatedTree
  have completed := valued'.complete fits pushesBlock evaluates
  simp only [List.append_assoc] at completed
  refine ⟨more ++ (nested ++ [r]), r :: values, completed,
    .cons evaluates evaluated, fun stack holds => ?_, ?_⟩
  · -- the rest was emitted before the block, over the earlier results only
    have bottom : Holds (results ++ more ++ nested ++ [r]) stack := by
      simpa only [List.append_assoc] using holds
    obtain ⟨counted, q, stored, -⟩ := completed.slots name _ Log.lookup_new
    obtain ⟨w, rfl, loaded⟩ := holds.value_load counted stored
    have same : r = .ok w := by
      rw [toNat_ofNat_of_lt (by omega), Nat.add_sub_cancel, ← valued'.count,
        ← List.append_assoc, ← List.append_assoc,
        List.getElem?_concat_length] at stored
      exact Option.some.inj stored
    rw [same]
    exact (pushes stack bottom.prefix.prefix).snoc fun vs _ =>
      loaded arguments vs
  · -- a fault is one of the earlier, of the nested or of this block
    rintro ⟨f, inside⟩
    rcases List.mem_append.mp inside with before | inside
    · obtain ⟨g, found⟩ := faults ⟨f, before⟩
      exact ⟨g, List.mem_cons_of_mem _ found⟩
    · rcases List.mem_append.mp inside with inner | own
      · obtain ⟨g, found⟩ := faultsBlock ⟨f, inner⟩
        exact ⟨g, List.mem_singleton.mp found ▸ List.mem_cons_self⟩
      · exact ⟨f, List.mem_singleton.mp own ▸ List.mem_cons_self⟩

end Delivers

/-- Emission delivers what it promises. -/
theorem Emits.delivers {scope : Scope} (sound : scope.table.Sound)
    (few : scope.parameters.length ≤ 256) {arguments : List Vec3}
    (enough : scope.parameters.length ≤ arguments.length)
    {path : List String} {log log' : Log} {es : List Expr}
    {code : List Instruction} (emitted : Emits scope path log es code log')
    {results : List (Except Fault Vec3)}
    (valued : Valued scope arguments log results) :
    Delivers scope arguments log' es code results := by
  -- over the rules; the results so far vary, since blocks are added on the way
  induction emitted generalizing results with
  | nil =>
    refine ⟨[], [], by rwa [List.append_nil], .nil, fun _ _ => .nil, ?_⟩
    rintro ⟨f, member⟩
    cases member
  | constant value _ ih =>
    exact (ih valued).push (.constant value) (fun _ => rfl) rfl rfl
  | @parameter _ _ _ _ _ name index found _ ih =>
    have inside : index < scope.parameters.length :=
      (List.findIdx?_eq_some_iff_getElem.mp found).1
    have present := List.getElem?_eq_getElem (show index < arguments.length by
      omega)
    refine (ih valued).push (.value (.parameter found present)) (fun stack => ?_)
      rfl rfl
    unfold Program.Machine.value
    simp only [Instruction.param, toNat_ofNat_of_lt (show index < 256 by omega),
      present]
  | @undeclared _ _ _ _ _ name free absent constant _ ih =>
    -- bisection finds nothing, and in a sorted table that means absent
    have missing := (VariableTable.find?_eq_none_iff sound.ascending).mp absent
    have zero : (Variable.implied (lower name)).constant = Vec3.zero := by
      unfold Variable.constant
      split <;> rfl
    refine (ih valued).push (.value (.undeclared free missing constant))
      (fun stack => ?_) rfl rfl
    rw [zero]
    rfl
  | @declared _ _ _ _ _ name v free found constant _ ih =>
    obtain ⟨member, named⟩ := VariableTable.find?_some found
    refine (ih valued).push ?_ (fun stack => rfl) rfl rfl
    unfold Variable.constant
    cases kind : v.kind with
    | vector => exact .value (.vector free member named kind)
    | float => exact .value (.float free member named kind)
    | subFormula => exact absurd kind constant
  | shared _ _ _ _ has _ ih => exact (ih valued).load has rfl rfl
  | @block _ _ _ _ _ name v tree _ _ free found kind _ _ read fits _ _ ih
      ihBlock =>
    obtain ⟨member, named⟩ := VariableTable.find?_some found
    have parsed := Variable.parse_of_tree (sound.fresh v member) read
    exact (ih valued).block (fun _ valued' => ihBlock (valued'.congr rfl rfl))
      (fun _ => .tree (.subFormula free member named kind parsed)) fits
  | plus _ ih =>
    obtain ⟨more, values, valued', evaluated, pushes, faults⟩ := ih valued
    obtain ⟨r, rest, first, others, rfl⟩ :=
      List.forall₂_cons_left_iff.mp evaluated
    exact ⟨more, r :: rest, valued', .cons (.plus first) others, pushes, faults⟩
  | @minus _ _ e _ _ _ _ ih =>
    refine Delivers.op [e] (by decide) rfl (ih valued) ?_
    intro rs evaluated
    obtain ⟨r, _, first, nothing, rfl⟩ := List.forall₂_cons_left_iff.mp evaluated
    cases nothing
    exact .minus first
  | @binary _ _ left right _ _ _ op _ ih =>
    have two := op.arity_opcode
    refine Delivers.op [left, right] (by omega) two.symm (ih valued) ?_
    intro rs evaluated
    obtain ⟨a, _, first, others, rfl⟩ :=
      List.forall₂_cons_left_iff.mp evaluated
    obtain ⟨b, _, second, nothing, rfl⟩ := List.forall₂_cons_left_iff.mp others
    cases nothing
    exact .binary op first second
  | @call _ _ function operands _ _ _ opcode resolved _ ih =>
    refine Delivers.op operands (Functions.arity_pos_of_resolve resolved)
      (Functions.arity_of_resolve resolved).symm (ih valued) ?_
    intro rs evaluated
    obtain ⟨count, each⟩ := List.forall₂_iff_zip.mp evaluated
    exact .call resolved count.symm fun p member => each member

/-! ## Programs -/

/-- A translation is the log and the instructions of a run of `emit`. -/
theorem run_of_translate {table : VariableTable} {parameters : List String}
    {e : Expr} {translation : Translation}
    (translated : (translate table parameters e).1 = .ok translation) :
    parameters.length ≤ 256 ∧
      ∃ log main, (emit ⟨parameters.map lower, table⟩ [] e).run {} =
          (.ok main, log) ∧
        translation = ⟨log.blocks.flatten ++ main, log.blocks.length, log.used⟩ := by
  unfold translate at translated
  split at translated
  · cases translated
  · next few =>
    simp only at translated
    cases run : (emit ⟨parameters.map lower, table⟩ [] e).run {} with
    | mk result log =>
      rw [run] at translated
      cases result with
      | error failure => cases translated
      | ok main =>
        cases translated
        exact ⟨Nat.not_lt.mp few, log, main, rfl, rfl⟩

theorem emits_of_translate {table : VariableTable} {parameters : List String}
    {e : Expr} {translation : Translation}
    (translated : (translate table parameters e).1 = .ok translation) :
    parameters.length ≤ 256 ∧
      ∃ log main, Emits ⟨parameters.map lower, table⟩ [] {} [e] main log ∧
        translation = ⟨log.blocks.flatten ++ main, log.blocks.length, log.used⟩ := by
  obtain ⟨few, log, main, run, whole⟩ := run_of_translate translated
  exact ⟨few, log, main, emits_of_emit run, whole⟩

/-- Blank text stands for no expression. -/
theorem parse_blank {source : String}
    (blank : ∀ c ∈ source.toList, isBlank c = true) :
    parse source = .ok none := by
  have nothing : trim source.toList = [] := by
    have front : dropBlanks source.toList = [] :=
      List.dropWhile_eq_nil_iff.mpr blank
    rw [trim, front]
    rfl
  have noLexemes : lex source = ⟨[], .ok 0⟩ := by
    rw [lex, nothing, lexFrom]
    rfl
  rw [parse, noLexemes]

/-- Emitted instructions are a program: they pass the check, with a height
for every block and one more, and read declared parameters only. -/
theorem Emits.program {scope : Scope} {e : Expr} {main : List Instruction}
    {log : Log} (emitted : Emits scope [] {} [e] main log)
    (few : scope.parameters.length ≤ 256) :
    ∃ program : Program, Program.ofInstructions (log.blocks.flatten ++ main)
        (log.blocks.length + 1) = .ok program ∧
      program.instructions = log.blocks.flatten ++ main ∧
      program.finalDepth = log.blocks.length + 1 ∧
      program.parameterCount ≤ scope.parameters.length := by
  obtain ⟨sized, raises⟩ := emitted.heights few ⟨.nil, nofun⟩
  have whole : Raises 0 _ (log.blocks.flatten ++ main) _ :=
    sized.blocks.append (raises.mono (Nat.le_of_eq (Nat.zero_add _).symm))
  obtain ⟨depths, followed, depth, reads⟩ := whole 0 .start (Nat.zero_le _)
  have final : depths.depth = log.blocks.length + 1 := by
    rw [depth]
    exact Nat.zero_add _
  -- the empty list fails the check, but it would not raise the stack at all
  have filled : log.blocks.flatten ++ main ≠ [] := by
    intro empty
    rw [empty] at followed
    cases followed
    cases final
  have checked : Program.check (log.blocks.flatten ++ main)
      (log.blocks.length + 1) = .ok depths := by
    unfold Program.check
    rw [if_neg (by simpa using filled), followed]
    exact if_pos final
  obtain ⟨program, made, code, known⟩ := Program.ofInstructions_of_check checked
  refine ⟨program, made, code, ?_, ?_⟩
  · rw [Program.finalDepth, known, final]
  · rw [Program.parameterCount, known]
    simpa [Depths.start] using reads

/-- Running emitted instructions gives the value of what they were emitted
for. -/
theorem Emits.perform {scope : Scope} (sound : scope.table.Sound)
    (few : scope.parameters.length ≤ 256) {e : Expr} {main : List Instruction}
    {log : Log} (emitted : Emits scope [] {} [e] main log)
    {arguments : List Vec3}
    (enough : scope.parameters.length ≤ arguments.length) :
    Evaluates scope arguments e
      ((perform arguments (log.blocks.flatten ++ main) []).map
        (·.head?.getD Vec3.zero)) := by
  have valued : Valued scope arguments {} [] := ⟨rfl, .nil, nofun⟩
  obtain ⟨results, values, valued', evaluated, pushes, faults⟩ :=
    emitted.delivers sound few enough valued
  obtain ⟨r, _, evaluates, nothing, rfl⟩ := List.forall₂_cons_left_iff.mp evaluated
  cases nothing
  -- the blocks run first and leave the results that the main code loads
  have whole : Pushes arguments (log.blocks.flatten ++ main) []
      ([r] ++ results.reverse) := by
    refine valued'.blocks.append fun vs same => pushes _ ⟨vs.reverse, ?_, ?_⟩
    · rw [List.map_reverse, ← same, List.reverse_reverse]
    · exact ⟨[], by rw [List.reverse_reverse, List.append_nil, List.nil_append]⟩
  rcases Program.values_or_fault ([r] ++ results.reverse) with
    ⟨vs, same⟩ | ⟨f, member⟩
  · rcases vs with _ | ⟨v, vs⟩
    · cases same
    · have own : r = .ok v := (List.cons.inj same).1
      rw [whole.values _ same]
      rw [own] at evaluates
      exact evaluates
  · -- a block that stops makes the value of the expression a fault
    obtain ⟨g, stopped⟩ : ∃ g, r = .error g := by
      rcases List.mem_cons.mp member with own | block
      · exact ⟨f, own.symm⟩
      · obtain ⟨g, found⟩ := faults ⟨f, List.mem_reverse.mp block⟩
        exact ⟨g, (List.mem_singleton.mp found).symm⟩
    have undefined : r = .error .noiseUndefined := by
      rw [stopped, evaluates.error stopped]
    rw [whole.fault f member]
    rw [undefined] at evaluates
    exact evaluates

/-- What translates is a program that gives the value of the expression. -/
theorem program_of_translate {table : VariableTable} (sound : table.Sound)
    {parameters : List String} {e : Expr} {translation : Translation}
    (translated : (translate table parameters e).1 = .ok translation) :
    ∃ program, translation.program = .ok program ∧
      program.finalDepth = translation.slotCount + 1 ∧
      program.parameterCount ≤ parameters.length ∧
      ∀ (machine : Program.Machine) (arguments : List Vec3),
        parameters.length ≤ arguments.length →
        Evaluates ⟨parameters.map lower, table⟩ arguments e
          (machine.run program arguments).1 := by
  obtain ⟨few, log, main, emitted, rfl⟩ := emits_of_translate translated
  have count : (parameters.map lower).length = parameters.length :=
    List.length_map _
  have small : (parameters.map lower).length ≤ 256 := by omega
  obtain ⟨program, made, code, depth, reads⟩ := emitted.program small
  have reads' : program.parameterCount ≤ parameters.length := count ▸ reads
  refine ⟨program, ?_, depth, reads', fun machine arguments enough => ?_⟩
  · show (Program.ofInstructions _ _).mapError _ = _
    rw [made]
    rfl
  · rw [Program.Machine.run_eq_perform machine program (by omega), code]
    exact emitted.perform sound small (count ▸ enough)

/-- Compiling never ends in instructions that are no program. -/
theorem compile_ne_invalidProgram {formula : Formula}
    (sound : formula.table.Sound) (reason : Program.ProgramFault) :
    formula.compile.1 ≠ .error (.compile (.invalidProgram reason)) := by
  intro failed
  unfold compile at failed
  split at failed
  · cases failed
  · cases failed
  · next e read =>
    cases translated : translate formula.table formula.parameters e with
    | mk result table =>
      have known : (translate formula.table formula.parameters e).1 = result :=
        congrArg Prod.fst translated
      rw [translated] at failed
      cases result with
      | error e' =>
        cases failed
        exact ofText_of_translate known reason rfl
      | ok translation =>
        obtain ⟨program, made, -⟩ := program_of_translate sound known
        simp only [bind, Except.bind, made] at failed
        cases failed

/-- **Compiler correctness.** Whatever translates is a program, with one
entry on its final stack for each block and one for the result, and it reads
declared parameters only. Whatever the machine was used for before, with an
argument for every parameter the program gives the value of the expression,
or stops where the expression has none. So compiling never ends in
instructions that are no program, and blank text stands for zero. -/
theorem translate_evaluates {table : VariableTable} (sound : table.Sound)
    (parameters : List String) :
    (∀ e translation, (translate table parameters e).1 = .ok translation →
      ∃ program, translation.program = .ok program ∧
        program.finalDepth = translation.slotCount + 1 ∧
        program.parameterCount ≤ parameters.length ∧
        ∀ (machine : Program.Machine) (arguments : List Vec3),
          parameters.length ≤ arguments.length →
          ∀ r, Evaluates ⟨parameters.map lower, table⟩ arguments e r ↔
            (machine.run program arguments).1 = r) ∧
    (∀ source fault, (compile ⟨source, parameters, table⟩).1 ≠
      .error (.compile (.invalidProgram fault))) ∧
    (∀ source, (∀ c ∈ source.toList, isBlank c = true) →
      ∃ compiled, (compile ⟨source, parameters, table⟩).1 = .ok compiled ∧
        ∀ (machine : Program.Machine) (arguments : List Vec3),
          (machine.run compiled.program arguments).1 = .ok Vec3.zero) := by
  refine ⟨fun e translation translated => ?_,
    fun source fault => compile_ne_invalidProgram sound fault,
    fun source blank => ?_⟩
  · obtain ⟨program, made, depth, reads, value⟩ :=
      program_of_translate sound translated
    refine ⟨program, made, depth, reads, fun machine arguments enough r => ?_⟩
    constructor
    · exact (value machine arguments enough).unique sound.ascending
    · rintro rfl
      exact value machine arguments enough
  · refine ⟨⟨.constant Vec3.zero, []⟩, ?_, fun machine arguments => rfl⟩
    unfold compile
    rw [parse_blank blank]

/-- `s` is `a + a`; then `s * s - a` uses the result of `s` twice. -/
def doubled : Variable := .subFormula "s" "a + a"

theorem doubled_tree :
    doubled.tree = .ok (.binary .add (.reference "a") (.reference "a")) := by
  have read : parse "a + a" =
      .ok (some (.binary .add (.reference "a") (.reference "a"))) := by
    with_unfolding_all rfl
  show doubled.readTree = _
  unfold Variable.readTree
  rw [show doubled.text = "a + a" from rfl, read]

theorem sound_doubled : (VariableTable.ofList [doubled]).Sound :=
  VariableTable.sound_ofList fun v member => by
    cases List.mem_singleton.mp member
    nofun

/-- Twice the result of the block, and the parameter. -/
theorem translate_doubled :
    (translate (.ofList [doubled]) ["A"] (.binary .sub
        (.binary .mul (.reference "s") (.reference "s")) (.reference "a"))).1 =
      .ok ⟨[.param 0, .param 0, .op .add, .param 0, .load 1, .load 1, .op .mul,
        .op .sub], 1, ["s"]⟩ := by
  have found : (VariableTable.ofList [doubled]).find? "s" = some doubled :=
    (VariableTable.find?_eq_some_iff sound_doubled.ascending).mpr ⟨.head _, rfl⟩
  have lowered : ["A"].map lower = ["a"] := by decide +kernel
  let scope : Scope := ⟨["a"], .ofList [doubled]⟩
  have free : scope.Free "s" := show List.findIdx? _ ["a"] = none by decide
  have parameter (path log) : (emit scope path (.reference "a")).run log =
      (.ok [.param 0], log) := by
    rw [emit]
    rfl
  have tree : (emit scope ["s"]
      (.binary .add (.reference "a") (.reference "a"))).run
        ((Log.use {} "s").noteRead "s") =
      (.ok [.param 0, .param 0, .op .add],
        (Log.use {} "s").noteRead "s") := by
    simp only [emit, Emit.run_bind]
    rfl
  have second := run_emit_block free found rfl rfl rfl
    doubled_tree tree (by decide)
  have product : (emit scope []
      (.binary .mul (.reference "s") (.reference "s"))).run {} =
      (.ok [.load 1, .load 1, .op .mul],
        ⟨[("s", 1)], [[.param 0, .param 0, .op .add]], ["s"], ["s"]⟩) := by
    rw [emit, Emit.run_bind, second]
    simp only
    rw [Emit.run_bind, run_emit_shared free found rfl rfl rfl]
    rfl
  unfold translate
  rw [if_neg (by decide), lowered]
  simp only [scope] at product ⊢
  rw [emit, Emit.run_bind, parameter]
  simp only
  rw [Emit.run_bind, product]
  rfl

theorem translate_evaluates_doubled :
    let table := VariableTable.ofList [doubled]
    let e := Expr.binary .sub (.binary .mul (.reference "s") (.reference "s"))
      (.reference "a")
    ∃ translation program, (translate table ["A"] e).1 = .ok translation ∧
      translation.slotCount = 1 ∧ translation.program = .ok program ∧
      (Program.Machine.run {} program [⟨1.0, 2.0, 3.0⟩]).1 =
        .ok ⟨3.0, 14.0, 33.0⟩ := by
  intro table e
  have lowered : ["A"].map lower = ["a"] := by decide +kernel
  let scope : Scope := ⟨["a"], table⟩
  have free : scope.Free "s" := show List.findIdx? _ ["a"] = none by decide
  obtain ⟨program, made, -, -, runs⟩ :=
    (translate_evaluates sound_doubled ["A"]).1 e _ translate_doubled
  refine ⟨_, program, translate_doubled, rfl, made,
    (runs {} [⟨1.0, 2.0, 3.0⟩] (Nat.le_refl 1) _).mp ?_⟩
  rw [lowered]
  have argument : Evaluates scope [⟨1.0, 2.0, 3.0⟩] (.reference "a")
      (.ok ⟨1.0, 2.0, 3.0⟩) := .value (@Scope.Denotes.parameter _ _ _ 0 _ rfl rfl)
  have shared := Evaluates.tree (.subFormula free (.head _) rfl rfl
    (doubled.parse_of_tree nofun doubled_tree)) (.binary .add argument argument)
  have whole := Evaluates.binary .sub (.binary .mul shared shared) argument
  have value : Opcode.sub.combine [Opcode.mul.combine
      [Opcode.add.combine [.ok ⟨1.0, 2.0, 3.0⟩, .ok ⟨1.0, 2.0, 3.0⟩],
        Opcode.add.combine [.ok ⟨1.0, 2.0, 3.0⟩, .ok ⟨1.0, 2.0, 3.0⟩]],
      .ok ⟨1.0, 2.0, 3.0⟩] = .ok ⟨3.0, 14.0, 33.0⟩ := by
    decide +kernel
  rw [← value]
  exact whole

end FieldMesh.Formula
