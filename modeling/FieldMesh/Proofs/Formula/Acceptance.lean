import FieldMesh.Proofs.Formula.Reading

/-!
# What is read is in the grammar, if its operands stand apart

The parser applies an operator to the operands on top of the stack, wherever
they stood in the text. Operands that follow each other without an operator
are noticed only if one of them is left over, so that an operator further on
can join them: `2 3 +` is read as `2 + 3`. Apart from that, nothing is read
that the grammar does not derive.

* `Waiting`: the operators and operands of a level while an operand is
  expected, with the tokens they were read from;
* `Surrounds`: the levels around the innermost one;
* `Reached`: the states that words lead to, as long as operands stand apart;
  every word keeps it (`Reached.read`);
* `derives_iff_separated`: what is read is in the grammar exactly if no
  operand stands right behind another.
-/

namespace FieldMesh.Formula

/-! ## One level -/

/-- Whether an operator takes two operands. -/
def Pending.isBinary : Pending → Bool
  | .unary _ => false
  | .binary _ => true

/-- The operators that bind looser than a bound have come to the top. -/
def Loose (bound : Nat) (operators : List Pending) : Prop :=
  ∀ top ∈ operators.head?, top.precedence < bound

theorem loose_cons {bound : Nat} {op : Pending} {operators : List Pending} :
    Loose bound (op :: operators) ↔ op.precedence < bound := by
  simp [Loose]

/-- `Waiting operators operands tokens`: what is pending on a level after
these tokens, while an operand is expected. Every operator that waits on top
of another binds tighter, signs apart. -/
inductive Waiting : List Pending → List Expr → List Token → Prop
  | nothing : Waiting [] [] []
  | summand {e tokens} {op : BinaryOp} :
    op.joinsTerms = true → Derives (.expression e) tokens →
    Waiting [.binary op] [e] (tokens ++ [.op op.symbol])
  | factor {operators operands e tokens more} {op : BinaryOp} :
    op.joinsTerms = false → Waiting operators operands tokens →
    Loose 3 operators → Derives (.term e) more →
    Waiting (.binary op :: operators) (e :: operands)
      (tokens ++ more ++ [.op op.symbol])
  | sign {operators operands tokens} (op : UnaryOp) :
    Waiting operators operands tokens →
    Waiting (.unary op :: operators) operands (tokens ++ [.op op.symbol])

/-- The marks of a level that stands on top of these stacks. -/
def Marks.over (base : List Pending) (floor : List Expr) : Marks :=
  ⟨base.length, floor.length⟩

namespace Waiting

variable {operators : List Pending} {operands : List Expr}
  {tokens more : List Token} {e : Expr} {yield : Pending → Bool}

/-- With an operand on top of them, the signs on top are applied to it. -/
theorem apply_signs (waiting : Waiting operators operands tokens)
    (derives : Derives (.unary e) more)
    (yields : ∀ op, 2000 ≤ op.precedence → yield op = true)
    (base : List Pending) (floor : List Expr) :
    ∃ operators' tokens' e' more', Waiting operators' operands tokens' ∧
      Loose 2000 operators' ∧ Derives (.unary e') more' ∧
      tokens' ++ more' = tokens ++ more ∧
      reduceWhile yield (.over base floor) (operators ++ base)
          (e :: (operands ++ floor)) =
        reduceWhile yield (.over base floor) (operators' ++ base)
          (e' :: (operands ++ floor)) := by
  induction waiting generalizing e more with
  | nothing => exact ⟨_, _, e, more, .nothing, nofun, derives, rfl, rfl⟩
  | summand joins before =>
    refine ⟨_, _, e, more, .summand joins before, ?_, derives, rfl, rfl⟩
    rw [loose_cons, Pending.precedence_summand joins]
    decide
  | factor joins waiting loose before =>
    refine ⟨_, _, e, more, .factor joins waiting loose before, ?_, derives,
      rfl, rfl⟩
    rw [loose_cons, Pending.precedence_factor joins]
    decide
  | @sign operators operands tokens op waiting ih =>
    obtain ⟨operators', tokens', e', more', waiting', loose, derives', same,
      reduced⟩ := ih (derives.sign op)
    refine ⟨operators', tokens', e', more', waiting', loose, derives', ?_, ?_⟩
    · rw [same, List.append_assoc]
      rfl
    · rw [← reduced]
      exact reduceWhile_unary (yields _ (Nat.le_refl _))
        (by simp [Marks.over]) (by simp [Marks.over])

/-- Then so is an operation on factors, and a term is on top. -/
theorem apply_factors (waiting : Waiting operators operands tokens)
    (derives : Derives (.unary e) more)
    (yields : ∀ op, 3 ≤ op.precedence → yield op = true)
    (base : List Pending) (floor : List Expr) :
    ∃ operators' operands' tokens' e' more',
      Waiting operators' operands' tokens' ∧ Loose 3 operators' ∧
      Derives (.term e') more' ∧ tokens' ++ more' = tokens ++ more ∧
      reduceWhile yield (.over base floor) (operators ++ base)
          (e :: (operands ++ floor)) =
        reduceWhile yield (.over base floor) (operators' ++ base)
          (e' :: (operands' ++ floor)) := by
  obtain ⟨operators', tokens', e', more', waiting', loose, derives', same,
    reduced⟩ := waiting.apply_signs derives
      (fun op tight => yields op (Nat.le_trans (by decide) tight)) base floor
  rw [reduced, ← same]
  cases waiting' with
  | nothing =>
    exact ⟨[], [], [], e', more', .nothing, nofun, .unary derives', rfl, rfl⟩
  | summand joins before =>
    refine ⟨_, _, _, e', more', .summand joins before, ?_, .unary derives',
      rfl, rfl⟩
    rw [loose_cons, Pending.precedence_summand joins]
    decide
  | @factor _ _ a _ _ op joins inner looser before =>
    refine ⟨_, _, _, .binary op a e', _, inner, looser,
      .factor joins before derives', by simp, ?_⟩
    refine reduceWhile_binary (yields _ ?_) (by simp [Marks.over])
      (by simp [Marks.over])
    rw [Pending.precedence_factor joins]
  | sign op _ => exact absurd (loose_cons.mp loose) (Nat.lt_irrefl _)

/-- In the end all is applied, and an expression is on top. -/
theorem apply_all (waiting : Waiting operators operands tokens)
    (derives : Derives (.unary e) more)
    (yields : ∀ op, 2 ≤ op.precedence → yield op = true)
    (base : List Pending) (floor : List Expr) :
    ∃ e', Derives (.expression e') (tokens ++ more) ∧
      reduceWhile yield (.over base floor) (operators ++ base)
          (e :: (operands ++ floor)) =
        .ok (base, e' :: floor) := by
  obtain ⟨operators', operands', tokens', e', more', waiting', loose, derives',
    same, reduced⟩ := waiting.apply_factors derives
      (fun op tight => yields op (Nat.le_trans (by decide) tight)) base floor
  have stop : ∀ e, reduceWhile yield (.over base floor) base (e :: floor) =
      .ok (base, e :: floor) := fun e =>
    reduceWhile_stop _ fun op below same above => by
      subst same
      exact absurd above (by simp [Marks.over])
  rw [reduced, ← same]
  cases waiting' with
  | nothing => exact ⟨e', .term derives', stop e'⟩
  | @summand a tokens op joins before =>
    refine ⟨.binary op a e', ?_, ?_⟩
    · rw [List.append_assoc]
      exact .summand joins before derives'
    · rw [← stop]
      refine reduceWhile_binary (yields _ ?_) (Nat.le_refl _) (Nat.le_refl _)
      rw [Pending.precedence_summand joins]
  | factor joins _ _ _ =>
    rw [loose_cons, Pending.precedence_factor joins] at loose
    exact absurd loose (Nat.lt_irrefl 3)
  | sign op _ =>
    have tight : 2000 < 3 := loose_cons.mp loose
    exact absurd tight (by decide)

/-! ## Missing operands -/

/-- For every binary operation an operand is there. -/
theorem length_operands (waiting : Waiting operators operands tokens) :
    operands.length = operators.countP (·.isBinary) := by
  induction waiting with
  | nothing => rfl
  | summand => rfl
  | factor _ _ _ _ ih =>
    rw [List.length_cons, List.countP_cons_of_pos rfl, ih]
  | sign op _ ih => rw [List.countP_cons_of_neg Bool.false_ne_true, ih]

end Waiting

theorem length_of_popOperand {mark : Nat} {op : Pending} {operands rest : List Expr}
    {e : Expr} (popped : popOperand mark op operands = .ok (e, rest)) :
    rest.length + 1 = operands.length := by
  cases operands with
  | nil => cases popped
  | cons first others =>
    rw [popOperand] at popped
    split at popped
    · cases popped
    · cases popped
      rfl

theorem length_of_reduce {mark : Nat} {op : Pending} {operands left : List Expr}
    (reduced : reduce mark op operands = .ok left) :
    left.length + op.isBinary.toNat = operands.length := by
  cases op with
  | unary op =>
    obtain ⟨⟨e, rest⟩, first, made⟩ := bind_ok_iff.mp reduced
    cases made
    exact length_of_popOperand first
  | binary op =>
    obtain ⟨⟨b, rest⟩, first, reduced⟩ := bind_ok_iff.mp reduced
    obtain ⟨⟨a, rest'⟩, second, made⟩ := bind_ok_iff.mp reduced
    cases made
    have one := length_of_popOperand first
    have two := length_of_popOperand second
    simp only [List.length_cons, Pending.isBinary, Bool.toNat_true]
    omega

/-- Every binary operation that is applied takes an operand away. -/
theorem length_of_reduceWhile {operators base rest : List Pending}
    {operands left : List Expr} {mark : Nat}
    (reduced : reduceWhile (fun _ => true) ⟨base.length, mark⟩
      (operators ++ base) operands = .ok (rest, left)) :
    left.length + operators.countP (·.isBinary) = operands.length := by
  induction operators generalizing operands with
  | nil =>
    rw [List.nil_append, reduceWhile_stop] at reduced
    · cases reduced
      rfl
    · rintro op below rfl above
      exact absurd above (by simp)
  | cons op operators ih =>
    rw [List.cons_append, reduceWhile, if_pos (by simp)] at reduced
    obtain ⟨next, first, reduced⟩ := bind_ok_iff.mp reduced
    rw [← length_of_reduce first, ← ih reduced, List.countP_cons, Nat.add_assoc]
    cases op <;> rfl

/-! ## Levels -/

/-- The arguments of a call that are complete, with a comma behind them. -/
inductive Listed : List Expr → List Token → Prop
  | none : Listed [] []
  | some {es tokens} :
    Derives (.arguments es) tokens → Listed es (tokens ++ [.comma])

theorem Listed.further {es : List Expr} {e : Expr} {tokens more : List Token}
    (listed : Listed es tokens) (derives : Derives (.expression e) more) :
    Derives (.arguments (es ++ [e])) (tokens ++ more) := by
  cases listed with
  | none => exact .argument derives
  | some before =>
    rw [List.append_assoc]
    exact .further before derives

/-- `Surrounds levels base floor before`: what was read up to the parenthesis
or comma with which the innermost level begins, and what is pending below
that level. -/
inductive Surrounds :
    List Level → List Pending → List Expr → List Token → Prop
  | outside : Surrounds [] [] [] []
  | group {levels base floor before operators operands tokens} :
    Surrounds levels base floor before → Waiting operators operands tokens →
    Surrounds
      (⟨.group, .over (operators ++ base) (operands ++ floor)⟩ :: levels)
      (operators ++ base) (operands ++ floor) (before ++ tokens ++ [.left])
  | call {levels base floor before operators operands tokens es listed}
      (function : String) :
    Surrounds levels base floor before → Waiting operators operands tokens →
    Listed es listed →
    Surrounds
      (⟨.call function es, .over (operators ++ base) (operands ++ floor)⟩ ::
        levels)
      (operators ++ base) (operands ++ floor)
      (before ++ tokens ++ .identifier function :: .left :: listed)

/-- The state of the parser after some tokens, as long as operands stand
apart: an operand is expected, or one has been completed. -/
inductive Reached : Parser → List Token → Prop
  | waiting {previous levels base floor before operators operands tokens} :
    Surrounds levels base floor before → Waiting operators operands tokens →
    previous.endsOperand = false →
    Reached ⟨previous, operators ++ base, operands ++ floor, levels⟩
      (before ++ tokens)
  | complete {previous levels base floor before operators operands tokens e
      more} :
    Surrounds levels base floor before → Waiting operators operands tokens →
    Derives (.primary e) more → previous.endsOperand = true →
    Reached ⟨previous, operators ++ base, e :: (operands ++ floor), levels⟩
      (before ++ tokens ++ more)

section

variable {levels : List Level} {base operators : List Pending}
  {floor operands : List Expr} {before tokens more : List Token}
  {previous : TokenKind} {e : Expr}

theorem Surrounds.marks (surrounds : Surrounds levels base floor before)
    (previous : TokenKind) (operators : List Pending) (operands : List Expr) :
    Parser.marks ⟨previous, operators, operands, levels⟩ = .over base floor := by
  cases surrounds <;> rfl

/-- A level that ends behind an operand holds one expression. -/
theorem conclude_complete (surrounds : Surrounds levels base floor before)
    (waiting : Waiting operators operands tokens)
    (derives : Derives (.primary e) more) (previous : TokenKind) :
    ∃ e', Derives (.expression e') (tokens ++ more) ∧
      Parser.conclude ⟨previous, operators ++ base, e :: (operands ++ floor), levels⟩ =
        .ok (e', ⟨previous, base, floor, levels⟩) := by
  obtain ⟨e', derives', reduced⟩ :=
    waiting.apply_all (.primary derives) (fun _ _ => rfl) base floor
  have marks := surrounds.marks previous (operators ++ base)
    (e :: (operands ++ floor))
  exact ⟨e', derives', Parser.conclude_eq (by rw [marks]; exact reduced)
    (by rw [marks]; rfl)⟩

/-- A level does not end where an operand is expected. -/
theorem conclude_waiting (surrounds : Surrounds levels base floor before)
    (waiting : Waiting operators operands tokens) (previous : TokenKind)
    (result : Expr × Parser) :
    Parser.conclude ⟨previous, operators ++ base, operands ++ floor, levels⟩ ≠
      .ok result := by
  intro concluded
  rw [Parser.conclude, surrounds.marks] at concluded
  obtain ⟨⟨rest, left⟩, reduced, concluded⟩ := bind_ok_iff.mp concluded
  -- the operations of the level have taken all of its operands
  have count := length_of_reduceWhile reduced
  rw [List.length_append, waiting.length_operands] at count
  have equal : left.length = floor.length := by omega
  cases left with
  | nil => cases concluded
  | cons first others =>
    have short : others.length < (Marks.over base floor).operands := by
      rw [Marks.over, ← equal]
      exact Nat.lt_succ_self _
    simp only at concluded
    rw [if_pos short] at concluded
    cases concluded

/-! ## Words -/

/-- The kind of the last token of a word. -/
def Word.kind : Word → TokenKind
  | .opening _ => .left
  | .token t => t.kind

/-- Whether an operand can begin with a word. -/
def Word.beginsOperand : Word → Bool
  | .opening _ => true
  | .token t => t.beginsOperand

theorem Reached.congr {p : Parser} {tokens tokens' : List Token}
    (reached : Reached p tokens) (same : tokens = tokens') : Reached p tokens' :=
  same ▸ reached

theorem Pending.ofSymbol_opens (opens : previous.endsOperand = false)
    {symbol : Symbol} {op : Pending} (found : ofSymbol previous symbol = .ok op) :
    ∃ sign : UnaryOp, op = .unary sign ∧ sign.symbol = symbol := by
  cases previous with
  | number | identifier | right => cases opens
  | finish | op | left | comma =>
    cases symbol with
    | plus => exact ⟨.plus, (Except.ok.inj found).symm, rfl⟩
    | minus => exact ⟨.minus, (Except.ok.inj found).symm, rfl⟩
    | star | slash | percent => cases found

theorem BinaryOp.exists_symbol (symbol : Symbol) :
    ∃ op : BinaryOp, op.symbol = symbol := by
  cases symbol with
  | plus => exact ⟨.add, rfl⟩
  | minus => exact ⟨.sub, rfl⟩
  | star => exact ⟨.mul, rfl⟩
  | slash => exact ⟨.div, rfl⟩
  | percent => exact ⟨.mod, rfl⟩

/-- A sign is read as a sign where an operand is expected. -/
theorem Reached.read_sign (surrounds : Surrounds levels base floor before)
    (waiting : Waiting operators operands tokens)
    (opens : previous.endsOperand = false) {symbol : Symbol} {q : Parser}
    (read : Parser.operate
      ⟨previous, operators ++ base, operands ++ floor, levels⟩ symbol = .ok q) :
    Reached q (before ++ tokens ++ [.op symbol]) := by
  obtain ⟨op, found, read⟩ := bind_ok_iff.mp read
  obtain ⟨sign, same, rfl⟩ := Pending.ofSymbol_opens opens found
  subst same
  rw [reduceWhile_stop _ fun top _ _ _ => Pending.yieldsTo_unary sign top] at read
  cases read
  rw [List.append_assoc]
  exact .waiting surrounds (.sign sign waiting) rfl

/-- An operation is read as such behind an operand. -/
theorem Reached.read_operation (surrounds : Surrounds levels base floor before)
    (waiting : Waiting operators operands tokens)
    (derives : Derives (.primary e) more)
    (ends : previous.endsOperand = true) {symbol : Symbol} {q : Parser}
    (read : Parser.operate
      ⟨previous, operators ++ base, e :: (operands ++ floor), levels⟩ symbol =
        .ok q) :
    Reached q (before ++ tokens ++ more ++ [.op symbol]) := by
  obtain ⟨op, rfl⟩ := BinaryOp.exists_symbol symbol
  rw [Parser.operate, Pending.ofSymbol_binary ends] at read
  simp only [bind, Except.bind, surrounds.marks] at read
  cases joins : op.joinsTerms with
  | true =>
    -- an operation on terms ends the expression in front of it
    have yields : ∀ top, 2 ≤ top.precedence →
        (Pending.binary op).yieldsTo top = true := fun top tight => by
      rw [Pending.yieldsTo_binary, Pending.precedence_summand joins]
      exact decide_eq_true tight
    obtain ⟨e', derives', reduced⟩ :=
      waiting.apply_all (.primary derives) yields base floor
    rw [reduced] at read
    cases read
    have waiting' := Waiting.summand joins derives'
    rw [List.append_assoc before, List.append_assoc before]
    exact .waiting surrounds waiting' rfl
  | false =>
    -- an operation on factors ends the term in front of it
    have yields : ∀ top, (Pending.binary op).yieldsTo top =
        decide (3 ≤ top.precedence) := fun top => by
      rw [Pending.yieldsTo_binary, Pending.precedence_factor joins]
    obtain ⟨operators', operands', tokens', e', more', waiting', loose,
      derives', same, reduced⟩ := waiting.apply_factors (.primary derives)
        (fun top tight => (yields top).trans (decide_eq_true tight)) base floor
    rw [reduced, reduceWhile_stop] at read
    · cases read
      rw [List.append_assoc before, ← same, List.append_assoc before]
      exact .waiting surrounds (.factor joins waiting' loose derives') rfl
    · intro top below same above
      rw [yields, decide_eq_false_iff_not, Nat.not_le]
      cases operators' with
      | nil =>
        rw [List.nil_append] at same
        subst same
        exact absurd above (by simp [Marks.over])
      | cons first others =>
        cases same
        exact loose_cons.mp loose

/-- A closing parenthesis makes an operand of what it closes. -/
theorem Reached.read_close (surrounds : Surrounds levels base floor before)
    (waiting : Waiting operators operands tokens)
    (derives : Derives (.primary e) more) {q : Parser}
    (read : Parser.close
      ⟨previous, operators ++ base, e :: (operands ++ floor), levels⟩ =
        .ok q) :
    Reached q (before ++ tokens ++ more ++ [.right]) := by
  obtain ⟨e', derives', concluded⟩ :=
    conclude_complete surrounds waiting derives previous
  have ends : TokenKind.right.endsOperand = true := rfl
  unfold Parser.close at read
  cases surrounds with
  | outside => cases read
  | group surrounds waiting' =>
    simp only [concluded, bind, Except.bind] at read
    cases read
    have whole := Reached.complete surrounds waiting' (.group derives') ends
    exact whole.congr (by simp)
  | call function surrounds waiting' listed =>
    simp only [concluded, bind, Except.bind] at read
    cases read
    have whole := Reached.complete surrounds waiting'
      (.call function (listed.further derives')) ends
    exact whole.congr (by simp)

/-- A comma ends an argument. -/
theorem Reached.read_comma (surrounds : Surrounds levels base floor before)
    (waiting : Waiting operators operands tokens)
    (derives : Derives (.primary e) more) {q : Parser}
    (read : Parser.separate
      ⟨previous, operators ++ base, e :: (operands ++ floor), levels⟩ =
        .ok q) :
    Reached q (before ++ tokens ++ more ++ [.comma]) := by
  obtain ⟨e', derives', concluded⟩ :=
    conclude_complete surrounds waiting derives previous
  unfold Parser.separate at read
  cases surrounds with
  | outside => cases read
  | group _ _ =>
    simp only [concluded, bind, Except.bind] at read
    cases read
  | call function surrounds waiting' listed =>
    simp only [concluded, bind, Except.bind] at read
    cases read
    have inside := Surrounds.call function surrounds waiting'
      (.some (listed.further derives'))
    have opens : TokenKind.comma.endsOperand = false := rfl
    have whole := Reached.waiting inside .nothing opens
    exact whole.congr (by simp)

/-- Neither ends a level where an operand is expected. -/
theorem close_waiting (surrounds : Surrounds levels base floor before)
    (waiting : Waiting operators operands tokens) (q : Parser) :
    Parser.close ⟨previous, operators ++ base, operands ++ floor, levels⟩ ≠
      .ok q ∧
    Parser.separate ⟨previous, operators ++ base, operands ++ floor, levels⟩ ≠
      .ok q := by
  have unfinished := conclude_waiting surrounds waiting previous
  unfold Parser.close Parser.separate
  cases levels with
  | nil => exact ⟨nofun, nofun⟩
  | cons level outer =>
    constructor
    · intro closed
      obtain ⟨ended, concluded, -⟩ := bind_ok_iff.mp closed
      exact unfinished ended concluded
    · intro separated
      obtain ⟨ended, concluded, -⟩ := bind_ok_iff.mp separated
      exact unfinished ended concluded

end

/-- Every word that stands apart from the operand before it keeps the state
of the parser what the tokens make it. -/
theorem Reached.read {p q : Parser} {tokens : List Token} {w : Word}
    (reached : Reached p tokens)
    (apart : p.previous.endsOperand = true → w.beginsOperand = false)
    (read : p.read w = .ok q) : Reached q (tokens ++ w.tokens) := by
  have left : TokenKind.left.endsOperand = false := rfl
  cases reached with
  | waiting surrounds waiting opens =>
    match w with
    | .opening function =>
      cases read
      have inside := Surrounds.call function surrounds waiting .none
      have whole := Reached.waiting inside .nothing left
      exact whole.congr (by simp [Word.tokens])
    | .token (.number value) =>
      cases read
      exact .complete surrounds waiting (.number value) rfl
    | .token (.identifier name) =>
      cases read
      exact .complete surrounds waiting (.name name) rfl
    | .token .left =>
      cases read
      have inside := Surrounds.group surrounds waiting
      have whole := Reached.waiting inside .nothing left
      exact whole.congr (by simp [Word.tokens])
    | .token (.op symbol) => exact read_sign surrounds waiting opens read
    | .token .right => exact absurd read (close_waiting surrounds waiting q).1
    | .token .comma => exact absurd read (close_waiting surrounds waiting q).2
  | complete surrounds waiting derives ends =>
    match w with
    | .token (.op symbol) =>
      exact read_operation surrounds waiting derives ends read
    | .token .right => exact read_close surrounds waiting derives read
    | .token .comma => exact read_comma surrounds waiting derives read
    | .opening _ | .token (.number _) | .token (.identifier _)
    | .token .left => cases apart ends

/-! ## Texts -/

/-- The parser remembers the kind of the last token. -/
theorem Parser.previous_of_read {p q : Parser} {w : Word}
    (read : p.read w = .ok q) : q.previous = w.kind := by
  match w with
  | .opening _ | .token (.number _) | .token (.identifier _) | .token .left =>
    cases read
    rfl
  | .token (.op symbol) =>
    obtain ⟨op, -, read⟩ := bind_ok_iff.mp (show p.operate symbol = .ok q from read)
    obtain ⟨both, -, read⟩ := bind_ok_iff.mp read
    cases read
    rfl
  | .token .right =>
    have closed : p.close = .ok q := read
    unfold close at closed
    split at closed
    · cases closed
    · obtain ⟨ended, -, closed⟩ := bind_ok_iff.mp closed
      simp only at closed
      split at closed <;>
      · cases closed
        rfl
  | .token .comma =>
    have separated : p.separate = .ok q := read
    unfold separate at separated
    split at separated
    · cases separated
    · obtain ⟨ended, -, separated⟩ := bind_ok_iff.mp separated
      simp only at separated
      split at separated
      · cases separated
      · cases separated
        rfl

/-- Words of which none begins an operand right behind another, after a
token of some kind. -/
def Spaced : TokenKind → List Word → Prop
  | _, [] => True
  | previous, w :: rest =>
    (previous.endsOperand = true → w.beginsOperand = false) ∧
      Spaced w.kind rest

theorem spaced_of_separated {tokens : List Token} (separated : Separated tokens)
    {previous : TokenKind}
    (apart : ∀ t ∈ tokens.head?, previous.endsOperand = true →
      t.beginsOperand = false) :
    Spaced previous (words tokens) := by
  fun_induction words tokens generalizing previous with
  | case1 function rest ih =>
    refine ⟨fun ends => ?_, ih separated.tail.tail fun _ _ ends => ?_⟩
    · cases apart _ rfl ends
    · cases ends
  | case2 t rest other ih =>
    refine ⟨apart t rfl, ih separated.tail fun next found ends => ?_⟩
    -- a name in front of a parenthesis would have been one word with it
    obtain ⟨rest', rfl⟩ := List.head?_eq_some_iff.mp (Option.mem_def.mp found)
    have notAbut := (List.isChain_cons_cons.mp separated).1
    cases begins : next.beginsOperand with
    | false => rfl
    | true =>
      refine absurd ⟨ends, begins, ?_⟩ notAbut
      rintro ⟨isName, rfl⟩
      cases t with
      | identifier function => exact other function rest' rfl rfl
      | number | op | left | right | comma => cases isName
  | case3 => trivial

/-- Words that stand apart lead to what their tokens make of the parser. -/
theorem Reached.readAll {p q : Parser} {tokens : List Token} {ws : List Word}
    (reached : Reached p tokens) (spaced : Spaced p.previous ws)
    (read : p.readAll ws = .ok q) : Reached q (tokens ++ ws.flatMap Word.tokens) := by
  induction ws generalizing p tokens with
  | nil =>
    cases read
    rwa [List.flatMap_nil, List.append_nil]
  | cons w rest ih =>
    obtain ⟨next, first, read⟩ := bind_ok_iff.mp read
    have spaced' : Spaced next.previous rest := by
      rw [Parser.previous_of_read first]
      exact spaced.2
    rw [List.flatMap_cons, ← List.append_assoc]
    exact ih (reached.read spaced.1 first) spaced' read

/-- A text ends with the expression that its tokens derive. -/
theorem Reached.finish {p : Parser} {tokens : List Token} {tree : Expr}
    (reached : Reached p tokens) (finished : p.finish = .ok tree) :
    Derives (.expression tree) tokens := by
  obtain ⟨ended, concluded, finished⟩ := bind_ok_iff.mp finished
  cases reached with
  | waiting surrounds waiting opens =>
    exact absurd concluded (conclude_waiting surrounds waiting _ ended)
  | complete surrounds waiting derives ends =>
    obtain ⟨e', derives', concluded'⟩ :=
      conclude_complete surrounds waiting derives _
    cases concluded'.symm.trans concluded
    cases surrounds with
    | outside =>
      cases finished
      rwa [List.nil_append]
    | group | call => cases finished

/-- **What is read is in the grammar, if its operands stand apart.** A text
that is read consists of tokens up to its end, and they derive the
expression that was read exactly if no operand stands right behind
another. -/
theorem derives_iff_separated {text : String} {tree : Expr}
    (accepted : parse text = .ok (some tree)) :
    Tokenized text ∧
      (Derives (.expression tree) (tokens text) ↔ Separated (tokens text)) := by
  obtain ⟨tokenized, last, read, finished⟩ := parse_ok_iff.mp accepted
  refine ⟨tokenized, Derives.separated, fun separated => ?_⟩
  have start : Reached .start [] := .waiting .outside .nothing rfl
  have spaced : Spaced .finish (words (tokens text)) :=
    spaced_of_separated separated nofun
  have reached := start.readAll spaced read
  rw [List.nil_append, flatMap_words] at reached
  exact reached.finish finished

theorem derives_iff_separated_sum :
    let tree : Expr := .binary .add (.constant 2.0) (.constant 3.0)
    parse "2 + 3" = .ok (some tree) ∧
      Derives (.expression tree) (tokens "2 + 3") := by
  intro tree
  have accepted : parse "2 + 3" = .ok (some tree) := by
    with_unfolding_all rfl
  have read : tokens "2 + 3" = [.number 2.0, .op .plus, .number 3.0] := by
    decide +kernel
  refine ⟨accepted, (derives_iff_separated accepted).2.mpr ?_⟩
  rw [read]
  exact separated_append_cons (separated_singleton _) rfl
    (separated_cons rfl (separated_singleton _))

/-- An operator joins operands that stand side by side in front of it, which
the grammar does not derive. -/
theorem parse_operator_behind :
    let tree : Expr := .binary .add (.constant 2.0) (.constant 3.0)
    parse "2 3 +" = .ok (some tree) ∧
      ¬ ∃ phrase, Derives phrase (tokens "2 3 +") := by
  intro tree
  have read : tokens "2 3 +" = [.number 2.0, .number 3.0, .op .plus] := by
    decide +kernel
  refine ⟨by with_unfolding_all rfl, ?_⟩
  rintro ⟨phrase, derives⟩
  have separated := derives.separated
  rw [read] at separated
  exact (List.isChain_cons_cons.mp separated).1 ⟨rfl, rfl, nofun⟩

end FieldMesh.Formula
