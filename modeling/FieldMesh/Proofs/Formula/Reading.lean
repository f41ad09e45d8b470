import FieldMesh.Proofs.Formula.Grammar

/-!
# The whole grammar is read

Every text that can be derived in the grammar is read, as the expression
that the derivation gives it.

* **applying operators**: what `reduceWhile` does to the operators on top
  (`reduceWhile_unary`, `reduceWhile_binary`) and where it ends
  (`reduceWhile_stop`);
* **phrases**: behind a phrase of the grammar some of its operators can still
  be pending. They bind tight enough to be applied before anything that can
  follow the phrase, and then the phrase is one operand on top of what was
  there before it (`Carries`). By induction on derivations this holds of
  every phrase (`Parser.understood_of_derives`);
* **texts**: the whole text is a phrase without anything before it.
-/

namespace FieldMesh.Formula

/-! ## Operators -/

theorem Pending.precedence_summand {op : BinaryOp}
    (joins : op.joinsTerms = true) : (Pending.binary op).precedence = 2 := by
  cases op <;> first | rfl | cases joins

theorem Pending.precedence_factor {op : BinaryOp}
    (joins : op.joinsTerms = false) : (Pending.binary op).precedence = 3 := by
  cases op <;> first | rfl | cases joins

/-- Binary operations are applied before one that binds no tighter. -/
theorem Pending.yieldsTo_binary (op : BinaryOp) (top : Pending) :
    (Pending.binary op).yieldsTo top =
      decide ((Pending.binary op).precedence ≤ top.precedence) := by
  rw [yieldsTo, Bool.eq_iff_iff, Bool.or_eq_true, decide_eq_true_eq,
    decide_eq_true_eq, beq_iff_eq]
  omega

/-- Nothing is applied before a sign. -/
theorem Pending.yieldsTo_unary (op : UnaryOp) (top : Pending) :
    (Pending.unary op).yieldsTo top = false := by
  have most : top.precedence ≤ 2000 := by
    cases top with
    | unary op => exact Nat.le_refl _
    | binary op => cases op <;> decide
  rw [yieldsTo, Bool.or_false]
  exact decide_eq_false (Nat.not_lt.mpr most)

theorem Pending.ofSymbol_unary {previous : TokenKind}
    (opens : previous.endsOperand = false) (op : UnaryOp) :
    ofSymbol previous op.symbol = .ok (.unary op) := by
  cases previous with
  | finish | op | left | comma => cases op <;> rfl
  | number | identifier | right => cases opens

theorem Pending.ofSymbol_binary {previous : TokenKind}
    (ends : previous.endsOperand = true) (op : BinaryOp) :
    ofSymbol previous op.symbol = .ok (.binary op) := by
  cases previous with
  | number | identifier | right => cases op <;> rfl
  | finish | op | left | comma => cases ends

/-! ## Applying operators -/

section

variable {yield : Pending → Bool} {marks : Marks} {below : List Pending}
  {rest : List Expr}

/-- An operator that does not yield ends the applying, and so does the mark
of the level. -/
theorem reduceWhile_stop {operators : List Pending} (operands : List Expr)
    (stops : ∀ op below, operators = op :: below →
      marks.operators ≤ below.length → yield op = false) :
    reduceWhile yield marks operators operands = .ok (operators, operands) := by
  cases operators with
  | nil => rfl
  | cons op below =>
    rw [reduceWhile, if_neg]
    rw [Bool.and_eq_true, decide_eq_true_eq]
    rintro ⟨above, yields⟩
    rw [stops op below rfl above] at yields
    cases yields

theorem popOperand_ok (op : Pending) (e : Expr) {mark : Nat}
    (enough : mark ≤ rest.length) :
    popOperand mark op (e :: rest) = .ok (e, rest) :=
  if_neg (Nat.not_lt.mpr enough)

/-- A sign is applied to the operand on top. -/
theorem reduceWhile_unary {op : UnaryOp} {e : Expr}
    (yields : yield (.unary op) = true)
    (above : marks.operators ≤ below.length)
    (enough : marks.operands ≤ rest.length) :
    reduceWhile yield marks (.unary op :: below) (e :: rest) =
      reduceWhile yield marks below (.unary op e :: rest) := by
  rw [reduceWhile, if_pos (by simpa using ⟨above, yields⟩), reduce,
    popOperand_ok _ e enough]
  rfl

/-- A binary operation is applied to the two operands on top, the lower of
which is the left one. -/
theorem reduceWhile_binary {op : BinaryOp} {a b : Expr}
    (yields : yield (.binary op) = true)
    (above : marks.operators ≤ below.length)
    (enough : marks.operands ≤ rest.length) :
    reduceWhile yield marks (.binary op :: below) (b :: a :: rest) =
      reduceWhile yield marks below (.binary op a b :: rest) := by
  have two : marks.operands ≤ (a :: rest).length :=
    Nat.le_succ_of_le enough
  have reduced : reduce marks.operands (.binary op) (b :: a :: rest) =
      .ok (.binary op a b :: rest) := by
    rw [reduce, popOperand_ok _ b two]
    simp only [bind, Except.bind, popOperand_ok _ a enough]
    rfl
  rw [reduceWhile, if_pos (by simpa using ⟨above, yields⟩), reduced]
  rfl

end

namespace Parser

theorem marks_congr {p q : Parser} (levels : q.levels = p.levels) :
    q.marks = p.marks := by
  rw [marks, marks, levels]

/-- A level is concluded with the one operand that is left above its mark. -/
theorem conclude_eq {p : Parser} {operators : List Pending} {e : Expr}
    {rest : List Expr}
    (reduced : reduceWhile (fun _ => true) p.marks p.operators p.operands =
      .ok (operators, e :: rest))
    (mark : p.marks.operands = rest.length) :
    p.conclude = .ok (e, { p with operators, operands := rest }) := by
  rw [conclude, reduced]
  simp only [bind, Except.bind, mark, Nat.lt_irrefl, if_false]

/-! ## What a phrase leaves behind -/

/-- An operand is expected, and the marks of the level lie within the
stacks. -/
structure Expects (p : Parser) : Prop where
  opens : p.previous.endsOperand = false
  operators : p.marks.operators ≤ p.operators.length
  operands : p.marks.operands ≤ p.operands.length

/-- No operator of the level that is pending binds as tight as `bound`. -/
def Clear (bound : Nat) (p : Parser) : Prop :=
  ∀ op below, p.operators = op :: below → p.marks.operators ≤ below.length →
    op.precedence < bound

/-- Nothing of the level has been read. -/
def Fresh (p : Parser) : Prop :=
  p.marks = ⟨p.operators.length, p.operands.length⟩

theorem Fresh.expects {p : Parser} (fresh : p.Fresh)
    (opens : p.previous.endsOperand = false) : p.Expects :=
  ⟨opens, by rw [fresh], by rw [fresh]⟩

theorem Fresh.clear {p : Parser} (fresh : p.Fresh) (bound : Nat) :
    p.Clear bound := by
  intro op below same above
  rw [fresh, same] at above
  exact absurd above (by simp)

theorem fresh_descend (p : Parser) (kind : TokenKind) (opening : Opening) :
    (p.descend kind opening).Fresh := rfl

/-- `Carries bound before e after`: between the two states a phrase for `e`
was read. Where all operators are applied that bind at least as tight as
`bound`, it is an operand on top of what was there before. -/
structure Carries (bound : Nat) (before : Parser) (e : Expr)
    (after : Parser) : Prop where
  levels : after.levels = before.levels
  ends : after.previous.endsOperand = true
  reduced : ∀ yield : Pending → Bool,
    (∀ op, bound ≤ op.precedence → yield op = true) →
    reduceWhile yield before.marks after.operators after.operands =
      reduceWhile yield before.marks before.operators (e :: before.operands)

namespace Carries

variable {bound : Nat} {before after : Parser} {e : Expr}

theorem mono {looser : Nat} (carries : Carries bound before e after)
    (le : looser ≤ bound) : Carries looser before e after where
  levels := carries.levels
  ends := carries.ends
  reduced yield yields :=
    carries.reduced yield fun op tight => yields op (Nat.le_trans le tight)

theorem push {kind : TokenKind} (ends : kind.endsOperand = true) (p : Parser)
    (bound : Nat) (e : Expr) : Carries bound p e (p.push kind e) :=
  ⟨rfl, ends, fun _ _ => rfl⟩

/-- The state behind a sign. -/
theorem sign {p : Parser} {op : UnaryOp} (expects : p.Expects)
    (carries : Carries 2000
      { p with previous := .op, operators := .unary op :: p.operators } e after) :
    Carries 2000 p (.unary op e) after where
  levels := carries.levels
  ends := carries.ends
  reduced yield yields := by
    rw [← reduceWhile_unary (yields (.unary op) (Nat.le_refl _))
      expects.operators expects.operands]
    exact carries.reduced yield yields

/-- The state behind an operation and its second operand. -/
theorem join {p q : Parser} {a b : Expr} {op : BinaryOp} (expects : p.Expects)
    (same : q.levels = p.levels)
    (tighter : (Pending.binary op).precedence ≤ bound)
    (carries : Carries bound
      { q with
        previous := .op
        operators := .binary op :: p.operators
        operands := a :: p.operands } b after) :
    Carries (Pending.binary op).precedence p (.binary op a b) after where
  levels := carries.levels.trans same
  ends := carries.ends
  reduced yield yields := by
    rw [← reduceWhile_binary (yields _ (Nat.le_refl _)) expects.operators
      expects.operands]
    have marks := marks_congr (p := p) (q :=
      { q with
        previous := .op
        operators := .binary op :: p.operators
        operands := a :: p.operands }) same
    rw [← marks]
    exact carries.reduced yield fun op' tight =>
      yields op' (Nat.le_trans tighter tight)

/-- The phrase in front of an operation becomes its first operand. -/
theorem operate {op : BinaryOp}
    (carries : Carries (Pending.binary op).precedence before e after)
    (clear : before.Clear (Pending.binary op).precedence) :
    after.operate op.symbol = .ok
      { after with
        previous := .op
        operators := .binary op :: before.operators
        operands := e :: before.operands } := by
  have first : reduceWhile (Pending.binary op).yieldsTo after.marks
      after.operators after.operands =
      .ok (before.operators, e :: before.operands) := by
    rw [marks_congr carries.levels, carries.reduced]
    · refine reduceWhile_stop _ fun top below same above => ?_
      rw [Pending.yieldsTo_binary, decide_eq_false_iff_not, Nat.not_le]
      exact clear top below same above
    · intro top tight
      rw [Pending.yieldsTo_binary, decide_eq_true tight]
  rw [Parser.operate, Pending.ofSymbol_binary carries.ends]
  show reduceWhile _ _ _ _ >>= _ = _
  rw [first]
  rfl

/-- A level that holds one expression is concluded with it. -/
theorem conclude (carries : Carries 2 before e after) (fresh : before.Fresh) :
    after.conclude = .ok (e,
      { after with
        operators := before.operators
        operands := before.operands }) := by
  have first : reduceWhile (fun _ => true) after.marks after.operators
      after.operands = .ok (before.operators, e :: before.operands) := by
    rw [marks_congr carries.levels, carries.reduced _ fun _ _ => rfl]
    refine reduceWhile_stop _ fun top below same above => ?_
    exact absurd (fresh.clear 0 top below same above) (Nat.not_lt_zero _)
  refine conclude_eq first ?_
  rw [marks_congr carries.levels, fresh]

/-- The state behind an operand in parentheses. -/
theorem close_group {p : Parser} {kind : TokenKind}
    (carries : Carries 2 (p.descend kind .group) e after) :
    after.close = .ok (p.push .right e) := by
  rw [close, carries.levels]
  show after.conclude >>= _ = _
  rw [carries.conclude (fresh_descend ..)]
  rfl

/-- The state behind the last argument of a call, or behind all of them. -/
theorem argument {p : Parser} {kind : TokenKind} {function : String}
    {done : List Expr}
    (carries : Carries 2 (p.descend kind (.call function done)) e after) :
    after.close = .ok (p.push .right (.call function (done ++ [e]))) ∧
      after.separate =
        .ok (p.descend .comma (.call function (done ++ [e]))) := by
  constructor
  · rw [close, carries.levels]
    show after.conclude >>= _ = _
    rw [carries.conclude (fresh_descend ..)]
    rfl
  · rw [separate, carries.levels]
    show after.conclude >>= _ = _
    rw [carries.conclude (fresh_descend ..)]
    rfl

end Carries

/-- A binary operation leaves a state that expects its second operand. -/
theorem Expects.binary {p q : Parser} (expects : p.Expects)
    (same : q.levels = p.levels) (op : BinaryOp) (a : Expr) :
    Expects { q with
      previous := .op
      operators := .binary op :: p.operators
      operands := a :: p.operands } := by
  have marks := marks_congr (p := p) (q :=
    { q with
      previous := .op
      operators := .binary op :: p.operators
      operands := a :: p.operands }) same
  refine ⟨rfl, ?_, ?_⟩
  · rw [marks]
    exact Nat.le_succ_of_le expects.operators
  · rw [marks]
    exact Nat.le_succ_of_le expects.operands

/-- So does a sign. -/
theorem Expects.sign {p : Parser} (expects : p.Expects) (op : UnaryOp) :
    Expects { p with previous := .op, operators := .unary op :: p.operators } :=
  ⟨rfl, Nat.le_succ_of_le expects.operators, expects.operands⟩

/-- A sign is read where an operand is expected. -/
theorem Expects.read_sign {p : Parser} (expects : p.Expects) (op : UnaryOp) :
    p.read (.token (.op op.symbol)) = .ok
      { p with previous := .op, operators := .unary op :: p.operators } := by
  show p.operate _ = _
  rw [operate, Pending.ofSymbol_unary expects.opens]
  show reduceWhile _ _ _ _ >>= _ = _
  rw [reduceWhile_stop _ fun top _ _ _ => Pending.yieldsTo_unary op top]
  rfl

/-- An operation is read between two phrases if the second one can be read
where nothing is pending that binds tighter than the operation. -/
theorem Carries.operation {p q : Parser} {a b : Expr} {op : BinaryOp}
    {bound : Nat} {first second : List Token} (expects : p.Expects)
    (clear : p.Clear (Pending.binary op).precedence)
    (read : p.readAll (words first) = .ok q)
    (carries : Carries (Pending.binary op).precedence p a q)
    (tighter : (Pending.binary op).precedence ≤ bound)
    (more : ∀ p' : Parser, p'.Expects →
      p'.Clear ((Pending.binary op).precedence + 1) →
      ∃ r, p'.readAll (words second) = .ok r ∧ Carries bound p' b r) :
    ∃ r, p.readAll (words (first ++ .op op.symbol :: second)) = .ok r ∧
      Carries (Pending.binary op).precedence p (.binary op a b) r := by
  -- the operation itself is what is pending in front of the second phrase
  obtain ⟨r, readMore, carriesMore⟩ := more _
    (expects.binary carries.levels op a) fun top below same _ => by
      cases same
      exact Nat.lt_succ_self _
  refine ⟨r, ?_, carriesMore.join expects carries.levels tighter⟩
  rw [words_append_cons rfl, readAll_append read,
    readAll_cons (w := .token (.op _)) (carries.operate clear), readMore]

/-! ## Phrases -/

/-- What it is for the parser to read a phrase from its tokens, wherever the
phrase can stand. -/
def Understood : Phrase → List Token → Prop
  | .primary e, tokens => ∀ p : Parser, p.Expects →
    ∃ kind : TokenKind, kind.endsOperand = true ∧
      p.readAll (words tokens) = .ok (p.push kind e)
  | .unary e, tokens => ∀ p : Parser, p.Expects →
    ∃ q, p.readAll (words tokens) = .ok q ∧ Carries 2000 p e q
  | .term e, tokens => ∀ p : Parser, p.Expects → p.Clear 3 →
    ∃ q, p.readAll (words tokens) = .ok q ∧ Carries 3 p e q
  | .expression e, tokens => ∀ p : Parser, p.Expects → p.Clear 2 →
    ∃ q, p.readAll (words tokens) = .ok q ∧ Carries 2 p e q
  | .arguments es, tokens => ∀ (p : Parser) (kind : TokenKind)
      (function : String) (done : List Expr), kind.endsOperand = false →
    ∃ q, (p.descend kind (.call function done)).readAll (words tokens) = .ok q ∧
      q.close = .ok (p.push .right (.call function (done ++ es))) ∧
      q.separate = .ok (p.descend .comma (.call function (done ++ es)))

/-- The parser reads every phrase that the grammar derives. -/
theorem understood_of_derives {phrase : Phrase} {tokens : List Token}
    (derives : Derives phrase tokens) : Understood phrase tokens := by
  -- over the derivation, for every state in which the phrase can stand
  induction derives with
  | number value => exact fun p _ => ⟨.number, rfl, rfl⟩
  | name name => exact fun p _ => ⟨.identifier, rfl, rfl⟩
  | call function _ ih =>
    intro p _
    obtain ⟨q, read, closed, -⟩ := ih p .left function [] rfl
    refine ⟨.right, rfl, ?_⟩
    rw [words, words_append_cons rfl, readAll_cons rfl, readAll_append read,
      readAll_cons (w := .token .right) closed]
    rfl
  | group _ ih =>
    intro p _
    have fresh := fresh_descend p .left .group
    obtain ⟨q, read, carries⟩ := ih _ (fresh.expects rfl) (fresh.clear 2)
    refine ⟨.right, rfl, ?_⟩
    rw [words_left, words_append_cons rfl, readAll_cons rfl,
      readAll_append read, readAll_cons (w := .token .right) carries.close_group]
    rfl
  | primary _ ih =>
    intro p expects
    obtain ⟨kind, ends, read⟩ := ih p expects
    exact ⟨_, read, .push ends p 2000 _⟩
  | sign op _ ih =>
    intro p expects
    obtain ⟨q, read, carries⟩ := ih _ (expects.sign op)
    refine ⟨q, ?_, carries.sign expects⟩
    rw [words_op, readAll_cons (expects.read_sign op), read]
  | unary _ ih =>
    intro p expects _
    obtain ⟨q, read, carries⟩ := ih p expects
    exact ⟨q, read, carries.mono (by decide)⟩
  | factor joins _ _ ihFirst ihSecond =>
    intro p expects clear
    obtain ⟨q, read, carries⟩ := ihFirst p expects clear
    have precedence := Pending.precedence_factor joins
    rw [← precedence] at carries clear ⊢
    refine Carries.operation expects clear read carries ?_
      fun p' expects' _ => ihSecond p' expects'
    rw [precedence]
    decide
  | term _ ih =>
    intro p expects clear
    obtain ⟨q, read, carries⟩ := ih p expects fun op below same above =>
      Nat.lt_succ_of_lt (clear op below same above)
    exact ⟨q, read, carries.mono (by decide)⟩
  | summand joins _ _ ihFirst ihSecond =>
    intro p expects clear
    obtain ⟨q, read, carries⟩ := ihFirst p expects clear
    have precedence := Pending.precedence_summand joins
    rw [← precedence] at carries clear ⊢
    refine Carries.operation expects clear read carries (Nat.le_succ _) ?_
    rw [precedence]
    exact ihSecond
  | argument _ ih =>
    intro p kind function done opens
    have fresh := fresh_descend p kind (.call function done)
    obtain ⟨q, read, carries⟩ := ih _ (fresh.expects opens) (fresh.clear 2)
    exact ⟨q, read, carries.argument⟩
  | @further es e _ _ _ _ ihArguments ih =>
    intro p kind function done opens
    obtain ⟨q, read, -, separated⟩ := ihArguments p kind function done opens
    have fresh := fresh_descend p .comma (.call function (done ++ es))
    obtain ⟨r, readMore, carries⟩ := ih _ (fresh.expects rfl) (fresh.clear 2)
    refine ⟨r, ?_, ?_⟩
    · rw [words_append_cons rfl, readAll_append read,
        readAll_cons (w := .token .comma) separated, readMore]
    · rw [← List.append_assoc]
      exact carries.argument

end Parser

/-! ## Texts -/

/-- What a text is read as is decided by its words, if it has no malformed
number. -/
theorem parse_ok_iff {text : String} {tree : Expr} :
    parse text = .ok (some tree) ↔ Tokenized text ∧
      ∃ last, Parser.start.readAll (words (tokens text)) = .ok last ∧
        last.finish = .ok tree := by
  have map_some : ∀ result : Except ParseError Expr,
      result.map some = .ok (some tree) ↔ result = .ok tree := by
    rintro (e | e)
    · exact ⟨nofun, nofun⟩
    · exact ⟨fun | rfl => rfl, fun | rfl => rfl⟩
  unfold parse Tokenized tokens
  obtain ⟨lexemes, ending⟩ := lex text
  split
  · next length same =>
    cases same
    constructor
    · nofun
    · rintro ⟨-, last, ⟨⟩, finished⟩
      cases finished
  · next lexemes ending' _ same =>
    cases same
    rw [map_some]
    cases ending with
    | error e =>
      constructor
      · exact fun read => absurd read (Parser.run_error _ _ _)
      · rintro ⟨⟨length, ⟨⟩⟩, -⟩
    | ok length =>
      rw [Parser.run_ok_iff]
      exact ⟨fun read => ⟨⟨length, rfl⟩, read⟩, And.right⟩

theorem Parser.Carries.finish {e : Expr} {after : Parser}
    (carries : Carries 2 start e after) : after.finish = .ok e := by
  have levels : after.levels = [] := carries.levels
  rw [Parser.finish, carries.conclude rfl]
  simp only [bind, Except.bind, levels]
  rfl

/-- **The whole grammar is read.** A text whose tokens can be derived as an
expression is read as that expression. -/
theorem parse_of_derives {text : String} {tree : Expr}
    (tokenized : Tokenized text)
    (derives : Derives (.expression tree) (tokens text)) :
    parse text = .ok (some tree) := by
  have fresh : Parser.start.Fresh := rfl
  obtain ⟨last, read, carries⟩ :=
    Parser.understood_of_derives derives .start (fresh.expects rfl) (fresh.clear 2)
  exact parse_ok_iff.mpr ⟨tokenized, last, read, carries.finish⟩

/-- Signs before products before sums, from left to right, and arguments in
their order. -/
theorem parse_of_derives_mixed :
    let tree : Expr := .binary .sub
      (.binary .sub (.reference "a")
        (.binary .mul (.unary .minus (.reference "b")) (.reference "c")))
      (.call "max" [.reference "d", .unary .minus (.reference "e")])
    Tokenized "a - -b * ((c)) - Max(d, -e)" ∧
      Derives (.expression tree) (tokens "a - -b * ((c)) - Max(d, -e)") ∧
      parse "a - -b * ((c)) - Max(d, -e)" = .ok (some tree) := by
  intro tree
  have read : tokens "a - -b * ((c)) - Max(d, -e)" =
      [.identifier "a", .op .minus, .op .minus, .identifier "b", .op .star,
        .left, .left, .identifier "c", .right, .right, .op .minus,
        .identifier "max", .left, .identifier "d", .comma, .op .minus,
        .identifier "e", .right] := by
    decide +kernel
  have tokenized : Tokenized "a - -b * ((c)) - Max(d, -e)" := ⟨27, by decide +kernel⟩
  have name (n : String) : Derives (.unary (.reference n)) [.identifier n] :=
    .primary (.name n)
  have expression {e : Expr} {tokens : List Token}
      (derives : Derives (.unary e) tokens) : Derives (.expression e) tokens :=
    .term (.unary derives)
  have group := Derives.primary (.group (expression (.primary (.group
    (expression (name "c"))))))
  have product := Derives.factor (show BinaryOp.mul.joinsTerms = false from rfl)
    (.unary (.sign .minus (name "b"))) group
  have arguments := Derives.further (.argument (expression (name "d")))
    (expression (.sign .minus (name "e")))
  have derives : Derives (.expression tree)
      (tokens "a - -b * ((c)) - Max(d, -e)") := by
    rw [read]
    have joins : BinaryOp.sub.joinsTerms = true := rfl
    exact .summand joins
      (.summand joins (expression (name "a")) product)
      (.unary (.primary (.call "max" arguments)))
  exact ⟨tokenized, derives, parse_of_derives tokenized derives⟩

end FieldMesh.Formula
