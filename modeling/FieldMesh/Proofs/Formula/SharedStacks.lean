import FieldMesh.Proofs.Formula.Descent
import FieldMesh.Proofs.Formula.Grammar

/-!
# Levels on shared stacks

The parser keeps the levels that are open in its state, where the descent has a
call for each. Both read the same, and no level touches the entries of another.

* `Does`: a step changes the stacks, or fails, as `reduce`, `reduceWhile`,
  `Parser.operate` and `Parser.conclude` say;
* `Gives`: what a step leads to, once the rest is read. Reading an item does
  not change what the parser gives (`parseItems_gives`), and an expression that
  is read is the operand of its parenthesis (`parseUntil_gives`);
* **main result**: `parseUntil_keeps_stacks`.
-/

namespace FieldMesh.Formula.Descent

/-- The state of the parser, with the levels that are open. -/
def State.parser (s : State) (levels : List Level) : Parser :=
  ⟨s.previous, s.entries.operators, s.entries.operands, levels⟩

/-! ## Stacks -/

section

variable {ending : Except ParseError Nat} {α β : Type}

/-- At `s`, a step has the result that is said and leaves the stacks that are
said, and changes nothing else; or it fails as is said, at the current token. -/
def Does (ending : Except ParseError Nat) (x : Step α) (s : State) :
    Except ParseFault (α × Stacks) → Prop
  | .error fault => ∃ t, x s = some (.error ⟨fault, s.offset ending⟩, t)
  | .ok (a, entries) => ∃ history, x s = some (.ok a, { s with entries, history })

namespace Does

variable {x : Step α} {s : State}

theorem refuse (fault : ParseFault) : Does (α := α) ending (refuse ending fault) s (.error fault) :=
  ⟨s, rfl⟩

theorem pure (a : α) : Does ending (pure a) s (.ok (a, s.entries)) := ⟨s.history, rfl⟩

theorem push (operand : Expr) :
    Does ending (push operand) s
      (.ok ((), { s.entries with operands := operand :: s.entries.operands })) :=
  ⟨_, rfl⟩

theorem congr {y : Step α} {p : Except ParseFault (α × Stacks)} (same : x s = y s)
    (does : Does ending y s p) : Does ending x s p := by
  cases p with
  | error fault => exact does.imp fun _ => same.trans
  | ok changed => exact does.imp fun _ => same.trans

theorem ok_bind {f : α → Step β} {a : α} {entries : Stacks} {p : Except ParseFault (β × Stacks)}
    (does : Does ending x s (.ok (a, entries)))
    (goes : ∀ history, Does ending (f a) { s with entries, history } p) :
    Does ending (x >>= f) s p := by
  obtain ⟨history, ran⟩ := does
  have second := goes history
  cases p with
  | error fault => exact second.imp fun _ => (bind_ok ran).trans
  | ok changed => exact second.imp fun _ => (bind_ok ran).trans

/-- Two steps do what two computations say that follow each other. -/
theorem bind {γ δ : Type} {f : α → Step β} {first : Except ParseFault γ} {told : γ → α × Stacks}
    {next : γ → Except ParseFault δ} {told' : δ → β × Stacks}
    (does : Does ending x s (first.map told))
    (goes : ∀ c, first = .ok c → ∀ history,
      Does ending (f (told c).1) { s with entries := (told c).2, history } ((next c).map told')) :
    Does ending (x >>= f) s ((first >>= next).map told') := by
  cases first with
  | error fault =>
    obtain ⟨t, ran⟩ := does
    exact ⟨t, bind_error ran⟩
  | ok c => exact does.ok_bind (goes c rfl)

end Does

variable (ending)

theorem takeOperand_does (marks : Marks) (op : Pending) (s : State) :
    Does ending (takeOperand ending marks op) s
      ((popOperand marks.operands op s.entries.operands).map fun popped =>
        (popped.1, { s.entries with operands := popped.2 })) := by
  cases top : s.entries.operands with
  | nil =>
    exact .congr (takeOperand_short op (top ▸ Nat.zero_le _)) (.refuse _)
  | cons operand rest =>
    rw [popOperand]
    by_cases short : rest.length < marks.operands
    · rw [if_pos short]
      exact .congr (takeOperand_short op (top ▸ short)) (.refuse _)
    · rw [if_neg short]
      exact ⟨_, takeOperand_top op top (Nat.not_lt.mp short)⟩

theorem apply_does (marks : Marks) (op : Pending) (s : State) :
    Does ending (apply ending marks op) s
      ((reduce marks.operands op s.entries.operands).map fun operands =>
        ((), { s.entries with operands })) := by
  cases op with
  | unary unary =>
    refine (takeOperand_does ending marks (.unary unary) s).bind ?_
    rintro ⟨operand, rest⟩ - history
    exact .push _
  | binary binary =>
    refine (takeOperand_does ending marks (.binary binary) s).bind ?_
    rintro ⟨right, rest⟩ - history
    refine (takeOperand_does ending marks (.binary binary) { s with
      entries := { s.entries with operands := rest }
      history }).bind ?_
    rintro ⟨left, rest⟩ - history
    exact .push _

theorem dropOperator_does {s : State} {op : Pending} {low : List Pending}
    (top : s.entries.operators = op :: low) :
    Does ending dropOperator s (.ok ((), { s.entries with operators := low })) := by
  obtain ⟨previous, lexemes, ⟨operators, operands⟩, history⟩ := s
  obtain rfl : operators = op :: low := top
  exact ⟨_, rfl⟩

theorem applyRounds_does (yield : Pending → Bool) (marks : Marks) {rounds : Nat} (s : State)
    (enough : s.entries.operators.length ≤ rounds) :
    Does ending (applyRounds ending yield marks (rounds + 1)) s
      ((reduceWhile yield marks s.entries.operators s.entries.operands).map fun left =>
        ((), ⟨left.1, left.2⟩)) := by
  obtain ⟨previous, lexemes, ⟨operators, operands⟩, history⟩ := s
  induction operators generalizing operands history rounds with
  | nil => exact ⟨history, applyRounds_stop _ (by rintro _ _ ⟨⟩)⟩
  | cons op low ih =>
    rw [reduceWhile]
    by_cases applies : (decide (marks.operators ≤ low.length) && yield op) = true
    · rw [if_pos applies]
      rw [Bool.and_eq_true, decide_eq_true_eq] at applies
      refine .congr (applyRounds_step _ rfl applies.1 applies.2) ?_
      refine (dropOperator_does ending rfl).ok_bind fun history => ?_
      refine (apply_does ending marks op ⟨previous, lexemes, ⟨low, operands⟩, history⟩).bind ?_
      rintro operands' - history
      obtain ⟨rounds, rfl⟩ : ∃ fewer, rounds = fewer + 1 :=
        Nat.exists_eq_add_one_of_ne_zero (Nat.ne_zero_of_lt enough)
      exact ih history operands' (Nat.le_of_succ_le_succ enough)
    · rw [if_neg applies]
      refine ⟨history, applyRounds_stop _ ?_⟩
      rintro _ _ ⟨⟩ above
      rw [decide_eq_true above, Bool.true_and] at applies
      exact Bool.eq_false_iff.mpr applies

theorem applyWhile_does (yield : Pending → Bool) (marks : Marks) (s : State) :
    Does ending (applyWhile ending yield marks) s
      ((reduceWhile yield marks s.entries.operators s.entries.operands).map fun left =>
        ((), ⟨left.1, left.2⟩)) :=
  .congr rfl (applyRounds_does ending yield marks s (Nat.le_refl _))

theorem classify_does (symbol : Symbol) (s : State) :
    Does ending (classify ending symbol) s
      ((Pending.ofSymbol s.previous symbol).map fun op => (op, s.entries)) := by
  cases read : Pending.ofSymbol s.previous symbol with
  | error fault =>
    refine .congr ?_ (.refuse fault)
    rw [classify, get_bind, read]
  | ok op =>
    refine .congr ?_ (.pure op)
    rw [classify, get_bind, read]

theorem operate_does (symbol : Symbol) (levels : List Level) (s : State) :
    Does ending (operate ending (s.parser levels).marks symbol) s
      (((s.parser levels).operate symbol).map fun p => ((), ⟨p.operators, p.operands⟩)) := by
  refine (classify_does ending symbol s).bind ?_
  rintro op - history
  refine (applyWhile_does ending op.yieldsTo (s.parser levels).marks { s with history }).bind ?_
  rintro ⟨operators, operands⟩ - history
  exact ⟨_, rfl⟩

/-- `operate` of the parser leaves the levels alone. -/
theorem operate_eq_ok {p q : Parser} {symbol : Symbol} (operated : p.operate symbol = .ok q) :
    q = ⟨.op, q.operators, q.operands, p.levels⟩ := by
  obtain ⟨op, -, operated⟩ := bind_ok_iff.mp operated
  obtain ⟨⟨operators, operands⟩, -, operated⟩ := bind_ok_iff.mp operated
  cases operated
  rfl

theorem popOperand_enough {mark : Nat} {op : Pending} {operands rest : List Expr} {e : Expr}
    (popped : popOperand mark op operands = .ok (e, rest)) : mark ≤ rest.length := by
  cases operands with
  | nil => cases popped
  | cons operand rest =>
    rw [popOperand] at popped
    by_cases short : rest.length < mark
    · rw [if_pos short] at popped
      cases popped
    · rw [if_neg short] at popped
      cases popped
      exact Nat.not_lt.mp short

theorem reduce_enough {mark : Nat} {op : Pending} {operands reduced : List Expr}
    (reduces : reduce mark op operands = .ok reduced) : mark ≤ reduced.length := by
  cases op with
  | unary unary =>
    obtain ⟨⟨operand, rest⟩, popped, pushed⟩ := bind_ok_iff.mp reduces
    cases pushed
    exact Nat.le_succ_of_le (popOperand_enough popped)
  | binary binary =>
    obtain ⟨⟨right, rest⟩, -, reduces⟩ := bind_ok_iff.mp reduces
    obtain ⟨⟨left, rest⟩, popped, pushed⟩ := bind_ok_iff.mp reduces
    cases pushed
    exact Nat.le_succ_of_le (popOperand_enough popped)

/-- Applying operators takes no operand below the mark. -/
theorem reduceWhile_enough {yield : Pending → Bool} {marks : Marks}
    {operators left : List Pending} {operands rest : List Expr}
    (enough : marks.operands ≤ operands.length)
    (reduced : reduceWhile yield marks operators operands = .ok (left, rest)) :
    marks.operands ≤ rest.length := by
  induction operators generalizing operands with
  | nil =>
    cases reduced
    exact enough
  | cons op low ih =>
    rw [reduceWhile] at reduced
    split at reduced
    · obtain ⟨operands', reduces, reduced⟩ := bind_ok_iff.mp reduced
      exact ih (reduce_enough reduces) reduced
    · cases reduced
      exact enough

theorem conclude_does (levels : List Level) (s : State)
    (enough : (s.parser levels).marks.operands ≤ s.entries.operands.length) :
    Does ending (conclude ending (s.parser levels).marks) s
      ((s.parser levels).conclude.map fun p => (p.1, ⟨p.2.operators, p.2.operands⟩)) := by
  refine (applyWhile_does ending (fun _ => true) (s.parser levels).marks s).bind ?_
  rintro ⟨operators, operands⟩ reduced history
  have enough := reduceWhile_enough enough reduced
  cases operands with
  | nil => exact .congr (takeResult_none (Nat.le_zero.mp enough).symm) (.refuse _)
  | cons operand rest =>
    rw [List.length_cons] at enough
    change Does ending _ _ (Except.map _ (if _ then _ else if _ then _ else _))
    by_cases short : rest.length < (s.parser levels).marks.operands
    · rw [if_pos short]
      exact .congr (takeResult_none (Nat.le_antisymm short enough)) (.refuse _)
    · rw [if_neg short]
      by_cases many : (s.parser levels).marks.operands < rest.length
      · rw [if_pos many]
        exact .congr (takeResult_many (Nat.succ_lt_succ many)) (.refuse _)
      · rw [if_neg many]
        have one := Nat.le_antisymm (Nat.not_lt.mp many) (Nat.not_lt.mp short)
        exact ⟨_, takeResult_one rfl one⟩

/-- `conclude` of the parser takes entries away, and does nothing else. -/
theorem conclude_eq_ok {p q : Parser} {e : Expr} (concluded : p.conclude = .ok (e, q)) :
    q = { p with operators := q.operators, operands := q.operands } := by
  obtain ⟨⟨operators, operands⟩, -, concluded⟩ := bind_ok_iff.mp concluded
  cases operands with
  | nil => cases concluded
  | cons operand rest =>
    simp only at concluded
    split at concluded
    · cases concluded
    · split at concluded
      · cases concluded
      · cases concluded
        rfl

end

/-! ## What is left to read -/

/-- What the parser gives from a state on. -/
def State.goOn (ending : Except ParseError Nat) (levels : List Level) (s : State) :
    Except ParseError Expr :=
  Parser.run ending (s.parser levels) s.lexemes

/-- What the parser gives once the expression of the innermost level has been
read. It is the result of the whole text, or an operand that is still to be
put where its parenthesis closes. -/
def resume (ending : Except ParseError Nat) :
    List Level → Expr → State → Except ParseError Expr
  | [], e, _ => .ok e
  | level :: outer, e, s =>
    match level.opening, s.lexemes with
    | .group, ⟨.right, _, _⟩ :: rest =>
      Parser.run ending ((s.parser outer).push .right e) rest
    | .group, ⟨.comma, start, _⟩ :: _ => .error ⟨.tuple, start⟩
    | .call function complete, ⟨.right, _, _⟩ :: rest =>
      Parser.run ending ((s.parser outer).push .right (.call function (complete ++ [e]))) rest
    | .call function complete, ⟨.comma, _, _⟩ :: rest =>
      Parser.run ending ((s.parser outer).descend .comma (.call function (complete ++ [e]))) rest
    | _, _ => .error ⟨.unclosed, s.offset ending⟩

/-- The marks of the innermost level. -/
def marksOf (levels : List Level) : Marks := (Parser.mk .finish [] [] levels).marks

/-- What ends the expression of the innermost level. -/
def stopOf : List Level → Stop
  | [] => .finish
  | _ :: _ => .argument

section

variable {ending : Except ParseError Nat} {α β : Type} {x y : Nat → Step α} {s t : State}
  {next : α → State → Except ParseError Expr} {given : Except ParseError Expr}

/-- At `s`, a step ends, and it leads to what is `given`: where it succeeds,
`next` gives this from then on. -/
def Gives (x : Nat → Step α) (s : State) (next : α → State → Except ParseError Expr)
    (given : Except ParseError Expr) : Prop :=
  ∃ result t, Ends x s (result, t) ∧ given = result >>= (next · t)

namespace Gives

theorem congr (same : ∀ depth, x depth s = y depth s) (gives : Gives y s next given) :
    Gives x s next given := by
  obtain ⟨result, t, ends, rest⟩ := gives
  exact ⟨result, t, ends.congr same, rest⟩

theorem succ (gives : Gives (fun depth => x (depth + 1)) s next given) : Gives x s next given := by
  obtain ⟨result, t, ends, rest⟩ := gives
  exact ⟨result, t, ends.succ, rest⟩

theorem ok {x : Step α} {a : α} (ran : x s = some (.ok a, t)) :
    Gives (fun _ => x) s next (next a t) :=
  ⟨.ok a, t, .of_run ran, rfl⟩

theorem pure (a : α) : Gives (fun _ => Pure.pure a) s next (next a s) := ok rfl

theorem push {next : Unit → State → Except ParseError Expr} (operand : Expr) :
    Gives (fun _ => Descent.push operand) s next (next () (s.push operand)) :=
  ok rfl

theorem error {x : Step α} {e : ParseError} (ran : x s = some (.error e, t)) :
    Gives (fun _ => x) s next (.error e) :=
  ⟨.error e, t, .of_run ran, rfl⟩

theorem refuse (fault : ParseFault) :
    Gives (fun _ => Descent.refuse ending fault) s next (.error ⟨fault, s.offset ending⟩) :=
  error rfl

theorem bind {f : Nat → α → Step β} {last : β → State → Except ParseError Expr}
    (first : Gives x s next given)
    (goes : ∀ a t, Ends x s (.ok a, t) → Gives (f · a) t last (next a t)) :
    Gives (fun depth => x depth >>= f depth) s last given := by
  obtain ⟨result, t, ends, rfl⟩ := first
  cases result with
  | error e => exact ⟨.error e, t, ends.bind_error, rfl⟩
  | ok a =>
    obtain ⟨result, u, ends', whole⟩ := goes a t ends
    exact ⟨result, u, ends.bind_ok ends', whole⟩

theorem after {x : Step α} {f : Nat → α → Step β} {a : α}
    {last : β → State → Except ParseError Expr} (ran : x s = some (.ok a, t))
    (gives : Gives (f · a) t last given) : Gives (fun depth => x >>= f depth) s last given := by
  obtain ⟨result, u, ends, whole⟩ := gives
  exact ⟨result, u, (Ends.of_run ran).bind_ok ends, whole⟩

end Gives

section

variable {previous : TokenKind} {lexeme : Lexeme} {rest : List Lexeme} {entries : Stacks}
  {history : List Stacks} {p : Parser}

/-- The parser goes to the next token too. A fault behind the last one is that of
the text. -/
theorem advance_gives {next : Unit → State → Except ParseError Expr}
    (goes : next () ⟨lexeme.token.kind, rest, entries, history⟩ = Parser.run ending p rest) :
    Gives (fun _ => advance ending) ⟨previous, lexeme :: rest, entries, history⟩ next
      (Parser.run ending p rest) := by
  rw [← goes]
  cases rest with
  | cons lexeme' rest => exact .ok rfl
  | nil =>
    cases ending with
    | ok length => exact .ok rfl
    | error e =>
      rw [goes]
      exact .error rfl

theorem advance_bind {f : Nat → Unit → Step β} {last : β → State → Except ParseError Expr}
    (goes : State.Readable ending ⟨lexeme.token.kind, rest, entries, history⟩ →
      Gives (f · ()) ⟨lexeme.token.kind, rest, entries, history⟩ last
        (Parser.run ending p rest)) :
    Gives (fun depth => advance ending >>= f depth)
      ⟨previous, lexeme :: rest, entries, history⟩ last (Parser.run ending p rest) := by
  have first : Gives (fun _ => advance ending) ⟨previous, lexeme :: rest, entries, history⟩
      (fun _ _ => Parser.run ending p rest) (Parser.run ending p rest) := advance_gives rfl
  refine first.bind fun _ t ends => ?_
  obtain ⟨-, rfl, readable⟩ := (advance_local rfl).of_ends_all ends
  exact goes readable

end

/-- A lexeme that is not the name of a call is read by itself. -/
theorem run_step {p : Parser} {lexeme : Lexeme} {rest : List Lexeme}
    (single : ∀ function start stop start' stop' rest',
      lexeme = ⟨.identifier function, start, stop⟩ → rest = ⟨.left, start', stop'⟩ :: rest' →
      False) :
    Parser.run ending p (lexeme :: rest) =
      Parser.located lexeme.start (p.step lexeme.token) >>= (Parser.run ending · rest) := by
  rw [Parser.run]
  · cases Parser.located lexeme.start (p.step lexeme.token) <;> rfl
  · exact single

/-- Where an expression ends, the parser concludes it too. -/
theorem conclude_gives (levels : List Level) (stops : s.atStop (stopOf levels) = true)
    (readable : s.Readable ending)
    (enough : (marksOf levels).operands ≤ s.entries.operands.length) :
    Gives (fun _ => conclude ending (marksOf levels)) s (resume ending levels)
      (s.goOn ending levels) := by
  have does := conclude_does ending levels s enough
  obtain ⟨previous, lexemes, entries, history⟩ := s
  -- both conclude alike; where that happens decides what the parser does next
  cases concluded : (State.parser ⟨previous, lexemes, entries, history⟩ levels).conclude with
  | error fault =>
    rw [concluded] at does
    obtain ⟨t, ran⟩ := does
    refine ⟨_, t, .of_run ran, ?_⟩
    match lexemes, levels with
    | [], _ =>
      obtain ⟨length, rfl⟩ := readable rfl
      change Parser.located length (Parser.conclude _ >>= _) = _
      rw [concluded]
      rfl
    | ⟨.right, start, stop⟩ :: rest, level :: outer =>
      rw [State.goOn, run_step (by rintro _ _ _ _ _ _ ⟨⟩)]
      change Parser.located start (Parser.conclude _ >>= _) >>= _ = _
      rw [concluded]
      rfl
    | ⟨.comma, start, stop⟩ :: rest, level :: outer =>
      rw [State.goOn, run_step (by rintro _ _ _ _ _ _ ⟨⟩)]
      change Parser.located start (Parser.conclude _ >>= _) >>= _ = _
      rw [concluded]
      rfl
  | ok found =>
    obtain ⟨e, q⟩ := found
    rw [concluded] at does
    obtain ⟨history', ran⟩ := does
    refine ⟨_, _, .of_run ran, ?_⟩
    match lexemes, levels with
    | [], [] =>
      obtain ⟨length, rfl⟩ := readable rfl
      change Parser.located length (Parser.conclude _ >>= _) = _
      rw [concluded, conclude_eq_ok concluded]
      rfl
    | [], level :: outer =>
      obtain ⟨length, rfl⟩ := readable rfl
      change Parser.located length (Parser.conclude _ >>= _) = _
      rw [concluded, conclude_eq_ok concluded]
      obtain ⟨opening, marks⟩ := level
      cases opening <;> rfl
    | ⟨.right, start, stop⟩ :: rest, level :: outer =>
      rw [State.goOn, run_step (by rintro _ _ _ _ _ _ ⟨⟩)]
      change Parser.located start (Parser.conclude _ >>= _) >>= _ = _
      rw [concluded]
      obtain ⟨opening, marks⟩ := level
      cases opening <;> rfl
    | ⟨.comma, start, stop⟩ :: rest, level :: outer =>
      rw [State.goOn, run_step (by rintro _ _ _ _ _ _ ⟨⟩)]
      change Parser.located start (Parser.conclude _ >>= _) >>= _ = _
      rw [concluded]
      obtain ⟨opening, marks⟩ := level
      cases opening <;> rfl

/-- With few enough lexemes left, reading items does not change what the parser
gives. -/
def ItemsGive (ending : Except ParseError Nat) (n : Nat) : Prop :=
  ∀ (own : State) (below : Stacks) (past : List Stacks) (levels : List Level),
    own.lexemes.length ≤ n → own.Readable ending → below.heights = marksOf levels →
    Gives (parseItems ending · (stopOf levels) below.heights) (own.on below past)
      (fun _ t => t.goOn ending levels) ((own.on below past).goOn ending levels)

theorem ItemsGive.parseUntil {n : Nat} (items : ItemsGive ending n) (levels : List Level)
    (few : s.lexemes.length ≤ n) (readable : s.Readable ending)
    (marks : s.entries.heights = marksOf levels) :
    Gives (parseUntil ending · (stopOf levels)) s (resume ending levels)
      (s.goOn ending levels) := by
  have first := items s.bare s.entries s.history levels few readable marks
  refine .succ (first.bind fun _ t ends => ?_)
  obtain ⟨own, rfl, -, ended⟩ := (parseItems_local ending (stopOf levels) s.bare).of_ends ends
  obtain ⟨stops, kept⟩ := ended () rfl
  change Gives (fun _ => conclude ending s.entries.heights) _ _ _
  rw [marks]
  refine conclude_gives levels stops (kept readable) ?_
  rw [← marks, State.on, Stacks.on, List.length_append]
  exact Nat.le_add_left _ _

theorem ItemsGive.parseArguments {n : Nat} (items : ItemsGive ending n) (function : String)
    (complete : List Expr) (outer : List Level) (few : s.lexemes.length ≤ n)
    (readable : s.Readable ending) :
    Gives (parseArguments ending · complete) s
      (fun arguments t => (t.push (.call function arguments)).goOn ending outer)
      (s.goOn ending (⟨.call function complete, s.entries.heights⟩ :: outer)) := by
  induction left : s.lexemes.length using Nat.strongRecOn generalizing s complete with
  | ind m ih =>
    refine .succ ((items.parseUntil (_ :: _) few readable rfl).bind fun argument t ends => ?_)
    have shorter := ((parseUntil_local ending .argument s).of_ends_all ends).1
    obtain ⟨previous, lexemes, entries, history⟩ := t
    refine .after rfl ?_
    cases lexemes with
    | nil => exact .refuse .unclosed
    | cons lexeme rest =>
      obtain ⟨token, start, stop⟩ := lexeme
      cases token with
      | right => exact advance_bind fun _ => .pure (complete ++ [argument])
      | comma =>
        refine advance_bind fun readable => ?_
        have fewer : rest.length < s.lexemes.length := shorter
        exact ih rest.length (left ▸ fewer) _ (Nat.le_trans (Nat.le_of_lt fewer) few) readable
          rfl
      | number _ | identifier _ | op _ | left => exact .refuse .unclosed

theorem ItemsGive.parseItem {n : Nat} (items : ItemsGive ending n) {levels : List Level}
    {lexeme : Lexeme} {rest : List Lexeme} (here : s.lexemes = lexeme :: rest)
    (few : rest.length ≤ n) (goes : s.atStop (stopOf levels) = false) :
    Gives (parseItem ending · (marksOf levels) lexeme.token) s
      (fun _ t => t.goOn ending levels) (s.goOn ending levels) := by
  obtain ⟨previous, lexemes, entries, history⟩ := s
  obtain rfl : lexemes = lexeme :: rest := here
  obtain ⟨token, start, stop⟩ := lexeme
  refine .succ ?_
  cases token with
  | number value =>
    rw [State.goOn, run_step (by rintro _ _ _ _ _ _ ⟨⟩)]
    exact .after rfl (advance_gives rfl)
  | identifier name =>
    -- only an opening parenthesis behind it makes a name that of a call
    cases rest with
    | nil =>
      rw [State.goOn, run_step (by rintro _ _ _ _ _ _ - ⟨⟩)]
      exact advance_bind fun _ => .after rfl (.push (.reference name))
    | cons lexeme rest =>
      obtain ⟨token, start', stop'⟩ := lexeme
      cases token with
      | left =>
        change Gives _ _ _ (Parser.run ending (Parser.descend _ .left (.call name [])) rest)
        refine .after rfl (.after rfl (advance_bind fun readable => ?_))
        have arguments := items.parseArguments name [] levels
          (s := ⟨.left, rest, entries, history⟩) (Nat.le_of_succ_le few) readable
        exact arguments.bind fun es t _ => .push (.call name es)
      | number _ | identifier _ | op _ | right | comma =>
        rw [State.goOn, run_step (by rintro _ _ _ _ _ _ - ⟨⟩)]
        exact advance_bind fun _ => .after rfl (.push (.reference name))
  | op symbol =>
    have does := operate_does ending symbol levels
      ⟨previous, ⟨.op symbol, start, stop⟩ :: rest, entries, history⟩
    rw [State.goOn, run_step (by rintro _ _ _ _ _ _ ⟨⟩)]
    change Gives _ _ _ (Parser.located start (Parser.operate _ symbol) >>= _)
    cases operated : (State.parser ⟨previous, ⟨.op symbol, start, stop⟩ :: rest, entries, history⟩
        levels).operate symbol with
    | error fault =>
      rw [operated] at does
      obtain ⟨t, ran⟩ := does
      exact .error (bind_error ran)
    | ok p =>
      rw [operated] at does
      obtain ⟨history, ran⟩ := does
      refine .after ran (advance_gives ?_)
      rw [operate_eq_ok operated]
      rfl
  | left =>
    rw [State.goOn, run_step (by rintro _ _ _ _ _ _ ⟨⟩)]
    refine advance_bind fun readable => ?_
    have inner := items.parseUntil (⟨.group, entries.heights⟩ :: levels)
      (s := ⟨.left, rest, entries, history⟩) few readable rfl
    refine inner.bind fun e t _ => ?_
    obtain ⟨previous, lexemes, entries, history⟩ := t
    refine .after rfl ?_
    cases lexemes with
    | nil => exact .refuse .unclosed
    | cons lexeme rest =>
      obtain ⟨token, start, stop⟩ := lexeme
      cases token with
      | right => exact .after rfl (advance_gives rfl)
      | comma => exact .refuse .tuple
      | number _ | identifier _ | op _ | left => exact .refuse .unclosed
  | right =>
    cases levels with
    | nil => exact .refuse .unopened
    | cons level outer => cases goes
  | comma =>
    cases levels with
    | nil => exact .refuse .tuple
    | cons level outer => cases goes

theorem parseItems_done_gives {levels : List Level} (marks : Marks)
    (stops : s.atStop (stopOf levels) = true) :
    Gives (parseItems ending · (stopOf levels) marks) s
      (fun _ t => t.goOn ending levels) (s.goOn ending levels) :=
  ⟨.ok (), s, .succ ⟨0, fun depth _ => parseItems_stop depth marks stops⟩, rfl⟩

/-- Reading items does not change what the parser gives. -/
theorem parseItems_gives (n : Nat) : ItemsGive ending n := by
  induction n with
  | zero =>
    intro own below past levels few _ _
    have done : own.lexemes = [] := List.eq_nil_of_length_eq_zero (Nat.le_zero.mp few)
    exact parseItems_done_gives _ (State.atStop_nil _ done)
  | succ n ih =>
    intro own below past levels few readable marks
    cases stops : own.atStop (stopOf levels) with
    | true => exact parseItems_done_gives _ stops
    | false =>
      cases here : own.lexemes with
      | nil =>
        rw [State.atStop_nil _ here] at stops
        cases stops
      | cons lexeme rest =>
        rw [here] at few
        have fewer : rest.length ≤ n := Nat.le_of_succ_le_succ few
        have current : (own.on below past).current = some lexeme.token := State.current_cons here
        refine .succ (.congr (fun depth => parseItems_item depth _ stops current) ?_)
        have item := ih.parseItem (s := own.on below past) here fewer stops
        rw [← marks] at item
        refine item.bind fun _ t ends => ?_
        have keeps : ItemsKeep ending n := fun s stop _ => parseItems_local ending stop s
        obtain ⟨own', rfl, -, kept⟩ := (keeps.parseItem here fewer).of_ends ends
        obtain ⟨shorter, readable⟩ := kept () rfl
        exact ih own' below past levels (Nat.le_trans shorter fewer) readable marks

end

/-- An expression that has been read is what the parser puts on top of its
stacks. -/
theorem parseUntil_gives {ending : Except ParseError Nat} {s : State} (levels : List Level)
    (readable : s.Readable ending) (marks : s.entries.heights = marksOf levels) :
    Gives (parseUntil ending · (stopOf levels)) s (resume ending levels)
      (s.goOn ending levels) :=
  (parseItems_gives _).parseUntil levels (Nat.le_refl _) readable marks

/-- The descent reads a text as the parser does. -/
theorem read_eq (text : String) :
    ∃ enough, ∀ depth, enough ≤ depth → read depth text = some (parse text) := by
  unfold read parse
  cases lex text with
  | mk lexemes ending =>
    cases lexemes with
    | nil => cases ending <;> exact ⟨0, fun _ _ => rfl⟩
    | cons lexeme rest =>
      have readable : State.Readable ending ⟨.finish, lexeme :: rest, ⟨[], []⟩, []⟩ := by
        rintro ⟨⟩
      obtain ⟨result, t, ends, given⟩ := parseUntil_gives [] readable rfl
      have whole : Parser.run ending .start (lexeme :: rest) = result := by
        cases result <;> exact given
      dsimp only
      rw [whole]
      exact ends.imp fun _ all depth enough =>
        congrArg (Option.map (·.1.map some)) (all depth enough)

theorem State.atStop_iff (s : State) (stop : Stop) :
    s.atStop stop = true ↔
      s.current = none ∨
        stop = .argument ∧ (s.current = some .comma ∨ s.current = some .right) := by
  rw [atStop]
  cases s.current with
  | none => simp
  | some token => cases token <;> simp

/-! ## Main result -/

/-- **Levels keep to their own entries.** The descent reads every text as the
parser does. From every state, a call that reads an expression ends. At every
moment of the call the stacks hold entries of its own on top of what it found,
and on top of anything else it would do the same. Where it succeeds, it leaves
the stacks as it found them, and the current token ends the expression. What the
parser reads on a level that a parenthesis opens is what this call reads. -/
theorem parseUntil_keeps_stacks :
    (∀ text, ∃ enough, ∀ depth, enough ≤ depth → read depth text = some (parse text)) ∧
    ∀ (ending : Except ParseError Nat) (stop : Stop) (s : State),
      ∃ (result : Except ParseError Expr) (s' : State) (own : Stacks) (since : List Stacks),
        Ends (parseUntil ending · stop) s (result, s') ∧
        s'.entries = own.on s.entries ∧
        s'.history = since.map (·.on s.entries) ++ s.history ∧
        (∀ below past, Ends (parseUntil ending · stop)
          { s with entries := below, history := past }
          (result, { s' with
            entries := own.on below
            history := since.map (·.on below) ++ past })) ∧
        (∀ e, result = .ok e →
          s'.entries = s.entries ∧
          (s'.current = none ∨
            stop = .argument ∧ (s'.current = some .comma ∨ s'.current = some .right))) ∧
        (stop = .argument → s.Readable ending → ∀ opening outer,
          Parser.run ending (s.parser (⟨opening, s.entries.heights⟩ :: outer)) s.lexemes =
            result >>= (resume ending (⟨opening, s.entries.heights⟩ :: outer) · s')) := by
  refine ⟨read_eq, fun ending stop s => ?_⟩
  obtain ⟨result, own, ends, -, holds⟩ := parseUntil_local ending stop s.bare
  refine ⟨result, own.on s.entries s.history, own.entries, own.history,
    ends s.entries s.history, rfl, rfl, ends, ?_, ?_⟩
  · intro e done
    obtain ⟨empty, stops, -⟩ := holds e done
    refine ⟨?_, (State.atStop_iff own stop).mp stops⟩
    rw [State.on, empty]
    rfl
  · rintro rfl readable opening outer
    obtain ⟨result', s', ends', given⟩ :=
      parseUntil_gives (⟨opening, s.entries.heights⟩ :: outer) readable rfl
    cases ends'.unique (ends s.entries s.history)
    exact given

theorem parseUntil_keeps_stacks_group :
    ∃ e s', Ends (parseUntil (.ok 5) · .argument)
        ⟨.left, [⟨.number 2, 3, 4⟩, ⟨.right, 4, 5⟩], ⟨[.binary .sub], [.constant 1]⟩, []⟩
        (.ok e, s') ∧
      s'.entries = ⟨[.binary .sub], [.constant 1]⟩ := by
  obtain ⟨result, s', -, -, ends, -, -, -, keeps, whole⟩ :=
    parseUntil_keeps_stacks.2 (.ok 5) .argument
      ⟨.left, [⟨.number 2, 3, 4⟩, ⟨.right, 4, 5⟩], ⟨[.binary .sub], [.constant 1]⟩, []⟩
  have read := whole rfl (by rintro ⟨⟩) .group []
  cases result with
  | error e => cases read
  | ok e => exact ⟨e, s', ends, (keeps e rfl).1⟩

end FieldMesh.Formula.Descent
