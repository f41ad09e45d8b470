import FieldMesh.Formula.Parser

/-!
# Reading by recursive descent

The parser once more, with its levels as calls: a parenthesis is read by
reading an expression anew, on the same two stacks. A call notes how high the
stacks are when it starts, and these heights are all that separates its
entries from those of the calls around it.

* `parseUntil`, `parseItems`, `parseItem`, `parseArguments`: the descent. How
  deep calls may nest is bounded; a run that would go deeper has no result, and
  neither has one that would take a negative difference;
* `Ends`: what a step comes to once it may go deep enough;
* `Local`: what a step does with its own entries, whatever lies below them;
* **main results**: `parseItems_local` and `parseUntil_local`. By induction on
  the lexemes that are left, every call ends and keeps to entries of its own.
-/

namespace FieldMesh.Formula.Descent

/-! ## States -/

/-- The two stacks, the last entry first. -/
structure Stacks where
  operators : List Pending
  operands : List Expr

namespace Stacks

/-- How high the stacks are. -/
def heights (entries : Stacks) : Marks :=
  ⟨entries.operators.length, entries.operands.length⟩

/-- Entries on top of others. -/
def on (own below : Stacks) : Stacks :=
  ⟨own.operators ++ below.operators, own.operands ++ below.operands⟩

theorem nil_on (below : Stacks) : on ⟨[], []⟩ below = below := rfl

theorem on_nil (own : Stacks) : own.on ⟨[], []⟩ = own := by
  rw [on, List.append_nil, List.append_nil]

theorem on_assoc (own mid below : Stacks) : (own.on mid).on below = own.on (mid.on below) := by
  rw [on, on, on, on, List.append_assoc, List.append_assoc]

end Stacks

/-- The state of reading. -/
structure State where
  /-- The kind of the token before. -/
  previous : TokenKind
  /-- What is left to read, the current token first. -/
  lexemes : List Lexeme
  entries : Stacks
  /-- The stacks as they stood before each change, the latest first. -/
  history : List Stacks

/-- What ends an expression. -/
inductive Stop where
  | finish
  /-- A comma, a closing parenthesis or the end of the text. -/
  | argument
  deriving DecidableEq

namespace State

/-- The current token; there is none at the end. -/
def current (s : State) : Option Token := s.lexemes.head?.map (·.token)

/-- Whether the current token ends an expression. -/
def atStop (s : State) (stop : Stop) : Bool :=
  match s.current with
  | none => true
  | some .comma | some .right => stop == .argument
  | some _ => false

/-- The byte that faults point to: the first one of the current token, or that
at which reading ended. -/
def offset (ending : Except ParseError Nat) (s : State) : Nat :=
  match s.lexemes, ending with
  | lexeme :: _, _ => lexeme.start
  | [], .ok length => length
  | [], .error e => e.offset

/-- Changes the stacks. -/
def restack (entries : Stacks) (s : State) : State :=
  { s with entries, history := s.entries :: s.history }

/-- Puts an operand on top. -/
def push (operand : Expr) (s : State) : State :=
  s.restack { s.entries with operands := operand :: s.entries.operands }

/-- Puts an operator on top. -/
def pushOperator (op : Pending) (s : State) : State :=
  s.restack { s.entries with operators := op :: s.entries.operators }

/-- The same state with more below its stacks, and with a longer history. -/
def on (s : State) (below : Stacks) (past : List Stacks) : State :=
  { s with entries := s.entries.on below, history := s.history.map (·.on below) ++ past }

/-- The state without stacks and history. -/
def bare (s : State) : State := { s with entries := ⟨[], []⟩, history := [] }

theorem current_nil {s : State} (done : s.lexemes = []) : s.current = none := by
  rw [current, done]
  rfl

theorem current_cons {s : State} {lexeme : Lexeme} {rest : List Lexeme}
    (here : s.lexemes = lexeme :: rest) : s.current = some lexeme.token := by
  rw [current, here]
  rfl

theorem bare_on (s : State) : s.bare.on s.entries s.history = s := rfl

theorem on_nil (s : State) : s.on ⟨[], []⟩ [] = s := by
  have kept : s.history.map (·.on ⟨[], []⟩) = s.history := by simp [Stacks.on_nil]
  rw [on, kept, Stacks.on_nil, List.append_nil]

theorem on_on (s : State) (mid below : Stacks) (late early : List Stacks) :
    (s.on mid late).on below early =
      s.on (mid.on below) (late.map (·.on below) ++ early) := by
  simp only [on, Stacks.on_assoc, List.map_append, List.map_map, List.append_assoc,
    Function.comp_def]

end State

/-! ## Steps -/

/-- A part of reading, which changes the state also where it fails. It is `none`
where it has no result. -/
abbrev Step := ExceptT ParseError (StateT State Option)

section

variable (ending : Except ParseError Nat)

/-- Has no result. -/
def fail : Step α := ExceptT.mk fun _ => none

/-- Refuses the text at the current token. -/
def refuse (fault : ParseFault) : Step α := do
  throw ⟨fault, (← get).offset ending⟩

/-- Goes to the next token. Reading it can fail. -/
def advance : Step Unit := do
  match (← get).lexemes with
  | [] => modify ({ · with previous := .finish })
  | lexeme :: rest =>
    modify ({ · with previous := lexeme.token.kind })
    match rest, ending with
    | [], .error e => throw e
    | _, _ => modify ({ · with lexemes := rest })

/-- The current token. -/
def current : Step (Option Token) := return (← get).current

/-- Whether the current token ends an expression. -/
def atStop (stop : Stop) : Step Bool := return (← get).atStop stop

/-- How high the stacks are. -/
def heights : Step Marks := return (← get).entries.heights

/-- Puts an operand on top. -/
def push (operand : Expr) : Step Unit := modify (·.push operand)

/-- Puts an operator on top. -/
def pushOperator (op : Pending) : Step Unit := modify (·.pushOperator op)

/-- Drops the operator on top. -/
def dropOperator : Step Unit :=
  modify fun s => s.restack { s.entries with operators := s.entries.operators.tail }

/-- Drops the operand on top. -/
def dropOperand : Step Unit :=
  modify fun s => s.restack { s.entries with operands := s.entries.operands.tail }

/-- Takes the operand on top, if it lies above the mark. -/
def takeOperand (marks : Marks) (op : Pending) : Step Expr := do
  let operands := (← get).entries.operands
  if operands.length ≤ marks.operands then refuse ending (.missingOperand op.text)
  else match operands with
    | [] => refuse ending (.missingOperand op.text)
    | operand :: _ =>
      dropOperand
      return operand

/-- Applies an operator to the operands on top. -/
def apply (marks : Marks) (op : Pending) : Step Unit :=
  match op with
  | .unary unary => do
    let operand ← takeOperand ending marks op
    push (.unary unary operand)
  | .binary binary => do
    let right ← takeOperand ending marks op
    let left ← takeOperand ending marks op
    push (.binary binary left right)

/-- Applies operators above the mark as long as they `yield`, in as many rounds
as are allowed. -/
def applyRounds (yield : Pending → Bool) (marks : Marks) (rounds : Nat) : Step Unit :=
  match rounds with
  | 0 => fail
  | rounds + 1 => do
    match (← get).entries.operators with
    | [] => return
    | op :: below =>
      if marks.operators ≤ below.length && yield op then
        dropOperator
        apply ending marks op
        applyRounds yield marks rounds
      else return

/-- Applies operators above the mark as long as they `yield`. Each round takes one
off the stack. -/
def applyWhile (yield : Pending → Bool) (marks : Marks) : Step Unit := do
  applyRounds ending yield marks ((← get).entries.operators.length + 1)

/-- The operator that a sign at the current token stands for. -/
def classify (symbol : Symbol) : Step Pending := do
  match Pending.ofSymbol (← get).previous symbol with
  | .ok op => return op
  | .error fault => refuse ending fault

/-- Reads an operator sign. -/
def operate (marks : Marks) (symbol : Symbol) : Step Unit := do
  let op ← classify ending symbol
  applyWhile ending op.yieldsTo marks
  pushOperator op

/-- Takes the operand above the mark, of which there must be one. -/
def takeResult (marks : Marks) : Step Expr := do
  let operands := (← get).entries.operands
  if operands.length < marks.operands then fail
  else match operands.length - marks.operands with
    | 0 => refuse ending .missingExpression
    | 1 =>
      match operands with
      | [] => refuse ending .missingExpression
      | operand :: _ =>
        dropOperand
        return operand
    | _ => refuse ending .missingOperator

/-- Ends an expression: applies all of its operators and takes what is left. -/
def conclude (marks : Marks) : Step Expr := do
  applyWhile ending (fun _ => true) marks
  takeResult ending marks

mutual

/-- Reads an expression, with calls nested as deep as is allowed. -/
def parseUntil (depth : Nat) (stop : Stop) : Step Expr :=
  match depth with
  | 0 => fail
  | depth + 1 => do
    let marks ← heights
    parseItems depth stop marks
    conclude ending marks

/-- Reads the operands and operators of an expression. -/
def parseItems (depth : Nat) (stop : Stop) (marks : Marks) : Step Unit :=
  match depth with
  | 0 => fail
  | depth + 1 => do
    if ← atStop stop then return
    else match ← current with
      | none => return
      | some token =>
        parseItem depth marks token
        parseItems depth stop marks

/-- Reads an operand or an operator, of which the current token is the first. -/
def parseItem (depth : Nat) (marks : Marks) (token : Token) : Step Unit :=
  match depth, token with
  | 0, _ => fail
  | _ + 1, .number value => do
    push (.constant value)
    advance ending
  | depth + 1, .identifier name => do
    advance ending
    match ← current with
    | some .left =>
      advance ending
      push (.call name (← parseArguments depth []))
    | _ => push (.reference name)
  | depth + 1, .left => do
    advance ending
    let inner ← parseUntil depth .argument
    match ← current with
    | some .right =>
      push inner
      advance ending
    | some .comma => refuse ending .tuple
    | _ => refuse ending .unclosed
  | _ + 1, .op symbol => do
    operate ending marks symbol
    advance ending
  | _ + 1, .right => refuse ending .unopened
  | _ + 1, .comma => refuse ending .tuple

/-- Reads arguments of a call up to its closing parenthesis, and puts them
behind those that are complete. -/
def parseArguments (depth : Nat) (complete : List Expr) : Step (List Expr) :=
  match depth with
  | 0 => fail
  | depth + 1 => do
    let argument ← parseUntil depth .argument
    match ← current with
    | some .right =>
      advance ending
      return complete ++ [argument]
    | some .comma =>
      advance ending
      parseArguments depth (complete ++ [argument])
    | _ => refuse ending .unclosed

end

end

/-- The expression that a text stands for; blank text stands for none. -/
def read (depth : Nat) (text : String) : Option (Except ParseError (Option Expr)) :=
  match lex text with
  | ⟨[], .ok _⟩ => some (.ok none)
  | ⟨[], .error e⟩ => some (.error e)
  | ⟨lexemes, ending⟩ =>
    (parseUntil ending depth .finish ⟨.finish, lexemes, ⟨[], []⟩, []⟩).map (·.1.map some)

/-! ## Steps one after the other -/

section

variable {α β : Type} {x : Step α} {f : α → Step β} {s t : State}

theorem bind_ok {a : α} (ran : x s = some (.ok a, t)) : (x >>= f) s = f a t := by
  change (x s >>= fun p => _) = _
  rw [ran]
  rfl

theorem bind_error {e : ParseError} (ran : x s = some (.error e, t)) :
    (x >>= f) s = some (.error e, t) := by
  change (x s >>= fun p => _) = _
  rw [ran]
  rfl

theorem get_bind (f : State → Step β) (s : State) : (get >>= f) s = f s s := rfl

end

/-- Started at `s`, a step that nests only as deep as is allowed ends with
`outcome`, if enough is allowed. -/
def Ends (x : Nat → Step α) (s : State) (outcome : Except ParseError α × State) : Prop :=
  ∃ enough, ∀ depth, enough ≤ depth → x depth s = some outcome

namespace Ends

variable {α β : Type} {x y : Nat → Step α} {s t : State}
  {outcome outcome' : Except ParseError α × State}

theorem of_run {x : Step α} (ran : x s = some outcome) : Ends (fun _ => x) s outcome :=
  ⟨0, fun _ _ => ran⟩

theorem congr (same : ∀ depth, x depth s = y depth s) (ends : Ends y s outcome) :
    Ends x s outcome :=
  ends.imp fun _ all depth enough => (same depth).trans (all depth enough)

/-- A call nests one deeper than what it does. -/
theorem succ (ends : Ends (fun depth => x (depth + 1)) s outcome) : Ends x s outcome := by
  obtain ⟨enough, all⟩ := ends
  refine ⟨enough + 1, fun depth more => ?_⟩
  obtain ⟨depth, rfl⟩ : ∃ less, depth = less + 1 := ⟨depth - 1, by omega⟩
  exact all depth (Nat.le_of_succ_le_succ more)

theorem unique (ends : Ends x s outcome) (ends' : Ends x s outcome') : outcome = outcome' := by
  obtain ⟨enough, all⟩ := ends
  obtain ⟨enough', all'⟩ := ends'
  have first := all (max enough enough') (Nat.le_max_left _ _)
  have second := all' (max enough enough') (Nat.le_max_right _ _)
  exact Option.some.inj (first.symm.trans second)

theorem bind_ok {f : Nat → α → Step β} {a : α} {outcome : Except ParseError β × State}
    (ends : Ends x s (.ok a, t)) (next : Ends (f · a) t outcome) :
    Ends (fun depth => x depth >>= f depth) s outcome := by
  obtain ⟨enough, all⟩ := ends
  obtain ⟨enough', all'⟩ := next
  refine ⟨max enough enough', fun depth more => ?_⟩
  exact (Descent.bind_ok (all depth (Nat.le_trans (Nat.le_max_left _ _) more))).trans
    (all' depth (Nat.le_trans (Nat.le_max_right _ _) more))

theorem bind_error {f : Nat → α → Step β} {e : ParseError} (ends : Ends x s (.error e, t)) :
    Ends (fun depth => x depth >>= f depth) s (.error e, t) :=
  ends.imp fun _ all depth enough => Descent.bind_error (all depth enough)

end Ends

/-! ## Keeping to own entries -/

/-- Started at `s`, a step that is given the heights of what lies below ends,
reads no lexeme anew, and does the same whatever lies below. Where it succeeds,
`Q` holds of the result and of the state without what lies below. -/
def Local (x : Nat → Marks → Step α) (s : State) (Q : α → State → Prop) : Prop :=
  ∃ result t,
    (∀ below past, Ends (x · below.heights) (s.on below past) (result, t.on below past)) ∧
    t.lexemes.length ≤ s.lexemes.length ∧ ∀ a, result = .ok a → Q a t

namespace Local

variable {α β : Type} {x y : Nat → Marks → Step α} {s t : State} {Q Q' : α → State → Prop}

theorem congr
    (same : ∀ depth below past,
      x depth below.heights (s.on below past) = y depth below.heights (s.on below past))
    (keeps : Local y s Q) : Local x s Q := by
  obtain ⟨result, t, ends, rest⟩ := keeps
  exact ⟨result, t, fun below past => (ends below past).congr (same · below past), rest⟩

theorem succ (keeps : Local (fun depth => x (depth + 1)) s Q) : Local x s Q := by
  obtain ⟨result, t, ends, rest⟩ := keeps
  exact ⟨result, t, fun below past => (ends below past).succ, rest⟩

theorem mono (keeps : Local x s Q) (weaker : ∀ a t, Q a t → Q' a t) : Local x s Q' := by
  obtain ⟨result, t, ends, shorter, holds⟩ := keeps
  exact ⟨result, t, ends, shorter, fun a ok => weaker a t (holds a ok)⟩

/-- A step that nests nothing, with a result. -/
theorem ok {x : Marks → Step α} {a : α}
    (ran : ∀ below past, x below.heights (s.on below past) = some (.ok a, t.on below past))
    (shorter : t.lexemes.length ≤ s.lexemes.length) (holds : Q a t) :
    Local (fun _ => x) s Q := by
  refine ⟨.ok a, t, fun below past => .of_run (ran below past), shorter, ?_⟩
  rintro _ ⟨⟩
  exact holds

/-- A step that nests nothing, and fails. -/
theorem error {x : Marks → Step α} {e : ParseError}
    (ran : ∀ below past, x below.heights (s.on below past) = some (.error e, t.on below past))
    (shorter : t.lexemes.length ≤ s.lexemes.length) : Local (fun _ => x) s Q := by
  refine ⟨.error e, t, fun below past => .of_run (ran below past), shorter, ?_⟩
  rintro _ ⟨⟩

theorem pure {a : α} (holds : Q a s) : Local (fun _ _ => pure a) s Q :=
  ok (fun _ _ => rfl) (Nat.le_refl _) holds

theorem bind {f : Nat → Marks → α → Step β} {R : β → State → Prop} (first : Local x s Q)
    (next : ∀ a t, t.lexemes.length ≤ s.lexemes.length → Q a t → Local (f · · a) t R) :
    Local (fun depth marks => x depth marks >>= f depth marks) s R := by
  obtain ⟨result, t, ends, shorter, holds⟩ := first
  cases result with
  | error e =>
    refine ⟨.error e, t, fun below past => (ends below past).bind_error, shorter, ?_⟩
    rintro _ ⟨⟩
  | ok a =>
    obtain ⟨result, u, ends', shorter', holds'⟩ := next a t shorter (holds a rfl)
    exact ⟨result, u, fun below past => (ends below past).bind_ok (ends' below past),
      Nat.le_trans shorter' shorter, holds'⟩

/-- What a step says of one run of it. -/
theorem of_ends {below : Stacks} {past : List Stacks} {result : Except ParseError α}
    (keeps : Local x s Q) (ends : Ends (x · below.heights) (s.on below past) (result, t)) :
    ∃ own, t = own.on below past ∧ own.lexemes.length ≤ s.lexemes.length ∧
      ∀ a, result = .ok a → Q a own := by
  obtain ⟨_, own, all, shorter, holds⟩ := keeps
  cases ends.unique (all below past)
  exact ⟨own, rfl, shorter, holds⟩

theorem of_ends_all {x : Nat → Step α} {a : α} (keeps : Local (fun depth _ => x depth) s Q)
    (ends : Ends x s (.ok a, t)) : t.lexemes.length ≤ s.lexemes.length ∧ Q a t := by
  have framed : Ends x (s.on ⟨[], []⟩ []) (.ok a, t) := by rwa [State.on_nil]
  obtain ⟨own, rfl, shorter, holds⟩ := keeps.of_ends framed
  rw [State.on_nil]
  exact ⟨shorter, holds a rfl⟩

end Local

section

variable {ending : Except ParseError Nat} {α : Type} {Q : α → State → Prop}

theorem refuse_local (ending : Except ParseError Nat) (fault : ParseFault) (s : State) :
    Local (α := α) (fun _ _ => refuse ending fault) s Q :=
  .error (e := ⟨fault, s.offset ending⟩) (fun _ _ => rfl) (Nat.le_refl _)

theorem current_local (s : State) :
    Local (fun _ _ => current) s fun token t => token = s.current ∧ t = s :=
  .ok (fun _ _ => rfl) (Nat.le_refl _) ⟨rfl, rfl⟩

theorem push_local (operand : Expr) (s : State) :
    Local (fun _ _ => push operand) s fun _ t => t = s.push operand :=
  .ok (t := s.push operand) (fun _ _ => rfl) (Nat.le_refl _) rfl

theorem pushOperator_local (op : Pending) (s : State) :
    Local (fun _ _ => pushOperator op) s fun _ t => t = s.pushOperator op :=
  .ok (t := s.pushOperator op) (fun _ _ => rfl) (Nat.le_refl _) rfl

/-- The current token has been read without a fault: there is one, or the text
ends here. -/
def State.Readable (ending : Except ParseError Nat) (s : State) : Prop :=
  s.lexemes = [] → ∃ length, ending = .ok length

theorem advance_local {s : State} {lexeme : Lexeme} {rest : List Lexeme}
    (here : s.lexemes = lexeme :: rest) :
    Local (fun _ _ => advance ending) s fun _ t =>
      t = { s with previous := lexeme.token.kind, lexemes := rest } ∧ t.Readable ending := by
  obtain ⟨previous, lexemes, entries, history⟩ := s
  obtain rfl : lexemes = lexeme :: rest := here
  cases rest with
  | cons next rest =>
    exact .ok (t := ⟨lexeme.token.kind, next :: rest, entries, history⟩) (fun _ _ => rfl)
      (Nat.le_succ _) ⟨rfl, fun done => by cases done⟩
  | nil =>
    cases ending with
    | ok length =>
      exact .ok (t := ⟨lexeme.token.kind, [], entries, history⟩) (fun _ _ => rfl)
        (Nat.zero_le _) ⟨rfl, fun _ => ⟨length, rfl⟩⟩
    | error e =>
      exact .error (t := ⟨lexeme.token.kind, [lexeme], entries, history⟩) (fun _ _ => rfl)
        (Nat.le_refl _)

theorem takeOperand_short {marks : Marks} {s : State} (op : Pending)
    (short : s.entries.operands.length ≤ marks.operands) :
    takeOperand ending marks op s = refuse ending (.missingOperand op.text) s :=
  congrFun (if_pos short) s

theorem takeOperand_top {marks : Marks} {s : State} {operand : Expr} {rest : List Expr}
    (op : Pending) (top : s.entries.operands = operand :: rest)
    (enough : marks.operands ≤ rest.length) :
    takeOperand ending marks op s =
      some (.ok operand, s.restack { s.entries with operands := rest }) := by
  obtain ⟨previous, lexemes, ⟨operators, operands⟩, history⟩ := s
  obtain rfl : operands = operand :: rest := top
  exact congrFun (if_neg (Nat.not_le.mpr (Nat.lt_succ_of_le enough))) _

theorem takeOperand_local (op : Pending) (s : State) :
    Local (fun _ marks => takeOperand ending marks op) s fun _ t =>
      t.lexemes = s.lexemes ∧ t.entries.operators = s.entries.operators := by
  obtain ⟨previous, lexemes, ⟨operators, operands⟩, history⟩ := s
  cases operands with
  | nil =>
    refine .congr (fun _ below past => ?_) (refuse_local ending (.missingOperand op.text) _)
    exact takeOperand_short op (Nat.le_refl below.operands.length)
  | cons operand rest =>
    have enough (below : Stacks) : below.operands.length ≤ (rest ++ below.operands).length := by
      rw [List.length_append]
      exact Nat.le_add_left _ _
    exact .ok (t := State.restack ⟨operators, rest⟩ _)
      (fun below _ => takeOperand_top op rfl (enough below)) (Nat.le_refl _) ⟨rfl, rfl⟩

theorem apply_local (op : Pending) (s : State) :
    Local (fun _ marks => apply ending marks op) s fun _ t =>
      t.lexemes = s.lexemes ∧ t.entries.operators = s.entries.operators := by
  cases op with
  | unary unary =>
    refine (takeOperand_local (.unary unary) s).bind fun operand t _ kept => ?_
    refine (push_local (.unary unary operand) t).mono ?_
    rintro _ _ rfl
    exact kept
  | binary binary =>
    refine (takeOperand_local (.binary binary) s).bind fun right t _ kept => ?_
    refine (takeOperand_local (.binary binary) t).bind fun left u _ kept' => ?_
    refine (push_local (.binary binary left right) u).mono ?_
    rintro _ _ rfl
    exact ⟨kept'.1.trans kept.1, kept'.2.trans kept.2⟩

theorem applyRounds_stop {yield : Pending → Bool} {marks : Marks} {s : State} (rounds : Nat)
    (stops : ∀ op low, s.entries.operators = op :: low → marks.operators ≤ low.length →
      yield op = false) :
    applyRounds ending yield marks (rounds + 1) s = some (.ok (), s) := by
  rw [applyRounds, get_bind]
  cases top : s.entries.operators with
  | nil => rfl
  | cons op low =>
    refine congrFun (if_neg ?_) s
    rw [Bool.and_eq_true, decide_eq_true_eq]
    rintro ⟨above, yields⟩
    rw [stops op low top above] at yields
    cases yields

theorem applyRounds_step {yield : Pending → Bool} {marks : Marks} {s : State} {op : Pending}
    {low : List Pending} (rounds : Nat) (top : s.entries.operators = op :: low)
    (above : marks.operators ≤ low.length) (yields : yield op = true) :
    applyRounds ending yield marks (rounds + 1) s =
      (do dropOperator; apply ending marks op; applyRounds ending yield marks rounds) s := by
  rw [applyRounds, get_bind, top]
  refine congrFun (if_pos ?_) s
  rw [yields, decide_eq_true above]
  rfl

theorem dropOperator_local {s : State} {op : Pending} {rest : List Pending}
    (top : s.entries.operators = op :: rest) :
    Local (fun _ _ => dropOperator) s fun _ t =>
      t = s.restack { s.entries with operators := rest } := by
  obtain ⟨previous, lexemes, ⟨operators, operands⟩, history⟩ := s
  obtain rfl : operators = op :: rest := top
  exact .ok (t := State.restack ⟨rest, operands⟩ _) (fun _ _ => rfl) (Nat.le_refl _) rfl

/-- Only operators of the level are applied, and those that are left do not
yield. -/
theorem applyRounds_local (ending : Except ParseError Nat) (yield : Pending → Bool) (s : State) :
    Local (fun _ marks => applyRounds ending yield marks
        (s.entries.operators.length + marks.operators + 1)) s fun _ t =>
      t.lexemes = s.lexemes ∧ ∀ op ∈ t.entries.operators.head?, yield op = false := by
  generalize own : s.entries.operators = operators
  -- over the own operators: where they end, the mark stops the rounds
  induction operators generalizing s with
  | nil =>
    refine .ok (a := ()) (t := s) (fun below past => applyRounds_stop _ ?_) (Nat.le_refl _)
      ⟨rfl, ?_⟩
    · intro op low top above
      have short : (s.entries.operators ++ below.operators).length = below.operators.length := by
        rw [own, List.nil_append]
      rw [show s.entries.operators ++ below.operators = op :: low from top] at short
      exact absurd above (Nat.not_le.mpr (Nat.lt_of_succ_le (Nat.le_of_eq short)))
    · rw [own]
      rintro _ ⟨⟩
  | cons op rest ih =>
    have top (below : Stacks) (past : List Stacks) :
        (s.on below past).entries.operators = op :: (rest ++ below.operators) :=
      congrArg (· ++ below.operators) own
    have above (below : Stacks) : below.heights.operators ≤ (rest ++ below.operators).length := by
      rw [List.length_append]
      exact Nat.le_add_left _ _
    cases yields : yield op with
    | false =>
      refine .ok (a := ()) (t := s) (fun below past => applyRounds_stop _ ?_) (Nat.le_refl _)
        ⟨rfl, ?_⟩
      · intro op' low top' _
        rw [top] at top'
        cases top'
        exact yields
      · rw [own]
        rintro _ ⟨⟩
        exact yields
    | true =>
      refine .congr (y := fun _ marks => do
          dropOperator
          apply ending marks op
          applyRounds ending yield marks (rest.length + marks.operators + 1))
        (fun _ below past => ?_) ?_
      · rw [List.length_cons, Nat.succ_add]
        exact applyRounds_step _ (top below past) (above below) yields
      refine (dropOperator_local own).bind ?_
      rintro _ _ _ rfl
      refine (apply_local op _).bind ?_
      rintro _ t _ ⟨lexemes, operators⟩
      refine (ih t operators).mono ?_
      rintro _ u ⟨lexemes', stops⟩
      exact ⟨lexemes'.trans lexemes, stops⟩

theorem applyWhile_local (yield : Pending → Bool) (s : State) :
    Local (fun _ marks => applyWhile ending yield marks) s fun _ t =>
      t.lexemes = s.lexemes ∧ ∀ op ∈ t.entries.operators.head?, yield op = false := by
  refine .congr (fun _ below past => ?_) (applyRounds_local ending yield s)
  rw [applyWhile, get_bind]
  change applyRounds ending yield _ ((s.entries.operators ++ below.operators).length + 1) _ = _
  rw [List.length_append]
  rfl

theorem classify_local (symbol : Symbol) (s : State) :
    Local (fun _ _ => classify ending symbol) s fun _ t => t = s := by
  cases read : Pending.ofSymbol s.previous symbol with
  | error fault =>
    refine .congr (fun _ below past => ?_) (refuse_local ending fault s)
    simp only [classify, get_bind, State.on, read]
  | ok op =>
    refine .congr (fun _ below past => ?_) (.pure (a := op) rfl)
    simp only [classify, get_bind, State.on, read]

theorem operate_local (symbol : Symbol) (s : State) :
    Local (fun _ marks => operate ending marks symbol) s fun _ t => t.lexemes = s.lexemes := by
  refine (classify_local symbol s).bind ?_
  rintro op s _ rfl
  refine (applyWhile_local op.yieldsTo s).bind ?_
  rintro _ t _ ⟨lexemes, -⟩
  refine (pushOperator_local op t).mono ?_
  rintro _ _ rfl
  exact lexemes

theorem takeResult_none {marks : Marks} {s : State}
    (unchanged : s.entries.operands.length = marks.operands) :
    takeResult ending marks s = refuse ending .missingExpression s := by
  rw [takeResult, get_bind, unchanged, Nat.sub_self]
  exact congrFun (if_neg (Nat.lt_irrefl _)) s

theorem takeResult_one {marks : Marks} {s : State} {operand : Expr} {rest : List Expr}
    (top : s.entries.operands = operand :: rest) (one : rest.length = marks.operands) :
    takeResult ending marks s =
      some (.ok operand, s.restack { s.entries with operands := rest }) := by
  obtain ⟨previous, lexemes, ⟨operators, operands⟩, history⟩ := s
  obtain rfl : operands = operand :: rest := top
  rw [takeResult, get_bind, ← one]
  refine (congrFun (if_neg (Nat.not_lt.mpr (Nat.le_succ _))) _).trans ?_
  rw [List.length_cons, Nat.add_sub_cancel_left]
  rfl

theorem takeResult_many {marks : Marks} {s : State}
    (many : marks.operands + 1 < s.entries.operands.length) :
    takeResult ending marks s = refuse ending .missingOperator s := by
  obtain ⟨more, count⟩ := Nat.exists_eq_add_of_lt many
  rw [takeResult, get_bind, show s.entries.operands.length = marks.operands + (more + 2) by omega,
    Nat.add_sub_cancel_left]
  exact congrFun (if_neg (Nat.not_lt.mpr (Nat.le_add_right _ _))) s

theorem takeResult_local {s : State} (applied : s.entries.operators = []) :
    Local (fun _ marks => takeResult ending marks) s fun _ t =>
      t.lexemes = s.lexemes ∧ t.entries = ⟨[], []⟩ := by
  obtain ⟨previous, lexemes, ⟨operators, operands⟩, history⟩ := s
  obtain rfl : operators = [] := applied
  match operands with
  | [] =>
    exact .congr (fun _ _ _ => takeResult_none rfl) (refuse_local ending .missingExpression _)
  | [operand] =>
    exact .ok (t := State.restack ⟨[], []⟩ _) (fun _ _ => takeResult_one rfl rfl) (Nat.le_refl _)
      ⟨rfl, rfl⟩
  | _ :: _ :: more =>
    have many (below : Stacks) :
        below.operands.length + 1 < (more ++ below.operands).length + 1 + 1 := by
      rw [List.length_append]
      omega
    exact .congr (fun _ below _ => takeResult_many (many below))
      (refuse_local ending .missingOperator _)

/-- An expression is concluded without anything left on the stacks. -/
theorem conclude_local (s : State) :
    Local (fun _ marks => conclude ending marks) s fun _ t =>
      t.lexemes = s.lexemes ∧ t.entries = ⟨[], []⟩ := by
  refine (applyWhile_local (fun _ => true) s).bind ?_
  rintro _ t _ ⟨lexemes, stops⟩
  have applied : t.entries.operators = [] := by
    cases top : t.entries.operators with
    | nil => rfl
    | cons op rest =>
      rw [top] at stops
      cases stops op rfl
  refine (takeResult_local applied).mono ?_
  rintro _ u ⟨lexemes', empty⟩
  exact ⟨lexemes'.trans lexemes, empty⟩

end

/-! ## Calls -/

/-- What lies below a call of a step stays below it. -/
theorem Local.frame {α : Type} {x : Nat → Step α} {s : State} {Q : α → State → Prop}
    (keeps : Local (fun depth _ => x depth) s.bare Q) :
    Local (fun depth _ => x depth) s fun a t =>
      ∃ own, Q a own ∧ t = own.on s.entries s.history := by
  obtain ⟨result, own, ends, shorter, holds⟩ := keeps
  refine ⟨result, own.on s.entries s.history, fun below past => ?_, shorter,
    fun a ok => ⟨own, holds a ok, rfl⟩⟩
  have framed := ends (s.entries.on below) (s.history.map (·.on below) ++ past)
  rwa [← State.on_on, State.bare_on, ← State.on_on] at framed

/-- How the items of an expression end. -/
def Ended (ending : Except ParseError Nat) (stop : Stop) (s t : State) : Prop :=
  t.atStop stop = true ∧ (s.Readable ending → t.Readable ending)

theorem Ended.congr {ending : Except ParseError Nat} {stop : Stop} {s t u : State}
    (ended : Ended ending stop s t) (lexemes : u.lexemes = t.lexemes) : Ended ending stop s u := by
  obtain ⟨_, _, _, _⟩ := u
  obtain rfl := lexemes
  exact ended

/-- With few enough lexemes left, reading items keeps to own entries. -/
def ItemsKeep (ending : Except ParseError Nat) (n : Nat) : Prop :=
  ∀ (s : State) (stop : Stop), s.lexemes.length ≤ n →
    Local (fun depth marks => parseItems ending depth stop marks) s fun _ t =>
      Ended ending stop s t

section

variable {ending : Except ParseError Nat} {n : Nat}

theorem ItemsKeep.parseUntil (items : ItemsKeep ending n) (stop : Stop) {s : State}
    (few : s.lexemes.length ≤ n) :
    Local (fun depth _ => parseUntil ending depth stop) s fun _ t =>
      t.entries = s.entries ∧ Ended ending stop s t := by
  have keeps : Local (fun depth _ => Descent.parseUntil ending depth stop) s.bare fun _ t =>
      t.entries = ⟨[], []⟩ ∧ Ended ending stop s t := by
    refine .succ (.congr (y := fun depth marks => do
        parseItems ending depth stop marks
        conclude ending marks) (fun _ _ _ => rfl) ?_)
    refine (items s.bare stop few).bind ?_
    rintro _ t _ ended
    refine (conclude_local t).mono ?_
    rintro _ u ⟨lexemes, empty⟩
    exact ⟨empty, ended.congr lexemes⟩
  refine keeps.frame.mono ?_
  rintro _ _ ⟨own, ⟨empty, ended⟩, rfl⟩
  refine ⟨?_, ended⟩
  rw [State.on, empty, Stacks.nil_on]

theorem ItemsKeep.parseArguments (items : ItemsKeep ending n) (complete : List Expr) {s : State}
    (few : s.lexemes.length ≤ n) :
    Local (fun depth _ => parseArguments ending depth complete) s fun _ t =>
      t.entries = s.entries ∧ t.Readable ending := by
  induction left : s.lexemes.length using Nat.strongRecOn generalizing s complete with
  | ind m ih =>
    refine .succ ((items.parseUntil .argument few).bind ?_)
    rintro argument t shorter ⟨entries, -⟩
    refine (current_local t).bind ?_
    rintro _ t _ ⟨rfl, rfl⟩
    cases here : t.lexemes with
    | nil =>
      rw [State.current_nil here]
      exact refuse_local ending .unclosed t
    | cons lexeme rest =>
      rw [State.current_cons here]
      rw [here, List.length_cons] at shorter
      cases lexeme.token with
      | right =>
        refine (advance_local here).bind ?_
        rintro _ _ _ ⟨rfl, readable⟩
        exact .pure ⟨entries, readable⟩
      | comma =>
        refine (advance_local here).bind ?_
        rintro _ _ _ ⟨rfl, readable⟩
        refine (ih rest.length ?_ _ ?_ rfl).mono ?_
        · omega
        · dsimp only
          omega
        · rintro _ u ⟨entries', readable⟩
          exact ⟨entries'.trans entries, readable⟩
      | number _ | identifier _ | op _ | left => exact refuse_local ending .unclosed t

theorem ItemsKeep.parseItem (items : ItemsKeep ending n) {s : State} {lexeme : Lexeme}
    {rest : List Lexeme} (here : s.lexemes = lexeme :: rest) (few : rest.length ≤ n) :
    Local (fun depth marks => parseItem ending depth marks lexeme.token) s fun _ t =>
      t.lexemes.length ≤ rest.length ∧ t.Readable ending := by
  refine .succ ?_
  cases lexeme.token with
  | number value =>
    refine (push_local (.constant value) s).bind ?_
    rintro _ _ _ rfl
    refine (advance_local (s := s.push _) here).mono ?_
    rintro _ _ ⟨rfl, readable⟩
    exact ⟨Nat.le_refl _, readable⟩
  | identifier name =>
    refine (advance_local here).bind ?_
    rintro _ t _ ⟨state, readable⟩
    obtain rfl : t.lexemes = rest := by rw [state]
    refine (current_local t).bind ?_
    rintro _ t _ ⟨rfl, rfl⟩
    -- without a parenthesis behind it, the name is an operand itself
    have reference : Local (fun _ _ => push (.reference name)) t fun _ u =>
        u.lexemes.length ≤ t.lexemes.length ∧ u.Readable ending := by
      refine (push_local (.reference name) t).mono ?_
      rintro _ _ rfl
      exact ⟨Nat.le_refl _, readable⟩
    cases here : t.lexemes with
    | nil =>
      rw [State.current_nil here]
      exact here ▸ reference
    | cons lexeme rest' =>
      rw [State.current_cons here]
      cases lexeme.token with
      | left =>
        refine (advance_local here).bind ?_
        rintro _ u shorter ⟨state, -⟩
        refine (items.parseArguments [] (Nat.le_trans shorter few)).bind ?_
        rintro arguments v shorter' ⟨-, readable⟩
        refine (push_local (.call name arguments) v).mono ?_
        rintro _ _ rfl
        exact ⟨here ▸ Nat.le_trans shorter' shorter, readable⟩
      | number _ | identifier _ | op _ | right | comma => exact here ▸ reference
  | op symbol =>
    refine (operate_local symbol s).bind ?_
    rintro _ t _ lexemes
    refine (advance_local (lexemes.trans here)).mono ?_
    rintro _ _ ⟨rfl, readable⟩
    exact ⟨Nat.le_refl _, readable⟩
  | left =>
    refine (advance_local here).bind ?_
    rintro _ t _ ⟨rfl, -⟩
    refine (items.parseUntil .argument few).bind ?_
    rintro inner u shorter -
    refine (current_local u).bind ?_
    rintro _ u _ ⟨rfl, rfl⟩
    cases here : u.lexemes with
    | nil =>
      rw [State.current_nil here]
      exact refuse_local ending .unclosed u
    | cons lexeme rest' =>
      rw [State.current_cons here]
      rw [here, List.length_cons] at shorter
      cases lexeme.token with
      | right =>
        refine (push_local inner u).bind ?_
        rintro _ _ _ rfl
        refine (advance_local (s := u.push _) here).mono ?_
        rintro _ _ ⟨rfl, readable⟩
        exact ⟨Nat.le_of_succ_le shorter, readable⟩
      | comma => exact refuse_local ending .tuple u
      | number _ | identifier _ | op _ | left => exact refuse_local ending .unclosed u
  | right => exact refuse_local ending .unopened s
  | comma => exact refuse_local ending .tuple s

theorem State.atStop_nil {s : State} (stop : Stop) (done : s.lexemes = []) :
    s.atStop stop = true := by
  rw [atStop, current_nil done]

theorem parseItems_stop {stop : Stop} {s : State} (depth : Nat) (marks : Marks)
    (stops : s.atStop stop = true) :
    parseItems ending (depth + 1) stop marks s = some (.ok (), s) := by
  rw [parseItems]
  exact congrFun (if_pos stops) s

theorem parseItems_item {stop : Stop} {s : State} {token : Token} (depth : Nat) (marks : Marks)
    (goes : s.atStop stop = false) (here : s.current = some token) :
    parseItems ending (depth + 1) stop marks s =
      (do parseItem ending depth marks token; parseItems ending depth stop marks) s := by
  rw [parseItems]
  refine (congrFun (if_neg (by rw [goes]; exact Bool.false_ne_true)) s).trans ?_
  change (match s.current with | none => _ | some token => _ : Step Unit) s = _
  rw [here]

theorem parseItems_done {stop : Stop} {s : State} (stops : s.atStop stop = true) :
    Local (fun depth marks => parseItems ending depth stop marks) s fun _ t =>
      Ended ending stop s t :=
  .succ (.congr (fun depth _ _ => parseItems_stop (s := s.on _ _) depth _ stops)
    (.pure ⟨stops, id⟩))

theorem parseItems_local (ending : Except ParseError Nat) (stop : Stop) (s : State) :
    Local (fun depth marks => parseItems ending depth stop marks) s fun _ t =>
      Ended ending stop s t := by
  suffices items : ∀ n, ItemsKeep ending n from items _ s stop (Nat.le_refl _)
  intro n
  induction n with
  | zero =>
    intro s stop few
    have done : s.lexemes = [] := List.eq_nil_of_length_eq_zero (Nat.le_zero.mp few)
    exact parseItems_done (State.atStop_nil stop done)
  | succ n ih =>
    intro s stop few
    cases stops : s.atStop stop with
    | true => exact parseItems_done stops
    | false =>
      cases here : s.lexemes with
      | nil =>
        rw [State.atStop_nil stop here] at stops
        cases stops
      | cons lexeme rest =>
        rw [here] at few
        have fewer : rest.length ≤ n := Nat.le_of_succ_le_succ few
        refine .succ (.congr (y := fun depth marks => do
            parseItem ending depth marks lexeme.token
            parseItems ending depth stop marks)
          (fun depth _ _ => parseItems_item depth _ stops (State.current_cons here)) ?_)
        refine (ih.parseItem here fewer).bind ?_
        rintro _ t _ ⟨shorter, readable⟩
        refine (ih t stop (Nat.le_trans shorter fewer)).mono ?_
        rintro _ u ⟨stops, readable'⟩
        exact ⟨stops, fun _ => readable' readable⟩

/-- An expression is read with entries of its own, of which none is left. -/
theorem parseUntil_local (ending : Except ParseError Nat) (stop : Stop) (s : State) :
    Local (fun depth _ => parseUntil ending depth stop) s fun _ t =>
      t.entries = s.entries ∧ Ended ending stop s t :=
  ItemsKeep.parseUntil (fun s stop _ => parseItems_local ending stop s) stop (Nat.le_refl _)

end

end FieldMesh.Formula.Descent
