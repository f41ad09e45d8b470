import FieldMesh.Proofs.Formula.Reading
import FieldMesh.Proofs.Text.Folding

/-!
# What trees are made of

Numbers and names are made where they are read off a text, and reading a tree
only moves them around. What holds of the tokens of a text therefore holds of
the nodes of its tree, and a call has arguments.

* `Vocabulary`: the numbers and names that are let into trees;
* `Vocabulary.Covers`: some nodes are made of these;
* `Parser.Within`: so is what lies on the stacks and in the open calls, before
  and after every word (`Parser.Within.read`);
* **main results**: `covers_of_parse`, and `lowered_of_parse` for names in
  lower case.
-/

namespace FieldMesh.Formula

open FieldMesh.Text

/-! ## Nodes -/

/-- Every name among some nodes is in lower case. -/
def Lowered (nodes : List Expr) : Prop :=
  ∀ name, .reference name ∈ nodes → lower name = name

theorem Lowered.mono {nodes more : List Expr} (lowered : Lowered more)
    (subset : nodes ⊆ more) : Lowered nodes :=
  fun name member => lowered name (subset member)

/-- What numbers and names may stand in a tree. -/
structure Vocabulary where
  number : Float32 → Prop
  /-- Of references and calls alike. -/
  name : String → Prop

namespace Vocabulary

variable (v : Vocabulary)

/-- A node that is made of the vocabulary. A call has arguments. -/
def Admits : Expr → Prop
  | .constant value => v.number value
  | .reference name => v.name name
  | .unary _ _ | .binary _ _ _ => True
  | .call function arguments => v.name function ∧ arguments ≠ []

/-- A token that is made of the vocabulary. -/
def Allows : Token → Prop
  | .number value => v.number value
  | .identifier name => v.name name
  | .op _ | .left | .right | .comma => True

/-- Some nodes are all made of the vocabulary. -/
def Covers (nodes : List Expr) : Prop := ∀ node ∈ nodes, v.Admits node

variable {v}

theorem Covers.append {nodes more : List Expr} (first : v.Covers nodes)
    (second : v.Covers more) : v.Covers (nodes ++ more) :=
  List.forall_mem_append.mpr ⟨first, second⟩

theorem Covers.constant {value : Float32} (number : v.number value) :
    v.Covers (Expr.constant value).preorder :=
  List.forall_mem_singleton.mpr number

theorem Covers.reference {name : String} (named : v.name name) :
    v.Covers (Expr.reference name).preorder :=
  List.forall_mem_singleton.mpr named

theorem Covers.unary {operand : Expr} (op : UnaryOp)
    (covers : v.Covers operand.preorder) :
    v.Covers (Expr.unary op operand).preorder :=
  List.forall_mem_cons.mpr ⟨trivial, covers⟩

theorem Covers.binary {left right : Expr} (op : BinaryOp)
    (first : v.Covers left.preorder) (second : v.Covers right.preorder) :
    v.Covers (Expr.binary op left right).preorder :=
  List.forall_mem_cons.mpr ⟨trivial, first.append second⟩

theorem Covers.call {function : String} {arguments : List Expr}
    (named : v.name function) (filled : arguments ≠ [])
    (covers : v.Covers (Expr.preorderAll arguments)) :
    v.Covers (Expr.call function arguments).preorder :=
  List.forall_mem_cons.mpr ⟨⟨named, filled⟩, covers⟩

/-- One argument more. -/
theorem Covers.further {arguments : List Expr} {e : Expr}
    (covers : v.Covers (Expr.preorderAll arguments)) (last : v.Covers e.preorder) :
    v.Covers (Expr.preorderAll (arguments ++ [e])) := by
  induction arguments with
  | nil =>
    rw [List.nil_append, Expr.preorderAll, Expr.preorderAll, List.append_nil]
    exact last
  | cons argument rest ih =>
    obtain ⟨first, others⟩ := List.forall_mem_append.mp covers
    rw [List.cons_append, Expr.preorderAll]
    exact Covers.append first (ih others)

end Vocabulary

open Vocabulary (Covers)

/-! ## Operands -/

section

variable {v : Vocabulary} {mark : Nat} {op : Pending} {operands rest : List Expr}

/-- Operands are made of the vocabulary. -/
def Vocabulary.CoversAll (v : Vocabulary) (operands : List Expr) : Prop :=
  ∀ e ∈ operands, v.Covers e.preorder

theorem covers_of_popOperand {e : Expr}
    (popped : popOperand mark op operands = .ok (e, rest))
    (covers : v.CoversAll operands) : v.Covers e.preorder ∧ v.CoversAll rest := by
  unfold popOperand at popped
  split at popped
  · cases popped
  · split at popped
    · cases popped
    · cases popped
      exact List.forall_mem_cons.mp covers

theorem covers_of_reduce {left : List Expr}
    (done : reduce mark op operands = .ok left) (covers : v.CoversAll operands) :
    v.CoversAll left := by
  cases op with
  | unary op =>
    obtain ⟨⟨e, rest⟩, popped, same⟩ := bind_ok_iff.mp done
    cases same
    obtain ⟨operand, below⟩ := covers_of_popOperand popped covers
    exact List.forall_mem_cons.mpr ⟨operand.unary op, below⟩
  | binary op =>
    obtain ⟨⟨b, rest⟩, popped, done⟩ := bind_ok_iff.mp done
    obtain ⟨⟨a, rest'⟩, popped', same⟩ := bind_ok_iff.mp done
    cases same
    obtain ⟨second, below⟩ := covers_of_popOperand popped covers
    obtain ⟨first, below⟩ := covers_of_popOperand popped' below
    exact List.forall_mem_cons.mpr ⟨first.binary op second, below⟩

theorem covers_of_reduceWhile {yield : Pending → Bool} {marks : Marks}
    {operators operators' : List Pending} {operands' : List Expr}
    (done : reduceWhile yield marks operators operands =
      .ok (operators', operands'))
    (covers : v.CoversAll operands) : v.CoversAll operands' := by
  induction operators generalizing operands with
  | nil =>
    cases done
    exact covers
  | cons op below ih =>
    rw [reduceWhile] at done
    split at done
    · obtain ⟨mid, reduced, done⟩ := bind_ok_iff.mp done
      exact ih done (covers_of_reduce reduced covers)
    · cases done
      exact covers

end

/-! ## Words -/

/-- An open parenthesis in which all is made of the vocabulary. -/
def Vocabulary.CoversOpening (v : Vocabulary) : Opening → Prop
  | .group => True
  | .call function arguments =>
    v.name function ∧ v.Covers (Expr.preorderAll arguments)

namespace Parser

/-- All that has been read is made of the vocabulary. -/
structure Within (v : Vocabulary) (p : Parser) : Prop where
  operands : v.CoversAll p.operands
  openings : ∀ level ∈ p.levels, v.CoversOpening level.opening

variable {v : Vocabulary} {p q : Parser}

theorem within_start : start.Within v :=
  ⟨fun _ member => (List.not_mem_nil member).elim,
    fun _ member => (List.not_mem_nil member).elim⟩

theorem Within.push (within : p.Within v) (kind : TokenKind) {e : Expr}
    (operand : v.Covers e.preorder) : (p.push kind e).Within v :=
  ⟨List.forall_mem_cons.mpr ⟨operand, within.operands⟩, within.openings⟩

theorem Within.descend (within : p.Within v) (kind : TokenKind)
    {opening : Opening} (inside : v.CoversOpening opening) :
    (p.descend kind opening).Within v :=
  ⟨within.operands, List.forall_mem_cons.mpr ⟨inside, within.openings⟩⟩

theorem Within.operate (within : p.Within v) {symbol : Symbol}
    (done : p.operate symbol = .ok q) : q.Within v := by
  obtain ⟨op, -, done⟩ := bind_ok_iff.mp done
  obtain ⟨⟨operators, operands⟩, reduced, same⟩ := bind_ok_iff.mp done
  cases same
  exact ⟨covers_of_reduceWhile reduced within.operands, within.openings⟩

theorem Within.conclude (within : p.Within v) {e : Expr}
    (done : p.conclude = .ok (e, q)) :
    v.Covers e.preorder ∧ q.Within v ∧ q.levels = p.levels := by
  obtain ⟨⟨operators, operands⟩, reduced, done⟩ := bind_ok_iff.mp done
  have left := covers_of_reduceWhile reduced within.operands
  simp only at done
  split at done
  · cases done
  · next operand rest =>
    obtain ⟨first, below⟩ := List.forall_mem_cons.mp left
    split at done
    · cases done
    · split at done
      · cases done
      · cases done
        exact ⟨first, ⟨below, within.openings⟩, rfl⟩

/-- The innermost level is left with the expression that stands in it. -/
theorem Within.leave (within : p.Within v) {e : Expr} {level : Level}
    {outer : List Level} (levels : p.levels = level :: outer)
    (done : p.conclude = .ok (e, q)) :
    v.Covers e.preorder ∧ v.CoversOpening level.opening ∧
      Within v { q with levels := outer } := by
  obtain ⟨operand, within', same⟩ := within.conclude done
  obtain ⟨inside, above⟩ := List.forall_mem_cons.mp
    (levels ▸ same ▸ within'.openings)
  exact ⟨operand, inside, ⟨within'.operands, above⟩⟩

theorem Within.close (within : p.Within v) (done : p.close = .ok q) :
    q.Within v := by
  unfold Parser.close at done
  split at done
  · cases done
  · next level outer levels =>
    obtain ⟨⟨inner, p'⟩, concluded, done⟩ := bind_ok_iff.mp done
    obtain ⟨operand, inside, outside⟩ := within.leave levels concluded
    simp only at done
    split at done
    · cases done
      exact outside.push _ operand
    · next function complete opening =>
      cases done
      rw [opening] at inside
      exact outside.push _ (.call inside.1 (by simp) (inside.2.further operand))

theorem Within.separate (within : p.Within v) (done : p.separate = .ok q) :
    q.Within v := by
  unfold Parser.separate at done
  split at done
  · cases done
  · next level outer levels =>
    obtain ⟨⟨inner, p'⟩, concluded, done⟩ := bind_ok_iff.mp done
    obtain ⟨operand, inside, outside⟩ := within.leave levels concluded
    simp only at done
    split at done
    · cases done
    · next function complete opening =>
      cases done
      rw [opening] at inside
      exact outside.descend _ ⟨inside.1, inside.2.further operand⟩

/-- A word made of the vocabulary. -/
theorem Within.read (within : p.Within v) {w : Word}
    (allows : ∀ t ∈ w.tokens, v.Allows t) (done : p.read w = .ok q) :
    q.Within v := by
  cases w with
  | opening function =>
    cases done
    exact within.descend _
      ⟨allows _ List.mem_cons_self, fun _ member => by cases member⟩
  | token t =>
    have allowed := allows t (List.mem_singleton.mpr rfl)
    cases t with
    | number value =>
      cases done
      exact within.push _ (.constant allowed)
    | identifier name =>
      cases done
      exact within.push _ (.reference allowed)
    | op symbol => exact within.operate done
    | left =>
      cases done
      exact within.descend _ trivial
    | right => exact within.close done
    | comma => exact within.separate done

theorem Within.readAll (within : p.Within v) {ws : List Word}
    (allows : ∀ w ∈ ws, ∀ t ∈ w.tokens, v.Allows t)
    (done : p.readAll ws = .ok q) : q.Within v := by
  induction ws generalizing p with
  | nil =>
    cases done
    exact within
  | cons w rest ih =>
    obtain ⟨mid, read, done⟩ := bind_ok_iff.mp done
    obtain ⟨first, others⟩ := List.forall_mem_cons.mp allows
    exact ih (within.read first read) others done

end Parser

/-! ## Texts -/

/-- **Vocabulary.** A tree is made of what the tokens of its text are made
of. -/
theorem covers_of_parse {v : Vocabulary} {text : String} {tree : Expr}
    (allows : ∀ t ∈ tokens text, v.Allows t)
    (read : parse text = .ok (some tree)) : v.Covers tree.preorder := by
  obtain ⟨-, last, words_read, finished⟩ := parse_ok_iff.mp read
  have within := Parser.within_start.readAll (fun w among t member =>
    allows t (flatMap_words (tokens text) ▸
      List.mem_flatMap.mpr ⟨w, among, member⟩)) words_read
  obtain ⟨⟨result, p⟩, concluded, finished⟩ := bind_ok_iff.mp finished
  obtain ⟨operand, -, -⟩ := within.conclude concluded
  simp only at finished
  split at finished <;> cases finished
  exact operand

/-- What holds of every token that can be read off a text holds of all of its
tokens. Where a token is read there is no blank. -/
theorem forall_mem_tokens {P : Token → Prop}
    (each : ∀ {c rest read}, isBlank c = false → readToken c rest = .ok read →
      P read.token) (text : String) : ∀ t ∈ tokens text, P t := by
  have lexemes (offset : Nat) (text : List Char)
      (head : ∀ c, text.head? = some c → isBlank c = false) :
      ∀ lexeme ∈ (lexFrom [] offset text).lexemes, P lexeme.token := by
    induction h : text.length using Nat.strongRecOn generalizing offset text with
    | ind n ih =>
      subst h
      unfold lexFrom
      split
      · simp
      · split
        · simp
        · next read found =>
          have shorter := Nat.lt_of_le_of_lt (dropBlanks_length_le read.after)
            (readToken_after_length found)
          simp only
          rw [lexFrom_done]
          refine List.forall_mem_cons.mpr ⟨each (head _ rfl) found, ?_⟩
          exact ih _ shorter _ _ (fun _ => dropBlanks_head_not_blank) rfl
  intro t member
  obtain ⟨lexeme, read, rfl⟩ := List.mem_map.mp member
  exact lexemes _ _ (fun _ => trim_head_not_blank) lexeme read

/-- Names in lower case, and any numbers. -/
def lowerVocabulary : Vocabulary := ⟨fun _ => True, fun name => lower name = name⟩

/-- Names are folded where they are read. -/
theorem allows_of_readToken {c : Char} {rest : List Char} {read : Reading}
    (_ : isBlank c = false) (found : readToken c rest = .ok read) : lowerVocabulary.Allows read.token := by
  unfold readToken readNumber at found
  repeat' split at found
  all_goals cases found
  all_goals first | exact True.intro | exact lower_lower _

/-- **Spelling.** The names in the tree of a text are in lower case. -/
theorem lowered_of_parse {text : String} {tree : Expr}
    (read : parse text = .ok (some tree)) : Lowered tree.preorder :=
  fun _ member => covers_of_parse (v := lowerVocabulary)
    (forall_mem_tokens allows_of_readToken text) read _ member

end FieldMesh.Formula
