import FieldMesh.Proofs.Formula.Tokens

/-!
# Canonical text reads back

The canonical text of a tree that was read off a text is read as the same tree
again, with a dollar sign in front of every reference.

* `Expr.marked`: the tree with these signs;
* `Expr.canonical`: its canonical text as tokens, which the grammar derives
  (`derives_canonical`);
* `writable`: the numbers and names whose texts can be told apart; a text of
  them consists of these tokens (`reads_text`), and trees that were read have
  no others (`writable_of_parse`);
* **main result**: `parse_text`.
-/

namespace FieldMesh.Formula

open FieldMesh.Text FieldMesh.Decimal

/-! ## Marked references -/

mutual

/-- The tree with a dollar sign in front of every reference. -/
def Expr.marked : Expr → Expr
  | .constant value => .constant value
  | .reference name => .reference ("$" ++ name)
  | .unary op operand => .unary op operand.marked
  | .binary op left right => .binary op left.marked right.marked
  | .call function arguments => .call function (Expr.markedAll arguments)

/-- Every tree of a list with its references marked. -/
def Expr.markedAll : List Expr → List Expr
  | [] => []
  | e :: rest => e.marked :: Expr.markedAll rest

end

/-- Marks can be taken off again. -/
theorem marked_injective :
    (∀ a b : Expr, a.marked = b.marked → a = b) ∧
    (∀ as bs, Expr.markedAll as = Expr.markedAll bs → as = bs) := by
  -- over the first tree; the second one has to be of the same kind
  apply Expr.marked.mutual_induct
  case case1 =>
    intro value b same
    cases b <;> simp only [Expr.marked, reduceCtorEq] at same
    exact same
  case case2 =>
    intro name b same
    cases b <;> simp only [Expr.marked, reduceCtorEq, Expr.reference.injEq] at same
    rw [String.append_right_inj] at same
    exact congrArg Expr.reference same
  case case3 =>
    intro op operand ih b same
    cases b <;> simp only [Expr.marked, reduceCtorEq, Expr.unary.injEq] at same
    rw [same.1, ih _ same.2]
  case case4 =>
    intro op left right ihLeft ihRight b same
    cases b <;> simp only [Expr.marked, reduceCtorEq, Expr.binary.injEq] at same
    rw [same.1, ihLeft _ same.2.1, ihRight _ same.2.2]
  case case5 =>
    intro function arguments ih b same
    cases b <;> simp only [Expr.marked, reduceCtorEq, Expr.call.injEq] at same
    rw [same.1, ih _ same.2]
  case case6 =>
    intro bs same
    cases bs with
    | nil => rfl
    | cons b rest => simp [Expr.markedAll] at same
  case case7 =>
    intro e rest ih ihRest bs same
    cases bs with
    | nil => simp [Expr.markedAll] at same
    | cons b others =>
      simp only [Expr.markedAll, List.cons.injEq] at same
      rw [ih _ same.1, ihRest _ same.2]

/-! ## Canonical tokens -/

mutual

/-- The canonical text of an expression as tokens. -/
def Expr.canonical : Expr → List Token
  | .constant value => [.number value]
  | .reference name => [.identifier ("$" ++ name)]
  | .unary op operand => .op op.symbol :: operand.canonical
  | .binary op left right =>
    .left :: (left.canonical ++ .op op.symbol :: (right.canonical ++ [.right]))
  | .call function arguments =>
    .identifier function :: .left :: (Expr.canonicalAll arguments ++ [.right])

/-- The canonical text of arguments as tokens. -/
def Expr.canonicalAll : List Expr → List Token
  | [] => []
  | argument :: rest => argument.canonical ++ Expr.canonicalFurther rest

/-- The canonical text of the arguments after the first as tokens. -/
def Expr.canonicalFurther : List Expr → List Token
  | [] => []
  | argument :: rest =>
    .comma :: (argument.canonical ++ Expr.canonicalFurther rest)

end

section

variable {v : Vocabulary}

/-- Canonical text is derived as the tree with its references marked. -/
theorem derives_canonical :
    (∀ e : Expr, v.Covers e.preorder → Derives (.unary e.marked) e.canonical) ∧
    (∀ es, v.Covers (Expr.preorderAll es) → es ≠ [] →
      Derives (.arguments (Expr.markedAll es)) (Expr.canonicalAll es)) ∧
    (∀ es, v.Covers (Expr.preorderAll es) → ∀ front tokens,
      Derives (.arguments front) tokens →
      Derives (.arguments (front ++ Expr.markedAll es))
        (tokens ++ Expr.canonicalFurther es)) := by
  apply Expr.canonical.mutual_induct
  case case1 =>
    intro value _
    exact .primary (.number value)
  case case2 =>
    intro name _
    exact .primary (.name _)
  case case3 =>
    intro op operand ih covers
    exact .sign op (ih (List.forall_mem_cons.mp covers).2)
  case case4 =>
    intro op left right ihLeft ihRight covers
    obtain ⟨first, second⟩ :=
      List.forall_mem_append.mp (List.forall_mem_cons.mp covers).2
    have term := Derives.unary (ihLeft first)
    have operand := ihRight second
    -- within its own parentheses an operation is a sum of terms or a product
    have inner : Derives (.expression (.binary op left.marked right.marked))
        (left.canonical ++ .op op.symbol :: right.canonical) := by
      cases joins : op.joinsTerms with
      | true => exact .summand joins (.term term) (.unary operand)
      | false => exact .term (.factor joins term operand)
    have group := Derives.group inner
    rw [List.append_assoc, List.cons_append] at group
    exact .primary group
  case case5 =>
    intro function arguments ih covers
    obtain ⟨⟨-, filled⟩, inside⟩ := List.forall_mem_cons.mp covers
    exact .primary (.call function (ih inside filled))
  case case6 =>
    intro _ empty
    exact absurd rfl empty
  case case7 =>
    intro e rest ih ihRest covers _
    obtain ⟨first, others⟩ := List.forall_mem_append.mp covers
    exact ihRest others [e.marked] _ (.argument (.term (.unary (ih first))))
  case case8 =>
    intro _ front tokens derives
    rw [Expr.markedAll, Expr.canonicalFurther, List.append_nil, List.append_nil]
    exact derives
  case case9 =>
    intro e rest ih ihRest covers front tokens derives
    obtain ⟨first, others⟩ := List.forall_mem_append.mp covers
    have further := Derives.further derives (.term (.unary (ih first)))
    have all := ihRest others _ _ further
    rw [List.append_assoc, List.append_assoc] at all
    exact all

end

/-! ## Canonical text -/

/-- The numbers and names whose texts can be told apart from what is around
them. -/
def writable : Vocabulary where
  number x := x.isFinite = true ∧ Binary32.isNegative x = false ∧ ReadsBack x
  name := IsFunctionName

/-- A dollar sign goes in front of any name. -/
theorem isFunctionName_marked {name : String} (named : IsFunctionName name) :
    IsFunctionName ("$" ++ name) := by
  have chars : ("$" ++ name).toList = '$' :: name.toList := by
    rw [String.toList_append]
    rfl
  have own : lowerFrom [] name.toList = name.toList := by
    have folded := congrArg String.toList named.lowered
    rwa [lower, String.toList_ofList] at folded
  have stays : ∀ c ∈ '$' :: name.toList, lowerChar c = [c] :=
    List.forall_mem_cons.mpr ⟨by decide, fun c member =>
      lowerChar_of_mem_lowerFrom (own ▸ member)⟩
  refine ⟨⟨?_, ?_⟩, '$', name.toList, chars, by decide, by decide⟩
  · rw [lower, chars, lowerFrom_of_lower [] stays, ← chars, String.ofList_toList]
  · rw [chars]
    exact List.forall_mem_cons.mpr ⟨by decide, named.chars⟩

theorem Reads.sign {rest : List Char} {ts : List Token} (op : UnaryOp)
    (reads : Reads rest ts) : Reads (op.text.toList ++ rest) (.op op.symbol :: ts) := by
  have text : op.text.toList = [op.symbol.char] := by cases op <;> rfl
  rw [text]
  exact reads.op _

theorem Reads.operation {rest : List Char} {ts : List Token} (op : BinaryOp)
    (reads : Reads rest ts) : Reads (op.text.toList ++ rest) (.op op.symbol :: ts) := by
  have text : op.text.toList = [op.symbol.char] := by cases op <;> rfl
  rw [text]
  exact reads.op _

/-- **Canonical text.** It consists of its tokens, whatever follows that ends a
number or a name. -/
theorem reads_text :
    (∀ e : Expr, writable.Covers e.preorder → ∀ rest ts, Apart rest →
      Reads rest ts → Reads (e.text.toList ++ rest) (e.canonical ++ ts)) ∧
    (∀ es, writable.Covers (Expr.preorderAll es) → ∀ rest ts, Apart rest →
      Reads rest ts →
      Reads ((Expr.argumentText es).toList ++ rest) (Expr.canonicalAll es ++ ts)) ∧
    (∀ es, writable.Covers (Expr.preorderAll es) → ∀ rest ts, Apart rest →
      Reads rest ts →
      Apart ((Expr.furtherText es).toList ++ rest) ∧
      Reads ((Expr.furtherText es).toList ++ rest)
        (Expr.canonicalFurther es ++ ts)) := by
  have space {rest : List Char} {ts : List Token} (reads : Reads rest ts) :
      Reads (' ' :: rest) ts := .blank rfl reads
  -- texts are put together from their ends, as what follows is read already
  apply Expr.canonical.mutual_induct
  case case1 =>
    intro value covers rest ts apart reads
    obtain ⟨finite, plain, readsBack⟩ := List.forall_mem_singleton.mp covers
    exact reads.number finite plain readsBack apart
  case case2 =>
    intro name covers rest ts apart reads
    have named : IsFunctionName name := covers _ (List.mem_singleton.mpr rfl)
    exact reads.name (isFunctionName_marked named) apart
  case case3 =>
    intro op operand ih covers rest ts apart reads
    have inner := ih (List.forall_mem_cons.mp covers).2 rest ts apart reads
    rw [Expr.text, String.toList_append, List.append_assoc]
    exact inner.sign op
  case case4 =>
    intro op left right ihLeft ihRight covers rest ts _ reads
    obtain ⟨first, second⟩ :=
      List.forall_mem_append.mp (List.forall_mem_cons.mp covers).2
    have right := ihRight second _ _ (apart_cons (by decide) rest) reads.right
    have left := ihLeft first _ _ (apart_cons (by decide) _)
      (space ((space right).operation op))
    simpa [Expr.text, Expr.canonical] using left.left
  case case5 =>
    intro function arguments ih covers rest ts _ reads
    obtain ⟨⟨named, -⟩, inside⟩ := List.forall_mem_cons.mp covers
    have inner := ih inside _ _ (apart_cons (by decide) rest) reads.right
    have whole := inner.left.name named (apart_cons (by decide) _)
    simpa [Expr.text, Expr.canonical] using whole
  case case6 =>
    intro _ rest ts _ reads
    exact reads
  case case7 =>
    intro e others ih ihOthers covers rest ts apart reads
    obtain ⟨first, inside⟩ := List.forall_mem_append.mp covers
    obtain ⟨apart', reads'⟩ := ihOthers inside rest ts apart reads
    have whole := ih first _ _ apart' reads'
    simpa [Expr.argumentText, Expr.canonicalAll] using whole
  case case8 =>
    intro _ rest ts apart reads
    exact ⟨apart, reads⟩
  case case9 =>
    intro e others ih ihOthers covers rest ts apart reads
    obtain ⟨first, inside⟩ := List.forall_mem_append.mp covers
    obtain ⟨apart', reads'⟩ := ihOthers inside rest ts apart reads
    have whole := (space (ih first _ _ apart' reads')).comma
    refine ⟨?_, by simpa [Expr.furtherText, Expr.canonicalFurther] using whole⟩
    simpa [Expr.furtherText] using apart_cons (by decide) _

/-! ## Texts -/

/-- Numbers without a sign, and names that cannot be taken for a number. -/
def spelled : Vocabulary where
  number x := Binary32.isNegative x = false
  name := IsFunctionName

/-- Nothing else is read off a text. -/
theorem spelled_of_readToken {c : Char} {rest : List Char} {read : Reading}
    (solid : isBlank c = false) (found : readToken c rest = .ok read) :
    spelled.Allows read.token := by
  unfold readToken at found
  split at found
  · rw [readNumber_eq] at found
    split at found
    · cases found
    split at found
    · cases found
    · cases found
      exact isNegative_value _ 0
  · next word =>
    simp only [Bool.or_eq_true, beq_iff_eq, not_or, Bool.not_eq_true] at word
    split at found
    · cases found
      exact True.intro
    split at found
    · cases found
      exact True.intro
    split at found
    · cases found
      exact True.intro
    · next left right comma =>
      split at found
      · cases found
        exact True.intro
      · next other =>
        cases found
        have inside : isNameChar c = true := by
          simp [isNameChar, solid, left, right, comma, other]
        exact isFunctionName_readName inside word.1 word.2

/-- A tree of finite numbers can be written, if each of them reads back. -/
theorem writable_of_parse {text : String} {tree : Expr}
    (read : parse text = .ok (some tree))
    (finite : ∀ x, .constant x ∈ tree.preorder → x.isFinite = true)
    (readsBack : ∀ x, .constant x ∈ tree.preorder → x.isFinite = true →
      ReadsBack x) : writable.Covers tree.preorder := by
  intro node member
  have covers := covers_of_parse (forall_mem_tokens spelled_of_readToken text) read
    node member
  cases node with
  | constant x =>
    exact ⟨finite x member, covers, readsBack x member (finite x member)⟩
  | reference name => exact covers
  | unary op operand => exact trivial
  | binary op left right => exact trivial
  | call function arguments => exact covers

/-- The canonical text of a tree that can be written. -/
theorem parse_text_of_covers {tree : Expr} (covers : writable.Covers tree.preorder) :
    parse tree.text = .ok (some tree.marked) := by
  have reads := reads_text.1 tree covers [] [] apart_nil .done
  rw [List.append_nil, List.append_nil] at reads
  obtain ⟨tokenized, all⟩ := reads.tokens
  refine parse_of_derives tokenized ?_
  rw [all]
  exact .term (.unary (derives_canonical.1 tree covers))

/-- **Canonical text reads back.** The canonical text of a tree of finite
numbers, which was read off a text, is read as that tree with a dollar sign in
front of every reference. Two such trees with the same canonical text are the
same. -/
theorem parse_text {text : String} {tree : Expr}
    (read : parse text = .ok (some tree))
    (finite : ∀ x, .constant x ∈ tree.preorder → x.isFinite = true)
    (readsBack : ∀ x, .constant x ∈ tree.preorder → x.isFinite = true →
      ReadsBack x) :
    parse tree.text = .ok (some tree.marked) ∧
      ∀ text' tree', parse text' = .ok (some tree') →
        (∀ x, .constant x ∈ tree'.preorder → x.isFinite = true) →
        (∀ x, .constant x ∈ tree'.preorder → x.isFinite = true → ReadsBack x) →
        tree'.text = tree.text → tree' = tree := by
  have own := parse_text_of_covers (writable_of_parse read finite readsBack)
  refine ⟨own, fun text' tree' read' finite' readsBack' same => ?_⟩
  have other := parse_text_of_covers (writable_of_parse read' finite' readsBack')
  rw [same, own] at other
  exact (marked_injective.1 _ _ (Option.some.inj (Except.ok.inj other))).symm

/-- Signs, products and sums, a call, and names in both cases. -/
theorem parse_text_mixed :
    let tree : Expr := .binary .sub
      (.unary .minus (.call "max"
        [.reference "b", .binary .mod (.constant 2.5) (.constant 7.0)]))
      (.unary .plus (.reference "y"))
    parse "-MAX(b, 2.5 % 7) - +Y" = .ok (some tree) ∧
      tree.text = "(-max($b, (2.5 % 7)) - +$y)" ∧
      parse "(-max($b, (2.5 % 7)) - +$y)" = .ok (some tree.marked) := by
  intro tree
  have read : parse "-MAX(b, 2.5 % 7) - +Y" = .ok (some tree) := by
    with_unfolding_all rfl
  have text : tree.text = "(-max($b, (2.5 % 7)) - +$y)" := by
    decide +kernel
  have numbers : ∀ x, .constant x ∈ tree.preorder → x = 2.5 ∨ x = 7.0 := by
    intro x member
    simpa [tree, Expr.preorder, Expr.preorderAll] using member
  have finite : ∀ x, .constant x ∈ tree.preorder → x.isFinite = true := by
    intro x member
    rcases numbers x member with rfl | rfl <;> decide
  have readsBack : ∀ x, .constant x ∈ tree.preorder → x.isFinite = true →
      ReadsBack x := by
    intro x member _
    unfold ReadsBack
    rcases numbers x member with rfl | rfl <;> decide +kernel
  refine ⟨read, text, ?_⟩
  rw [← text]
  exact (parse_text read finite readsBack).1

end FieldMesh.Formula
