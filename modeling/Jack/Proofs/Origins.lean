import Jack.Proofs.Translation

/-! Where operands come from. An instruction that is emitted for a tree accesses a variable in
force, pushes a number or a part of a text that the tree spells, or accesses one of a few fixed
words. -/

namespace Jack

/-- Moves a word between the stack and a segment. -/
def Instruction.isAccess : Instruction → Bool
  | .push _ _ | .pop _ _ => true
  | .arithmetic _ | .label _ | .goto _ | .ifGoto _ | .call _ _ | .function _ _ | .return_ => false

/-- The accesses that depend neither on a declaration nor on the text: constants of the language,
the current object, and the words that elements and results pass through. -/
def fixedAccesses : List Instruction :=
  [.push .constant 0, .push .pointer 0, .pop .pointer 1, .push .that 0, .pop .that 0,
    .push .temp 0, .pop .temp 0]

/-- What an instruction that is emitted for the words can be, by its operand. -/
inductive Origin (k : Context) (ls : List Lexeme) : Instruction → Prop
  | read {name : String} {v : Variable} (h : k.lookup name = some v) : Origin k ls v.read
  | write {name : String} {v : Variable} (h : k.lookup name = some v) : Origin k ls v.write
  | integer {n : UInt16} (h : .integer n ∈ ls) : Origin k ls (.push .constant n)
  | length {text : String} (h : .string text ∈ ls) :
    Origin k ls (.push .constant (UInt16.ofNat text.length))
  | letter {text : String} {c : Char} (h : .string text ∈ ls) (hc : c ∈ text.toList) :
    Origin k ls (.push .constant (UInt16.ofNat c.toNat))
  | fixed {i : Instruction} (h : i ∈ fixedAccesses) : Origin k ls i
  | other {i : Instruction} (h : i.isAccess = false) : Origin k ls i

/-- Every instruction has its origin in the words. -/
def Context.Emits (k : Context) (ls : List Lexeme) (is : List Instruction) : Prop :=
  ∀ i ∈ is, Origin k ls i

namespace Context.Emits

variable {k : Context} {ls ms : List Lexeme} {i : Instruction} {is js : List Instruction}

theorem nil : k.Emits ls [] := by simp [Context.Emits]

theorem cons (hi : Origin k ls i) (h : k.Emits ls is) : k.Emits ls (i :: is) :=
  List.forall_mem_cons.2 ⟨hi, h⟩

theorem append (h : k.Emits ls is) (h' : k.Emits ls js) : k.Emits ls (is ++ js) :=
  List.forall_mem_append.2 ⟨h, h'⟩

theorem mono (h : k.Emits ls is) (hs : ls ⊆ ms) : k.Emits ms is := by
  intro i hi
  cases h i hi with
  | read h => exact .read h
  | write h => exact .write h
  | integer h => exact .integer (hs h)
  | length h => exact .length (hs h)
  | letter h hc => exact .letter (hs h) hc
  | fixed h => exact .fixed h
  | other h => exact .other h

/-- Instructions that no word decides. -/
theorem words (h : ∀ i ∈ is, i ∈ fixedAccesses ∨ i.isAccess = false) : k.Emits ls is := by
  intro i hi
  rcases h i hi with h | h
  · exact .fixed h
  · exact .other h

theorem read (k : Context) (ls : List Lexeme) (name : String) : k.Emits ls (k.read name) := by
  intro i hi
  obtain ⟨v, hv, rfl⟩ := List.mem_map.1 hi
  exact .read (Option.mem_toList.1 hv)

theorem write (k : Context) (ls : List Lexeme) (name : String) : k.Emits ls (k.write name) := by
  intro i hi
  obtain ⟨v, hv, rfl⟩ := List.mem_map.1 hi
  exact .write (Option.mem_toList.1 hv)

/-- A text is built from its length, letter by letter. -/
theorem stringValue {text : String} (h : .string text ∈ ls) : k.Emits ls (stringValue text) := by
  refine cons (.length h) (cons (.other rfl) ?_)
  intro i hi
  obtain ⟨c, hc, hi⟩ := List.mem_flatMap.1 hi
  rw [List.mem_cons, List.mem_singleton] at hi
  rcases hi with rfl | rfl
  · exact .letter h hc
  · exact .other rfl

end Context.Emits

theorem KeywordConstant.emits_value (k : Context) (ls : List Lexeme) (word : KeywordConstant) :
    k.Emits ls word.value := by
  apply Context.Emits.words
  cases word <;> decide

theorem BinaryOp.origin_code (k : Context) (ls : List Lexeme) (op : BinaryOp) :
    Origin k ls op.code := by
  apply Origin.other
  cases op <;> rfl

theorem UnaryOp.origin_code (k : Context) (ls : List Lexeme) (op : UnaryOp) :
    Origin k ls op.code := by
  apply Origin.other
  cases op <;> rfl

mutual

theorem Term.emits_code (k : Context) (t : Term) : k.Emits t.lexemes (t.code k) := by
  match t with
  | .integer value => exact .cons (.integer (by simp [Term.lexemes])) .nil
  | .string text => exact .stringValue (by simp [Term.lexemes])
  | .constant word => exact word.emits_value k _
  | .variable name => exact .read k _ name
  | .element name index =>
    have hindex : k.Emits (Term.element name index).lexemes (index.code k) := by
      apply (index.emits_code k).mono
      intro l hl
      simp [Term.lexemes, hl]
    exact ((Context.Emits.read k _ name).append hindex).append (.words (by decide))
  | .call call => exact call.emits_code k
  | .group inner =>
    apply (inner.emits_code k).mono
    intro l hl
    simp [Term.lexemes, hl]
  | .unary op operand =>
    have hoperand : k.Emits (Term.unary op operand).lexemes (operand.code k) := by
      apply (operand.emits_code k).mono
      intro l hl
      simp [Term.lexemes, hl]
    exact hoperand.append (.cons (op.origin_code k _) .nil)

theorem Expression.emits_code (k : Context) (e : Expression) : k.Emits e.lexemes (e.code k) := by
  match e with
  | .term operand => exact operand.emits_code k
  | .binary left op right =>
    have hleft : k.Emits (Expression.binary left op right).lexemes (left.code k) := by
      apply (left.emits_code k).mono
      intro l hl
      simp [Expression.lexemes, hl]
    have hright : k.Emits (Expression.binary left op right).lexemes (right.code k) := by
      apply (right.emits_code k).mono
      intro l hl
      simp [Expression.lexemes, hl]
    exact (hleft.append hright).append (.cons (op.origin_code k _) .nil)

theorem Call.emits_code (k : Context) (c : Call) : k.Emits c.lexemes (c.code k) := by
  match c with
  | .own name args =>
    have hargs : k.Emits (Call.own name args).lexemes (argumentCode k args) := by
      apply (arguments_emit k args).mono
      intro l hl
      simp [Call.lexemes, hl]
    exact (Context.Emits.cons (.fixed (by decide)) hargs).append (.cons (.other rfl) .nil)
  | .member owner name args =>
    have hargs : k.Emits (Call.member owner name args).lexemes (argumentCode k args) := by
      apply (arguments_emit k args).mono
      intro l hl
      simp [Call.lexemes, hl]
    rw [Call.code]
    cases hv : k.lookup owner with
    | some v => exact (hargs.cons (.read hv)).append (.cons (.other rfl) .nil)
    | none => exact hargs.append (.cons (.other rfl) .nil)

theorem arguments_emit (k : Context) (args : List Expression) :
    k.Emits (argumentLexemes args) (argumentCode k args) := by
  match args with
  | [] => exact .nil
  | e :: es =>
    refine Context.Emits.append ((e.emits_code k).mono fun l hl => ?_)
      ((moreArguments_emit k es).mono fun l hl => ?_)
    · simp [argumentLexemes, hl]
    · simp [argumentLexemes, hl]

theorem moreArguments_emit (k : Context) (args : List Expression) :
    k.Emits (moreArgumentLexemes args) (argumentCode k args) := by
  match args with
  | [] => exact .nil
  | e :: es =>
    refine Context.Emits.append ((e.emits_code k).mono fun l hl => ?_)
      ((moreArguments_emit k es).mono fun l hl => ?_)
    · simp [moreArgumentLexemes, hl]
    · simp [moreArgumentLexemes, hl]

end

mutual

theorem Statement.emits_code (k : Context) (n : Nat) (s : Statement) :
    k.Emits s.lexemes (s.code k n) := by
  match s with
  | .letVariable target value =>
    refine ((value.emits_code k).mono fun l hl => ?_).append (.write k _ target)
    simp [Statement.lexemes, hl]
  | .letElement target index value =>
    have hindex : k.Emits (Statement.letElement target index value).lexemes (index.code k) := by
      apply (index.emits_code k).mono
      intro l hl
      simp [Statement.lexemes, hl]
    have hvalue : k.Emits (Statement.letElement target index value).lexemes (value.code k) := by
      apply (value.emits_code k).mono
      intro l hl
      simp [Statement.lexemes, hl]
    exact (((Context.Emits.read k _ target).append hindex).append
      (hvalue.cons (.other rfl))).append (.words (by decide))
  | .if_ condition body otherwise =>
    have hcondition : k.Emits (Statement.if_ condition body otherwise).lexemes
        (condition.code k) := by
      apply (condition.emits_code k).mono
      intro l hl
      simp [Statement.lexemes, Expression.conditionLexemes, hl]
    have hbody : k.Emits (Statement.if_ condition body otherwise).lexemes
        (statementCode k (n + 1) body) := by
      apply (statements_emit k (n + 1) body).mono
      intro l hl
      simp [Statement.lexemes, inBraces, hl]
    have hother : k.Emits (Statement.if_ condition body otherwise).lexemes
        (otherwiseCode k (n + 1 + constructsOf body) otherwise) := by
      apply (otherwise_emits k _ otherwise).mono
      intro l hl
      simp [Statement.lexemes, hl]
    exact ((((hcondition.append (.words (by simp [Instruction.isAccess]))).append hbody).append
      (.words (by simp [Instruction.isAccess]))).append hother).append (.cons (.other rfl) .nil)
  | .while_ condition body =>
    have hcondition : k.Emits (Statement.while_ condition body).lexemes (condition.code k) := by
      apply (condition.emits_code k).mono
      intro l hl
      simp [Statement.lexemes, Expression.conditionLexemes, hl]
    have hbody : k.Emits (Statement.while_ condition body).lexemes
        (statementCode k (n + 1) body) := by
      apply (statements_emit k (n + 1) body).mono
      intro l hl
      simp [Statement.lexemes, inBraces, hl]
    exact (((hcondition.cons (.other rfl)).append (.words (by simp [Instruction.isAccess]))).append
      hbody).append (.words (by simp [Instruction.isAccess]))
  | .do_ call =>
    refine ((call.emits_code k).mono fun l hl => ?_).append (.words (by decide))
    simp [Statement.lexemes, hl]
  | .return_ none => exact .cons (.fixed (by decide)) (.cons (.other rfl) .nil)
  | .return_ (some value) =>
    refine ((value.emits_code k).mono fun l hl => ?_).append (.cons (.other rfl) .nil)
    simp [Statement.lexemes, hl]

theorem statements_emit (k : Context) (n : Nat) (ss : List Statement) :
    k.Emits (statementLexemes ss) (statementCode k n ss) := by
  match ss with
  | [] => exact .nil
  | s :: ss =>
    refine Context.Emits.append ((s.emits_code k n).mono fun l hl => ?_)
      ((statements_emit k _ ss).mono fun l hl => ?_)
    · simp [statementLexemes, hl]
    · simp [statementLexemes, hl]

theorem otherwise_emits (k : Context) (n : Nat) (o : Option (List Statement)) :
    k.Emits (otherwiseLexemes o) (otherwiseCode k n o) := by
  match o with
  | none => exact .nil
  | some body =>
    apply (statements_emit k n body).mono
    intro l hl
    simp [otherwiseLexemes, inBraces, hl]

end

/-- What is emitted for a subroutine is its prologue or has its origin in the words of the class. -/
theorem ClassDec.origin_of_mem_bodyCode {c : ClassDec} {d : SubroutineDec} {n : Nat}
    {i : Instruction} (hd : d ∈ c.subroutines) (hi : i ∈ c.bodyCode n d) :
    i ∈ d.role.prologue c.fieldCount ∨ Origin (c.context d) c.lexemes i := by
  refine (List.mem_append.1 hi).imp_right fun hi => ?_
  have hsub : statementLexemes d.body ⊆ c.lexemes := by
    intro l hl
    simp only [ClassDec.lexemes, inBraces, List.mem_cons, List.mem_append, List.mem_flatMap]
    refine Or.inr (Or.inr (Or.inl (Or.inr (Or.inr ⟨d, hd, ?_⟩))))
    simp [SubroutineDec.lexemes, inBraces, hl]
  exact (statements_emit (c.context d) n d.body).mono hsub i hi

end Jack
