import Jack.Proofs.Correctness
import Jack.Proofs.Trails

/-! The words of a subroutine that are operators. The actions that a tree asks for read a mark
before a term or behind one just where the tree has an operator. -/

namespace Jack

/-! ### The operators of a tree -/

mutual

/-- Which words of a term are operators, and of which instruction. -/
def Term.operators : Term → List (Option Instruction)
  | .integer _ | .string _ | .constant _ | .variable _ => [none]
  | .element _ index => none :: none :: index.operators ++ [none]
  | .call call => call.operators
  | .group inner => none :: inner.operators ++ [none]
  | .unary op operand => some (.arithmetic op.command) :: operand.operators

def Expression.operators : Expression → List (Option Instruction)
  | .term operand => operand.operators
  | .binary left op right => left.operators ++ some op.instruction :: right.operators

def Call.operators : Call → List (Option Instruction)
  | .own _ args => none :: none :: argumentOperators args ++ [none]
  | .member _ _ args => none :: none :: none :: none :: argumentOperators args ++ [none]

def argumentOperators : List Expression → List (Option Instruction)
  | [] => []
  | e :: es => e.operators ++ moreArgumentOperators es

def moreArgumentOperators : List Expression → List (Option Instruction)
  | [] => []
  | e :: es => none :: e.operators ++ moreArgumentOperators es

end

/-- The operators between two marks that are none. -/
def enclosed (is : List (Option Instruction)) : List (Option Instruction) := none :: is ++ [none]

mutual

/-- Which words of a statement are operators. The mark of a `let` is none. -/
def Statement.operators : Statement → List (Option Instruction)
  | .letVariable _ value => none :: none :: none :: value.operators ++ [none]
  | .letElement _ index value =>
    none :: none :: none :: index.operators ++ none :: none :: value.operators ++ [none]
  | .if_ condition body otherwise =>
    none :: enclosed condition.operators ++ enclosed (statementOperators body)
      ++ otherwiseOperators otherwise
  | .while_ condition body =>
    none :: enclosed condition.operators ++ enclosed (statementOperators body)
  | .do_ call => none :: call.operators ++ [none]
  | .return_ none => [none, none]
  | .return_ (some value) => none :: value.operators ++ [none]

def statementOperators : List Statement → List (Option Instruction)
  | [] => []
  | s :: ss => s.operators ++ statementOperators ss

def otherwiseOperators : Option (List Statement) → List (Option Instruction)
  | none => []
  | some body => none :: enclosed (statementOperators body)

end

/-- Which words of a subroutine are operators: some of its statements, and no others. -/
def SubroutineDec.operators (d : SubroutineDec) : List (Option Instruction) :=
  List.replicate 4 none ++ (parameterLexemes d.parameters).map (fun _ => none)
    ++ none :: enclosed ((d.vars.flatMap VarDec.lexemes).map (fun _ => none)
      ++ statementOperators d.body)

/-! ### The operators among the tokens that actions read -/

/-- The instructions of the operators that actions read, from an edge of a term on. -/
def marks (edge? : Option Edge) : List Action → List (Option Instruction)
  | [] => []
  | a :: as => (a.read?.toList.map fun t => t.lexeme.operator? edge?) ++ marks a.edge? as

theorem marks_cons (edge? : Option Edge) (a : Action) (as : List Action) :
    marks edge? (a :: as)
      = (a.read?.toList.map fun t => t.lexeme.operator? edge?) ++ marks a.edge? as := rfl

theorem Trail.edge?_after (tr : Trail) (a : Action) : (tr.after a).edge? = a.edge? := by
  have hread : ∀ t, (tr.read t).edge? = none := by
    intro t
    rw [read]
    split <;> rfl
  cases a with
  | take t | declare p o type kind | mention o | mentionFirst o => exact hread _
  | _ => rfl

theorem Trail.operators_after (tr : Trail) (a : Action) :
    (tr.after a).readings.map Reading.operator?
      = tr.readings.map Reading.operator?
        ++ a.read?.toList.map fun t => t.lexeme.operator? tr.edge? := by
  have hread : ∀ t, (tr.read t).readings.map Reading.operator?
      = tr.readings.map Reading.operator? ++ [t.lexeme.operator? tr.edge?] := by
    intro t
    rw [read]
    split <;> simp [*]
  cases a with
  | take t | declare p o type kind | mention o | mentionFirst o => exact hread _
  | _ => exact (List.append_nil _).symm

/-- A trail marks the operators among the tokens that it reads. -/
theorem Trail.operators_afterAll (tr : Trail) (as : List Action) :
    (tr.afterAll as).readings.map Reading.operator?
      = tr.readings.map Reading.operator? ++ marks tr.edge? as := by
  induction as generalizing tr with
  | nil => exact (List.append_nil _).symm
  | cons a as ih =>
    rw [afterAll_cons, ih, operators_after, edge?_after, marks_cons, List.append_assoc]

@[simp] theorem Action.edge?_relocate (f : Position → Position) (a : Action) :
    (a.relocate f).edge? = a.edge? := by
  cases a <;> rfl

@[simp] theorem Action.read?_relocate (f : Position → Position) (a : Action) :
    (a.relocate f).read? = a.read?.map (Token.relocate f) := by
  cases a <;> rfl

theorem marks_relocate (f : Position → Position) (edge? : Option Edge) (as : List Action) :
    marks edge? (as.map (Action.relocate f)) = marks edge? as := by
  induction as generalizing edge? with
  | nil => rfl
  | cons a as ih =>
    rw [List.map_cons, marks_cons, marks_cons, ih, Action.edge?_relocate, Action.read?_relocate]
    cases a.read? <;> rfl

/-! ### The actions of a tree -/

section

variable {edge? : Option Edge} {rest : List Action}

theorem marks_takeMark (m : Punctuation) :
    marks edge? (takeMark m :: rest) = (Lexeme.symbol m).operator? edge? :: marks none rest := rfl

theorem marks_of_read?_eq_none {a : Action} (h : a.read? = none) :
    marks edge? (a :: rest) = marks a.edge? rest := by
  rw [marks_cons, h]
  rfl

theorem UnaryOp.operator?_mark (op : UnaryOp) :
    (Lexeme.symbol op.mark).operator? (some .opening) = some (.arithmetic op.command) := by
  cases op <;> rfl

theorem BinaryOp.operator?_mark (op : BinaryOp) :
    (Lexeme.symbol op.mark).operator? (some .closing) = some op.instruction := by
  cases op <;> rfl

/-- An expression reads what its operands and operators read. -/
theorem marks_inExpression {as : List Action} {is : List (Option Instruction)}
    (h : ∀ (a : Action) (rest : List Action), a.read? = none →
      marks (some .opening) (as ++ a :: rest) = is ++ marks a.edge? rest)
    (edge? : Option Edge) (rest : List Action) :
    marks edge? (inExpression as ++ rest) = is ++ marks none rest := by
  rw [inExpression, List.append_assoc]
  exact h (.leave .expression) rest rfl

mutual

theorem Term.marks_actions (t : Term) (rest : List Action) :
    marks (some .opening) (t.actions ++ rest) = t.operators ++ marks (some .closing) rest := by
  match t with
  | .integer value | .string text | .constant word | .variable name => rfl
  | .element name index =>
    have hindex := marks_inExpression index.marks_chain none
      (takeMark .rightBracket :: .emit fetchCode :: .leave .term :: rest)
    simp only [Term.actions, Term.operators, List.append_assoc, List.cons_append, List.nil_append]
    exact congrArg (none :: none :: ·) hindex
  | .call call =>
    rw [Term.actions, List.append_assoc]
    exact call.marks_actions .term (some .opening) (.leave .term :: rest)
  | .group inner =>
    have hinner := marks_inExpression inner.marks_chain none
      (takeMark .rightParen :: .leave .term :: rest)
    simp only [Term.actions, Term.operators, List.append_assoc, List.cons_append, List.nil_append]
    exact congrArg (none :: ·) hinner
  | .unary op operand =>
    have hoperand := operand.marks_actions
      (.emitAt .nowhere [.arithmetic op.command] :: .leave .term :: rest)
    simp only [Term.actions, Term.operators, List.append_assoc, List.cons_append, List.nil_append]
    rw [marks_takeMark, op.operator?_mark]
    exact congrArg (some _ :: ·) hoperand

/-- What follows the operands and operators reads nothing at first. -/
theorem Expression.marks_chain (e : Expression) (a : Action) (rest : List Action)
    (ha : a.read? = none) :
    marks (some .opening) (e.chain ++ a :: rest) = e.operators ++ marks a.edge? rest := by
  match e with
  | .term operand =>
    rw [Expression.chain, operand.marks_actions, marks_of_read?_eq_none ha]
    rfl
  | .binary left op right =>
    have hright := right.marks_chain (.emitAt .nowhere [op.instruction]) (a :: rest) rfl
    rw [marks_of_read?_eq_none ha] at hright
    simp only [Expression.chain, Expression.operators, List.append_assoc, List.cons_append,
      List.nil_append]
    rw [left.marks_actions, marks_takeMark, op.operator?_mark]
    exact congrArg (left.operators ++ some _ :: ·) hright

theorem Call.marks_actions (c : Call) (p : Production) (edge? : Option Edge) (rest : List Action) :
    marks edge? (c.actions p ++ rest) = c.operators ++ marks none rest := by
  match c with
  | .own name args =>
    have hargs := marks_argumentActions args (.leave .expressionList :: takeMark .rightParen
      :: .call p (.own (unplaced name)) (UInt16.ofNat args.length) :: rest)
    simp only [Call.actions, Call.operators, List.append_assoc, List.cons_append, List.nil_append]
    exact congrArg (none :: none :: ·) hargs
  | .member owner name args =>
    have hargs := marks_argumentActions args (.leave .expressionList :: takeMark .rightParen
      :: .call p (.member (unplaced owner) name) (UInt16.ofNat args.length) :: rest)
    simp only [Call.actions, Call.operators, List.append_assoc, List.cons_append, List.nil_append]
    exact congrArg (none :: none :: none :: none :: ·) hargs

theorem marks_argumentActions (es : List Expression) (rest : List Action) :
    marks none (argumentActions es ++ rest) = argumentOperators es ++ marks none rest := by
  match es with
  | [] => rfl
  | e :: es =>
    rw [argumentActions, argumentOperators, List.append_assoc, List.append_assoc,
      marks_inExpression e.marks_chain, marks_moreArgumentActions es]

theorem marks_moreArgumentActions (es : List Expression) (rest : List Action) :
    marks none (moreArgumentActions es ++ rest) = moreArgumentOperators es ++ marks none rest := by
  match es with
  | [] => rfl
  | e :: es =>
    have he := marks_inExpression e.marks_chain none (moreArgumentActions es ++ rest)
    rw [marks_moreArgumentActions es] at he
    simp only [moreArgumentActions, moreArgumentOperators, List.append_assoc, List.cons_append]
    exact congrArg (none :: ·) he

end

/-! ### The actions of statements -/

/-- Which of the tokens that actions read are operators, outside terms. -/
def Marking (as : List Action) (is : List (Option Instruction)) : Prop :=
  ∀ rest, marks none (as ++ rest) = is ++ marks none rest

theorem Marking.append {as bs : List Action} {is js : List (Option Instruction)}
    (h : Marking as is) (h' : Marking bs js) : Marking (as ++ bs) (is ++ js) := by
  intro rest
  rw [List.append_assoc, h, h', List.append_assoc]

theorem Marking.inBlock {as : List Action} {is : List (Option Instruction)} (h : Marking as is) :
    Marking (inBlock as) (enclosed is) := by
  have hopen : Marking [takeMark .leftBrace, .enter .statements] [none] := fun _ => rfl
  have hclose : Marking [.leave .statements, takeMark .rightBrace] [none] := fun _ => rfl
  have hblock := (hopen.append h).append hclose
  simpa [Jack.inBlock, inStatements, enclosed] using hblock

theorem Expression.marking (e : Expression) : Marking e.actions e.operators :=
  marks_inExpression e.marks_chain none

theorem Expression.marking_condition (e : Expression) (label : String) :
    Marking (e.conditionActions label) (enclosed e.operators) := by
  have hopen : Marking [takeMark .leftParen] [none] := fun _ => rfl
  exact (hopen.append e.marking).append fun _ => rfl

theorem Call.marking (c : Call) (p : Production) : Marking (c.actions p) c.operators :=
  c.marks_actions p none

mutual

theorem Statement.marking (s : Statement) (n : Nat) : Marking (s.actions n) s.operators := by
  match s with
  | .letVariable target value =>
    have hopen : Marking [.enter .letStatement, takeKeyword .let_, .mention (unplaced target),
        takeMark .equal, .require .letStatement (unplaced target)] [none, none, none] :=
      fun _ => rfl
    exact (hopen.append value.marking).append fun _ => rfl
  | .letElement target index value =>
    have hopen : Marking [.enter .letStatement, takeKeyword .let_, .mention (unplaced target),
        .require .letStatement (unplaced target), takeMark .leftBracket,
        .load .letStatement (unplaced target)] [none, none, none] := fun _ => rfl
    have hequal : Marking [takeMark .rightBracket, .emit [.arithmetic .add], takeMark .equal]
        [none, none] := fun _ => rfl
    have hclose : Marking [takeMark .semicolon, .emit assignCode, .leave .letStatement] [none] :=
      fun _ => rfl
    have hindex := (hopen.append index.marking).append hequal
    simpa [Statement.actions, Statement.operators] using (hindex.append value.marking).append hclose
  | .if_ condition body otherwise =>
    have hopen : Marking [.enter .ifStatement, takeKeyword .if_] [none] := fun _ => rfl
    have hbody := (marking_statements body (n + 1)).inBlock
    have helse : Marking [.emit [.goto (Label.ifEnd.at n), .label (Label.ifFalse.at n)]] [] :=
      fun _ => rfl
    have hotherwise := marking_otherwise otherwise (n + 1 + constructsOf body)
    have hclose : Marking [.emit [.label (Label.ifEnd.at n)], .leave .ifStatement] [] :=
      fun _ => rfl
    have hcondition := hopen.append (condition.marking_condition (Label.ifFalse.at n))
    simpa [Statement.actions, Statement.operators] using
      (hcondition.append hbody).append ((helse.append hotherwise).append hclose)
  | .while_ condition body =>
    have hopen : Marking [.enter .whileStatement, takeKeyword .while_,
        .emit [.label (Label.whileStart.at n)]] [none] := fun _ => rfl
    have hbody := (marking_statements body (n + 1)).inBlock
    have hclose : Marking [.emit [.goto (Label.whileStart.at n), .label (Label.whileEnd.at n)],
        .leave .whileStatement] [] := fun _ => rfl
    have hcondition := hopen.append (condition.marking_condition (Label.whileEnd.at n))
    simpa [Statement.actions, Statement.operators] using
      (hcondition.append hbody).append hclose
  | .do_ call =>
    have hopen : Marking [.enter .doStatement, takeKeyword .do_] [none] := fun _ => rfl
    exact (hopen.append (call.marking .doStatement)).append fun _ => rfl
  | .return_ none => exact fun _ => rfl
  | .return_ (some value) =>
    have hopen : Marking [.enter .returnStatement, takeKeyword .return_] [none] := fun _ => rfl
    exact (hopen.append value.marking).append fun _ => rfl

theorem marking_statements (ss : List Statement) (n : Nat) :
    Marking (statementActions n ss) (statementOperators ss) := by
  match ss with
  | [] => exact fun _ => rfl
  | s :: ss => exact (s.marking n).append (marking_statements ss _)

theorem marking_otherwise (o : Option (List Statement)) (n : Nat) :
    Marking (otherwiseActions n o) (otherwiseOperators o) := by
  match o with
  | none => exact fun _ => rfl
  | some body =>
    have helse : Marking [takeKeyword .else_] [none] := fun _ => rfl
    exact helse.append (marking_statements body n).inBlock

end

/-! ### The actions of a subroutine -/

/-- No operator is among the words. -/
def unmarked (ls : List Lexeme) : List (Option Instruction) := ls.map fun _ => none

/-- Outside terms nothing that is read is an operator. -/
theorem marking_take (t : Token) : Marking [.take t] [none] := by
  intro rest
  rw [List.singleton_append, marks_cons]
  simp [Action.read?, Action.edge?]

theorem marking_flatMap {α : Type} {f : α → List Action} {g : α → List Lexeme}
    (h : ∀ x, Marking (f x) (unmarked (g x))) (xs : List α) :
    Marking (xs.flatMap f) (unmarked (xs.flatMap g)) := by
  induction xs with
  | nil => exact fun _ => rfl
  | cons x xs ih => simpa [unmarked] using (h x).append ih

theorem marking_parameters (ps : List Parameter) :
    Marking (parameterActions ps) (unmarked (parameterLexemes ps)) := by
  have hactions : ∀ p : Parameter, Marking p.actions (unmarked p.lexemes) :=
    fun p => (marking_take p.type.lexeme.token).append fun _ => rfl
  have hnext : ∀ p : Parameter,
      Marking (takeMark .comma :: p.actions) (unmarked (.symbol .comma :: p.lexemes)) := by
    intro p
    have hcomma : Marking [takeMark .comma] [none] := fun _ => rfl
    exact hcomma.append (hactions p)
  cases ps with
  | nil => exact fun _ => rfl
  | cons p ps =>
    have hall := (hactions p).append (marking_flatMap hnext ps)
    rw [unmarked, unmarked, ← List.map_append] at hall
    exact hall

theorem VarDec.marking (d : VarDec) : Marking d.actions (unmarked d.lexemes) := by
  obtain ⟨type, first, more⟩ := d
  have hvar : Marking [.enter .varDec, takeKeyword .var] [none] := fun _ => rfl
  have hfirst : Marking [declareAction .varDec ⟨first, type.spelling, .var⟩] [none] := fun _ => rfl
  have hnext : ∀ name, Marking [takeMark .comma, declareAction .varDec ⟨name, type.spelling, .var⟩]
      (unmarked [.symbol .comma, .identifier name]) := fun _ _ => rfl
  have hclose : Marking [takeMark .semicolon, .leave .varDec] [none] := fun _ => rfl
  have hnames := hfirst.append (marking_flatMap hnext more)
  have hall := ((hvar.append (marking_take type.lexeme.token)).append hnames).append hclose
  simpa [VarDec.actions, VarDec.lexemes, nameActions, nameLexemes, takeType, unmarked] using hall

theorem Role.marking (r : Role) : Marking r.hiddenActions [] := by
  cases r <;> exact fun _ => rfl

/-- The tokens of a subroutine behind its first one are operators where its tree has them. -/
theorem SubroutineDec.marks_actions (d : SubroutineDec) (n : Nat) :
    marks none ((d.actions n).drop 3) = d.operators.tail := by
  have hname := (marking_take (resultLexeme d.result).token).append
    (marking_take (Lexeme.identifier d.name).token)
  have hparen : Marking [takeMark .leftParen, .enter .parameterList] [none] := fun _ => rfl
  have hbrace : Marking [.leave .parameterList, takeMark .rightParen, .header d.name,
      .enter .subroutineBody, takeMark .leftBrace] [none, none] := fun _ => rfl
  have hbody : Marking [.preamble d.role, .enter .statements] [] := fun _ => rfl
  have hclose : Marking [.leave .statements, takeMark .rightBrace,
      .complete (UInt16.ofNat d.localCount), .leave .subroutineBody, .leave .subroutineDec]
      [none] :=
    fun _ => rfl
  have hhead := (hname.append d.role.marking).append
    ((hparen.append (marking_parameters d.parameters)).append hbrace)
  have hstatements := hbody.append ((marking_statements d.body n).append hclose)
  have hall := (hhead.append (marking_flatMap VarDec.marking d.vars)).append hstatements []
  simpa [SubroutineDec.actions, SubroutineDec.operators, bodyActions, inStatements, enclosed,
    unmarked, marks] using hall

end

/-- A subroutine that is read without a fault has its operators where its tree has them. -/
theorem SubroutineDec.marks_script {d : SubroutineDec} {c : Cursor} {ls : List Lexeme}
    (hc : c.lexemes = d.lexemes.tail ++ ls)
    (hf : (Script.ofGoals [.resultType, .subroutineName d.role] c #[]).fault? = none) :
    marks none (Script.ofGoals [.resultType, .subroutineName d.role] c #[]).actions.toList
      = d.operators.tail := by
  generalize hscript : Script.ofGoals [.resultType, .subroutineName d.role] c #[] = script at hf ⊢
  have hrelocate : script.relocate noPlace
      = .ofWords [.resultType, .subroutineName d.role] (d.lexemes.tail ++ ls) c.constructs [] := by
    have hgoals : [Goal.resultType, .subroutineName d.role].map (Goal.relocate noPlace)
        = [.resultType, .subroutineName d.role] := rfl
    rw [← hc, Script.ofWords, ← c.relocate_noPlace, ← hscript, ← Script.ofGoals_relocate, hgoals,
      Array.map_empty]
  have hleads := d.leadsTo_tail [] ls c.constructs []
  rw [← hrelocate, Script.ofWords, Script.ofGoals_nil] at hleads
  have hcountable : d.Countable := hleads.holds (by rw [Script.relocate, hf]; rfl)
  have hactions : script.actions.toList.map (Action.relocate noPlace)
      = (d.actions c.constructs).drop 3 := by
    have heq := congrArg (fun s => s.actions.toList) (hleads.eq hcountable)
    simpa [Script.relocate] using heq
  rw [← marks_relocate noPlace, hactions, d.marks_actions]

end Jack
