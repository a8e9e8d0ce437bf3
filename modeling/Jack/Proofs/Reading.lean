import Jack.Proofs.Declarations
import Jack.Proofs.Relocation

/-! The actions that reading a derivation tree asks for, in order. The words of a tree stand
nowhere, and so do its actions. -/

namespace Jack

/-- A word as it is written in no text. -/
def Lexeme.token (l : Lexeme) : Token := ⟨l, .nowhere⟩

def unplaced (name : String) : Occurrence := ⟨name, .nowhere⟩

def takeMark (m : Punctuation) : Action := .take (Lexeme.symbol m).token

def takeKeyword (k : Keyword) : Action := .take (Lexeme.keyword k).token

/-- The actions of an expression, given those of its operands and operators. -/
def inExpression (as : List Action) : List Action :=
  .enter .expression :: .enter .term :: as ++ [.leave .expression]

mutual

/-- The actions of a term, after the one that begins it. -/
def Term.actions : Term → List Action
  | .integer value =>
    [.take (Lexeme.integer value).token, .emit [.push .constant value], .leave .term]
  | .string text => [.take (Lexeme.string text).token, .emit (stringCode text), .leave .term]
  | .constant word => [takeKeyword word.keyword, .emit word.code, .leave .term]
  | .variable name => [.mention (unplaced name), .load .term (unplaced name), .leave .term]
  | .element name index =>
    [.mention (unplaced name), .require .term (unplaced name), takeMark .leftBracket,
      .load .term (unplaced name)] ++ inExpression index.chain
      ++ [takeMark .rightBracket, .emit fetchCode, .leave .term]
  | .call call => call.actions .term ++ [.leave .term]
  | .group inner =>
    takeMark .leftParen :: inExpression inner.chain ++ [takeMark .rightParen, .leave .term]
  | .unary op operand =>
    takeMark op.mark :: .enter .term :: operand.actions
      ++ [.emitAt .nowhere [.arithmetic op.command], .leave .term]

/-- The operands of an expression from left to right, then the operators from the last to the
first. -/
def Expression.chain : Expression → List Action
  | .term operand => operand.actions
  | .binary left op right =>
    left.actions ++ takeMark op.mark :: .enter .term :: right.chain
      ++ [.emitAt .nowhere [op.instruction]]

def Call.actions (p : Production) : Call → List Action
  | .own name args =>
    [.mentionFirst (unplaced name), .emit [.push .pointer 0], takeMark .leftParen,
      .enter .expressionList] ++ argumentActions args
      ++ [.leave .expressionList, takeMark .rightParen,
        .call p (.own (unplaced name)) (UInt16.ofNat args.length)]
  | .member owner name args =>
    [.mentionFirst (unplaced owner), takeMark .dot, .take (Lexeme.identifier name).token,
      .loadReceiver (unplaced owner), takeMark .leftParen, .enter .expressionList]
      ++ argumentActions args
      ++ [.leave .expressionList, takeMark .rightParen,
        .call p (.member (unplaced owner) name) (UInt16.ofNat args.length)]

def argumentActions : List Expression → List Action
  | [] => []
  | e :: es => inExpression e.chain ++ moreArgumentActions es

def moreArgumentActions : List Expression → List Action
  | [] => []
  | e :: es => takeMark .comma :: inExpression e.chain ++ moreArgumentActions es

end

def Expression.actions (e : Expression) : List Action := inExpression e.chain

/-- The actions of a condition, and of the jump taken when it does not hold. -/
def Expression.conditionActions (label : String) (e : Expression) : List Action :=
  takeMark .leftParen :: e.actions
    ++ [takeMark .rightParen, .emit [.arithmetic .not, .ifGoto label]]

/-- The actions of statements, given theirs, as a production of its own. -/
def inStatements (as : List Action) : List Action := .enter .statements :: as ++ [.leave .statements]

def inBlock (as : List Action) : List Action :=
  takeMark .leftBrace :: inStatements as ++ [takeMark .rightBrace]

mutual

/-- The actions of a statement whose first construct has the number `n`. -/
def Statement.actions (n : Nat) : Statement → List Action
  | .letVariable target value =>
    [.enter .letStatement, takeKeyword .let_, .mention (unplaced target), takeMark .equal,
      .require .letStatement (unplaced target)] ++ value.actions
      ++ [takeMark .semicolon, .store .letStatement (unplaced target), .leave .letStatement]
  | .letElement target index value =>
    [.enter .letStatement, takeKeyword .let_, .mention (unplaced target),
      .require .letStatement (unplaced target), takeMark .leftBracket,
      .load .letStatement (unplaced target)] ++ index.actions
      ++ [takeMark .rightBracket, .emit [.arithmetic .add], takeMark .equal] ++ value.actions
      ++ [takeMark .semicolon, .emit assignCode, .leave .letStatement]
  | .if_ condition body otherwise =>
    .enter .ifStatement :: takeKeyword .if_
      :: condition.conditionActions (Label.ifFalse.at n)
      ++ inBlock (statementActions (n + 1) body)
      ++ .emit [.goto (Label.ifEnd.at n), .label (Label.ifFalse.at n)]
      :: otherwiseActions (n + 1 + constructsOf body) otherwise
      ++ [.emit [.label (Label.ifEnd.at n)], .leave .ifStatement]
  | .while_ condition body =>
    [.enter .whileStatement, takeKeyword .while_, .emit [.label (Label.whileStart.at n)]]
      ++ condition.conditionActions (Label.whileEnd.at n)
      ++ inBlock (statementActions (n + 1) body)
      ++ [.emit [.goto (Label.whileStart.at n), .label (Label.whileEnd.at n)],
        .leave .whileStatement]
  | .do_ call =>
    .enter .doStatement :: takeKeyword .do_ :: call.actions .doStatement
      ++ [takeMark .semicolon, .emit [.pop .temp 0], .leave .doStatement]
  | .return_ none =>
    [.enter .returnStatement, takeKeyword .return_, .emit [.push .constant 0],
      takeMark .semicolon, .emit [.return_], .leave .returnStatement]
  | .return_ (some value) =>
    .enter .returnStatement :: takeKeyword .return_ :: value.actions
      ++ [takeMark .semicolon, .emit [.return_], .leave .returnStatement]

def statementActions (n : Nat) : List Statement → List Action
  | [] => []
  | s :: ss => s.actions n ++ statementActions (n + s.constructs) ss

def otherwiseActions (n : Nat) : Option (List Statement) → List Action
  | none => []
  | some body => takeKeyword .else_ :: inBlock (statementActions n body)

end

def declareAction (p : Production) (d : Declared) : Action :=
  .declare p (unplaced d.name) d.type d.kind

def nameActions (p : Production) (type : String) (kind : Kind) (first : String)
    (more : List String) : List Action :=
  declareAction p ⟨first, type, kind⟩
    :: more.flatMap fun name => [takeMark .comma, declareAction p ⟨name, type, kind⟩]

def takeType (t : TypeName) : Action := .take t.lexeme.token

def ClassVarDec.actions (d : ClassVarDec) : List Action :=
  .enter .classVarDec :: takeKeyword d.kind.keyword :: takeType d.type
    :: nameActions .classVarDec d.type.spelling d.kind d.first d.more
    ++ [takeMark .semicolon, .leave .classVarDec]

def VarDec.actions (d : VarDec) : List Action :=
  .enter .varDec :: takeKeyword .var :: takeType d.type
    :: nameActions .varDec d.type.spelling .var d.first d.more
    ++ [takeMark .semicolon, .leave .varDec]

def Parameter.actions (p : Parameter) : List Action :=
  [takeType p.type, declareAction .parameterList p.declared]

def parameterActions : List Parameter → List Action
  | [] => []
  | p :: ps => p.actions ++ ps.flatMap fun p => takeMark .comma :: p.actions

/-- The hidden argument of a method is declared after the name. -/
def Role.hiddenActions : Role → List Action
  | .method => [.declareThis .nowhere]
  | .constructor | .function => []

/-- The actions of a body after the declarations of locals. -/
def bodyActions (role : Role) (n : Nat) (locals : UInt16) (body : List Statement) : List Action :=
  .preamble role :: inStatements (statementActions n body)
    ++ [takeMark .rightBrace, .complete locals, .leave .subroutineBody]

def SubroutineDec.actions (n : Nat) (d : SubroutineDec) : List Action :=
  [.startSubroutine, .enter .subroutineDec, takeKeyword d.role.keyword,
    .take (resultLexeme d.result).token, .take (Lexeme.identifier d.name).token]
    ++ d.role.hiddenActions ++ [takeMark .leftParen, .enter .parameterList]
    ++ parameterActions d.parameters
    ++ [.leave .parameterList, takeMark .rightParen, .header d.name, .enter .subroutineBody,
      takeMark .leftBrace]
    ++ d.vars.flatMap VarDec.actions
    ++ bodyActions d.role n (UInt16.ofNat d.localCount) d.body ++ [.leave .subroutineDec]

def subroutineActions (n : Nat) : List SubroutineDec → List Action
  | [] => []
  | d :: ds => d.actions n ++ subroutineActions (n + constructsOf d.body) ds

def ClassDec.actions (c : ClassDec) : List Action :=
  [.enter .class_, takeKeyword .class_, .take (Lexeme.identifier c.name).token,
    .nameClass c.name, takeMark .leftBrace]
    ++ c.vars.flatMap ClassVarDec.actions ++ subroutineActions 0 c.subroutines
    ++ [takeMark .rightBrace, .leave .class_]

end Jack
