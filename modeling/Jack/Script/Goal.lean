import Jack.Diagnostic
import Jack.Script.Action

/-!
The grammar of a class as goals. A goal is what a text still has to hold; to meet it is to read at
most one token, to ask for some actions, and to leave further goals in its place. Which way a goal
is met depends on the next token alone, but for a name in an expression, where one more decides.

  class          ::= 'class' className '{' classVarDec* subroutineDec* '}'
  classVarDec    ::= ('static' | 'field') type varName (',' varName)* ';'
  type           ::= 'int' | 'char' | 'boolean' | className
  subroutineDec  ::= ('constructor' | 'function' | 'method') ('void' | type) subroutineName
                     '(' parameterList ')' subroutineBody
  parameterList  ::= ((type varName) (',' type varName)*)?
  subroutineBody ::= '{' varDec* statements '}'
  varDec         ::= 'var' type varName (',' varName)* ';'
  statements     ::= statement*
  statement      ::= letStatement | ifStatement | whileStatement | doStatement | returnStatement
  letStatement   ::= 'let' varName ('[' expression ']')? '=' expression ';'
  ifStatement    ::= 'if' '(' expression ')' '{' statements '}' ('else' '{' statements '}')?
  whileStatement ::= 'while' '(' expression ')' '{' statements '}'
  doStatement    ::= 'do' subroutineCall ';'
  returnStatement ::= 'return' expression? ';'
  expression     ::= term (op term)*
  term           ::= integerConstant | stringConstant | keywordConstant | varName
                   | varName '[' expression ']' | subroutineCall | '(' expression ')' | unaryOp term
  subroutineCall ::= (name '.')? subroutineName '(' expressionList ')'
  expressionList ::= (expression (',' expression)*)?

Operators have no precedence: they are applied last to first, once every operand is there.
-/

namespace Jack

/-- The tokens that are left, the place where they end, and how many branching constructs were
met so far. -/
structure Cursor where
  rest : List Token
  finish : Position
  constructs : Nat
  deriving DecidableEq, Repr

def Cursor.found (c : Cursor) : Found :=
  match c.rest with
  | t :: _ => t.found
  | [] => ⟨none, c.finish⟩

/-- The same cursor with fewer tokens left. -/
def Cursor.to (c : Cursor) (rest : List Token) : Cursor := { c with rest := rest }

/-- Reads one certain word. -/
def Cursor.read? (c : Cursor) (l : Lexeme) : Option (Token × Cursor) :=
  match c.rest with
  | t :: rest => if t.lexeme = l then some (t, c.to rest) else none
  | [] => none

def Cursor.mark? (c : Cursor) (s : Punctuation) : Option (Token × Cursor) := c.read? (.symbol s)

def Cursor.keyword? (c : Cursor) : Option (Keyword × Token × Cursor) :=
  match c.rest with
  | ⟨.keyword k, p⟩ :: rest => some (k, ⟨.keyword k, p⟩, c.to rest)
  | _ => none

def Cursor.name? (c : Cursor) : Option (Occurrence × Cursor) :=
  match c.rest with
  | ⟨.identifier name, p⟩ :: rest => some (⟨name, p⟩, c.to rest)
  | _ => none

def Cursor.sees (c : Cursor) (s : Punctuation) : Bool := (c.mark? s).isSome

/-- None of the alternatives stands at the cursor. -/
def Cursor.badSyntax (c : Cursor) (p : Production) (expected : List Expectation) : CompileError :=
  .badSyntax p c.found expected

/-- No identifier stands at the cursor. -/
def Cursor.noName (c : Cursor) (p : Production) : CompileError :=
  .wrongCategory p c.found .identifier

/-- Reads a type, and gives its spelling. -/
def Cursor.type (c : Cursor) (p : Production) : Except CompileError (String × Token × Cursor) :=
  match c.rest with
  | ⟨.identifier name, q⟩ :: rest => .ok (name, ⟨.identifier name, q⟩, c.to rest)
  | ⟨.keyword k, q⟩ :: rest =>
    if k = .int ∨ k = .char ∨ k = .boolean then .ok (k.spelling, ⟨.keyword k, q⟩, c.to rest)
    else .error (c.badSyntax p [.keyword .int, .keyword .char, .keyword .boolean, .className])
  | _ => .error (c.noName p)

/-- What names are declared as, after a type. The locals of a subroutine are counted. -/
inductive Declaration where
  | ofClass (kind : Kind)
  | parameter
  | locals (role : Role) (before : UInt16) (start : Position)
  deriving DecidableEq, Repr

def Declaration.production : Declaration → Production
  | .ofClass _ => .classVarDec
  | .parameter => .parameterList
  | .locals _ _ _ => .varDec

def Declaration.kind : Declaration → Kind
  | .ofClass kind => kind
  | .parameter => .argument
  | .locals _ _ _ => .var

/-- What a text still has to hold. -/
inductive Goal where
  /-- Nothing; the action is due. -/
  | due (action : Action)
  | mark (production : Production) (mark : Punctuation)
  | classWord
  | className
  /-- Declarations of statics and fields, as many as there are. -/
  | classVarDecs
  /-- Subroutines, as many as there are. -/
  | subroutineDecs
  | endOfFile
  /-- A type, and the names declared with it, after `count` others. -/
  | typed (declaration : Declaration) (count : UInt16)
  /-- A name to be declared, after `count` others. -/
  | named (declaration : Declaration) (type : String) (count : UInt16)
  /-- What follows a name declared after `count` others. -/
  | afterName (declaration : Declaration) (type : String) (count : UInt16) (position : Position)
  /-- What a subroutine returns. -/
  | resultType
  /-- A subroutine from its name on. -/
  | subroutineName (role : Role)
  /-- Parameters, if there are any. -/
  | parameters
  /-- Nothing; `count` more locals were declared from `start` on. -/
  | counted (role : Role) (before : UInt16) (count : UInt16) (start : Position)
  /-- The declarations of locals, after `locals` others, and the statements. -/
  | body (role : Role) (locals : UInt16)
  /-- Statements, as many as there are. -/
  | statements
  /-- What a `let` sets. -/
  | letTarget
  /-- The index, if there is one, and the value of a `let`. -/
  | letValue (target : Occurrence)
  /-- The other branch of an `if`, if there is one. -/
  | otherwise
  /-- What a `return` returns, if it returns something. -/
  | returned
  | term
  /-- Operators and operands, while operators wait, the last one first. -/
  | operands (waiting : List (BinaryOp × Position))
  | call (production : Production)
  /-- A call from its first name on. -/
  | callee (production : Production) (first : Occurrence)
  /-- A call from the name after the dot on. -/
  | member (production : Production) (owner : Occurrence)
  /-- The arguments of a call, if there are any. -/
  | arguments (production : Production) (callee : Callee)
  /-- What follows an argument that starts at `position`, after `count` others. -/
  | moreArguments (production : Production) (callee : Callee) (count : UInt16)
      (position : Position)
  deriving DecidableEq, Repr

/-- What meeting a goal comes to: the actions it asks for, the goals that take its place, and the
cursor afterwards. -/
structure Step where
  actions : List Action
  goals : List Goal
  cursor : Cursor
  deriving DecidableEq, Repr

def expressionGoals : List Goal :=
  [.due (.enter .expression), .due (.enter .term), .term, .operands [],
   .due (.leave .expression)]

/-- The goals of statements in a production of their own. -/
def statementsGoals : List Goal :=
  [.due (.enter .statements), .statements, .due (.leave .statements)]

/-- The goals of statements between braces. -/
def blockGoals (p : Production) : List Goal :=
  .mark p .leftBrace :: statementsGoals ++ [.mark p .rightBrace]

/-- The goals of a condition in parentheses, with the jump taken when it does not hold. -/
def conditionGoals (p : Production) (label : String) : List Goal :=
  .mark p .leftParen :: expressionGoals
    ++ [.mark p .rightParen, .due (.emit [.arithmetic .not, .ifGoto label])]

/-- The goals of a call from its parentheses on. -/
def argumentsGoals (p : Production) (callee : Callee) : List Goal :=
  [.mark p .leftParen, .due (.enter .expressionList), .arguments p callee]

/-- The goals that end a call with `count` arguments. -/
def callGoals (p : Production) (callee : Callee) (count : UInt16) : List Goal :=
  [.due (.leave .expressionList), .mark p .rightParen, .due (.call p callee count)]

def classGoals : List Goal :=
  [.due (.enter .class_), .classWord, .className, .mark .class_ .leftBrace, .classVarDecs,
   .subroutineDecs, .mark .class_ .rightBrace, .due (.leave .class_), .endOfFile]

def termStarts : List Expectation :=
  [.category .integerConstant, .category .stringConstant, .keyword .true_, .keyword .false_,
   .keyword .null, .keyword .this, .category .identifier, .symbol .leftParen, .symbol .minus,
   .symbol .tilde]

def meetClassVarDecs (c : Cursor) : Step :=
  match c.keyword? with
  | some (k, t, d) =>
    if k = .static ∨ k = .field then
      ⟨[.enter .classVarDec, .take t],
       [.typed (.ofClass (if k = .static then .static else .field)) 0, .classVarDecs], d⟩
    else ⟨[], [], c⟩
  | none => ⟨[], [], c⟩

def meetSubroutineDecs (c : Cursor) : Step :=
  match c.keyword? with
  | some (k, t, d) =>
    match Role.ofKeyword? k with
    | some role =>
      ⟨[.startSubroutine, .enter .subroutineDec, .take t],
       [.resultType, .subroutineName role, .subroutineDecs], d⟩
    | none => ⟨[], [], c⟩
  | none => ⟨[], [], c⟩

/-- The goals after the last name of a declaration. -/
def Declaration.endGoals (d : Declaration) (count : UInt16) : List Goal :=
  match d with
  | .ofClass _ => [.due (.leave .classVarDec)]
  | .parameter => []
  | .locals role before start => [.due (.leave .varDec), .counted role before count start]

/-- What follows a declared name: another one, or the end of the declaration. -/
def meetAfterName (c : Cursor) (d : Declaration) (type : String) (count : UInt16)
    (position : Position) : Except CompileError Step :=
  match nextWord? count with
  | none => .error (.tooMany d.production (.variables d.kind) position)
  | some n =>
    match c.mark? .comma with
    | some (t, e) =>
      if d = .parameter then .ok ⟨[.take t], [.typed d n], e⟩
      else .ok ⟨[.take t], [.named d type n], e⟩
    | none =>
      if d = .parameter then .ok ⟨[], d.endGoals n, c⟩
      else
        match c.mark? .semicolon with
        | some (t, e) => .ok ⟨[.take t], d.endGoals n, e⟩
        | none => .error (c.badSyntax d.production [.symbol .semicolon])

/-- A subroutine from its name on. -/
def meetSubroutineName (c : Cursor) (role : Role) : Except CompileError Step :=
  match c.name? with
  | some (o, d) =>
    .ok ⟨.take o.token :: (if role = .method then [.declareThis d.found.position] else []),
      [.mark .subroutineDec .leftParen, .due (.enter .parameterList), .parameters,
       .due (.leave .parameterList), .mark .subroutineDec .rightParen, .due (.header o.name),
       .due (.enter .subroutineBody), .mark .subroutineBody .leftBrace, .body role 0,
       .due (.leave .subroutineDec)], d⟩
  | none => .error (c.noName .subroutineDec)

/-- The declarations of locals and the statements of a subroutine. -/
def meetBody (c : Cursor) (role : Role) (locals : UInt16) : Step :=
  match c.read? (.keyword .var) with
  | some (t, d) =>
    ⟨[.enter .varDec, .take t], [.typed (.locals role locals t.position) 0], d⟩
  | none =>
    ⟨[.preamble role],
     statementsGoals ++ [.mark .subroutineBody .rightBrace, .due (.complete locals),
       .due (.leave .subroutineBody)], c⟩

/-- Statements. A branching construct draws the next number for its labels. -/
def meetStatements (c : Cursor) : Step :=
  match c.keyword? with
  | some (.let_, t, d) =>
    ⟨[.enter .letStatement, .take t],
     [.letTarget, .due (.leave .letStatement), .statements], d⟩
  | some (.if_, t, d) =>
    ⟨[.enter .ifStatement, .take t],
     conditionGoals .ifStatement (Label.ifFalse.at c.constructs) ++ blockGoals .ifStatement
      ++ [.due (.emit [.goto (Label.ifEnd.at c.constructs),
            .label (Label.ifFalse.at c.constructs)]), .otherwise,
          .due (.emit [.label (Label.ifEnd.at c.constructs)]), .due (.leave .ifStatement),
          .statements], { d with constructs := c.constructs + 1 }⟩
  | some (.while_, t, d) =>
    ⟨[.enter .whileStatement, .take t, .emit [.label (Label.whileStart.at c.constructs)]],
     conditionGoals .whileStatement (Label.whileEnd.at c.constructs)
      ++ blockGoals .whileStatement
      ++ [.due (.emit [.goto (Label.whileStart.at c.constructs),
            .label (Label.whileEnd.at c.constructs)]), .due (.leave .whileStatement),
          .statements], { d with constructs := c.constructs + 1 }⟩
  | some (.do_, t, d) =>
    ⟨[.enter .doStatement, .take t],
     [.call .doStatement, .mark .doStatement .semicolon, .due (.emit [.pop .temp 0]),
      .due (.leave .doStatement), .statements], d⟩
  | some (.return_, t, d) =>
    ⟨[.enter .returnStatement, .take t],
     [.returned, .mark .returnStatement .semicolon, .due (.emit [.return_]),
      .due (.leave .returnStatement), .statements], d⟩
  | _ => ⟨[], [], c⟩

/-- The index and the value of a `let`. -/
def meetLetValue (c : Cursor) (target : Occurrence) : Step :=
  match c.mark? .leftBracket with
  | some (t, d) =>
    ⟨[.require .letStatement target, .take t, .load .letStatement target],
     expressionGoals ++ [.mark .letStatement .rightBracket, .due (.emit [.arithmetic .add]),
       .mark .letStatement .equal] ++ expressionGoals
      ++ [.mark .letStatement .semicolon, .due (.emit assignCode)], d⟩
  | none =>
    ⟨[], [.mark .letStatement .equal, .due (.require .letStatement target)] ++ expressionGoals
      ++ [.mark .letStatement .semicolon, .due (.store .letStatement target)], c⟩

/-- A term that starts with a name: an element of an array, a call or a variable. -/
def meetName (c : Cursor) (o : Occurrence) (d : Cursor) : Step :=
  if d.sees .leftBracket then
    ⟨[.mention o, .require .term o],
     [.mark .term .leftBracket, .due (.load .term o)] ++ expressionGoals
      ++ [.mark .term .rightBracket, .due (.emit fetchCode), .due (.leave .term)], d⟩
  else if d.sees .leftParen || d.sees .dot then
    ⟨[], [.call .term, .due (.leave .term)], c⟩
  else ⟨[.mention o, .load .term o, .leave .term], [], d⟩

def meetTerm (c : Cursor) : Except CompileError Step :=
  match c.rest with
  | [] => .error (c.badSyntax .term termStarts)
  | t :: rest =>
    match t.lexeme with
    | .integer n =>
      .ok ⟨[.take t, .emit [.push .constant n], .leave .term], [], c.to rest⟩
    | .string text => .ok ⟨[.take t, .emit (stringCode text), .leave .term], [], c.to rest⟩
    | .identifier name => .ok (meetName c ⟨name, t.position⟩ (c.to rest))
    | .keyword k =>
      match KeywordConstant.ofKeyword? k with
      | some constant => .ok ⟨[.take t, .emit constant.code, .leave .term], [], c.to rest⟩
      | none => .error (c.badSyntax .term termStarts)
    | .symbol s =>
      if s = .leftParen then
        .ok ⟨[.take t], expressionGoals ++ [.mark .term .rightParen, .due (.leave .term)],
          c.to rest⟩
      else
        match UnaryOp.ofMark? s with
        | some op =>
          .ok ⟨[.take t], [.due (.enter .term), .term,
            .due (.emitAt t.position [.arithmetic op.command]), .due (.leave .term)],
            c.to rest⟩
        | none => .error (c.badSyntax .term termStarts)

/-- Operators and operands. The waiting operators are applied, the last one first, when no other
follows. -/
def meetOperands (c : Cursor) (waiting : List (BinaryOp × Position)) : Step :=
  match c.rest with
  | ⟨.symbol s, p⟩ :: rest =>
    match BinaryOp.ofMark? s with
    | some op =>
      ⟨[.take ⟨.symbol s, p⟩],
       [.due (.enter .term), .term, .operands ((op, p) :: waiting)], c.to rest⟩
    | none => ⟨waiting.map fun w => .emitAt w.2 [w.1.instruction], [], c⟩
  | _ => ⟨waiting.map fun w => .emitAt w.2 [w.1.instruction], [], c⟩

/-- A call from its first name on. -/
def meetCallee (c : Cursor) (p : Production) (first : Occurrence) : Step :=
  match c.mark? .dot with
  | some (t, d) => ⟨[.take t], [.member p first], d⟩
  | none => ⟨[.emit [.push .pointer 0]], argumentsGoals p (.own first), c⟩

/-- What follows an argument: another one, or the end of the call. -/
def meetMoreArguments (c : Cursor) (p : Production) (callee : Callee) (count : UInt16)
    (position : Position) : Except CompileError Step :=
  match nextWord? count with
  | none => .error (.tooMany .expressionList .callArguments position)
  | some n =>
    match c.mark? .comma with
    | some (t, d) =>
      .ok ⟨[.take t], expressionGoals ++ [.moreArguments p callee n d.found.position], d⟩
    | none => .ok ⟨[], callGoals p callee n, c⟩

def Goal.meet (c : Cursor) : Goal → Except CompileError Step
  | .due a => .ok ⟨[a], [], c⟩
  | .mark p s =>
    match c.mark? s with
    | some (t, d) => .ok ⟨[.take t], [], d⟩
    | none => .error (c.badSyntax p [.symbol s])
  | .classWord =>
    match c.read? (.keyword .class_) with
    | some (t, d) => .ok ⟨[.take t], [], d⟩
    | none => .error (c.badSyntax .class_ [.keyword .class_])
  | .className =>
    match c.name? with
    | some (o, d) => .ok ⟨[.take o.token, .nameClass o.name], [], d⟩
    | none => .error (c.noName .class_)
  | .classVarDecs => .ok (meetClassVarDecs c)
  | .subroutineDecs => .ok (meetSubroutineDecs c)
  | .endOfFile =>
    match c.rest with
    | [] => .ok ⟨[], [], c⟩
    | _ :: _ => .error (c.badSyntax .class_ [.category .endOfFile])
  | .typed d count =>
    match c.type d.production with
    | .ok (type, t, e) => .ok ⟨[.take t], [.named d type count], e⟩
    | .error e => .error e
  | .named d type count =>
    match c.name? with
    | some (o, e) =>
      .ok ⟨[.declare d.production o type d.kind], [.afterName d type count o.position], e⟩
    | none => .error (c.noName d.production)
  | .afterName d type count position => meetAfterName c d type count position
  | .resultType =>
    match c.read? (.keyword .void) with
    | some (t, d) => .ok ⟨[.take t], [], d⟩
    | none =>
      match c.type .subroutineDec with
      | .ok (_, t, d) => .ok ⟨[.take t], [], d⟩
      | .error e => .error e
  | .subroutineName role => meetSubroutineName c role
  | .parameters =>
    if c.sees .rightParen then .ok ⟨[], [], c⟩ else .ok ⟨[], [.typed .parameter 0], c⟩
  | .counted role before count start =>
    match addWords? count before with
    | some n => .ok ⟨[], [.body role n], c⟩
    | none => .error (.tooMany .subroutineBody (.variables .var) start)
  | .body role locals => .ok (meetBody c role locals)
  | .statements => .ok (meetStatements c)
  | .letTarget =>
    match c.name? with
    | some (o, d) => .ok ⟨[.mention o], [.letValue o], d⟩
    | none => .error (c.noName .letStatement)
  | .letValue target => .ok (meetLetValue c target)
  | .otherwise =>
    match c.read? (.keyword .else_) with
    | some (t, d) => .ok ⟨[.take t], blockGoals .ifStatement, d⟩
    | none => .ok ⟨[], [], c⟩
  | .returned =>
    if c.sees .semicolon then .ok ⟨[.emit [.push .constant 0]], [], c⟩
    else .ok ⟨[], expressionGoals, c⟩
  | .term => meetTerm c
  | .operands waiting => .ok (meetOperands c waiting)
  | .call p =>
    match c.name? with
    | some (o, d) => .ok ⟨[.mentionFirst o], [.callee p o], d⟩
    | none => .error (c.noName p)
  | .callee p first => .ok (meetCallee c p first)
  | .member p owner =>
    match c.name? with
    | some (o, d) =>
      .ok ⟨[.take o.token, .loadReceiver owner], argumentsGoals p (.member owner o.name), d⟩
    | none => .error (c.noName p)
  | .arguments p target =>
    if c.sees .rightParen then .ok ⟨[], callGoals p target 0, c⟩
    else .ok ⟨[], expressionGoals ++ [.moreArguments p target 0 c.found.position], c⟩
  | .moreArguments p target count position => meetMoreArguments c p target count position

end Jack
