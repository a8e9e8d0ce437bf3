/-!
The productions of the grammar that outlines and messages name.
-/

namespace Jack

inductive Production where
  | class_ | classVarDec | subroutineDec | parameterList | subroutineBody | varDec
  | statements | letStatement | ifStatement | whileStatement | doStatement | returnStatement
  | expression | term | expressionList
  deriving DecidableEq, Repr

def Production.name : Production → String
  | .class_ => "class"
  | .classVarDec => "classVarDec"
  | .subroutineDec => "subroutineDec"
  | .parameterList => "parameterList"
  | .subroutineBody => "subroutineBody"
  | .varDec => "varDec"
  | .statements => "statements"
  | .letStatement => "letStatement"
  | .ifStatement => "ifStatement"
  | .whileStatement => "whileStatement"
  | .doStatement => "doStatement"
  | .returnStatement => "returnStatement"
  | .expression => "expression"
  | .term => "term"
  | .expressionList => "expressionList"

end Jack
