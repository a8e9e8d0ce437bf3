import Jack.Production
import Jack.Scope
import Jack.Token.Lexer

/-!
Why a class cannot be compiled. The first cause ends the compilation.
-/

namespace Jack

/-- What the grammar admits at a place. -/
inductive Expectation where
  | keyword (word : Keyword)
  | symbol (mark : Punctuation)
  | category (category : Category)
  | className
  deriving DecidableEq, Repr

def Expectation.text : Expectation → String
  | .keyword k => "'" ++ k.spelling ++ "'"
  | .symbol s => "'" ++ s.char.toString ++ "'"
  | .category c => c.name
  | .className => "class name"

inductive Excess where
  | variables (kind : Kind)
  | callArguments
  deriving DecidableEq, Repr

def Excess.text : Excess → String
  | .variables .static => "static variables"
  | .variables .field => "fields"
  | .variables .argument => "arguments"
  | .variables .var => "local variables"
  | .callArguments => "call arguments"

inductive CompileError where
  /-- The text cannot be read as tokens. -/
  | lexical (error : LexError)
  /-- The production admits none of the tokens that stand there. -/
  | badSyntax (production : Production) (found : Found) (expected : List Expectation)
  /-- A token of another category is needed. -/
  | wrongCategory (production : Production) (found : Found) (expected : Category)
  /-- A name used as a variable stands for none. -/
  | undefinedVariable (production : Production) (name : String) (position : Position)
  /-- A count went past what a word of 16 bits holds. -/
  | tooMany (production : Production) (excess : Excess) (position : Position)
  /-- No function header of the name stands where its slot says. -/
  | missingHeader (name : String) (offset : Nat)
  deriving DecidableEq, Repr

def CompileError.position? : CompileError → Option Position
  | .lexical e => some e.position
  | .badSyntax _ found _ | .wrongCategory _ found _ => some found.position
  | .undefinedVariable _ _ p | .tooMany _ _ p => some p
  | .missingHeader _ _ => none

/-- The offending token, where the error is about one. -/
def CompileError.found? : CompileError → Option Found
  | .badSyntax _ found _ | .wrongCategory _ found _ => some found
  | _ => none

def Position.phrase (p : Position) : String :=
  "at line " ++ toString p.line ++ ", column " ++ toString p.column

def alternatives : List String → String
  | [] => ""
  | [s] => s
  | s :: rest => s ++ " or " ++ alternatives rest

def Found.phrase (f : Found) (p : Production) : String :=
  f.position.phrase ++ " in " ++ p.name ++ ": found " ++ f.category.name ++ " '" ++ f.text ++ "'"

def CompileError.message : CompileError → String
  | .lexical e => e.message
  | .badSyntax p found expected =>
    "Syntax error " ++ found.phrase p ++ ", expected "
      ++ alternatives (expected.map Expectation.text)
  | .wrongCategory p found expected =>
    "Unexpected token type " ++ found.phrase p ++ ", expected " ++ expected.name
  | .undefinedVariable p name position =>
    "Undefined variable '" ++ name ++ "' " ++ position.phrase ++ " in " ++ p.name
  | .tooMany p excess position =>
    "Too many " ++ excess.text ++ " " ++ position.phrase ++ " in " ++ p.name
      ++ ": at most 65535 are allowed"
  | .missingHeader name offset =>
    "Internal error: no function header for '" ++ name ++ "' at output offset "
      ++ toString offset

end Jack
