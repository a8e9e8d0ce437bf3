import Jack.Code
import Jack.Production

/-!
What the grammar asks for while it recognises a class. A script is the list of these actions in
the order of the tokens. They need the declarations that precede them, but no token that follows.
-/

namespace Jack

/-- A name and the place where it stands. -/
structure Occurrence where
  name : String
  position : Position
  deriving DecidableEq, Repr

def Occurrence.token (o : Occurrence) : Token := ⟨.identifier o.name, o.position⟩

/-- What a call names: a subroutine of the current object, or one of a variable or a class. -/
inductive Callee where
  | own (name : Occurrence)
  | member (owner : Occurrence) (name : String)
  deriving DecidableEq, Repr

/-- The first name of a call, which gives the call its place. -/
def Callee.first : Callee → Occurrence
  | .own name => name
  | .member owner _ => owner

inductive Action where
  /-- A production begins. -/
  | enter (production : Production)
  /-- A production ends. -/
  | leave (production : Production)
  /-- A token is read that is no variable. -/
  | take (token : Token)
  /-- The class has this name. -/
  | nameClass (name : String)
  /-- The arguments and locals of the subroutine before go out of scope. -/
  | startSubroutine
  /-- A name is read and declared as a variable. -/
  | declare (production : Production) (name : Occurrence) (type : String) (kind : Kind)
  /-- The hidden first argument of a method is declared. -/
  | declareThis (position : Position)
  /-- A name is read that should stand for a variable. -/
  | mention (name : Occurrence)
  /-- The first name of a call is read; it may stand for a variable. -/
  | mentionFirst (name : Occurrence)
  /-- A name has to stand for a variable. -/
  | require (production : Production) (name : Occurrence)
  /-- The variable of a name is pushed. -/
  | load (production : Production) (name : Occurrence)
  /-- The variable of a name is popped into. -/
  | store (production : Production) (name : Occurrence)
  /-- The variable of a name is pushed if the name stands for one. -/
  | loadReceiver (name : Occurrence)
  /-- Instructions are emitted at the present place. -/
  | emit (code : List Instruction)
  /-- Instructions are emitted at a place of their own. -/
  | emitAt (position : Position) (code : List Instruction)
  /-- A call with this many arguments in parentheses is emitted. -/
  | call (production : Production) (callee : Callee) (args : UInt16)
  /-- A function header is emitted. -/
  | header (name : String)
  /-- What comes before a subroutine's statements is emitted. -/
  | preamble (role : Role)
  /-- The subroutine is complete, with this many locals. -/
  | complete (locals : UInt16)
  deriving DecidableEq, Repr

end Jack
