import Jack.Script.Basic
import Jack.Session

/-!
Compiling a class: its tokens give a script, and a session performs the script. What the session
has built up to the first error stays visible.
-/

namespace Jack

/-- What a compilation has built, and the error that ended it. -/
structure Compilation where
  session : Session
  error? : Option CompileError

def Compilation.instructions (c : Compilation) : List Emitted := c.session.listing.lines.toList

def Compilation.outline? (c : Compilation) : Option String :=
  c.session.outline?.map Outline.render

/-- Performs a script. An action that cannot be performed comes before the fault that ended the
script. -/
def Script.compile (script : Script) (outlined : Bool) : Compilation :=
  match (Session.initial outlined).performAll script.actions.toList with
  | (session, some e) => ⟨session, some e⟩
  | (session, none) => ⟨session, script.fault?⟩

def TokenStream.compile (stream : TokenStream) (outlined : Bool) : Compilation :=
  (Script.ofTokens stream).compile outlined

structure CompiledClass where
  name : String
  instructions : List Emitted
  outline? : Option String

def CompiledClass.code (c : CompiledClass) : String := render c.instructions

/-- The class that a compilation ended in, if it met no error. -/
def Compilation.result (c : Compilation) : Except CompileError CompiledClass :=
  match c.error? with
  | some e => .error e
  | none => .ok ⟨c.session.className, c.instructions, c.outline?⟩

/-- Compiles a source up to its first error, once it is read as tokens. -/
def compilation (source : String) (outlined : Bool) : Except LexError Compilation :=
  match tokenize source with
  | .ok stream => .ok (stream.compile outlined)
  | .error e => .error e

/-- Compiles a source to a class, with an outline if one is wanted. -/
def compile (source : String) (outlined : Bool) : Except CompileError CompiledClass :=
  match compilation source outlined with
  | .ok c => c.result
  | .error e => .error (.lexical e)

end Jack
