import Jack.Diagnostic
import Jack.Outline
import Jack.Script.Action
import Jack.Vm.Listing

/-!
A session performs the actions of a script. It keeps the variables in scope, the listing, the
outline if one is wanted, the name of the class and the header of the subroutine at hand. The
first action that cannot be performed ends the session.
-/

namespace Jack

/-- What the actions performed so far have built. -/
structure Session where
  scope : Scope
  listing : Listing
  outline? : Option Outline
  className : String
  slot? : Option HeaderSlot

def Session.initial (outlined : Bool) : Session :=
  ⟨.empty, .empty, if outlined then some .empty else none, "", none⟩

def Session.note (s : Session) (e : OutlineEntry) : Session :=
  { s with outline? := s.outline?.map fun o => o.add e }

def Session.moveTo (s : Session) (p : Position) : Session :=
  { s with listing := s.listing.moveTo p }

def Session.emit (s : Session) (code : List Instruction) : Session :=
  { s with listing := s.listing.emitAll code }

/-- Declares a variable, whose index the scope decides. -/
def Session.define (s : Session) (p : Production) (name type : String) (kind : Kind)
    (position : Position) : Session × Option CompileError :=
  match s.scope.define? name type kind with
  | some scope => ({ s with scope := scope }, none)
  | none => (s, some (.tooMany p (.variables kind) position))

/-- Goes on with the variable that a name has to stand for. -/
def Session.resolve (s : Session) (p : Production) (o : Occurrence)
    (next : Session → Variable → Session) : Session × Option CompileError :=
  match s.scope.lookup o.name with
  | some v => (next s v, none)
  | none => (s, some (.undefinedVariable p o.name o.position))

/-- What a call calls, and how many arguments it passes before those in parentheses. -/
def Session.target (s : Session) : Callee → String × UInt16
  | .own name => (qualified s.className name.name, 1)
  | .member owner name =>
    match s.scope.lookup owner.name with
    | some v => (qualified v.type name, 1)
    | none => (qualified owner.name name, 0)

/-- Emits a call with `args` arguments in parentheses. -/
def Session.call (s : Session) (p : Production) (callee : Callee) (args : UInt16) :
    Session × Option CompileError :=
  match s.target callee with
  | (name, hidden) =>
    match addWords? args hidden with
    | some n => ((s.moveTo callee.first.position).emit [.call name n], none)
    | none => (s, some (.tooMany p .callArguments callee.first.position))

/-- Emits a function header and keeps its slot. -/
def Session.header (s : Session) (name : String) : Session :=
  let slot := s.listing.slot (qualified s.className name)
  { s with listing := s.listing.header slot.name, slot? := some slot }

/-- Writes the local count into the header of the subroutine at hand. -/
def Session.complete (s : Session) (locals : UInt16) : Session × Option CompileError :=
  match s with
  | ⟨scope, listing, outline?, className, some slot⟩ =>
    match listing.patch slot locals with
    | (listing, true) => (⟨scope, listing, outline?, className, none⟩, none)
    | (listing, false) =>
      (⟨scope, listing, outline?, className, some slot⟩,
        some (.missingHeader slot.name slot.offset))
  | s => (s, none)

/-- Performs one action, or says why it cannot be performed. -/
def Session.perform (s : Session) : Action → Session × Option CompileError
  | .enter p => (s.note (.enter p.name), none)
  | .leave p => (s.note (.leave p.name), none)
  | .take t => ((s.moveTo t.position).note (.leaf t.lexeme), none)
  | .nameClass name => ({ s with className := name }, none)
  | .startSubroutine => ({ s with scope := s.scope.startSubroutine }, none)
  | .declare p o type kind =>
    match (s.moveTo o.position).define p o.name type kind o.position with
    | (t, none) => (t.note (.variable o.name true (t.scope.lookup o.name)), none)
    | (t, some e) => (t, some e)
  | .declareThis position => s.define .subroutineDec thisName s.className .argument position
  | .mention o => ((s.moveTo o.position).note (.variable o.name false (s.scope.lookup o.name)), none)
  | .mentionFirst o =>
    match s.scope.lookup o.name with
    | some v => ((s.moveTo o.position).note (.variable o.name false (some v)), none)
    | none => ((s.moveTo o.position).note (.leaf (.identifier o.name)), none)
  | .require p o => s.resolve p o fun t _ => t
  | .load p o => s.resolve p o fun t v => t.emit [v.pushCode]
  | .store p o => s.resolve p o fun t v => t.emit [v.popCode]
  | .loadReceiver o =>
    match s.scope.lookup o.name with
    | some v => (s.emit [v.pushCode], none)
    | none => (s, none)
  | .emit code => (s.emit code, none)
  | .emitAt p code => ((s.moveTo p).emit code, none)
  | .call p callee args => s.call p callee args
  | .header name => (s.header name, none)
  | .preamble role => (s.emit (role.preamble (s.scope.count .field)), none)
  | .complete locals => s.complete locals

/-- Performs actions in order, until one cannot be performed. -/
def Session.performAll (s : Session) : List Action → Session × Option CompileError
  | [] => (s, none)
  | a :: rest =>
    match s.perform a with
    | (t, none) => t.performAll rest
    | (t, some e) => (t, some e)

@[simp] theorem Session.performAll_nil (s : Session) : s.performAll [] = (s, none) := rfl

theorem Session.performAll_cons (s : Session) (a : Action) (rest : List Action) :
    s.performAll (a :: rest)
      = match s.perform a with
        | (t, none) => t.performAll rest
        | (t, some e) => (t, some e) := rfl

/-- Actions that follow others are performed if those were, in the session that they left. -/
theorem Session.performAll_append (s : Session) (actions more : List Action) :
    s.performAll (actions ++ more)
      = match s.performAll actions with
        | (t, none) => t.performAll more
        | (t, some e) => (t, some e) := by
  induction actions generalizing s with
  | nil => rfl
  | cons a actions ih =>
    rw [List.cons_append, Session.performAll_cons, Session.performAll_cons]
    split
    · exact ih _
    · rfl

end Jack
