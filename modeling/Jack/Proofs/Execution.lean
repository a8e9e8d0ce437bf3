import Jack.Proofs.Evaluation

/-! What statements do: they run in order over a state, until one of them returns a word. -/

namespace Jack

structure State where
  frame : Frame
  store : Store

def State.assign (s : State) (v : Variable) (w : Word) : State :=
  match v.kind with
  | .static => { s with store.statics := putWord s.store.statics v.index w }
  | .field => { s with store.heap := putWord s.store.heap (s.frame.this + v.index) w }
  | .argument => { s with frame.arguments := putWord s.frame.arguments v.index w }
  | .var => { s with frame.locals := putWord s.frame.locals v.index w }

def State.put (s : State) (address w : Word) : State :=
  { s with store.heap := putWord s.store.heap address w }

mutual

/-- How many `return` statements a statement holds. -/
def Statement.returns : Statement → Nat
  | .letVariable _ _ | .letElement _ _ _ | .do_ _ => 0
  | .if_ _ body otherwise => returnsOf body + returnsOfOtherwise otherwise
  | .while_ _ body => returnsOf body
  | .return_ _ => 1

def returnsOf : List Statement → Nat
  | [] => 0
  | s :: ss => s.returns + returnsOf ss

def returnsOfOtherwise : Option (List Statement) → Nat
  | none => 0
  | some body => returnsOf body

end

/-- How statements end: at their end, or at the `return` statement that has `later` others after it
in the text, with a word for the caller. -/
inductive Outcome where
  | through
  | returned (later : Nat) (w : Word)

/-- The statements run from a state to an outcome and a state. A condition holds when its word is
all ones. Nothing is derived for statements that do not end. -/
inductive Executes (library : Library) (k : Context) :
    List Statement → State → Outcome → State → Prop
  | nil (s : State) : Executes library k [] s .through s
  | letVariable {target : String} {value : Expression} {rest : List Statement} {s t : State}
      {v : Variable} {w : Word} {u : Store} {o : Outcome}
      (hv : k.lookup target = some v)
      (he : value.eval library k s.frame s.store = some (w, u))
      (hrest : Executes library k rest (State.assign ⟨s.frame, u⟩ v w) o t) :
      Executes library k (.letVariable target value :: rest) s o t
  | letElement {target : String} {index value : Expression} {rest : List Statement} {s t : State}
      {base offset w : Word} {u u' : Store} {o : Outcome}
      (hb : k.value s.frame s.store target = some base)
      (hi : index.eval library k s.frame s.store = some (offset, u))
      (he : value.eval library k s.frame u = some (w, u'))
      (hrest : Executes library k rest (State.put ⟨s.frame, u'⟩ (base + offset) w) o t) :
      Executes library k (.letElement target index value :: rest) s o t
  | then_ {condition : Expression} {body : List Statement} {otherwise : Option (List Statement)}
      {rest : List Statement} {s t t' : State} {u : Store} {o : Outcome}
      (hc : condition.eval library k s.frame s.store = some (65535, u))
      (hbody : Executes library k body ⟨s.frame, u⟩ .through t)
      (hrest : Executes library k rest t o t') :
      Executes library k (.if_ condition body otherwise :: rest) s o t'
  | else_ {condition : Expression} {body : List Statement} {otherwise : Option (List Statement)}
      {rest : List Statement} {s t t' : State} {w : Word} {u : Store} {o : Outcome}
      (hc : condition.eval library k s.frame s.store = some (w, u)) (hw : w ≠ 65535)
      (hbody : Executes library k (otherwise.getD []) ⟨s.frame, u⟩ .through t)
      (hrest : Executes library k rest t o t') :
      Executes library k (.if_ condition body otherwise :: rest) s o t'
  | thenReturn {condition : Expression} {body : List Statement}
      {otherwise : Option (List Statement)} {rest : List Statement} {s t : State} {later : Nat}
      {x : Word} {u : Store}
      (hc : condition.eval library k s.frame s.store = some (65535, u))
      (hbody : Executes library k body ⟨s.frame, u⟩ (.returned later x) t) :
      Executes library k (.if_ condition body otherwise :: rest) s
        (.returned (later + returnsOfOtherwise otherwise + returnsOf rest) x) t
  | elseReturn {condition : Expression} {body : List Statement}
      {otherwise : Option (List Statement)} {rest : List Statement} {s t : State} {later : Nat}
      {w x : Word} {u : Store}
      (hc : condition.eval library k s.frame s.store = some (w, u)) (hw : w ≠ 65535)
      (hbody : Executes library k (otherwise.getD []) ⟨s.frame, u⟩ (.returned later x) t) :
      Executes library k (.if_ condition body otherwise :: rest) s
        (.returned (later + returnsOf rest) x) t
  | whileEnd {condition : Expression} {body rest : List Statement} {s t : State} {w : Word}
      {u : Store} {o : Outcome}
      (hc : condition.eval library k s.frame s.store = some (w, u)) (hw : w ≠ 65535)
      (hrest : Executes library k rest ⟨s.frame, u⟩ o t) :
      Executes library k (.while_ condition body :: rest) s o t
  | whileStep {condition : Expression} {body rest : List Statement} {s t t' : State} {u : Store}
      {o : Outcome}
      (hc : condition.eval library k s.frame s.store = some (65535, u))
      (hbody : Executes library k body ⟨s.frame, u⟩ .through t)
      (hagain : Executes library k (.while_ condition body :: rest) t o t') :
      Executes library k (.while_ condition body :: rest) s o t'
  | whileReturn {condition : Expression} {body rest : List Statement} {s t : State} {later : Nat}
      {x : Word} {u : Store}
      (hc : condition.eval library k s.frame s.store = some (65535, u))
      (hbody : Executes library k body ⟨s.frame, u⟩ (.returned later x) t) :
      Executes library k (.while_ condition body :: rest) s
        (.returned (later + returnsOf rest) x) t
  | do_ {call : Call} {rest : List Statement} {s t : State} {w : Word} {u : Store} {o : Outcome}
      (hc : call.eval library k s.frame s.store = some (w, u))
      (hrest : Executes library k rest ⟨s.frame, u⟩ o t) :
      Executes library k (.do_ call :: rest) s o t
  | returnNone (rest : List Statement) (s : State) :
      Executes library k (.return_ none :: rest) s (.returned (returnsOf rest) 0) s
  | returnSome {value : Expression} {rest : List Statement} {s : State} {w : Word} {u : Store}
      (he : value.eval library k s.frame s.store = some (w, u)) :
      Executes library k (.return_ (some value) :: rest) s (.returned (returnsOf rest) w)
        ⟨s.frame, u⟩

theorem eval_unique {a : Option (Word × Store)} {w w' : Word} {u u' : Store}
    (h : a = some (w, u)) (h' : a = some (w', u')) : w = w' ∧ u = u' :=
  Prod.mk.inj (Option.some.inj (h.symm.trans h'))

/-- Statements run to one outcome and one state at most. -/
theorem Executes.unique {library : Library} {k : Context} {ss : List Statement} {s t t' : State}
    {o o' : Outcome} (h : Executes library k ss s o t) (h' : Executes library k ss s o' t') :
    o = o' ∧ t = t' := by
  induction h generalizing o' t' with
  | nil s =>
    cases h'
    exact ⟨rfl, rfl⟩
  | letVariable hv he hrest ih =>
    cases h' with
    | letVariable hv' he' hrest' =>
      obtain rfl := Option.some.inj (hv.symm.trans hv')
      obtain ⟨rfl, rfl⟩ := eval_unique he he'
      exact ih hrest'
  | letElement hb hi he hrest ih =>
    cases h' with
    | letElement hb' hi' he' hrest' =>
      obtain rfl := Option.some.inj (hb.symm.trans hb')
      obtain ⟨rfl, rfl⟩ := eval_unique hi hi'
      obtain ⟨rfl, rfl⟩ := eval_unique he he'
      exact ih hrest'
  | then_ hc hbody hrest ihbody ihrest =>
    cases h' with
    | then_ hc' hbody' hrest' =>
      obtain ⟨-, rfl⟩ := eval_unique hc hc'
      obtain ⟨-, rfl⟩ := ihbody hbody'
      exact ihrest hrest'
    | else_ hc' hw' hbody' hrest' => exact absurd (eval_unique hc hc').1.symm hw'
    | thenReturn hc' hbody' =>
      obtain ⟨-, rfl⟩ := eval_unique hc hc'
      cases (ihbody hbody').1
    | elseReturn hc' hw' hbody' => exact absurd (eval_unique hc hc').1.symm hw'
  | else_ hc hw hbody hrest ihbody ihrest =>
    cases h' with
    | then_ hc' hbody' hrest' => exact absurd (eval_unique hc hc').1 hw
    | else_ hc' hw' hbody' hrest' =>
      obtain ⟨-, rfl⟩ := eval_unique hc hc'
      obtain ⟨-, rfl⟩ := ihbody hbody'
      exact ihrest hrest'
    | thenReturn hc' hbody' => exact absurd (eval_unique hc hc').1 hw
    | elseReturn hc' hw' hbody' =>
      obtain ⟨-, rfl⟩ := eval_unique hc hc'
      cases (ihbody hbody').1
  | thenReturn hc hbody ih =>
    cases h' with
    | then_ hc' hbody' hrest' =>
      obtain ⟨-, rfl⟩ := eval_unique hc hc'
      cases (ih hbody').1
    | else_ hc' hw' hbody' hrest' => exact absurd (eval_unique hc hc').1.symm hw'
    | thenReturn hc' hbody' =>
      obtain ⟨-, rfl⟩ := eval_unique hc hc'
      obtain ⟨ho, rfl⟩ := ih hbody'
      cases ho
      exact ⟨rfl, rfl⟩
    | elseReturn hc' hw' hbody' => exact absurd (eval_unique hc hc').1.symm hw'
  | elseReturn hc hw hbody ih =>
    cases h' with
    | then_ hc' hbody' hrest' => exact absurd (eval_unique hc hc').1 hw
    | else_ hc' hw' hbody' hrest' =>
      obtain ⟨-, rfl⟩ := eval_unique hc hc'
      cases (ih hbody').1
    | thenReturn hc' hbody' => exact absurd (eval_unique hc hc').1 hw
    | elseReturn hc' hw' hbody' =>
      obtain ⟨-, rfl⟩ := eval_unique hc hc'
      obtain ⟨ho, rfl⟩ := ih hbody'
      cases ho
      exact ⟨rfl, rfl⟩
  | whileEnd hc hw hrest ih =>
    cases h' with
    | whileEnd hc' hw' hrest' =>
      obtain ⟨-, rfl⟩ := eval_unique hc hc'
      exact ih hrest'
    | whileStep hc' hbody' hagain' => exact absurd (eval_unique hc hc').1 hw
    | whileReturn hc' hbody' => exact absurd (eval_unique hc hc').1 hw
  | whileStep hc hbody hagain ihbody ihagain =>
    cases h' with
    | whileEnd hc' hw' hrest' => exact absurd (eval_unique hc hc').1.symm hw'
    | whileStep hc' hbody' hagain' =>
      obtain ⟨-, rfl⟩ := eval_unique hc hc'
      obtain ⟨-, rfl⟩ := ihbody hbody'
      exact ihagain hagain'
    | whileReturn hc' hbody' =>
      obtain ⟨-, rfl⟩ := eval_unique hc hc'
      cases (ihbody hbody').1
  | whileReturn hc hbody ih =>
    cases h' with
    | whileEnd hc' hw' hrest' => exact absurd (eval_unique hc hc').1.symm hw'
    | whileStep hc' hbody' hagain' =>
      obtain ⟨-, rfl⟩ := eval_unique hc hc'
      cases (ih hbody').1
    | whileReturn hc' hbody' =>
      obtain ⟨-, rfl⟩ := eval_unique hc hc'
      obtain ⟨ho, rfl⟩ := ih hbody'
      cases ho
      exact ⟨rfl, rfl⟩
  | do_ hc hrest ih =>
    cases h' with
    | do_ hc' hrest' =>
      obtain ⟨-, rfl⟩ := eval_unique hc hc'
      exact ih hrest'
  | returnNone rest s =>
    cases h'
    exact ⟨rfl, rfl⟩
  | returnSome he =>
    cases h' with
    | returnSome he' =>
      obtain ⟨rfl, rfl⟩ := eval_unique he he'
      exact ⟨rfl, rfl⟩

/-- What happens before the statements: a constructor gets a new object of as many words as the
class has fields, a method takes its object from its first argument. -/
def Role.enter (library : Library) (fields : Nat) (s : State) : Role → State
  | .constructor =>
    let (w, store) := library "Memory.alloc" [UInt16.ofNat fields] s.store
    ⟨{ s.frame with this := w }, store⟩
  | .function => s
  | .method => ⟨{ s.frame with this := s.frame.arguments 0 }, s.store⟩

def ClassDec.Executes (library : Library) (c : ClassDec) (d : SubroutineDec) (s : State)
    (o : Outcome) (t : State) : Prop :=
  Jack.Executes library (c.context d) d.body (d.role.enter library c.fieldCount s) o t

end Jack
