import Mathlib.Data.List.Count
import Jack.Proofs.Syntax
import Jack.Scope

/-! What the declarations of a class put into force, as plain lists of variables, and the scope
that keeps the same variables. Indices count the earlier declarations of the kind. -/

namespace Jack

structure Declared where
  name : String
  type : String
  kind : Kind
  deriving DecidableEq, Repr

/-- The variables in force, newest first. Those of the subroutine hide those of the class. -/
structure Environment where
  ofClass : List Variable
  ofSubroutine : List Variable

namespace Environment

def empty : Environment := ⟨[], []⟩

/-- The variables among which a kind is counted. -/
def layer (e : Environment) (kind : Kind) : List Variable :=
  if kind.ofClass then e.ofClass else e.ofSubroutine

def count (e : Environment) (kind : Kind) : Nat := (e.layer kind).countP (·.kind = kind)

def startSubroutine (e : Environment) : Environment := { e with ofSubroutine := [] }

def declare (e : Environment) (d : Declared) : Environment :=
  let v : Variable := ⟨d.name, d.type, d.kind, UInt16.ofNat (e.count d.kind)⟩
  if d.kind.ofClass then { e with ofClass := v :: e.ofClass }
  else { e with ofSubroutine := v :: e.ofSubroutine }

def declareAll (e : Environment) (ds : List Declared) : Environment := ds.foldl declare e

def lookup (e : Environment) (name : String) : Option Variable :=
  (e.ofSubroutine.find? (·.name = name)).or (e.ofClass.find? (·.name = name))

@[simp] theorem declareAll_nil (e : Environment) : e.declareAll [] = e := rfl

@[simp] theorem declareAll_cons (e : Environment) (d : Declared) (ds : List Declared) :
    e.declareAll (d :: ds) = (e.declare d).declareAll ds := rfl

theorem declareAll_append (e : Environment) (ds more : List Declared) :
    e.declareAll (ds ++ more) = (e.declareAll ds).declareAll more :=
  List.foldl_append

theorem count_declare (e : Environment) (d : Declared) (kind : Kind) :
    (e.declare d).count kind = e.count kind + if d.kind = kind then 1 else 0 := by
  by_cases hd : d.kind = kind
  · subst hd
    cases hc : d.kind.ofClass <;> simp [declare, count, layer, hc]
  · cases hc : d.kind.ofClass <;> cases hk : kind.ofClass <;>
      simp [declare, count, layer, hc, hk, hd]

theorem count_declareAll (e : Environment) (ds : List Declared) (kind : Kind) :
    (e.declareAll ds).count kind = e.count kind + ds.countP (·.kind = kind) := by
  induction ds generalizing e with
  | nil => simp
  | cons d ds ih =>
    rw [declareAll_cons, ih, count_declare, List.countP_cons]
    simp only [decide_eq_true_eq]
    omega

@[simp] theorem count_empty (kind : Kind) : empty.count kind = 0 := by
  cases kind <;> rfl

theorem count_startSubroutine (e : Environment) (kind : Kind) :
    e.startSubroutine.count kind = if kind.ofClass then e.count kind else 0 := by
  cases kind <;> rfl

theorem isSome_lookup_declare (e : Environment) (d : Declared) (name : String) :
    ((e.declare d).lookup name).isSome ↔ d.name = name ∨ (e.lookup name).isSome := by
  cases hc : d.kind.ofClass <;> by_cases hn : d.name = name <;>
    simp [declare, lookup, hc, hn, Option.isSome_or]

/-- A name stands for a variable if it was declared. -/
theorem isSome_lookup_declareAll (e : Environment) (ds : List Declared) (name : String) :
    ((e.declareAll ds).lookup name).isSome
      ↔ name ∈ ds.map Declared.name ∨ (e.lookup name).isSome := by
  induction ds generalizing e with
  | nil => simp
  | cons d ds ih =>
    rw [declareAll_cons, ih, isSome_lookup_declare, List.map_cons, List.mem_cons]
    constructor
    · rintro (h | rfl | h)
      · exact Or.inl (Or.inr h)
      · exact Or.inl (Or.inl rfl)
      · exact Or.inr h
    · rintro ((rfl | h) | h)
      · exact Or.inr (Or.inl rfl)
      · exact Or.inl h
      · exact Or.inr (Or.inr h)

theorem mem_declare {e : Environment} {d : Declared} {v : Variable}
    (h : v ∈ (e.declare d).ofClass ++ (e.declare d).ofSubroutine) :
    v = ⟨d.name, d.type, d.kind, UInt16.ofNat (e.count d.kind)⟩
      ∨ v ∈ e.ofClass ++ e.ofSubroutine := by
  unfold declare at h
  cases hk : d.kind.ofClass <;> simp only [hk, if_true, Bool.false_eq_true, if_false] at h <;>
    simp only [List.mem_append, List.mem_cons] at h ⊢ <;> tauto

/-- A variable in force was declared with its type, or was in force before. -/
theorem mem_declareAll {e : Environment} {ds : List Declared} {v : Variable}
    (h : v ∈ (e.declareAll ds).ofClass ++ (e.declareAll ds).ofSubroutine) :
    (∃ d ∈ ds, v.type = d.type) ∨ v ∈ e.ofClass ++ e.ofSubroutine := by
  induction ds generalizing e with
  | nil => exact Or.inr h
  | cons d ds ih =>
    rcases ih h with ⟨d', hd', htype⟩ | h
    · exact Or.inl ⟨d', List.mem_cons_of_mem _ hd', htype⟩
    · rcases mem_declare h with rfl | h
      · exact Or.inl ⟨d, List.mem_cons_self, rfl⟩
      · exact Or.inr h

theorem mem_of_lookup {e : Environment} {name : String} {v : Variable}
    (h : e.lookup name = some v) : v ∈ e.ofClass ++ e.ofSubroutine := by
  rcases Option.or_eq_some_iff.1 h with h | ⟨-, h⟩
  · exact List.mem_append_right _ (List.mem_of_find?_eq_some h)
  · exact List.mem_append_left _ (List.mem_of_find?_eq_some h)

end Environment

/-! ### The scope of an environment -/

/-- The scope finds and counts the variables of the environment. -/
structure Scope.Keeps (s : Scope) (e : Environment) : Prop where
  ofClass : ∀ name : String, s.ofClass[name]? = e.ofClass.find? (·.name = name)
  ofSubroutine : ∀ name : String, s.ofSubroutine[name]? = e.ofSubroutine.find? (·.name = name)
  count : ∀ kind, (s.count kind).toNat = e.count kind

namespace Scope.Keeps

variable {s t : Scope} {e : Environment}

theorem empty : Scope.empty.Keeps Environment.empty :=
  ⟨fun _ => by simp [Scope.empty, Environment.empty],
    fun _ => by simp [Scope.empty, Environment.empty], fun kind => by cases kind <;> rfl⟩

theorem lookup (h : s.Keeps e) : s.lookup = e.lookup := by
  funext name
  rw [Scope.lookup, Environment.lookup, h.ofClass, h.ofSubroutine]

theorem startSubroutine (h : s.Keeps e) : s.startSubroutine.Keeps e.startSubroutine := by
  refine ⟨h.ofClass, fun name => ?_, fun kind => ?_⟩
  · simp [Scope.startSubroutine, Environment.startSubroutine]
  · rw [Scope.count_startSubroutine, Environment.count_startSubroutine]
    cases kind.ofClass
    · rfl
    · exact h.count kind

theorem define (h : s.Keeps e) {name type : String} {kind : Kind}
    (hd : s.define? name type kind = some t) : t.Keeps (e.declare ⟨name, type, kind⟩) := by
  obtain ⟨n, hn, rfl⟩ := Scope.define?_eq_some hd
  have hi : UInt16.ofNat (e.count kind) = s.count kind := by
    rw [← h.count kind, UInt16.ofNat_toNat]
  refine ⟨fun x => ?_, fun x => ?_, fun k => ?_⟩
  · have := h.ofClass x
    cases kind <;> by_cases hx : name = x <;>
      simp_all [Scope.add, Environment.declare, Kind.ofClass, Std.TreeMap.getElem?_insert]
  · have := h.ofSubroutine x
    cases kind <;> by_cases hx : name = x <;>
      simp_all [Scope.add, Environment.declare, Kind.ofClass, Std.TreeMap.getElem?_insert]
  · rw [Scope.count_add, Environment.count_declare]
    by_cases hk : kind = k
    · subst hk
      simp [toNat_of_nextWord? hn, h.count kind]
    · simp [hk, h.count k]

theorem define?_eq_none_iff (h : s.Keeps e) {name type : String} {kind : Kind} :
    s.define? name type kind = none ↔ e.count kind = 65535 := by
  rw [Scope.define?_eq_none_iff, ← h.count kind]
  exact ⟨fun hc => by rw [hc]; rfl, fun hc => UInt16.toNat.inj hc⟩

theorem count_le (h : s.Keeps e) (kind : Kind) : e.count kind ≤ 65535 := by
  have := (s.count kind).toNat_lt
  have := h.count kind
  omega

end Scope.Keeps

/-! ### The declarations of a class -/

def ClassVarDec.declared (d : ClassVarDec) : List Declared :=
  d.names.map fun name => ⟨name, d.type.spelling, d.kind⟩

def VarDec.declared (d : VarDec) : List Declared :=
  d.names.map fun name => ⟨name, d.type.spelling, .var⟩

def Parameter.declared (p : Parameter) : Declared := ⟨p.name, p.type.spelling, .argument⟩

/-- The object of a method is a hidden first argument. -/
def Role.hidden (className : String) : Role → List Declared
  | .method => [⟨thisName, className, .argument⟩]
  | .constructor | .function => []

def SubroutineDec.declared (className : String) (d : SubroutineDec) : List Declared :=
  d.role.hidden className ++ d.parameters.map Parameter.declared ++ d.vars.flatMap VarDec.declared

def ClassDec.declared (c : ClassDec) : List Declared := c.vars.flatMap ClassVarDec.declared

/-- The type of a declaration is a word of the class. -/
theorem ClassDec.exists_type_of_mem_declared {c : ClassDec} {e : Declared} (h : e ∈ c.declared) :
    ∃ t : TypeName, t.lexeme ∈ c.lexemes ∧ e.type = t.spelling := by
  obtain ⟨v, hv, he⟩ := List.mem_flatMap.1 h
  obtain ⟨name, -, rfl⟩ := List.mem_map.1 he
  exact ⟨v.type, ClassDec.mem_lexemes_of_var hv (by simp [ClassVarDec.lexemes]), rfl⟩

theorem SubroutineDec.exists_type_of_mem {d : SubroutineDec} {e : Declared}
    (h : e ∈ d.parameters.map Parameter.declared ++ d.vars.flatMap VarDec.declared) :
    ∃ t : TypeName, t.lexeme ∈ d.lexemes ∧ e.type = t.spelling := by
  rcases List.mem_append.1 h with h | h
  · obtain ⟨p, hp, rfl⟩ := List.mem_map.1 h
    exact ⟨p.type, SubroutineDec.mem_lexemes_of_parameter hp List.mem_cons_self, rfl⟩
  · obtain ⟨v, hv, he⟩ := List.mem_flatMap.1 h
    obtain ⟨name, -, rfl⟩ := List.mem_map.1 he
    exact ⟨v.type, SubroutineDec.mem_lexemes_of_var hv (by simp [VarDec.lexemes]), rfl⟩

def SubroutineDec.localCount (d : SubroutineDec) : Nat := (d.vars.flatMap VarDec.names).length

def ClassDec.environment (c : ClassDec) : Environment := Environment.empty.declareAll c.declared

/-- What names mean where an expression stands: the class around it and the variables in force. -/
structure Context where
  className : String
  lookup : String → Option Variable

def ClassDec.context (c : ClassDec) (d : SubroutineDec) : Context :=
  ⟨c.name, (c.environment.declareAll (d.declared c.name)).lookup⟩

/-- The type of a variable in force is a word of the class, or the class itself. -/
theorem ClassDec.type_of_lookup {c : ClassDec} {d : SubroutineDec} (hd : d ∈ c.subroutines)
    {name : String} {v : Variable} (hv : (c.context d).lookup name = some v) :
    v.type = c.name ∨ ∃ t : TypeName, t.lexeme ∈ c.lexemes ∧ v.type = t.spelling := by
  rcases Environment.mem_declareAll (Environment.mem_of_lookup hv) with ⟨e, he, htype⟩ | hv
  · rw [SubroutineDec.declared, List.append_assoc, List.mem_append] at he
    rcases he with he | he
    · cases hr : d.role with
      | method =>
        have hthis : e = ⟨thisName, c.name, .argument⟩ := by simpa [Role.hidden, hr] using he
        exact Or.inl (by rw [htype, hthis])
      | constructor | function => simp [Role.hidden, hr] at he
    · obtain ⟨t, ht, hspelling⟩ := SubroutineDec.exists_type_of_mem he
      exact Or.inr ⟨t, ClassDec.mem_lexemes_of_subroutine hd ht, htype.trans hspelling⟩
  · rcases Environment.mem_declareAll hv with ⟨e, he, htype⟩ | hv
    · obtain ⟨t, ht, hspelling⟩ := ClassDec.exists_type_of_mem_declared he
      exact Or.inr ⟨t, ht, htype.trans hspelling⟩
    · simp [Environment.empty] at hv

/-- The hidden arguments of a call: an object, unless a class is named. -/
def Context.hidden (k : Context) : Call → Nat
  | .own _ _ => 1
  | .member owner _ _ => if (k.lookup owner).isSome then 1 else 0

/-- A name stands for a variable; the arguments of a call can be counted. -/
def Context.Admits (k : Context) : Use → Prop
  | .variable name => (k.lookup name).isSome
  | .call call => call.args.length + k.hidden call ≤ 65535

/-- The names that a subroutine can use as variables, the class's and its own. -/
def ClassDec.variableNames (c : ClassDec) (d : SubroutineDec) : List String :=
  c.vars.flatMap ClassVarDec.names ++ d.parameters.map Parameter.name
    ++ d.vars.flatMap VarDec.names

/-- A variable is declared; a call has at most 65535 arguments with its hidden receiver. -/
def ClassDec.Permits (c : ClassDec) (d : SubroutineDec) : Use → Prop
  | .variable name => name ∈ c.variableNames d
  | .call (.own _ args) => args.length + 1 ≤ 65535
  | .call (.member owner _ args) =>
    args.length + (if owner ∈ c.variableNames d then 1 else 0) ≤ 65535

/-- What the grammar does not say of a class: names are declared and numbers fit 16 bits. -/
structure ClassDec.WellFormed (c : ClassDec) : Prop where
  classVariables : ∀ kind, c.declared.countP (·.kind = kind) ≤ 65535
  subroutineVariables : ∀ d ∈ c.subroutines, ∀ kind,
    (d.declared c.name).countP (·.kind = kind) ≤ 65535
  uses : ∀ d ∈ c.subroutines, ∀ u ∈ statementUses d.body, c.Permits d u

end Jack
