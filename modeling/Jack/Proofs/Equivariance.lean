import Jack.Proofs.Correctness
import Jack.Proofs.Lexing
import Jack.Proofs.OutlineText
import Jack.Proofs.Renaming

/-! Names matter only in whether they are the same. A renamed class declares the renamed variables
at the same places, and is translated to the same instructions with renamed functions. -/

namespace Jack

/-! ### Renamed instructions -/

/-- A name of two parts, which the first dot divides, with both parts renamed. -/
def renameParts (f : String → String) (name : String) : String :=
  f (String.ofList (name.toList.takeWhile (· ≠ '.'))) ++ "."
    ++ f (String.ofList (name.toList.dropWhile (· ≠ '.')).tail)

/-- The instruction with the function that it calls or heads renamed. -/
def Instruction.rename (f : String → String) : Instruction → Instruction
  | .call name args => .call (renameParts f name) args
  | .function name locals => .function (renameParts f name) locals
  | i => i

theorem renameParts_append (f : String → String) {owner : String} (h : '.' ∉ owner.toList)
    (name : String) : renameParts f (owner ++ "." ++ name) = f owner ++ "." ++ f name := by
  have hchars : (owner ++ "." ++ name).toList = owner.toList ++ '.' :: name.toList := by simp
  rw [renameParts, hchars, takeWhile_mark h, dropWhile_mark h, List.tail_cons,
    String.ofList_toList, String.ofList_toList]

theorem Instruction.rename_push (f : String → String) (segment : Segment) (index : UInt16) :
    (Instruction.push segment index).rename f = .push segment index := rfl

theorem Instruction.rename_call (f : String → String) {owner : String} (h : '.' ∉ owner.toList)
    (name : String) (args : UInt16) :
    (Instruction.call (owner ++ "." ++ name) args).rename f
      = .call (f owner ++ "." ++ f name) args := by
  rw [Instruction.rename, renameParts_append f h]

theorem Lexeme.Valid.undotted {name : String} (h : (Lexeme.identifier name).Valid) :
    '.' ∉ name.toList := by
  obtain ⟨⟨c, cs, hcs, -, hall⟩, -⟩ := h
  intro hdot
  rw [hcs] at hdot
  exact absurd (hall '.' hdot) (by decide)

theorem TypeName.undotted_spelling {t : TypeName} (h : t.lexeme.Valid) :
    '.' ∉ t.spelling.toList := by
  cases t with
  | class_ name => exact h.undotted
  | _ => decide

namespace Renaming

variable (ρ : Renaming)

theorem renameParts_library {owner name : String} (ho : owner ∈ libraryNames)
    (hn : name ∈ libraryNames) :
    renameParts ρ.name (owner ++ "." ++ name) = owner ++ "." ++ name := by
  have hdot : ∀ x ∈ libraryNames, '.' ∉ x.toList := by decide
  rw [renameParts_append ρ.name (hdot owner ho), ρ.name_library ho, ρ.name_library hn]

/-- The routines of the library keep their names. -/
theorem rename_binaryOp (op : BinaryOp) : op.code.rename ρ.name = op.code := by
  have hmultiply : renameParts ρ.name ("Math" ++ "." ++ "multiply") = "Math.multiply" :=
    ρ.renameParts_library (by decide) (by decide)
  have hdivide : renameParts ρ.name ("Math" ++ "." ++ "divide") = "Math.divide" :=
    ρ.renameParts_library (by decide) (by decide)
  cases op with
  | multiply => exact congrArg (Instruction.call · 2) hmultiply
  | divide => exact congrArg (Instruction.call · 2) hdivide
  | _ => rfl

theorem rename_unaryOp (op : UnaryOp) : op.code.rename ρ.name = op.code := by
  cases op <;> rfl

theorem rename_constant (word : KeywordConstant) :
    word.value.map (Instruction.rename ρ.name) = word.value := by
  cases word <;> rfl

theorem rename_stringValue (text : String) :
    (stringValue text).map (Instruction.rename ρ.name) = stringValue text := by
  have hnew : renameParts ρ.name ("String" ++ "." ++ "new") = "String.new" :=
    ρ.renameParts_library (by decide) (by decide)
  have happend : renameParts ρ.name ("String" ++ "." ++ "appendChar") = "String.appendChar" :=
    ρ.renameParts_library (by decide) (by decide)
  have hchar : ∀ c : Char, [Instruction.push .constant (UInt16.ofNat c.toNat),
        .call "String.appendChar" 2].map (Instruction.rename ρ.name)
      = [.push .constant (UInt16.ofNat c.toNat), .call "String.appendChar" 2] := by
    intro c
    exact congrArg (fun name => [_, Instruction.call name 2]) happend
  rw [stringValue, List.map_cons, List.map_cons, List.map_flatMap]
  simp only [hchar]
  exact congrArg (fun name => _ :: Instruction.call name 1 :: _) hnew

theorem rename_prologue (fields : Nat) (r : Role) :
    (r.prologue fields).map (Instruction.rename ρ.name) = r.prologue fields := by
  have halloc : renameParts ρ.name ("Memory" ++ "." ++ "alloc") = "Memory.alloc" :=
    ρ.renameParts_library (by decide) (by decide)
  cases r with
  | constructor => exact congrArg (fun name => [_, Instruction.call name 1, _]) halloc
  | function => rfl
  | method => rfl

end Renaming

/-! ### Renamed declarations -/

section

variable (f : String → String)

def Declared.rename (d : Declared) : Declared := ⟨f d.name, f d.type, d.kind⟩

def Variable.rename (v : Variable) : Variable := ⟨f v.name, f v.type, v.kind, v.index⟩

theorem Variable.read_rename (v : Variable) : (v.rename f).read = v.read.rename f := by
  cases v with | mk name type kind index => cases kind <;> rfl

theorem Variable.write_rename (v : Variable) : (v.rename f).write = v.write.rename f := by
  cases v with | mk name type kind index => cases kind <;> rfl

namespace Environment

def rename (e : Environment) : Environment :=
  ⟨e.ofClass.map (Variable.rename f), e.ofSubroutine.map (Variable.rename f)⟩

@[simp] theorem count_rename (e : Environment) (kind : Kind) :
    (e.rename f).count kind = e.count kind := by
  rw [count, count, layer, layer]
  by_cases hk : kind.ofClass = true
  · rw [if_pos hk, if_pos hk, rename, List.countP_map]
    rfl
  · rw [if_neg hk, if_neg hk, rename, List.countP_map]
    rfl

theorem declare_rename (e : Environment) (d : Declared) :
    (e.rename f).declare (d.rename f) = (e.declare d).rename f := by
  rw [declare, declare, count_rename]
  by_cases hk : d.kind.ofClass = true
  · rw [if_pos hk, if_pos (show (d.rename f).kind.ofClass = true from hk)]
    rfl
  · rw [if_neg hk, if_neg (show ¬(d.rename f).kind.ofClass = true from hk)]
    rfl

/-- Renamed declarations are numbered as the original ones. -/
theorem declareAll_rename (e : Environment) (ds : List Declared) :
    (e.rename f).declareAll (ds.map (Declared.rename f)) = (e.declareAll ds).rename f := by
  induction ds generalizing e with
  | nil => rfl
  | cons d ds ih => rw [List.map_cons, declareAll_cons, declareAll_cons, declare_rename, ih]

@[simp] theorem fits_rename (e : Environment) (ds : List Declared) :
    (e.rename f).Fits (ds.map (Declared.rename f)) ↔ e.Fits ds := by
  have hcount : ∀ kind, (ds.map (Declared.rename f)).countP (·.kind = kind)
      = ds.countP (·.kind = kind) := fun kind => List.countP_map
  simp only [Fits, count_rename, hcount]

variable {f}

/-- The same variable is found, whichever hides another. -/
theorem lookup_rename (hf : Function.Injective f) (e : Environment) (name : String) :
    (e.rename f).lookup (f name) = (e.lookup name).map (Variable.rename f) := by
  have hsame : ∀ vs : List Variable, (vs.map (Variable.rename f)).find? (·.name = f name)
      = (vs.find? (·.name = name)).map (Variable.rename f) := by
    intro vs
    rw [List.find?_map]
    congr 2
    funext v
    exact decide_eq_decide.2 hf.eq_iff
  rw [lookup, lookup, rename, hsame, hsame, Option.map_or]

end Environment

end

namespace Renaming

variable (ρ : Renaming)

theorem spelling_rename (t : TypeName) : (t.rename ρ.name).spelling = ρ.name t.spelling := by
  cases t with
  | int => exact (ρ.name_keyword .int).symm
  | char => exact (ρ.name_keyword .char).symm
  | boolean => exact (ρ.name_keyword .boolean).symm
  | class_ name => rfl

theorem declared_classVarDec (d : ClassVarDec) :
    (d.rename ρ.name).declared = d.declared.map (Declared.rename ρ.name) := by
  simp [ClassVarDec.declared, ClassVarDec.names, ClassVarDec.rename, Declared.rename,
    ρ.spelling_rename]

theorem declared_varDec (d : VarDec) :
    (d.rename ρ.name).declared = d.declared.map (Declared.rename ρ.name) := by
  simp [VarDec.declared, VarDec.names, VarDec.rename, Declared.rename, ρ.spelling_rename]

theorem declared_parameter (p : Parameter) :
    (p.rename ρ.name).declared = p.declared.rename ρ.name := by
  simp [Parameter.declared, Parameter.rename, Declared.rename, ρ.spelling_rename]

/-- The hidden argument of a method keeps its name, a keyword. -/
theorem hidden_role (className : String) (r : Role) :
    r.hidden (ρ.name className) = (r.hidden className).map (Declared.rename ρ.name) := by
  have hthis : ρ.name thisName = thisName := ρ.name_keyword .this
  cases r with
  | method => simp [Role.hidden, Declared.rename, hthis]
  | constructor => rfl
  | function => rfl

theorem declared_subroutine (className : String) (d : SubroutineDec) :
    (d.rename ρ.name).declared (ρ.name className)
      = (d.declared className).map (Declared.rename ρ.name) := by
  simp [SubroutineDec.declared, SubroutineDec.rename, ρ.hidden_role, ρ.declared_parameter,
    ρ.declared_varDec, List.flatMap_map, List.map_flatMap]

theorem declared_class (c : ClassDec) :
    (c.rename ρ.name).declared = c.declared.map (Declared.rename ρ.name) := by
  simp [ClassDec.declared, ClassDec.rename, ρ.declared_classVarDec, List.flatMap_map,
    List.map_flatMap]

theorem environment_class (c : ClassDec) :
    (c.rename ρ.name).environment = c.environment.rename ρ.name := by
  rw [ClassDec.environment, ρ.declared_class]
  exact Environment.declareAll_rename ρ.name .empty c.declared

theorem environment_subroutine (c : ClassDec) (d : SubroutineDec) :
    (c.rename ρ.name).environment.declareAll ((d.rename ρ.name).declared (ρ.name c.name))
      = (c.environment.declareAll (d.declared c.name)).rename ρ.name := by
  rw [ρ.environment_class, ρ.declared_subroutine, Environment.declareAll_rename]

end Renaming

/-! ### Renamed contexts -/

/-- The second context has the renamed names of the first one. No type of a variable has a dot. -/
structure Renaming.Relates (ρ : Renaming) (k k' : Context) : Prop where
  className : k'.className = ρ.name k.className
  lookup : ∀ x, k'.lookup (ρ.name x) = (k.lookup x).map (Variable.rename ρ.name)
  undotted : '.' ∉ k.className.toList
  types : ∀ x v, k.lookup x = some v → '.' ∉ v.type.toList

theorem ClassDec.undotted_name {c : ClassDec} (h : ∀ l ∈ c.lexemes, l.Valid) :
    '.' ∉ c.name.toList :=
  Lexeme.Valid.undotted (h (.identifier c.name) (by simp [ClassDec.lexemes]))

/-- The types of the variables in force are words of the class. -/
theorem ClassDec.undotted_types {c : ClassDec} {d : SubroutineDec} (hd : d ∈ c.subroutines)
    (h : ∀ l ∈ c.lexemes, l.Valid) (x : String) (v : Variable)
    (hv : (c.context d).lookup x = some v) : '.' ∉ v.type.toList := by
  rcases ClassDec.type_of_lookup hd hv with htype | ⟨t, ht, htype⟩
  · rw [htype]
    exact ClassDec.undotted_name h
  · rw [htype]
    exact TypeName.undotted_spelling (h _ ht)

/-- Inside a subroutine the renamed class has the renamed names. -/
theorem Renaming.relates_context (ρ : Renaming) {c : ClassDec} {d : SubroutineDec}
    (hd : d ∈ c.subroutines) (h : ∀ l ∈ c.lexemes, l.Valid) :
    ρ.Relates (c.context d) ((c.rename ρ.name).context (d.rename ρ.name)) where
  className := rfl
  lookup := by
    intro x
    have hlookup := Environment.lookup_rename ρ.name_injective
      (c.environment.declareAll (d.declared c.name)) x
    rw [← ρ.environment_subroutine] at hlookup
    exact hlookup
  undotted := ClassDec.undotted_name h
  types := ClassDec.undotted_types hd h

namespace Renaming.Relates

variable {ρ : Renaming} {k k' : Context}

theorem read (hk : ρ.Relates k k') (x : String) :
    k'.read (ρ.name x) = (k.read x).map (Instruction.rename ρ.name) := by
  rw [Context.read, Context.read, hk.lookup]
  cases k.lookup x with
  | none => rfl
  | some v => simp [Variable.read_rename]

theorem write (hk : ρ.Relates k k') (x : String) :
    k'.write (ρ.name x) = (k.write x).map (Instruction.rename ρ.name) := by
  rw [Context.write, Context.write, hk.lookup]
  cases k.lookup x with
  | none => rfl
  | some v => simp [Variable.write_rename]

theorem admits (hk : ρ.Relates k k') (u : Use) : k'.Admits (u.rename ρ.name) ↔ k.Admits u := by
  match u with
  | .variable name =>
    rw [Use.rename, Context.Admits, Context.Admits, hk.lookup, Option.isSome_map]
  | .call (.own name args) =>
    simp [Use.rename, Call.rename, Context.Admits, Call.args, Context.hidden]
  | .call (.member owner name args) =>
    simp [Use.rename, Call.rename, Context.Admits, Call.args, Context.hidden, hk.lookup]

theorem permits (hk : ρ.Relates k k') (us : List Use) :
    k'.Permits (us.map (Use.rename ρ.name)) ↔ k.Permits us := by
  rw [Context.Permits, Context.Permits, List.forall_mem_map]
  exact forall₂_congr fun u _ => hk.admits u

end Renaming.Relates

/-! ### Renamed code -/

theorem mem_moreArgumentLexemes {l : Lexeme} {es : List Expression}
    (h : l ∈ argumentLexemes es) : l ∈ moreArgumentLexemes es := by
  cases es with
  | nil => cases h
  | cons e es => exact List.mem_cons_of_mem _ h

section

variable {ρ : Renaming} {k k' : Context}

mutual

theorem Term.code_rename (hk : ρ.Relates k k') (t : Term) (h : ∀ l ∈ t.lexemes, l.Valid) :
    (t.rename ρ.name).code k' = (t.code k).map (Instruction.rename ρ.name) := by
  match t with
  | .integer value => rfl
  | .string text => exact (ρ.rename_stringValue text).symm
  | .constant word => exact (ρ.rename_constant word).symm
  | .variable name => exact hk.read name
  | .element name index =>
    have hindex := index.code_rename hk fun l hl => h l (by simp [Term.lexemes, hl])
    simp [Term.rename, Term.code, hk.read, hindex, Instruction.rename]
  | .call call => exact call.code_rename hk h
  | .group inner => exact inner.code_rename hk fun l hl => h l (by simp [Term.lexemes, hl])
  | .unary op operand =>
    have hoperand := operand.code_rename hk fun l hl => h l (by simp [Term.lexemes, hl])
    simp [Term.rename, Term.code, hoperand, ρ.rename_unaryOp]

theorem Expression.code_rename (hk : ρ.Relates k k') (e : Expression)
    (h : ∀ l ∈ e.lexemes, l.Valid) :
    (e.rename ρ.name).code k' = (e.code k).map (Instruction.rename ρ.name) := by
  match e with
  | .term operand => exact operand.code_rename hk h
  | .binary left op right =>
    have hleft := left.code_rename hk fun l hl => h l (by simp [Expression.lexemes, hl])
    have hright := right.code_rename hk fun l hl => h l (by simp [Expression.lexemes, hl])
    simp [Expression.rename, Expression.code, hleft, hright, ρ.rename_binaryOp]

/-- The callee is renamed in both parts: the class of the caller or of the receiver, or the owner
if it stands for no variable, and the name of the subroutine. -/
theorem Call.code_rename (hk : ρ.Relates k k') (call : Call) (h : ∀ l ∈ call.lexemes, l.Valid) :
    (call.rename ρ.name).code k' = (call.code k).map (Instruction.rename ρ.name) := by
  match call with
  | .own name args =>
    have hargs := argumentCode_rename hk args fun l hl => h l (by simp [Call.lexemes, hl])
    have hcall := Instruction.rename_call ρ.name hk.undotted name (UInt16.ofNat (args.length + 1))
    rw [Call.rename, Call.code, Call.code, hargs, length_renameArguments, hk.className,
      List.map_append, List.map_cons, List.map_singleton, hcall, Instruction.rename_push]
  | .member owner name args =>
    have hargs := argumentCode_rename hk args fun l hl => h l (by simp [Call.lexemes, hl])
    have howner : '.' ∉ owner.toList :=
      Lexeme.Valid.undotted (h (.identifier owner) (by simp [Call.lexemes]))
    rw [Call.rename, Call.code, Call.code, hk.lookup]
    cases hv : k.lookup owner with
    | none =>
      have hcall := Instruction.rename_call ρ.name howner name (UInt16.ofNat args.length)
      rw [List.map_append, List.map_singleton, hcall, ← hargs, ← length_renameArguments ρ.name args]
      rfl
    | some v =>
      have hcall := Instruction.rename_call ρ.name (hk.types owner v hv) name
        (UInt16.ofNat (args.length + 1))
      rw [List.map_append, List.map_cons, List.map_singleton, hcall, ← v.read_rename, ← hargs,
        ← length_renameArguments ρ.name args]
      rfl

theorem argumentCode_rename (hk : ρ.Relates k k') (es : List Expression)
    (h : ∀ l ∈ argumentLexemes es, l.Valid) :
    argumentCode k' (renameArguments ρ.name es)
      = (argumentCode k es).map (Instruction.rename ρ.name) := by
  match es with
  | [] => rfl
  | e :: es =>
    rw [argumentLexemes, List.forall_mem_append] at h
    have hfirst := e.code_rename hk h.1
    have hrest := argumentCode_rename hk es fun l hl => h.2 l (mem_moreArgumentLexemes hl)
    rw [renameArguments, argumentCode, argumentCode, hfirst, hrest, List.map_append]

end

mutual

/-- The numbers of the constructs, and so the labels, stay. -/
theorem Statement.code_rename (hk : ρ.Relates k k') (n : Nat) (s : Statement)
    (h : ∀ l ∈ s.lexemes, l.Valid) :
    (s.rename ρ.name).code k' n = (s.code k n).map (Instruction.rename ρ.name) := by
  match s with
  | .letVariable target value =>
    have hvalue := value.code_rename hk fun l hl => h l (by simp [Statement.lexemes, hl])
    rw [Statement.rename, Statement.code, Statement.code, hvalue, hk.write, List.map_append]
  | .letElement target index value =>
    have hindex := index.code_rename hk fun l hl => h l (by simp [Statement.lexemes, hl])
    have hvalue := value.code_rename hk fun l hl => h l (by simp [Statement.lexemes, hl])
    simp [Statement.rename, Statement.code, hindex, hvalue, hk.read, Instruction.rename]
  | .if_ condition body otherwise =>
    have hcondition := condition.code_rename hk fun l hl =>
      h l (by simp [Statement.lexemes, Expression.conditionLexemes, hl])
    have hbody := statementCode_rename hk (n + 1) body fun l hl =>
      h l (by simp [Statement.lexemes, inBraces, hl])
    have hother := otherwiseCode_rename hk (n + 1 + constructsOf body) otherwise fun l hl =>
      h l (by simp [Statement.lexemes, hl])
    simp [Statement.rename, Statement.code, hcondition, hbody, hother, Instruction.rename]
  | .while_ condition body =>
    have hcondition := condition.code_rename hk fun l hl =>
      h l (by simp [Statement.lexemes, Expression.conditionLexemes, hl])
    have hbody := statementCode_rename hk (n + 1) body fun l hl =>
      h l (by simp [Statement.lexemes, inBraces, hl])
    simp [Statement.rename, Statement.code, hcondition, hbody, Instruction.rename]
  | .do_ call =>
    have hcall := call.code_rename hk fun l hl => h l (by simp [Statement.lexemes, hl])
    simp [Statement.rename, Statement.code, hcall, Instruction.rename]
  | .return_ none => rfl
  | .return_ (some value) =>
    have hvalue := value.code_rename hk fun l hl => h l (by simp [Statement.lexemes, hl])
    simp [Statement.rename, Statement.code, hvalue, Instruction.rename]

theorem statementCode_rename (hk : ρ.Relates k k') (n : Nat) (ss : List Statement)
    (h : ∀ l ∈ statementLexemes ss, l.Valid) :
    statementCode k' n (renameStatements ρ.name ss)
      = (statementCode k n ss).map (Instruction.rename ρ.name) := by
  match ss with
  | [] => rfl
  | s :: ss =>
    rw [statementLexemes, List.forall_mem_append] at h
    have hfirst := s.code_rename hk n h.1
    have hrest := statementCode_rename hk (n + s.constructs) ss h.2
    rw [renameStatements, statementCode, statementCode, hfirst, Statement.constructs_rename, hrest,
      List.map_append]

theorem otherwiseCode_rename (hk : ρ.Relates k k') (n : Nat) (o : Option (List Statement))
    (h : ∀ l ∈ otherwiseLexemes o, l.Valid) :
    otherwiseCode k' n (renameOtherwise ρ.name o)
      = (otherwiseCode k n o).map (Instruction.rename ρ.name) := by
  match o with
  | none => rfl
  | some body =>
    exact statementCode_rename hk n body fun l hl => h l (by simp [otherwiseLexemes, inBraces, hl])

end

end

namespace ClassDec

variable (ρ : Renaming) {c : ClassDec}

theorem fieldCount_rename (c : ClassDec) : (c.rename ρ.name).fieldCount = c.fieldCount := by
  rw [fieldCount, fieldCount, ρ.declared_class, List.countP_map]
  rfl

theorem subroutineCode_rename {d : SubroutineDec} (hd : d ∈ c.subroutines)
    (h : ∀ l ∈ c.lexemes, l.Valid) (n : Nat) :
    (c.rename ρ.name).subroutineCode n (d.rename ρ.name)
      = (c.subroutineCode n d).map (Instruction.rename ρ.name) := by
  have hbody := statementCode_rename (ρ.relates_context hd h) n d.body fun l hl =>
    h l (mem_lexemes_of_subroutine hd (by simp [SubroutineDec.lexemes, inBraces, hl]))
  have hlocals : (d.rename ρ.name).localCount = d.localCount := by
    simp [SubroutineDec.localCount, SubroutineDec.rename, VarDec.rename, VarDec.names,
      List.flatMap_map]
  rw [subroutineCode, subroutineCode, bodyCode, bodyCode, fieldCount_rename, hlocals,
    List.map_cons, List.map_append, ρ.rename_prologue, ← hbody, Instruction.rename,
    renameParts_append ρ.name (undotted_name h)]
  rfl

theorem codeFrom_rename (h : ∀ l ∈ c.lexemes, l.Valid) (n : Nat) (ds : List SubroutineDec)
    (hds : ∀ d ∈ ds, d ∈ c.subroutines) :
    (c.rename ρ.name).codeFrom n (ds.map (SubroutineDec.rename ρ.name))
      = (c.codeFrom n ds).map (Instruction.rename ρ.name) := by
  induction ds generalizing n with
  | nil => rfl
  | cons d ds ih =>
    obtain ⟨hd, hrest⟩ := List.forall_mem_cons.1 hds
    have hconstructs : constructsOf (d.rename ρ.name).body = constructsOf d.body :=
      constructsOf_rename ρ.name d.body
    rw [List.map_cons, codeFrom, codeFrom, subroutineCode_rename ρ hd h, hconstructs, ih _ hrest,
      List.map_append]

/-- A renamed class is translated as the original one, but for the names of functions. -/
theorem code_rename (h : ∀ l ∈ c.lexemes, l.Valid) :
    (c.rename ρ.name).code = c.code.map (Instruction.rename ρ.name) :=
  codeFrom_rename ρ h 0 c.subroutines fun _ hd => hd

theorem accepts_rename {d : SubroutineDec} (hd : d ∈ c.subroutines)
    (h : ∀ l ∈ c.lexemes, l.Valid) :
    (c.rename ρ.name).Accepts (d.rename ρ.name) ↔ c.Accepts d := by
  have hdeclared := ρ.declared_subroutine c.name d
  have huses : statementUses (d.rename ρ.name).body
      = (statementUses d.body).map (Use.rename ρ.name) := statementUses_rename ρ.name d.body
  rw [Accepts, Accepts, huses, (ρ.relates_context hd h).permits, ρ.environment_class]
  rw [show (c.rename ρ.name).name = ρ.name c.name from rfl, hdeclared, Environment.fits_rename]

/-- A renamed class is accepted if the original one is. -/
theorem accepted_rename (h : ∀ l ∈ c.lexemes, l.Valid) :
    (c.rename ρ.name).Accepted ↔ c.Accepted := by
  have hvars : Environment.empty.Fits (c.rename ρ.name).declared
      ↔ Environment.empty.Fits c.declared := by
    rw [ρ.declared_class]
    exact Environment.fits_rename ρ.name .empty c.declared
  have hsubroutines : (∀ d ∈ (c.rename ρ.name).subroutines, (c.rename ρ.name).Accepts d)
      ↔ ∀ d ∈ c.subroutines, c.Accepts d := by
    rw [show (c.rename ρ.name).subroutines = c.subroutines.map (SubroutineDec.rename ρ.name)
      from rfl, List.forall_mem_map]
    exact forall₂_congr fun d hd => accepts_rename ρ hd h
  constructor
  · intro ha
    exact ⟨hvars.1 ha.vars, hsubroutines.1 ha.subroutines⟩
  · intro ha
    exact ⟨hvars.2 ha.vars, hsubroutines.2 ha.subroutines⟩

end ClassDec

/-! ### Renamed sources -/

/-- Renamed tokens that are derived from the grammar are those of tokens that are derived too. -/
theorem ClassDec.exists_of_rename (ρ : Renaming) {stream renamed : TokenStream} {c' : ClassDec}
    (hr : renamed.tokens.map Token.lexeme
      = (stream.tokens.map Token.lexeme).map (Lexeme.rename ρ.name))
    (hc : c'.lexemes = renamed.tokens.map Token.lexeme) :
    ∃ c : ClassDec, c.lexemes = stream.tokens.map Token.lexeme := by
  -- The inverse need not be a renaming: nothing is asked of names that are no new names.
  obtain ⟨g, hg⟩ := ρ.name_injective.hasLeftInverse
  refine ⟨c'.rename g, ?_⟩
  rw [c'.lexemes_rename, hc, hr, List.map_map, (Lexeme.rename_leftInverse hg).comp_eq_id,
    List.map_id]

/-- The tokens of a class and the renamed ones compile alike. -/
theorem TokenStream.compile_rename (ρ : Renaming) {stream renamed : TokenStream} {c : ClassDec}
    (hr : renamed.tokens.map Token.lexeme
      = (stream.tokens.map Token.lexeme).map (Lexeme.rename ρ.name))
    (hc : c.lexemes = stream.tokens.map Token.lexeme) (h : ∀ l ∈ c.lexemes, l.Valid)
    (outlined : Bool) :
    ((renamed.compile outlined).error? = none ↔ (stream.compile outlined).error? = none)
      ∧ ((stream.compile outlined).error? = none →
        (renamed.compile outlined).session.code
          = (stream.compile outlined).session.code.map (Instruction.rename ρ.name)) := by
  have hc' : (c.rename ρ.name).lexemes = renamed.tokens.map Token.lexeme := by
    rw [c.lexemes_rename, hc, hr]
  obtain ⟨hiff, hcode⟩ := TokenStream.compile_of_lexemes hc outlined
  obtain ⟨hiff', hcode'⟩ := TokenStream.compile_of_lexemes hc' outlined
  have haccepted := ClassDec.accepted_rename ρ h
  refine ⟨hiff'.trans (haccepted.trans hiff.symm), ?_⟩
  intro he
  have hacc := hiff.1 he
  rw [hcode hacc, hcode' (haccepted.2 hacc), ClassDec.code_rename ρ h]

/-- The tokens of a source with other identifiers compile if the source does, and to its
instructions with other names of functions. -/
theorem renamed_identifiers_compile (ρ : Renaming) {source : String} {stream : TokenStream}
    (h : tokenize source = .ok stream) (outlined : Bool) {renamed : TokenStream}
    (hr : renamed.tokens.map Token.lexeme
      = (stream.tokens.map Token.lexeme).map (Lexeme.rename ρ.name)) :
    ((∃ other, (renamed.compile outlined).result = .ok other)
        ↔ ∃ result, compile source outlined = .ok result)
      ∧ ∀ result other, compile source outlined = .ok result →
        (renamed.compile outlined).result = .ok other →
        other.instructions.map (·.instruction)
          = (result.instructions.map (·.instruction)).map (Instruction.rename ρ.name) := by
  have halike := fun (c : ClassDec) (hc : c.lexemes = stream.tokens.map Token.lexeme) =>
    TokenStream.compile_rename ρ hr hc (hc ▸ valid_of_tokenize h) outlined
  constructor
  · constructor
    · rintro ⟨other, ho⟩
      have he := (Compilation.result_eq_ok_iff.1 ho).1
      obtain ⟨c', hc', -⟩ := TokenStream.exists_classDec he
      obtain ⟨c, hc⟩ := ClassDec.exists_of_rename ρ hr hc'
      exact ⟨_, (compile_eq_ok_iff h).2 ⟨(halike c hc).1.1 he, rfl⟩⟩
    · rintro ⟨result, hs⟩
      have he := ((compile_eq_ok_iff h).1 hs).1
      obtain ⟨c, hc, -⟩ := TokenStream.exists_classDec he
      exact ⟨_, Compilation.result_eq_ok_iff.2 ⟨(halike c hc).1.2 he, rfl⟩⟩
  · intro result other hs ho
    obtain ⟨he, rfl⟩ := (compile_eq_ok_iff h).1 hs
    obtain ⟨-, rfl⟩ := Compilation.result_eq_ok_iff.1 ho
    obtain ⟨c, hc, -⟩ := TokenStream.exists_classDec he
    exact (halike c hc).2 he

/-- A class and a field change names, and a call on a value of a primitive type keeps the type. -/
theorem exchanged_identifiers_compile :
    ∃ ρ : Renaming, ρ.name "A" = "b" ∧ ρ.name "b" = "A"
      ∧ ∃ result renamed other,
        compile "class A{field A b;method void f(int c){do A.g(b);do b.f(c);do c.h();return;}}" false
            = .ok result
          ∧ tokenize
            "class b{field b A;method void f(int c){do b.g(A);do A.f(c);do c.h();return;}}"
              = .ok renamed
          ∧ (renamed.compile false).result = .ok other
          ∧ result.instructions.map (·.instruction) = [.function "A.f" 0, .push .argument 0,
            .pop .pointer 0, .push .this 0, .call "A.g" 1, .pop .temp 0, .push .this 0,
            .push .argument 1, .call "A.f" 2, .pop .temp 0, .push .argument 1, .call "int.h" 1,
            .pop .temp 0, .push .constant 0, .return_]
          ∧ other.instructions.map (·.instruction)
            = (result.instructions.map (·.instruction)).map (Instruction.rename ρ.name) := by
  let ρ : Renaming :=
    .exchange ⟨"A", by decide⟩ ⟨"b", by decide⟩ (by decide) (by decide)
  obtain ⟨result, hresult, hcode⟩ : ∃ result,
      compile "class A{field A b;method void f(int c){do A.g(b);do b.f(c);do c.h();return;}}" false
          = .ok result
        ∧ result.instructions.map (·.instruction) = [.function "A.f" 0, .push .argument 0,
          .pop .pointer 0, .push .this 0, .call "A.g" 1, .pop .temp 0, .push .this 0,
          .push .argument 1, .call "A.f" 2, .pop .temp 0, .push .argument 1, .call "int.h" 1,
          .pop .temp 0, .push .constant 0, .return_] := ⟨_, rfl, rfl⟩
  let c (x y : String) : ClassDec := ⟨x, [⟨.field, rfl, .class_ x, y, []⟩],
    [⟨.method, none, "f", [⟨.int, "c"⟩], [],
      [.do_ (.member x "g" [.term (.variable y)]), .do_ (.member y "f" [.term (.variable "c")]),
        .do_ (.member "c" "h" []), .return_ none]⟩]⟩
  obtain ⟨stream, hs, hwords⟩ : ∃ stream, tokenize
      "class A{field A b;method void f(int c){do A.g(b);do b.f(c);do c.h();return;}}" = .ok stream
        ∧ stream.tokens.map Token.lexeme = (c "A" "b").lexemes := ⟨_, by rfl, by rfl⟩
  obtain ⟨renamed, hrenamed, hother⟩ : ∃ renamed, tokenize
      "class b{field b A;method void f(int c){do b.g(A);do A.f(c);do c.h();return;}}" = .ok renamed
        ∧ renamed.tokens.map Token.lexeme = (c "b" "A").lexemes := ⟨_, by rfl, by rfl⟩
  have hexchanged : (c "A" "b").rename ρ.name = c "b" "A" := by
    dsimp only [c]
    rfl
  rw [← hexchanged, ClassDec.lexemes_rename, ← hwords] at hother
  obtain ⟨hiff, hall⟩ := renamed_identifiers_compile ρ hs false hother
  obtain ⟨other, ho⟩ := hiff.2 ⟨result, hresult⟩
  exact ⟨ρ, rfl, rfl, result, renamed, other, hresult, hrenamed, ho, hcode,
    hall result other hresult ho⟩

end Jack
