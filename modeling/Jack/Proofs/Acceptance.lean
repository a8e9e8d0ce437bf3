import Jack.Proofs.ClassEmission

/-! A class whose names are not reserved is well formed just when its words are recognised and its
actions are performed. -/

namespace Jack

def Use.names : Use → List String
  | .variable name => [name]
  | .call (.own _ _) => []
  | .call (.member owner _ _) => [owner]

/-- The names of the uses are among the words. -/
def Named (us : List Use) (ls : List Lexeme) : Prop :=
  ∀ u ∈ us, ∀ name ∈ u.names, Lexeme.identifier name ∈ ls

theorem Named.mono {us : List Use} {ls ms : List Lexeme} (h : Named us ls) (hs : ls ⊆ ms) :
    Named us ms :=
  fun u hu name hn => hs (h u hu name hn)

theorem named_nil (ls : List Lexeme) : Named [] ls := by simp [Named]

theorem named_variable {name : String} {us : List Use} {ls : List Lexeme}
    (hn : .identifier name ∈ ls) (h : Named us ls) : Named (.variable name :: us) ls := by
  intro u hu x hx
  rcases List.mem_cons.1 hu with rfl | hu
  · obtain rfl := List.mem_singleton.1 hx
    exact hn
  · exact h u hu x hx

theorem named_append {us more : List Use} {ls : List Lexeme} (h : Named us ls)
    (h' : Named more ls) : Named (us ++ more) ls := by
  intro u hu
  rcases List.mem_append.1 hu with hu | hu
  · exact h u hu
  · exact h' u hu

mutual

theorem Term.named (t : Term) : Named t.uses t.lexemes := by
  match t with
  | .integer _ | .string _ | .constant _ => exact named_nil _
  | .variable name => exact named_variable (by simp [Term.lexemes]) (named_nil _)
  | .element name index =>
    refine named_variable (by simp [Term.lexemes]) (index.named.mono fun l hl => ?_)
    simp [Term.lexemes, hl]
  | .call call => exact call.named
  | .group inner =>
    apply inner.named.mono
    intro l hl
    simp [Term.lexemes, hl]
  | .unary op operand =>
    apply operand.named.mono
    intro l hl
    simp [Term.lexemes, hl]

theorem Expression.named (e : Expression) : Named e.uses e.lexemes := by
  match e with
  | .term operand => exact operand.named
  | .binary left op right =>
    refine named_append (left.named.mono fun l hl => ?_) (right.named.mono fun l hl => ?_)
    · simp [Expression.lexemes, hl]
    · simp [Expression.lexemes, hl]

theorem Call.named (c : Call) : Named c.uses c.lexemes := by
  match c with
  | .own name args =>
    refine named_append ((arguments_named args).mono fun l hl => ?_) ?_
    · simp [Call.lexemes, hl]
    · simp [Named, Use.names]
  | .member owner name args =>
    refine named_append ((arguments_named args).mono fun l hl => ?_) ?_
    · simp [Call.lexemes, hl]
    · simp [Named, Use.names, Call.lexemes]

theorem arguments_named (args : List Expression) : Named (usesOf args) (argumentLexemes args) := by
  match args with
  | [] => exact named_nil _
  | e :: es =>
    refine named_append (e.named.mono fun l hl => ?_) ((moreArguments_named es).mono fun l hl => ?_)
    · simp [argumentLexemes, hl]
    · simp [argumentLexemes, hl]

theorem moreArguments_named (args : List Expression) :
    Named (usesOf args) (moreArgumentLexemes args) := by
  match args with
  | [] => exact named_nil _
  | e :: es =>
    refine named_append (e.named.mono fun l hl => ?_) ((moreArguments_named es).mono fun l hl => ?_)
    · simp [moreArgumentLexemes, hl]
    · simp [moreArgumentLexemes, hl]

end

mutual

theorem Statement.named (s : Statement) : Named s.uses s.lexemes := by
  match s with
  | .letVariable target value =>
    refine named_variable (by simp [Statement.lexemes]) (value.named.mono fun l hl => ?_)
    simp [Statement.lexemes, hl]
  | .letElement target index value =>
    refine named_variable (by simp [Statement.lexemes]) (named_append
      (index.named.mono fun l hl => ?_) (value.named.mono fun l hl => ?_))
    · simp [Statement.lexemes, hl]
    · simp [Statement.lexemes, hl]
  | .if_ condition body otherwise =>
    refine named_append (named_append (condition.named.mono fun l hl => ?_)
      ((statements_named body).mono fun l hl => ?_)) ((otherwise_named otherwise).mono fun l hl => ?_)
    · simp [Statement.lexemes, Expression.conditionLexemes, hl]
    · simp [Statement.lexemes, inBraces, hl]
    · simp [Statement.lexemes, hl]
  | .while_ condition body =>
    refine named_append (condition.named.mono fun l hl => ?_)
      ((statements_named body).mono fun l hl => ?_)
    · simp [Statement.lexemes, Expression.conditionLexemes, hl]
    · simp [Statement.lexemes, inBraces, hl]
  | .do_ call =>
    apply call.named.mono
    intro l hl
    simp [Statement.lexemes, hl]
  | .return_ none => exact named_nil _
  | .return_ (some value) =>
    apply value.named.mono
    intro l hl
    simp [Statement.lexemes, hl]

theorem statements_named (ss : List Statement) : Named (statementUses ss) (statementLexemes ss) := by
  match ss with
  | [] => exact named_nil _
  | s :: ss =>
    refine named_append (s.named.mono fun l hl => ?_) ((statements_named ss).mono fun l hl => ?_)
    · simp [statementLexemes, hl]
    · simp [statementLexemes, hl]

theorem otherwise_named (o : Option (List Statement)) :
    Named (otherwiseUses o) (otherwiseLexemes o) := by
  match o with
  | none => exact named_nil _
  | some body =>
    apply (statements_named body).mono
    intro l hl
    simp [otherwiseLexemes, inBraces, hl]

end

theorem ClassDec.named {c : ClassDec} {d : SubroutineDec} (hd : d ∈ c.subroutines) :
    Named (statementUses d.body) c.lexemes := by
  apply (statements_named d.body).mono
  intro l hl
  have hl' : l ∈ d.lexemes := by simp [SubroutineDec.lexemes, inBraces, hl]
  simp only [ClassDec.lexemes, inBraces, List.mem_cons, List.mem_append, List.mem_flatMap]
  exact Or.inr (Or.inr (Or.inl (Or.inr (Or.inr ⟨d, hd, hl'⟩))))

/-! ### Names -/

/-- A name other than the hidden one stands for a variable if the class or the subroutine declares
it. -/
theorem ClassDec.isSome_lookup_iff (c : ClassDec) (d : SubroutineDec) {name : String}
    (hn : name ≠ thisName) :
    ((c.context d).lookup name).isSome ↔ name ∈ c.variableNames d := by
  have hclass : c.declared.map Declared.name = c.vars.flatMap ClassVarDec.names := by
    simp [ClassDec.declared, List.map_flatMap, ClassVarDec.declared, Function.comp_def]
  have hvars : (d.vars.flatMap VarDec.declared).map Declared.name
      = d.vars.flatMap VarDec.names := by
    simp [List.map_flatMap, VarDec.declared, Function.comp_def]
  have hparameters : (d.parameters.map Parameter.declared).map Declared.name
      = d.parameters.map Parameter.name := by
    simp [Parameter.declared, Function.comp_def]
  have hhidden : name ∉ (d.role.hidden c.name).map Declared.name := by
    cases d.role <;> simp [Role.hidden, hn]
  have hempty : Environment.empty.lookup name = none := rfl
  simp only [ClassDec.context, Environment.isSome_lookup_declareAll, ClassDec.environment,
    SubroutineDec.declared, ClassDec.variableNames, List.map_append, List.mem_append, hclass, hvars,
    hparameters, hempty]
  tauto

theorem ClassDec.permits_iff (c : ClassDec) (d : SubroutineDec) {u : Use}
    (hu : ∀ name ∈ u.names, name ≠ thisName) : c.Permits d u ↔ (c.context d).Admits u := by
  match u with
  | .variable name => exact (c.isSome_lookup_iff d (hu name (by simp [Use.names]))).symm
  | .call (.own name args) => exact Iff.rfl
  | .call (.member owner name args) =>
    have h := c.isSome_lookup_iff d (hu owner (by simp [Use.names]))
    simp only [ClassDec.Permits, Context.Admits, Context.hidden, Call.args, h]

/-! ### Counts -/

theorem ClassDec.fits_iff (c : ClassDec) :
    Environment.empty.Fits c.declared ↔ ∀ kind, c.declared.countP (·.kind = kind) ≤ 65535 := by
  simp [Environment.Fits]

theorem countP_kind_of_ofClass {b : Bool} {ds : List Declared}
    (h : ∀ d ∈ ds, d.kind.ofClass = b) {kind : Kind} (hk : kind.ofClass ≠ b) :
    ds.countP (·.kind = kind) = 0 := by
  rw [List.countP_eq_zero]
  intro d hd hkind
  exact hk (of_decide_eq_true hkind ▸ h d hd)

/-- The variables of a class and those of a subroutine are counted apart. -/
theorem ClassDec.fits_declared_iff (c : ClassDec) (d : SubroutineDec)
    (hc : ∀ kind, c.declared.countP (·.kind = kind) ≤ 65535) :
    c.environment.Fits (d.declared c.name)
      ↔ ∀ kind, (d.declared c.name).countP (·.kind = kind) ≤ 65535 := by
  apply forall_congr'
  intro kind
  rw [c.count_environment]
  have h := hc kind
  cases hk : kind.ofClass with
  | true =>
    rw [countP_kind_of_ofClass (d.ofClass_declared c.name) (by rw [hk]; simp)]
    omega
  | false =>
    rw [countP_kind_of_ofClass c.ofClass_declared (by rw [hk]; simp)]
    omega

theorem ClassVarDec.countP_declared (d : ClassVarDec) (kind : Kind) :
    d.declared.countP (·.kind = kind) = if d.kind = kind then d.names.length else 0 := by
  by_cases h : d.kind = kind <;>
    simp [ClassVarDec.declared, List.countP_map, Function.comp_def, h]

theorem ClassVarDec.length_names_le {c : ClassDec} {d : ClassVarDec} (hd : d ∈ c.vars) :
    d.names.length ≤ c.declared.countP (·.kind = d.kind) := by
  have h := d.countP_declared d.kind
  rw [if_pos rfl] at h
  rw [← h, ClassDec.declared, List.flatMap_def]
  exact (List.sublist_flatten_of_mem (List.mem_map_of_mem hd)).countP_le

/-- The object of a method counts as an argument. -/
theorem SubroutineDec.countP_argument (d : SubroutineDec) (className : String) :
    (d.declared className).countP (·.kind = .argument)
      = (d.role.hidden className).length + d.parameters.length := by
  have hhidden : (d.role.hidden className).countP (·.kind = .argument)
      = (d.role.hidden className).length := by
    cases d.role <;> rfl
  have hvars : (d.vars.flatMap VarDec.declared).countP (·.kind = .argument) = 0 := by
    simp only [List.countP_eq_zero, List.mem_flatMap, VarDec.declared, List.mem_map]
    rintro _ ⟨v, -, name, -, rfl⟩
    simp
  simp [SubroutineDec.declared, hhidden, hvars, Parameter.declared, List.countP_map,
    Function.comp_def]

theorem SubroutineDec.countP_var (d : SubroutineDec) (className : String) :
    (d.declared className).countP (·.kind = .var) = d.localCount := by
  have hhidden : (d.role.hidden className).countP (·.kind = .var) = 0 := by
    cases d.role <;> rfl
  have hparameters : (d.parameters.map Parameter.declared).countP (·.kind = .var) = 0 := by
    simp [Parameter.declared]
  simp [SubroutineDec.declared, hhidden, hparameters, VarDec.declared, SubroutineDec.localCount,
    List.countP_flatMap, List.countP_map, List.length_flatMap, Function.comp_def]

theorem Context.args_le_of_admits {k : Context} {us : List Use} (h : k.Permits us) :
    Counted us := by
  intro u hu
  have hk := h u hu
  match u with
  | .variable name => trivial
  | .call call => exact Nat.le_trans (Nat.le_add_right _ _) hk

/-- What a class declares and passes can be counted if it is accepted. -/
theorem ClassDec.Accepted.countable {c : ClassDec} (h : c.Accepted) : c.Countable := by
  have hc := c.fits_iff.1 h.vars
  refine ⟨fun d hd => Nat.le_trans (ClassVarDec.length_names_le hd) (hc _), ?_⟩
  intro d hd
  obtain ⟨hf, hu⟩ := h.subroutines d hd
  have hd' := (c.fits_declared_iff d hc).1 hf
  have harguments := hd' .argument
  have hvars := hd' .var
  rw [d.countP_argument] at harguments
  rw [d.countP_var] at hvars
  exact ⟨by omega, hvars, Context.args_le_of_admits hu⟩

theorem ClassDec.wellFormed_iff {c : ClassDec} (hc : .identifier thisName ∉ c.lexemes) :
    c.WellFormed ↔ c.Accepted := by
  have huse : ∀ d ∈ c.subroutines, ∀ u ∈ statementUses d.body,
      (c.Permits d u ↔ (c.context d).Admits u) := by
    intro d hd u hu
    refine c.permits_iff d fun name hname hthis => hc ?_
    rw [← hthis]
    exact ClassDec.named hd u hu name hname
  constructor
  · rintro ⟨hvars, hsubs, huses⟩
    refine ⟨c.fits_iff.2 hvars, fun d hd => ⟨?_, fun u hu => ?_⟩⟩
    · exact (c.fits_declared_iff d hvars).2 (hsubs d hd)
    · exact (huse d hd u hu).1 (huses d hd u hu)
  · rintro ⟨hvars, hsubs⟩
    have hvars' := c.fits_iff.1 hvars
    refine ⟨hvars', fun d hd => ?_, fun d hd u hu => ?_⟩
    · exact (c.fits_declared_iff d hvars').1 (hsubs d hd).1
    · exact (huse d hd u hu).2 ((hsubs d hd).2 u hu)

end Jack
