import Jack.Proofs.OutlineTree

/-! What an outline says of the identifiers. A name that denotes a variable is explained by the
variable that it stands for there, other names are not, but for the callee of a call on the current
object: it is explained whenever a variable has the same name. -/

namespace Jack

/-! ### The names of a class -/

/-- An identifier of a class, and the variable that its name stands for where it stands. -/
structure Naming where
  sign : Sign
  meaning : Option Variable

def Naming.name (n : Naming) : String := n.sign.lexeme.text

def Naming.declares (n : Naming) : Bool := n.sign.declared?.isSome

/-- The identifier denotes a variable: one that is declared, read, indexed or assigned, or the
object whose method is called. -/
def Naming.Denotes (n : Naming) : Prop :=
  match n.sign with
  | .declared _ | .identifier .value _ | .identifier .base _ | .identifier .target _ => True
  | .identifier .receiver _ => n.meaning.isSome
  | .identifier .class_ _ | .identifier .type _ | .identifier .subroutine _
  | .identifier .callee _ | .word _ => False

/-- The identifier is the callee of a call on the current object, and a variable has its name. -/
def Naming.Homonym (n : Naming) : Prop :=
  ∃ name, n.sign = .identifier .callee name ∧ n.meaning.isSome

/-- A word that is an identifier, where names have these meanings. -/
def Sign.naming? (lookup : String → Option Variable) (s : Sign) : Option Naming :=
  match s.lexeme with
  | .identifier name => some ⟨s, lookup name⟩
  | _ => none

def Environment.afterSign (e : Environment) (s : Sign) : Environment :=
  e.declareAll s.declared?.toList

/-- The identifiers of declarations. A name is in force from its declaration on. -/
def Environment.namings (e : Environment) : List Sign → List Naming
  | [] => []
  | s :: ss => (s.naming? (e.afterSign s).lookup).toList ++ (e.afterSign s).namings ss

/-- The identifiers of statements. -/
def Context.namings (k : Context) (ss : List Sign) : List Naming :=
  ss.filterMap (Sign.naming? k.lookup)

/-- The words of a subroutine before its statements. -/
def SubroutineDec.headSigns (d : SubroutineDec) : List Sign :=
  resultSign d.result :: .identifier .subroutine d.name :: signsOf (parameterElements d.parameters)
    ++ signsOf (d.vars.map VarDec.element)

/-- The identifiers of a subroutine, whose statements are translated in its context. -/
def ClassDec.subroutineNamings (c : ClassDec) (d : SubroutineDec) : List Naming :=
  (c.environment.declareAll (d.role.hidden c.name)).namings d.headSigns
    ++ (c.context d).namings (signsOf (statementElements d.body))

/-- The identifiers of a class, from left to right. -/
def ClassDec.namings (c : ClassDec) : List Naming :=
  ⟨.identifier .class_ c.name, none⟩
    :: Environment.empty.namings (signsOf (c.vars.map ClassVarDec.element))
    ++ c.subroutines.flatMap c.subroutineNamings

/-! ### What a leaf says of a name -/

/-- The word for a kind of variables. -/
def Kind.word : Kind → String
  | .static => "static"
  | .field => "field"
  | .argument => "argument"
  | .var => "var"

theorem Kind.word_eq_name (kind : Kind) : kind.word = kind.name := by
  cases kind <;> rfl

/-- The leaf shows the name. It says something of it just when `explained` holds, and then which
variable the name stands for and whether it is declared here. -/
structure Naming.ShownBy (n : Naming) (explained : Prop) (l : Leaf) : Prop where
  text : l.text = n.name
  explained : l.note ≠ "" ↔ explained
  note : l.note ≠ "" → ∃ v, n.meaning = some v
    ∧ l.note = "defined: " ++ (if n.declares then "true" else "false") ++ ", type: " ++ v.type
      ++ ", kind: " ++ v.kind.word ++ ", index: " ++ toString v.index.toNat

/-- The leaves of identifiers among those of entries. -/
def identifiersOf (es : List OutlineEntry) : List Leaf :=
  (es.filterMap OutlineEntry.leaf?).filter (·.tag = "identifier")

@[simp] theorem identifiersOf_append (es fs : List OutlineEntry) :
    identifiersOf (es ++ fs) = identifiersOf es ++ identifiersOf fs := by
  simp [identifiersOf]

theorem identifiersOf_cons (e : OutlineEntry) (es : List OutlineEntry) :
    identifiersOf (e :: es) = identifiersOf [e] ++ identifiersOf es :=
  identifiersOf_append [e] es

/-- What leaves of identifiers say of the names. -/
abbrev ShowAll (ns : List Naming) (ls : List Leaf) : Prop :=
  List.Forall₂ (fun n l => n.ShownBy (n.Denotes ∨ n.Homonym) l) ns ls

theorem remark_ne_empty (defines : Bool) (meaning : Option Variable) :
    remark defines meaning ≠ "" := by
  have hbegin : ∃ rest, remark defines meaning = "defined: " ++ rest := by
    cases meaning with
    | none => exact ⟨_, String.append_assoc⟩
    | some v =>
      unfold remark
      simp only [String.append_assoc]
      exact ⟨_, rfl⟩
  obtain ⟨rest, hrest⟩ := hbegin
  have hdefined : "defined: ".toList ≠ [] := by decide
  rw [hrest]
  intro h
  have hlist := congrArg String.toList h
  rw [String.toList_append] at hlist
  exact hdefined (List.append_eq_nil_iff.1 hlist).1

/-- A name that denotes a variable stands for one. -/
def Naming.Resolved (n : Naming) : Prop := n.Denotes → n.meaning.isSome

theorem Naming.showAll_variable {n : Naming} {v : Variable} (hv : n.meaning = some v)
    (hn : n.Denotes ∨ n.Homonym) :
    ShowAll [n] (identifiersOf [.variable n.name n.declares n.meaning]) := by
  refine .cons ⟨rfl, iff_of_true (remark_ne_empty _ _) hn, fun _ => ⟨v, hv, ?_⟩⟩ .nil
  rw [hv, Kind.word_eq_name]
  rfl

theorem Naming.showAll_leaf {n : Naming} (hd : ¬n.Denotes) (hh : ¬n.Homonym) :
    ShowAll [n] (identifiersOf [.leaf (.identifier n.name)]) :=
  .cons ⟨rfl, iff_of_false (fun h => h rfl) (not_or.2 ⟨hd, hh⟩), fun h => absurd rfl h⟩ .nil

/-- The entry of a word says the right of it. -/
theorem Sign.showAll_entry {lookup : String → Option Variable} (s : Sign)
    (h : ∀ n ∈ s.naming? lookup, n.Resolved) :
    ShowAll (s.naming? lookup).toList (identifiersOf [s.entry lookup]) := by
  have hplain : ∀ {t : Sign} {meaning}, (∀ name, t ≠ .identifier .callee name) →
      ¬Naming.Homonym ⟨t, meaning⟩ := fun ht hh => ht _ hh.choose_spec.1
  match s, h with
  | .word (.keyword _), _ | .word (.symbol _), _ | .word (.integer _), _
  | .word (.string _), _ => exact .nil
  | .word (.identifier name), _ => exact Naming.showAll_leaf id (hplain (by simp))
  | .declared d, h =>
    obtain ⟨v, hv⟩ := Option.isSome_iff_exists.1 (h _ rfl trivial)
    exact Naming.showAll_variable hv (Or.inl trivial)
  | .identifier .value name, h | .identifier .base name, h | .identifier .target name, h =>
    obtain ⟨v, hv⟩ := Option.isSome_iff_exists.1 (h _ rfl trivial)
    exact Naming.showAll_variable hv (Or.inl trivial)
  | .identifier .receiver name, _ =>
    simp only [Sign.naming?, Sign.lexeme, Sign.entry]
    cases lookup name with
    | none => exact Naming.showAll_leaf (by simp [Naming.Denotes]) (hplain (by simp))
    | some v => exact Naming.showAll_variable rfl (Or.inl rfl)
  | .identifier .callee name, _ =>
    simp only [Sign.naming?, Sign.lexeme, Sign.entry]
    cases lookup name with
    | none => exact Naming.showAll_leaf id fun hh => absurd hh.choose_spec.2 (by simp)
    | some v => exact Naming.showAll_variable rfl (Or.inr ⟨name, rfl, rfl⟩)
  | .identifier .class_ name, _ | .identifier .type name, _ | .identifier .subroutine name, _ =>
    exact Naming.showAll_leaf id (hplain (by simp))

/-! ### What declares, and what changes the scope -/

/-- The mark changes what is in force at most by a declaration. -/
def Mark.Plain : Mark → Prop
  | .enter p => p ≠ .subroutineDec
  | .leave _ => True
  | .sign (.word l) => l ≠ .keyword .method
  | .sign (.identifier part _) => part ≠ .class_
  | .sign (.declared _) => True

theorem Mark.FoundIn.plain {us : List Use} {m : Mark} (h : m.FoundIn us) : m.Plain := by
  match m, h with
  | .enter _, h => exact h
  | .leave _, _ => trivial
  | .sign (.word _), h => exact h
  | .sign (.identifier part name), h =>
    rintro rfl
    exact h

theorem Setting.afterMark_enter {p : Production} (h : p ≠ .subroutineDec) (x : Setting) :
    x.afterMark (.enter p) = x := by
  cases p with
  | subroutineDec => exact absurd rfl h
  | _ => rfl

theorem Setting.afterMark_sign {s : Sign} (h : (Mark.sign s).Plain) (x : Setting) :
    x.afterMark (.sign s) = ⟨x.className, x.environment.afterSign s⟩ := by
  match s, h with
  | .word (.keyword k), h =>
    cases k with
    | method => exact absurd rfl h
    | _ => rfl
  | .word (.symbol _), _ | .word (.integer _), _ | .word (.string _), _
  | .word (.identifier _), _ => rfl
  | .identifier part name, h =>
    cases part with
    | class_ => exact absurd rfl h
    | _ => rfl
  | .declared d, _ => rfl

/-- Marks that are plain show their names, if those that denote variables stand for some. -/
theorem Setting.showAll_outline {x : Setting} {ms : List Mark} (h : ∀ m ∈ ms, m.Plain)
    (hr : ∀ n ∈ x.environment.namings (ms.filterMap Mark.sign?), n.Resolved) :
    ShowAll (x.environment.namings (ms.filterMap Mark.sign?)) (identifiersOf (x.outline ms)) := by
  induction ms generalizing x with
  | nil => exact .nil
  | cons m ms ih =>
    obtain ⟨hm, hms⟩ := List.forall_mem_cons.1 h
    match m, hm with
    | .enter p, hm =>
      rw [Setting.outline, Setting.afterMark_enter hm]
      exact ih hms hr
    | .leave p, _ => exact ih hms hr
    | .sign s, hm =>
      have hafter := Setting.afterMark_sign hm x
      rw [List.filterMap_cons, Mark.sign?_sign, Environment.namings, List.forall_mem_append] at hr
      have hfirst := s.showAll_entry fun n hn => hr.1 n (Option.mem_toList.2 hn)
      have hrest := ih (x := ⟨x.className, x.environment.afterSign s⟩) hms hr.2
      rw [Setting.outline, hafter, identifiersOf_cons]
      exact List.rel_append hfirst hrest

/-- Marks that are plain put their declarations into force. -/
theorem Setting.afterMarks_plain {x : Setting} {ms : List Mark} (h : ∀ m ∈ ms, m.Plain) :
    x.afterMarks ms = ⟨x.className, x.environment.declareAll
      ((ms.filterMap Mark.sign?).filterMap Sign.declared?)⟩ := by
  induction ms generalizing x with
  | nil => rfl
  | cons m ms ih =>
    obtain ⟨hm, hms⟩ := List.forall_mem_cons.1 h
    rw [Setting.afterMarks, List.foldl_cons, ← Setting.afterMarks, ih hms]
    cases m with
    | enter p =>
      rw [Setting.afterMark_enter hm]
      rfl
    | leave p => rfl
    | sign s =>
      rw [Setting.afterMark_sign hm, List.filterMap_cons, Mark.sign?_sign, List.filterMap_cons,
        Environment.afterSign, ← Environment.declareAll_append]
      cases s.declared? <;> rfl

/-! ### The names of declarations and of statements -/

theorem Environment.namings_append (e : Environment) (ss ts : List Sign) :
    e.namings (ss ++ ts)
      = e.namings ss ++ (e.declareAll (ss.filterMap Sign.declared?)).namings ts := by
  induction ss generalizing e with
  | nil => rfl
  | cons s ss ih =>
    rw [List.cons_append, Environment.namings, Environment.namings, ih, List.append_assoc,
      Environment.afterSign, ← Environment.declareAll_append, List.filterMap_cons]
    cases s.declared? <;> rfl

/-- Words that declare nothing are all understood alike. -/
theorem Environment.namings_of_statements {e : Environment} {ss : List Sign}
    (h : ss.filterMap Sign.declared? = []) (className : String) :
    e.namings ss = Context.namings ⟨className, e.lookup⟩ ss := by
  induction ss with
  | nil => rfl
  | cons s ss ih =>
    obtain ⟨hs, hss⟩ := List.forall_mem_cons.1 (List.filterMap_eq_nil_iff.1 h)
    rw [Environment.namings, Environment.afterSign, hs, Option.toList_none,
      Environment.declareAll_nil, ih (List.filterMap_eq_nil_iff.2 hss), Context.namings,
      Context.namings, List.filterMap_cons]
    cases s.naming? e.lookup <;> rfl

/-- A word of declarations, which use no variable. -/
def Sign.Declares : Sign → Prop
  | .declared _ => True
  | .word l => l ≠ .keyword .method
  | .identifier part _ => part = .type ∨ part = .subroutine

theorem Environment.resolved_namings {e : Environment} {ss : List Sign}
    (h : ∀ s ∈ ss, s.Declares) : ∀ n ∈ e.namings ss, n.Resolved := by
  induction ss generalizing e with
  | nil => simp [Environment.namings]
  | cons s ss ih =>
    obtain ⟨hs, hss⟩ := List.forall_mem_cons.1 h
    refine List.forall_mem_append.2 ⟨fun n hn => ?_, ih hss⟩
    rw [Option.mem_toList] at hn
    match s, hs with
    | .declared d, _ =>
      obtain rfl := Option.some.inj hn
      exact fun _ => (Environment.isSome_lookup_declare e d d.name).2 (Or.inl rfl)
    | .word (.identifier name), _ =>
      obtain rfl := Option.some.inj hn
      exact fun hd => absurd hd id
    | .identifier part name, hs =>
      obtain rfl := Option.some.inj hn
      intro hd
      rcases hs with rfl | rfl
      all_goals exact absurd hd id

theorem Context.resolved_namings {k : Context} {us : List Use} (hk : k.Permits us)
    {ss : List Sign} (h : ∀ s ∈ ss, s.FoundIn us) : ∀ n ∈ k.namings ss, n.Resolved := by
  intro n hn
  obtain ⟨s, hs, hn⟩ := List.mem_filterMap.1 hn
  have hfound := h s hs
  match s, hfound with
  | .word (.identifier name), _ =>
    obtain rfl := Option.some.inj hn
    exact fun hd => absurd hd id
  | .identifier .value name, hfound | .identifier .base name, hfound
  | .identifier .target name, hfound =>
    obtain rfl := Option.some.inj hn
    exact fun _ => hk _ hfound
  | .identifier .receiver name, _ =>
    obtain rfl := Option.some.inj hn
    exact id
  | .identifier .type name, _ | .identifier .subroutine name, _ | .identifier .callee name, _ =>
    obtain rfl := Option.some.inj hn
    exact fun hd => absurd hd id

/-! ### The marks of declarations -/

/-- A mark that declarations can have. -/
def Mark.Declares : Mark → Prop
  | .enter p | .leave p => p ≠ .subroutineDec
  | .sign s => s.Declares

theorem Mark.Declares.plain {m : Mark} (h : m.Declares) : m.Plain := by
  match m, h with
  | .enter _, h => exact h
  | .leave _, _ => trivial
  | .sign (.declared _), _ => trivial
  | .sign (.word _), h => exact h
  | .sign (.identifier part name), h =>
    rintro rfl
    simp [Mark.Declares, Sign.Declares] at h

theorem declares_word {l : Lexeme} (h : l ≠ .keyword .method) :
    Marked Mark.Declares [.leaf (.word l)] :=
  .leaf h

theorem declares_declared (d : Declared) : Marked Mark.Declares [.leaf (.declared d)] :=
  .leaf trivial

theorem declares_inner {p : Production} {es : List Element} (hp : p ≠ .subroutineDec)
    (h : Marked Mark.Declares es) : Marked Mark.Declares [.inner p es] :=
  .inner hp h hp

theorem TypeName.declares_sign (t : TypeName) : Marked Mark.Declares [.leaf t.sign] := by
  cases t with
  | class_ name => exact .leaf (Or.inl rfl)
  | _ => exact declares_word (by simp)

theorem declares_nameElements (type : String) (kind : Kind) (first : String)
    (more : List String) : Marked Mark.Declares (nameElements type kind first more) := by
  refine .cons (declares_declared _) (.flatMap (fun name => ?_) more)
  exact .cons (declares_word (by simp)) (declares_declared _)

theorem ClassVarDec.declares_element (d : ClassVarDec) : Marked Mark.Declares [d.element] := by
  have hkind : Marked Mark.Declares [keywordLeaf d.kind.keyword] :=
    declares_word (by cases d.kind <;> simp [Kind.keyword])
  have hnames := declares_nameElements d.type.spelling d.kind d.first d.more
  exact declares_inner (by decide) (.append (.cons hkind (.cons d.type.declares_sign hnames))
    (declares_word (by simp)))

theorem VarDec.declares_element (d : VarDec) : Marked Mark.Declares [d.element] := by
  have hvar : Marked Mark.Declares [keywordLeaf .var] := declares_word (by simp)
  have hnames := declares_nameElements d.type.spelling .var d.first d.more
  exact declares_inner (by decide) (.append (.cons hvar (.cons d.type.declares_sign hnames))
    (declares_word (by simp)))

theorem Parameter.declares_elements (p : Parameter) : Marked Mark.Declares p.elements :=
  .cons p.type.declares_sign (declares_declared _)

theorem declares_parameterElements (ps : List Parameter) :
    Marked Mark.Declares (parameterElements ps) := by
  cases ps with
  | nil => exact .nil
  | cons p ps =>
    exact p.declares_elements.append
      (.flatMap (fun p => .cons (declares_word (by simp)) p.declares_elements) ps)

theorem declares_map {α : Type} {f : α → Element} (h : ∀ x, Marked Mark.Declares [f x])
    (xs : List α) : Marked Mark.Declares (xs.map f) := by
  rw [List.map_eq_flatMap]
  exact .flatMap h xs

/-! ### Passing the marks of a class -/

/-- The marks show these names, and what is in force changes from `x` to `y`. -/
structure Setting.Passes (x : Setting) (ms : List Mark) (ns : List Naming) (y : Setting) :
    Prop where
  shows : ShowAll ns (identifiersOf (x.outline ms))
  after : x.afterMarks ms = y

theorem Setting.Passes.append {x y z : Setting} {ms more : List Mark} {ns others : List Naming}
    (h : x.Passes ms ns y) (k : y.Passes more others z) :
    x.Passes (ms ++ more) (ns ++ others) z := by
  refine ⟨?_, by rw [Setting.afterMarks_append, h.after, k.after]⟩
  rw [Setting.outline_append, h.after, identifiersOf_append]
  exact List.rel_append h.shows k.shows

/-- Elements of declarations put their names into force. -/
theorem Marked.passes {es : List Element} (h : Marked Mark.Declares es) (x : Setting) :
    x.Passes (marksOf es) (x.environment.namings (signsOf es))
      ⟨x.className, x.environment.declareAll (declaredBy es)⟩ := by
  have hplain : ∀ m ∈ marksOf es, m.Plain := fun m hm => (h m hm).plain
  refine ⟨Setting.showAll_outline hplain (Environment.resolved_namings fun s hs => ?_),
    Setting.afterMarks_plain hplain⟩
  obtain ⟨m, hm, hsign⟩ := List.mem_filterMap.1 hs
  match m, hsign with
  | .sign _, rfl => exact h _ hm

/-- Elements of statements change nothing, and the context has their names. -/
theorem FoundIn.passes {us : List Use} {es : List Element} (h : FoundIn us es) {x : Setting}
    (hk : Context.Permits ⟨x.className, x.environment.lookup⟩ us) :
    x.Passes (marksOf es) (Context.namings ⟨x.className, x.environment.lookup⟩ (signsOf es)) x := by
  have hplain : ∀ m ∈ marksOf es, m.Plain := fun m hm => (h m hm).plain
  have hdeclared : (signsOf es).filterMap Sign.declared? = [] := h.declaredBy
  have hnamings := Environment.namings_of_statements (e := x.environment) hdeclared x.className
  have hafter := Setting.afterMarks_plain (x := x) hplain
  rw [← signsOf, hdeclared] at hafter
  refine ⟨?_, hafter⟩
  rw [← hnamings]
  refine Setting.showAll_outline hplain ?_
  rw [← signsOf, hnamings]
  refine Context.resolved_namings hk fun s hs => ?_
  obtain ⟨m, hm, hsign⟩ := List.mem_filterMap.1 hs
  cases m with
  | enter p | leave p => cases hsign
  | sign s' =>
    obtain rfl := Option.some.inj hsign
    exact h _ hm

/-- A subroutine begins with an empty scope, but for the object of a method. -/
theorem Setting.passes_role (x : Setting) (role : Role) :
    x.Passes [.enter .subroutineDec, .sign (.word (.keyword role.keyword))] []
      ⟨x.className, x.environment.startSubroutine.declareAll (role.hidden x.className)⟩ := by
  cases role <;> exact ⟨.nil, rfl⟩

/-- The elements of a subroutine between its role and its body. -/
def SubroutineDec.headElements (d : SubroutineDec) : List Element :=
  [.leaf (resultSign d.result), .leaf (.identifier .subroutine d.name), markLeaf .leftParen,
    .inner .parameterList (parameterElements d.parameters), markLeaf .rightParen]

theorem SubroutineDec.declares_headElements (d : SubroutineDec) :
    Marked Mark.Declares d.headElements := by
  have hresult : Marked Mark.Declares [.leaf (resultSign d.result)] := by
    cases d.result with
    | none => exact declares_word (by simp)
    | some type => exact type.declares_sign
  exact .cons hresult (.cons (.leaf (Or.inr rfl)) (.cons (declares_word (by simp))
    (.cons (declares_inner (by decide) (declares_parameterElements _)) (declares_word (by simp)))))

theorem SubroutineDec.declaredBy_headElements (d : SubroutineDec) :
    declaredBy d.headElements = d.parameters.map Parameter.declared := by
  simp [SubroutineDec.headElements, declaredBy_parameterElements]

theorem SubroutineDec.namings_headSigns (d : SubroutineDec) (e : Environment) :
    e.namings d.headSigns = e.namings (signsOf d.headElements)
      ++ (e.declareAll (declaredBy d.headElements)).namings
        (signsOf (d.vars.map VarDec.element)) := by
  have hmark : ∀ lookup m, (Sign.word (.symbol m)).naming? lookup = none := fun _ _ => rfl
  have hhead : signsOf d.headElements
      = resultSign d.result :: .identifier .subroutine d.name :: .word (.symbol .leftParen)
        :: (signsOf (parameterElements d.parameters) ++ [.word (.symbol .rightParen)]) := by
    simp [SubroutineDec.headElements]
  have hparams : (signsOf (parameterElements d.parameters)).filterMap Sign.declared?
      = d.parameters.map Parameter.declared :=
    declaredBy_parameterElements d.parameters
  rw [hhead, d.declaredBy_headElements, SubroutineDec.headSigns]
  simp [Environment.namings, hmark, Environment.namings_append, hparams, Environment.afterSign]

/-- A subroutine shows its names, wherever the class around it stands. -/
theorem ClassDec.passes_subroutine {c : ClassDec} {d : SubroutineDec} (ha : c.Accepts d)
    {x : Setting} (hname : x.className = c.name)
    (hscope : x.environment.startSubroutine = c.environment) :
    x.Passes d.element.marks (c.subroutineNamings d)
      ⟨c.name, c.environment.declareAll (d.declared c.name)⟩ := by
  have hrole := x.passes_role d.role
  rw [hscope, hname] at hrole
  have hhead := d.declares_headElements.passes
    ⟨c.name, c.environment.declareAll (d.role.hidden c.name)⟩
  have hopen : ∀ x : Setting, x.Passes [.enter .subroutineBody, .sign (.word (.symbol .leftBrace))]
      [] x := fun x => ⟨.nil, rfl⟩
  have hvars := (declares_map VarDec.declares_element d.vars).passes
    ⟨c.name, (c.environment.declareAll (d.role.hidden c.name)).declareAll
      (declaredBy d.headElements)⟩
  have hstatements : ∀ x : Setting, x.Passes [.enter .statements] [] x := fun x => ⟨.nil, rfl⟩
  have henvironment : ((c.environment.declareAll (d.role.hidden c.name)).declareAll
      (declaredBy d.headElements)).declareAll (declaredBy (d.vars.map VarDec.element))
      = c.environment.declareAll (d.declared c.name) := by
    simp only [SubroutineDec.declared, d.declaredBy_headElements, declaredBy_map,
      VarDec.declaredBy_element, Environment.declareAll_append]
  have hbody := (foundIn_statementElements d.body).passes
    (x := ⟨c.name, c.environment.declareAll (d.declared c.name)⟩) ha.2
  have hclose : ∀ x : Setting, x.Passes [.leave .statements, .sign (.word (.symbol .rightBrace)),
      .leave .subroutineBody, .leave .subroutineDec] [] x := fun x => ⟨.nil, rfl⟩
  rw [henvironment] at hvars
  have hall := ((hrole.append (hhead.append ((hopen _).append hvars))).append
    ((hstatements _).append hbody)).append (hclose _)
  rw [ClassDec.subroutineNamings, d.namings_headSigns]
  simpa [SubroutineDec.element, SubroutineDec.headElements, markLeaf, keywordLeaf,
    ClassDec.context] using hall

theorem ClassDec.passes_subroutines {c : ClassDec} {ds : List SubroutineDec}
    (ha : ∀ d ∈ ds, c.Accepts d) {x : Setting} (hname : x.className = c.name)
    (hscope : x.environment.startSubroutine = c.environment) :
    ∃ y, x.Passes (marksOf (ds.map SubroutineDec.element)) (ds.flatMap c.subroutineNamings) y := by
  induction ds generalizing x with
  | nil => exact ⟨x, .nil, rfl⟩
  | cons d ds ih =>
    obtain ⟨hd, hds⟩ := List.forall_mem_cons.1 ha
    have hfirst := ClassDec.passes_subroutine hd hname hscope
    obtain ⟨y, hrest⟩ := ih (x := ⟨c.name, c.environment.declareAll (d.declared c.name)⟩) hds rfl
      ((Environment.startSubroutine_declareAll (d.ofClass_declared c.name)).trans
        c.startSubroutine_environment)
    exact ⟨y, hfirst.append hrest⟩

/-- The outline of a class shows the names of the class. -/
theorem ClassDec.passes {c : ClassDec} (ha : c.Accepted) :
    ∃ y, Setting.initial.Passes c.element.marks c.namings y := by
  have hhead : Setting.initial.Passes [.enter .class_, .sign (.word (.keyword .class_)),
      .sign (.identifier .class_ c.name), .sign (.word (.symbol .leftBrace))]
      [⟨.identifier .class_ c.name, none⟩] ⟨c.name, .empty⟩ := by
    have hhomonym : ¬Naming.Homonym ⟨.identifier .class_ c.name, none⟩ := by
      rintro ⟨_, h, -⟩
      cases h
    exact ⟨Naming.showAll_leaf id hhomonym, rfl⟩
  have hvars := (declares_map ClassVarDec.declares_element c.vars).passes ⟨c.name, .empty⟩
  have hdeclared : declaredBy (c.vars.map ClassVarDec.element) = c.declared := by
    simp only [declaredBy_map, ClassVarDec.declaredBy_element, ClassDec.declared]
  rw [hdeclared] at hvars
  obtain ⟨y, hsubroutines⟩ := ClassDec.passes_subroutines ha.subroutines
    (x := ⟨c.name, c.environment⟩) rfl c.startSubroutine_environment
  have hclose : y.Passes [.sign (.word (.symbol .rightBrace)), .leave .class_] [] y := ⟨.nil, rfl⟩
  have hall := ((hhead.append hvars).append hsubroutines).append hclose
  refine ⟨y, ?_⟩
  simpa [ClassDec.element, ClassDec.namings, markLeaf, keywordLeaf] using hall

/-! ### The annotations of an outline -/

/-- The identifiers of the outline of a class. -/
theorem ClassDec.showAll_leavesOf {c : ClassDec} (ha : c.Accepted)
    (h : ∀ l ∈ c.lexemes, l.Valid) :
    ShowAll c.namings
      ((leavesOf (renderEntries "" 0 c.outline)).filter (·.tag = "identifier")) := by
  obtain ⟨y, hpasses⟩ := ClassDec.passes ha
  rw [leavesOf_renderEntries (ClassDec.clean_outline h)]
  exact hpasses.shows

/-- In the outline of a text that compiles, an identifier is explained just when it denotes a
variable, or is the callee of a call on the current object with the name of a variable in force. -/
theorem identifiers_explained_iff {source : String} {result : CompiledClass}
    (h : compile source true = .ok result) :
    ∃ stream text, tokenize source = .ok stream ∧ result.outline? = some text
      ∧ (∃ c : ClassDec, c.lexemes = stream.tokens.map Token.lexeme)
      ∧ ∀ c : ClassDec, c.lexemes = stream.tokens.map Token.lexeme →
        List.Forall₂ (fun n l => n.ShownBy (n.Denotes ∨ n.Homonym) l) c.namings
          ((leavesOf text).filter (·.tag = "identifier")) := by
  obtain ⟨stream, hs, ⟨c, hc⟩, hall⟩ := outline_of_compile h
  obtain ⟨-, -, ho⟩ := hall c hc
  refine ⟨stream, _, hs, ho, ⟨c, hc⟩, fun d hd => ?_⟩
  obtain ⟨ha, hvalid, ho'⟩ := hall d hd
  rw [Option.some.inj (ho.symm.trans ho')]
  exact ClassDec.showAll_leavesOf ha hvalid

/-- A call on a field, one on a class, and a parameter. -/
theorem identifiers_of_receiver :
    ∃ result,
      compile "class A{field A a;method void f(int x){do a.f(x);do A.g();return;}}" true
        = .ok result
      ∧ ∃ stream text,
        tokenize "class A{field A a;method void f(int x){do a.f(x);do A.g();return;}}" = .ok stream
          ∧ result.outline? = some text
          ∧ (∃ c : ClassDec, c.lexemes = stream.tokens.map Token.lexeme)
          ∧ ∀ c : ClassDec, c.lexemes = stream.tokens.map Token.lexeme →
            List.Forall₂ (fun n l => n.ShownBy (n.Denotes ∨ n.Homonym) l) c.namings
              ((leavesOf text).filter (·.tag = "identifier")) := by
  obtain ⟨result, hr⟩ : ∃ result,
      compile "class A{field A a;method void f(int x){do a.f(x);do A.g();return;}}" true
        = .ok result := ⟨_, rfl⟩
  exact ⟨result, hr, identifiers_explained_iff hr⟩

/-- A field and a method of its name, which is called. -/
theorem callee_explained_as_field :
    ∃ result, compile "class A{field int m;method void f(){do m();return;}}" true = .ok result
      ∧ ¬∃ stream text,
        tokenize "class A{field int m;method void f(){do m();return;}}" = .ok stream
          ∧ result.outline? = some text
          ∧ (∃ c : ClassDec, c.lexemes = stream.tokens.map Token.lexeme)
          ∧ ∀ c : ClassDec, c.lexemes = stream.tokens.map Token.lexeme →
            List.Forall₂ (fun n l => n.ShownBy n.Denotes l) c.namings
              ((leavesOf text).filter (·.tag = "identifier")) := by
  let c : ClassDec := ⟨"A", [⟨.field, rfl, .int, "m", []⟩],
    [⟨.method, none, "f", [], [], [.do_ (.own "m" []), .return_ none]⟩]⟩
  have hlexemes : (tokenize "class A{field int m;method void f(){do m();return;}}").map
      (fun s => s.tokens.map Token.lexeme) = .ok c.lexemes := by rfl
  have hnamings : c.namings = [⟨.identifier .class_ "A", none⟩,
      ⟨.declared ⟨"m", "int", .field⟩, some ⟨"m", "int", .field, 0⟩⟩,
      ⟨.identifier .subroutine "f", none⟩,
      ⟨.identifier .callee "m", some ⟨"m", "int", .field, 0⟩⟩] := by rfl
  obtain ⟨result, hr⟩ : ∃ result,
      compile "class A{field int m;method void f(){do m();return;}}" true = .ok result := ⟨_, rfl⟩
  refine ⟨result, hr, ?_⟩
  rintro ⟨stream, text, hs, ht, -, hclaim⟩
  rw [hs] at hlexemes
  have hc : c.lexemes = stream.tokens.map Token.lexeme := (Except.ok.inj hlexemes).symm
  obtain ⟨stream', hs', -, hall⟩ := outline_of_compile hr
  obtain rfl := Except.ok.inj (hs.symm.trans hs')
  obtain ⟨ha, hvalid, ho⟩ := hall c hc
  have htext : text = renderEntries "" 0 c.outline := Option.some.inj (ht.symm.trans ho)
  have hshown := ClassDec.showAll_leavesOf ha hvalid
  have hclaimed := hclaim c hc
  rw [htext] at hclaimed
  -- the fourth identifier is the callee
  rw [hnamings] at hshown hclaimed
  generalize (leavesOf _).filter _ = ls at hshown hclaimed
  match ls, hshown, hclaimed with
  | _, .cons _ (.cons _ (.cons _ (.cons hs .nil))), .cons _ (.cons _ (.cons _ (.cons hc .nil))) =>
    exact hc.explained.1 (hs.explained.2 (Or.inr ⟨"m", rfl, rfl⟩))

end Jack
