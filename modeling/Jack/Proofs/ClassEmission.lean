import Jack.Proofs.ClassRecognition
import Jack.Proofs.Emission

/-! What a session emits for the actions of a class: the translation of the class, unless more is
declared or passed than 16 bits count, or a name is not declared. -/

namespace Jack

/-! ### Declarations -/

/-- The declarations leave every kind within 16 bits. -/
def Environment.Fits (e : Environment) (ds : List Declared) : Prop :=
  ∀ kind, e.count kind + ds.countP (·.kind = kind) ≤ 65535

theorem Environment.fits_append {e : Environment} {ds more : List Declared} :
    e.Fits (ds ++ more) ↔ e.Fits ds ∧ (e.declareAll ds).Fits more := by
  simp only [Environment.Fits, List.countP_append, Environment.count_declareAll]
  constructor
  · intro h
    exact ⟨fun kind => by have := h kind; omega, fun kind => by have := h kind; omega⟩
  · rintro ⟨-, h⟩ kind
    have := h kind
    omega

/-- One session goes on as another that keeps an environment and has emitted nothing more. -/
structure Session.Declares (s : Session) (e : Environment) (t : Session) : Prop where
  scope : t.scope.Keeps e
  className : t.className = s.className
  slot? : t.slot? = s.slot?
  code : t.code = s.code

theorem Session.Declares.trans {s t u : Session} {e e' : Environment} (h : s.Declares e t)
    (h' : t.Declares e' u) : s.Declares e' u :=
  ⟨h'.scope, h'.className.trans h.className, h'.slot?.trans h.slot?, h'.code.trans h.code⟩

/-- In a class of this name, the actions put the declarations into force, or meet an error. -/
def Declaring (className : String) (as : List Action) (ds : List Declared) : Prop :=
  ∀ (s : Session) (e : Environment), s.className = className → s.scope.Keeps e →
    s.Attains as (e.Fits ds) (s.Declares (e.declareAll ds))

namespace Declaring

variable {className : String} {as bs : List Action} {ds more : List Declared}

theorem append (h : Declaring className as ds) (h' : Declaring className bs more) :
    Declaring className (as ++ bs) (ds ++ more) := by
  intro s e hs he
  refine ((h s e hs he).append fun t ht => ?_).congr Environment.fits_append fun _ ht => ht
  apply (h' t _ (ht.className.trans hs) ht.scope).congr Iff.rfl
  intro u hu
  rw [Environment.declareAll_append]
  exact ht.trans hu

/-- Actions that emit nothing declare nothing. -/
theorem quiet (h : ∀ k, Performs k as True []) : Declaring className as [] := by
  intro s e _ he
  refine (h s.context s rfl).congr ⟨fun _ => trivial, fun _ kind => ?_⟩ fun t ht => ?_
  · exact he.count_le kind
  · exact ⟨ht.scope ▸ he, ht.className, ht.slot?, ht.code.trans (List.append_nil _)⟩

theorem cons {a : Action} (h : Declaring className [a] ds) (h' : Declaring className as more) :
    Declaring className (a :: as) (ds ++ more) :=
  h.append h'

theorem enter (x : Production) : Declaring className [.enter x] [] :=
  quiet fun k => .enter k x

theorem leave (x : Production) : Declaring className [.leave x] [] :=
  quiet fun k => .leave k x

theorem take (t : Token) : Declaring className [.take t] [] := quiet fun k => .take k t

theorem fits_singleton {s : Scope} {e : Environment} (he : s.Keeps e) (d : Declared) :
    e.Fits [d] ↔ s.define? d.name d.type d.kind ≠ none := by
  rw [ne_eq, he.define?_eq_none_iff]
  constructor
  · intro h
    have := h d.kind
    simp only [List.countP_singleton, decide_true, if_true] at this
    omega
  · intro h kind
    have hle := he.count_le kind
    by_cases hk : d.kind = kind
    · subst hk
      simp only [List.countP_singleton, decide_true, if_true]
      omega
    · simpa [hk] using hle

theorem declare (p : Production) (d : Declared) : Declaring className [declareAction p d] [d] := by
  intro s e _ he
  cases hd : s.scope.define? d.name d.type d.kind with
  | none =>
    have hp : (s.perform (declareAction p d)).2 = some (.tooMany p (.variables d.kind) .nowhere) := by
      simp [declareAction, Session.perform, Session.define, Session.moveTo, unplaced, hd]
    exact .stop hp fun hf => (fits_singleton he d).1 hf hd
  | some scope =>
    have hp : s.perform (declareAction p d)
        = (({ s.moveTo .nowhere with scope := scope }).note
            (.variable d.name true (scope.lookup d.name)), none) := by
      simp [declareAction, Session.perform, Session.define, Session.moveTo, unplaced, hd]
    have hf : e.Fits [d] := (fits_singleton he d).2 (by rw [hd]; exact Option.some_ne_none _)
    refine (Session.Attains.step hp ?_).congr ⟨fun _ => trivial, fun _ => hf⟩ fun _ ht => ht
    exact ⟨he.define hd, rfl, rfl, rfl⟩

theorem hidden (r : Role) : Declaring className r.hiddenActions (r.hidden className) := by
  cases r with
  | constructor => exact quiet fun k => .nil k
  | function => exact quiet fun k => .nil k
  | method =>
    intro s e hs he
    subst hs
    cases hd : s.scope.define? thisName s.className .argument with
    | none =>
      have hp : (s.perform (.declareThis .nowhere)).2
          = some (.tooMany .subroutineDec (.variables .argument) .nowhere) := by
        simp [Session.perform, Session.define, hd]
      exact .stop hp fun hf => (fits_singleton he ⟨thisName, s.className, .argument⟩).1 hf hd
    | some scope =>
      have hp : s.perform (.declareThis .nowhere) = ({ s with scope := scope }, none) := by
        simp [Session.perform, Session.define, hd]
      have hf : e.Fits [⟨thisName, s.className, .argument⟩] :=
        (fits_singleton he _).2 (by rw [hd]; exact Option.some_ne_none _)
      refine (Session.Attains.step hp ?_).congr ⟨fun _ => trivial, fun _ => hf⟩ fun _ ht => ht
      exact ⟨he.define hd, rfl, rfl, rfl⟩

theorem names (p : Production) (type : String) (kind : Kind) (first : String)
    (more : List String) :
    Declaring className (nameActions p type kind first more)
      ((first :: more).map fun name => ⟨name, type, kind⟩) := by
  induction more generalizing first with
  | nil => exact declare p _
  | cons name more ih =>
    exact (declare p _).cons ((take _).cons (ih name))

theorem flatMap {α : Type} {f : α → List Action} {g : α → List Declared} {xs : List α}
    (h : ∀ x ∈ xs, Declaring className (f x) (g x)) :
    Declaring className (xs.flatMap f) (xs.flatMap g) := by
  induction xs with
  | nil => exact quiet fun k => .nil k
  | cons x xs ih =>
    rw [List.forall_mem_cons] at h
    exact h.1.append (ih h.2)

theorem classVarDec (d : ClassVarDec) : Declaring className d.actions d.declared := by
  have hn : Declaring className (nameActions .classVarDec d.type.spelling d.kind d.first d.more
      ++ [takeMark .semicolon, .leave .classVarDec]) (d.declared ++ []) :=
    (names _ _ _ _ _).append ((take _).cons (leave _))
  rw [List.append_nil] at hn
  exact (enter _).cons ((take _).cons ((take _).cons hn))

theorem varDec (d : VarDec) : Declaring className d.actions d.declared := by
  have hn : Declaring className (nameActions .varDec d.type.spelling .var d.first d.more
      ++ [takeMark .semicolon, .leave .varDec]) (d.declared ++ []) :=
    (names _ _ _ _ _).append ((take _).cons (leave _))
  rw [List.append_nil] at hn
  exact (enter _).cons ((take _).cons ((take _).cons hn))

theorem parameter (p : Parameter) : Declaring className p.actions [p.declared] :=
  (take _).cons (declare _ _)

theorem parameters (ps : List Parameter) :
    Declaring className (parameterActions ps) (ps.map Parameter.declared) := by
  cases ps with
  | nil => exact quiet fun k => .nil k
  | cons p ps =>
    have hps : Declaring className (ps.flatMap fun p => takeMark .comma :: p.actions)
        (ps.flatMap fun p => [p.declared]) :=
      flatMap fun p _ => (take _).cons (parameter p)
    rw [← List.map_eq_flatMap] at hps
    exact (parameter p).append hps

end Declaring

/-! ### Subroutines -/

/-- The local count of the header in the slot is written, where the header was emitted. -/
theorem Session.complete_of_header {s : Session} {name : String} {before after : List Instruction}
    {count : UInt16} (hs : s.slot? = some ⟨before.length, name⟩)
    (hc : s.code = before ++ .function name count :: after) (locals : UInt16) :
    ∃ t, s.complete locals = (t, none) ∧ t.scope = s.scope ∧ t.className = s.className
      ∧ t.code = before ++ .function name locals :: after := by
  obtain ⟨scope, listing, outline?, className, slot?⟩ := s
  subst hs
  have hget : ∀ i : Nat, (listing.lines[i]?).map Emitted.instruction
      = (before ++ .function name count :: after)[i]? := by
    intro i
    rw [← hc, Session.code, List.getElem?_map, Array.getElem?_toList]
  have hholds : listing.holds ⟨before.length, name⟩ = true := by
    have h := hget before.length
    rw [List.getElem?_append_right (Nat.le_refl _), Nat.sub_self, List.getElem?_cons_zero] at h
    obtain ⟨e, he, hi⟩ := Option.map_eq_some_iff.1 h
    simp [Listing.holds, he, hi, Instruction.header?]
  refine ⟨⟨scope, (listing.patch ⟨before.length, name⟩ locals).1, outline?, className, none⟩, ?_,
    rfl, rfl, ?_⟩
  · have hsnd := listing.snd_patch ⟨before.length, name⟩ locals
    rw [hholds] at hsnd
    simp only [Session.complete]
    split
    · rename_i l hl
      rw [hl]
    · rename_i l hl
      rw [hl] at hsnd
      cases hsnd
  · apply List.ext_getElem?
    intro i
    rw [Session.code, List.getElem?_map, Array.getElem?_toList, Listing.getElem?_patch]
    have hi := hget i
    by_cases hb : before.length = i
    · subst hb
      rw [List.getElem?_append_right (Nat.le_refl _), Nat.sub_self, List.getElem?_cons_zero] at hi ⊢
      obtain ⟨e, he, -⟩ := Option.map_eq_some_iff.1 hi
      simp [hholds, he]
    · rw [if_neg fun h => hb h.2, hi]
      by_cases hlt : i < before.length
      · rw [List.getElem?_append_left hlt, List.getElem?_append_left hlt]
      · obtain ⟨j, hj⟩ : ∃ j, i - before.length = j + 1 := ⟨i - before.length - 1, by omega⟩
        rw [List.getElem?_append_right (by omega), List.getElem?_append_right (by omega), hj,
          List.getElem?_cons_succ, List.getElem?_cons_succ]

theorem Environment.startSubroutine_declareAll {e : Environment} {ds : List Declared}
    (h : ∀ d ∈ ds, d.kind.ofClass = false) :
    (e.declareAll ds).startSubroutine = e.startSubroutine := by
  induction ds generalizing e with
  | nil => rfl
  | cons d ds ih =>
    rw [List.forall_mem_cons] at h
    rw [Environment.declareAll_cons, ih h.2]
    simp [Environment.declare, h.1, Environment.startSubroutine]

theorem Environment.ofSubroutine_declareAll {e : Environment} {ds : List Declared}
    (h : ∀ d ∈ ds, d.kind.ofClass = true) :
    (e.declareAll ds).ofSubroutine = e.ofSubroutine := by
  induction ds generalizing e with
  | nil => rfl
  | cons d ds ih =>
    rw [List.forall_mem_cons] at h
    rw [Environment.declareAll_cons, ih h.2]
    simp [Environment.declare, h.1]

theorem SubroutineDec.ofClass_declared (d : SubroutineDec) (className : String) :
    ∀ x ∈ d.declared className, x.kind.ofClass = false := by
  intro x hx
  simp only [SubroutineDec.declared, List.mem_append, List.mem_map, List.mem_flatMap] at hx
  rcases hx with (hx | ⟨p, -, rfl⟩) | ⟨v, -, hx⟩
  · cases hr : d.role <;> rw [hr] at hx <;> simp [Role.hidden] at hx
    subst hx
    rfl
  · rfl
  · obtain ⟨name, -, rfl⟩ := List.mem_map.1 hx
    rfl

theorem ClassDec.ofClass_declared (c : ClassDec) : ∀ x ∈ c.declared, x.kind.ofClass = true := by
  intro x hx
  obtain ⟨v, -, hx⟩ := List.mem_flatMap.1 hx
  obtain ⟨name, -, rfl⟩ := List.mem_map.1 hx
  exact v.ofClass

theorem ClassDec.startSubroutine_environment (c : ClassDec) :
    c.environment.startSubroutine = c.environment := by
  have h : c.environment.ofSubroutine = [] := Environment.ofSubroutine_declareAll c.ofClass_declared
  rw [Environment.startSubroutine, ← h]

theorem ClassDec.count_environment (c : ClassDec) (kind : Kind) :
    c.environment.count kind = c.declared.countP (·.kind = kind) := by
  rw [ClassDec.environment, Environment.count_declareAll, Environment.count_empty, Nat.zero_add]

/-- What a subroutine declares fits, and what it uses is admitted. -/
def ClassDec.Accepts (c : ClassDec) (d : SubroutineDec) : Prop :=
  c.environment.Fits (d.declared c.name) ∧ (c.context d).Permits (statementUses d.body)

/-- Between two subroutines of a class, the code emitted so far being `is`. -/
structure Session.InClass (s : Session) (c : ClassDec) (is : List Instruction) : Prop where
  scope : s.scope.startSubroutine.Keeps c.environment
  className : s.className = c.name
  code : s.code = is

/-- Within a subroutine, whose header may stand in a slot. -/
structure Session.Within (s : Session) (className : String) (e : Environment)
    (slot? : Option HeaderSlot) (is : List Instruction) : Prop where
  scope : s.scope.Keeps e
  className : s.className = className
  slot? : s.slot? = slot?
  code : s.code = is

namespace Session.Within

variable {s : Session} {className : String} {e : Environment} {slot? : Option HeaderSlot}
  {is : List Instruction}

theorem declaring (h : s.Within className e slot? is) {as : List Action} {ds : List Declared}
    (hd : Declaring className as ds) :
    s.Attains as (e.Fits ds) fun t => t.Within className (e.declareAll ds) slot? is := by
  apply (hd s e h.className h.scope).congr Iff.rfl
  intro t ht
  exact ⟨ht.scope, ht.className.trans h.className, ht.slot?.trans h.slot?, ht.code.trans h.code⟩

theorem performs (h : s.Within className e slot? is) {as : List Action} {p : Prop}
    {js : List Instruction} (hp : Performs ⟨className, e.lookup⟩ as p js) :
    s.Attains as p fun t => t.Within className e slot? (is ++ js) := by
  have hk : s.context = ⟨className, e.lookup⟩ := by
    rw [Session.context, h.className, h.scope.lookup]
  apply (hp s hk).congr Iff.rfl
  intro t ht
  refine ⟨ht.scope ▸ h.scope, ht.className.trans h.className, ht.slot?.trans h.slot?, ?_⟩
  rw [ht.code, h.code]

theorem header (h : s.Within className e slot? is) (name : String) :
    s.Attains [.header name] True fun t => t.Within className e
      (some ⟨is.length, className ++ "." ++ name⟩)
      (is ++ [.function (className ++ "." ++ name) 0]) := by
  refine .step rfl ⟨h.scope, h.className, ?_, ?_⟩
  · rw [← h.className, ← h.code]
    simp [Session.header, Listing.slot, Session.code, qualified]
  · rw [← h.className, ← h.code]
    simp [Session.header, Listing.slot, Listing.header, Session.code, qualified]

theorem preamble (h : s.Within className e slot? is) (r : Role) :
    s.Attains [.preamble r] True fun t => t.Within className e slot?
      (is ++ r.prologue (e.count .field)) := by
  have hf : s.scope.count .field = UInt16.ofNat (e.count .field) := by
    rw [← h.scope.count .field, UInt16.ofNat_toNat]
  have ha := Session.Adds.emit s (r.preamble (s.scope.count .field))
  have hr : r.preamble (s.scope.count .field) = r.prologue (e.count .field) := by
    rw [hf]
    cases r <;> rfl
  refine .step rfl ⟨ha.scope ▸ h.scope, ha.className.trans h.className,
    ha.slot?.trans h.slot?, ?_⟩
  rw [ha.code, h.code, hr]

theorem complete {name : String} (after : List Instruction) {count : UInt16}
    (h : s.Within className e (some ⟨is.length, name⟩) (is ++ .function name count :: after))
    (locals : UInt16) :
    s.Attains [.complete locals] True fun t => t.scope.Keeps e ∧ t.className = className
      ∧ t.code = is ++ .function name locals :: after := by
  obtain ⟨t, ht, hscope, hclass, hcode⟩ := Session.complete_of_header h.slot? h.code locals
  exact .step ht ⟨hscope ▸ h.scope, hclass.trans h.className, hcode⟩

end Session.Within

/-- The actions of a subroutine after the first one and before its header. -/
def SubroutineDec.headActions (d : SubroutineDec) : List Action :=
  [.enter .subroutineDec, takeKeyword d.role.keyword, .take (resultLexeme d.result).token,
    .take (Lexeme.identifier d.name).token] ++ d.role.hiddenActions
    ++ [takeMark .leftParen, .enter .parameterList] ++ parameterActions d.parameters
    ++ [.leave .parameterList, takeMark .rightParen]

def SubroutineDec.varActions (d : SubroutineDec) : List Action :=
  [.enter .subroutineBody, takeMark .leftBrace] ++ d.vars.flatMap VarDec.actions

theorem SubroutineDec.actions_eq (d : SubroutineDec) (n : Nat) :
    d.actions n = [Action.startSubroutine] ++ d.headActions ++ [Action.header d.name]
      ++ d.varActions ++ [Action.preamble d.role]
      ++ (inStatements (statementActions n d.body) ++ [takeMark .rightBrace])
      ++ [Action.complete (UInt16.ofNat d.localCount)]
      ++ [Action.leave .subroutineBody, Action.leave .subroutineDec] := by
  simp [SubroutineDec.actions, SubroutineDec.headActions, SubroutineDec.varActions, bodyActions]

theorem SubroutineDec.declaring_head (d : SubroutineDec) (className : String) :
    Declaring className d.headActions
      (d.role.hidden className ++ d.parameters.map Parameter.declared) := by
  have hb : Declaring className [.enter .subroutineDec, takeKeyword d.role.keyword,
      .take (resultLexeme d.result).token, .take (Lexeme.identifier d.name).token] [] :=
    (Declaring.enter _).cons ((Declaring.take _).cons ((Declaring.take _).cons (Declaring.take _)))
  have hm : Declaring className [takeMark .leftParen, .enter .parameterList] [] :=
    (Declaring.take _).cons (Declaring.enter _)
  have he : Declaring className [.leave .parameterList, takeMark .rightParen] [] :=
    (Declaring.leave _).cons (Declaring.take _)
  have h := (((hb.append (.hidden d.role)).append hm).append (.parameters d.parameters)).append he
  rw [List.nil_append, List.append_nil, List.append_nil] at h
  exact h

theorem SubroutineDec.declaring_vars (d : SubroutineDec) (className : String) :
    Declaring className d.varActions (d.vars.flatMap VarDec.declared) := by
  have hb : Declaring className [.enter .subroutineBody, takeMark .leftBrace] [] :=
    (Declaring.enter _).cons (Declaring.take _)
  exact hb.append (.flatMap fun v _ => .varDec v)

/-- The declarations of a subroutine leave the fields as they are. -/
theorem SubroutineDec.count_field (d : SubroutineDec) (c : ClassDec) :
    (c.environment.declareAll (d.declared c.name)).count .field = c.fieldCount := by
  have h : (d.declared c.name).countP (·.kind = .field) = 0 := by
    rw [List.countP_eq_zero]
    intro x hx hk
    have := d.ofClass_declared c.name x hx
    rw [of_decide_eq_true hk] at this
    cases this
  rw [Environment.count_declareAll, c.count_environment, h]
  rfl

theorem SubroutineDec.attains (c : ClassDec) {d : SubroutineDec} (hd : d.Countable) (n : Nat)
    {s : Session} {is : List Instruction} (hs : s.InClass c is) :
    s.Attains (d.actions n) (c.Accepts d) fun t => t.InClass c (is ++ c.subroutineCode n d) := by
  have hstart : s.Attains [.startSubroutine] True fun t =>
      t.Within c.name c.environment s.slot? is :=
    .step rfl ⟨hs.scope, hs.className, rfl, hs.code⟩
  have hvars := ((hstart.append fun t ht => ht.declaring (d.declaring_head c.name)).append
    fun t ht => ht.header d.name).append fun t ht => ht.declaring (d.declaring_vars c.name)
  rw [← Environment.declareAll_append, ← SubroutineDec.declared] at hvars
  have hbody : Performs (c.context d)
      (inStatements (statementActions n d.body) ++ [takeMark .rightBrace])
      (c.context d |>.Permits (statementUses d.body)) (statementCode (c.context d) n d.body) := by
    have hb := (Performs.enter (c.context d) .statements).cons
      ((statements_perform (c.context d) n d.body hd.calls).append
        (Performs.leave (c.context d) .statements))
    exact (hb.append (Performs.take _ _)).congr (by simp) (by simp)
  have hcode := (hvars.append fun t ht => ht.preamble d.role).append fun t ht =>
    ht.performs hbody
  rw [d.count_field c] at hcode
  have hdone := hcode.append fun t ht => Session.Within.complete (c.bodyCode n d)
    (by simpa [ClassDec.bodyCode] using ht) (UInt16.ofNat d.localCount)
  have hend : ∀ t : Session, t.scope.Keeps (c.environment.declareAll (d.declared c.name))
      ∧ t.className = c.name ∧ t.code = is ++ c.subroutineCode n d →
      t.Attains [.leave .subroutineBody, .leave .subroutineDec] True fun u =>
        u.InClass c (is ++ c.subroutineCode n d) := by
    rintro t ⟨hscope, hclass, hcode⟩
    have hleave := (Performs.leave t.context .subroutineBody).cons
      (Performs.leave t.context .subroutineDec)
    apply (hleave t rfl).congr (by simp)
    intro u hu
    refine ⟨?_, hu.className.trans hclass, by rw [hu.code, hcode]; simp⟩
    rw [hu.scope, ← c.startSubroutine_environment,
      ← Environment.startSubroutine_declareAll (d.ofClass_declared c.name)]
    exact hscope.startSubroutine
  rw [d.actions_eq]
  refine (hdone.append hend).congr ?_ fun _ ht => ht
  rw [ClassDec.Accepts, SubroutineDec.declared, Environment.fits_append]
  tauto

/-- The subroutines of a class, the first construct having the number `n`. -/
theorem subroutines_attain (c : ClassDec) {ds : List SubroutineDec} (hd : ∀ d ∈ ds, d.Countable)
    (n : Nat) {s : Session} {is : List Instruction} (hs : s.InClass c is) :
    s.Attains (subroutineActions n ds) (∀ d ∈ ds, c.Accepts d) fun t =>
      t.InClass c (is ++ c.codeFrom n ds) := by
  induction ds generalizing n s is with
  | nil =>
    rw [ClassDec.codeFrom, List.append_nil]
    exact (Session.Attains.nil hs).congr (by simp) fun t ht => ht
  | cons d ds ih =>
    rw [List.forall_mem_cons] at hd
    refine ((SubroutineDec.attains c hd.1 n hs).append fun t ht => ih hd.2 _ ht).congr
      List.forall_mem_cons fun t ht => ?_
    rwa [ClassDec.codeFrom, ← List.append_assoc]

/-- What a class declares fits, and every subroutine is accepted. -/
structure ClassDec.Accepted (c : ClassDec) : Prop where
  vars : Environment.empty.Fits c.declared
  subroutines : ∀ d ∈ c.subroutines, c.Accepts d

/-- From the start a class is emitted as its translation, if it is accepted. -/
theorem ClassDec.attains {c : ClassDec} (hc : c.Countable) (outlined : Bool) :
    (Session.initial outlined).Attains c.actions c.Accepted fun t =>
      t.className = c.name ∧ t.code = c.code := by
  have hbegin : (Session.initial outlined).Attains [.enter .class_, takeKeyword .class_,
      .take (Lexeme.identifier c.name).token, .nameClass c.name] True fun t =>
      t.Within c.name .empty none [] :=
    ⟨fun _ => ⟨_, rfl, ⟨.empty, rfl, rfl, rfl⟩⟩, fun h => absurd trivial h⟩
  have hvars : Declaring c.name (takeMark .leftBrace :: c.vars.flatMap ClassVarDec.actions)
      c.declared :=
    (Declaring.take _).cons (.flatMap fun v _ => .classVarDec v)
  have hsubs : ∀ t : Session, t.Within c.name c.environment none [] →
      t.Attains (subroutineActions 0 c.subroutines) (∀ d ∈ c.subroutines, c.Accepts d) fun u =>
        u.InClass c c.code := by
    intro t ht
    refine subroutines_attain c hc.subroutines 0 ⟨?_, ht.className, ht.code⟩
    rw [← c.startSubroutine_environment]
    exact ht.scope.startSubroutine
  have hend : ∀ t : Session, t.InClass c c.code →
      t.Attains [takeMark .rightBrace, .leave .class_] True fun u =>
        u.className = c.name ∧ u.code = c.code := by
    intro t ht
    have hq := (Performs.take t.context (Lexeme.symbol .rightBrace).token).cons
      (Performs.leave t.context .class_)
    apply (hq t rfl).congr (by simp)
    intro u hu
    exact ⟨hu.className.trans ht.className, by rw [hu.code, ht.code]; simp⟩
  have h := ((hbegin.append fun t ht => ht.declaring hvars).append hsubs).append hend
  have hactions : c.actions = [.enter .class_, takeKeyword .class_,
      .take (Lexeme.identifier c.name).token, .nameClass c.name]
      ++ takeMark .leftBrace :: c.vars.flatMap ClassVarDec.actions
      ++ subroutineActions 0 c.subroutines ++ [takeMark .rightBrace, .leave .class_] := by
    simp [ClassDec.actions]
  rw [hactions]
  refine h.congr ⟨fun ha => ?_, fun ha => ?_⟩ fun t ht => ht
  · exact ⟨⟨⟨trivial, ha.vars⟩, ha.subroutines⟩, trivial⟩
  · exact ⟨ha.1.1.2, ha.1.2⟩

end Jack
