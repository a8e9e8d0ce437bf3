import Jack.Proofs.Functions
import Jack.Proofs.Stepping

/-! What leaves the headers alone: the actions that emit none and fill in none, and the goals that
ask for no others. The goals that declare locals are kept apart, since each name is counted. -/

namespace Jack

/-! ### Actions that leave the headers alone -/

def headers (is : List Instruction) : List Instruction := is.filter fun i => i.header?.isSome

/-- The action emits no header and fills in none. -/
def Action.steady : Action → Bool
  | .nameClass _ | .header _ | .complete _ => false
  | .emit code | .emitAt _ code => code.all fun i => i.header?.isNone
  | _ => true

/-- One session goes on as another that has emitted no header since. -/
structure Session.Extends (s t : Session) : Prop where
  className : t.className = s.className
  slot? : t.slot? = s.slot?
  code : ∃ is, Headless is ∧ t.code = s.code ++ is

theorem headers_append (is js : List Instruction) :
    headers (is ++ js) = headers is ++ headers js :=
  List.filter_append _ _

theorem Headless.headers {is : List Instruction} (h : Headless is) : headers is = [] := by
  rw [Jack.headers, List.filter_eq_nil_iff]
  intro i hi
  simp [h i hi]

theorem headless_of_all {is : List Instruction} (h : (is.all fun i => i.header?.isNone) = true) :
    Headless is :=
  fun i hi => Option.isNone_iff_eq_none.1 (List.all_eq_true.1 h i hi)

theorem all_of_headless {is : List Instruction} (h : Headless is) :
    (is.all fun i => i.header?.isNone) = true :=
  List.all_eq_true.2 fun i hi => Option.isNone_iff_eq_none.2 (h i hi)

namespace Session.Extends

variable {s t u : Session}

theorem refl (s : Session) : s.Extends s := ⟨rfl, rfl, [], .nil, (List.append_nil _).symm⟩

theorem trans (h : s.Extends t) (h' : t.Extends u) : s.Extends u := by
  obtain ⟨is, his, hcode⟩ := h.code
  obtain ⟨js, hjs, hcode'⟩ := h'.code
  refine ⟨h'.className.trans h.className, h'.slot?.trans h.slot?, is ++ js, his.append hjs, ?_⟩
  rw [hcode', hcode, List.append_assoc]

theorem emit {code : List Instruction} (h : Headless code) (s : Session) :
    s.Extends (s.emit code) :=
  ⟨rfl, rfl, code, h, (Session.Adds.emit s code).code⟩

theorem define (s : Session) (p : Production) (name type : String) (kind : Kind)
    (position : Position) : s.Extends (s.define p name type kind position).1 := by
  unfold Session.define
  split
  · exact ⟨rfl, rfl, [], .nil, (List.append_nil _).symm⟩
  · exact refl s

theorem resolve (s : Session) (p : Production) (o : Occurrence)
    {next : Session → Variable → Session} (h : ∀ v, s.Extends (next s v)) :
    s.Extends (s.resolve p o next).1 := by
  unfold Session.resolve
  split
  · exact h _
  · exact refl s

theorem perform {a : Action} (h : a.steady = true) (s : Session) : s.Extends (s.perform a).1 := by
  have quiet : ∀ t : Session, t.className = s.className → t.slot? = s.slot? → t.code = s.code →
      s.Extends t := fun t hc hs hcode => ⟨hc, hs, [], .nil, by rw [hcode, List.append_nil]⟩
  have pushed : ∀ v : Variable, Headless [v.pushCode] := fun v => .cons rfl .nil
  cases a with
  | nameClass name | header name | complete locals => cases h
  | enter p | leave p | take t | startSubroutine | mention o => exact quiet _ rfl rfl rfl
  | mentionFirst o =>
    simp only [Session.perform]
    split
    · exact quiet _ rfl rfl rfl
    · exact quiet _ rfl rfl rfl
  | declare p o type kind =>
    have hd := define (s.moveTo o.position) p o.name type kind o.position
    simp only [Session.perform]
    split
    · rename_i t ht
      rw [ht] at hd
      exact ⟨hd.className, hd.slot?, hd.code⟩
    · rename_i t e ht
      rw [ht] at hd
      exact ⟨hd.className, hd.slot?, hd.code⟩
  | declareThis p => exact define s _ _ _ _ _
  | require p o => exact resolve s p o fun _ => refl s
  | load p o => exact resolve s p o fun v => emit (pushed v) s
  | store p o => exact resolve s p o fun v => emit (.cons rfl .nil) s
  | loadReceiver o =>
    simp only [Session.perform]
    split
    · rename_i v _
      exact emit (pushed v) s
    · exact refl s
  | emit code => exact emit (headless_of_all h) s
  | emitAt p code => exact (quiet (s.moveTo p) rfl rfl rfl).trans (emit (headless_of_all h) _)
  | call p callee args =>
    simp only [Session.perform, Session.call]
    split
    · exact (quiet (s.moveTo callee.first.position) rfl rfl rfl).trans (emit (.cons rfl .nil) _)
    · exact refl s
  | preamble role => exact emit (by cases role <;> exact headless_of_all rfl) s

theorem performAll {actions : List Action} (h : actions.all Action.steady = true) (s : Session) :
    s.Extends (s.performAll actions).1 := by
  induction actions generalizing s with
  | nil => exact refl s
  | cons a actions ih =>
    obtain ⟨ha, hactions⟩ := Bool.and_eq_true_iff.1 h
    have hstep := perform ha s
    rw [Session.performAll_cons]
    split
    · rename_i t ht
      rw [ht] at hstep
      exact hstep.trans (ih hactions t)
    · rename_i t e ht
      rw [ht] at hstep
      exact hstep

end Session.Extends

/-! ### Goals inside a subroutine -/

def Declaration.steady : Declaration → Bool
  | .ofClass _ | .parameter => true
  | .locals _ _ _ => false

/-- The goal asks for nothing but actions that leave the headers alone. -/
def Goal.steady : Goal → Bool
  | .due a => a.steady && a.reads == 0
  | .typed d _ | .named d _ _ | .afterName d _ _ _ => d.steady
  | .classWord | .className | .classVarDecs | .subroutineDecs | .endOfFile | .subroutineName _
    | .counted _ _ _ _ | .body _ _ => false
  | _ => true

structure Step.Steady (s : Step) : Prop where
  actions : s.actions.all Action.steady = true
  goals : s.goals.all Goal.steady = true

section

variable {c : Cursor} {s : Step}

theorem steady_meetAfterName {d : Declaration} {type : String} {count : UInt16}
    {position : Position} (hd : d.steady = true)
    (h : meetAfterName c d type count position = .ok s) : s.Steady := by
  have hend : ∀ n, (d.endGoals n).all Goal.steady = true := by
    intro n
    cases d with
    | ofClass kind | parameter => rfl
    | locals role before start => cases hd
  unfold meetAfterName at h
  split at h
  · cases h
  · split at h
    · split at h <;> cases h <;> exact ⟨rfl, by simp [Goal.steady, hd]⟩
    · split at h
      · cases h
        exact ⟨rfl, hend _⟩
      · split at h
        · cases h
          exact ⟨rfl, hend _⟩
        · cases h

theorem steady_meetStatements (c : Cursor) : (meetStatements c).Steady := by
  unfold meetStatements
  split <;> exact ⟨rfl, rfl⟩

theorem steady_meetLetValue (c : Cursor) (target : Occurrence) :
    (meetLetValue c target).Steady := by
  unfold meetLetValue
  split <;> exact ⟨rfl, rfl⟩

theorem steady_meetTerm (h : meetTerm c = .ok s) : s.Steady := by
  unfold meetTerm at h
  split at h
  · cases h
  · split at h
    · cases h
      exact ⟨rfl, rfl⟩
    · rename_i text _
      cases h
      have htext : ((stringCode text).all fun i => i.header?.isNone) = true :=
        all_of_headless (plain_stringValue text).headless
      exact ⟨by simpa [Action.steady] using htext, rfl⟩
    · cases h
      unfold meetName
      split
      · exact ⟨rfl, rfl⟩
      · split <;> exact ⟨rfl, rfl⟩
    · split at h
      · rename_i constant _
        cases h
        exact ⟨by cases constant <;> rfl, rfl⟩
      · cases h
    · split at h
      · cases h
        exact ⟨rfl, rfl⟩
      · split at h
        · cases h
          exact ⟨rfl, rfl⟩
        · cases h

theorem steady_meetOperands (c : Cursor) (waiting : List (BinaryOp × Position)) :
    (meetOperands c waiting).Steady := by
  have hend : Step.Steady ⟨waiting.map fun w => .emitAt w.2 [w.1.instruction], [], c⟩ := by
    refine ⟨List.all_eq_true.2 fun a ha => ?_, rfl⟩
    obtain ⟨w, -, rfl⟩ := List.mem_map.1 ha
    obtain ⟨op, p⟩ := w
    cases op <;> rfl
  unfold meetOperands
  split
  · split
    · exact ⟨rfl, rfl⟩
    · exact hend
  · exact hend

theorem steady_meetMoreArguments {p : Production} {callee : Callee} {count : UInt16}
    {position : Position} (h : meetMoreArguments c p callee count position = .ok s) :
    s.Steady := by
  unfold meetMoreArguments at h
  split at h
  · cases h
  · split at h <;> cases h <;> exact ⟨rfl, rfl⟩

/-- The goals that take the place of a steady one are steady. -/
theorem Goal.steady_of_meet {g : Goal} (hg : g.steady = true) (h : g.meet c = .ok s) :
    s.Steady := by
  cases g with
  | due a =>
    cases h
    exact ⟨by simp [(Bool.and_eq_true_iff.1 hg).1], rfl⟩
  | classWord | className | classVarDecs | subroutineDecs | endOfFile | subroutineName role
    | counted role before count start | body role locals => cases hg
  | afterName d type count position => exact steady_meetAfterName hg h
  | statements =>
    cases h
    exact steady_meetStatements c
  | letValue target =>
    cases h
    exact steady_meetLetValue c target
  | term => exact steady_meetTerm h
  | operands waiting =>
    cases h
    exact steady_meetOperands c waiting
  | moreArguments p callee count position => exact steady_meetMoreArguments h
  | callee p first =>
    cases h
    unfold meetCallee
    split <;> exact ⟨rfl, rfl⟩
  | typed d count | named d type count =>
    simp only [Goal.meet] at h
    split at h <;> cases h
    exact ⟨rfl, by simpa [Goal.steady] using hg⟩
  | resultType =>
    simp only [Goal.meet] at h
    split at h
    · cases h
      exact ⟨rfl, rfl⟩
    · split at h <;> cases h
      exact ⟨rfl, rfl⟩
  | mark p m | letTarget | call p | member p owner =>
    simp only [Goal.meet] at h
    split at h <;> cases h
    exact ⟨rfl, rfl⟩
  | parameters | otherwise | returned | arguments p callee =>
    simp only [Goal.meet] at h
    split at h <;> cases h <;> exact ⟨rfl, rfl⟩

theorem Goal.quiet_of_steady {g : Goal} (h : g.steady = true) : g.quiet = true := by
  cases g with
  | due a => exact (Bool.and_eq_true_iff.1 h).2
  | _ => rfl

end

/-! ### The locals of a subroutine -/

/-- The goal is met by these words, and then `n` locals are declared in all. -/
def Goal.Declares (n : Nat) (ls : List Lexeme) : Goal → Prop
  | .body _ locals => ∃ vars body, ls = bodyLexemes vars body
      ∧ n = locals.toNat + (vars.flatMap VarDec.names).length
  | .counted _ before count _ => ∃ vars body, ls = bodyLexemes vars body
      ∧ n = before.toNat + count.toNat + (vars.flatMap VarDec.names).length
  | .typed (.locals _ before _) count => ∃ (type : TypeName) (name : String) (more : List String),
      ∃ vars body, ls = type.lexeme :: .identifier name :: moreNameLexemes more
          ++ .symbol .semicolon :: bodyLexemes vars body
        ∧ n = before.toNat + count.toNat + 1 + more.length + (vars.flatMap VarDec.names).length
  | .named (.locals _ before _) _ count => ∃ (name : String) (more : List String),
      ∃ vars body, ls = .identifier name :: moreNameLexemes more
          ++ .symbol .semicolon :: bodyLexemes vars body
        ∧ n = before.toNat + count.toNat + 1 + more.length + (vars.flatMap VarDec.names).length
  | .afterName (.locals _ before _) _ count _ => ∃ more : List String, ∃ vars body,
      ls = moreNameLexemes more ++ .symbol .semicolon :: bodyLexemes vars body
        ∧ n = before.toNat + count.toNat + 1 + more.length + (vars.flatMap VarDec.names).length
  | _ => False

/-- The goals that a body ends in, and the words that meet them when `n` locals come to be
declared. -/
inductive BodyEnd : List Goal → Nat → List Lexeme → Prop
  | declaring {g : Goal} {n : Nat} {ls : List Lexeme} (h : g.Declares n ls) : BodyEnd [g] n ls
  | brace (locals : UInt16) : BodyEnd [.mark .subroutineBody .rightBrace, .due (.complete locals),
      .due (.leave .subroutineBody)] locals.toNat [.symbol .rightBrace]

/-- A step that goes on with the body of a subroutine. -/
structure Step.InBody (s : Step) (g : Goal) (ks : List Lexeme) : Prop where
  actions : s.actions.all Action.steady = true
  goals : ∃ front back, s.goals = front ++ back ∧ front.all Goal.steady = true
    ∧ (∃ n ls, BodyEnd back n ls)
    ∧ ∀ n ls, BodyEnd back n ls → Promises front ks fun ws => g.Declares n (ws ++ ls)

section

variable {s : Step} {g g' : Goal} {c : Cursor} {ks : List Lexeme}

/-- The goal is replaced by another one of its kind. -/
theorem Step.InBody.single (front : List Goal) (hs : s.actions.all Action.steady = true)
    (hfront : front.all Goal.steady = true) (hg : s.goals = front ++ [g'])
    (hdue : ∀ ls, Jack.Reads False [] front ls → ls = [])
    (hex : ∃ n ls, g'.Declares n ls) (h : ∀ n ls, g'.Declares n ls → g.Declares n (ks ++ ls)) :
    s.InBody g ks := by
  obtain ⟨n, ls, hls⟩ := hex
  refine ⟨hs, front, [g'], hg, hfront, ⟨n, ls, .declaring hls⟩, ?_⟩
  intro m ls hend ms hms
  obtain rfl := hdue ms hms
  cases hend with
  | declaring hd =>
    rw [List.append_nil]
    exact h m ls hd

theorem Goal.exists_declares_body (role : Role) (locals : UInt16) :
    ∃ n ls, (Goal.body role locals).Declares n ls :=
  ⟨_, _, [], [], rfl, rfl⟩

theorem Goal.exists_declares_typed (role : Role) (before : UInt16) (start : Position)
    (count : UInt16) : ∃ n ls, (Goal.typed (.locals role before start) count).Declares n ls :=
  ⟨_, _, .int, "a", [], [], [], rfl, rfl⟩

theorem Goal.exists_declares_named (role : Role) (before : UInt16) (start : Position)
    (type : String) (count : UInt16) :
    ∃ n ls, (Goal.named (.locals role before start) type count).Declares n ls :=
  ⟨_, _, "a", [], [], [], rfl, rfl⟩

theorem Step.inBody_meetBody (role : Role) (locals : UInt16)
    (hks : c.lexemes = ks ++ (meetBody c role locals).cursor.lexemes) :
    (meetBody c role locals).InBody (.body role locals) ks := by
  unfold meetBody at hks ⊢
  split at hks
  · rename_i t d hvar
    rw [Cursor.lexemes_of_read? hvar] at hks
    obtain rfl : [.keyword .var] = ks := List.append_cancel_right hks
    refine .single [] rfl rfl rfl (fun _ h => h) (Goal.exists_declares_typed _ _ _ _) ?_
    rintro n _ ⟨type, name, more, vars, body, rfl, rfl⟩
    refine ⟨⟨type, name, more⟩ :: vars, body, ?_, ?_⟩
    · simp [bodyLexemes, VarDec.lexemes, nameLexemes, moreNameLexemes]
    · simp [VarDec.names]
      omega
  · obtain rfl : [] = ks := List.append_cancel_right hks
    refine ⟨by cases role <;> rfl, statementsGoals, _, rfl, rfl, ⟨_, _, .brace locals⟩, ?_⟩
    intro n ls hend ms hms
    obtain ⟨ss, rfl⟩ := reads_statementsGoals hms
    cases hend with
    | brace => exact ⟨[], ss, by simp [bodyLexemes], by simp⟩

theorem Step.inBody_meetAfterName {role : Role} {before : UInt16} {start : Position}
    {type : String} {count : UInt16} {position : Position}
    (h : meetAfterName c (.locals role before start) type count position = .ok s)
    (hks : c.lexemes = ks ++ s.cursor.lexemes) :
    s.InBody (.afterName (.locals role before start) type count position) ks := by
  unfold meetAfterName at h
  split at h
  · cases h
  · rename_i next hnext
    have hcount := toNat_of_nextWord? hnext
    split at h
    · rename_i t d hcomma
      rw [if_neg nofun] at h
      cases h
      rw [Cursor.lexemes_of_read? hcomma] at hks
      obtain rfl : [.symbol .comma] = ks := List.append_cancel_right hks
      refine .single [] rfl rfl rfl (fun _ h => h)
        (Goal.exists_declares_named _ _ _ _ _) ?_
      rintro n _ ⟨name, more, vars, body, rfl, rfl⟩
      refine ⟨name :: more, vars, body, by simp [moreNameLexemes], ?_⟩
      rw [hcount, List.length_cons]
      omega
    · rw [if_neg nofun] at h
      split at h
      · rename_i t d hsemicolon
        cases h
        rw [Cursor.lexemes_of_read? hsemicolon] at hks
        obtain rfl : [.symbol .semicolon] = ks := List.append_cancel_right hks
        refine .single [.due (.leave .varDec)] rfl rfl rfl
          (fun _ h => reads_due_cons.1 h) ⟨_, _, [], [], rfl, rfl⟩ ?_
        rintro n _ ⟨vars, body, rfl, rfl⟩
        refine ⟨[], vars, body, rfl, ?_⟩
        rw [hcount, List.length_nil]
        omega
      · cases h

/-- The declarations of a body are met one at a time, and each name is counted. -/
theorem Goal.Declares.inBody {n : Nat} {ls : List Lexeme} (hg : g.Declares n ls)
    (h : g.meet c = .ok s) (hks : c.lexemes = ks ++ s.cursor.lexemes) : s.InBody g ks := by
  cases g with
  | body role locals =>
    cases h
    exact Step.inBody_meetBody role locals hks
  | counted role before count start =>
    simp only [Goal.meet] at h
    split at h
    · rename_i next hnext
      cases h
      obtain rfl : [] = ks := List.append_cancel_right hks
      refine .single [] rfl rfl rfl (fun _ h => h) (Goal.exists_declares_body _ _) ?_
      rintro n _ ⟨vars, body, rfl, rfl⟩
      refine ⟨vars, body, rfl, ?_⟩
      rw [toNat_of_addWords? hnext]
      omega
    · cases h
  | typed d count =>
    cases d with
    | ofClass kind | parameter => cases hg
    | locals role before start =>
      simp only [Goal.meet] at h
      split at h
      · rename_i spelling t d htype
        cases h
        obtain ⟨type, hlexemes⟩ := Cursor.lexemes_of_type htype
        rw [hlexemes] at hks
        obtain rfl : [type.lexeme] = ks := List.append_cancel_right hks
        refine .single [] rfl rfl rfl (fun _ h => h)
          (Goal.exists_declares_named _ _ _ _ _) ?_
        rintro n _ ⟨name, more, vars, body, rfl, rfl⟩
        exact ⟨type, name, more, vars, body, rfl, rfl⟩
      · cases h
  | named d type count =>
    cases d with
    | ofClass kind | parameter => cases hg
    | locals role before start =>
      simp only [Goal.meet] at h
      split at h
      · rename_i o d hname
        cases h
        rw [Cursor.lexemes_of_name? hname] at hks
        obtain rfl : [.identifier o.name] = ks := List.append_cancel_right hks
        refine .single [] rfl rfl rfl (fun _ h => h) ⟨_, _, [], [], [], rfl, rfl⟩ ?_
        rintro n _ ⟨more, vars, body, rfl, rfl⟩
        exact ⟨o.name, more, vars, body, rfl, rfl⟩
      · cases h
  | afterName d type count position =>
    cases d with
    | ofClass kind | parameter => cases hg
    | locals role before start => exact Step.inBody_meetAfterName h hks
  | _ => cases hg

end

end Jack
