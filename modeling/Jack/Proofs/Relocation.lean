import Jack.Compilation

/-! Places do not decide anything. To move the places of a text moves those of its script, of the
listing and of the errors in the same way, and changes nothing else. -/

namespace Jack

variable (f : Position → Position)

def Token.relocate (t : Token) : Token := { t with position := f t.position }

def Occurrence.relocate (o : Occurrence) : Occurrence := { o with position := f o.position }

def Found.relocate (x : Found) : Found := { x with position := f x.position }

def LexError.relocate (e : LexError) : LexError := { e with position := f e.position }

def Callee.relocate : Callee → Callee
  | .own name => .own (name.relocate f)
  | .member owner name => .member (owner.relocate f) name

def Action.relocate : Action → Action
  | .enter p => .enter p
  | .leave p => .leave p
  | .take t => .take (t.relocate f)
  | .nameClass name => .nameClass name
  | .startSubroutine => .startSubroutine
  | .declare p o type kind => .declare p (o.relocate f) type kind
  | .declareThis position => .declareThis (f position)
  | .mention o => .mention (o.relocate f)
  | .mentionFirst o => .mentionFirst (o.relocate f)
  | .require p o => .require p (o.relocate f)
  | .load p o => .load p (o.relocate f)
  | .store p o => .store p (o.relocate f)
  | .loadReceiver o => .loadReceiver (o.relocate f)
  | .emit code => .emit code
  | .emitAt position code => .emitAt (f position) code
  | .call p callee args => .call p (callee.relocate f) args
  | .header name => .header name
  | .preamble role => .preamble role
  | .complete locals => .complete locals

def CompileError.relocate : CompileError → CompileError
  | .lexical e => .lexical (e.relocate f)
  | .badSyntax p found expected => .badSyntax p (found.relocate f) expected
  | .wrongCategory p found expected => .wrongCategory p (found.relocate f) expected
  | .undefinedVariable p name position => .undefinedVariable p name (f position)
  | .tooMany p excess position => .tooMany p excess (f position)
  | .missingHeader name offset => .missingHeader name offset

def Cursor.relocate (c : Cursor) : Cursor :=
  ⟨c.rest.map (Token.relocate f), f c.finish, c.constructs⟩

def Declaration.relocate : Declaration → Declaration
  | .ofClass kind => .ofClass kind
  | .parameter => .parameter
  | .locals role before start => .locals role before (f start)

def Goal.relocate : Goal → Goal
  | .due a => .due (a.relocate f)
  | .mark p m => .mark p m
  | .classWord => .classWord
  | .className => .className
  | .classVarDecs => .classVarDecs
  | .subroutineDecs => .subroutineDecs
  | .endOfFile => .endOfFile
  | .typed d count => .typed (d.relocate f) count
  | .named d type count => .named (d.relocate f) type count
  | .afterName d type count position => .afterName (d.relocate f) type count (f position)
  | .resultType => .resultType
  | .subroutineName role => .subroutineName role
  | .parameters => .parameters
  | .counted role before count start => .counted role before count (f start)
  | .body role locals => .body role locals
  | .statements => .statements
  | .letTarget => .letTarget
  | .letValue target => .letValue (target.relocate f)
  | .otherwise => .otherwise
  | .returned => .returned
  | .term => .term
  | .operands waiting => .operands (waiting.map fun w => (w.1, f w.2))
  | .call p => .call p
  | .callee p first => .callee p (first.relocate f)
  | .member p owner => .member p (owner.relocate f)
  | .arguments p target => .arguments p (target.relocate f)
  | .moreArguments p target count position =>
    .moreArguments p (target.relocate f) count (f position)

def Step.relocate (s : Step) : Step :=
  ⟨s.actions.map (Action.relocate f), s.goals.map (Goal.relocate f), s.cursor.relocate f⟩

def relocateResult : Except CompileError Step → Except CompileError Step
  | .ok s => .ok (s.relocate f)
  | .error e => .error (e.relocate f)

def Script.relocate (s : Script) : Script :=
  ⟨s.actions.map (Action.relocate f), s.cursor.relocate f, s.fault?.map (CompileError.relocate f)⟩

/-! ### The recognition of a text -/

section Reading

variable (c d : Cursor)

@[simp] theorem Cursor.found_relocate : (c.relocate f).found = c.found.relocate f := by
  obtain ⟨rest, finish, constructs⟩ := c
  cases rest <;> rfl

theorem Cursor.read?_relocate (l : Lexeme) :
    (c.relocate f).read? l = (c.read? l).map fun r => (r.1.relocate f, r.2.relocate f) := by
  obtain ⟨rest, finish, constructs⟩ := c
  cases rest with
  | nil => rfl
  | cons t rest =>
    by_cases h : t.lexeme = l <;>
      simp [Cursor.read?, Cursor.relocate, Token.relocate, Cursor.to, h]

theorem Cursor.mark?_relocate (m : Punctuation) :
    (c.relocate f).mark? m = (c.mark? m).map fun r => (r.1.relocate f, r.2.relocate f) :=
  c.read?_relocate f _

theorem Cursor.sees_relocate (m : Punctuation) : (c.relocate f).sees m = c.sees m := by
  rw [Cursor.sees, Cursor.mark?_relocate, Option.isSome_map, Cursor.sees]

theorem Cursor.keyword?_relocate :
    (c.relocate f).keyword?
      = c.keyword?.map fun r => (r.1, r.2.1.relocate f, r.2.2.relocate f) := by
  obtain ⟨rest, finish, constructs⟩ := c
  rcases rest with - | ⟨⟨l, p⟩, rest⟩
  · rfl
  · cases l <;> rfl

theorem Cursor.name?_relocate :
    (c.relocate f).name? = c.name?.map fun r => (r.1.relocate f, r.2.relocate f) := by
  obtain ⟨rest, finish, constructs⟩ := c
  rcases rest with - | ⟨⟨l, p⟩, rest⟩
  · rfl
  · cases l <;> rfl

theorem Cursor.type_relocate (p : Production) :
    (c.relocate f).type p
      = match c.type p with
        | .ok (type, t, d) => .ok (type, t.relocate f, d.relocate f)
        | .error e => .error (e.relocate f) := by
  obtain ⟨rest, finish, constructs⟩ := c
  rcases rest with - | ⟨⟨l, q⟩, rest⟩
  · rfl
  · cases l with
    | keyword k => cases k <;> rfl
    | _ => rfl

@[simp] theorem Declaration.production_relocate (d : Declaration) :
    (d.relocate f).production = d.production := by
  cases d <;> rfl

@[simp] theorem Declaration.kind_relocate (d : Declaration) : (d.relocate f).kind = d.kind := by
  cases d <;> rfl

@[simp] theorem Declaration.relocate_eq_parameter (d : Declaration) :
    d.relocate f = .parameter ↔ d = .parameter := by
  cases d <;> simp [Declaration.relocate]

theorem Declaration.endGoals_relocate (d : Declaration) (count : UInt16) :
    (d.relocate f).endGoals count = (d.endGoals count).map (Goal.relocate f) := by
  cases d <;> rfl

theorem meetClassVarDecs_relocate :
    meetClassVarDecs (c.relocate f) = (meetClassVarDecs c).relocate f := by
  unfold meetClassVarDecs
  rw [Cursor.keyword?_relocate]
  rcases c.keyword? with - | ⟨k, t, d⟩
  · rfl
  · by_cases h : k = .static ∨ k = .field <;> simp [h] <;> rfl

theorem meetSubroutineDecs_relocate :
    meetSubroutineDecs (c.relocate f) = (meetSubroutineDecs c).relocate f := by
  unfold meetSubroutineDecs
  rw [Cursor.keyword?_relocate]
  rcases c.keyword? with - | ⟨k, t, d⟩
  · rfl
  · cases h : Role.ofKeyword? k <;> simp [h] <;> rfl

theorem meetAfterName_relocate (d : Declaration) (type : String) (count : UInt16)
    (position : Position) :
    meetAfterName (c.relocate f) (d.relocate f) type count (f position)
      = relocateResult f (meetAfterName c d type count position) := by
  unfold meetAfterName
  rw [Cursor.mark?_relocate, Cursor.mark?_relocate]
  cases nextWord? count with
  | none => simp [relocateResult, CompileError.relocate]
  | some n =>
    rcases c.mark? .comma with - | ⟨t, e⟩
    · by_cases hd : d = .parameter
      · subst hd
        rfl
      · rcases c.mark? .semicolon with - | ⟨t, e⟩ <;>
          simp [hd, relocateResult, Step.relocate, Action.relocate, Declaration.endGoals_relocate,
            Cursor.badSyntax, CompileError.relocate]
    · by_cases hd : d = .parameter
      · subst hd
        rfl
      · simp [hd, relocateResult, Step.relocate, Action.relocate, Goal.relocate]

theorem meetSubroutineName_relocate (role : Role) :
    meetSubroutineName (c.relocate f) role = relocateResult f (meetSubroutineName c role) := by
  unfold meetSubroutineName
  rw [Cursor.name?_relocate]
  rcases c.name? with - | ⟨o, d⟩
  · simp [relocateResult, Cursor.noName, CompileError.relocate]
  · by_cases h : role = .method <;> simp [h, relocateResult] <;> rfl

theorem meetBody_relocate (role : Role) (locals : UInt16) :
    meetBody (c.relocate f) role locals = (meetBody c role locals).relocate f := by
  unfold meetBody
  rw [Cursor.read?_relocate]
  rcases c.read? (.keyword .var) with - | ⟨t, d⟩ <;> rfl

theorem meetStatements_relocate :
    meetStatements (c.relocate f) = (meetStatements c).relocate f := by
  unfold meetStatements
  rw [Cursor.keyword?_relocate]
  rcases c.keyword? with - | ⟨k, t, d⟩
  · rfl
  · cases k <;> rfl

theorem meetLetValue_relocate (target : Occurrence) :
    meetLetValue (c.relocate f) (target.relocate f) = (meetLetValue c target).relocate f := by
  unfold meetLetValue
  rw [Cursor.mark?_relocate]
  rcases c.mark? .leftBracket with - | ⟨t, d⟩ <;> rfl

theorem meetName_relocate (o : Occurrence) :
    meetName (c.relocate f) (o.relocate f) (d.relocate f) = (meetName c o d).relocate f := by
  unfold meetName
  simp only [Cursor.sees_relocate]
  by_cases h : d.sees .leftBracket = true
  · simp only [h, if_true]
    rfl
  · by_cases h' : (d.sees .leftParen || d.sees .dot) = true
    · simp only [h, h', if_true]
      rfl
    · simp only [h, h']
      rfl

theorem meetTerm_relocate : meetTerm (c.relocate f) = relocateResult f (meetTerm c) := by
  obtain ⟨rest, finish, constructs⟩ := c
  rcases rest with - | ⟨⟨l, p⟩, rest⟩
  · rfl
  · cases l with
    | keyword k => cases k <;> rfl
    | symbol m => cases m <;> rfl
    | identifier name =>
      exact congrArg Except.ok (meetName_relocate f _ ⟨rest, finish, constructs⟩ ⟨name, p⟩)
    | _ => rfl

theorem meetOperands_relocate (waiting : List (BinaryOp × Position)) :
    meetOperands (c.relocate f) (waiting.map fun w => (w.1, f w.2))
      = (meetOperands c waiting).relocate f := by
  obtain ⟨rest, finish, constructs⟩ := c
  have hend : (waiting.map fun w => (w.1, f w.2)).map
      (fun w => Action.emitAt w.2 [w.1.instruction])
      = (waiting.map fun w => Action.emitAt w.2 [w.1.instruction]).map (Action.relocate f) := by
    simp [Action.relocate]
  rcases rest with - | ⟨⟨l, p⟩, rest⟩
  · simp only [meetOperands, Cursor.relocate, List.map_nil, hend]
    rfl
  · cases l with
    | symbol m =>
      simp only [meetOperands, Cursor.relocate, List.map_cons, Token.relocate, hend]
      cases BinaryOp.ofMark? m <;> rfl
    | _ =>
      simp only [meetOperands, Cursor.relocate, List.map_cons, Token.relocate, hend]
      rfl

theorem meetCallee_relocate (p : Production) (first : Occurrence) :
    meetCallee (c.relocate f) p (first.relocate f) = (meetCallee c p first).relocate f := by
  unfold meetCallee
  rw [Cursor.mark?_relocate]
  rcases c.mark? .dot with - | ⟨t, d⟩ <;> rfl

theorem meetMoreArguments_relocate (p : Production) (callee : Callee) (count : UInt16)
    (position : Position) :
    meetMoreArguments (c.relocate f) p (callee.relocate f) count (f position)
      = relocateResult f (meetMoreArguments c p callee count position) := by
  unfold meetMoreArguments
  rw [Cursor.mark?_relocate]
  cases nextWord? count with
  | none => rfl
  | some n =>
    rcases c.mark? .comma with - | ⟨t, d⟩
    · rfl
    · simp only [Option.map_some, Cursor.found_relocate]
      rfl

/-- A goal comes to the same wherever the tokens stand. -/
theorem meet_relocate (g : Goal) :
    (g.relocate f).meet (c.relocate f) = relocateResult f (g.meet c) := by
  cases g with
  | due a => rfl
  | mark p m =>
    simp only [Goal.relocate, Goal.meet, Cursor.mark?_relocate]
    rcases c.mark? m with - | ⟨t, d⟩ <;>
      simp [relocateResult, Cursor.badSyntax, CompileError.relocate, Step.relocate,
        Action.relocate]
  | classWord =>
    simp only [Goal.relocate, Goal.meet, Cursor.read?_relocate]
    rcases c.read? (.keyword .class_) with - | ⟨t, d⟩ <;>
      simp [relocateResult, Cursor.badSyntax, CompileError.relocate, Step.relocate,
        Action.relocate]
  | className =>
    simp only [Goal.relocate, Goal.meet, Cursor.name?_relocate]
    rcases c.name? with - | ⟨o, d⟩ <;>
      simp [relocateResult, Cursor.noName, CompileError.relocate, Step.relocate,
        Action.relocate, Occurrence.token, Token.relocate, Occurrence.relocate]
  | classVarDecs => exact congrArg Except.ok (meetClassVarDecs_relocate f c)
  | subroutineDecs => exact congrArg Except.ok (meetSubroutineDecs_relocate f c)
  | endOfFile =>
    obtain ⟨rest, finish, constructs⟩ := c
    cases rest <;> rfl
  | typed d count =>
    simp only [Goal.relocate, Goal.meet, Cursor.type_relocate, Declaration.production_relocate]
    rcases c.type d.production with e | ⟨type, t, e⟩ <;> rfl
  | named d type count =>
    simp only [Goal.relocate, Goal.meet, Cursor.name?_relocate]
    rcases c.name? with - | ⟨o, e⟩ <;>
      simp [relocateResult, Cursor.noName, CompileError.relocate, Step.relocate,
        Action.relocate, Goal.relocate, Occurrence.relocate]
  | afterName d type count position => exact meetAfterName_relocate f c d type count position
  | resultType =>
    simp only [Goal.relocate, Goal.meet, Cursor.read?_relocate, Cursor.type_relocate]
    rcases c.read? (.keyword .void) with - | ⟨t, d⟩
    · rcases c.type .subroutineDec with e | ⟨type, t, e⟩ <;> rfl
    · rfl
  | subroutineName role => exact meetSubroutineName_relocate f c role
  | parameters =>
    simp only [Goal.relocate, Goal.meet, Cursor.sees_relocate]
    by_cases h : c.sees .rightParen = true <;> simp only [h, if_true] <;> rfl
  | counted role before count start =>
    simp only [Goal.relocate, Goal.meet]
    cases addWords? count before <;> rfl
  | body role locals => exact congrArg Except.ok (meetBody_relocate f c role locals)
  | statements => exact congrArg Except.ok (meetStatements_relocate f c)
  | letTarget =>
    simp only [Goal.relocate, Goal.meet, Cursor.name?_relocate]
    rcases c.name? with - | ⟨o, d⟩ <;>
      simp [relocateResult, Cursor.noName, CompileError.relocate, Step.relocate,
        Action.relocate, Goal.relocate]
  | letValue target => exact congrArg Except.ok (meetLetValue_relocate f c target)
  | otherwise =>
    simp only [Goal.relocate, Goal.meet, Cursor.read?_relocate]
    rcases c.read? (.keyword .else_) with - | ⟨t, d⟩ <;> rfl
  | returned =>
    simp only [Goal.relocate, Goal.meet, Cursor.sees_relocate]
    by_cases h : c.sees .semicolon = true <;> simp only [h, if_true] <;> rfl
  | term => exact meetTerm_relocate f c
  | operands waiting => exact congrArg Except.ok (meetOperands_relocate f c waiting)
  | call p =>
    simp only [Goal.relocate, Goal.meet, Cursor.name?_relocate]
    rcases c.name? with - | ⟨o, d⟩ <;>
      simp [relocateResult, Cursor.noName, CompileError.relocate, Step.relocate,
        Action.relocate, Goal.relocate]
  | callee p first => exact congrArg Except.ok (meetCallee_relocate f c p first)
  | member p owner =>
    simp only [Goal.relocate, Goal.meet, Cursor.name?_relocate]
    rcases c.name? with - | ⟨o, d⟩
    · simp [relocateResult, Cursor.noName, CompileError.relocate]
    · rfl
  | arguments p target =>
    simp only [Goal.relocate, Goal.meet, Cursor.sees_relocate]
    by_cases h : c.sees .rightParen = true <;> simp only [h, if_true]
    · rfl
    · simp only [Cursor.found_relocate]
      rfl
  | moreArguments p target count position =>
    exact meetMoreArguments_relocate f c p target count position

/-- Moving the tokens of a text moves its script. -/
theorem Script.ofGoals_relocate (goals : List Goal) (done : Array Action) :
    Script.ofGoals (goals.map (Goal.relocate f)) (c.relocate f) (done.map (Action.relocate f))
      = (Script.ofGoals goals c done).relocate f := by
  induction goals, c using Script.induction_on_meet generalizing done with
  | nil c => simp [Script.relocate]
  | error g goals c e hg =>
    have h : (g.relocate f).meet (c.relocate f) = .error (e.relocate f) := by
      rw [meet_relocate, hg, relocateResult]
    rw [List.map_cons, Script.ofGoals_cons_of_error h, Script.ofGoals_cons_of_error hg]
    rfl
  | ok g goals c s hg ih =>
    have h : (g.relocate f).meet (c.relocate f) = .ok (s.relocate f) := by
      rw [meet_relocate, hg, relocateResult]
    have ha : (done ++ s.actions).map (Action.relocate f)
        = done.map (Action.relocate f) ++ (s.relocate f).actions := by
      apply Array.toList_inj.1
      simp [Step.relocate]
    rw [List.map_cons, Script.ofGoals_cons_of_ok h, Script.ofGoals_cons_of_ok hg, ← ih, ha,
      List.map_append]
    rfl

end Reading

/-! ### The performance of a script -/

def Emitted.relocate (e : Emitted) : Emitted := { e with position := f e.position }

def Listing.relocate (l : Listing) : Listing := ⟨l.lines.map (Emitted.relocate f), f l.position⟩

def Session.relocate (s : Session) : Session := { s with listing := s.listing.relocate f }

section Performing

variable (l : Listing) (s : Session)

@[simp] theorem Listing.relocate_emit (i : Instruction) :
    (l.emit i).relocate f = (l.relocate f).emit i := by
  simp [Listing.emit, Listing.relocate, Emitted.relocate]

@[simp] theorem Listing.relocate_emitAll (is : List Instruction) :
    (l.emitAll is).relocate f = (l.relocate f).emitAll is := by
  induction is generalizing l with
  | nil => rfl
  | cons i is ih => exact (ih (l.emit i)).trans (by rw [Listing.relocate_emit]; rfl)

@[simp] theorem Listing.slot_relocate (name : String) :
    (l.relocate f).slot name = l.slot name := by
  simp [Listing.slot, Listing.relocate]

@[simp] theorem Listing.holds_relocate (slot : HeaderSlot) :
    (l.relocate f).holds slot = l.holds slot := by
  simp only [Listing.holds, Listing.relocate, Array.getElem?_map]
  cases l.lines[slot.offset]? <;> rfl

theorem Listing.patch_relocate (slot : HeaderSlot) (locals : UInt16) :
    (l.relocate f).patch slot locals
      = ((l.patch slot locals).1.relocate f, (l.patch slot locals).2) := by
  unfold Listing.patch
  rw [Listing.holds_relocate]
  cases l.holds slot
  · rfl
  · simp only [if_true, Listing.relocate, Prod.mk.injEq, Listing.mk.injEq, and_true]
    apply Array.ext_getElem?
    intro n
    simp only [Array.getElem?_modify, Array.getElem?_map]
    split <;> cases l.lines[n]? <;> rfl

@[simp] theorem Session.relocate_emit (code : List Instruction) :
    (s.emit code).relocate f = (s.relocate f).emit code := by
  simp [Session.emit, Session.relocate]

@[simp] theorem Session.relocate_moveTo (p : Position) :
    (s.moveTo p).relocate f = (s.relocate f).moveTo (f p) := rfl

@[simp] theorem Session.scope_relocate : (s.relocate f).scope = s.scope := rfl

theorem Session.define_relocate (p : Production) (name type : String) (kind : Kind)
    (position : Position) :
    (s.relocate f).define p name type kind (f position)
      = ((s.define p name type kind position).1.relocate f,
        (s.define p name type kind position).2.map (CompileError.relocate f)) := by
  simp only [Session.define, Session.scope_relocate]
  cases s.scope.define? name type kind <;> rfl

theorem Session.resolve_relocate (p : Production) (o : Occurrence)
    (next : Session → Variable → Session)
    (h : ∀ t v, (next t v).relocate f = next (t.relocate f) v) :
    (s.relocate f).resolve p (o.relocate f) next
      = ((s.resolve p o next).1.relocate f,
        (s.resolve p o next).2.map (CompileError.relocate f)) := by
  simp only [Session.resolve, Session.scope_relocate, Occurrence.relocate]
  cases s.scope.lookup o.name <;> simp [h, CompileError.relocate]

theorem Session.target_relocate (callee : Callee) :
    (s.relocate f).target (callee.relocate f) = s.target callee := by
  cases callee <;> rfl

theorem Session.call_relocate (p : Production) (callee : Callee) (args : UInt16) :
    (s.relocate f).call p (callee.relocate f) args
      = ((s.call p callee args).1.relocate f,
        (s.call p callee args).2.map (CompileError.relocate f)) := by
  have hfirst : (callee.relocate f).first.position = f callee.first.position := by
    cases callee <;> rfl
  simp only [Session.call, Session.target_relocate, hfirst]
  cases addWords? args (s.target callee).2 <;> simp [CompileError.relocate]

theorem Session.header_relocate (name : String) :
    (s.relocate f).header name = (s.header name).relocate f := by
  simp [Session.header, Session.relocate, Listing.header]

theorem Session.complete_relocate (locals : UInt16) :
    (s.relocate f).complete locals
      = ((s.complete locals).1.relocate f,
        (s.complete locals).2.map (CompileError.relocate f)) := by
  obtain ⟨scope, listing, outline?, className, slot?⟩ := s
  cases slot? with
  | none => rfl
  | some slot =>
    simp only [Session.complete, Session.relocate, Listing.patch_relocate]
    rcases listing.patch slot locals with ⟨patched, - | -⟩ <;> rfl

/-- An action does the same wherever its tokens stand. -/
theorem Session.perform_relocate (a : Action) :
    (s.relocate f).perform (a.relocate f)
      = ((s.perform a).1.relocate f, (s.perform a).2.map (CompileError.relocate f)) := by
  cases a with
  | declare p o type kind =>
    simp only [Action.relocate, Session.perform, Occurrence.relocate, ← Session.relocate_moveTo,
      Session.define_relocate]
    rcases (s.moveTo o.position).define p o.name type kind o.position with ⟨t, - | e⟩ <;> rfl
  | declareThis position =>
    exact Session.define_relocate f s .subroutineDec thisName s.className .argument position
  | mentionFirst o =>
    simp only [Action.relocate, Session.perform, Session.scope_relocate, Occurrence.relocate]
    cases s.scope.lookup o.name <;> rfl
  | require p o => exact Session.resolve_relocate f s p o (fun t _ => t) fun _ _ => rfl
  | load p o =>
    exact Session.resolve_relocate f s p o _ fun t v => Session.relocate_emit f t [v.pushCode]
  | store p o =>
    exact Session.resolve_relocate f s p o _ fun t v => Session.relocate_emit f t [v.popCode]
  | loadReceiver o =>
    simp only [Action.relocate, Session.perform, Session.scope_relocate, Occurrence.relocate]
    cases s.scope.lookup o.name <;> simp
  | call p target args => exact Session.call_relocate f s p target args
  | complete locals => exact Session.complete_relocate f s locals
  | emit code => simp [Action.relocate, Session.perform]
  | emitAt position code => simp [Action.relocate, Session.perform]
  | header name => simp [Action.relocate, Session.perform, Session.header_relocate]
  | preamble role => simp [Action.relocate, Session.perform]
  | _ => rfl

theorem Session.performAll_relocate (actions : List Action) :
    (s.relocate f).performAll (actions.map (Action.relocate f))
      = ((s.performAll actions).1.relocate f,
        (s.performAll actions).2.map (CompileError.relocate f)) := by
  induction actions generalizing s with
  | nil => rfl
  | cons a actions ih =>
    rw [List.map_cons, Session.performAll_cons, Session.performAll_cons,
      Session.perform_relocate]
    rcases s.perform a with ⟨t, - | e⟩
    · exact ih t
    · rfl

end Performing

end Jack
