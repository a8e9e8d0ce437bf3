import Jack.Proofs.Correctness
import Jack.Proofs.Elements
import Jack.Proofs.Lexing
import Jack.Proofs.OutlineText

/-! The outline of a text that compiles is the elements of its derivation tree. What an action adds
to an outline depends on the variables in force alone, so the outline of a class is found from its
actions, without the session. -/

namespace Jack

/-! ### What a session adds to its outline -/

/-- The name of the class, and the variables in force. -/
structure Setting where
  className : String
  environment : Environment

def Setting.after (x : Setting) : Action → Setting
  | .nameClass name => { x with className := name }
  | .startSubroutine => { x with environment := x.environment.startSubroutine }
  | .declare _ o type kind =>
    { x with environment := x.environment.declare ⟨o.name, type, kind⟩ }
  | .declareThis _ =>
    { x with environment := x.environment.declare ⟨thisName, x.className, .argument⟩ }
  | _ => x

def Setting.afterAll (x : Setting) (as : List Action) : Setting := as.foldl Setting.after x

/-- The entry that an action adds, names standing for what they stand for after it. -/
def Action.record? (lookup : String → Option Variable) : Action → Option OutlineEntry
  | .enter p => some (.enter p.name)
  | .leave p => some (.leave p.name)
  | .take t => some (.leaf t.lexeme)
  | .declare _ o _ _ => some (.variable o.name true (lookup o.name))
  | .mention o => some (.variable o.name false (lookup o.name))
  | .mentionFirst o =>
    match lookup o.name with
    | some v => some (.variable o.name false (some v))
    | none => some (.leaf (.identifier o.name))
  | _ => none

/-- The entries that actions add one after another. -/
def Setting.entries (x : Setting) : List Action → List OutlineEntry
  | [] => []
  | a :: as => (a.record? (x.after a).environment.lookup).toList ++ (x.after a).entries as

/-- A session that stands where the setting says and has written these entries. -/
structure Session.Outlines (s : Session) (x : Setting) (es : List OutlineEntry) : Prop where
  className : s.className = x.className
  scope : s.scope.Keeps x.environment
  outline : s.outline? = some ⟨es.toArray⟩

namespace Session.Outlines

variable {s t : Session} {x : Setting} {es : List OutlineEntry}

theorem note (h : s.Outlines x es) (e : OutlineEntry) : (s.note e).Outlines x (es ++ [e]) := by
  refine ⟨h.className, h.scope, ?_⟩
  simp [Session.note, h.outline, Outline.add]

theorem moveTo (h : s.Outlines x es) (p : Position) : (s.moveTo p).Outlines x es :=
  ⟨h.className, h.scope, h.outline⟩

theorem emit (h : s.Outlines x es) (code : List Instruction) : (s.emit code).Outlines x es :=
  ⟨h.className, h.scope, h.outline⟩

theorem define (h : s.Outlines x es) {p : Production} {name type : String} {kind : Kind}
    {position : Position} (hd : s.define p name type kind position = (t, none)) :
    t.Outlines { x with environment := x.environment.declare ⟨name, type, kind⟩ } es := by
  unfold Session.define at hd
  split at hd
  · rename_i scope hs
    cases hd
    exact ⟨h.className, h.scope.define hs, h.outline⟩
  · cases hd

theorem resolve {p : Production} {o : Occurrence} {next : Session → Variable → Session}
    (hn : ∀ v, (next s v).Outlines x es) (hr : s.resolve p o next = (t, none)) :
    t.Outlines x es := by
  unfold Session.resolve at hr
  split at hr
  · cases hr
    exact hn _
  · cases hr

theorem call (h : s.Outlines x es) {p : Production} {callee : Callee} {args : UInt16}
    (hc : s.call p callee args = (t, none)) : t.Outlines x es := by
  simp only [Session.call] at hc
  split at hc
  · cases hc
    exact (h.moveTo _).emit _
  · cases hc

theorem complete (h : s.Outlines x es) {locals : UInt16} (hc : s.complete locals = (t, none)) :
    t.Outlines x es := by
  obtain ⟨scope, listing, outline?, className, slot?⟩ := s
  cases slot? with
  | none =>
    cases hc
    exact h
  | some slot =>
    simp only [Session.complete] at hc
    split at hc
    · cases hc
      exact ⟨h.className, h.scope, h.outline⟩
    · cases hc

/-- An action that is performed silently adds nothing to the outline. -/
theorem silent {a : Action} (ht : t.Outlines (x.after a) es)
    (ha : ∀ lookup, a.record? lookup = none) :
    t.Outlines (x.after a) (es ++ (a.record? (x.after a).environment.lookup).toList) := by
  rwa [ha, Option.toList_none, List.append_nil]

/-- What one action that is performed does to the outline. -/
theorem perform (h : s.Outlines x es) {a : Action} (hp : s.perform a = (t, none)) :
    t.Outlines (x.after a) (es ++ (a.record? (x.after a).environment.lookup).toList) := by
  cases a with
  | enter p =>
    cases hp
    exact h.note _
  | leave p =>
    cases hp
    exact h.note _
  | take u =>
    cases hp
    exact (h.moveTo _).note _
  | declare p o type kind =>
    simp only [Session.perform] at hp
    split at hp
    · rename_i u hd
      cases hp
      have hu := (h.moveTo o.position).define hd
      rw [hu.scope.lookup]
      exact hu.note _
    · cases hp
  | mention o =>
    cases hp
    rw [h.scope.lookup]
    exact (h.moveTo _).note _
  | mentionFirst o =>
    rw [Session.perform, h.scope.lookup] at hp
    simp only [Action.record?, Setting.after]
    cases hv : x.environment.lookup o.name with
    | some v =>
      rw [hv] at hp
      cases hp
      exact (h.moveTo _).note _
    | none =>
      rw [hv] at hp
      cases hp
      exact (h.moveTo _).note _
  | nameClass name =>
    cases hp
    exact silent ⟨rfl, h.scope, h.outline⟩ fun _ => rfl
  | startSubroutine =>
    cases hp
    exact silent ⟨h.className, h.scope.startSubroutine, h.outline⟩ fun _ => rfl
  | declareThis position =>
    have ht := h.define hp
    rw [h.className] at ht
    exact silent ht fun _ => rfl
  | require p o =>
    have hr : s.resolve p o (fun t _ => t) = (t, none) := hp
    exact silent (resolve (fun _ => h) hr) fun _ => rfl
  | load p o =>
    have hr : s.resolve p o (fun t v => t.emit [v.pushCode]) = (t, none) := hp
    exact silent (resolve (fun v => h.emit [v.pushCode]) hr) fun _ => rfl
  | store p o =>
    have hr : s.resolve p o (fun t v => t.emit [v.popCode]) = (t, none) := hp
    exact silent (resolve (fun v => h.emit [v.popCode]) hr) fun _ => rfl
  | loadReceiver o =>
    simp only [Session.perform] at hp
    split at hp
    · cases hp
      exact silent (h.emit _) fun _ => rfl
    · cases hp
      exact silent h fun _ => rfl
  | emit code =>
    cases hp
    exact silent (h.emit code) fun _ => rfl
  | emitAt position code =>
    cases hp
    exact silent ((h.moveTo position).emit code) fun _ => rfl
  | call p callee args => exact silent (h.call hp) fun _ => rfl
  | header name =>
    cases hp
    exact silent ⟨h.className, h.scope, h.outline⟩ fun _ => rfl
  | preamble role =>
    cases hp
    exact silent (h.emit _) fun _ => rfl
  | complete locals => exact silent (h.complete hp) fun _ => rfl

/-- What actions that are performed do to the outline. -/
theorem performAll (h : s.Outlines x es) {as : List Action} (hp : s.performAll as = (t, none)) :
    t.Outlines (x.afterAll as) (es ++ x.entries as) := by
  induction as generalizing s x es with
  | nil =>
    cases hp
    simpa [Setting.entries, Setting.afterAll] using h
  | cons a as ih =>
    rw [Session.performAll_cons] at hp
    split at hp
    · rename_i u hu
      have ht := ih (h.perform hu) hp
      rwa [List.append_assoc] at ht
    · cases hp

end Session.Outlines

/-! ### The outline of a tree -/

/-- What a mark of a tree puts into force: a declared name, the name of the class, an empty scope
for a subroutine, and the object of a method. -/
def Setting.afterMark (x : Setting) : Mark → Setting
  | .enter .subroutineDec => { x with environment := x.environment.startSubroutine }
  | .sign (.word (.keyword .method)) =>
    { x with environment := x.environment.declare ⟨thisName, x.className, .argument⟩ }
  | .sign (.identifier .class_ name) => { x with className := name }
  | .sign (.declared d) => { x with environment := x.environment.declare d }
  | _ => x

def Setting.afterMarks (x : Setting) (ms : List Mark) : Setting := ms.foldl Setting.afterMark x

/-- The entry of a word, names standing for what they stand for after it. -/
def Sign.entry (lookup : String → Option Variable) : Sign → OutlineEntry
  | .word lexeme => .leaf lexeme
  | .declared d => .variable d.name true (lookup d.name)
  | .identifier .value name | .identifier .base name | .identifier .target name =>
    .variable name false (lookup name)
  | .identifier .receiver name | .identifier .callee name =>
    match lookup name with
    | some v => .variable name false (some v)
    | none => .leaf (.identifier name)
  | .identifier .class_ name | .identifier .type name | .identifier .subroutine name =>
    .leaf (.identifier name)

def Mark.entry (lookup : String → Option Variable) : Mark → OutlineEntry
  | .enter p => .enter p.name
  | .leave p => .leave p.name
  | .sign s => s.entry lookup

/-- The entries of a tree, mark by mark. -/
def Setting.outline (x : Setting) : List Mark → List OutlineEntry
  | [] => []
  | m :: ms => m.entry (x.afterMark m).environment.lookup :: (x.afterMark m).outline ms

theorem Setting.afterAll_append (x : Setting) (as bs : List Action) :
    x.afterAll (as ++ bs) = (x.afterAll as).afterAll bs :=
  List.foldl_append

theorem Setting.afterMarks_append (x : Setting) (ms ns : List Mark) :
    x.afterMarks (ms ++ ns) = (x.afterMarks ms).afterMarks ns :=
  List.foldl_append

theorem Setting.entries_append (x : Setting) (as bs : List Action) :
    x.entries (as ++ bs) = x.entries as ++ (x.afterAll as).entries bs := by
  induction as generalizing x with
  | nil => rfl
  | cons a as ih => simp [Setting.entries, Setting.afterAll, ih]

theorem Setting.outline_append (x : Setting) (ms ns : List Mark) :
    x.outline (ms ++ ns) = x.outline ms ++ (x.afterMarks ms).outline ns := by
  induction ms generalizing x with
  | nil => rfl
  | cons m ms ih => simp [Setting.outline, Setting.afterMarks, ih]

/-- Performing the actions writes the entries of the marks, and leaves what the marks leave. -/
structure Draws (as : List Action) (ms : List Mark) : Prop where
  entries : ∀ x : Setting, x.entries as = x.outline ms
  after : ∀ x : Setting, x.afterAll as = x.afterMarks ms

namespace Draws

variable {as bs : List Action} {ms ns : List Mark}

theorem nil : Draws [] [] := ⟨fun _ => rfl, fun _ => rfl⟩

theorem append (h : Draws as ms) (k : Draws bs ns) : Draws (as ++ bs) (ms ++ ns) := by
  refine ⟨fun x => ?_, fun x => ?_⟩
  · rw [Setting.entries_append, Setting.outline_append, h.entries, h.after, k.entries]
  · rw [Setting.afterAll_append, Setting.afterMarks_append, h.after, k.after]

theorem mentionFirst (part : NamePart) (h : part = .receiver ∨ part = .callee) (name : String) :
    Draws [.mentionFirst (unplaced name)] [.sign (.identifier part name)] := by
  have hentry : ∀ lookup, (Action.mentionFirst (unplaced name)).record? lookup
      = some ((Sign.identifier part name).entry lookup) := by
    intro lookup
    rcases h with rfl | rfl
    all_goals
      simp only [Action.record?, Sign.entry, unplaced]
      cases lookup name <;> rfl
  refine ⟨fun x => ?_, fun x => ?_⟩
  · rw [Setting.entries, hentry]
    rcases h with rfl | rfl <;> rfl
  · rcases h with rfl | rfl <;> rfl

theorem keyword {k : Keyword} (h : k ≠ .method) :
    Draws [takeKeyword k] [.sign (.word (.keyword k))] := by
  cases k with
  | method => exact absurd rfl h
  | _ => exact ⟨fun _ => rfl, fun _ => rfl⟩

theorem inExpression (h : Draws (.enter .term :: as) ms) :
    Draws (Jack.inExpression as) (.enter .expression :: ms ++ [.leave .expression]) := by
  have hopen : Draws [.enter .expression] [.enter .expression] := ⟨fun _ => rfl, fun _ => rfl⟩
  have hclose : Draws [.leave .expression] [.leave .expression] := ⟨fun _ => rfl, fun _ => rfl⟩
  exact (hopen.append h).append hclose

end Draws

mutual

theorem Term.draws (t : Term) : Draws t.actions (marksOf t.elements ++ [.leave .term]) := by
  match t with
  | .integer value => exact ⟨fun _ => rfl, fun _ => rfl⟩
  | .string text => exact ⟨fun _ => rfl, fun _ => rfl⟩
  | .constant word => cases word <;> exact ⟨fun _ => rfl, fun _ => rfl⟩
  | .variable name => exact ⟨fun _ => rfl, fun _ => rfl⟩
  | .element name index =>
    have hhead : Draws [.mention (unplaced name), .require .term (unplaced name),
        takeMark .leftBracket, .load .term (unplaced name)]
        [.sign (.identifier .base name), .sign (.word (.symbol .leftBracket))] :=
      ⟨fun _ => rfl, fun _ => rfl⟩
    have htail : Draws [takeMark .rightBracket, .emit fetchCode, .leave .term]
        [.sign (.word (.symbol .rightBracket)), .leave .term] :=
      ⟨fun _ => rfl, fun _ => rfl⟩
    simpa [Term.actions, Term.elements, markLeaf]
      using (hhead.append index.draws_chain.inExpression).append htail
  | .call call =>
    have htail : Draws [.leave .term] [.leave .term] := ⟨fun _ => rfl, fun _ => rfl⟩
    simpa [Term.actions, Term.elements] using (call.draws .term).append htail
  | .group inner =>
    have hhead : Draws [takeMark .leftParen] [.sign (.word (.symbol .leftParen))] :=
      ⟨fun _ => rfl, fun _ => rfl⟩
    have htail : Draws [takeMark .rightParen, .leave .term]
        [.sign (.word (.symbol .rightParen)), .leave .term] :=
      ⟨fun _ => rfl, fun _ => rfl⟩
    simpa [Term.actions, Term.elements, markLeaf]
      using (hhead.append inner.draws_chain.inExpression).append htail
  | .unary op operand =>
    have hhead : Draws [takeMark op.mark, .enter .term]
        [.sign (.word (.symbol op.mark)), .enter .term] :=
      ⟨fun _ => rfl, fun _ => rfl⟩
    have htail : Draws [.emitAt .nowhere [.arithmetic op.command], .leave .term] [.leave .term] :=
      ⟨fun _ => rfl, fun _ => rfl⟩
    simpa [Term.actions, Term.elements, markLeaf] using (hhead.append operand.draws).append htail

theorem Expression.draws_chain (e : Expression) :
    Draws (.enter .term :: e.chain) (marksOf e.elements) := by
  have hhead : Draws [.enter .term] [.enter .term] := ⟨fun _ => rfl, fun _ => rfl⟩
  match e with
  | .term operand => simpa [Expression.chain, Expression.elements] using hhead.append operand.draws
  | .binary left op right =>
    have hop : Draws [takeMark op.mark] [.sign (.word (.symbol op.mark))] :=
      ⟨fun _ => rfl, fun _ => rfl⟩
    have htail : Draws [.emitAt .nowhere [op.instruction]] [] := ⟨fun _ => rfl, fun _ => rfl⟩
    simpa [Expression.chain, Expression.elements, markLeaf]
      using ((hhead.append left.draws).append (hop.append right.draws_chain)).append htail

theorem Call.draws (p : Production) (c : Call) : Draws (c.actions p) (marksOf c.elements) := by
  match c with
  | .own name args =>
    have hfirst := Draws.mentionFirst .callee (Or.inr rfl) name
    have hhead : Draws [.emit [.push .pointer 0], takeMark .leftParen, .enter .expressionList]
        [.sign (.word (.symbol .leftParen)), .enter .expressionList] :=
      ⟨fun _ => rfl, fun _ => rfl⟩
    have htail : Draws [.leave .expressionList, takeMark .rightParen,
        .call p (.own (unplaced name)) (UInt16.ofNat args.length)]
        [.leave .expressionList, .sign (.word (.symbol .rightParen))] :=
      ⟨fun _ => rfl, fun _ => rfl⟩
    simpa [Call.actions, Call.elements, markLeaf]
      using ((hfirst.append hhead).append (draws_argumentActions args)).append htail
  | .member owner name args =>
    have hfirst := Draws.mentionFirst .receiver (Or.inl rfl) owner
    have hhead : Draws [takeMark .dot, .take (Lexeme.identifier name).token,
        .loadReceiver (unplaced owner), takeMark .leftParen, .enter .expressionList]
        [.sign (.word (.symbol .dot)), .sign (.identifier .subroutine name),
          .sign (.word (.symbol .leftParen)), .enter .expressionList] :=
      ⟨fun _ => rfl, fun _ => rfl⟩
    have htail : Draws [.leave .expressionList, takeMark .rightParen,
        .call p (.member (unplaced owner) name) (UInt16.ofNat args.length)]
        [.leave .expressionList, .sign (.word (.symbol .rightParen))] :=
      ⟨fun _ => rfl, fun _ => rfl⟩
    simpa [Call.actions, Call.elements, markLeaf]
      using ((hfirst.append hhead).append (draws_argumentActions args)).append htail

theorem draws_argumentActions (args : List Expression) :
    Draws (argumentActions args) (marksOf (argumentElements args)) := by
  match args with
  | [] => exact Draws.nil
  | e :: es =>
    simpa [argumentActions, argumentElements]
      using e.draws_chain.inExpression.append (draws_moreArgumentActions es)

theorem draws_moreArgumentActions (args : List Expression) :
    Draws (moreArgumentActions args) (marksOf (moreArgumentElements args)) := by
  match args with
  | [] => exact Draws.nil
  | e :: es =>
    have hcomma : Draws [takeMark .comma] [.sign (.word (.symbol .comma))] :=
      ⟨fun _ => rfl, fun _ => rfl⟩
    simpa [moreArgumentActions, moreArgumentElements, markLeaf]
      using (hcomma.append e.draws_chain.inExpression).append (draws_moreArgumentActions es)

end

theorem Expression.draws (e : Expression) : Draws e.actions e.element.marks :=
  e.draws_chain.inExpression

theorem Expression.draws_condition (label : String) (e : Expression) :
    Draws (e.conditionActions label) (marksOf e.conditionElements) := by
  have hhead : Draws [takeMark .leftParen] [.sign (.word (.symbol .leftParen))] :=
    ⟨fun _ => rfl, fun _ => rfl⟩
  have htail : Draws [takeMark .rightParen, .emit [.arithmetic .not, .ifGoto label]]
      [.sign (.word (.symbol .rightParen))] :=
    ⟨fun _ => rfl, fun _ => rfl⟩
  simpa [Expression.conditionActions, Expression.conditionElements, markLeaf]
    using (hhead.append e.draws).append htail

namespace Draws

variable {as : List Action} {es : List Element}

theorem inStatements (h : Draws as (marksOf es)) :
    Draws (Jack.inStatements as) (Element.inner .statements es).marks := by
  have hopen : Draws [.enter .statements] [.enter .statements] := ⟨fun _ => rfl, fun _ => rfl⟩
  have hclose : Draws [.leave .statements] [.leave .statements] := ⟨fun _ => rfl, fun _ => rfl⟩
  exact (hopen.append h).append hclose

theorem inBlock (h : Draws as (marksOf es)) :
    Draws (Jack.inBlock as) (marksOf (blockElements es)) := by
  have hopen : Draws [takeMark .leftBrace] [.sign (.word (.symbol .leftBrace))] :=
    ⟨fun _ => rfl, fun _ => rfl⟩
  have hclose : Draws [takeMark .rightBrace] [.sign (.word (.symbol .rightBrace))] :=
    ⟨fun _ => rfl, fun _ => rfl⟩
  simpa [Jack.inBlock, blockElements, markLeaf] using (hopen.append h.inStatements).append hclose

end Draws

mutual

theorem Statement.draws (n : Nat) (s : Statement) : Draws (s.actions n) s.element.marks := by
  match s with
  | .letVariable target value =>
    have hhead : Draws [.enter .letStatement, takeKeyword .let_, .mention (unplaced target),
        takeMark .equal, .require .letStatement (unplaced target)]
        [.enter .letStatement, .sign (.word (.keyword .let_)), .sign (.identifier .target target),
          .sign (.word (.symbol .equal))] :=
      ⟨fun _ => rfl, fun _ => rfl⟩
    have htail : Draws [takeMark .semicolon, .store .letStatement (unplaced target),
        .leave .letStatement] [.sign (.word (.symbol .semicolon)), .leave .letStatement] :=
      ⟨fun _ => rfl, fun _ => rfl⟩
    simpa [Statement.actions, Statement.element, markLeaf, keywordLeaf]
      using (hhead.append value.draws).append htail
  | .letElement target index value =>
    have hhead : Draws [.enter .letStatement, takeKeyword .let_, .mention (unplaced target),
        .require .letStatement (unplaced target), takeMark .leftBracket,
        .load .letStatement (unplaced target)]
        [.enter .letStatement, .sign (.word (.keyword .let_)), .sign (.identifier .target target),
          .sign (.word (.symbol .leftBracket))] :=
      ⟨fun _ => rfl, fun _ => rfl⟩
    have hmiddle : Draws [takeMark .rightBracket, .emit [.arithmetic .add], takeMark .equal]
        [.sign (.word (.symbol .rightBracket)), .sign (.word (.symbol .equal))] :=
      ⟨fun _ => rfl, fun _ => rfl⟩
    have htail : Draws [takeMark .semicolon, .emit assignCode, .leave .letStatement]
        [.sign (.word (.symbol .semicolon)), .leave .letStatement] :=
      ⟨fun _ => rfl, fun _ => rfl⟩
    simpa [Statement.actions, Statement.element, markLeaf, keywordLeaf]
      using (((hhead.append index.draws).append hmiddle).append value.draws).append htail
  | .if_ condition body otherwise =>
    have hhead : Draws [.enter .ifStatement, takeKeyword .if_]
        [.enter .ifStatement, .sign (.word (.keyword .if_))] :=
      ⟨fun _ => rfl, fun _ => rfl⟩
    have hjump : Draws [.emit [.goto (Label.ifEnd.at n), .label (Label.ifFalse.at n)]] [] :=
      ⟨fun _ => rfl, fun _ => rfl⟩
    have htail : Draws [.emit [.label (Label.ifEnd.at n)], .leave .ifStatement]
        [.leave .ifStatement] :=
      ⟨fun _ => rfl, fun _ => rfl⟩
    have hbody := (draws_statementActions (n + 1) body).inBlock
    have hotherwise := draws_otherwiseActions (n + 1 + constructsOf body) otherwise
    simpa [Statement.actions, Statement.element, keywordLeaf]
      using (((hhead.append (condition.draws_condition _)).append hbody).append
        (hjump.append hotherwise)).append htail
  | .while_ condition body =>
    have hhead : Draws [.enter .whileStatement, takeKeyword .while_,
        .emit [.label (Label.whileStart.at n)]]
        [.enter .whileStatement, .sign (.word (.keyword .while_))] :=
      ⟨fun _ => rfl, fun _ => rfl⟩
    have htail : Draws [.emit [.goto (Label.whileStart.at n), .label (Label.whileEnd.at n)],
        .leave .whileStatement] [.leave .whileStatement] :=
      ⟨fun _ => rfl, fun _ => rfl⟩
    have hbody := (draws_statementActions (n + 1) body).inBlock
    simpa [Statement.actions, Statement.element, keywordLeaf]
      using ((hhead.append (condition.draws_condition _)).append hbody).append htail
  | .do_ call =>
    have hhead : Draws [.enter .doStatement, takeKeyword .do_]
        [.enter .doStatement, .sign (.word (.keyword .do_))] :=
      ⟨fun _ => rfl, fun _ => rfl⟩
    have htail : Draws [takeMark .semicolon, .emit [.pop .temp 0], .leave .doStatement]
        [.sign (.word (.symbol .semicolon)), .leave .doStatement] :=
      ⟨fun _ => rfl, fun _ => rfl⟩
    simpa [Statement.actions, Statement.element, markLeaf, keywordLeaf]
      using (hhead.append (call.draws .doStatement)).append htail
  | .return_ none => exact ⟨fun _ => rfl, fun _ => rfl⟩
  | .return_ (some value) =>
    have hhead : Draws [.enter .returnStatement, takeKeyword .return_]
        [.enter .returnStatement, .sign (.word (.keyword .return_))] :=
      ⟨fun _ => rfl, fun _ => rfl⟩
    have htail : Draws [takeMark .semicolon, .emit [.return_], .leave .returnStatement]
        [.sign (.word (.symbol .semicolon)), .leave .returnStatement] :=
      ⟨fun _ => rfl, fun _ => rfl⟩
    simpa [Statement.actions, Statement.element, markLeaf, keywordLeaf]
      using (hhead.append value.draws).append htail

theorem draws_statementActions (n : Nat) (ss : List Statement) :
    Draws (statementActions n ss) (marksOf (statementElements ss)) := by
  match ss with
  | [] => exact Draws.nil
  | s :: ss => exact (s.draws n).append (draws_statementActions _ ss)

theorem draws_otherwiseActions (n : Nat) (o : Option (List Statement)) :
    Draws (otherwiseActions n o) (marksOf (otherwiseElements o)) := by
  match o with
  | none => exact Draws.nil
  | some body =>
    have helse : Draws [takeKeyword .else_] [.sign (.word (.keyword .else_))] :=
      ⟨fun _ => rfl, fun _ => rfl⟩
    exact helse.append (draws_statementActions n body).inBlock

end

/-! ### The outline of declarations -/

theorem Draws.flatMap {α : Type} {f : α → List Action} {g : α → List Element}
    (h : ∀ y, Draws (f y) (marksOf (g y))) (ys : List α) :
    Draws (ys.flatMap f) (marksOf (ys.flatMap g)) := by
  induction ys with
  | nil => exact Draws.nil
  | cons y ys ih => simpa using (h y).append ih

theorem Draws.map {α : Type} {f : α → List Action} {g : α → Element}
    (h : ∀ y, Draws (f y) (g y).marks) (ys : List α) :
    Draws (ys.flatMap f) (marksOf (ys.map g)) := by
  induction ys with
  | nil => exact Draws.nil
  | cons y ys ih => exact (h y).append ih

theorem TypeName.draws (t : TypeName) : Draws [takeType t] [.sign t.sign] := by
  cases t <;> exact ⟨fun _ => rfl, fun _ => rfl⟩

theorem draws_nameActions (p : Production) (type : String) (kind : Kind) (first : String)
    (more : List String) :
    Draws (nameActions p type kind first more) (marksOf (nameElements type kind first more)) := by
  have hfirst : Draws [declareAction p ⟨first, type, kind⟩]
      [.sign (.declared ⟨first, type, kind⟩)] :=
    ⟨fun _ => rfl, fun _ => rfl⟩
  have hmore := Draws.flatMap
    (f := fun name => [takeMark .comma, declareAction p ⟨name, type, kind⟩])
    (g := fun name => [markLeaf .comma, .leaf (.declared ⟨name, type, kind⟩)])
    (fun _ => ⟨fun _ => rfl, fun _ => rfl⟩) more
  simpa [nameActions, nameElements] using hfirst.append hmore

theorem ClassVarDec.draws (d : ClassVarDec) : Draws d.actions d.element.marks := by
  have hopen : Draws [.enter .classVarDec] [.enter .classVarDec] := ⟨fun _ => rfl, fun _ => rfl⟩
  have hkind : Draws [takeKeyword d.kind.keyword] [.sign (.word (.keyword d.kind.keyword))] := by
    apply Draws.keyword
    cases d.kind <;> decide
  have htail : Draws [takeMark .semicolon, .leave .classVarDec]
      [.sign (.word (.symbol .semicolon)), .leave .classVarDec] :=
    ⟨fun _ => rfl, fun _ => rfl⟩
  have hnames := draws_nameActions .classVarDec d.type.spelling d.kind d.first d.more
  simpa [ClassVarDec.actions, ClassVarDec.element, markLeaf, keywordLeaf]
    using (((hopen.append hkind).append d.type.draws).append hnames).append htail

theorem VarDec.draws (d : VarDec) : Draws d.actions d.element.marks := by
  have hhead : Draws [.enter .varDec, takeKeyword .var]
      [.enter .varDec, .sign (.word (.keyword .var))] :=
    ⟨fun _ => rfl, fun _ => rfl⟩
  have htail : Draws [takeMark .semicolon, .leave .varDec]
      [.sign (.word (.symbol .semicolon)), .leave .varDec] :=
    ⟨fun _ => rfl, fun _ => rfl⟩
  have hnames := draws_nameActions .varDec d.type.spelling .var d.first d.more
  simpa [VarDec.actions, VarDec.element, markLeaf, keywordLeaf]
    using ((hhead.append d.type.draws).append hnames).append htail

theorem Parameter.draws (p : Parameter) : Draws p.actions (marksOf p.elements) := by
  have hname : Draws [declareAction .parameterList p.declared] [.sign (.declared p.declared)] :=
    ⟨fun _ => rfl, fun _ => rfl⟩
  exact p.type.draws.append hname

theorem draws_parameterActions (ps : List Parameter) :
    Draws (parameterActions ps) (marksOf (parameterElements ps)) := by
  cases ps with
  | nil => exact Draws.nil
  | cons p ps =>
    have hcomma : Draws [takeMark .comma] [.sign (.word (.symbol .comma))] :=
      ⟨fun _ => rfl, fun _ => rfl⟩
    have hmore := Draws.flatMap (g := fun p : Parameter => markLeaf .comma :: p.elements)
      (fun p => hcomma.append p.draws) ps
    simpa [parameterActions, parameterElements] using p.draws.append hmore

/-- The marks that begin a subroutine. A method declares its object. -/
theorem SubroutineDec.draws_head (d : SubroutineDec) :
    Draws ([.startSubroutine, .enter .subroutineDec, takeKeyword d.role.keyword,
        .take (resultLexeme d.result).token, .take (Lexeme.identifier d.name).token]
        ++ d.role.hiddenActions)
      [.enter .subroutineDec, .sign (.word (.keyword d.role.keyword)), .sign (resultSign d.result),
        .sign (.identifier .subroutine d.name)] := by
  obtain ⟨role, result, name, parameters, vars, body⟩ := d
  rcases result with _ | (_ | _ | _ | name) <;> cases role <;> exact ⟨fun _ => rfl, fun _ => rfl⟩

theorem SubroutineDec.draws (n : Nat) (d : SubroutineDec) :
    Draws (d.actions n) d.element.marks := by
  have hopen : Draws [takeMark .leftParen, .enter .parameterList]
      [.sign (.word (.symbol .leftParen)), .enter .parameterList] :=
    ⟨fun _ => rfl, fun _ => rfl⟩
  have hmiddle : Draws [.leave .parameterList, takeMark .rightParen, .header d.name,
      .enter .subroutineBody, takeMark .leftBrace]
      [.leave .parameterList, .sign (.word (.symbol .rightParen)), .enter .subroutineBody,
        .sign (.word (.symbol .leftBrace))] :=
    ⟨fun _ => rfl, fun _ => rfl⟩
  have hpreamble : Draws [.preamble d.role] [] := ⟨fun _ => rfl, fun _ => rfl⟩
  have htail : Draws [takeMark .rightBrace, .complete (UInt16.ofNat d.localCount),
      .leave .subroutineBody, .leave .subroutineDec]
      [.sign (.word (.symbol .rightBrace)), .leave .subroutineBody, .leave .subroutineDec] :=
    ⟨fun _ => rfl, fun _ => rfl⟩
  have hvars := Draws.map VarDec.draws d.vars
  have hbody := (draws_statementActions n d.body).inStatements
  simpa [SubroutineDec.actions, SubroutineDec.element, bodyActions, markLeaf, keywordLeaf]
    using (((((d.draws_head.append hopen).append (draws_parameterActions d.parameters)).append
      hmiddle).append hvars).append (hpreamble.append hbody)).append htail

theorem draws_subroutineActions (n : Nat) (ds : List SubroutineDec) :
    Draws (subroutineActions n ds) (marksOf (ds.map SubroutineDec.element)) := by
  induction ds generalizing n with
  | nil => exact Draws.nil
  | cons d ds ih => exact (d.draws n).append (ih _)

/-- The actions of a class write the elements of the class. -/
theorem ClassDec.draws (c : ClassDec) : Draws c.actions c.element.marks := by
  have hhead : Draws [.enter .class_, takeKeyword .class_, .take (Lexeme.identifier c.name).token,
      .nameClass c.name, takeMark .leftBrace]
      [.enter .class_, .sign (.word (.keyword .class_)), .sign (.identifier .class_ c.name),
        .sign (.word (.symbol .leftBrace))] :=
    ⟨fun _ => rfl, fun _ => rfl⟩
  have htail : Draws [takeMark .rightBrace, .leave .class_]
      [.sign (.word (.symbol .rightBrace)), .leave .class_] :=
    ⟨fun _ => rfl, fun _ => rfl⟩
  have hvars := Draws.map ClassVarDec.draws c.vars
  simpa [ClassDec.actions, ClassDec.element, markLeaf, keywordLeaf]
    using ((hhead.append hvars).append (draws_subroutineActions 0 c.subroutines)).append htail

end Jack
