import Jack.Proofs.Syntax
import Jack.Script.Basic

/-! What a script without a fault has read is a derivation tree. A goal reads the words of the
trees that it stands for, whatever follows them; meeting a goal keeps that true of the goals that
take its place. -/

namespace Jack

def Cursor.lexemes (c : Cursor) : List Lexeme := c.rest.map Token.lexeme

def bodyLexemes (vars : List VarDec) (body : List Statement) : List Lexeme :=
  vars.flatMap VarDec.lexemes ++ statementLexemes body ++ [.symbol .rightBrace]

def moreNameLexemes (more : List String) : List Lexeme :=
  more.flatMap fun name => [.symbol .comma, .identifier name]

/-- What follows a name that was declared. The statements of a subroutine follow its locals. -/
def Declaration.Continues : Declaration → List Lexeme → Prop
  | .ofClass _, ls => ∃ more, ls = moreNameLexemes more ++ [.symbol .semicolon]
  | .parameter, ls => ∃ ps : List Parameter, ls = ps.flatMap fun p => .symbol .comma :: p.lexemes
  | .locals _ _ _, ls => ∃ more vars body,
      ls = moreNameLexemes more ++ .symbol .semicolon :: bodyLexemes vars body

/-- The words that meet a goal and all the goals that take its place, before the words `rest`. If
they are `maximal`, every expression goes on as far as it can. -/
def Goal.Reads (maximal : Prop) (rest : List Lexeme) : Goal → List Lexeme → Prop
  | .due _, ls => ls = []
  | .mark _ m, ls => ls = [.symbol m]
  | .classWord, ls => ls = [.keyword .class_]
  | .className, ls => ∃ name, ls = [.identifier name]
  | .classVarDecs, ls => ∃ ds : List ClassVarDec, ls = ds.flatMap ClassVarDec.lexemes
  | .subroutineDecs, ls => ∃ ds : List SubroutineDec, ls = ds.flatMap SubroutineDec.lexemes
  | .endOfFile, ls => ls = []
  | .typed d _, ls => ∃ (type : TypeName) (name : String) (more : List Lexeme),
      d.Continues more ∧ ls = type.lexeme :: .identifier name :: more
  | .named d _ _, ls => ∃ name more, d.Continues more ∧ ls = .identifier name :: more
  | .afterName d _ _ _, ls => d.Continues ls
  | .resultType, ls => ∃ result, ls = [resultLexeme result]
  | .subroutineName _, ls => ∃ name ps vars body,
      ls = .identifier name :: .symbol .leftParen :: parameterLexemes ps
        ++ .symbol .rightParen :: .symbol .leftBrace :: bodyLexemes vars body
  | .parameters, ls => ∃ ps, ls = parameterLexemes ps
  | .counted _ _ _ _, ls | .body _ _, ls => ∃ vars body, ls = bodyLexemes vars body
  | .statements, ls => ∃ ss, ls = statementLexemes ss
  | .letTarget, ls => ∃ s : Statement, s.lexemes = .keyword .let_ :: ls
  | .letValue target, ls => ∃ s : Statement,
      s.lexemes = .keyword .let_ :: .identifier target.name :: ls
  | .otherwise, ls => ∃ body, ls = otherwiseLexemes body
  | .returned, ls => ∃ s : Statement, s.lexemes = .keyword .return_ :: ls ++ [.symbol .semicolon]
  | .term, ls => ∃ t : Term, (maximal → t.EndedBy rest) ∧ ls = t.lexemes
  | .operands _, ls => ∀ t : Term, (maximal → t.EndedBy (ls ++ rest)) →
      ∃ e : Expression, (maximal → e.EndedBy rest) ∧ e.lexemes = t.lexemes ++ ls
  | .call _, ls => ∃ call : Call, ls = call.lexemes
  | .callee _ first, ls => ∃ call : Call, call.lexemes = .identifier first.name :: ls
  | .member _ owner, ls => ∃ call : Call,
      call.lexemes = .identifier owner.name :: .symbol .dot :: ls
  | .arguments _ _, ls => ∃ args, ls = argumentLexemes args ++ [.symbol .rightParen]
  | .moreArguments _ _ _ _, ls => ∃ args, ls = moreArgumentLexemes args ++ [.symbol .rightParen]

/-- The words that meet goals, one after the other, before the words `rest`. -/
def Reads (maximal : Prop) (rest : List Lexeme) : List Goal → List Lexeme → Prop
  | [], ls => ls = []
  | g :: goals, ls =>
    ∃ ks ms, g.Reads maximal (ms ++ rest) ks ∧ Reads maximal rest goals ms ∧ ls = ks ++ ms

variable {maximal : Prop}

theorem reads_append {rest : List Lexeme} {goals more : List Goal} {ls : List Lexeme} :
    Reads maximal rest (goals ++ more) ls
      ↔ ∃ ks ms, Reads maximal (ms ++ rest) goals ks ∧ Reads maximal rest more ms
        ∧ ls = ks ++ ms := by
  induction goals generalizing ls with
  | nil => simp [Reads]
  | cons g goals ih =>
    simp only [List.cons_append, Reads, ih]
    constructor
    · rintro ⟨ks, _, hg, ⟨ms, ns, hm, hn, rfl⟩, rfl⟩
      rw [List.append_assoc] at hg
      exact ⟨ks ++ ms, ns, ⟨ks, ms, hg, hm, rfl⟩, hn, (List.append_assoc ks ms ns).symm⟩
    · rintro ⟨_, ns, ⟨ks, ms, hg, hm, rfl⟩, hn, rfl⟩
      rw [← List.append_assoc] at hg
      exact ⟨ks, ms ++ ns, hg, ⟨ms, ns, hm, hn, rfl⟩, List.append_assoc ks ms ns⟩

section

variable {rest ls : List Lexeme}

@[simp] theorem reads_nil : Reads maximal rest [] ls ↔ ls = [] := Iff.rfl

@[simp] theorem reads_due_cons {a : Action} {goals : List Goal} :
    Reads maximal rest (.due a :: goals) ls ↔ Reads maximal rest goals ls := by
  simp [Reads, Goal.Reads]

@[simp] theorem reads_mark_cons {p : Production} {m : Punctuation} {goals : List Goal} :
    Reads maximal rest (.mark p m :: goals) ls
      ↔ ∃ ms, Reads maximal rest goals ms ∧ ls = .symbol m :: ms := by
  simp [Reads, Goal.Reads]

theorem reads_singleton {g : Goal} : Reads maximal rest [g] ls ↔ g.Reads maximal rest ls := by
  constructor
  · rintro ⟨ks, _, hg, rfl, rfl⟩
    rwa [List.append_nil]
  · intro hg
    exact ⟨ls, [], hg, rfl, (List.append_nil ls).symm⟩

/-! ### The goals of a phrase -/

theorem reads_expressionGoals (h : Reads maximal rest expressionGoals ls) :
    ∃ e : Expression, (maximal → e.EndedBy rest) ∧ ls = e.lexemes := by
  obtain ⟨_, _, ⟨t, ht, rfl⟩, ⟨ms, _, hm, hn, rfl⟩, rfl⟩ := reads_due_cons.1 (reads_due_cons.1 h)
  obtain rfl := reads_due_cons.1 hn
  rw [List.append_nil] at ht
  obtain ⟨e, hend, he⟩ := hm t ht
  exact ⟨e, hend, by rw [he, List.append_nil]⟩

theorem reads_statementsGoals (h : Reads maximal rest statementsGoals ls) :
    ∃ ss, ls = statementLexemes ss := by
  obtain ⟨_, _, ⟨ss, rfl⟩, hr, rfl⟩ := reads_due_cons.1 h
  obtain rfl := reads_due_cons.1 hr
  exact ⟨ss, List.append_nil _⟩

theorem reads_blockGoals {p : Production} (h : Reads maximal rest (blockGoals p) ls) :
    ∃ ss, ls = inBraces (statementLexemes ss) := by
  simp only [blockGoals, List.cons_append, reads_mark_cons, reads_append, reads_nil] at h
  obtain ⟨_, ⟨_, _, hs, ⟨_, rfl, rfl⟩, rfl⟩, rfl⟩ := h
  obtain ⟨ss, rfl⟩ := reads_statementsGoals hs
  exact ⟨ss, rfl⟩

theorem reads_conditionGoals {p : Production} {label : String}
    (h : Reads maximal rest (conditionGoals p label) ls) :
    ∃ e : Expression, ls = e.conditionLexemes := by
  simp only [conditionGoals, List.cons_append, reads_mark_cons, reads_append, reads_due_cons,
    reads_nil] at h
  obtain ⟨_, ⟨_, _, he, ⟨_, rfl, rfl⟩, rfl⟩, rfl⟩ := h
  obtain ⟨e, -, rfl⟩ := reads_expressionGoals he
  exact ⟨e, rfl⟩

theorem reads_argumentsGoals {p : Production} {callee : Callee}
    (h : Reads maximal rest (argumentsGoals p callee) ls) :
    ∃ args, ls = .symbol .leftParen :: argumentLexemes args ++ [.symbol .rightParen] := by
  simp only [argumentsGoals, reads_mark_cons, reads_due_cons, reads_singleton] at h
  obtain ⟨_, ⟨args, rfl⟩, rfl⟩ := h
  exact ⟨args, rfl⟩

theorem reads_callGoals {p : Production} {callee : Callee} {count : UInt16}
    (h : Reads maximal rest (callGoals p callee count) ls) : ls = [.symbol .rightParen] := by
  simp only [callGoals, reads_mark_cons, reads_due_cons, reads_nil] at h
  obtain ⟨_, rfl, rfl⟩ := h
  rfl

end

/-! ### What meeting a goal reads -/

theorem Cursor.lexemes_of_read? {c d : Cursor} {l : Lexeme} {t : Token}
    (h : c.read? l = some (t, d)) : c.lexemes = l :: d.lexemes := by
  unfold Cursor.read? at h
  split at h
  · rename_i u rest hc
    split at h
    · rename_i hl
      cases h
      simp [Cursor.lexemes, Cursor.to, hc, hl]
    · cases h
  · cases h

theorem Cursor.lexemes_of_keyword? {c d : Cursor} {k : Keyword} {t : Token}
    (h : c.keyword? = some (k, t, d)) : c.lexemes = .keyword k :: d.lexemes := by
  unfold Cursor.keyword? at h
  split at h
  · rename_i hc
    cases h
    simp [Cursor.lexemes, Cursor.to, hc]
  · cases h

theorem Cursor.lexemes_of_name? {c d : Cursor} {o : Occurrence} (h : c.name? = some (o, d)) :
    c.lexemes = .identifier o.name :: d.lexemes := by
  unfold Cursor.name? at h
  split at h
  · rename_i hc
    cases h
    simp [Cursor.lexemes, Cursor.to, hc]
  · cases h

/-- A type that was read is one of the grammar. -/
theorem Cursor.lexemes_of_type {c d : Cursor} {p : Production} {spelling : String} {t : Token}
    (h : c.type p = .ok (spelling, t, d)) :
    ∃ type : TypeName, c.lexemes = type.lexeme :: d.lexemes := by
  unfold Cursor.type at h
  split at h
  · rename_i hc
    cases h
    exact ⟨.class_ spelling, by simp [Cursor.lexemes, Cursor.to, TypeName.lexeme, hc]⟩
  · rename_i k q rest hc
    split at h
    · rename_i hk
      cases h
      rcases hk with rfl | rfl | rfl
      · exact ⟨.int, by simp [Cursor.lexemes, Cursor.to, TypeName.lexeme, hc]⟩
      · exact ⟨.char, by simp [Cursor.lexemes, Cursor.to, TypeName.lexeme, hc]⟩
      · exact ⟨.boolean, by simp [Cursor.lexemes, Cursor.to, TypeName.lexeme, hc]⟩
    · cases h
  · cases h

/-- A goal at the cursor `c` reads what a step has read and what its goals read. Only maximal words
have to be those that stand there. -/
def Step.Reads (s : Step) (maximal : Prop) (c : Cursor) (g : Goal) : Prop :=
  ∃ ks, c.lexemes = ks ++ s.cursor.lexemes
    ∧ ∀ ls rest, Jack.Reads maximal rest s.goals ls → (maximal → s.cursor.lexemes = ls ++ rest) →
      g.Reads maximal rest (ks ++ ls)

section

variable {s : Step} {c : Cursor} {g : Goal}

theorem Step.reads_of_stay (hc : s.cursor = c)
    (h : ∀ ls rest, Jack.Reads maximal rest s.goals ls → (maximal → c.lexemes = ls ++ rest) →
      g.Reads maximal rest ls) : s.Reads maximal c g :=
  ⟨[], by rw [hc, List.nil_append], fun ls rest hs hl => h ls rest hs (hc ▸ hl)⟩

theorem Step.reads_of_read {l : Lexeme} (hc : c.lexemes = l :: s.cursor.lexemes)
    (h : ∀ ls rest, Jack.Reads maximal rest s.goals ls →
      (maximal → s.cursor.lexemes = ls ++ rest) → g.Reads maximal rest (l :: ls)) :
    s.Reads maximal c g := ⟨[l], hc, h⟩

end

theorem reads_meetClassVarDecs (c : Cursor) :
    (meetClassVarDecs c).Reads maximal c .classVarDecs := by
  have hnone : (⟨[], [], c⟩ : Step).Reads maximal c .classVarDecs :=
    Step.reads_of_stay rfl fun ls rest hs _ => ⟨[], hs⟩
  unfold meetClassVarDecs
  split
  · rename_i k t d hk
    split
    · rename_i hkind
      obtain ⟨kind, hclass, rfl⟩ : ∃ kind : Kind, kind.ofClass = true ∧ kind.keyword = k := by
        rcases hkind with rfl | rfl
        · exact ⟨.static, rfl, rfl⟩
        · exact ⟨.field, rfl, rfl⟩
      refine Step.reads_of_read (Cursor.lexemes_of_keyword? hk) ?_
      rintro _ rest ⟨_, _, ⟨type, name, _, ⟨more, rfl⟩, rfl⟩, ⟨_, _, ⟨ds, rfl⟩, rfl, rfl⟩, rfl⟩ -
      refine ⟨⟨kind, hclass, type, name, more⟩ :: ds, ?_⟩
      simp [ClassVarDec.lexemes, nameLexemes, moreNameLexemes]
    · exact hnone
  · exact hnone

theorem reads_meetSubroutineDecs (c : Cursor) :
    (meetSubroutineDecs c).Reads maximal c .subroutineDecs := by
  have hnone : (⟨[], [], c⟩ : Step).Reads maximal c .subroutineDecs :=
    Step.reads_of_stay rfl fun ls rest hs _ => ⟨[], hs⟩
  unfold meetSubroutineDecs
  split
  · rename_i k t d hk
    split
    · rename_i role hrole
      obtain rfl := Role.keyword_of_ofKeyword? hrole
      refine Step.reads_of_read (Cursor.lexemes_of_keyword? hk) ?_
      rintro _ rest ⟨_, _, ⟨result, rfl⟩, ⟨_, _, ⟨name, ps, vars, body, rfl⟩,
        ⟨_, _, ⟨ds, rfl⟩, rfl, rfl⟩, rfl⟩, rfl⟩ -
      refine ⟨⟨role, result, name, ps, vars, body⟩ :: ds, ?_⟩
      simp [SubroutineDec.lexemes, inBraces, bodyLexemes]
    · exact hnone
  · exact hnone

theorem reads_meetAfterName {c : Cursor} {d : Declaration} {type : String} {count : UInt16}
    {position : Position} {s : Step} (h : meetAfterName c d type count position = .ok s) :
    s.Reads maximal c (.afterName d type count position) := by
  unfold meetAfterName at h
  split at h
  · cases h
  · split at h
    · rename_i t e hc
      split at h
      · rename_i hd
        subst hd
        cases h
        refine Step.reads_of_read (Cursor.lexemes_of_read? hc) ?_
        rintro _ rest ⟨_, _, ⟨type', name, _, ⟨ps, rfl⟩, rfl⟩, rfl, rfl⟩ -
        exact ⟨⟨type', name⟩ :: ps, by simp [Parameter.lexemes]⟩
      · rename_i hd
        cases h
        refine Step.reads_of_read (Cursor.lexemes_of_read? hc) ?_
        rintro _ rest ⟨_, _, ⟨name, _, hn, rfl⟩, rfl, rfl⟩ -
        cases d with
        | ofClass kind =>
          obtain ⟨more, rfl⟩ := hn
          exact ⟨name :: more, by simp [moreNameLexemes]⟩
        | parameter => exact absurd rfl hd
        | locals role before start =>
          obtain ⟨more, vars, body, rfl⟩ := hn
          exact ⟨name :: more, vars, body, by simp [moreNameLexemes]⟩
    · split at h
      · rename_i hd
        subst hd
        cases h
        exact Step.reads_of_stay rfl fun ls rest hs _ => ⟨[], hs⟩
      · rename_i hd
        split at h
        · rename_i t e hc
          cases h
          refine Step.reads_of_read (Cursor.lexemes_of_read? hc) fun ls rest hs _ => ?_
          cases d with
          | ofClass kind =>
            obtain rfl := reads_due_cons.1 hs
            exact ⟨[], rfl⟩
          | parameter => exact absurd rfl hd
          | locals role before start =>
            obtain ⟨vars, body, rfl⟩ := reads_singleton.1 (reads_due_cons.1 hs)
            exact ⟨[], vars, body, rfl⟩
        · cases h

theorem reads_meetSubroutineName {c : Cursor} {role : Role} {s : Step}
    (h : meetSubroutineName c role = .ok s) : s.Reads maximal c (.subroutineName role) := by
  unfold meetSubroutineName at h
  split at h
  · rename_i o d hc
    cases h
    apply Step.reads_of_read (Cursor.lexemes_of_name? hc)
    intro ls rest hs _
    simp only [reads_mark_cons, reads_due_cons] at hs
    obtain ⟨_, ⟨_, _, ⟨ps, rfl⟩, hs, rfl⟩, rfl⟩ := hs
    simp only [reads_mark_cons, reads_due_cons] at hs
    obtain ⟨_, ⟨_, ⟨_, _, ⟨vars, body, rfl⟩, hd, rfl⟩, rfl⟩, rfl⟩ := hs
    obtain rfl := reads_due_cons.1 hd
    exact ⟨o.name, ps, vars, body, by simp⟩
  · cases h

theorem reads_meetBody (c : Cursor) (role : Role) (locals : UInt16) :
    (meetBody c role locals).Reads maximal c (.body role locals) := by
  unfold meetBody
  split
  · rename_i t d hc
    apply Step.reads_of_read (Cursor.lexemes_of_read? hc)
    intro ls rest hs _
    obtain ⟨type, name, _, ⟨more, vars, body, rfl⟩, rfl⟩ := reads_singleton.1 hs
    refine ⟨⟨type, name, more⟩ :: vars, body, ?_⟩
    simp [VarDec.lexemes, nameLexemes, moreNameLexemes, bodyLexemes]
  · apply Step.reads_of_stay rfl
    intro ls rest hs _
    obtain ⟨_, _, hb, hr, rfl⟩ := reads_append.1 hs
    obtain ⟨ss, rfl⟩ := reads_statementsGoals hb
    simp only [reads_mark_cons, reads_due_cons, reads_nil] at hr
    obtain ⟨_, rfl, rfl⟩ := hr
    exact ⟨[], ss, rfl⟩

/-- The goals of a statement that begins with `l`, and of the statements after it. -/
theorem statements_reads_cons (goals : List Goal) {l : Lexeme} {ls rest : List Lexeme}
    (h : Reads maximal rest (goals ++ [.statements]) ls)
    (hs : ∀ ks rest, Reads maximal rest goals ks → ∃ s : Statement, s.lexemes = l :: ks) :
    Goal.statements.Reads maximal rest (l :: ls) := by
  obtain ⟨ks, _, hk, hr, rfl⟩ := reads_append.1 h
  obtain ⟨s, hl⟩ := hs ks _ hk
  obtain ⟨ss, rfl⟩ := reads_singleton.1 hr
  exact ⟨s :: ss, by rw [statementLexemes, hl, List.cons_append]⟩

/-- The goals after the keyword of an `if` or a `while`. -/
theorem reads_branchGoals {p : Production} {label : String} {goals : List Goal}
    {ls rest : List Lexeme}
    (h : Reads maximal rest (conditionGoals p label ++ blockGoals p ++ goals) ls) :
    ∃ (e : Expression) (ss : List Statement) (ms : List Lexeme), Reads maximal rest goals ms
      ∧ ls = e.conditionLexemes ++ inBraces (statementLexemes ss) ++ ms := by
  simp only [reads_append] at h
  obtain ⟨_, ms, ⟨_, _, hc, hb, rfl⟩, hm, rfl⟩ := h
  obtain ⟨e, rfl⟩ := reads_conditionGoals hc
  obtain ⟨ss, rfl⟩ := reads_blockGoals hb
  exact ⟨e, ss, ms, hm, rfl⟩

theorem reads_meetStatements (c : Cursor) : (meetStatements c).Reads maximal c .statements := by
  unfold meetStatements
  split
  · -- let
    rename_i hk
    apply Step.reads_of_read (Cursor.lexemes_of_keyword? hk)
    intro ls rest hs _
    apply statements_reads_cons [.letTarget, .due (.leave .letStatement)] hs
    intro ks rest h
    obtain ⟨_, _, ⟨s, hl⟩, hr, rfl⟩ := h
    obtain rfl := reads_due_cons.1 hr
    exact ⟨s, by rw [hl, List.append_nil]⟩
  · -- if
    rename_i t d hk
    have hl : c.lexemes = _ :: d.lexemes := Cursor.lexemes_of_keyword? hk
    apply Step.reads_of_read hl
    intro ls rest hs _
    have hs' : Reads maximal rest (conditionGoals .ifStatement (Label.ifFalse.at c.constructs)
        ++ blockGoals .ifStatement
        ++ [.due (.emit [.goto (Label.ifEnd.at c.constructs),
              .label (Label.ifFalse.at c.constructs)]), .otherwise,
            .due (.emit [.label (Label.ifEnd.at c.constructs)]), .due (.leave .ifStatement)]
        ++ [.statements]) ls := by
      rw [List.append_assoc]
      exact hs
    apply statements_reads_cons _ hs'
    intro ks rest h
    obtain ⟨e, ss, _, hm, rfl⟩ := reads_branchGoals h
    obtain ⟨_, _, ⟨body, rfl⟩, hr, rfl⟩ := reads_due_cons.1 hm
    simp only [reads_due_cons, reads_nil] at hr
    subst hr
    exact ⟨.if_ e ss body, by simp [Statement.lexemes]⟩
  · -- while
    rename_i t d hk
    have hl : c.lexemes = _ :: d.lexemes := Cursor.lexemes_of_keyword? hk
    apply Step.reads_of_read hl
    intro ls rest hs _
    have hs' : Reads maximal rest (conditionGoals .whileStatement (Label.whileEnd.at c.constructs)
        ++ blockGoals .whileStatement
        ++ [.due (.emit [.goto (Label.whileStart.at c.constructs),
              .label (Label.whileEnd.at c.constructs)]), .due (.leave .whileStatement)]
        ++ [.statements]) ls := by
      rw [List.append_assoc]
      exact hs
    apply statements_reads_cons _ hs'
    intro ks rest h
    obtain ⟨e, ss, _, hm, rfl⟩ := reads_branchGoals h
    simp only [reads_due_cons, reads_nil] at hm
    subst hm
    exact ⟨.while_ e ss, by simp [Statement.lexemes]⟩
  · -- do
    rename_i hk
    apply Step.reads_of_read (Cursor.lexemes_of_keyword? hk)
    intro ls rest hs _
    refine statements_reads_cons [.call .doStatement, .mark .doStatement .semicolon,
      .due (.emit [.pop .temp 0]), .due (.leave .doStatement)] hs fun ks rest h => ?_
    obtain ⟨_, _, ⟨call, rfl⟩, hr, rfl⟩ := h
    simp only [reads_mark_cons, reads_due_cons, reads_nil] at hr
    obtain ⟨_, rfl, rfl⟩ := hr
    exact ⟨.do_ call, by simp [Statement.lexemes]⟩
  · -- return
    rename_i hk
    apply Step.reads_of_read (Cursor.lexemes_of_keyword? hk)
    intro ls rest hs _
    refine statements_reads_cons [.returned, .mark .returnStatement .semicolon,
      .due (.emit [.return_]), .due (.leave .returnStatement)] hs fun ks rest h => ?_
    obtain ⟨_, _, ⟨s, hl⟩, hr, rfl⟩ := h
    simp only [reads_mark_cons, reads_due_cons, reads_nil] at hr
    obtain ⟨_, rfl, rfl⟩ := hr
    exact ⟨s, hl⟩
  · exact Step.reads_of_stay rfl fun ls rest hs _ => ⟨[], hs⟩

theorem reads_meetLetValue (c : Cursor) (target : Occurrence) :
    (meetLetValue c target).Reads maximal c (.letValue target) := by
  unfold meetLetValue
  split
  · rename_i hc
    refine Step.reads_of_read (Cursor.lexemes_of_read? hc) fun ls rest hs _ => ?_
    simp only [reads_append, reads_mark_cons, reads_due_cons, reads_nil] at hs
    obtain ⟨_, _, ⟨_, _, ⟨_, _, hi, ⟨_, ⟨_, rfl, rfl⟩, rfl⟩, rfl⟩, hv, rfl⟩, ⟨_, rfl, rfl⟩, rfl⟩ :=
      hs
    obtain ⟨index, -, rfl⟩ := reads_expressionGoals hi
    obtain ⟨value, -, rfl⟩ := reads_expressionGoals hv
    exact ⟨.letElement target.name index value, by simp [Statement.lexemes]⟩
  · apply Step.reads_of_stay rfl
    intro ls rest hs _
    simp only [reads_append, reads_mark_cons, reads_due_cons, reads_nil] at hs
    obtain ⟨_, _, ⟨_, _, ⟨_, rfl, rfl⟩, hv, rfl⟩, ⟨_, rfl, rfl⟩, rfl⟩ := hs
    obtain ⟨value, -, rfl⟩ := reads_expressionGoals hv
    exact ⟨.letVariable target.name value, by simp [Statement.lexemes]⟩

theorem endName_of_not_sees {c : Cursor} {rest : List Lexeme}
    (hbracket : ¬c.sees .leftBracket = true)
    (hcall : ¬(c.sees .leftParen || c.sees .dot) = true) (hrest : c.lexemes = [] ++ rest) :
    EndName rest := by
  have hsees : ∀ m ls, rest = .symbol m :: ls → c.sees m = true := by
    rintro m ls rfl
    obtain ⟨t, ts, hts, ht, -⟩ := List.map_eq_cons_iff.1 hrest
    simp [Cursor.sees, Cursor.mark?, Cursor.read?, hts, ht]
  rw [Bool.or_eq_true, not_or] at hcall
  intro m ls hls
  have h := hsees m ls hls
  refine ⟨?_, ?_, ?_⟩
  · rintro rfl
    exact hbracket h
  · rintro rfl
    exact hcall.1 h
  · rintro rfl
    exact hcall.2 h

/-- A term that starts with the name `o`, after which the cursor is `d`. -/
theorem reads_meetName {c d : Cursor} {o : Occurrence}
    (hc : c.lexemes = .identifier o.name :: d.lexemes) :
    (meetName c o d).Reads maximal c .term := by
  unfold meetName
  split
  · apply Step.reads_of_read hc
    intro ls rest hs _
    simp only [reads_append, reads_mark_cons, reads_due_cons, reads_nil] at hs
    obtain ⟨_, _, ⟨_, _, ⟨_, rfl, rfl⟩, hi, rfl⟩, ⟨_, rfl, rfl⟩, rfl⟩ := hs
    obtain ⟨index, -, rfl⟩ := reads_expressionGoals hi
    exact ⟨.element o.name index, fun _ => trivial, by simp [Term.lexemes]⟩
  · split
    · apply Step.reads_of_stay rfl
      intro ls rest hs _
      obtain ⟨_, _, ⟨call, rfl⟩, hr, rfl⟩ := hs
      obtain rfl := reads_due_cons.1 hr
      exact ⟨.call call, fun _ => trivial, by rw [Term.lexemes, List.append_nil]⟩
    · rename_i hbracket hcall
      refine Step.reads_of_read hc ?_
      rintro _ rest rfl hrest
      exact ⟨.variable o.name, fun hm => endName_of_not_sees hbracket hcall (hrest hm), rfl⟩

theorem reads_meetTerm {c : Cursor} {s : Step} (h : meetTerm c = .ok s) :
    s.Reads maximal c .term := by
  unfold meetTerm at h
  split at h
  · cases h
  · rename_i t rest hc
    have hl : ∀ l, t.lexeme = l → c.lexemes = l :: (c.to rest).lexemes := by
      rintro _ rfl
      simp [Cursor.lexemes, Cursor.to, hc]
    split at h
    · rename_i value ht
      cases h
      refine Step.reads_of_read (hl _ ht) ?_
      rintro _ rest rfl -
      exact ⟨.integer value, fun _ => trivial, rfl⟩
    · rename_i text ht
      cases h
      refine Step.reads_of_read (hl _ ht) ?_
      rintro _ rest rfl -
      exact ⟨.string text, fun _ => trivial, rfl⟩
    · rename_i ht
      cases h
      exact reads_meetName (hl _ ht)
    · rename_i k ht
      split at h
      · rename_i word hk
        cases h
        refine Step.reads_of_read (hl _ ht) ?_
        rintro _ rest rfl -
        refine ⟨.constant word, fun _ => trivial, ?_⟩
        rw [Term.lexemes, KeywordConstant.keyword_of_ofKeyword? hk]
      · cases h
    · rename_i m ht
      split at h
      · rename_i hm
        subst hm
        cases h
        apply Step.reads_of_read (hl _ ht)
        intro ls rest hs _
        obtain ⟨_, _, he, hr, rfl⟩ := reads_append.1 hs
        obtain ⟨inner, -, rfl⟩ := reads_expressionGoals he
        simp only [reads_mark_cons, reads_due_cons, reads_nil] at hr
        obtain ⟨_, rfl, rfl⟩ := hr
        exact ⟨.group inner, fun _ => trivial, by simp [Term.lexemes]⟩
      · split at h
        · rename_i op hop
          obtain rfl := UnaryOp.mark_of_ofMark? hop
          cases h
          apply Step.reads_of_read (hl _ ht)
          intro ls rest hs _
          obtain ⟨_, _, ⟨operand, hend, rfl⟩, hr, rfl⟩ := reads_due_cons.1 hs
          simp only [reads_due_cons, reads_nil] at hr
          subst hr
          exact ⟨.unary op operand, hend, by simp [Term.lexemes]⟩
        · cases h

theorem reads_meetOperands (c : Cursor) (waiting : List (BinaryOp × Position)) :
    (meetOperands c waiting).Reads maximal c (.operands waiting) := by
  have hnone : (∀ (op : BinaryOp) ls, c.lexemes ≠ .symbol op.mark :: ls) →
      (⟨waiting.map fun w => .emitAt w.2 [w.1.instruction], [], c⟩ : Step).Reads maximal c
        (.operands waiting) := by
    intro hop
    refine Step.reads_of_stay rfl ?_
    rintro _ rest rfl hrest t ht
    have hend : maximal → EndOperands rest := fun hm op ls hls => hop op ls ((hrest hm).trans hls)
    exact ⟨.term t, fun hm => ⟨ht hm, hend hm⟩, by rw [Expression.lexemes, List.append_nil]⟩
  unfold meetOperands
  split
  · rename_i m p rest hc
    have hl : c.lexemes = .symbol m :: (c.to rest).lexemes := by
      simp [Cursor.lexemes, Cursor.to, hc]
    split
    · rename_i op hop
      obtain rfl := BinaryOp.mark_of_ofMark? hop
      apply Step.reads_of_read hl
      intro ls rest hs _ t ht
      obtain ⟨_, _, ⟨left, hleft, rfl⟩, hr, rfl⟩ := reads_due_cons.1 hs
      obtain ⟨right, hend, he⟩ := reads_singleton.1 hr left hleft
      exact ⟨.binary t op right, hend, by rw [Expression.lexemes, he]⟩
    · rename_i hop
      apply hnone
      intro op ls hls
      rw [hl] at hls
      obtain ⟨hm, -⟩ := List.cons.inj hls
      obtain rfl := Lexeme.symbol.inj hm
      rw [BinaryOp.ofMark?_mark] at hop
      cases hop
  · rename_i hc
    apply hnone
    intro op ls hls
    obtain ⟨t, ts, hts, ht, -⟩ := List.map_eq_cons_iff.1 hls
    obtain ⟨_, p⟩ := t
    cases ht
    exact hc _ p ts hts

theorem reads_meetCallee (c : Cursor) (p : Production) (first : Occurrence) :
    (meetCallee c p first).Reads maximal c (.callee p first) := by
  unfold meetCallee
  split
  · rename_i hc
    refine Step.reads_of_read (Cursor.lexemes_of_read? hc) fun ls rest hs _ => ?_
    obtain ⟨call, hl⟩ := reads_singleton.1 hs
    exact ⟨call, hl⟩
  · apply Step.reads_of_stay rfl
    intro ls rest hs _
    obtain ⟨args, rfl⟩ := reads_argumentsGoals hs
    exact ⟨.own first.name args, by simp [Call.lexemes]⟩

theorem reads_meetMoreArguments {c : Cursor} {p : Production} {callee : Callee} {count : UInt16}
    {position : Position} {s : Step} (h : meetMoreArguments c p callee count position = .ok s) :
    s.Reads maximal c (.moreArguments p callee count position) := by
  unfold meetMoreArguments at h
  split at h
  · cases h
  · split at h
    · rename_i hc
      cases h
      refine Step.reads_of_read (Cursor.lexemes_of_read? hc) fun ls rest hs _ => ?_
      obtain ⟨_, _, he, hr, rfl⟩ := reads_append.1 hs
      obtain ⟨e, -, rfl⟩ := reads_expressionGoals he
      obtain ⟨args, rfl⟩ := reads_singleton.1 hr
      exact ⟨e :: args, by simp [moreArgumentLexemes]⟩
    · cases h
      apply Step.reads_of_stay rfl
      intro ls rest hs _
      obtain rfl := reads_callGoals hs
      exact ⟨[], rfl⟩

/-- A goal that is met reads what the step has read and what its goals read. -/
theorem Goal.reads_of_meet {g : Goal} {c : Cursor} {s : Step} (h : g.meet c = .ok s) :
    s.Reads maximal c g := by
  cases g with
  | due a =>
    cases h
    exact Step.reads_of_stay rfl fun ls rest hs _ => hs
  | mark p m =>
    rw [Goal.meet] at h
    split at h
    · rename_i hc
      cases h
      refine Step.reads_of_read (Cursor.lexemes_of_read? hc) ?_
      rintro _ rest rfl -
      rfl
    · cases h
  | classWord =>
    rw [Goal.meet] at h
    split at h
    · rename_i hc
      cases h
      refine Step.reads_of_read (Cursor.lexemes_of_read? hc) ?_
      rintro _ rest rfl -
      rfl
    · cases h
  | className =>
    rw [Goal.meet] at h
    split at h
    · rename_i o d hc
      cases h
      refine Step.reads_of_read (Cursor.lexemes_of_name? hc) ?_
      rintro _ rest rfl -
      exact ⟨o.name, rfl⟩
    · cases h
  | classVarDecs =>
    cases h
    exact reads_meetClassVarDecs c
  | subroutineDecs =>
    cases h
    exact reads_meetSubroutineDecs c
  | endOfFile =>
    rw [Goal.meet] at h
    split at h
    · cases h
      exact Step.reads_of_stay rfl fun ls rest hs _ => hs
    · cases h
  | typed d count =>
    rw [Goal.meet] at h
    split at h
    · rename_i hc
      cases h
      obtain ⟨type, hl⟩ := Cursor.lexemes_of_type hc
      apply Step.reads_of_read hl
      intro ls rest hs _
      obtain ⟨name, more, hn, rfl⟩ := reads_singleton.1 hs
      exact ⟨type, name, more, hn, rfl⟩
    · cases h
  | named d type count =>
    rw [Goal.meet] at h
    split at h
    · rename_i o e hc
      cases h
      apply Step.reads_of_read (Cursor.lexemes_of_name? hc)
      intro ls rest hs _
      exact ⟨o.name, ls, reads_singleton.1 hs, rfl⟩
    · cases h
  | afterName d type count position => exact reads_meetAfterName h
  | resultType =>
    rw [Goal.meet] at h
    split at h
    · rename_i hc
      cases h
      refine Step.reads_of_read (Cursor.lexemes_of_read? hc) ?_
      rintro _ rest rfl -
      exact ⟨none, rfl⟩
    · split at h
      · rename_i hc
        cases h
        obtain ⟨type, hl⟩ := Cursor.lexemes_of_type hc
        refine Step.reads_of_read hl ?_
        rintro _ rest rfl -
        exact ⟨some type, rfl⟩
      · cases h
  | subroutineName role => exact reads_meetSubroutineName h
  | parameters =>
    rw [Goal.meet] at h
    split at h
    · cases h
      exact Step.reads_of_stay rfl fun ls rest hs _ => ⟨[], hs⟩
    · cases h
      apply Step.reads_of_stay rfl
      intro ls rest hs _
      obtain ⟨type, name, _, ⟨ps, rfl⟩, rfl⟩ := reads_singleton.1 hs
      exact ⟨⟨type, name⟩ :: ps, rfl⟩
  | counted role before count start =>
    rw [Goal.meet] at h
    split at h
    · cases h
      exact Step.reads_of_stay rfl fun ls rest hs _ => reads_singleton.1 hs
    · cases h
  | body role locals =>
    cases h
    exact reads_meetBody c role locals
  | statements =>
    cases h
    exact reads_meetStatements c
  | letTarget =>
    rw [Goal.meet] at h
    split at h
    · rename_i hc
      cases h
      apply Step.reads_of_read (Cursor.lexemes_of_name? hc)
      intro ls rest hs _
      obtain ⟨s, hl⟩ := reads_singleton.1 hs
      exact ⟨s, hl⟩
    · cases h
  | letValue target =>
    cases h
    exact reads_meetLetValue c target
  | otherwise =>
    rw [Goal.meet] at h
    split at h
    · rename_i hc
      cases h
      apply Step.reads_of_read (Cursor.lexemes_of_read? hc)
      intro ls rest hs _
      obtain ⟨ss, rfl⟩ := reads_blockGoals hs
      exact ⟨some ss, rfl⟩
    · cases h
      exact Step.reads_of_stay rfl fun ls rest hs _ => ⟨none, hs⟩
  | returned =>
    rw [Goal.meet] at h
    split at h
    · cases h
      refine Step.reads_of_stay rfl ?_
      rintro _ rest rfl -
      exact ⟨.return_ none, rfl⟩
    · cases h
      apply Step.reads_of_stay rfl
      intro ls rest hs _
      obtain ⟨e, -, rfl⟩ := reads_expressionGoals hs
      exact ⟨.return_ (some e), rfl⟩
  | term => exact reads_meetTerm h
  | operands waiting =>
    cases h
    exact reads_meetOperands c waiting
  | call p =>
    rw [Goal.meet] at h
    split at h
    · rename_i hc
      cases h
      apply Step.reads_of_read (Cursor.lexemes_of_name? hc)
      intro ls rest hs _
      obtain ⟨call, hl⟩ := reads_singleton.1 hs
      exact ⟨call, hl.symm⟩
    · cases h
  | callee p first =>
    cases h
    exact reads_meetCallee c p first
  | member p owner =>
    rw [Goal.meet] at h
    split at h
    · rename_i o d hc
      cases h
      apply Step.reads_of_read (Cursor.lexemes_of_name? hc)
      intro ls rest hs _
      obtain ⟨args, rfl⟩ := reads_argumentsGoals hs
      exact ⟨.member owner.name o.name args, by simp [Call.lexemes]⟩
    · cases h
  | arguments p target =>
    rw [Goal.meet] at h
    split at h
    · cases h
      apply Step.reads_of_stay rfl
      intro ls rest hs _
      obtain rfl := reads_callGoals hs
      exact ⟨[], rfl⟩
    · cases h
      apply Step.reads_of_stay rfl
      intro ls rest hs _
      obtain ⟨_, _, he, hr, rfl⟩ := reads_append.1 hs
      obtain ⟨e, -, rfl⟩ := reads_expressionGoals he
      obtain ⟨args, rfl⟩ := reads_singleton.1 hr
      exact ⟨e :: args, by simp [argumentLexemes]⟩
  | moreArguments p target count position => exact reads_meetMoreArguments h

namespace Script

/-- Goals that are met without a fault have read their words. -/
theorem reads_of_fault?_eq_none {goals : List Goal} {c : Cursor} {done : Array Action}
    (h : (ofGoals goals c done).fault? = none) :
    ∃ ls, Reads True (ofGoals goals c done).cursor.lexemes goals ls
      ∧ c.lexemes = ls ++ (ofGoals goals c done).cursor.lexemes := by
  induction goals, c using induction_on_meet generalizing done with
  | nil c => exact ⟨[], rfl, by rw [ofGoals_nil, List.nil_append]⟩
  | error g goals c e hg =>
    rw [ofGoals_cons_of_error hg] at h
    cases h
  | ok g goals c s hg ih =>
    rw [ofGoals_cons_of_ok hg] at h ⊢
    obtain ⟨ls, hr, hl⟩ := ih h
    obtain ⟨ms, ns, hm, hn, rfl⟩ := reads_append.1 hr
    rw [List.append_assoc] at hl
    obtain ⟨ks, hc, hk⟩ := Goal.reads_of_meet hg
    exact ⟨ks ++ ms ++ ns, ⟨ks ++ ms, ns, hk ms _ hm fun _ => hl, hn, rfl⟩, by rw [hc, hl]; simp⟩

/-- An expression that is read without a fault, as far as it goes. -/
theorem exists_expression {c : Cursor} {done : Array Action}
    (h : (ofGoals expressionGoals c done).fault? = none) :
    ∃ e : Expression, e.EndedBy (ofGoals expressionGoals c done).cursor.lexemes
      ∧ c.lexemes = e.lexemes ++ (ofGoals expressionGoals c done).cursor.lexemes := by
  obtain ⟨ls, hr, hl⟩ := reads_of_fault?_eq_none h
  obtain ⟨e, hend, rfl⟩ := reads_expressionGoals hr
  exact ⟨e, hend trivial, hl⟩

end Script

/-- What classes read is a class. -/
theorem exists_classDec_of_reads {ls rest : List Lexeme} (h : Reads maximal rest classGoals ls) :
    ∃ c : ClassDec, ls = c.lexemes := by
  obtain ⟨_, _, rfl, ⟨_, _, ⟨name, rfl⟩, hb, rfl⟩, rfl⟩ := reads_due_cons.1 h
  obtain ⟨_, ⟨_, _, ⟨vars, rfl⟩, ⟨_, _, ⟨subs, rfl⟩, he, rfl⟩, rfl⟩, rfl⟩ := reads_mark_cons.1 hb
  simp only [reads_mark_cons, reads_due_cons, reads_singleton] at he
  obtain ⟨_, rfl, rfl⟩ := he
  exact ⟨⟨name, vars, subs⟩, by simp [ClassDec.lexemes, inBraces]⟩

namespace Script

/-- Goals that end with the end of the file leave no word. -/
theorem rest_eq_nil_of_endOfFile {goals : List Goal} {c : Cursor} {done : Array Action}
    (h : (ofGoals (goals ++ [.endOfFile]) c done).fault? = none) :
    (ofGoals (goals ++ [.endOfFile]) c done).cursor.rest = [] := by
  rw [ofGoals_append] at h ⊢
  split at h
  · rename_i e he
    rw [he] at h
    cases h
  · generalize (ofGoals goals c done).cursor = d at h ⊢
    cases hd : d.rest with
    | nil =>
      have hm : Goal.endOfFile.meet d = .ok ⟨[], [], d⟩ := by simp [Goal.meet, hd]
      simp [ofGoals_cons_of_ok hm, hd]
    | cons t rest =>
      have hm : Goal.endOfFile.meet d
          = .error (d.badSyntax .class_ [.category .endOfFile]) := by
        simp [Goal.meet, hd]
      rw [ofGoals_cons_of_error hm] at h
      cases h

/-- Tokens that are read without a fault are the words of a class. -/
theorem exists_classDec {stream : TokenStream} (h : (ofTokens stream).fault? = none) :
    ∃ c : ClassDec, c.lexemes = stream.tokens.map Token.lexeme := by
  obtain ⟨ls, hr, hl⟩ := reads_of_fault?_eq_none h
  obtain ⟨c, rfl⟩ := exists_classDec_of_reads hr
  have hrest : (ofTokens stream).cursor.rest = [] :=
    @rest_eq_nil_of_endOfFile classGoals.dropLast _ _ h
  refine ⟨c, ?_⟩
  have he : (ofTokens stream).cursor.lexemes = [] := by rw [Cursor.lexemes, hrest, List.map_nil]
  rw [ofTokens] at he
  rw [he, List.append_nil] at hl
  exact hl.symm

end Script

end Jack
