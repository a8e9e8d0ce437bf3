import Jack.Proofs.HeaderWords
import Jack.Proofs.Places
import Jack.Proofs.Steady

/-! The function headers of a compilation, finished or not. The header of a subroutine is emitted
without locals, and counts them once the subroutine is complete. -/

namespace Jack

/-! ### The stages of a class -/

/-- Every header of a session is that of a complete subroutine. -/
structure Session.Has (s : Session) (c : ClassDec) : Prop where
  className : s.className = c.name
  headers : headers s.code = c.headers
  locals : c.LocalsFit

/-- The last header of a session stands in its slot and waits for the number of locals. -/
structure Session.Awaits (s : Session) (c : ClassDec) (name : String) : Prop where
  className : s.className = c.name
  locals : c.LocalsFit
  header : ∃ before after, s.code = before ++ .function (qualified c.name name) 0 :: after
    ∧ Jack.headers before = c.headers ∧ Headless after
    ∧ s.slot? = some ⟨before.length, qualified c.name name⟩

theorem Session.Extends.headers_eq {s t : Session} (h : s.Extends t) :
    headers t.code = headers s.code := by
  obtain ⟨is, his, hcode⟩ := h.code
  rw [hcode, headers_append, his.headers, List.append_nil]

theorem Session.Has.extends {s t : Session} {c : ClassDec} (h : s.Has c) (ht : s.Extends t) :
    t.Has c :=
  ⟨ht.className.trans h.className, ht.headers_eq.trans h.headers, h.locals⟩

theorem Session.Awaits.extends {s t : Session} {c : ClassDec} {name : String}
    (h : s.Awaits c name) (ht : s.Extends t) : t.Awaits c name := by
  obtain ⟨is, his, hcode⟩ := ht.code
  obtain ⟨before, after, heq, hbefore, hafter, hslot⟩ := h.header
  refine ⟨ht.className.trans h.className, h.locals, before, after ++ is, ?_, hbefore,
    hafter.append his, ht.slot?.trans hslot⟩
  rw [hcode, heq, List.append_assoc, List.cons_append]

theorem Session.Awaits.headers {s : Session} {c : ClassDec} {d : SubroutineDec}
    (h : s.Awaits c d.name) : headers s.code = c.headers ++ [d.header c.name 0] := by
  obtain ⟨before, after, heq, hbefore, hafter, -⟩ := h.header
  rw [heq, headers_append, hbefore]
  exact congrArg _ (congrArg (List.cons _) hafter.headers)

/-- A part of a class where every goal on top of those below leaves the headers alone. -/
inductive Stage where
  /-- The declarations of a class of this name. -/
  | declaring (name : String)
  /-- A subroutine up to its name. -/
  | naming (c : ClassDec) (role : Role)
  /-- A subroutine from its name up to the end of its parameters. -/
  | parameters (c : ClassDec) (role : Role) (result : Option TypeName) (name : String)
  /-- The body of a subroutine, which the goals `back` end. -/
  | body (c : ClassDec) (d : SubroutineDec) (back : List Goal)

def classEnd : List Goal :=
  [.mark .class_ .rightBrace, .due (.leave .class_), .endOfFile]

/-- The goals behind the parameters of a subroutine. -/
def afterParameters (role : Role) (name : String) : List Goal :=
  .due (.header name) :: .due (.enter .subroutineBody) :: .mark .subroutineBody .leftBrace
    :: .body role 0 :: .due (.leave .subroutineDec) :: .subroutineDecs :: classEnd

namespace Stage

/-- The words before the stage. -/
def words : Stage → List Lexeme
  | declaring name => [.keyword .class_, .identifier name, .symbol .leftBrace]
  | naming c role => c.openLexemes ++ [.keyword role.keyword]
  | parameters c role result name =>
    c.openLexemes ++ [.keyword role.keyword, resultLexeme result, .identifier name]
  | body c d _ => c.openLexemes ++ d.headLexemes

/-- The goals that are left after the stage. -/
def below : Stage → List Goal
  | declaring _ => .classVarDecs :: .subroutineDecs :: classEnd
  | naming _ role => .subroutineName role :: .subroutineDecs :: classEnd
  | parameters _ role _ name => .mark .subroutineDec .rightParen :: afterParameters role name
  | body _ _ back => back ++ .due (.leave .subroutineDec) :: .subroutineDecs :: classEnd

/-- The words of the whole stage. -/
def Wants : Stage → List Lexeme → Prop
  | declaring _, ls => ∃ vs : List ClassVarDec, ls = vs.flatMap ClassVarDec.lexemes
  | naming _ _, ls => ∃ result, ls = [resultLexeme result]
  | parameters _ _ _ _, ls => ∃ ps, ls = .symbol .leftParen :: parameterLexemes ps
  | body _ _ back, ls => (∃ n ks, BodyEnd back n ks) ∧ ∀ n ks, BodyEnd back n ks →
      ∃ vars body, ls ++ ks = .symbol .leftBrace :: bodyLexemes vars body
        ∧ n = (vars.flatMap VarDec.names).length

def Keeps : Stage → Session → Prop
  | declaring name, s => s.Has ⟨name, [], []⟩
  | naming c _, s => s.Has c
  | parameters c _ _ _, s => s.Has c
  | body c d _, s => s.Awaits c d.name

theorem Keeps.extends {st : Stage} {s t : Session} (h : st.Keeps s) (ht : s.Extends t) :
    st.Keeps t := by
  cases st with
  | declaring name => exact Session.Has.extends h ht
  | naming c role => exact Session.Has.extends h ht
  | parameters c role result name => exact Session.Has.extends h ht
  | body c d back => exact Session.Awaits.extends h ht

end Stage

theorem BodyEnd.ne_nil {goals : List Goal} {n : Nat} {ls : List Lexeme} (h : BodyEnd goals n ls) :
    ls ≠ [] := by
  cases h with
  | brace locals => exact List.cons_ne_nil _ _
  | @declaring g _ _ h =>
    rintro rfl
    cases g with
    | body role locals | counted role before count start =>
      obtain ⟨vars, body, hls, -⟩ := h
      simp [bodyLexemes] at hls
    | typed d count =>
      cases d with
      | ofClass kind | parameter => cases h
      | locals role before start =>
        obtain ⟨type, name, more, vars, body, hls, -⟩ := h
        cases hls
    | named d type count =>
      cases d with
      | ofClass kind | parameter => cases h
      | locals role before start =>
        obtain ⟨name, more, vars, body, hls, -⟩ := h
        cases hls
    | afterName d type count position =>
      cases d with
      | ofClass kind | parameter => cases h
      | locals role before start =>
        obtain ⟨more, vars, body, hls, -⟩ := h
        simp at hls
    | _ => cases h

/-- Wherever the words end within a stage, the headers are those of the words. -/
theorem Stage.headersAfter (st : Stage) {ws : List Lexeme} (ls : List Lexeme) {s : Session}
    (h : st.Wants (ws ++ ls)) (hs : st.Keeps s) :
    HeadersAfter (st.words ++ ws) (headers s.code) := by
  cases st with
  | declaring name =>
    obtain ⟨vs, hvs⟩ := h
    have hcode : headers s.code = [] := Session.Has.headers hs
    obtain ⟨vs, part, rfl, hpart⟩ := exists_of_flatMap_eq_append hvs.symm
    have hwords : (Stage.declaring name).words ++ (vs.flatMap ClassVarDec.lexemes ++ part)
        = (ClassDec.mk name vs []).openLexemes ++ part := by
      simp [Stage.words, ClassDec.openLexemes]
    rw [hwords, hcode]
    rcases hpart with rfl | ⟨v, more, hv, hmore⟩
    · exact .declaring (v := ⟨.static, rfl, .int, "a", []⟩) rfl (List.nil_append _).symm
        (List.cons_ne_nil _ _)
    · exact .declaring rfl hv hmore
  | naming c role =>
    obtain ⟨result, hresult⟩ := h
    rw [Session.Has.headers hs, Stage.words, List.append_assoc]
    refine HeadersAfter.head (d := ⟨role, result, "a", [], [], []⟩)
      (ls ++ [.identifier "a", .symbol .leftParen, .symbol .rightParen])
      (Session.Has.locals hs) ?_ (by simp)
    rw [List.append_assoc, ← List.append_assoc ws, hresult]
    rfl
  | parameters c role result name =>
    obtain ⟨ps, hps⟩ := h
    rw [Session.Has.headers hs, Stage.words, List.append_assoc]
    refine HeadersAfter.head (d := ⟨role, result, name, ps, [], []⟩)
      (ls ++ [.symbol .rightParen]) (Session.Has.locals hs) ?_ (by simp)
    rw [List.append_assoc, ← List.append_assoc ws, hps]
    rfl
  | body c d back =>
    obtain ⟨⟨n, ks, hend⟩, hbody⟩ := h
    obtain ⟨vars, body, hls, -⟩ := hbody n ks hend
    rw [Session.Awaits.headers hs, Stage.words, List.append_assoc]
    refine HeadersAfter.body (d := { d with vars := vars, body := body }) (ls ++ ks)
      (Session.Awaits.locals hs) ?_ (by simp [hend.ne_nil])
    rw [SubroutineDec.lexemes_eq, ← hls]
    simp [SubroutineDec.headLexemes]

/-! ### What a step comes to -/

/-- The words read so far, the goals left and the session of a class that is being compiled. -/
inductive Reached : List Lexeme → List Goal → Session → Prop
  | start {s : Session} (hs : headers s.code = []) : Reached [] classGoals s
  | word {s : Session} (hs : headers s.code = []) : Reached [] (classGoals.drop 1) s
  | name {s : Session} (hs : headers s.code = []) :
    Reached [.keyword .class_] (classGoals.drop 2) s
  | brace {s : Session} {name : String} (hs : headers s.code = []) (hn : s.className = name) :
    Reached [.keyword .class_, .identifier name] (classGoals.drop 3) s
  | stage (st : Stage) (goals : List Goal) (ws : List Lexeme) {s : Session}
    (hsteady : goals.all Goal.steady = true) (h : Promises goals ws st.Wants) (hs : st.Keeps s) :
    Reached (st.words ++ ws) (goals ++ st.below) s
  | header {c : ClassDec} {d : SubroutineDec} {s : Session} (hs : s.Has c) :
    Reached (c.openLexemes ++ d.headLexemes) (afterParameters d.role d.name) s
  | complete {c : ClassDec} {d : SubroutineDec} {locals : UInt16} {s : Session}
    (hn : locals.toNat = d.localCount) (hs : s.Awaits c d.name) :
    Reached (c.openLexemes ++ d.lexemes) (.due (.complete locals) :: .due (.leave .subroutineBody)
      :: .due (.leave .subroutineDec) :: .subroutineDecs :: classEnd) s
  | between {c : ClassDec} (ps : List Production) {s : Session} (hs : s.Has c) :
    Reached c.openLexemes (ps.map (fun p => .due (.leave p)) ++ .subroutineDecs :: classEnd) s
  | ending {c : ClassDec} {ws : List Lexeme} {goals : List Goal} {s : Session} (hs : s.Has c)
    (h : ws = [] ∧ goals = classEnd ∨ ws = [.symbol .rightBrace] ∧ goals <:+ classEnd.tail) :
    Reached (c.openLexemes ++ ws) goals s

/-- The next goal is met in a way that goes on, or the headers are those of the words. -/
structure Advances (ws : List Lexeme) (g : Goal) (goals : List Goal) (s : Session) : Prop where
  stuck : ∀ {c e}, g.meet c = .error e → HeadersAfter ws (headers s.code)
  next : ∀ {c step ks t}, g.meet c = .ok step → c.lexemes = ks ++ step.cursor.lexemes →
    s.performAll step.actions = (t, none) → Reached (ws ++ ks) (step.goals ++ goals) t
  failed : ∀ {c step ks us t e}, g.meet c = .ok step → c.lexemes = ks ++ step.cursor.lexemes →
    s.performAll step.actions = (t, some e) → us = [] ∨ us = ks →
    HeadersAfter (ws ++ us) (headers t.code)

section

variable {s : Session} {ws : List Lexeme} {g : Goal} {goals : List Goal}

/-- A goal whose actions can be performed whenever it can be met. -/
theorem Advances.of_performed
    (hstuck : ∀ {c e}, g.meet c = .error e → HeadersAfter ws (headers s.code))
    (h : ∀ {c step ks}, g.meet c = .ok step → c.lexemes = ks ++ step.cursor.lexemes →
      ∃ t, s.performAll step.actions = (t, none) ∧ Reached (ws ++ ks) (step.goals ++ goals) t) :
    Advances ws g goals s := by
  refine ⟨hstuck, ?_, ?_⟩
  · intro c step ks t hg hks hp
    obtain ⟨u, hu, hreached⟩ := h hg hks
    cases hu.symm.trans hp
    exact hreached
  · intro c step ks us t e hg hks hp
    obtain ⟨u, hu, -⟩ := h hg hks
    cases hu.symm.trans hp

/-- An action that is due and can be performed. -/
theorem Advances.of_due {a : Action} {t : Session} (hp : s.perform a = (t, none))
    (h : Reached ws goals t) : Advances ws (.due a) goals s := by
  apply Advances.of_performed
  · intro c e hg
    cases hg
  · intro c step ks hg hks
    cases hg
    obtain rfl : [] = ks := List.append_cancel_right hks
    refine ⟨t, by rw [Session.performAll_cons, hp]; rfl, ?_⟩
    rwa [List.append_nil]

/-- A word that has to come next. -/
theorem Advances.of_word {l : Lexeme}
    (hg : ∀ {c : Cursor} {step : Step}, g.meet c = .ok step → step.goals = []
      ∧ c.lexemes = l :: step.cursor.lexemes ∧ ∃ t, step.actions = [.take t])
    (hstuck : HeadersAfter ws (headers s.code))
    (h : ∀ t : Session, s.Extends t → Reached (ws ++ [l]) goals t) : Advances ws g goals s := by
  refine Advances.of_performed (fun _ => hstuck) ?_
  intro c step ks hmeet hks
  obtain ⟨hgoals, hlexemes, t, hactions⟩ := hg hmeet
  obtain rfl : [l] = ks := List.append_cancel_right (hlexemes.symm.trans hks)
  rw [hgoals, hactions]
  exact ⟨_, rfl, h _ (Session.Extends.perform (a := .take t) rfl s)⟩

theorem Advances.of_mark {p : Production} {m : Punctuation}
    (hstuck : HeadersAfter ws (headers s.code))
    (h : ∀ t : Session, s.Extends t → Reached (ws ++ [.symbol m]) goals t) :
    Advances ws (.mark p m) goals s := by
  refine .of_word ?_ hstuck h
  intro c step hmeet
  simp only [Goal.meet] at hmeet
  split at hmeet
  · rename_i t d hc
    cases hmeet
    exact ⟨rfl, Cursor.lexemes_of_read? hc, t, rfl⟩
  · cases hmeet

theorem advances_word (hs : headers s.code = []) :
    Advances [] .classWord (classGoals.drop 2) s := by
  refine .of_word ?_ ?_ ?_ (l := .keyword .class_)
  · intro c step hmeet
    simp only [Goal.meet] at hmeet
    split at hmeet
    · rename_i t d hc
      cases hmeet
      exact ⟨rfl, Cursor.lexemes_of_read? hc, t, rfl⟩
    · cases hmeet
  · rw [hs]
    exact .opening "A" rfl (List.cons_ne_nil _ _)
  · intro t ht
    exact .name (ht.headers_eq.trans hs)

theorem advances_name (hs : headers s.code = []) :
    Advances [.keyword .class_] .className (classGoals.drop 3) s := by
  apply Advances.of_performed
  · intro c e _
    rw [hs]
    exact .opening "A" rfl (List.cons_ne_nil _ _)
  · intro c step ks h hks
    simp only [Goal.meet] at h
    split at h
    · rename_i o d hc
      cases h
      rw [Cursor.lexemes_of_name? hc] at hks
      obtain rfl : [.identifier o.name] = ks := List.append_cancel_right hks
      exact ⟨_, rfl, .brace hs rfl⟩
    · cases h

theorem advances_brace {name : String} (hs : headers s.code = []) (hn : s.className = name) :
    Advances [.keyword .class_, .identifier name] (.mark .class_ .leftBrace) (classGoals.drop 4)
      s := by
  have hhas : s.Has ⟨name, [], []⟩ := ⟨hn, hs, by simp [ClassDec.LocalsFit]⟩
  apply Advances.of_mark
  · rw [hs]
    exact .opening name rfl (List.cons_ne_nil _ _)
  · intro t ht
    exact .stage (.declaring name) [] [] rfl (.of_nil_goals ⟨[], rfl⟩)
      (hhas.extends ht)

/-- Within a stage a step stays in the stage. -/
theorem Stage.advances {st : Stage} (hsteady : (g :: goals).all Goal.steady = true)
    (h : Promises (g :: goals) ws st.Wants) (hs : st.Keeps s) :
    Advances (st.words ++ ws) g (goals ++ st.below) s := by
  obtain ⟨hg, hgoals⟩ := Bool.and_eq_true_iff.1 hsteady
  refine ⟨?_, ?_, ?_⟩
  · intro c e _
    obtain ⟨ls, hls⟩ := h.exists_append
    exact st.headersAfter ls hls hs
  · intro c step ks t hmeet hks hp
    have hstep := Goal.steady_of_meet hg hmeet
    have ht := Session.Extends.performAll hstep.actions s
    rw [hp] at ht
    rw [List.append_assoc, ← List.append_assoc step.goals]
    refine .stage st _ _ ?_ (h.meet hmeet hks) (hs.extends ht)
    rw [List.all_append, hstep.goals, hgoals]
    rfl
  · intro c step ks us t e hmeet hks hp hus
    have ht := Session.Extends.performAll (Goal.steady_of_meet hg hmeet).actions s
    rw [hp] at ht
    rw [List.append_assoc]
    rcases hus with rfl | rfl
    · obtain ⟨ls, hls⟩ := h.exists_append
      rw [List.append_nil]
      exact st.headersAfter ls hls (hs.extends ht)
    · obtain ⟨ls, hls⟩ := (h.meet hmeet hks).exists_append
      exact st.headersAfter ls hls (hs.extends ht)

/-- Another declaration of the class begins, or its subroutines do. -/
theorem advances_declaring {name : String} {vs : List ClassVarDec} (hs : s.Has ⟨name, [], []⟩) :
    Advances ((Stage.declaring name).words ++ vs.flatMap ClassVarDec.lexemes) .classVarDecs
      (.subroutineDecs :: classEnd) s := by
  have hpromise : Promises [.classVarDecs] (vs.flatMap ClassVarDec.lexemes)
      (Stage.declaring name).Wants := by
    intro ls hls
    obtain ⟨ws, rfl⟩ := reads_singleton.1 hls
    exact ⟨vs ++ ws, List.flatMap_append.symm⟩
  have hclass : (Stage.declaring name).words ++ vs.flatMap ClassVarDec.lexemes
      = (ClassDec.mk name vs []).openLexemes := by
    simp [Stage.words, ClassDec.openLexemes]
  have hbetween : s.Has ⟨name, vs, []⟩ := ⟨hs.className, hs.headers, by simp [ClassDec.LocalsFit]⟩
  apply Advances.of_performed
  · intro c e h
    cases h
  · intro c step ks h hks
    have hmeet := hpromise.meet h hks
    have hstay : step = ⟨[], [], c⟩ → ∃ t, s.performAll step.actions = (t, none) ∧ Reached
        ((Stage.declaring name).words ++ vs.flatMap ClassVarDec.lexemes ++ ks)
        (step.goals ++ .subroutineDecs :: classEnd) t := by
      rintro rfl
      obtain rfl : [] = ks := List.append_cancel_right hks
      rw [List.append_nil, hclass]
      exact ⟨s, rfl, .between [] hbetween⟩
    simp only [Goal.meet, meetClassVarDecs, Except.ok.injEq] at h
    split at h
    · rename_i k u d hc
      split at h
      · subst h
        rw [List.append_assoc]
        have ht : s.Extends (s.performAll [.enter .classVarDec, .take u]).1 := .performAll rfl s
        refine ⟨_, rfl, .stage (.declaring name) [.typed (.ofClass _) 0] _ rfl ?_ (hs.extends ht)⟩
        intro ls hls
        exact hmeet ls ⟨ls, [], reads_singleton.1 hls, ⟨[], [], ⟨[], rfl⟩, rfl, rfl⟩,
          (List.append_nil ls).symm⟩
      · exact hstay h.symm
    · exact hstay h.symm

/-- Another subroutine begins, or the class ends. -/
theorem advances_between {c : ClassDec} (hs : s.Has c) :
    Advances c.openLexemes .subroutineDecs classEnd s := by
  apply Advances.of_performed
  · intro d e h
    cases h
  · intro d step ks h hks
    have hstay : step = ⟨[], [], d⟩ → ∃ t, s.performAll step.actions = (t, none) ∧ Reached
        (c.openLexemes ++ ks) (step.goals ++ classEnd) t := by
      rintro rfl
      obtain rfl : [] = ks := List.append_cancel_right hks
      exact ⟨s, rfl, .ending hs (Or.inl ⟨rfl, rfl⟩)⟩
    simp only [Goal.meet, meetSubroutineDecs, Except.ok.injEq] at h
    split at h
    · rename_i k u e hc
      split at h
      · rename_i role hrole
        subst h
        rw [Cursor.lexemes_of_keyword? hc] at hks
        obtain rfl : [.keyword k] = ks := List.append_cancel_right hks
        have hstage := Reached.stage (.naming c role) [.resultType] []
          (s := (({ s with scope := s.scope.startSubroutine }.note
            (.enter Production.subroutineDec.name)).moveTo u.position).note (.leaf u.lexeme)) rfl
          (fun ls hls => reads_singleton.1 hls) ⟨hs.className, hs.headers, hs.locals⟩
        rw [List.append_nil, Stage.words, Role.keyword_of_ofKeyword? hrole] at hstage
        exact ⟨_, rfl, hstage⟩
      · exact hstay h.symm
    · exact hstay h.symm

/-- The name of a subroutine, with the hidden parameter of a method. -/
theorem advances_naming {d : ClassDec} {role : Role} (h : (Stage.naming d role).Wants ws)
    (hs : s.Has d) : Advances ((Stage.naming d role).words ++ ws) (.subroutineName role)
      (.subroutineDecs :: classEnd) s := by
  obtain ⟨result, rfl⟩ := h
  have hsteady : ∀ (t : Token) (p : Position),
      (Action.take t :: if role = .method then [.declareThis p] else []).all Action.steady
        = true := by
    intro t p
    cases role <;> rfl
  refine ⟨?_, ?_, ?_⟩
  · intro c e _
    exact (Stage.naming d role).headersAfter [] ⟨result, rfl⟩ hs
  · intro c step ks t hg hks hp
    simp only [Goal.meet, meetSubroutineName] at hg
    split at hg
    · rename_i o e hc
      cases hg
      have ht := Session.Extends.performAll (hsteady o.token e.found.position) s
      rw [hp] at ht
      rw [Cursor.lexemes_of_name? hc] at hks
      obtain rfl : [.identifier o.name] = ks := List.append_cancel_right hks
      have hstage := Reached.stage (.parameters d role result o.name)
        [.mark .subroutineDec .leftParen, .due (.enter .parameterList), .parameters,
          .due (.leave .parameterList)] [] rfl ?_ (hs.extends ht)
      · rw [List.append_nil] at hstage
        simpa [Stage.words, Stage.below, afterParameters] using hstage
      · intro ls hls
        simp only [reads_mark_cons, reads_due_cons] at hls
        obtain ⟨_, ⟨_, _, ⟨ps, rfl⟩, hend, rfl⟩, rfl⟩ := hls
        obtain rfl := reads_due_cons.1 hend
        exact ⟨ps, by simp⟩
    · cases hg
  · intro c step ks us t e hg hks hp hus
    simp only [Goal.meet, meetSubroutineName] at hg
    split at hg
    · rename_i o f hc
      cases hg
      have ht := Session.Extends.performAll (hsteady o.token f.found.position) s
      rw [hp] at ht
      rw [Cursor.lexemes_of_name? hc] at hks
      obtain rfl : [.identifier o.name] = ks := List.append_cancel_right hks
      rcases hus with rfl | rfl
      · rw [List.append_nil]
        exact (Stage.naming d role).headersAfter [] ⟨result, rfl⟩ (hs.extends ht)
      · have hwants : (Stage.parameters d role result o.name).Wants ([] ++ [.symbol .leftParen]) :=
          ⟨[], rfl⟩
        have hafter := Stage.headersAfter _ _ hwants (hs.extends ht)
        simpa [Stage.words] using hafter
    · cases hg

/-- The end of the parameters of a subroutine. -/
theorem advances_parameters {c : ClassDec} {role : Role} {result : Option TypeName} {name : String}
    (h : (Stage.parameters c role result name).Wants ws) (hs : s.Has c) :
    Advances ((Stage.parameters c role result name).words ++ ws)
      (.mark .subroutineDec .rightParen) (afterParameters role name) s := by
  apply Advances.of_mark
  · refine Stage.headersAfter _ [] ?_ hs
    rwa [List.append_nil]
  · intro t ht
    obtain ⟨ps, rfl⟩ := h
    have hheader := Reached.header (d := ⟨role, result, name, ps, [], []⟩) (hs.extends ht)
    simpa [Stage.words, SubroutineDec.headLexemes] using hheader

/-- The header of a subroutine is emitted, and its slot is kept. -/
theorem advances_header {c : ClassDec} {d : SubroutineDec} (hs : s.Has c) :
    Advances (c.openLexemes ++ d.headLexemes) (.due (.header d.name))
      ((afterParameters d.role d.name).drop 1) s := by
  have hawaits : (s.header d.name).Awaits c d.name := by
    refine ⟨hs.className, hs.locals, s.code, [], ?_, hs.headers, .nil, ?_⟩
    · simp [Session.header, Listing.slot, Listing.header, Session.code, hs.className]
    · simp [Session.header, Listing.slot, Session.code, hs.className]
  refine Advances.of_due rfl ?_
  have hstage := Reached.stage (.body c d [.body d.role 0])
    [.due (.enter .subroutineBody), .mark .subroutineBody .leftBrace] [] rfl ?_ hawaits
  · rw [List.append_nil] at hstage
    exact hstage
  · intro ls hls
    obtain ⟨_, rfl, rfl⟩ := reads_mark_cons.1 (reads_due_cons.1 hls)
    obtain ⟨n, ks, hbody⟩ := Goal.exists_declares_body d.role 0
    refine ⟨⟨n, ks, .declaring hbody⟩, ?_⟩
    intro n ks hend
    cases hend with
    | declaring h =>
      obtain ⟨vars, body, rfl, rfl⟩ := h
      exact ⟨vars, body, rfl, by simp⟩

/-- A step that goes on with the body keeps what its goal wants. -/
theorem Step.InBody.promises {step : Step} {c : ClassDec} {d : SubroutineDec} {ks : List Lexeme}
    (h : step.InBody g ks) (hws : (Stage.body c d [g]).Wants ws) :
    ∃ front back, step.goals = front ++ back ∧ front.all Goal.steady = true
      ∧ Promises front (ws ++ ks) (Stage.body c d back).Wants := by
  obtain ⟨front, back, hgoals, hfront, hend, hpromise⟩ := h.goals
  refine ⟨front, back, hgoals, hfront, ?_⟩
  intro ms hms
  refine ⟨hend, ?_⟩
  intro n ls hls
  obtain ⟨vars, body, heq, hn⟩ := hws.2 n _ (.declaring (hpromise n ls hls ms hms))
  exact ⟨vars, body, by simpa using heq, hn⟩

/-- The body of a subroutine goes on with its declarations, or is over. -/
theorem advances_body {c : ClassDec} {d : SubroutineDec} {back : List Goal}
    (hback : back = g :: goals) (h : (Stage.body c d back).Wants ws) (hs : s.Awaits c d.name) :
    Advances ((Stage.body c d back).words ++ ws) g
      (goals ++ .due (.leave .subroutineDec) :: .subroutineDecs :: classEnd) s := by
  have hstuck : HeadersAfter ((Stage.body c d back).words ++ ws) (headers s.code) := by
    refine Stage.headersAfter _ [] ?_ hs
    rwa [List.append_nil]
  obtain ⟨n, ls, hend⟩ := h.1
  cases hend with
  | brace locals =>
    cases hback
    refine Advances.of_mark hstuck ?_
    intro t ht
    obtain ⟨vars, body, hws, hn⟩ := h.2 _ _ (.brace locals)
    have hcomplete := Reached.complete (d := { d with vars := vars, body := body }) hn
      (hs.extends ht)
    rw [SubroutineDec.lexemes_eq, ← hws] at hcomplete
    simpa [Stage.words, SubroutineDec.headLexemes] using hcomplete
  | declaring hg =>
    cases hback
    refine ⟨fun _ => hstuck, ?_, ?_⟩
    · intro cursor step ks t hmeet hks hp
      have hin := hg.inBody hmeet hks
      have ht := Session.Extends.performAll hin.actions s
      rw [hp] at ht
      obtain ⟨front, back, hgoals, hfront, hpromise⟩ := hin.promises h
      have hstage := Reached.stage (.body c d back) front _ hfront hpromise (hs.extends ht)
      rw [hgoals]
      simpa [Stage.words, Stage.below] using hstage
    · intro cursor step ks us t e hmeet hks hp hus
      have hin := hg.inBody hmeet hks
      have ht := Session.Extends.performAll hin.actions s
      rw [hp] at ht
      rw [List.append_assoc]
      rcases hus with rfl | rfl
      · refine Stage.headersAfter (.body c d [g]) [] ?_ (hs.extends ht)
        rwa [List.append_nil, List.append_nil]
      · obtain ⟨front, back, -, -, hpromise⟩ := hin.promises h
        obtain ⟨ms, hms⟩ := hpromise.exists_append
        exact Stage.headersAfter (.body c d back) ms hms (hs.extends ht)

/-- The number of locals is written into the header. -/
theorem advances_complete {c : ClassDec} {d : SubroutineDec} {locals : UInt16}
    (hn : locals.toNat = d.localCount) (hs : s.Awaits c d.name) :
    Advances (c.openLexemes ++ d.lexemes) (.due (.complete locals))
      (.due (.leave .subroutineBody) :: .due (.leave .subroutineDec) :: .subroutineDecs
        :: classEnd) s := by
  obtain ⟨before, after, hcode, hbefore, hafter, hslot⟩ := hs.header
  obtain ⟨t, ht, -, hclass, htcode⟩ := Session.complete_of_header hslot hcode locals
  refine Advances.of_due ht ?_
  have hheaders : headers t.code = c.headers ++ [d.header c.name d.localCount] := by
    rw [htcode, headers_append, hbefore, SubroutineDec.header, ← hn, UInt16.ofNat_toNat]
    exact congrArg _ (congrArg (List.cons _) hafter.headers)
  have hfits : d.localCount ≤ 65535 := by
    have hlt := locals.toNat_lt
    omega
  have hhas : t.Has { c with subroutines := c.subroutines ++ [d] } := by
    refine ⟨hclass.trans hs.className, ?_, ?_⟩
    · simpa [ClassDec.headers] using hheaders
    · intro e he
      rcases List.mem_append.1 he with he | he
      · exact hs.locals e he
      · obtain rfl := List.mem_singleton.1 he
        exact hfits
  have hbetween := Reached.between [.subroutineBody, .subroutineDec] hhas
  simpa [ClassDec.openLexemes] using hbetween

/-- The end of a class. -/
theorem advances_ending {c : ClassDec} (hs : s.Has c)
    (h : ws = [] ∧ g :: goals = classEnd
      ∨ ws = [.symbol .rightBrace] ∧ g :: goals <:+ classEnd.tail) :
    Advances (c.openLexemes ++ ws) g goals s := by
  have hbetween : HeadersAfter (c.openLexemes ++ ws) (headers s.code) := by
    rw [hs.headers]
    exact .between hs.locals (h.imp And.left And.left)
  rcases h with ⟨rfl, h⟩ | ⟨rfl, h⟩
  · cases h
    refine Advances.of_mark hbetween ?_
    intro t ht
    rw [List.append_assoc]
    exact .ending (hs.extends ht) (Or.inr ⟨rfl, List.suffix_refl _⟩)
  · rcases List.suffix_cons_iff.1 h with h | h
    · cases h
      have ht : s.Extends (s.perform (.leave .class_)).1 := .perform rfl s
      exact .of_due rfl (.ending (hs.extends ht) (Or.inr ⟨rfl, List.suffix_cons _ _⟩))
    · obtain ⟨hg, rfl⟩ : g = .endOfFile ∧ goals = [] := by
        rcases List.suffix_cons_iff.1 h with h | h
        · cases h
          exact ⟨rfl, rfl⟩
        · cases List.suffix_nil.1 h
      subst hg
      refine .of_performed (fun _ => hbetween) ?_
      intro d step ks hmeet hks
      simp only [Goal.meet] at hmeet
      split at hmeet
      · cases hmeet
        obtain rfl : [] = ks := List.append_cancel_right hks
        rw [List.append_nil]
        exact ⟨s, rfl, .ending hs (Or.inr ⟨rfl, List.nil_suffix⟩)⟩
      · cases hmeet

/-- Every goal of a class is met in a way that goes on. -/
theorem Reached.advances (h : Reached ws (g :: goals) s) : Advances ws g goals s := by
  generalize hall : g :: goals = all at h
  cases h with
  | start hs =>
    cases hall
    exact .of_due rfl (.word hs)
  | word hs =>
    cases hall
    exact advances_word hs
  | name hs =>
    cases hall
    exact advances_name hs
  | brace hs hn =>
    cases hall
    exact advances_brace hs hn
  | stage st front ws hsteady h hs =>
    cases front with
    | cons g front =>
      cases hall
      exact st.advances hsteady h hs
    | nil =>
      have hwants := h.of_nil
      cases st with
      | declaring name =>
        cases hall
        obtain ⟨vs, rfl⟩ := hwants
        exact advances_declaring hs
      | naming c role =>
        cases hall
        exact advances_naming hwants hs
      | parameters c role result name =>
        cases hall
        exact advances_parameters hwants hs
      | body c d back =>
        obtain ⟨n, ls, hend⟩ := hwants.1
        cases hend with
        | declaring hg =>
          cases hall
          exact advances_body rfl hwants hs
        | brace locals =>
          cases hall
          exact advances_body rfl hwants hs
  | header hs =>
    cases hall
    exact advances_header hs
  | complete hn hs =>
    cases hall
    exact advances_complete hn hs
  | between ps hs =>
    cases ps with
    | nil =>
      cases hall
      exact advances_between hs
    | cons p ps =>
      cases hall
      exact .of_due rfl (.between ps (hs.extends (.perform (a := .leave p) rfl s)))
  | ending hs h =>
    subst hall
    exact advances_ending hs h

theorem Reached.done (h : Reached ws [] s) : HeadersAfter ws (headers s.code) := by
  generalize hall : ([] : List Goal) = all at h
  cases h with
  | stage st front =>
    cases st with
    | body c d back => simp [Stage.below] at hall
    | _ => simp [Stage.below] at hall
  | @ending c ws goals s hs h =>
    rw [hs.headers]
    exact .between hs.locals (h.imp And.left And.left)
  | between ps => simp at hall
  | _ => cases hall

theorem BodyEnd.quiet {n : Nat} {ls : List Lexeme} (h : BodyEnd goals n ls) :
    goals.all Goal.quiet = true := by
  cases h with
  | brace locals => rfl
  | @declaring g n ls h =>
    cases g with
    | due a => cases h
    | _ => rfl

theorem Reached.quiet (h : Reached ws goals s) : goals.all Goal.quiet = true := by
  cases h with
  | start hs | word hs | name hs | brace hs hn | header hs | complete hn hs => rfl
  | between ps =>
    rw [List.all_append, Bool.and_eq_true_iff]
    refine ⟨List.all_eq_true.2 ?_, rfl⟩
    intro g hg
    obtain ⟨p, -, rfl⟩ := List.mem_map.1 hg
    rfl
  | @ending c ws goals s hs h =>
    have hsuffix : goals <:+ classEnd := by
      rcases h with ⟨-, rfl⟩ | ⟨-, h⟩
      · exact List.suffix_refl _
      · exact h.trans (List.tail_suffix _)
    exact List.all_eq_true.2 fun g hg => List.all_eq_true.1 (by rfl) g (hsuffix.subset hg)
  | stage st front ws hsteady h hs =>
    rw [List.all_append, Bool.and_eq_true_iff]
    refine ⟨List.all_eq_true.2 fun g hg =>
      Goal.quiet_of_steady (List.all_eq_true.1 hsteady g hg), ?_⟩
    cases st with
    | declaring name | naming c role | parameters c role result name => rfl
    | body c d back =>
      obtain ⟨ls, ⟨n, ks, hend⟩, -⟩ := h.exists_append
      rw [Stage.below, List.all_append, hend.quiet]
      rfl

/-- Whatever goals and words come, the headers are those of the words that were read. -/
theorem Session.headersAfter_performAll (h : Reached ws goals s) (c : Cursor) :
    HeadersAfter (ws ++ c.lexemes.take (s.consumed (Script.ofGoals goals c #[]).actions.toList))
      (headers (s.performAll (Script.ofGoals goals c #[]).actions.toList).1.code) :=
  Session.induction_on_script Reached (fun ws s => HeadersAfter ws (headers s.code))
    (fun h => h.quiet) (fun h => h.done) (fun h => h.advances.stuck)
    (fun h => h.advances.failed) (fun h => h.advances.next) h

end

/-- A header counts the locals of its own subroutine once that is complete, whatever other
subroutines are called, and has no locals before. The header to fill in is never missing. -/
theorem headers_count_locals {source : String} {stream : TokenStream}
    (hs : tokenize source = .ok stream) (outlined : Bool) :
    ∃ c, compilation source outlined = .ok c
      ∧ (∀ name offset, c.error? ≠ some (.missingHeader name offset))
      ∧ ∀ is, HeadersAfter (stream.wordsRead outlined) is ↔ headers c.session.code = is := by
  refine ⟨stream.compile outlined, by rw [compilation, hs], ?_, ?_⟩
  · intro name offset he
    obtain ⟨x, -, hx⟩ := TokenStream.exists_found_of_error he
    cases hx
  · have hafter := Session.headersAfter_performAll (.start (s := .initial outlined) rfl)
      ⟨stream.tokens, stream.finish, 0⟩
    have hsession : (stream.compile outlined).session
        = ((Session.initial outlined).performAll (Script.ofTokens stream).actions.toList).1 := by
      rw [TokenStream.compile, Script.compile]
      split
      · rename_i hp
        rw [hp]
      · rename_i hp
        rw [hp]
    intro is
    rw [TokenStream.wordsRead, hsession, List.map_take]
    constructor
    · exact hafter.unique
    · rintro rfl
      exact hafter

def twoFunctionsCalledAlike : String :=
  "class A\x7bfunction void f()\x7bvar int x;return;\x7d"
    ++ "function void f()\x7bvar int y,z;return w;"

theorem headers_of_functions_called_alike :
    ∃ stream c, tokenize twoFunctionsCalledAlike = .ok stream
      ∧ compilation twoFunctionsCalledAlike false = .ok c
      ∧ c.error? = some (.undefinedVariable .term "w" ⟨1, 82⟩)
      ∧ headers c.session.code = [.function "A.f" 1, .function "A.f" 0]
      ∧ HeadersAfter (stream.wordsRead false) [.function "A.f" 1, .function "A.f" 0] := by
  have hs : tokenize twoFunctionsCalledAlike = .ok
    ⟨[⟨.keyword .class_, ⟨1, 1⟩⟩, ⟨.identifier "A", ⟨1, 7⟩⟩, ⟨.symbol .leftBrace, ⟨1, 8⟩⟩,
      ⟨.keyword .function, ⟨1, 9⟩⟩, ⟨.keyword .void, ⟨1, 18⟩⟩, ⟨.identifier "f", ⟨1, 23⟩⟩,
      ⟨.symbol .leftParen, ⟨1, 24⟩⟩, ⟨.symbol .rightParen, ⟨1, 25⟩⟩,
      ⟨.symbol .leftBrace, ⟨1, 26⟩⟩, ⟨.keyword .var, ⟨1, 27⟩⟩, ⟨.keyword .int, ⟨1, 31⟩⟩,
      ⟨.identifier "x", ⟨1, 35⟩⟩, ⟨.symbol .semicolon, ⟨1, 36⟩⟩, ⟨.keyword .return_, ⟨1, 37⟩⟩,
      ⟨.symbol .semicolon, ⟨1, 43⟩⟩, ⟨.symbol .rightBrace, ⟨1, 44⟩⟩,
      ⟨.keyword .function, ⟨1, 45⟩⟩, ⟨.keyword .void, ⟨1, 54⟩⟩, ⟨.identifier "f", ⟨1, 59⟩⟩,
      ⟨.symbol .leftParen, ⟨1, 60⟩⟩, ⟨.symbol .rightParen, ⟨1, 61⟩⟩,
      ⟨.symbol .leftBrace, ⟨1, 62⟩⟩, ⟨.keyword .var, ⟨1, 63⟩⟩, ⟨.keyword .int, ⟨1, 67⟩⟩,
      ⟨.identifier "y", ⟨1, 71⟩⟩, ⟨.symbol .comma, ⟨1, 72⟩⟩, ⟨.identifier "z", ⟨1, 73⟩⟩,
      ⟨.symbol .semicolon, ⟨1, 74⟩⟩, ⟨.keyword .return_, ⟨1, 75⟩⟩, ⟨.identifier "w", ⟨1, 82⟩⟩,
      ⟨.symbol .semicolon, ⟨1, 83⟩⟩],
      ⟨1, 84⟩⟩ := by rfl
  obtain ⟨c, hc, -, hafter⟩ := headers_count_locals hs false
  have hcode : headers c.session.code = [.function "A.f" 1, .function "A.f" 0] := by
    rw [compilation, hs] at hc
    cases hc
    rfl
  refine ⟨_, c, hs, hc, ?_, hcode, (hafter _).2 hcode⟩
  rw [compilation, hs] at hc
  cases hc
  rfl

end Jack
