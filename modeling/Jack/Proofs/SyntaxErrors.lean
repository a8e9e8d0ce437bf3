import Jack.Proofs.Correctness
import Jack.Proofs.Lexing
import Jack.Proofs.Lookahead

/-! Where a text stops being the beginning of a class. A syntax error is about the first token that
no class has there, and what it says is expected can stand there. -/

namespace Jack

/-! ### Sentences and what goes on with them -/

/-- The words of a class, all of which can be written. -/
structure IsSentence (ls : List Lexeme) : Prop where
  spelled : ∃ c : ClassDec, c.lexemes = ls
  valid : ∀ l ∈ ls, l.Valid

/-- A word, or the end of the text, stands behind the words `before` in some sentence. -/
def CanFollow (before : List Lexeme) : Option Lexeme → Prop
  | some l => ∃ more, IsSentence (before ++ l :: more)
  | none => IsSentence before

/-- What an alternative stands for. -/
def Expectation.Covers : Expectation → Option Lexeme → Prop
  | .keyword k, w => w = some (.keyword k)
  | .symbol m, w => w = some (.symbol m)
  | .className, w => ∃ name, w = some (.identifier name)
  | .category c, w => Found.category ⟨w, .nowhere⟩ = c

/-- An alternative names a word that can be written, or the end of the text. -/
def Expectation.Names (x : Expectation) (w : Option Lexeme) : Prop :=
  x.Covers w ∧ ∀ l ∈ w, l.Valid

/-- What an error says that may stand where it is found. -/
def CompileError.expected : CompileError → List Expectation
  | .badSyntax _ _ expected => expected
  | .wrongCategory _ _ c => [.category c]
  | _ => []

/-! ### Goals that can be met -/

@[simp] theorem Lexeme.valid_zero : (Lexeme.integer 0).Valid := Nat.zero_le _

@[simp] theorem Lexeme.valid_name : (Lexeme.identifier "a").Valid := by
  refine ⟨⟨'a', [], rfl, rfl, List.all_eq_true.1 rfl⟩, fun k => ?_⟩
  cases k <;> decide

theorem Declaration.exists_continues (d : Declaration) :
    ∃ ls, d.Continues ls ∧ ∀ l ∈ ls, l.Valid := by
  cases d with
  | ofClass kind => exact ⟨_, ⟨[], rfl⟩, by simp [moreNameLexemes]⟩
  | parameter => exact ⟨_, ⟨[], rfl⟩, by simp⟩
  | locals role before start =>
    exact ⟨_, ⟨[], [], [], rfl⟩, by simp [moreNameLexemes, bodyLexemes, statementLexemes]⟩

/-- Every goal can be met with words that can be written. -/
theorem Goal.exists_reads (g : Goal) (rest : List Lexeme) :
    ∃ ls, g.Reads False rest ls ∧ ∀ l ∈ ls, l.Valid := by
  cases g with
  | due a | endOfFile => exact ⟨[], rfl, by simp⟩
  | mark p m => exact ⟨_, rfl, by simp⟩
  | classWord => exact ⟨_, rfl, by simp⟩
  | className => exact ⟨_, ⟨"a", rfl⟩, by simp⟩
  | classVarDecs => exact ⟨[], ⟨[], rfl⟩, by simp⟩
  | subroutineDecs => exact ⟨[], ⟨[], rfl⟩, by simp⟩
  | typed d count =>
    obtain ⟨more, hd, hmore⟩ := d.exists_continues
    exact ⟨_, ⟨.int, "a", more, hd, rfl⟩, by simpa [TypeName.lexeme] using hmore⟩
  | named d type count =>
    obtain ⟨more, hd, hmore⟩ := d.exists_continues
    exact ⟨_, ⟨"a", more, hd, rfl⟩, by simpa using hmore⟩
  | afterName d type count position => exact d.exists_continues
  | resultType => exact ⟨_, ⟨none, rfl⟩, by simp [resultLexeme]⟩
  | subroutineName role =>
    exact ⟨_, ⟨"a", [], [], [], rfl⟩, by simp [parameterLexemes, bodyLexemes, statementLexemes]⟩
  | parameters => exact ⟨[], ⟨[], rfl⟩, by simp⟩
  | counted role before count start | body role locals =>
    exact ⟨_, ⟨[], [], rfl⟩, by simp [bodyLexemes, statementLexemes]⟩
  | statements => exact ⟨[], ⟨[], rfl⟩, by simp⟩
  | letTarget =>
    exact ⟨_, ⟨.letVariable "a" (.term (.integer 0)), rfl⟩,
      by simp [Expression.lexemes, Term.lexemes]⟩
  | letValue target =>
    exact ⟨_, ⟨.letVariable target.name (.term (.integer 0)), rfl⟩,
      by simp [Expression.lexemes, Term.lexemes]⟩
  | otherwise => exact ⟨[], ⟨none, rfl⟩, by simp⟩
  | returned => exact ⟨[], ⟨.return_ none, rfl⟩, by simp⟩
  | term => exact ⟨_, ⟨.integer 0, False.elim, rfl⟩, by simp [Term.lexemes]⟩
  | operands waiting =>
    exact ⟨[], fun t _ => ⟨.term t, False.elim, by simp [Expression.lexemes]⟩, by simp⟩
  | call p => exact ⟨_, ⟨.own "a" [], rfl⟩, by simp [Call.lexemes, argumentLexemes]⟩
  | callee p first => exact ⟨_, ⟨.own first.name [], rfl⟩, by simp [argumentLexemes]⟩
  | member p owner => exact ⟨_, ⟨.member owner.name "a" [], rfl⟩, by simp [argumentLexemes]⟩
  | arguments p target => exact ⟨_, ⟨[], rfl⟩, by simp [argumentLexemes]⟩
  | moreArguments p target count position =>
    exact ⟨_, ⟨[], rfl⟩, by simp [moreArgumentLexemes]⟩

theorem exists_reads (goals : List Goal) :
    ∃ ls, Reads False [] goals ls ∧ ∀ l ∈ ls, l.Valid := by
  induction goals with
  | nil => exact ⟨[], rfl, by simp⟩
  | cons g goals ih =>
    obtain ⟨ms, hms, hvalid⟩ := ih
    obtain ⟨ks, hks, hkvalid⟩ := g.exists_reads (ms ++ [])
    exact ⟨ks ++ ms, ⟨ks, ms, hks, hms, rfl⟩, List.forall_mem_append.2 ⟨hkvalid, hvalid⟩⟩

/-! ### Goals that cannot be met -/

/-- The goal can be met with words that begin with this one. Only the last goal is met by the end of
the text. -/
def Goal.Begins (g : Goal) : Option Lexeme → Prop
  | some l => ∃ ls, (∀ k ∈ ls, k.Valid) ∧ ∀ rest, g.Reads False rest (l :: ls)
  | none => g = .endOfFile

/-- An alternative that is no empty word of the goal. -/
structure Goal.Offers (g : Goal) (x : Expectation) : Prop where
  named : ∃ w, x.Names w
  begins : ∀ w, x.Names w → g.Begins w

/-- An error is about the token in front of the goal, and says with what the goal can be met. -/
structure Goal.Refuses (g : Goal) (c : Cursor) (e : CompileError) : Prop where
  found : ∀ f, e.found? = some f → f = c.found
  offers : ∀ x ∈ e.expected, g.Offers x

section

variable {g : Goal} {c : Cursor} {p : Production}

theorem Goal.offers_symbol {m : Punctuation} (h : g.Begins (some (.symbol m))) :
    g.Offers (.symbol m) := by
  refine ⟨⟨some (.symbol m), rfl, by simp⟩, ?_⟩
  rintro _ ⟨rfl, -⟩
  exact h

theorem Goal.offers_keyword {k : Keyword} (h : g.Begins (some (.keyword k))) :
    g.Offers (.keyword k) := by
  refine ⟨⟨some (.keyword k), rfl, by simp⟩, ?_⟩
  rintro _ ⟨rfl, -⟩
  exact h

theorem Goal.offers_className (h : ∀ name, g.Begins (some (.identifier name))) :
    g.Offers .className := by
  refine ⟨⟨some (.identifier "a"), ⟨"a", rfl⟩, by simp⟩, ?_⟩
  rintro _ ⟨⟨name, rfl⟩, -⟩
  exact h name

theorem Goal.offers_identifier (h : ∀ name, g.Begins (some (.identifier name))) :
    g.Offers (.category .identifier) := by
  refine ⟨⟨some (.identifier "a"), rfl, by simp⟩, ?_⟩
  rintro w ⟨hw, -⟩
  cases w with
  | none => cases hw
  | some l =>
    cases l with
    | identifier name => exact h name
    | keyword k | symbol m | integer n | string text => cases hw

theorem Goal.offers_endOfFile : Goal.endOfFile.Offers (.category .endOfFile) := by
  refine ⟨⟨none, rfl, by simp⟩, ?_⟩
  rintro w ⟨hw, -⟩
  cases w with
  | none => rfl
  | some l => cases l <;> cases hw

theorem Goal.refuses_badSyntax {xs : List Expectation} (h : ∀ x ∈ xs, g.Offers x) :
    g.Refuses c (c.badSyntax p xs) :=
  ⟨fun _ hf => (Option.some.inj hf).symm, h⟩

theorem Goal.refuses_noName (h : ∀ name, g.Begins (some (.identifier name))) :
    g.Refuses c (c.noName p) :=
  ⟨fun _ hf => (Option.some.inj hf).symm, List.forall_mem_singleton.2 (Goal.offers_identifier h)⟩

theorem Goal.refuses_tooMany {x : Excess} {position : Position} :
    g.Refuses c (.tooMany p x position) :=
  ⟨nofun, by simp [CompileError.expected]⟩

theorem Goal.refuses_type {e : CompileError} (h : c.type p = .error e)
    (hg : ∀ type : TypeName, g.Begins (some type.lexeme)) : g.Refuses c e := by
  have hname : ∀ name, g.Begins (some (.identifier name)) := fun name => hg (.class_ name)
  unfold Cursor.type at h
  split at h
  · cases h
  · split at h
    · cases h
    · cases h
      refine Goal.refuses_badSyntax (List.forall_mem_cons.2 ⟨Goal.offers_keyword (hg .int), ?_⟩)
      refine List.forall_mem_cons.2 ⟨Goal.offers_keyword (hg .char), ?_⟩
      refine List.forall_mem_cons.2 ⟨Goal.offers_keyword (hg .boolean), ?_⟩
      exact List.forall_mem_singleton.2 (Goal.offers_className hname)
  · cases h
    exact Goal.refuses_noName hname

end

theorem Term.begins {l : Lexeme} {ls : List Lexeme} (t : Term) (h : t.lexemes = l :: ls)
    (hv : ∀ k ∈ ls, k.Valid) : Goal.term.Begins (some l) :=
  ⟨ls, hv, fun _ => ⟨t, False.elim, h.symm⟩⟩

/-- Every alternative that an error lists for a term begins one. -/
theorem offers_termStarts : ∀ x ∈ termStarts, Goal.term.Offers x := by
  have hconstant : ∀ word : KeywordConstant, Goal.term.Offers (.keyword word.keyword) :=
    fun word => Goal.offers_keyword (Term.begins (.constant word) rfl (by simp))
  have hunary : ∀ op : UnaryOp, Goal.term.Offers (.symbol op.mark) :=
    fun op => Goal.offers_symbol (Term.begins (.unary op (.integer 0)) rfl (by simp [Term.lexemes]))
  have hgroup : Goal.term.Offers (.symbol .leftParen) :=
    Goal.offers_symbol (Term.begins (.group (.term (.integer 0))) rfl
      (by simp [Expression.lexemes, Term.lexemes]))
  have hinteger : Goal.term.Offers (.category .integerConstant) := by
    refine ⟨⟨some (.integer 0), rfl, by simp⟩, ?_⟩
    rintro w ⟨hw, -⟩
    cases w with
    | none => cases hw
    | some l =>
      cases l with
      | integer n => exact Term.begins (.integer n) rfl (by simp)
      | keyword k | symbol m | string text | identifier name => cases hw
  have hstring : Goal.term.Offers (.category .stringConstant) := by
    refine ⟨⟨some (.string ""), rfl, by simp [Lexeme.Valid]⟩, ?_⟩
    rintro w ⟨hw, -⟩
    cases w with
    | none => cases hw
    | some l =>
      cases l with
      | string text => exact Term.begins (.string text) rfl (by simp)
      | keyword k | symbol m | integer n | identifier name => cases hw
  have hname : Goal.term.Offers (.category .identifier) :=
    Goal.offers_identifier fun name => Term.begins (.variable name) rfl (by simp)
  simp only [termStarts, List.forall_mem_cons]
  exact ⟨hinteger, hstring, hconstant .true_, hconstant .false_, hconstant .null, hconstant .this,
    hname, hgroup, hunary .negate, hunary .complement, List.forall_mem_nil _⟩

theorem refuses_meetTerm {c : Cursor} {e : CompileError} (h : meetTerm c = .error e) :
    Goal.term.Refuses c e := by
  unfold meetTerm at h
  split at h
  · cases h
    exact Goal.refuses_badSyntax offers_termStarts
  · split at h
    · cases h
    · cases h
    · cases h
    · split at h
      · cases h
      · cases h
        exact Goal.refuses_badSyntax offers_termStarts
    · split at h
      · cases h
      · split at h
        · cases h
        · cases h
          exact Goal.refuses_badSyntax offers_termStarts

theorem refuses_meetAfterName {c : Cursor} {d : Declaration} {type : String} {count : UInt16}
    {position : Position} {e : CompileError}
    (h : meetAfterName c d type count position = .error e) :
    (Goal.afterName d type count position).Refuses c e := by
  unfold meetAfterName at h
  split at h
  · cases h
    exact Goal.refuses_tooMany
  · split at h
    · split at h <;> cases h
    · split at h
      · cases h
      · rename_i hd
        split at h
        · cases h
        · cases h
          refine Goal.refuses_badSyntax (List.forall_mem_singleton.2 (Goal.offers_symbol ?_))
          cases d with
          | ofClass kind => exact ⟨[], by simp, fun _ => ⟨[], rfl⟩⟩
          | parameter => exact absurd rfl hd
          | locals role before start =>
            exact ⟨[.symbol .rightBrace], by simp, fun _ => ⟨[], [], [], rfl⟩⟩

/-- A goal that cannot be met refuses the token in front of it, and all that is said to be expected
can take the token's place. -/
theorem Goal.refuses_of_error {g : Goal} {c : Cursor} {e : CompileError}
    (h : g.meet c = .error e) : g.Refuses c e := by
  cases g with
  | due a | classVarDecs | subroutineDecs | body role locals | statements | letValue target
    | operands waiting | callee p first => cases h
  | mark p m =>
    rw [Goal.meet] at h
    split at h
    · cases h
    · cases h
      exact Goal.refuses_badSyntax (List.forall_mem_singleton.2
        (Goal.offers_symbol ⟨[], by simp, fun _ => rfl⟩))
  | classWord =>
    rw [Goal.meet] at h
    split at h
    · cases h
    · cases h
      exact Goal.refuses_badSyntax (List.forall_mem_singleton.2
        (Goal.offers_keyword ⟨[], by simp, fun _ => rfl⟩))
  | className =>
    rw [Goal.meet] at h
    split at h
    · cases h
    · cases h
      exact Goal.refuses_noName fun name => ⟨[], by simp, fun _ => ⟨name, rfl⟩⟩
  | endOfFile =>
    rw [Goal.meet] at h
    split at h
    · cases h
    · cases h
      exact Goal.refuses_badSyntax (List.forall_mem_singleton.2 Goal.offers_endOfFile)
  | typed d count =>
    obtain ⟨more, hd, hmore⟩ := d.exists_continues
    rw [Goal.meet] at h
    split at h
    · cases h
    · rename_i e' htype
      cases h
      refine Goal.refuses_type htype fun type => ⟨.identifier "a" :: more, by simpa using hmore, ?_⟩
      exact fun _ => ⟨type, "a", more, hd, rfl⟩
  | named d type count =>
    obtain ⟨more, hd, hmore⟩ := d.exists_continues
    rw [Goal.meet] at h
    split at h
    · cases h
    · cases h
      exact Goal.refuses_noName fun name => ⟨more, hmore, fun _ => ⟨name, more, hd, rfl⟩⟩
  | afterName d type count position => exact refuses_meetAfterName h
  | resultType =>
    rw [Goal.meet] at h
    split at h
    · cases h
    · split at h
      · cases h
      · rename_i e' htype
        cases h
        exact Goal.refuses_type htype fun type => ⟨[], by simp, fun _ => ⟨some type, rfl⟩⟩
  | subroutineName role =>
    rw [Goal.meet, meetSubroutineName] at h
    split at h
    · cases h
    · cases h
      exact Goal.refuses_noName fun name => ⟨[.symbol .leftParen, .symbol .rightParen,
        .symbol .leftBrace, .symbol .rightBrace], by simp, fun _ => ⟨name, [], [], [], rfl⟩⟩
  | parameters | returned | arguments p target =>
    rw [Goal.meet] at h
    split at h <;> cases h
  | counted role before count start =>
    rw [Goal.meet] at h
    split at h
    · cases h
    · cases h
      exact Goal.refuses_tooMany
  | letTarget =>
    rw [Goal.meet] at h
    split at h
    · cases h
    · cases h
      exact Goal.refuses_noName fun name => ⟨[.symbol .equal, .integer 0, .symbol .semicolon],
        by simp, fun _ => ⟨.letVariable name (.term (.integer 0)), rfl⟩⟩
  | otherwise =>
    rw [Goal.meet] at h
    split at h <;> cases h
  | term => exact refuses_meetTerm h
  | call p =>
    rw [Goal.meet] at h
    split at h
    · cases h
    · cases h
      exact Goal.refuses_noName fun name => ⟨[.symbol .leftParen, .symbol .rightParen], by simp,
        fun _ => ⟨.own name [], rfl⟩⟩
  | member p owner =>
    rw [Goal.meet] at h
    split at h
    · cases h
    · cases h
      exact Goal.refuses_noName fun name => ⟨[.symbol .leftParen, .symbol .rightParen], by simp,
        fun _ => ⟨.member owner.name name [], rfl⟩⟩
  | moreArguments p target count position =>
    rw [Goal.meet, meetMoreArguments] at h
    split at h
    · cases h
      exact Goal.refuses_tooMany
    · split at h <;> cases h

/-! ### Where recognition gets stuck -/

/-- The end of the file is the last goal, and only the last one. -/
def EndsOnce (goals : List Goal) : Prop :=
  ∃ front, goals = front ++ [.endOfFile] ∧ front.all Goal.inner = true

theorem endsOnce_classGoals : EndsOnce classGoals := ⟨classGoals.dropLast, rfl, rfl⟩

theorem EndsOnce.tail_eq_nil {goals : List Goal} (h : EndsOnce (.endOfFile :: goals)) :
    goals = [] := by
  obtain ⟨front, hfront, hinner⟩ := h
  cases front with
  | nil => exact (List.cons.inj hfront).2
  | cons g front =>
    obtain ⟨rfl, -⟩ := List.cons.inj hfront
    cases hinner

theorem EndsOnce.quiet_head {g : Goal} {goals : List Goal} (h : EndsOnce (g :: goals)) :
    g.quiet = true := by
  obtain ⟨front, hfront, hinner⟩ := h
  cases front with
  | nil =>
    obtain ⟨rfl, -⟩ := List.cons.inj hfront
    rfl
  | cons f front =>
    obtain ⟨rfl, -⟩ := List.cons.inj hfront
    exact Goal.quiet_of_inner (Bool.and_eq_true_iff.1 hinner).1

/-- Goals that take the place of the topmost one leave the end where it is. -/
theorem EndsOnce.of_meet {g : Goal} {goals : List Goal} {c : Cursor} {s : Step}
    (h : EndsOnce (g :: goals)) (hg : g.meet c = .ok s) :
    s.goals ++ goals = [] ∨ EndsOnce (s.goals ++ goals) := by
  have hnew := (Goal.rest_of_meet h.quiet_head hg).2.2
  obtain ⟨front, hfront, hinner⟩ := h
  cases front with
  | nil =>
    obtain ⟨rfl, rfl⟩ := List.cons.inj hfront
    rw [Goal.meet] at hg
    split at hg
    · cases hg
      exact Or.inl rfl
    · cases hg
  | cons f front =>
    obtain ⟨rfl, rfl⟩ := List.cons.inj hfront
    refine Or.inr ⟨s.goals ++ front, (List.append_assoc _ _ _).symm, ?_⟩
    rw [List.all_append, Bool.and_eq_true]
    exact ⟨hnew, (Bool.and_eq_true_iff.1 hinner).2⟩

/-- Recognition that ends in a fault is stuck at a goal. Words that meet this goal and those below
it go on from the words read so far. -/
theorem Script.exists_stuck {goals : List Goal} {c : Cursor} {e : CompileError}
    (hgoals : EndsOnce goals) (h : (ofGoals goals c #[]).fault? = some e) :
    ∃ g more ws, g.meet (ofGoals goals c #[]).cursor = .error e ∧ EndsOnce (g :: more)
      ∧ c.lexemes = ws ++ (ofGoals goals c #[]).cursor.lexemes
      ∧ ∀ rest ls, Reads False rest (g :: more) ls → Reads False rest goals (ws ++ ls) := by
  induction goals, c using induction_on_meet with
  | nil c =>
    rw [ofGoals_nil] at h
    cases h
  | error g goals c e' hg =>
    rw [ofGoals_cons_of_error hg] at h ⊢
    obtain rfl : e' = e := Option.some.inj h
    exact ⟨g, goals, [], hg, hgoals, rfl, fun _ _ hr => hr⟩
  | ok g goals c s hg ih =>
    have hnext := hgoals.of_meet hg
    obtain ⟨ks, hks, hreads⟩ : s.Reads False c g := Goal.reads_of_meet hg
    obtain ⟨actions, news, d⟩ := s
    obtain ⟨-, hcursor, hfault⟩ := ofGoals_of_meet hg goals
    rw [hfault] at h
    rcases hnext with hnil | hends
    · rw [hnil, ofGoals_nil] at h
      cases h
    · obtain ⟨g', more, ws, herror, hends', hlexemes, hrest⟩ := ih hends h
      rw [hcursor]
      refine ⟨g', more, ks ++ ws, herror, hends', ?_, fun rest ls hr => ?_⟩
      · rw [hks, hlexemes, List.append_assoc]
      · obtain ⟨ms, ns, hm, hn, hsplit⟩ := reads_append.1 (hrest rest ls hr)
        refine ⟨ks ++ ms, ns, hreads ms _ hm False.elim, hn, ?_⟩
        rw [List.append_assoc, hsplit, List.append_assoc]

/-! ### Errors that are not about a token -/

theorem Session.found?_of_define {s t : Session} {p : Production} {name type : String} {kind : Kind}
    {position : Position} {e : CompileError}
    (h : s.define p name type kind position = (t, some e)) : e.found? = none := by
  unfold Session.define at h
  split at h <;> cases h
  rfl

theorem Session.found?_of_resolve {s t : Session} {p : Production} {o : Occurrence}
    {next : Session → Variable → Session} {e : CompileError}
    (h : s.resolve p o next = (t, some e)) : e.found? = none := by
  unfold Session.resolve at h
  split at h <;> cases h
  rfl

/-- No action fails because of a token. -/
theorem Session.found?_of_perform {s t : Session} {a : Action} {e : CompileError}
    (h : s.perform a = (t, some e)) : e.found? = none := by
  cases a with
  | declare p o type kind =>
    rw [Session.perform] at h
    split at h
    · cases h
    · rename_i hd
      cases h
      exact Session.found?_of_define hd
  | declareThis position => exact Session.found?_of_define h
  | require p o | load p o | store p o =>
    rw [Session.perform] at h
    exact Session.found?_of_resolve h
  | mentionFirst o | loadReceiver o =>
    rw [Session.perform] at h
    split at h <;> cases h
  | call p callee args =>
    rw [Session.perform, Session.call] at h
    split at h
    split at h <;> cases h
    rfl
  | complete locals =>
    rw [Session.perform] at h
    unfold Session.complete at h
    split at h
    · split at h <;> cases h
      rfl
    · cases h
  | enter p | leave p | take t | nameClass name | startSubroutine | mention o | emit code
    | emitAt p code | header name | preamble role => cases h

theorem Session.found?_of_performAll {s t : Session} {actions : List Action} {e : CompileError}
    (h : s.performAll actions = (t, some e)) : e.found? = none := by
  induction actions generalizing s with
  | nil => cases h
  | cons a rest ih =>
    rw [Session.performAll_cons] at h
    cases hp : s.perform a with
    | mk u error? =>
      rw [hp] at h
      cases error? with
      | none => exact ih h
      | some e' =>
        cases h
        exact Session.found?_of_perform hp

theorem CompileError.found?_relocate (f : Position → Position) (e : CompileError) :
    (e.relocate f).found? = e.found?.map (Found.relocate f) := by
  cases e <;> rfl

/-- The words of a class are never refused for a token. -/
theorem TokenStream.found?_of_lexemes {stream : TokenStream} {c : ClassDec} {outlined : Bool}
    {e : CompileError} (hc : c.lexemes = stream.tokens.map Token.lexeme)
    (he : (stream.compile outlined).error? = some e) : e.found? = none := by
  have hl := c.leadsTo
  rw [hc, ← Script.relocate_ofTokens] at hl
  have hfault : ∀ e', (Script.ofTokens stream).fault? = some e' → e'.found? = none := by
    intro e' he'
    by_cases hcount : c.Countable
    · have heq := congrArg Script.fault? (hl.eq hcount)
      simp [Script.relocate, he'] at heq
    · obtain ⟨e'', he'', hfound⟩ := hl.fault hcount
      simp only [Script.relocate, he', Option.map_some, Option.some.injEq] at he''
      rw [← he'', CompileError.found?_relocate] at hfound
      exact Option.map_eq_none_iff.1 hfound
  rw [TokenStream.compile, Script.compile] at he
  split at he
  · rename_i hp
    cases he
    exact Session.found?_of_performAll hp
  · exact hfault e he

theorem exists_stream_of_found {source : String} {outlined : Bool} {e : CompileError}
    {found : Found} (h : compile source outlined = .error e) (hf : e.found? = some found) :
    ∃ stream, tokenize source = .ok stream ∧ (stream.compile outlined).error? = some e := by
  rw [compile, compilation] at h
  cases hs : tokenize source with
  | error e' =>
    rw [hs] at h
    cases h
    cases hf
  | ok stream =>
    rw [hs] at h
    refine ⟨stream, rfl, ?_⟩
    simp only [Compilation.result] at h
    split at h
    · rename_i e' he'
      rw [he', Except.error.inj h]
    · cases h

/-- An error about a token is the fault of the recognition. -/
theorem TokenStream.fault_of_found {stream : TokenStream} {outlined : Bool} {e : CompileError}
    {found : Found} (he : (stream.compile outlined).error? = some e) (hf : e.found? = some found) :
    ((Session.initial outlined).performAll (Script.ofTokens stream).actions.toList).2 = none
      ∧ (Script.ofTokens stream).fault? = some e := by
  rw [TokenStream.compile, Script.compile] at he
  cases hp : (Session.initial outlined).performAll (Script.ofTokens stream).actions.toList with
  | mk s error? =>
    rw [hp] at he
    cases error? with
    | none => exact ⟨rfl, he⟩
    | some e' =>
      obtain rfl : e' = e := Option.some.inj he
      rw [Session.found?_of_performAll hp] at hf
      cases hf

/-! ### The first token that fits no class -/

/-- The words read before the compilation stops. -/
def TokenStream.wordsRead (stream : TokenStream) (outlined : Bool) : List Lexeme :=
  (stream.tokens.take (stream.stop outlined)).map Token.lexeme

theorem TokenStream.take_founds (front rest : List Token) (t : Token) (finish : Position) :
    (TokenStream.founds ⟨front ++ t :: rest, finish⟩).take (front.length + 1)
      = front.map Token.found ++ [t.found] := by
  have hfounds : TokenStream.founds ⟨front ++ t :: rest, finish⟩
      = (front.map Token.found ++ [t.found]) ++ (rest.map Token.found ++ [⟨none, finish⟩]) := by
    simp [TokenStream.founds]
  rw [hfounds]
  exact List.take_left' (by simp)

/-- No class goes on with the token that an error is about. -/
theorem not_canFollow {stream : TokenStream} {outlined : Bool} {e : CompileError} {found : Found}
    (he : (stream.compile outlined).error? = some e) (hf : e.found? = some found)
    {front : List Token} {c : Cursor} (hfront : stream.tokens = front ++ c.rest)
    (hlength : front.length = stream.stop outlined) :
    ¬CanFollow (front.map Token.lexeme) c.found.lexeme? := by
  have hclass : ∀ other : TokenStream, other.compile outlined = stream.compile outlined →
      ∀ d : ClassDec, d.lexemes ≠ other.tokens.map Token.lexeme := by
    intro other heq d hd
    rw [← heq] at he
    rw [TokenStream.found?_of_lexemes hd he] at hf
    cases hf
  obtain ⟨rest, finish, constructs⟩ := c
  obtain ⟨tokens, last⟩ := stream
  obtain rfl : tokens = front ++ rest := hfront
  cases rest with
  | nil =>
    rintro ⟨⟨d, hd⟩, -⟩
    exact hclass _ rfl d (by rw [hd, List.append_nil])
  | cons t rest =>
    -- the tokens up to here, and then the words that the class goes on with
    rintro ⟨more, ⟨d, hd⟩, -⟩
    have hother := @TokenStream.compile_eq_of_agree ⟨front ++ t :: rest, last⟩
      ⟨front ++ t :: more.map fun l => ⟨l, .nowhere⟩, last⟩ outlined
      (by rw [← hlength, TokenStream.take_founds, TokenStream.take_founds])
    apply hclass _ hother d
    rw [hd]
    simp [Function.comp_def]

/-- What a goal offers can stand where recognition is stuck at it. -/
theorem canFollow_of_offers {before : List Lexeme} {g : Goal} {more : List Goal}
    (hends : EndsOnce (g :: more))
    (hgo : ∀ ls, Reads False [] (g :: more) ls → (∀ l ∈ ls, l.Valid) → IsSentence (before ++ ls))
    {x : Expectation} (hx : g.Offers x) {w : Option Lexeme} (hw : x.Names w) :
    CanFollow before w := by
  have hbegins := hx.begins w hw
  cases w with
  | none =>
    obtain rfl : g = .endOfFile := hbegins
    obtain rfl := hends.tail_eq_nil
    have hsentence := hgo [] ⟨[], [], rfl, rfl, rfl⟩ (by simp)
    rwa [List.append_nil] at hsentence
  | some l =>
    obtain ⟨ls, hls, hread⟩ := hbegins
    obtain ⟨ms, hms, hvalid⟩ := exists_reads more
    refine ⟨ls ++ ms, hgo (l :: ls ++ ms) ⟨l :: ls, ms, hread _, hms, rfl⟩ ?_⟩
    exact List.forall_mem_cons.2 ⟨hw.2 l rfl, List.forall_mem_append.2 ⟨hls, hvalid⟩⟩

theorem TokenStream.getElem?_founds {stream : TokenStream} {front : List Token} {c : Cursor}
    (hfront : stream.tokens = front ++ c.rest) (hfinish : c.finish = stream.finish) :
    stream.founds[front.length]? = some c.found := by
  obtain ⟨rest, finish, constructs⟩ := c
  obtain ⟨tokens, last⟩ := stream
  obtain rfl : tokens = front ++ rest := hfront
  obtain rfl : finish = last := hfinish
  cases rest with
  | nil => simp [TokenStream.founds, Cursor.found]
  | cons t rest => simp [TokenStream.founds, Cursor.found]

/-- A syntax error is about the first token that no class has there: the tokens before it begin a
class, and with it they do not. Every alternative that the error lists can stand in its place. -/
theorem syntax_error_at_first_wrong_token {source : String} {outlined : Bool} {e : CompileError}
    {found : Found} (h : compile source outlined = .error e) (hf : e.found? = some found) :
    ∃ stream, tokenize source = .ok stream
      ∧ stream.founds[stream.stop outlined]? = some found
      ∧ (∃ more, IsSentence (stream.wordsRead outlined ++ more))
      ∧ ¬CanFollow (stream.wordsRead outlined) found.lexeme?
      ∧ ∀ x ∈ e.expected, (∃ w, x.Names w)
        ∧ ∀ w, x.Names w → CanFollow (stream.wordsRead outlined) w := by
  obtain ⟨stream, hs, he⟩ := exists_stream_of_found h hf
  obtain ⟨hperformed, hfault⟩ := TokenStream.fault_of_found he hf
  obtain ⟨⟨front, hfront, hlength⟩, hfinish⟩ := TokenStream.rest_stop hperformed
  have hread : stream.wordsRead outlined = front.map Token.lexeme := by
    rw [TokenStream.wordsRead, hfront, List.take_left' hlength]
  obtain ⟨g, more, ws, herror, hends, hlexemes, hreads⟩ :=
    Script.exists_stuck endsOnce_classGoals hfault
  have hrefuses := Goal.refuses_of_error herror
  obtain rfl : found = (Script.ofTokens stream).cursor.found := hrefuses.found found hf
  obtain rfl : front.map Token.lexeme = ws := by
    have hsplit : stream.tokens.map Token.lexeme = ws ++ (Script.ofTokens stream).cursor.lexemes :=
      hlexemes
    rw [hfront, List.map_append] at hsplit
    exact List.append_cancel_right hsplit
  have hvalid : ∀ l ∈ front.map Token.lexeme, l.Valid := by
    intro l hl
    apply valid_of_tokenize hs
    rw [hfront, List.map_append]
    exact List.mem_append_left _ hl
  -- the class that the tokens before begin
  have hgo : ∀ ls, Reads False [] (g :: more) ls → (∀ l ∈ ls, l.Valid) →
      IsSentence (front.map Token.lexeme ++ ls) := by
    intro ls hr hls
    obtain ⟨c, hc⟩ := exists_classDec_of_reads (hreads [] ls hr)
    exact ⟨⟨c, hc.symm⟩, List.forall_mem_append.2 ⟨hvalid, hls⟩⟩
  rw [← hread] at hgo
  refine ⟨stream, hs, ?_, ?_, hread ▸ not_canFollow he hf hfront hlength, fun x hx => ?_⟩
  · rw [← hlength]
    exact TokenStream.getElem?_founds hfront hfinish
  · obtain ⟨ls, hr, hls⟩ := exists_reads (g :: more)
    exact ⟨ls, hgo ls hr hls⟩
  · have hoffers := hrefuses.offers x hx
    exact ⟨hoffers.named, fun w hw => canFollow_of_offers hends hgo hoffers hw⟩

theorem type_is_first_wrong_token :
    CanFollow [.keyword .class_, .identifier "A", .symbol .leftBrace] (some (.symbol .rightBrace))
      ∧ ¬CanFollow [.keyword .class_, .identifier "A", .symbol .leftBrace]
        (some (.keyword .int)) := by
  have hs : tokenize "class A\x7bint" = .ok ⟨[⟨.keyword .class_, ⟨1, 1⟩⟩, ⟨.identifier "A", ⟨1, 7⟩⟩,
      ⟨.symbol .leftBrace, ⟨1, 8⟩⟩, ⟨.keyword .int, ⟨1, 9⟩⟩], ⟨1, 12⟩⟩ := by rfl
  have h : compile "class A\x7bint" false = .error (.badSyntax .class_
      ⟨some (.keyword .int), ⟨1, 9⟩⟩ [.symbol .rightBrace]) := by rfl
  obtain ⟨stream, hstream, -, -, hwrong, hexpected⟩ := syntax_error_at_first_wrong_token h rfl
  obtain rfl := Except.ok.inj (hs.symm.trans hstream)
  exact ⟨(hexpected (.symbol .rightBrace) List.mem_cons_self).2 _ ⟨rfl, by simp⟩, hwrong⟩

end Jack
