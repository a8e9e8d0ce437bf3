import Jack.Proofs.Acceptance
import Jack.Proofs.Derivation
import Jack.Proofs.Tokens

/-! Compiling a text succeeds just when its tokens are a class whose names are declared and whose
numbers fit 16 bits, and then gives the translation of the class. -/

namespace Jack

/-- A place that is no place, for every place. -/
def noPlace : Position → Position := fun _ => .nowhere

theorem Cursor.relocate_noPlace (c : Cursor) :
    c.relocate noPlace = .before c.lexemes c.constructs := by
  simp only [Cursor.relocate, Cursor.before, Cursor.lexemes, noPlace, List.map_map]
  rfl

theorem Script.relocate_ofTokens (stream : TokenStream) :
    (ofTokens stream).relocate noPlace
      = ofWords classGoals (stream.tokens.map Token.lexeme) 0 [] := by
  have hgoals : classGoals.map (Goal.relocate noPlace) = classGoals := rfl
  rw [ofTokens, ofWords, ← ofGoals_relocate, Cursor.relocate_noPlace, hgoals, Array.map_empty]
  rfl

theorem Session.relocate_initial (outlined : Bool) :
    (Session.initial outlined).relocate noPlace = Session.initial outlined := by
  simp [Session.relocate, Session.initial, Listing.relocate, Listing.empty, noPlace]

@[simp] theorem Session.code_relocate (f : Position → Position) (s : Session) :
    (s.relocate f).code = s.code := by
  simp [Session.code, Session.relocate, Listing.relocate, Emitted.relocate]

/-- A script that asks for the actions of a class, wherever they stand. -/
theorem Script.compile_of_actions {script : Script} {c : ClassDec} (hc : c.Countable)
    (hs : script.actions.toList.map (Action.relocate noPlace) = c.actions)
    (hf : script.fault? = none) (outlined : Bool) :
    ((script.compile outlined).error? = none ↔ c.Accepted)
      ∧ (c.Accepted → (script.compile outlined).session.code = c.code) := by
  have hrun := Session.performAll_relocate noPlace (.initial outlined) script.actions.toList
  rw [Session.relocate_initial, hs] at hrun
  have ha := ClassDec.attains hc outlined
  rw [Script.compile]
  cases hp : (Session.initial outlined).performAll script.actions.toList with
  | mk s e? =>
    rw [hp] at hrun
    cases e? with
    | none =>
      by_cases hacc : c.Accepted
      · obtain ⟨t, ht, -, hcode⟩ := ha.ok hacc
        rw [ht] at hrun
        obtain ⟨rfl, -⟩ := Prod.mk.inj hrun
        rw [Session.code_relocate] at hcode
        exact ⟨⟨fun _ => hacc, fun _ => hf⟩, fun _ => hcode⟩
      · have he := ha.error hacc
        rw [hrun] at he
        exact absurd rfl he
    | some e =>
      have hacc : ¬c.Accepted := by
        intro hacc
        obtain ⟨t, ht, -⟩ := ha.ok hacc
        rw [ht] at hrun
        cases (Prod.mk.inj hrun).2
      exact ⟨⟨fun he => absurd he (Option.some_ne_none e), fun h => absurd h hacc⟩,
        fun h => absurd h hacc⟩

/-- The script of the tokens of a class asks for the actions of the class. -/
theorem TokenStream.actions_of_lexemes {stream : TokenStream} {c : ClassDec}
    (h : c.lexemes = stream.tokens.map Token.lexeme) (hc : c.Countable) :
    (Script.ofTokens stream).actions.toList.map (Action.relocate noPlace) = c.actions
      ∧ (Script.ofTokens stream).fault? = none := by
  have hl := c.leadsTo
  rw [h, ← Script.relocate_ofTokens] at hl
  have heq := hl.eq hc
  have hs := congrArg (fun s => s.actions.toList) heq
  have hf := congrArg Script.fault? heq
  exact ⟨by simpa [Script.relocate] using hs, Option.map_eq_none_iff.1 hf⟩

/-- The tokens of a class compile just when the class is accepted, and then to its translation. -/
theorem TokenStream.compile_of_lexemes {stream : TokenStream} {c : ClassDec}
    (h : c.lexemes = stream.tokens.map Token.lexeme) (outlined : Bool) :
    ((stream.compile outlined).error? = none ↔ c.Accepted)
      ∧ (c.Accepted → (stream.compile outlined).session.code = c.code) := by
  by_cases hc : c.Countable
  · obtain ⟨hs, hf⟩ := TokenStream.actions_of_lexemes h hc
    exact Script.compile_of_actions hc hs hf outlined
  · have hacc : ¬c.Accepted := fun ha => hc ha.countable
    have hfault : (stream.compile outlined).error? ≠ none := by
      have hne : (Script.ofTokens stream).fault? ≠ none := by
        have hl := c.leadsTo
        rw [h, ← Script.relocate_ofTokens] at hl
        intro hnone
        obtain ⟨e, he, -⟩ := hl.fault hc
        simp [Script.relocate, hnone] at he
      rw [TokenStream.compile, Script.compile]
      split
      · exact Option.some_ne_none _
      · exact hne
    exact ⟨⟨fun he => absurd he hfault, fun ha => absurd ha hacc⟩, fun ha => absurd ha hacc⟩

/-- A session that has compiled the tokens of a class has performed the actions of the class. -/
theorem TokenStream.performAll_of_lexemes {stream : TokenStream} {c : ClassDec} {outlined : Bool}
    (h : c.lexemes = stream.tokens.map Token.lexeme)
    (he : (stream.compile outlined).error? = none) :
    (Session.initial outlined).performAll c.actions
      = ((stream.compile outlined).session.relocate noPlace, none) := by
  have hacc := (TokenStream.compile_of_lexemes h outlined).1.1 he
  have hrun := Session.performAll_relocate noPlace (.initial outlined)
    (Script.ofTokens stream).actions.toList
  rw [Session.relocate_initial, (TokenStream.actions_of_lexemes h hacc.countable).1] at hrun
  rw [TokenStream.compile, Script.compile] at he ⊢
  cases hp : (Session.initial outlined).performAll (Script.ofTokens stream).actions.toList with
  | mk s e? =>
    rw [hp] at hrun he
    cases e? with
    | none => exact hrun
    | some e => cases he

theorem not_mem_lexemes {source : String} {stream : TokenStream} {c : ClassDec}
    (h : tokenize source = .ok stream) (hc : c.lexemes = stream.tokens.map Token.lexeme) :
    .identifier thisName ∉ c.lexemes := by
  intro hmem
  rw [hc] at hmem
  obtain ⟨t, ht, hthis⟩ := List.mem_map.1 hmem
  exact forall_mem_tokens lexed_not_reserved h t ht .this hthis

/-- Tokens that compile without an error are the words of an accepted class. -/
theorem TokenStream.exists_classDec {stream : TokenStream} {outlined : Bool}
    (h : (stream.compile outlined).error? = none) :
    ∃ c : ClassDec, c.lexemes = stream.tokens.map Token.lexeme ∧ c.Accepted := by
  have hf : (Script.ofTokens stream).fault? = none := by
    rw [TokenStream.compile, Script.compile] at h
    split at h
    · exact absurd h (Option.some_ne_none _)
    · exact h
  obtain ⟨c, hc⟩ := Script.exists_classDec hf
  exact ⟨c, hc, (TokenStream.compile_of_lexemes hc outlined).1.1 h⟩

theorem Compilation.result_eq_ok_iff {c : Compilation} {result : CompiledClass} :
    c.result = .ok result
      ↔ c.error? = none ∧ result = ⟨c.session.className, c.instructions, c.outline?⟩ := by
  rw [Compilation.result]
  cases he : c.error? with
  | none =>
    constructor
    · intro hr
      cases hr
      exact ⟨rfl, rfl⟩
    · rintro ⟨-, rfl⟩
      rfl
  | some e =>
    constructor
    · intro hr
      cases hr
    · rintro ⟨hr, -⟩
      cases hr

theorem compile_eq_ok_iff {source : String} {stream : TokenStream} {outlined : Bool}
    {result : CompiledClass} (h : tokenize source = .ok stream) :
    compile source outlined = .ok result
      ↔ (stream.compile outlined).error? = none
        ∧ result = ⟨(stream.compile outlined).session.className,
          (stream.compile outlined).instructions, (stream.compile outlined).outline?⟩ := by
  rw [compile, compilation, h]
  exact Compilation.result_eq_ok_iff

/-- A text whose tokens can be read compiles if and only if they are the words of a class of the
grammar that declares the names it uses and keeps its numbers within 16 bits. -/
theorem compile_succeeds_iff {source : String} {stream : TokenStream}
    (h : tokenize source = .ok stream) (outlined : Bool) :
    (∃ result, compile source outlined = .ok result)
      ↔ ∃ c : ClassDec, c.lexemes = stream.tokens.map Token.lexeme ∧ c.WellFormed := by
  constructor
  · rintro ⟨result, hr⟩
    obtain ⟨c, hc, hacc⟩ := TokenStream.exists_classDec ((compile_eq_ok_iff h).1 hr).1
    exact ⟨c, hc, (ClassDec.wellFormed_iff (not_mem_lexemes h hc)).2 hacc⟩
  · rintro ⟨c, hc, hw⟩
    have hacc := (ClassDec.wellFormed_iff (not_mem_lexemes h hc)).1 hw
    have he := (TokenStream.compile_of_lexemes hc outlined).1.2 hacc
    exact ⟨_, (compile_eq_ok_iff h).2 ⟨he, rfl⟩⟩

/-- A function that returns a name that nothing declares. -/
theorem undeclared_name_not_wellFormed :
    ¬∃ c : ClassDec, c.lexemes = [.keyword .class_, .identifier "A", .symbol .leftBrace,
        .keyword .function, .keyword .int, .identifier "f", .symbol .leftParen,
        .symbol .rightParen, .symbol .leftBrace, .keyword .return_, .identifier "x",
        .symbol .semicolon, .symbol .rightBrace, .symbol .rightBrace] ∧ c.WellFormed := by
  have h : tokenize "class A{function int f(){return x;}}" = .ok ⟨[⟨.keyword .class_, ⟨1, 1⟩⟩,
      ⟨.identifier "A", ⟨1, 7⟩⟩, ⟨.symbol .leftBrace, ⟨1, 8⟩⟩, ⟨.keyword .function, ⟨1, 9⟩⟩,
      ⟨.keyword .int, ⟨1, 18⟩⟩, ⟨.identifier "f", ⟨1, 22⟩⟩, ⟨.symbol .leftParen, ⟨1, 23⟩⟩,
      ⟨.symbol .rightParen, ⟨1, 24⟩⟩, ⟨.symbol .leftBrace, ⟨1, 25⟩⟩, ⟨.keyword .return_, ⟨1, 26⟩⟩,
      ⟨.identifier "x", ⟨1, 33⟩⟩, ⟨.symbol .semicolon, ⟨1, 34⟩⟩, ⟨.symbol .rightBrace, ⟨1, 35⟩⟩,
      ⟨.symbol .rightBrace, ⟨1, 36⟩⟩], ⟨1, 37⟩⟩ := by rfl
  have he : compile "class A{function int f(){return x;}}" false
      = .error (.undefinedVariable .term "x" ⟨1, 33⟩) := by rfl
  intro hc
  obtain ⟨result, hr⟩ := (compile_succeeds_iff h false).2 hc
  rw [he] at hr
  cases hr

/-- A text that compiles is an accepted class, and compiles to its translation. -/
theorem accepted_of_compile {source : String} {outlined : Bool} {result : CompiledClass}
    (h : compile source outlined = .ok result) :
    ∃ stream, tokenize source = .ok stream
      ∧ (∃ c : ClassDec, c.lexemes = stream.tokens.map Token.lexeme)
      ∧ ∀ c : ClassDec, c.lexemes = stream.tokens.map Token.lexeme →
        c.Accepted ∧ result.instructions.map (·.instruction) = c.code := by
  cases hs : tokenize source with
  | error e =>
    rw [compile, compilation, hs] at h
    cases h
  | ok stream =>
    obtain ⟨he, rfl⟩ := (compile_eq_ok_iff hs).1 h
    obtain ⟨c, hc, -⟩ := TokenStream.exists_classDec he
    refine ⟨stream, rfl, ⟨c, hc⟩, ?_⟩
    intro c hc
    obtain ⟨hiff, hcode⟩ := TokenStream.compile_of_lexemes hc outlined
    exact ⟨hiff.1 he, hcode (hiff.1 he)⟩

/-- A text that compiles is a class, and compiles to the translation of the class, however its
tokens are derived. -/
theorem compile_eq_translation {source : String} {outlined : Bool} {result : CompiledClass}
    (h : compile source outlined = .ok result) :
    ∃ stream, tokenize source = .ok stream
      ∧ (∃ c : ClassDec, c.lexemes = stream.tokens.map Token.lexeme)
      ∧ ∀ c : ClassDec, c.lexemes = stream.tokens.map Token.lexeme →
        c.WellFormed ∧ result.instructions.map (·.instruction) = c.code := by
  obtain ⟨stream, hs, hexists, hall⟩ := accepted_of_compile h
  refine ⟨stream, hs, hexists, ?_⟩
  intro c hc
  obtain ⟨hacc, hcode⟩ := hall c hc
  exact ⟨(ClassDec.wellFormed_iff (not_mem_lexemes hs hc)).2 hacc, hcode⟩

/-- A method that returns a field. -/
theorem translation_of_getter :
    ∃ stream, tokenize "class A{field int x;method int get(){return x;}}" = .ok stream
      ∧ (∃ c : ClassDec, c.lexemes = stream.tokens.map Token.lexeme)
      ∧ ∀ c : ClassDec, c.lexemes = stream.tokens.map Token.lexeme →
        c.WellFormed ∧ [.function "A.get" 0, .push .argument 0, .pop .pointer 0, .push .this 0,
          .return_] = c.code := by
  have h : compile "class A{field int x;method int get(){return x;}}" false
      = .ok ⟨"A", [⟨.function "A.get" 0, ⟨1, 36⟩⟩, ⟨.push .argument 0, ⟨1, 37⟩⟩,
        ⟨.pop .pointer 0, ⟨1, 37⟩⟩, ⟨.push .this 0, ⟨1, 45⟩⟩, ⟨.return_, ⟨1, 46⟩⟩], none⟩ := by rfl
  exact compile_eq_translation h

end Jack
