import Jack.Proofs.Correctness
import Jack.Proofs.Places

/-! What a compilation does not depend on. Whether an outline is wanted decides the outline alone,
and where the tokens of a text stand decides nothing but the places that are named. -/

namespace Jack

/-! ### With and without an outline -/

def Session.withoutOutline (s : Session) : Session := { s with outline? := none }

def Compilation.withoutOutline (c : Compilation) : Compilation :=
  { c with session := c.session.withoutOutline }

def CompiledClass.withoutOutline (c : CompiledClass) : CompiledClass := { c with outline? := none }

namespace Session

variable (s : Session)

@[simp] theorem scope_withoutOutline : s.withoutOutline.scope = s.scope := rfl

theorem define_withoutOutline (p : Production) (name type : String) (kind : Kind)
    (position : Position) :
    s.withoutOutline.define p name type kind position
      = ((s.define p name type kind position).1.withoutOutline,
        (s.define p name type kind position).2) := by
  simp only [define, scope_withoutOutline]
  cases s.scope.define? name type kind with
  | none => rfl
  | some scope => rfl

theorem resolve_withoutOutline (p : Production) (o : Occurrence)
    (next : Session → Variable → Session)
    (h : ∀ t v, (next t v).withoutOutline = next t.withoutOutline v) :
    s.withoutOutline.resolve p o next
      = ((s.resolve p o next).1.withoutOutline, (s.resolve p o next).2) := by
  simp only [resolve, scope_withoutOutline]
  cases s.scope.lookup o.name with
  | none => rfl
  | some v => rw [h]

theorem call_withoutOutline (p : Production) (callee : Callee) (args : UInt16) :
    s.withoutOutline.call p callee args
      = ((s.call p callee args).1.withoutOutline, (s.call p callee args).2) := by
  have htarget : s.withoutOutline.target callee = s.target callee := by
    cases callee <;> rfl
  simp only [call, htarget]
  cases addWords? args (s.target callee).2 with
  | none => rfl
  | some n => rfl

theorem complete_withoutOutline (locals : UInt16) :
    s.withoutOutline.complete locals
      = ((s.complete locals).1.withoutOutline, (s.complete locals).2) := by
  obtain ⟨scope, listing, outline?, className, - | slot⟩ := s
  · rfl
  · simp only [complete, withoutOutline]
    rcases listing.patch slot locals with ⟨patched, - | -⟩
    · rfl
    · rfl

/-- What an action does to an outline does not show in anything else. -/
theorem perform_withoutOutline (a : Action) :
    s.withoutOutline.perform a = ((s.perform a).1.withoutOutline, (s.perform a).2) := by
  cases a with
  | declare p o type kind =>
    have hd := (s.moveTo o.position).define_withoutOutline p o.name type kind o.position
    have hmove : s.withoutOutline.moveTo o.position = (s.moveTo o.position).withoutOutline := rfl
    simp only [perform, hmove, hd]
    rcases (s.moveTo o.position).define p o.name type kind o.position with ⟨t, - | e⟩
    · rfl
    · rfl
  | declareThis position => exact s.define_withoutOutline _ _ _ _ _
  | mentionFirst o | loadReceiver o =>
    simp only [perform, scope_withoutOutline]
    cases s.scope.lookup o.name with
    | none => rfl
    | some v => rfl
  | require p o => exact s.resolve_withoutOutline p o (fun t _ => t) fun _ _ => rfl
  | load p o => exact s.resolve_withoutOutline p o (fun t v => t.emit [v.pushCode]) fun _ _ => rfl
  | store p o => exact s.resolve_withoutOutline p o (fun t v => t.emit [v.popCode]) fun _ _ => rfl
  | call p callee args => exact s.call_withoutOutline p callee args
  | complete locals => exact s.complete_withoutOutline locals
  | enter p | leave p | take t | nameClass name | startSubroutine | mention o | emit code
    | emitAt p code | header name | preamble role => rfl

theorem performAll_withoutOutline (actions : List Action) :
    s.withoutOutline.performAll actions
      = ((s.performAll actions).1.withoutOutline, (s.performAll actions).2) := by
  induction actions generalizing s with
  | nil => rfl
  | cons a actions ih =>
    rw [performAll_cons, performAll_cons, perform_withoutOutline]
    rcases s.perform a with ⟨t, - | e⟩
    · exact ih t
    · rfl

end Session

theorem TokenStream.compile_withoutOutline (stream : TokenStream) :
    stream.compile false = (stream.compile true).withoutOutline := by
  have hinitial : Session.initial false = (Session.initial true).withoutOutline := rfl
  rw [compile, compile, Script.compile, Script.compile, hinitial,
    Session.performAll_withoutOutline]
  cases (Session.initial true).performAll (Script.ofTokens stream).actions.toList with
  | mk s e? =>
    cases e? with
    | none => rfl
    | some e => rfl

theorem compile_withoutOutline (source : String) :
    compile source false = (compile source true).map CompiledClass.withoutOutline := by
  rw [compile, compile, compilation, compilation]
  cases tokenize source with
  | error e => rfl
  | ok stream =>
    simp only [TokenStream.compile_withoutOutline]
    obtain ⟨session, - | e⟩ := stream.compile true
    · rfl
    · rfl

/-- There is an outline only if one is wanted. -/
theorem outlined_of_outline {source text : String} {outlined : Bool} {result : CompiledClass}
    (h : compile source outlined = .ok result) (ht : result.outline? = some text) :
    outlined = true := by
  cases outlined with
  | true => rfl
  | false =>
    rw [compile_withoutOutline] at h
    cases hfull : compile source true with
    | error e =>
      rw [hfull] at h
      cases h
    | ok full =>
      rw [hfull] at h
      cases h
      cases ht

/-- Whether an outline is wanted decides the outline and nothing else: the error, the instructions
with their places, the name of the class and the variables in scope are the same, up to an error as
well. -/
theorem outline_decides_itself (source : String) :
    compile source false = (compile source true).map CompiledClass.withoutOutline
      ∧ ((∃ e, compilation source true = .error e ∧ compilation source false = .error e)
        ∨ ∃ c d, compilation source true = .ok c ∧ compilation source false = .ok d
          ∧ d.error? = c.error? ∧ d.instructions = c.instructions
          ∧ d.session.className = c.session.className ∧ d.session.scope = c.session.scope
          ∧ d.outline? = none) := by
  refine ⟨compile_withoutOutline source, ?_⟩
  rw [compilation, compilation]
  cases tokenize source with
  | error e => exact Or.inl ⟨e, rfl, rfl⟩
  | ok stream =>
    refine Or.inr ⟨_, _, rfl, rfl, ?_⟩
    rw [stream.compile_withoutOutline]
    exact ⟨rfl, rfl, rfl, rfl, rfl⟩

/-! ### Texts with the same words -/

section

variable (f : Position → Position)

def TokenStream.relocate (stream : TokenStream) : TokenStream :=
  ⟨stream.tokens.map (Token.relocate f), f stream.finish⟩

def Compilation.relocate (c : Compilation) : Compilation :=
  ⟨c.session.relocate f, c.error?.map (CompileError.relocate f)⟩

theorem Script.ofTokens_relocate (stream : TokenStream) :
    ofTokens (stream.relocate f) = (ofTokens stream).relocate f := by
  have hgoals : classGoals.map (Goal.relocate f) = classGoals := rfl
  have h := ofGoals_relocate f ⟨stream.tokens, stream.finish, 0⟩ classGoals #[]
  rw [hgoals, Array.map_empty] at h
  exact h

theorem Session.initial_relocate (hf : f .nowhere = .nowhere) (outlined : Bool) :
    (Session.initial outlined).relocate f = Session.initial outlined := by
  simp [Session.relocate, Session.initial, Listing.relocate, Listing.empty, hf]

theorem TokenStream.compile_relocate (hf : f .nowhere = .nowhere) (stream : TokenStream)
    (outlined : Bool) :
    (stream.relocate f).compile outlined = (stream.compile outlined).relocate f := by
  have hrun := Session.performAll_relocate f (.initial outlined)
    (Script.ofTokens stream).actions.toList
  rw [Session.initial_relocate f hf] at hrun
  rw [compile, compile, Script.compile, Script.compile, Script.ofTokens_relocate, Script.relocate,
    Array.toList_map, hrun]
  cases (Session.initial outlined).performAll (Script.ofTokens stream).actions.toList with
  | mk s e? =>
    cases e? with
    | none => rfl
    | some e => rfl

theorem Action.reads_relocate (a : Action) : (a.relocate f).reads = a.reads := by
  cases a <;> rfl

theorem Session.consumed_relocate (s : Session) (actions : List Action) :
    (s.relocate f).consumed (actions.map (Action.relocate f)) = s.consumed actions := by
  induction actions generalizing s with
  | nil => rfl
  | cons a actions ih =>
    rw [List.map_cons, consumed, consumed, perform_relocate, Action.reads_relocate]
    rcases s.perform a with ⟨t, - | e⟩
    · exact congrArg _ (ih t)
    · rfl

theorem TokenStream.stop_relocate (hf : f .nowhere = .nowhere) (stream : TokenStream)
    (outlined : Bool) : (stream.relocate f).stop outlined = stream.stop outlined := by
  have h := Session.consumed_relocate f (.initial outlined) (Script.ofTokens stream).actions.toList
  rw [Session.initial_relocate f hf] at h
  rw [stop, stop, Script.ofTokens_relocate, Script.relocate, Array.toList_map, h]

theorem CompileError.position?_relocate (e : CompileError) :
    (e.relocate f).position? = e.position?.map f := by
  cases e <;> rfl

/-- What an error says, wherever it stands, does not change with its place. -/
theorem CompileError.relocate_noPlace_relocate (e : CompileError) :
    (e.relocate f).relocate noPlace = e.relocate noPlace := by
  cases e <;> rfl

theorem render_relocate (lines : List Emitted) :
    render (lines.map (Emitted.relocate f)) = render lines := by
  induction lines with
  | nil => rfl
  | cons e lines ih =>
    rw [List.map_cons, render_cons, render_cons, ih]
    rfl

end

namespace TokenStream

/-- Words whose places are their numbers, counted from one. -/
def numbered (words : List Lexeme) : TokenStream :=
  ⟨words.mapIdx fun i l => ⟨l, ⟨i + 1, 0⟩⟩, ⟨words.length + 1, 0⟩⟩

/-- The place in a text that a number stands for. -/
def placeOf (stream : TokenStream) (p : Position) : Position :=
  match p.line with
  | 0 => .nowhere
  | i + 1 =>
    match stream.founds[i]? with
    | some x => x.position
    | none => .nowhere

theorem placeOf_of_getElem? {stream : TokenStream} {i : Nat} {x : Found}
    (h : stream.founds[i]? = some x) : stream.placeOf ⟨i + 1, 0⟩ = x.position := by
  simp [placeOf, h]

/-- Every text is its words, each moved from its number to its place. -/
theorem relocate_numbered (stream : TokenStream) :
    (numbered (stream.tokens.map Token.lexeme)).relocate stream.placeOf = stream := by
  have hfinish : stream.placeOf ⟨stream.tokens.length + 1, 0⟩ = stream.finish :=
    placeOf_of_getElem? (x := ⟨none, stream.finish⟩) (by simp [founds])
  have htokens : ((stream.tokens.map Token.lexeme).mapIdx fun i l => (⟨l, ⟨i + 1, 0⟩⟩ : Token)).map
      (Token.relocate stream.placeOf) = stream.tokens := by
    apply List.ext_getElem?
    intro i
    cases ht : stream.tokens[i]? with
    | none => simp [ht]
    | some t =>
      have hplace : stream.placeOf ⟨i + 1, 0⟩ = t.position := by
        obtain ⟨hlt, -⟩ := List.getElem?_eq_some_iff.1 ht
        apply placeOf_of_getElem? (x := t.found)
        rw [founds, List.getElem?_append_left (by simpa using hlt), List.getElem?_map, ht]
        rfl
      simp [ht, Token.relocate, hplace]
  rw [relocate, numbered, htokens, List.length_map, hfinish]

theorem placeOf_nowhere (stream : TokenStream) : stream.placeOf .nowhere = .nowhere := rfl

theorem position_of_numbered {words : List Lexeme} {i : Nat} {x : Found}
    (h : (numbered words).founds[i]? = some x) : i ≤ words.length ∧ x.position = ⟨i + 1, 0⟩ := by
  rw [founds, List.getElem?_append] at h
  split at h
  · rename_i hlt
    have hi : i < words.length := by simpa [numbered] using hlt
    rw [List.getElem?_map] at h
    obtain ⟨t, ht, rfl⟩ := Option.map_eq_some_iff.1 h
    simp only [numbered, List.getElem?_mapIdx, List.getElem?_eq_getElem hi, Option.map_some,
      Option.some.injEq] at ht
    subst ht
    exact ⟨Nat.le_of_lt hi, rfl⟩
  · rename_i hge
    simp only [numbered, List.length_map, List.length_mapIdx, Nat.not_lt] at hge h
    obtain ⟨hzero, rfl⟩ : i - words.length = 0 ∧ x = ⟨none, ⟨words.length + 1, 0⟩⟩ := by
      cases hk : i - words.length with
      | zero =>
        rw [hk] at h
        exact ⟨rfl, (Option.some.inj h).symm⟩
      | succ k =>
        rw [hk] at h
        cases h
    have hi : i = words.length := by omega
    subst hi
    exact ⟨Nat.le_refl _, rfl⟩

end TokenStream

/-- Two errors, or none, that say the same of the tokens of one number in two texts. -/
inductive SameError (s t : TokenStream) : Option CompileError → Option CompileError → Prop
  | neither : SameError s t none none
  | both {e e' : CompileError} {i : Nat} {x y : Found}
    (content : e.relocate noPlace = e'.relocate noPlace)
    (left : s.founds[i]? = some x ∧ e.position? = some x.position)
    (right : t.founds[i]? = some y ∧ e'.position? = some y.position) :
    SameError s t (some e) (some e')

/-- Errors that come from one about numbered words. -/
theorem SameError.of_numbered {s t : TokenStream} {words : List Lexeme} {outlined : Bool}
    (hs : s.tokens.map Token.lexeme = words) (ht : t.tokens.map Token.lexeme = words) :
    SameError s t (((TokenStream.numbered words).compile outlined).relocate s.placeOf).error?
      (((TokenStream.numbered words).compile outlined).relocate t.placeOf).error? := by
  simp only [Compilation.relocate]
  cases he : ((TokenStream.numbered words).compile outlined).error? with
  | none => exact .neither
  | some e =>
    obtain ⟨x, hx, hp⟩ := TokenStream.exists_found_of_error he
    obtain ⟨i, hi⟩ := List.mem_iff_getElem?.1 hx
    obtain ⟨hle, hx⟩ := TokenStream.position_of_numbered hi
    have hfound : ∀ stream : TokenStream, stream.tokens.map Token.lexeme = words →
        ∃ y, stream.founds[i]? = some y
          ∧ (e.relocate stream.placeOf).position? = some y.position := by
      intro stream hwords
      have hlt : i < stream.founds.length := by
        rw [← hwords, List.length_map] at hle
        simpa [TokenStream.founds, Nat.lt_succ_iff] using hle
      refine ⟨_, List.getElem?_eq_getElem hlt, ?_⟩
      rw [CompileError.position?_relocate, hp, Option.map_some, hx,
        TokenStream.placeOf_of_getElem? (List.getElem?_eq_getElem hlt)]
    obtain ⟨y, hy⟩ := hfound s hs
    obtain ⟨z, hz⟩ := hfound t ht
    refine .both ?_ hy hz
    rw [CompileError.relocate_noPlace_relocate, CompileError.relocate_noPlace_relocate]

/-- White space and comments, and where they put the tokens, decide nothing. Texts with the same
words compile both or not at all, to the same instructions, class name, outline and variables, and
fail at the same token with the same error. -/
theorem same_words_compile_alike {a b : String} {s t : TokenStream} (ha : tokenize a = .ok s)
    (hb : tokenize b = .ok t) (h : s.tokens.map Token.lexeme = t.tokens.map Token.lexeme)
    (outlined : Bool) :
    ∃ c d, compilation a outlined = .ok c ∧ compilation b outlined = .ok d
      ∧ SameError s t c.error? d.error? ∧ s.stop outlined = t.stop outlined
      ∧ c.session.code = d.session.code ∧ render c.instructions = render d.instructions
      ∧ c.session.className = d.session.className ∧ c.outline? = d.outline?
      ∧ c.session.scope = d.session.scope := by
  have hcompile : ∀ stream : TokenStream,
      stream.tokens.map Token.lexeme = t.tokens.map Token.lexeme →
        stream.compile outlined = ((TokenStream.numbered (t.tokens.map Token.lexeme)).compile
            outlined).relocate stream.placeOf
          ∧ stream.stop outlined
            = (TokenStream.numbered (t.tokens.map Token.lexeme)).stop outlined := by
    intro stream hwords
    have hnumbered := stream.relocate_numbered
    have hc := TokenStream.compile_relocate _ stream.placeOf_nowhere
      (.numbered (t.tokens.map Token.lexeme)) outlined
    have hstop := TokenStream.stop_relocate _ stream.placeOf_nowhere
      (.numbered (t.tokens.map Token.lexeme)) outlined
    rw [hwords] at hnumbered
    rw [hnumbered] at hc hstop
    exact ⟨hc, hstop⟩
  obtain ⟨hs, hstop⟩ := hcompile s h
  obtain ⟨ht, hstop'⟩ := hcompile t rfl
  refine ⟨_, _, by rw [compilation, ha], by rw [compilation, hb], ?_⟩
  rw [hs, ht]
  refine ⟨.of_numbered h rfl, hstop.trans hstop'.symm, ?_, ?_, rfl, rfl, rfl⟩
  · simp only [Compilation.relocate, Session.code_relocate]
  · simp only [Compilation.relocate, Compilation.instructions, Session.relocate, Listing.relocate,
      Array.toList_map, render_relocate]

theorem commented_function_compiles_alike :
    ∃ c d, compilation "class A\x7bfunction int f()\x7breturn x;" true = .ok c
      ∧ compilation
          "class A\n\x7b function int f( /* no arguments */ )\n\x7b return x; // undefined" true
        = .ok d
      ∧ c.error? = some (.undefinedVariable .term "x" ⟨1, 33⟩)
      ∧ d.error? = some (.undefinedVariable .term "x" ⟨3, 10⟩)
      ∧ c.session.code = d.session.code := by
  have ha : tokenize "class A\x7bfunction int f()\x7breturn x;" = .ok ⟨[
      ⟨.keyword .class_, ⟨1, 1⟩⟩, ⟨.identifier "A", ⟨1, 7⟩⟩, ⟨.symbol .leftBrace, ⟨1, 8⟩⟩,
      ⟨.keyword .function, ⟨1, 9⟩⟩, ⟨.keyword .int, ⟨1, 18⟩⟩, ⟨.identifier "f", ⟨1, 22⟩⟩,
      ⟨.symbol .leftParen, ⟨1, 23⟩⟩, ⟨.symbol .rightParen, ⟨1, 24⟩⟩, ⟨.symbol .leftBrace, ⟨1, 25⟩⟩,
      ⟨.keyword .return_, ⟨1, 26⟩⟩, ⟨.identifier "x", ⟨1, 33⟩⟩, ⟨.symbol .semicolon, ⟨1, 34⟩⟩],
      ⟨1, 35⟩⟩ := by rfl
  have hb : tokenize
      "class A\n\x7b function int f( /* no arguments */ )\n\x7b return x; // undefined" = .ok ⟨[
      ⟨.keyword .class_, ⟨1, 1⟩⟩, ⟨.identifier "A", ⟨1, 7⟩⟩, ⟨.symbol .leftBrace, ⟨2, 1⟩⟩,
      ⟨.keyword .function, ⟨2, 3⟩⟩, ⟨.keyword .int, ⟨2, 12⟩⟩, ⟨.identifier "f", ⟨2, 16⟩⟩,
      ⟨.symbol .leftParen, ⟨2, 17⟩⟩, ⟨.symbol .rightParen, ⟨2, 38⟩⟩, ⟨.symbol .leftBrace, ⟨3, 1⟩⟩,
      ⟨.keyword .return_, ⟨3, 3⟩⟩, ⟨.identifier "x", ⟨3, 10⟩⟩, ⟨.symbol .semicolon, ⟨3, 11⟩⟩],
      ⟨3, 25⟩⟩ := by rfl
  obtain ⟨c, d, hc, hd, -, -, hcode, -⟩ := same_words_compile_alike ha hb rfl true
  refine ⟨c, d, hc, hd, ?_, ?_, hcode⟩
  · rw [compilation, ha] at hc
    cases hc
    rfl
  · rw [compilation, hb] at hd
    cases hd
    rfl

end Jack
