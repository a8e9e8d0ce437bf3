import Jack.Proofs.Slots

/-! The constants that are pushed. The machine's word has a sign, so only half of its values can be
pushed. The lexer keeps to them in numbers and texts. A constructor does not: it pushes the number
of its fields, of which there can be twice as many. -/

namespace Jack

/-- The numbers that are pushed for the word fit the machine. -/
def Lexeme.FitsConstants : Lexeme → Prop
  | .integer n => n.toNat ≤ largestInteger
  | .string text => text.length ≤ largestInteger ∧ ∀ c ∈ text.toList, c.toNat ≤ largestInteger
  | .keyword _ | .symbol _ | .identifier _ => True

theorem lexed_fitsConstants : Lexed Lexeme.FitsConstants := by
  refine ⟨fun m => trivial, fun w l hl => ?_, fun text ht => ?_⟩
  · unfold Lexeme.ofWord? at hl
    split at hl
    · cases hl
      trivial
    · split at hl
      · split at hl
        · rename_i hle
          cases hl
          exact Nat.le_trans (toNat_ofNat_le _) hle
        · cases hl
      · split at hl
        · cases hl
        · cases hl
          trivial
  · simpa [fitsConstants, Lexeme.FitsConstants] using ht

/-- The instruction pushes no constant past the largest one. -/
def Instruction.ConstantFits : Instruction → Prop
  | .push .constant n => n.toNat ≤ largestInteger
  | _ => True

theorem Origin.constantFits {k : Context} {ls : List Lexeme} {i : Instruction}
    (hi : Origin k ls i) (hls : ∀ l ∈ ls, l.FitsConstants) : i.ConstantFits := by
  cases hi with
  | @read _ v _ =>
    obtain ⟨_, _, kind, _⟩ := v
    cases kind <;> trivial
  | @write _ v _ =>
    obtain ⟨_, _, kind, _⟩ := v
    cases kind <;> trivial
  | integer h => exact hls _ h
  | length h => exact Nat.le_trans (toNat_ofNat_le _) (hls _ h).1
  | letter h hc => exact Nat.le_trans (toNat_ofNat_le _) ((hls _ h).2 _ hc)
  | fixed h =>
    simp only [fixedAccesses, List.mem_cons, List.not_mem_nil, or_false] at h
    rcases h with rfl | rfl | rfl | rfl | rfl | rfl | rfl <;> first | trivial | exact Nat.zero_le _
  | other h =>
    cases i with
    | push => cases h
    | _ => trivial

theorem ClassDec.mem_bodyCode_of_push {c : ClassDec} {segment : Segment} {index : UInt16}
    (h : .push segment index ∈ c.code) :
    ∃ d ∈ c.subroutines, ∃ n, .push segment index ∈ c.bodyCode n d := by
  rw [ClassDec.code, ← c.flatMap_functions] at h
  obtain ⟨f, hf, hi⟩ := List.mem_flatMap.1 h
  obtain ⟨d, hd, n, rfl⟩ := ClassDec.exists_of_mem_functions hf
  rcases List.mem_cons.1 hi with hi | hi
  · cases hi
  · exact ⟨d, hd, n, hi⟩

theorem Role.constructor_of_constant_mem {r : Role} {fields : Nat} {n : UInt16}
    (h : .push .constant n ∈ r.prologue fields) :
    r = .constructor ∧ n = UInt16.ofNat fields := by
  cases r with
  | constructor => simpa [Role.prologue] using h
  | function => cases h
  | method => simp [Role.prologue] at h

/-- A constant that the class pushes fits, unless it is how many fields a constructor allocates. -/
theorem ClassDec.constant_le {c : ClassDec} (hls : ∀ l ∈ c.lexemes, l.FitsConstants) {n : UInt16}
    (h : .push .constant n ∈ c.code) :
    n.toNat ≤ largestInteger
      ∨ n = UInt16.ofNat c.fieldCount ∧ ∃ d ∈ c.subroutines, d.role = .constructor := by
  obtain ⟨d, hd, m, hi⟩ := c.mem_bodyCode_of_push h
  rcases c.origin_of_mem_bodyCode hd hi with hi | hi
  · obtain ⟨hr, hn⟩ := Role.constructor_of_constant_mem hi
    exact Or.inr ⟨hn, d, hd, hr⟩
  · exact Or.inl (hi.constantFits hls)

/-- Every constructor pushes the number of fields. -/
theorem ClassDec.push_fieldCount_mem {c : ClassDec} {d : SubroutineDec} (hd : d ∈ c.subroutines)
    (hr : d.role = .constructor) : .push .constant (UInt16.ofNat c.fieldCount) ∈ c.code := by
  obtain ⟨n, hf⟩ := c.exists_mem_functions 0 hd
  rw [ClassDec.code, ← c.flatMap_functions]
  refine List.mem_flatMap.2 ⟨_, hf, List.mem_cons_of_mem _ (List.mem_append_left _ ?_)⟩
  rw [hr]
  exact List.mem_cons_self

/-- In the output of a text that compiles, the constants that come from the text fit the machine.
All constants do just when a class with a constructor has no more fields than that. -/
theorem pushed_constants_fit_iff {source : String} {outlined : Bool} {result : CompiledClass}
    (h : compile source outlined = .ok result) :
    ∃ stream, tokenize source = .ok stream
      ∧ (∃ c : ClassDec, c.lexemes = stream.tokens.map Token.lexeme)
      ∧ ∀ c : ClassDec, c.lexemes = stream.tokens.map Token.lexeme →
        (∀ n, .push .constant n ∈ result.instructions.map (·.instruction) →
          n.toNat ≤ largestInteger
            ∨ n.toNat = (c.names .field).length ∧ ∃ d ∈ c.subroutines, d.role = .constructor)
        ∧ ((∀ n, .push .constant n ∈ result.instructions.map (·.instruction) →
            n.toNat ≤ largestInteger)
          ↔ ((∃ d ∈ c.subroutines, d.role = .constructor) →
            (c.names .field).length ≤ largestInteger)) := by
  obtain ⟨stream, hs, hexists, hall⟩ := accepted_of_compile h
  refine ⟨stream, hs, hexists, ?_⟩
  intro c hc
  obtain ⟨hacc, hcode⟩ := hall c hc
  have hls : ∀ l ∈ c.lexemes, l.FitsConstants := by
    rw [hc]
    exact List.forall_mem_map.2 (forall_mem_tokens lexed_fitsConstants hs)
  have hconstant : ∀ n, .push .constant n ∈ c.code → n.toNat ≤ largestInteger
      ∨ n.toNat = (c.names .field).length ∧ ∃ d ∈ c.subroutines, d.role = .constructor := by
    intro n hn
    refine (ClassDec.constant_le hls hn).imp_right ?_
    rintro ⟨rfl, hd⟩
    exact ⟨hacc.toNat_fieldCount, hd⟩
  rw [hcode]
  refine ⟨hconstant, fun hfit => ?_, fun hfew n hn => ?_⟩
  · rintro ⟨d, hd, hr⟩
    rw [← hacc.toNat_fieldCount]
    exact hfit _ (c.push_fieldCount_mem hd hr)
  · rcases hconstant n hn with hle | ⟨heq, hd⟩
    · exact hle
    · rw [heq]
      exact hfew hd

/-- A constructor, and the largest constant. -/
theorem constants_of_constructor :
    ∃ result, compile "class A{field int x,y;constructor A new(){let x=32767;}}" false = .ok result
      ∧ result.instructions.map (·.instruction)
        = [.function "A.new" 0, .push .constant 2, .call "Memory.alloc" 1, .pop .pointer 0,
          .push .constant 32767, .pop .this 0]
      ∧ ∃ stream,
        tokenize "class A{field int x,y;constructor A new(){let x=32767;}}" = .ok stream
        ∧ (∃ c : ClassDec, c.lexemes = stream.tokens.map Token.lexeme)
        ∧ ∀ c : ClassDec, c.lexemes = stream.tokens.map Token.lexeme →
          (∀ n, .push .constant n ∈ result.instructions.map (·.instruction) →
            n.toNat ≤ largestInteger
              ∨ n.toNat = (c.names .field).length ∧ ∃ d ∈ c.subroutines, d.role = .constructor)
          ∧ ((∀ n, .push .constant n ∈ result.instructions.map (·.instruction) →
              n.toNat ≤ largestInteger)
            ↔ ((∃ d ∈ c.subroutines, d.role = .constructor) →
              (c.names .field).length ≤ largestInteger)) := by
  obtain ⟨result, h, hcode⟩ : ∃ result,
      compile "class A{field int x,y;constructor A new(){let x=32767;}}" false = .ok result
      ∧ result.instructions.map (·.instruction)
        = [.function "A.new" 0, .push .constant 2, .call "Memory.alloc" 1, .pop .pointer 0,
          .push .constant 32767, .pop .this 0] := ⟨_, by rfl, by rfl⟩
  exact ⟨result, h, hcode, pushed_constants_fit_iff h⟩

/-! ### A class with many fields -/

/-- A class with a field, `n` more of the same name, and a constructor. -/
def manyFields (n : Nat) : ClassDec :=
  ⟨"A", [⟨.field, rfl, .int, "v", List.replicate n "v"⟩],
    [⟨.constructor, some (.class_ "A"), "new", [], [],
      [.return_ (some (.term (.constant .this)))]⟩]⟩

def manyFieldsSource (n : Nat) : String :=
  String.ofList ("class A\x7bfield int v".toList ++ (List.replicate n [',', 'v']).flatten
    ++ ";constructor A new()\x7breturn this;\x7d\x7d".toList)

/-- The name that is being read goes last among the words. -/
theorem run_manyFields_names (n : Nat) (start here : Position) (tokens : List Token)
    (rest : List Char) :
    ∃ start' here' tokens',
      (Lexer.State.mk (.word start ['v']) here tokens).run
          ((List.replicate n [',', 'v']).flatten ++ rest)
        = (Lexer.State.mk (.word start' ['v']) here' tokens').run rest
      ∧ (tokens'.map Token.lexeme).reverse ++ [.identifier "v"]
        = (tokens.map Token.lexeme).reverse ++ .identifier "v"
          :: (List.replicate n "v").flatMap fun name => [.symbol .comma, .identifier name] := by
  induction n generalizing start here tokens with
  | zero => exact ⟨start, here, tokens, rfl, rfl⟩
  | succ n ih =>
    obtain ⟨start', here', tokens', hrun, hwords⟩ :=
      ih (here.after ',') ((here.after ',').after 'v') (⟨.symbol .comma, here⟩ :: ⟨.identifier "v", start⟩ :: tokens)
    refine ⟨start', here', tokens', ?_, ?_⟩
    · rw [← hrun]
      rfl
    · rw [hwords]
      simp [List.replicate_succ]

theorem run_manyFields_head (rest : List Char) :
    ∃ start here tokens,
      Lexer.State.initial.run ("class A\x7bfield int v".toList ++ rest)
        = (Lexer.State.mk (.word start ['v']) here tokens).run rest
      ∧ (tokens.map Token.lexeme).reverse = [.keyword .class_, .identifier "A", .symbol .leftBrace,
        .keyword .field, .keyword .int] :=
  ⟨_, _, _, by rfl, by rfl⟩

theorem run_manyFields_constructor (start here : Position) (tokens : List Token) :
    ∃ stream,
      (Lexer.State.mk (.word start ['v']) here tokens).run
          ";constructor A new()\x7breturn this;\x7d\x7d".toList = .ok stream
      ∧ stream.tokens.map Token.lexeme = (tokens.map Token.lexeme).reverse
        ++ [.identifier "v"] ++ .symbol .semicolon
          :: ((manyFields 0).subroutines.flatMap SubroutineDec.lexemes ++ [.symbol .rightBrace]) := by
  refine ⟨⟨(⟨.symbol .rightBrace, _⟩ :: ⟨.symbol .rightBrace, _⟩ :: ⟨.symbol .semicolon, _⟩
    :: ⟨.keyword .this, _⟩ :: ⟨.keyword .return_, _⟩ :: ⟨.symbol .leftBrace, _⟩
    :: ⟨.symbol .rightParen, _⟩ :: ⟨.symbol .leftParen, _⟩ :: ⟨.identifier "new", _⟩
    :: ⟨.identifier "A", _⟩ :: ⟨.keyword .constructor, _⟩ :: ⟨.symbol .semicolon, _⟩
    :: ⟨.identifier "v", start⟩ :: tokens).reverse, _⟩, by rfl, ?_⟩
  rw [List.map_reverse, List.map_cons]
  simp only [List.map_cons, List.reverse_cons, List.append_assoc]
  rfl

theorem tokenize_manyFieldsSource (n : Nat) :
    ∃ stream, tokenize (manyFieldsSource n) = .ok stream
      ∧ (manyFields n).lexemes = stream.tokens.map Token.lexeme := by
  obtain ⟨start, here, tokens, hhead, hwords⟩ :=
    run_manyFields_head ((List.replicate n [',', 'v']).flatten
      ++ ";constructor A new()\x7breturn this;\x7d\x7d".toList)
  obtain ⟨start', here', tokens', hnames, hwords'⟩ := run_manyFields_names n start here tokens
    ";constructor A new()\x7breturn this;\x7d\x7d".toList
  obtain ⟨stream, hrun, hstream⟩ := run_manyFields_constructor start' here' tokens'
  refine ⟨stream, ?_, ?_⟩
  · have hsource : (manyFieldsSource n).toList = _ := String.toList_ofList
    rw [tokenize, hsource, List.append_assoc]
    exact hhead.trans (hnames.trans hrun)
  · rw [hstream, hwords', hwords]
    simp [manyFields, ClassDec.lexemes, ClassVarDec.lexemes, nameLexemes, inBraces, Kind.keyword,
      TypeName.lexeme]

theorem accepted_manyFields {n : Nat} (h : n < 65535) : (manyFields n).Accepted := by
  have hvars : ∀ kind, (manyFields n).declared.countP (·.kind = kind) ≤ 65535 := by
    intro kind
    rw [ClassDec.declared, countP_declared_eq_length]
    cases kind <;> simp [manyFields, ClassVarDec.names]
    omega
  refine ⟨(manyFields n).fits_iff.2 hvars, fun d hd => ?_⟩
  obtain rfl := List.mem_singleton.1 hd
  refine ⟨((manyFields n).fits_declared_iff _ hvars).2 fun kind => Nat.zero_le _, ?_⟩
  intro u hu
  cases hu

/-- However many fields can be declared, a constructor pushes their number. -/
theorem compile_manyFieldsSource {n : Nat} (h : n < 65535) :
    ∃ result, compile (manyFieldsSource n) false = .ok result
      ∧ .push .constant (UInt16.ofNat (n + 1)) ∈ result.instructions.map (·.instruction) := by
  obtain ⟨stream, hs, hl⟩ := tokenize_manyFieldsSource n
  obtain ⟨herror, hcode⟩ := TokenStream.compile_of_lexemes hl false
  have hacc := accepted_manyFields h
  refine ⟨_, (compile_eq_ok_iff hs).2 ⟨herror.2 hacc, rfl⟩, ?_⟩
  have hfields : (manyFields n).fieldCount = n + 1 := by
    rw [ClassDec.fieldCount_eq]
    simp [ClassDec.names, manyFields, ClassVarDec.names]
  have hpush := (manyFields n).push_fieldCount_mem (d := _) List.mem_cons_self rfl
  rw [hfields, ← hcode hacc] at hpush
  exact hpush

/-- The first constant past the largest one is pushed for as many fields. -/
theorem constant_past_largestInteger :
    ∃ result, compile (manyFieldsSource 32767) false = .ok result
      ∧ .push .constant 32768 ∈ result.instructions.map (·.instruction)
      ∧ ¬(32768 : UInt16).toNat ≤ largestInteger := by
  obtain ⟨result, h, hpush⟩ := compile_manyFieldsSource (n := 32767) (by decide)
  exact ⟨result, h, hpush, by decide⟩

end Jack
