import Jack.Proofs.Declarations
import Jack.Proofs.Derivation

/-! The headers that the words of a class lead to, wherever the words end. One pass over the words
finds them, so the words alone decide them. -/

namespace Jack

/-! ### How far a class goes -/

/-- The words of a subroutine before its body. -/
def SubroutineDec.headLexemes (d : SubroutineDec) : List Lexeme :=
  .keyword d.role.keyword :: resultLexeme d.result :: .identifier d.name :: .symbol .leftParen
    :: parameterLexemes d.parameters ++ [.symbol .rightParen]

/-- The words of a class that may go on with another subroutine. -/
def ClassDec.openLexemes (c : ClassDec) : List Lexeme :=
  .keyword .class_ :: .identifier c.name :: .symbol .leftBrace
    :: (c.vars.flatMap ClassVarDec.lexemes ++ c.subroutines.flatMap SubroutineDec.lexemes)

def SubroutineDec.header (className : String) (locals : Nat) (d : SubroutineDec) : Instruction :=
  .function (qualified className d.name) (UInt16.ofNat locals)

/-- The headers of complete subroutines count their locals. -/
def ClassDec.headers (c : ClassDec) : List Instruction :=
  c.subroutines.map fun d => d.header c.name d.localCount

/-- The locals of each subroutine fit a header. -/
def ClassDec.LocalsFit (c : ClassDec) : Prop := ∀ d ∈ c.subroutines, d.localCount ≤ 65535

/-- The headers that words of a class lead to, wherever they end. A class is complete up to some
subroutine; the one after it may have begun, and has a header once its parameters are over. -/
inductive HeadersAfter : List Lexeme → List Instruction → Prop
  /-- The words end before the brace that opens the class. -/
  | opening (name : String) {ws more : List Lexeme}
    (h : [.keyword .class_, .identifier name, .symbol .leftBrace] = ws ++ more)
    (hmore : more ≠ []) :
    HeadersAfter ws []
  /-- The words end in the declarations of the class. -/
  | declaring {c : ClassDec} {v : ClassVarDec} {part more : List Lexeme} (hc : c.subroutines = [])
    (h : v.lexemes = part ++ more) (hmore : more ≠ []) : HeadersAfter (c.openLexemes ++ part) []
  /-- The words end between two subroutines, or with the class. -/
  | between {c : ClassDec} {part : List Lexeme} (hc : c.LocalsFit)
    (h : part = [] ∨ part = [.symbol .rightBrace]) : HeadersAfter (c.openLexemes ++ part) c.headers
  /-- The words end within a subroutine. -/
  | within {c : ClassDec} {d : SubroutineDec} {part more : List Lexeme} (hc : c.LocalsFit)
    (h : d.lexemes = part ++ more) (hmore : more ≠ []) : HeadersAfter (c.openLexemes ++ part)
      (c.headers ++ if d.headLexemes <+: part then [d.header c.name 0] else [])

theorem SubroutineDec.lexemes_eq (d : SubroutineDec) :
    d.lexemes = d.headLexemes ++ .symbol .leftBrace :: bodyLexemes d.vars d.body := by
  simp [SubroutineDec.lexemes, SubroutineDec.headLexemes, inBraces, bodyLexemes]

namespace HeadersAfter

variable {c : ClassDec} {d : SubroutineDec} {part : List Lexeme}

/-- A subroutine whose parameters are not over has no header. -/
theorem head (more : List Lexeme) (hc : c.LocalsFit) (h : d.headLexemes = part ++ more)
    (hmore : more ≠ []) :
    HeadersAfter (c.openLexemes ++ part) c.headers := by
  have hpart : ¬d.headLexemes <+: part := by
    intro hprefix
    have hle := hprefix.length_le
    have hpos := List.length_pos_iff.2 hmore
    rw [h, List.length_append] at hle
    omega
  have hlexemes : d.lexemes
      = part ++ (more ++ .symbol .leftBrace :: bodyLexemes d.vars d.body) := by
    rw [d.lexemes_eq, h, List.append_assoc]
  have hw := within hc hlexemes (by simp)
  rwa [if_neg hpart, List.append_nil] at hw

/-- A subroutine whose body has begun has a header. -/
theorem body (more : List Lexeme) (hc : c.LocalsFit) (h : d.lexemes = d.headLexemes ++ part ++ more)
    (hmore : more ≠ []) : HeadersAfter (c.openLexemes ++ (d.headLexemes ++ part))
      (c.headers ++ [d.header c.name 0]) := by
  have hw := within hc h hmore
  rwa [if_pos (List.prefix_append _ _)] at hw

end HeadersAfter

/-- Words that go on to whole phrases are some whole phrases and the beginning of another one. -/
theorem exists_of_flatMap_eq_append {α : Type} {f : α → List Lexeme} {xs : List α}
    {ws more : List Lexeme} (h : xs.flatMap f = ws ++ more) :
    ∃ (ys : List α) (part : List Lexeme), ws = ys.flatMap f ++ part
      ∧ (part = [] ∨ ∃ x rest, f x = part ++ rest ∧ rest ≠ []) := by
  induction xs generalizing ws with
  | nil =>
    obtain ⟨rfl, -⟩ := List.append_eq_nil_iff.1 h.symm
    exact ⟨[], [], rfl, Or.inl rfl⟩
  | cons x xs ih =>
    rw [List.flatMap_cons] at h
    rcases List.append_eq_append_iff.1 h with ⟨ms, rfl, hms⟩ | ⟨ms, hx, -⟩
    · obtain ⟨ys, part, rfl, hpart⟩ := ih hms
      exact ⟨x :: ys, part, by rw [List.flatMap_cons, List.append_assoc], hpart⟩
    · by_cases hempty : ms = []
      · subst hempty
        rw [List.append_nil] at hx
        exact ⟨[x], [], by simp [hx], Or.inl rfl⟩
      · exact ⟨[], ws, rfl, Or.inr ⟨x, ms, hx, hempty⟩⟩

/-! ### The headers in one pass -/

/-- What a pass over the words of a class has found. Braces that are open are counted. -/
structure HeaderPass where
  className : String
  depth : Nat
  /-- The last name outside the bodies. -/
  last : String
  /-- The name before the last parenthesis outside the bodies. -/
  name : String
  declaring : Bool
  locals : Nat
  complete : List Instruction
  /-- The subroutine whose header has no locals yet. -/
  current? : Option String

namespace HeaderPass

def initial : HeaderPass := ⟨"", 0, "", "", false, 0, [], none⟩

/-- The header of the subroutine at hand, with this many locals. -/
def header (s : HeaderPass) (locals : Nat) : List Instruction :=
  (s.current?.map fun name => .function (qualified s.className name) (UInt16.ofNat locals)).toList

def headers (s : HeaderPass) : List Instruction := s.complete ++ s.header 0

def read (s : HeaderPass) : Lexeme → HeaderPass
  | .identifier name =>
    if s.depth = 0 then { s with className := name }
    else if s.depth = 1 then { s with last := name }
    else s
  | .keyword .var => { s with declaring := true, locals := s.locals + 1 }
  | .symbol .leftBrace => { s with depth := s.depth + 1 }
  | .symbol .rightBrace =>
    if s.depth = 2 then
      { s with
        depth := 1, locals := 0, complete := s.complete ++ s.header s.locals, current? := none }
    else { s with depth := s.depth - 1 }
  | .symbol .leftParen => if s.depth = 1 then { s with name := s.last } else s
  | .symbol .rightParen => if s.depth = 1 then { s with current? := some s.name } else s
  | .symbol .comma => if s.declaring then { s with locals := s.locals + 1 } else s
  | .symbol .semicolon => { s with declaring := false }
  | _ => s

def pass (s : HeaderPass) (ls : List Lexeme) : HeaderPass := ls.foldl read s

variable {s : HeaderPass} {ls ms : List Lexeme}

@[simp] theorem pass_nil (s : HeaderPass) : s.pass [] = s := rfl

@[simp] theorem pass_cons (s : HeaderPass) (l : Lexeme) (ls : List Lexeme) :
    s.pass (l :: ls) = (s.read l).pass ls := rfl

@[simp] theorem pass_append (s : HeaderPass) (ls ms : List Lexeme) :
    s.pass (ls ++ ms) = (s.pass ls).pass ms := List.foldl_append

end HeaderPass

/-- The word is no brace and begins no declaration of locals. -/
def Lexeme.still : Lexeme → Bool
  | .keyword .var | .symbol .leftBrace | .symbol .rightBrace => false
  | _ => true

/-! ### Words of expressions and of statements -/

mutual

theorem Term.still_lexemes (t : Term) : t.lexemes.all Lexeme.still = true := by
  match t with
  | .integer value | .string text | .variable name => rfl
  | .constant word => cases word <;> rfl
  | .element name index => simp [Term.lexemes, Lexeme.still, index.still_lexemes]
  | .call call => exact call.still_lexemes
  | .group inner => simp [Term.lexemes, Lexeme.still, inner.still_lexemes]
  | .unary op operand =>
    simp only [Term.lexemes, List.all_cons, operand.still_lexemes, Bool.and_true]
    cases op <;> rfl

theorem Expression.still_lexemes (e : Expression) : e.lexemes.all Lexeme.still = true := by
  match e with
  | .term operand => exact operand.still_lexemes
  | .binary left op right =>
    simp only [Expression.lexemes, List.all_append, List.all_cons, left.still_lexemes,
      right.still_lexemes, Bool.and_true, Bool.true_and]
    cases op <;> rfl

theorem Call.still_lexemes (c : Call) : c.lexemes.all Lexeme.still = true := by
  match c with
  | .own name args => simp [Call.lexemes, Lexeme.still, still_argumentLexemes args]
  | .member owner name args => simp [Call.lexemes, Lexeme.still, still_argumentLexemes args]

theorem still_argumentLexemes (es : List Expression) :
    (argumentLexemes es).all Lexeme.still = true := by
  match es with
  | [] => rfl
  | e :: es => simp [argumentLexemes, e.still_lexemes, still_moreArgumentLexemes es]

theorem still_moreArgumentLexemes (es : List Expression) :
    (moreArgumentLexemes es).all Lexeme.still = true := by
  match es with
  | [] => rfl
  | e :: es =>
    simp [moreArgumentLexemes, Lexeme.still, e.still_lexemes, still_moreArgumentLexemes es]

end

namespace HeaderPass

variable {s : HeaderPass} {l : Lexeme} {ls ms : List Lexeme} {c n : String}
  {hs : List Instruction} {k : Nat}

/-- Within a body a word that is still changes nothing. -/
theorem read_of_still (hs : 2 ≤ s.depth) (hd : s.declaring = false) (hl : l.still = true) :
    s.read l = s := by
  have hzero : s.depth ≠ 0 := by omega
  have hone : s.depth ≠ 1 := by omega
  cases l with
  | identifier x => simp [read, hzero, hone]
  | integer value | string text => rfl
  | keyword w => cases w <;> first | rfl | cases hl
  | symbol m =>
    cases m with
    | leftBrace | rightBrace => cases hl
    | leftParen | rightParen => simp [read, hone]
    | comma => simp [read, hd]
    | semicolon =>
      obtain ⟨className, depth, last, name, declaring, locals, complete, current?⟩ := s
      obtain rfl : declaring = false := hd
      rfl
    | _ => rfl

theorem pass_of_still (hs : 2 ≤ s.depth) (hd : s.declaring = false)
    (hls : ls.all Lexeme.still = true) : s.pass ls = s := by
  induction ls with
  | nil => rfl
  | cons l ls ih =>
    obtain ⟨hl, hls⟩ := Bool.and_eq_true_iff.1 hls
    rw [pass_cons, read_of_still hs hd hl]
    exact ih hls

/-- The pass is in the body of a subroutine, where at least `k` braces are open. -/
structure Inside (s : HeaderPass) (c n : String) (hs : List Instruction) (k : Nat) : Prop where
  className : s.className = c
  current? : s.current? = some n
  complete : s.complete = hs
  depth : k ≤ s.depth

theorem Inside.headers (h : s.Inside c n hs k) :
    s.headers = hs ++ [.function (qualified c n) (UInt16.ofNat 0)] := by
  simp [HeaderPass.headers, header, h.className, h.current?, h.complete]

theorem Inside.read (h : s.Inside c n hs k) (hk : 2 ≤ k) (hl : l ≠ .symbol .rightBrace) :
    (s.read l).Inside c n hs k := by
  have hdepth := h.depth
  have hzero : s.depth ≠ 0 := by omega
  have hone : s.depth ≠ 1 := by omega
  cases l with
  | identifier x => simpa [HeaderPass.read, hzero, hone] using h
  | integer value | string text => exact h
  | keyword w =>
    cases w with
    | var => exact ⟨h.className, h.current?, h.complete, h.depth⟩
    | _ => exact h
  | symbol m =>
    cases m with
    | rightBrace => exact absurd rfl hl
    | leftBrace => exact ⟨h.className, h.current?, h.complete, Nat.le_succ_of_le h.depth⟩
    | leftParen | rightParen => simpa [HeaderPass.read, hone] using h
    | comma =>
      simp only [HeaderPass.read]
      split
      · exact ⟨h.className, h.current?, h.complete, h.depth⟩
      · exact h
    | semicolon => exact ⟨h.className, h.current?, h.complete, h.depth⟩
    | _ => exact h

theorem Inside.close (h : s.Inside c n hs (k + 1)) (hk : 2 ≤ k) :
    (s.read (.symbol .rightBrace)).Inside c n hs k := by
  have hdepth := h.depth
  have htwo : s.depth ≠ 2 := by omega
  simp only [HeaderPass.read, if_neg htwo]
  exact ⟨h.className, h.current?, h.complete, by dsimp only; omega⟩

theorem Inside.pass (h : s.Inside c n hs k) (hk : 2 ≤ k)
    (hls : ∀ l ∈ ls, l ≠ .symbol .rightBrace) : (s.pass ls).Inside c n hs k := by
  induction ls generalizing s with
  | nil => exact h
  | cons l ls ih =>
    obtain ⟨hl, hls⟩ := List.forall_mem_cons.1 hls
    exact ih (h.read hk hl) hls

end HeaderPass

open HeaderPass

/-- The braces of the words match, and no locals are declared. -/
structure Matched (ls : List Lexeme) : Prop where
  pass : ∀ s : HeaderPass, 2 ≤ s.depth → s.declaring = false → s.pass ls = s
  inside : ∀ {s : HeaderPass} {c n hs k}, s.Inside c n hs k → 2 ≤ k → ∀ part more,
    ls = part ++ more → (s.pass part).Inside c n hs k

theorem ne_rightBrace_of_still {l : Lexeme} (h : l.still = true) : l ≠ .symbol .rightBrace := by
  rintro rfl
  cases h

namespace Matched

variable {ls ms : List Lexeme}

theorem of_still (h : ls.all Lexeme.still = true) : Matched ls := by
  refine ⟨fun s hs hd => pass_of_still hs hd h, ?_⟩
  rintro s c n hs k hinside hk part more rfl
  refine hinside.pass hk fun l hl => ne_rightBrace_of_still ?_
  exact List.all_eq_true.1 h l (List.mem_append_left _ hl)

theorem append (h : Matched ls) (h' : Matched ms) : Matched (ls ++ ms) := by
  constructor
  · intro s hs hd
    rw [pass_append, h.pass s hs hd, h'.pass s hs hd]
  · intro s c n hs k hinside hk part more hsplit
    rcases List.append_eq_append_iff.1 hsplit with ⟨front, rfl, hms⟩ | ⟨back, hls, -⟩
    · rw [pass_append]
      exact h'.inside (h.inside hinside hk ls [] (List.append_nil ls).symm) hk front more hms
    · exact h.inside hinside hk part back hls

theorem inBraces (h : Matched ls) : Matched (inBraces ls) := by
  constructor
  · intro s hs hd
    have hbody := h.pass (s.read (.symbol .leftBrace)) (Nat.le_succ_of_le hs) hd
    have htwo : s.depth + 1 ≠ 2 := by omega
    rw [Jack.inBraces, List.cons_append, pass_cons, pass_append, hbody]
    simp only [pass_cons, pass_nil, HeaderPass.read, if_neg htwo, Nat.add_sub_cancel]
  · intro s c n hs k hinside hk part more hsplit
    cases part with
    | nil => exact hinside
    | cons l part =>
      obtain ⟨hl, htail⟩ := List.cons.inj hsplit
      replace htail : ls ++ [.symbol .rightBrace] = part ++ more := htail
      subst hl
      have hopen : (s.read (.symbol .leftBrace)).Inside c n hs (k + 1) :=
        ⟨hinside.className, hinside.current?, hinside.complete, Nat.succ_le_succ hinside.depth⟩
      have hweaken : ∀ {t : HeaderPass}, t.Inside c n hs (k + 1) → t.Inside c n hs k :=
        fun ht => ⟨ht.className, ht.current?, ht.complete, Nat.le_of_succ_le ht.depth⟩
      rw [pass_cons]
      rcases List.append_eq_append_iff.1 htail with ⟨front, rfl, hms⟩ | ⟨back, hls, -⟩
      · have hall := h.inside hopen (by omega) ls [] (List.append_nil ls).symm
        rw [pass_append]
        cases front with
        | nil => exact hweaken hall
        | cons m front =>
          obtain ⟨hm, hnil⟩ := List.cons.inj hms
          obtain ⟨rfl, -⟩ := List.append_eq_nil_iff.1 hnil.symm
          subst hm
          exact hall.close hk
      · exact hweaken (h.inside hopen (by omega) part back hls)

end Matched

mutual

theorem Statement.matched (s : Statement) : Matched s.lexemes := by
  match s with
  | .letVariable target value =>
    exact .of_still (by simp [Statement.lexemes, Lexeme.still, value.still_lexemes])
  | .letElement target index value =>
    exact .of_still (by
      simp [Statement.lexemes, Lexeme.still, index.still_lexemes, value.still_lexemes])
  | .if_ condition body otherwise =>
    have hcondition : Matched (.keyword .if_ :: condition.conditionLexemes) :=
      .of_still (by simp [Expression.conditionLexemes, Lexeme.still, condition.still_lexemes])
    exact (hcondition.append (statements_matched body).inBraces).append
      (otherwise_matched otherwise)
  | .while_ condition body =>
    have hcondition : Matched (.keyword .while_ :: condition.conditionLexemes) :=
      .of_still (by simp [Expression.conditionLexemes, Lexeme.still, condition.still_lexemes])
    exact hcondition.append (statements_matched body).inBraces
  | .do_ call => exact .of_still (by simp [Statement.lexemes, Lexeme.still, call.still_lexemes])
  | .return_ none => exact .of_still rfl
  | .return_ (some value) =>
    exact .of_still (by simp [Statement.lexemes, Lexeme.still, value.still_lexemes])

theorem statements_matched (ss : List Statement) : Matched (statementLexemes ss) := by
  match ss with
  | [] => exact .of_still rfl
  | s :: ss => exact s.matched.append (statements_matched ss)

theorem otherwise_matched (o : Option (List Statement)) : Matched (otherwiseLexemes o) := by
  match o with
  | none => exact .of_still rfl
  | some body =>
    have helse : Matched [.keyword .else_] := .of_still rfl
    exact helse.append (statements_matched body).inBraces

end

/-! ### Words of declarations -/

/-- The words of a subroutine up to the end of its parameters. -/
def SubroutineDec.signature (d : SubroutineDec) : List Lexeme :=
  .keyword d.role.keyword :: resultLexeme d.result :: .identifier d.name :: .symbol .leftParen
    :: parameterLexemes d.parameters

theorem SubroutineDec.headLexemes_eq (d : SubroutineDec) :
    d.headLexemes = d.signature ++ [.symbol .rightParen] := rfl

/-- The word ends no parameters, and is still. -/
def Lexeme.outside (l : Lexeme) : Bool := l.still && l != .symbol .rightParen

theorem outside_parameterLexemes (ps : List Parameter) :
    (parameterLexemes ps).all (fun l => l.outside && l != .symbol .leftParen) = true := by
  have hparameter : ∀ p : Parameter,
      p.lexemes.all (fun l => l.outside && l != .symbol .leftParen) = true := by
    rintro ⟨type, name⟩
    cases type <;> rfl
  cases ps with
  | nil => rfl
  | cons p ps =>
    rw [parameterLexemes, List.all_append, hparameter, List.all_flatMap, Bool.true_and]
    refine List.all_eq_true.2 fun q _ => ?_
    rw [List.all_cons, hparameter]
    rfl

theorem SubroutineDec.outside_signature (d : SubroutineDec) :
    d.signature.all Lexeme.outside = true := by
  have hparameters : (parameterLexemes d.parameters).all Lexeme.outside = true := by
    refine List.all_eq_true.2 fun l hl => ?_
    exact (Bool.and_eq_true_iff.1 (List.all_eq_true.1 (outside_parameterLexemes _) l hl)).1
  have hrole : (Lexeme.keyword d.role.keyword).outside = true := by cases d.role <;> rfl
  have hresult : (resultLexeme d.result).outside = true := by
    cases d.result with
    | none => rfl
    | some type => cases type <;> rfl
  simp only [signature, List.all_cons, hparameters, hrole, hresult]
  rfl

theorem ClassVarDec.outside_lexemes (v : ClassVarDec) :
    v.lexemes.all Lexeme.outside = true := by
  obtain ⟨kind, hkind, type, first, more⟩ := v
  have htype : type.lexeme.outside = true := by cases type <;> rfl
  have hkeyword : (Lexeme.keyword kind.keyword).outside = true := by cases kind <;> rfl
  simp only [ClassVarDec.lexemes, nameLexemes, List.all_append, List.all_cons, htype, hkeyword,
    List.all_flatMap]
  simp [Lexeme.outside, Lexeme.still]

theorem VarDec.ne_rightBrace {v : VarDec} {l : Lexeme} (h : l ∈ v.lexemes) :
    l ≠ .symbol .rightBrace := by
  obtain ⟨type, first, more⟩ := v
  rintro rfl
  cases type <;> simp [VarDec.lexemes, nameLexemes, TypeName.lexeme] at h

/-- What ends before the last of some words ends within those before it. -/
theorem exists_append_of_concat_eq {ls part more : List Lexeme} {l : Lexeme}
    (h : ls ++ [l] = part ++ more) (hmore : more ≠ []) : ∃ back, ls = part ++ back := by
  rcases List.eq_nil_or_concat more with rfl | ⟨back, m, rfl⟩
  · exact absurd rfl hmore
  · rw [List.concat_eq_append, ← List.append_assoc] at h
    exact ⟨back, (List.append_inj' h rfl).1⟩

namespace HeaderPass

variable {s : HeaderPass} {l : Lexeme} {ls part more : List Lexeme} {c : String}
  {hs : List Instruction} {x? : Option String} {k m : Nat}

/-- What the pass has found so far, outside the declarations of locals. -/
structure Stands (s : HeaderPass) (c : String) (hs : List Instruction) (x? : Option String)
    (k m : Nat) : Prop where
  className : s.className = c
  complete : s.complete = hs
  current? : s.current? = x?
  depth : s.depth = k
  locals : s.locals = m
  declaring : s.declaring = false

theorem Stands.headers_none (h : s.Stands c hs none k m) : s.headers = hs := by
  simp [HeaderPass.headers, header, h.current?, h.complete]

theorem Stands.inside {n : String} (h : s.Stands c hs (some n) k m) : s.Inside c n hs k :=
  ⟨h.className, h.current?, h.complete, Nat.le_of_eq h.depth.symm⟩

theorem Stands.read (h : s.Stands c hs x? 1 m) (hl : l.outside = true) :
    (s.read l).Stands c hs x? 1 m := by
  have hone := h.depth
  have hzero : s.depth ≠ 0 := by omega
  cases l with
  | identifier y =>
    simp only [HeaderPass.read, if_neg hzero, if_pos hone]
    exact ⟨h.className, h.complete, h.current?, hone, h.locals, h.declaring⟩
  | integer value | string text => exact h
  | keyword w => cases w <;> first | exact h | cases hl
  | symbol p =>
    cases p with
    | leftBrace | rightBrace | rightParen => cases hl
    | leftParen =>
      simp only [HeaderPass.read, if_pos hone]
      exact ⟨h.className, h.complete, h.current?, hone, h.locals, h.declaring⟩
    | comma => simpa [HeaderPass.read, h.declaring] using h
    | semicolon => exact ⟨h.className, h.complete, h.current?, hone, h.locals, rfl⟩
    | _ => exact h

theorem Stands.pass (h : s.Stands c hs x? 1 m) (hls : ls.all Lexeme.outside = true) :
    (s.pass ls).Stands c hs x? 1 m := by
  induction ls generalizing s with
  | nil => exact h
  | cons l ls ih =>
    obtain ⟨hl, hls⟩ := Bool.and_eq_true_iff.1 hls
    exact ih (h.read hl) hls

theorem name_read (s : HeaderPass) (hl : l ≠ .symbol .leftParen) : (s.read l).name = s.name := by
  cases l with
  | identifier x =>
    simp only [HeaderPass.read]
    split
    · rfl
    · split <;> rfl
  | integer value | string text => rfl
  | keyword w => cases w <;> rfl
  | symbol p =>
    cases p with
    | leftParen => exact absurd rfl hl
    | rightBrace | rightParen | comma =>
      simp only [HeaderPass.read]
      split <;> rfl
    | _ => rfl

theorem name_pass (s : HeaderPass) (hls : ∀ l ∈ ls, l ≠ .symbol .leftParen) :
    (s.pass ls).name = s.name := by
  induction ls generalizing s with
  | nil => rfl
  | cons l ls ih =>
    obtain ⟨hl, hls⟩ := List.forall_mem_cons.1 hls
    rw [pass_cons, ih _ hls, name_read s hl]

/-- The name at hand is that before the last parenthesis. -/
theorem name_read_leftParen (hone : s.depth = 1) (name : String) :
    ((s.read (.identifier name)).read (.symbol .leftParen)).name = name := by
  simp [HeaderPass.read, hone]

theorem Stands.name_signature (h : s.Stands c hs x? 1 m) (d : SubroutineDec) :
    (s.pass d.signature).name = d.name := by
  have hresult : [.keyword d.role.keyword, resultLexeme d.result].all Lexeme.outside = true := by
    have hall := d.outside_signature
    simp only [SubroutineDec.signature, List.all_cons, Bool.and_eq_true] at hall
    simp [hall.1, hall.2.1]
  have hone : ((s.read (.keyword d.role.keyword)).read (resultLexeme d.result)).depth = 1 :=
    (h.pass hresult).depth
  have hparameters : ∀ l ∈ parameterLexemes d.parameters, l ≠ .symbol .leftParen := by
    intro l hl
    have hall := List.all_eq_true.1 (outside_parameterLexemes d.parameters) l hl
    exact bne_iff_ne.1 (Bool.and_eq_true_iff.1 hall).2
  rw [SubroutineDec.signature, pass_cons, pass_cons, pass_cons, pass_cons, name_pass _ hparameters]
  exact name_read_leftParen hone d.name

/-- The header of a subroutine is there once its parameters are over. -/
theorem Stands.head (h : s.Stands c hs none 1 m) (d : SubroutineDec) :
    (s.pass d.headLexemes).Stands c hs (some d.name) 1 m := by
  have hsignature := h.pass d.outside_signature
  rw [d.headLexemes_eq, pass_append, pass_cons, pass_nil]
  simp only [HeaderPass.read, if_pos hsignature.depth, h.name_signature d]
  exact ⟨hsignature.className, hsignature.complete, rfl, hsignature.depth, hsignature.locals,
    hsignature.declaring⟩

theorem Stands.head_part {d : SubroutineDec} (h : s.Stands c hs none 1 m)
    (hpart : d.headLexemes = part ++ more) (hmore : more ≠ []) :
    (s.pass part).Stands c hs none 1 m := by
  rw [d.headLexemes_eq] at hpart
  obtain ⟨back, hback⟩ := exists_append_of_concat_eq hpart hmore
  have hall := d.outside_signature
  rw [hback, List.all_append, Bool.and_eq_true_iff] at hall
  exact h.pass hall.1

theorem pass_moreNames (hs : 2 ≤ s.depth) (hd : s.declaring = true) (names : List String) :
    s.pass (names.flatMap fun name => [.symbol .comma, .identifier name])
      = { s with locals := s.locals + names.length } := by
  have hzero : s.depth ≠ 0 := by omega
  have hone : s.depth ≠ 1 := by omega
  induction names generalizing s with
  | nil => rfl
  | cons name names ih =>
    have hcount : s.pass [.symbol .comma, .identifier name]
        = { s with locals := s.locals + 1 } := by
      simp [HeaderPass.read, hd, hzero, hone]
    have hrest := ih (s := { s with locals := s.locals + 1 }) hs hd hzero hone
    rw [List.flatMap_cons, pass_append, hcount, hrest, List.length_cons]
    simp only [Nat.add_assoc, Nat.add_comm 1]

/-- A declaration of locals counts its names. -/
theorem Stands.varDec (h : s.Stands c hs x? 2 m) (v : VarDec) :
    (s.pass v.lexemes).Stands c hs x? 2 (m + v.names.length) := by
  obtain ⟨type, first, more⟩ := v
  have hdepth := h.depth
  have hfirst : s.pass [.keyword .var, type.lexeme, .identifier first]
      = { s with declaring := true, locals := s.locals + 1 } := by
    cases type <;> simp [HeaderPass.read, TypeName.lexeme, hdepth]
  have hlexemes : VarDec.lexemes ⟨type, first, more⟩
      = [.keyword .var, type.lexeme, .identifier first]
        ++ (more.flatMap (fun name => [.symbol .comma, .identifier name])
          ++ [.symbol .semicolon]) := by
    simp [VarDec.lexemes, nameLexemes]
  have hmore := pass_moreNames (s := { s with declaring := true, locals := s.locals + 1 })
    (Nat.le_of_eq hdepth.symm) rfl more
  rw [hlexemes, pass_append, hfirst, pass_append, hmore]
  refine ⟨h.className, h.complete, h.current?, hdepth, ?_, rfl⟩
  simp only [pass_cons, pass_nil, HeaderPass.read, VarDec.names, List.length_cons, h.locals]
  omega

theorem Stands.varDecs (h : s.Stands c hs x? 2 m) (vars : List VarDec) :
    (s.pass (vars.flatMap VarDec.lexemes)).Stands c hs x? 2
      (m + (vars.flatMap VarDec.names).length) := by
  induction vars generalizing s m with
  | nil => exact h
  | cons v vars ih =>
    rw [List.flatMap_cons, List.flatMap_cons, pass_append, List.length_append, ← Nat.add_assoc]
    exact ih (h.varDec v)

theorem Stands.openBody (h : s.Stands c hs x? 1 m) :
    (s.read (.symbol .leftBrace)).Stands c hs x? 2 m :=
  ⟨h.className, h.complete, h.current?, congrArg (· + 1) h.depth, h.locals, h.declaring⟩

theorem Stands.closeBody {n : String} (h : s.Stands c hs (some n) 2 m) :
    (s.read (.symbol .rightBrace)).Stands c
      (hs ++ [.function (qualified c n) (UInt16.ofNat m)]) none 1 0 := by
  simp only [HeaderPass.read, if_pos h.depth]
  refine ⟨h.className, ?_, rfl, rfl, rfl, h.declaring⟩
  simp [header, h.complete, h.current?, h.className, h.locals]

/-- A subroutine that is complete has a header with its locals. -/
theorem Stands.subroutine (h : s.Stands c hs none 1 0) (d : SubroutineDec) :
    (s.pass d.lexemes).Stands c (hs ++ [d.header c d.localCount]) none 1 0 := by
  have hvars := (h.head d).openBody.varDecs d.vars
  rw [Nat.zero_add] at hvars
  have hbody := (statements_matched d.body).pass _ (Nat.le_of_eq hvars.depth.symm) hvars.declaring
  rw [d.lexemes_eq, bodyLexemes, pass_append, pass_cons, pass_append, pass_append, hbody]
  exact hvars.closeBody

/-- A subroutine whose body has begun has a header without locals. -/
theorem Stands.headers_body {d : SubroutineDec} (h : s.Stands c hs none 1 m)
    (hpart : d.lexemes = d.headLexemes ++ part ++ more) (hmore : more ≠ []) :
    (s.pass (d.headLexemes ++ part)).headers = hs ++ [d.header c 0] := by
  have hhead := h.head d
  rw [pass_append]
  cases part with
  | nil =>
    simp [HeaderPass.headers, header, hhead.current?, hhead.complete, hhead.className,
      SubroutineDec.header]
  | cons l part =>
    rw [d.lexemes_eq, List.append_assoc, List.append_cancel_left_eq] at hpart
    obtain ⟨hl, hbody⟩ := List.cons.inj hpart
    subst hl
    have hopen : ((s.pass d.headLexemes).read (.symbol .leftBrace)).Inside c d.name hs 2 :=
      hhead.openBody.inside
    obtain ⟨back, hback⟩ := exists_append_of_concat_eq hbody hmore
    have hvars : ∀ l ∈ d.vars.flatMap VarDec.lexemes, l ≠ .symbol .rightBrace := by
      intro l hl
      obtain ⟨v, -, hv⟩ := List.mem_flatMap.1 hl
      exact VarDec.ne_rightBrace hv
    have hpass : ((s.pass d.headLexemes).pass (.symbol .leftBrace :: part)).Inside c d.name hs
        2 := by
      rw [pass_cons]
      rcases List.append_eq_append_iff.1 hback with ⟨front, rfl, hstatements⟩ | ⟨rest, hrest, -⟩
      · rw [pass_append]
        exact (statements_matched d.body).inside (hopen.pass (Nat.le_refl 2) hvars) (Nat.le_refl 2)
          front back hstatements
      · refine hopen.pass (Nat.le_refl 2) fun l hl => hvars l ?_
        rw [hrest]
        exact List.mem_append_left _ hl
    exact hpass.headers

theorem Stands.subroutines (h : s.Stands c hs none 1 0) (ds : List SubroutineDec) :
    (s.pass (ds.flatMap SubroutineDec.lexemes)).Stands c
      (hs ++ ds.map fun d => d.header c d.localCount) none 1 0 := by
  induction ds generalizing s hs with
  | nil => rwa [List.map_nil, List.append_nil]
  | cons d ds ih =>
    have hrest := ih (h.subroutine d)
    rw [List.flatMap_cons, pass_append, List.map_cons]
    rwa [List.append_assoc, List.singleton_append] at hrest

/-- Before another subroutine every header is that of a complete one. -/
theorem stands_openLexemes (c : ClassDec) :
    (initial.pass c.openLexemes).Stands c.name c.headers none 1 0 := by
  have hbrace : (initial.pass [.keyword .class_, .identifier c.name, .symbol .leftBrace]).Stands
      c.name [] none 1 0 := ⟨rfl, rfl, rfl, rfl, rfl, rfl⟩
  have hvars : (c.vars.flatMap ClassVarDec.lexemes).all Lexeme.outside = true := by
    rw [List.all_flatMap]
    exact List.all_eq_true.2 fun v _ => v.outside_lexemes
  have hsubroutines := (hbrace.pass hvars).subroutines c.subroutines
  rw [List.nil_append] at hsubroutines
  have hopen : c.openLexemes = [.keyword .class_, .identifier c.name, .symbol .leftBrace]
      ++ c.vars.flatMap ClassVarDec.lexemes ++ c.subroutines.flatMap SubroutineDec.lexemes := by
    simp [ClassDec.openLexemes]
  rw [hopen, pass_append, pass_append]
  exact hsubroutines

theorem Stands.headers_within {d : SubroutineDec} (h : s.Stands c hs none 1 m)
    (hpart : d.lexemes = part ++ more) (hmore : more ≠ []) :
    (s.pass part).headers = hs ++ if d.headLexemes <+: part then [d.header c 0] else [] := by
  by_cases hhead : d.headLexemes <+: part
  · obtain ⟨rest, rfl⟩ := hhead
    rw [if_pos (List.prefix_append _ _)]
    exact h.headers_body hpart hmore
  · rw [if_neg hhead, List.append_nil]
    rw [d.lexemes_eq] at hpart
    rcases List.append_eq_append_iff.1 hpart with ⟨front, rfl, -⟩ | ⟨back, hback, -⟩
    · exact absurd (List.prefix_append _ _) hhead
    · refine (h.head_part hback ?_).headers_none
      rintro rfl
      rw [List.append_nil] at hback
      exact hhead (hback ▸ List.prefix_rfl)

end HeaderPass

/-- One pass finds the headers. -/
theorem HeadersAfter.headers_pass {ws : List Lexeme} {is : List Instruction}
    (h : HeadersAfter ws is) : (HeaderPass.initial.pass ws).headers = is := by
  cases h with
  | @opening _ ws more h hmore =>
    rcases ws with - | ⟨a, - | ⟨b, - | ⟨l, ws⟩⟩⟩
    · rfl
    · cases h
      rfl
    · cases h
      rfl
    · have hlength := congrArg List.length h
      have hpos := List.length_pos_iff.2 hmore
      simp only [List.length_cons, List.length_append, List.length_nil] at hlength
      omega
  | @declaring c v part more hc h hmore =>
    have hstands := HeaderPass.stands_openLexemes c
    have hnone : c.headers = [] := by rw [ClassDec.headers, hc]; rfl
    have hpart := v.outside_lexemes
    rw [h, List.all_append, Bool.and_eq_true_iff] at hpart
    rw [HeaderPass.pass_append, ← hnone]
    exact (hstands.pass hpart.1).headers_none
  | @between c part hc h =>
    have hstands := HeaderPass.stands_openLexemes c
    rw [HeaderPass.pass_append]
    rcases h with rfl | rfl
    · exact hstands.headers_none
    · have hclose : ((HeaderPass.initial.pass c.openLexemes).read (.symbol .rightBrace)).headers
          = (HeaderPass.initial.pass c.openLexemes).headers := by
        simp only [HeaderPass.read, hstands.depth]
        rfl
      exact hclose.trans hstands.headers_none
  | @within c d part more hc h hmore =>
    rw [HeaderPass.pass_append]
    exact (HeaderPass.stands_openLexemes c).headers_within h hmore

/-- The words alone decide the headers. -/
theorem HeadersAfter.unique {ws : List Lexeme} {is js : List Instruction}
    (h : HeadersAfter ws is) (h' : HeadersAfter ws js) : is = js :=
  h.headers_pass.symm.trans h'.headers_pass

end Jack
