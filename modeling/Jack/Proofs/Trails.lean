import Jack.Proofs.Steady

/-! The trail of a subroutine while it is read: its tokens, those that are operators marked with
their instructions, the place that the next instruction would stand for, and the instructions of
operators that are still to come. -/

namespace Jack

/-! ### Tokens that are operators -/

/-- Where a mark can be an operator: before a term, or behind one. -/
inductive Edge where
  | opening | closing
  deriving DecidableEq, Repr

/-- The edge of a term that is reached with an action. -/
def Action.edge? : Action → Option Edge
  | .enter .term => some .opening
  | .leave .term => some .closing
  | _ => none

/-- The instruction of the operator that a word is at an edge. -/
def Lexeme.operator? (edge? : Option Edge) : Lexeme → Option Instruction
  | .symbol m =>
    match edge? with
    | some .opening => (UnaryOp.ofMark? m).map fun op => .arithmetic op.command
    | some .closing => (BinaryOp.ofMark? m).map BinaryOp.instruction
    | none => none
  | .keyword _ | .integer _ | .string _ | .identifier _ => none

def Action.read? : Action → Option Token
  | .take t => some t
  | .declare _ o _ _ | .mention o | .mentionFirst o => some o.token
  | _ => none

/-- A token that was read, and the instruction of the operator that it is. -/
structure Reading where
  token : Token
  operator? : Option Instruction
  deriving DecidableEq, Repr

/-- The place is that of a token that is no operator. -/
def IsPlain (rs : List Reading) (p : Position) : Prop :=
  ∃ t : Token, ⟨t, none⟩ ∈ rs ∧ t.position = p

theorem IsPlain.append {rs : List Reading} {p : Position} (h : IsPlain rs p) (more : List Reading) :
    IsPlain (rs ++ more) p := by
  obtain ⟨t, ht, hp⟩ := h
  exact ⟨t, List.mem_append_left _ ht, hp⟩

theorem isPlain_concat (rs : List Reading) (t : Token) : IsPlain (rs ++ [⟨t, none⟩]) t.position :=
  ⟨t, List.mem_append_right _ (.head _), rfl⟩

/-- The third token is this name, as it is in a subroutine. -/
def HasName (rs : List Reading) (name : String) : Prop :=
  rs[2]?.map (·.token.lexeme) = some (.identifier name)

theorem HasName.append {rs : List Reading} {name : String} (h : HasName rs name)
    (more : List Reading) : HasName (rs ++ more) name := by
  obtain ⟨r, hr, hname⟩ := Option.map_eq_some_iff.1 h
  obtain ⟨hlt, -⟩ := List.getElem?_eq_some_iff.1 hr
  rw [HasName, List.getElem?_append_left hlt]
  exact h

/-! ### Trails -/

structure Trail where
  /-- The name of the subroutine, once its header is emitted. -/
  name? : Option String
  readings : List Reading
  edge? : Option Edge
  place : Position
  /-- The instructions of operators that were read, the next one to be emitted first. -/
  waiting : List Emitted

namespace Trail

def read (tr : Trail) (t : Token) : Trail :=
  match t.lexeme.operator? tr.edge? with
  | some i => ⟨tr.name?, tr.readings ++ [⟨t, some i⟩], none, t.position,
      ⟨i, t.position⟩ :: tr.waiting⟩
  | none => ⟨tr.name?, tr.readings ++ [⟨t, none⟩], none, t.position, tr.waiting⟩

def after (tr : Trail) : Action → Trail
  | .take t => tr.read t
  | .declare _ o _ _ | .mention o | .mentionFirst o => tr.read o.token
  | .emitAt p _ => { tr with edge? := none, place := p, waiting := tr.waiting.tail }
  | .call _ callee _ => { tr with edge? := none, place := callee.first.position }
  | .header name => { tr with edge? := none, name? := some name }
  | a => { tr with edge? := a.edge? }

def afterAll (tr : Trail) (as : List Action) : Trail := as.foldl after tr

def tokens (tr : Trail) : List Token := tr.readings.map Reading.token

/-- What the action emits, if anything, may stand where it comes to stand. -/
def Allows (tr : Trail) : Action → Prop
  | .nameClass _ => False
  | .header name => tr.name? = none ∧ IsPlain tr.readings tr.place ∧ HasName tr.readings name
  | .load _ _ | .store _ _ | .loadReceiver _ | .preamble _ =>
    tr.name?.isSome ∧ IsPlain tr.readings tr.place
  | .emit code => tr.name?.isSome ∧ IsPlain tr.readings tr.place ∧ Headless code
  | .emitAt p code => tr.name?.isSome
      ∧ ∃ i owed, code = [i] ∧ i.header? = none ∧ tr.waiting = ⟨i, p⟩ :: owed
  | .call _ callee _ => tr.name?.isSome ∧ IsPlain tr.readings callee.first.position
  | .complete _ => tr.name?.isSome
  | .enter _ | .leave _ | .take _ | .startSubroutine | .declare _ _ _ _ | .declareThis _
    | .mention _ | .mentionFirst _ | .require _ _ => True

def AllowsAll (tr : Trail) : List Action → Prop
  | [] => True
  | a :: as => tr.Allows a ∧ (tr.after a).AllowsAll as

@[simp] theorem afterAll_nil (tr : Trail) : tr.afterAll [] = tr := rfl

@[simp] theorem afterAll_cons (tr : Trail) (a : Action) (as : List Action) :
    tr.afterAll (a :: as) = (tr.after a).afterAll as := rfl

end Trail

/-! ### The tokens that a step reads -/

def tokensRead (as : List Action) : List Token := as.filterMap Action.read?

theorem Action.read?_eq_none {a : Action} (h : a.reads = 0) : a.read? = none := by
  cases a with
  | take t | declare p o type kind | mention o | mentionFirst o => cases h
  | _ => rfl

section

variable {c d : Cursor} {t : Token} {s : Step}

theorem Cursor.rest_of_read? {l : Lexeme} (h : c.read? l = some (t, d)) :
    c.rest = t :: d.rest := by
  unfold Cursor.read? at h
  split at h
  · rename_i hc
    split at h
    · cases h
      exact hc
    · cases h
  · cases h

theorem Cursor.rest_of_keyword? {k : Keyword} (h : c.keyword? = some (k, t, d)) :
    c.rest = t :: d.rest := by
  unfold Cursor.keyword? at h
  split at h
  · rename_i hc
    cases h
    exact hc
  · cases h

theorem Cursor.rest_of_name? {o : Occurrence} (h : c.name? = some (o, d)) :
    c.rest = o.token :: d.rest := by
  unfold Cursor.name? at h
  split at h
  · rename_i hc
    cases h
    exact hc
  · cases h

theorem Cursor.rest_of_type {p : Production} {type : String} (h : c.type p = .ok (type, t, d)) :
    c.rest = t :: d.rest := by
  unfold Cursor.type at h
  split at h
  · rename_i hc
    cases h
    exact hc
  · rename_i hc
    split at h
    · cases h
      exact hc
    · cases h
  · cases h

theorem rest_meetClassVarDecs (c : Cursor) :
    c.rest = tokensRead (meetClassVarDecs c).actions ++ (meetClassVarDecs c).cursor.rest := by
  unfold meetClassVarDecs
  split
  · rename_i hc
    split
    · exact Cursor.rest_of_keyword? hc
    · rfl
  · rfl

theorem rest_meetSubroutineDecs (c : Cursor) :
    c.rest = tokensRead (meetSubroutineDecs c).actions ++ (meetSubroutineDecs c).cursor.rest := by
  unfold meetSubroutineDecs
  split
  · rename_i hc
    split
    · exact Cursor.rest_of_keyword? hc
    · rfl
  · rfl

theorem rest_meetAfterName {declared : Declaration} {type : String} {count : UInt16}
    {position : Position} (h : meetAfterName c declared type count position = .ok s) :
    c.rest = tokensRead s.actions ++ s.cursor.rest := by
  unfold meetAfterName at h
  split at h
  · cases h
  · split at h
    · rename_i hc
      split at h <;> cases h <;> exact Cursor.rest_of_read? hc
    · split at h
      · cases h
        rfl
      · split at h
        · rename_i hc
          cases h
          exact Cursor.rest_of_read? hc
        · cases h

theorem rest_meetSubroutineName {role : Role} (h : meetSubroutineName c role = .ok s) :
    c.rest = tokensRead s.actions ++ s.cursor.rest := by
  unfold meetSubroutineName at h
  split at h
  · rename_i hc
    cases h
    rw [Cursor.rest_of_name? hc]
    cases role <;> rfl
  · cases h

theorem rest_meetStatements (c : Cursor) :
    c.rest = tokensRead (meetStatements c).actions ++ (meetStatements c).cursor.rest := by
  unfold meetStatements
  split
  case h_6 => rfl
  all_goals
    rename_i hc
    have hrest := Cursor.rest_of_keyword? hc
    exact hrest

theorem rest_meetName {o : Occurrence} (h : c.rest = o.token :: d.rest) :
    c.rest = tokensRead (meetName c o d).actions ++ (meetName c o d).cursor.rest := by
  unfold meetName
  split
  · exact h
  · split
    · rfl
    · exact h

theorem rest_meetTerm (h : meetTerm c = .ok s) :
    c.rest = tokensRead s.actions ++ s.cursor.rest := by
  unfold meetTerm at h
  split at h
  · cases h
  · rename_i t rest hc
    split at h
    · cases h
      exact hc
    · cases h
      exact hc
    · rename_i name hl
      cases h
      obtain ⟨l, p⟩ := t
      obtain rfl : l = .identifier name := hl
      exact rest_meetName hc
    · split at h
      · cases h
        exact hc
      · cases h
    · split at h
      · cases h
        exact hc
      · split at h
        · cases h
          exact hc
        · cases h

theorem tokensRead_emitAt (waiting : List (BinaryOp × Position)) :
    tokensRead (waiting.map fun w => .emitAt w.2 [w.1.instruction]) = [] := by
  rw [tokensRead, List.filterMap_eq_nil_iff]
  intro a ha
  obtain ⟨w, -, rfl⟩ := List.mem_map.1 ha
  rfl

theorem rest_meetOperands (c : Cursor) (waiting : List (BinaryOp × Position)) :
    c.rest = tokensRead (meetOperands c waiting).actions
      ++ (meetOperands c waiting).cursor.rest := by
  unfold meetOperands
  split
  · rename_i hc
    split
    · exact hc
    · simp only [tokensRead_emitAt, List.nil_append]
  · simp only [tokensRead_emitAt, List.nil_append]

/-- The tokens that a step reads are those of its actions. -/
theorem Goal.rest_eq_of_meet {g : Goal} (hq : g.quiet = true) (h : g.meet c = .ok s) :
    c.rest = tokensRead s.actions ++ s.cursor.rest := by
  cases g with
  | due a =>
    cases h
    simp [tokensRead, Action.read?_eq_none (eq_of_beq hq)]
  | classVarDecs =>
    cases h
    exact rest_meetClassVarDecs c
  | subroutineDecs =>
    cases h
    exact rest_meetSubroutineDecs c
  | afterName declared type count position => exact rest_meetAfterName h
  | subroutineName role => exact rest_meetSubroutineName h
  | statements =>
    cases h
    exact rest_meetStatements c
  | term => exact rest_meetTerm h
  | operands waiting =>
    cases h
    exact rest_meetOperands c waiting
  | body role locals =>
    cases h
    unfold meetBody
    split
    · rename_i hc
      exact Cursor.rest_of_read? hc
    · rfl
  | letValue target =>
    cases h
    unfold meetLetValue
    split
    · rename_i hc
      exact Cursor.rest_of_read? hc
    · rfl
  | callee p first =>
    cases h
    unfold meetCallee
    split
    · rename_i hc
      exact Cursor.rest_of_read? hc
    · rfl
  | moreArguments p target count position =>
    simp only [Goal.meet, meetMoreArguments] at h
    split at h
    · cases h
    · split at h
      · rename_i hc
        cases h
        exact Cursor.rest_of_read? hc
      · cases h
        rfl
  | mark p m | classWord =>
    simp only [Goal.meet] at h
    split at h
    · rename_i hc
      cases h
      exact Cursor.rest_of_read? hc
    · cases h
  | className | named declared type count | letTarget | call p | member p owner =>
    simp only [Goal.meet] at h
    split at h
    · rename_i hc
      cases h
      exact Cursor.rest_of_name? hc
    · cases h
  | typed declared count =>
    simp only [Goal.meet] at h
    split at h
    · rename_i hc
      cases h
      exact Cursor.rest_of_type hc
    · cases h
  | resultType =>
    simp only [Goal.meet] at h
    split at h
    · rename_i hc
      cases h
      exact Cursor.rest_of_read? hc
    · split at h
      · rename_i hc
        cases h
        exact Cursor.rest_of_type hc
      · cases h
  | otherwise =>
    simp only [Goal.meet] at h
    split at h
    · rename_i hc
      cases h
      exact Cursor.rest_of_read? hc
    · cases h
      rfl
  | endOfFile | counted role before count start =>
    simp only [Goal.meet] at h
    split at h <;> cases h
    rfl
  | parameters | returned | arguments p target =>
    simp only [Goal.meet] at h
    split at h <;> cases h <;> rfl

end

theorem Trail.tokens_after (tr : Trail) (a : Action) :
    (tr.after a).tokens = tr.tokens ++ a.read?.toList := by
  have hread : ∀ t, (tr.read t).tokens = tr.tokens ++ [t] := by
    intro t
    rw [read]
    split <;> simp [tokens]
  cases a with
  | take t | declare p o type kind | mention o | mentionFirst o => exact hread _
  | _ => exact (List.append_nil _).symm

theorem tokensRead_cons (a : Action) (as : List Action) :
    tokensRead (a :: as) = a.read?.toList ++ tokensRead as := by
  rw [tokensRead, List.filterMap_cons]
  cases a.read? <;> rfl

theorem Trail.tokens_afterAll (tr : Trail) (as : List Action) :
    (tr.afterAll as).tokens = tr.tokens ++ tokensRead as := by
  induction as generalizing tr with
  | nil => exact (List.append_nil _).symm
  | cons a as ih => rw [afterAll_cons, ih, tokens_after, tokensRead_cons, List.append_assoc]

/-! ### Words that are no operators -/

/-- The mark may be an operator. -/
def Punctuation.operates (m : Punctuation) : Bool :=
  (UnaryOp.ofMark? m).isSome || (BinaryOp.ofMark? m).isSome

@[simp] theorem Lexeme.operator?_none (l : Lexeme) : l.operator? none = none := by
  cases l <;> rfl

theorem Lexeme.operator?_symbol {m : Punctuation} (h : m.operates = false)
    (edge? : Option Edge) : (Lexeme.symbol m).operator? edge? = none := by
  obtain ⟨hu, hb⟩ := Bool.or_eq_false_iff.1 h
  rw [Option.isSome_eq_false_iff, Option.isNone_iff_eq_none] at hu hb
  rcases edge? with - | ⟨- | -⟩
  · rfl
  · simp [operator?, hu]
  · simp [operator?, hb]

section

variable {c d : Cursor} {t : Token}

theorem Cursor.lexeme_of_read? {l : Lexeme} (h : c.read? l = some (t, d)) : t.lexeme = l := by
  unfold Cursor.read? at h
  split at h
  · split at h
    · cases h
      assumption
    · cases h
  · cases h

theorem Cursor.lexeme_of_keyword? {k : Keyword} (h : c.keyword? = some (k, t, d)) :
    t.lexeme = .keyword k := by
  unfold Cursor.keyword? at h
  split at h
  · cases h
    rfl
  · cases h

theorem Cursor.operator?_of_type {p : Production} {type : String}
    (h : c.type p = .ok (type, t, d)) (edge? : Option Edge) :
    t.lexeme.operator? edge? = none := by
  unfold Cursor.type at h
  split at h
  · cases h
    rfl
  · split at h
    · cases h
      rfl
    · cases h
  · cases h

end

/-! ### A token on a trail -/

/-- The trail after a token that is no operator. -/
def Trail.settle (tr : Trail) (t : Token) : Trail :=
  ⟨tr.name?, tr.readings ++ [⟨t, none⟩], none, t.position, tr.waiting⟩

section

variable {tr : Trail} {t : Token}

theorem Trail.after_take_of_plain (h : t.lexeme.operator? tr.edge? = none) :
    tr.after (.take t) = tr.settle t := by
  rw [Trail.after, Trail.read, h]
  rfl

theorem Trail.after_take_of_read? {c d : Cursor} {l : Lexeme} (hc : c.read? l = some (t, d))
    (hl : ∀ edge?, l.operator? edge? = none) : tr.after (.take t) = tr.settle t :=
  after_take_of_plain (by rw [Cursor.lexeme_of_read? hc, hl])

theorem Trail.after_take_of_operator {i : Instruction}
    (h : t.lexeme.operator? tr.edge? = some i) :
    tr.after (.take t) = ⟨tr.name?, tr.readings ++ [⟨t, some i⟩], none, t.position,
      ⟨i, t.position⟩ :: tr.waiting⟩ := by
  rw [Trail.after, Trail.read, h]

end

end Jack
