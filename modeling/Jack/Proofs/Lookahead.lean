import Jack.Compilation

/-! What a compilation depends on. A text is read from its front, and the token at the place where
a compilation fails is the last one that decides anything about it. -/

namespace Jack

/-! ### Counting the tokens read -/

/-- The number of tokens that an action reads. -/
def Action.reads : Action → Nat
  | .take _ | .declare _ _ _ _ | .mention _ | .mentionFirst _ => 1
  | _ => 0

def readBy : List Action → Nat
  | [] => 0
  | a :: rest => a.reads + readBy rest

/-- The actions up to the one that reads past `n` tokens. -/
def within : Nat → List Action → List Action
  | _, [] => []
  | n, a :: rest => if a.reads ≤ n then a :: within (n - a.reads) rest else []

/-- The number of tokens read up to the first action that cannot be performed. -/
def Session.consumed (s : Session) : List Action → Nat
  | [] => 0
  | a :: rest =>
    match s.perform a with
    | (t, none) => a.reads + t.consumed rest
    | (_, some _) => a.reads

/-- Where a compilation stops: the number of tokens that it has read, which is the index of the
token in front of it. -/
def TokenStream.stop (stream : TokenStream) (outlined : Bool) : Nat :=
  (Session.initial outlined).consumed (Script.ofTokens stream).actions.toList

@[simp] theorem readBy_nil : readBy [] = 0 := rfl

@[simp] theorem readBy_cons (a : Action) (rest : List Action) :
    readBy (a :: rest) = a.reads + readBy rest := rfl

@[simp] theorem readBy_append (actions more : List Action) :
    readBy (actions ++ more) = readBy actions + readBy more := by
  induction actions with
  | nil => exact (Nat.zero_add _).symm
  | cons a rest ih => rw [List.cons_append, readBy_cons, readBy_cons, ih, Nat.add_assoc]

theorem readBy_map_emitAt (waiting : List (BinaryOp × Position)) :
    readBy (waiting.map fun w => .emitAt w.2 [w.1.instruction]) = 0 := by
  induction waiting with
  | nil => rfl
  | cons w waiting ih => rw [List.map_cons, readBy_cons, ih]; rfl

theorem within_append_of_le {n : Nat} {actions more : List Action} (h : readBy actions ≤ n) :
    within n (actions ++ more) = actions ++ within (n - readBy actions) more := by
  induction actions generalizing n with
  | nil => rfl
  | cons a rest ih =>
    rw [readBy_cons] at h
    rw [List.cons_append, within, if_pos (by omega), ih (by omega), readBy_cons, Nat.sub_sub]
    rfl

theorem within_append_of_lt {n : Nat} {actions more : List Action} (h : n < readBy actions) :
    within n (actions ++ more) = within n actions := by
  induction actions generalizing n with
  | nil => exact absurd h (Nat.not_lt_zero n)
  | cons a rest ih =>
    rw [readBy_cons] at h
    rw [List.cons_append, within, within]
    split
    · rw [ih (by omega)]
    · rfl

theorem within_isPrefix (n : Nat) (actions : List Action) : within n actions <+: actions := by
  induction actions generalizing n with
  | nil => exact List.prefix_rfl
  | cons a rest ih =>
    rw [within]
    split
    · exact List.cons_prefix_cons.2 ⟨rfl, ih _⟩
    · exact List.nil_prefix

/-! ### Two texts with the same tokens in front -/

def Cursor.founds (c : Cursor) : List Found := c.rest.map Token.found ++ [⟨none, c.finish⟩]

/-- The next token of two cursors is the same, and so are `n` tokens behind it. -/
structure Cursor.Agrees (n : Nat) (c d : Cursor) : Prop where
  founds : c.founds.take (n + 1) = d.founds.take (n + 1)
  constructs : c.constructs = d.constructs

theorem Cursor.founds_eq_found_cons (c : Cursor) : ∃ more, c.founds = c.found :: more := by
  obtain ⟨rest, finish, constructs⟩ := c
  cases rest with
  | nil => exact ⟨[], rfl⟩
  | cons t rest => exact ⟨_, rfl⟩

theorem Cursor.Agrees.found {n : Nat} {c d : Cursor} (h : c.Agrees n d) : c.found = d.found := by
  obtain ⟨more, hc⟩ := c.founds_eq_found_cons
  obtain ⟨more', hd⟩ := d.founds_eq_found_cons
  have hfounds := h.founds
  rw [hc, hd, List.take_succ_cons, List.take_succ_cons] at hfounds
  exact (List.cons.inj hfounds).1

theorem Token.eq_of_found_eq {t u : Token} (h : t.found = u.found) : t = u := by
  obtain ⟨l, p⟩ := t
  obtain ⟨m, q⟩ := u
  obtain ⟨hl, rfl⟩ := Found.mk.inj h
  obtain rfl : l = m := Option.some.inj hl
  rfl

/-- Cursors that agree are at the end of the same text, or in front of the same token. -/
theorem Cursor.Agrees.eq_or_exists {n : Nat} {c d : Cursor} (h : c.Agrees n d) :
    c = d ∨ ∃ t rest rest' f f' k, c = ⟨t :: rest, f, k⟩ ∧ d = ⟨t :: rest', f', k⟩
      ∧ ∀ m, n = m + 1 → ∀ j, Cursor.Agrees m ⟨rest, f, j⟩ ⟨rest', f', j⟩ := by
  have hfound := h.found
  obtain ⟨rest, f, k⟩ := c
  obtain ⟨rest', f', k'⟩ := d
  obtain ⟨hfounds, hconstructs⟩ := h
  obtain rfl : k = k' := hconstructs
  cases rest with
  | nil =>
    cases rest' with
    | nil =>
      obtain rfl : f = f' := (Found.mk.inj hfound).2
      exact Or.inl rfl
    | cons u rest' => cases (Found.mk.inj hfound).1
  | cons t rest =>
    cases rest' with
    | nil => cases (Found.mk.inj hfound).1
    | cons u rest' =>
      obtain rfl := Token.eq_of_found_eq hfound
      refine Or.inr ⟨t, rest, rest', f, f', k, rfl, rfl, ?_⟩
      rintro m rfl j
      exact ⟨(List.cons.inj hfounds).2, rfl⟩

/-! ### One goal, met in front of the same token -/

/-- A goal that is due reads nothing. -/
def Goal.quiet : Goal → Bool
  | .due a => a.reads == 0
  | _ => true

/-- A goal that can take the place of another. -/
def Goal.inner : Goal → Bool
  | .endOfFile => false
  | g => g.quiet

section

variable {t : Token} {rest rest' : List Token} {f f' : Position} {k : Nat}

/-- Two steps in front of the same token. Either both leave it alone or both read it, and then the
token behind it may decide how they go on. -/
inductive StepsAlike (t : Token) (rest rest' : List Token) (f f' : Position) (k : Nat) :
    Except CompileError Step → Except CompileError Step → Prop
  | error (e : CompileError) : StepsAlike t rest rest' f f' k (.error e) (.error e)
  | stay {actions : List Action} {goals : List Goal} (hr : readBy actions = 0)
    (hq : goals.all Goal.inner = true) : StepsAlike t rest rest' f f' k
      (.ok ⟨actions, goals, ⟨t :: rest, f, k⟩⟩) (.ok ⟨actions, goals, ⟨t :: rest', f', k⟩⟩)
  | read {actions actions' : List Action} {goals goals' : List Goal} {j : Nat}
    (hr : readBy actions = 1) (hr' : readBy actions' = 1)
    (hw : within 0 actions = within 0 actions') (hq : goals.all Goal.inner = true)
    (hq' : goals'.all Goal.inner = true)
    (hsame : Cursor.found ⟨rest, f, k⟩ = Cursor.found ⟨rest', f', k⟩ →
      actions = actions' ∧ goals = goals') : StepsAlike t rest rest' f f' k
      (.ok ⟨actions, goals, ⟨rest, f, j⟩⟩) (.ok ⟨actions', goals', ⟨rest', f', j⟩⟩)

/-- The token behind the one that is read often decides nothing. -/
theorem StepsAlike.take {actions : List Action} {goals : List Goal} {j : Nat}
    (hr : readBy actions = 1) (hq : goals.all Goal.inner = true) : StepsAlike t rest rest' f f' k
      (.ok ⟨actions, goals, ⟨rest, f, j⟩⟩) (.ok ⟨actions, goals, ⟨rest', f', j⟩⟩) :=
  .read hr hr rfl hq hq fun _ => ⟨rfl, rfl⟩

theorem Cursor.read?_cons_of_eq {l : Lexeme} (h : t.lexeme = l) :
    Cursor.read? ⟨t :: rest, f, k⟩ l = some (t, ⟨rest, f, k⟩) := if_pos h

theorem Cursor.read?_cons_of_ne {l : Lexeme} (h : t.lexeme ≠ l) :
    Cursor.read? ⟨t :: rest, f, k⟩ l = none := if_neg h

theorem Cursor.sees_cons (m : Punctuation) :
    Cursor.sees ⟨t :: rest, f, k⟩ m = decide (t.lexeme = .symbol m) := by
  by_cases h : t.lexeme = .symbol m
  · rw [Cursor.sees, Cursor.mark?, Cursor.read?_cons_of_eq h, decide_eq_true h]; rfl
  · rw [Cursor.sees, Cursor.mark?, Cursor.read?_cons_of_ne h, decide_eq_false h]; rfl

theorem Cursor.sees_eq (c : Cursor) (m : Punctuation) :
    c.sees m = decide (c.found.lexeme? = some (.symbol m)) := by
  obtain ⟨rest, f, k⟩ := c
  cases rest with
  | nil => rfl
  | cons t rest => rw [Cursor.sees_cons]; simp [Cursor.found, Token.found]

theorem meetClassVarDecs_alike : StepsAlike t rest rest' f f' k
    (.ok (meetClassVarDecs ⟨t :: rest, f, k⟩)) (.ok (meetClassVarDecs ⟨t :: rest', f', k⟩)) := by
  obtain ⟨l, p⟩ := t
  cases l with
  | keyword w =>
    simp only [meetClassVarDecs, Cursor.keyword?, Cursor.to]
    split
    · exact .take rfl rfl
    · exact .stay rfl rfl
  | symbol m | integer n | string text | identifier name => exact .stay rfl rfl

theorem meetSubroutineDecs_alike : StepsAlike t rest rest' f f' k
    (.ok (meetSubroutineDecs ⟨t :: rest, f, k⟩))
    (.ok (meetSubroutineDecs ⟨t :: rest', f', k⟩)) := by
  obtain ⟨l, p⟩ := t
  cases l with
  | keyword w =>
    simp only [meetSubroutineDecs, Cursor.keyword?, Cursor.to]
    split
    · exact .take rfl rfl
    · exact .stay rfl rfl
  | symbol m | integer n | string text | identifier name => exact .stay rfl rfl

theorem meetAfterName_alike {d : Declaration} {type : String} {count : UInt16}
    {position : Position} : StepsAlike t rest rest' f f' k
      (meetAfterName ⟨t :: rest, f, k⟩ d type count position)
      (meetAfterName ⟨t :: rest', f', k⟩ d type count position) := by
  have hend : ∀ n, (d.endGoals n).all Goal.inner = true := fun n => by cases d <;> rfl
  unfold meetAfterName
  split
  · exact .error _
  · by_cases hcomma : t.lexeme = .symbol .comma
    · simp only [Cursor.mark?, Cursor.read?_cons_of_eq hcomma]
      split
      · exact .take rfl rfl
      · exact .take rfl rfl
    · simp only [Cursor.mark?, Cursor.read?_cons_of_ne hcomma]
      split
      · exact .stay rfl (hend _)
      · by_cases hsemicolon : t.lexeme = .symbol .semicolon
        · simp only [Cursor.read?_cons_of_eq hsemicolon]
          exact .take rfl (hend _)
        · simp only [Cursor.read?_cons_of_ne hsemicolon]
          exact .error _

/-- The hidden argument of a method is declared at the place behind the method's name. -/
theorem meetSubroutineName_alike {role : Role} : StepsAlike t rest rest' f f' k
    (meetSubroutineName ⟨t :: rest, f, k⟩ role) (meetSubroutineName ⟨t :: rest', f', k⟩ role) := by
  obtain ⟨l, p⟩ := t
  cases l with
  | identifier name =>
    have hreads : ∀ place : Position, readBy (.take (Occurrence.mk name p).token
        :: if role = .method then [.declareThis place] else []) = 1 := by
      intro place
      split <;> rfl
    refine .read (hreads _) (hreads _) rfl rfl rfl fun hfound => ⟨?_, rfl⟩
    simp only [Cursor.to, hfound]
  | keyword w | symbol m | integer n | string text => exact .error _

theorem meetBody_alike {role : Role} {locals : UInt16} : StepsAlike t rest rest' f f' k
    (.ok (meetBody ⟨t :: rest, f, k⟩ role locals))
    (.ok (meetBody ⟨t :: rest', f', k⟩ role locals)) := by
  unfold meetBody
  by_cases hvar : t.lexeme = .keyword .var
  · simp only [Cursor.read?_cons_of_eq hvar]
    exact .take rfl rfl
  · simp only [Cursor.read?_cons_of_ne hvar]
    exact .stay rfl rfl

theorem meetStatements_alike : StepsAlike t rest rest' f f' k
    (.ok (meetStatements ⟨t :: rest, f, k⟩)) (.ok (meetStatements ⟨t :: rest', f', k⟩)) := by
  obtain ⟨l, p⟩ := t
  cases l with
  | keyword w =>
    cases w with
    | let_ | if_ | while_ | do_ | return_ => exact .take rfl rfl
    | _ => exact .stay rfl rfl
  | symbol m | integer n | string text | identifier name => exact .stay rfl rfl

theorem meetLetValue_alike {target : Occurrence} : StepsAlike t rest rest' f f' k
    (.ok (meetLetValue ⟨t :: rest, f, k⟩ target))
    (.ok (meetLetValue ⟨t :: rest', f', k⟩ target)) := by
  unfold meetLetValue
  by_cases hbracket : t.lexeme = .symbol .leftBracket
  · simp only [Cursor.mark?, Cursor.read?_cons_of_eq hbracket]
    exact .take rfl rfl
  · simp only [Cursor.mark?, Cursor.read?_cons_of_ne hbracket]
    exact .stay rfl rfl

/-- A name in an expression is the one token that leaves the way open to the token behind it. -/
theorem meetTerm_alike
    (hname : ∀ name, t.lexeme = .identifier name →
      Cursor.found ⟨rest, f, k⟩ = Cursor.found ⟨rest', f', k⟩) :
    StepsAlike t rest rest' f f' k (meetTerm ⟨t :: rest, f, k⟩) (meetTerm ⟨t :: rest', f', k⟩) := by
  obtain ⟨l, p⟩ := t
  cases l with
  | integer n => exact .take rfl rfl
  | string text => exact .take rfl rfl
  | identifier name =>
    have hsees : ∀ m, Cursor.sees ⟨rest, f, k⟩ m = Cursor.sees ⟨rest', f', k⟩ m := by
      intro m
      rw [Cursor.sees_eq, Cursor.sees_eq, hname name rfl]
    simp only [meetTerm, meetName, Cursor.to, hsees]
    by_cases hbracket : Cursor.sees ⟨rest', f', k⟩ .leftBracket = true
    · simp only [hbracket, if_true]
      exact .take rfl rfl
    · simp only [hbracket]
      by_cases hcall : (Cursor.sees ⟨rest', f', k⟩ .leftParen
          || Cursor.sees ⟨rest', f', k⟩ .dot) = true
      · simp only [hcall, if_true]
        exact .stay rfl rfl
      · simp only [hcall]
        exact .take rfl rfl
  | keyword w =>
    simp only [meetTerm]
    split
    · exact .take rfl rfl
    · exact .error _
  | symbol m =>
    simp only [meetTerm]
    split
    · exact .take rfl rfl
    · split
      · exact .take rfl rfl
      · exact .error _

theorem meetOperands_alike {waiting : List (BinaryOp × Position)} :
    StepsAlike t rest rest' f f' k (.ok (meetOperands ⟨t :: rest, f, k⟩ waiting))
      (.ok (meetOperands ⟨t :: rest', f', k⟩ waiting)) := by
  obtain ⟨l, p⟩ := t
  cases l with
  | symbol m =>
    simp only [meetOperands]
    split
    · exact .take rfl rfl
    · exact .stay (readBy_map_emitAt waiting) rfl
  | keyword w | integer n | string text | identifier name =>
    exact .stay (readBy_map_emitAt waiting) rfl

theorem meetCallee_alike {p : Production} {first : Occurrence} : StepsAlike t rest rest' f f' k
    (.ok (meetCallee ⟨t :: rest, f, k⟩ p first))
    (.ok (meetCallee ⟨t :: rest', f', k⟩ p first)) := by
  unfold meetCallee
  by_cases hdot : t.lexeme = .symbol .dot
  · simp only [Cursor.mark?, Cursor.read?_cons_of_eq hdot]
    exact .take rfl rfl
  · simp only [Cursor.mark?, Cursor.read?_cons_of_ne hdot]
    exact .stay rfl rfl

/-- An argument is known by its place, which is that of the token behind the comma. -/
theorem meetMoreArguments_alike {p : Production} {callee : Callee} {count : UInt16}
    {position : Position} : StepsAlike t rest rest' f f' k
      (meetMoreArguments ⟨t :: rest, f, k⟩ p callee count position)
      (meetMoreArguments ⟨t :: rest', f', k⟩ p callee count position) := by
  unfold meetMoreArguments
  split
  · exact .error _
  · by_cases hcomma : t.lexeme = .symbol .comma
    · simp only [Cursor.mark?, Cursor.read?_cons_of_eq hcomma]
      exact .read rfl rfl rfl rfl rfl fun hfound => ⟨rfl, by rw [hfound]⟩
    · simp only [Cursor.mark?, Cursor.read?_cons_of_ne hcomma]
      exact .stay rfl rfl

theorem Cursor.type_cons (t : Token) (k : Nat) (p : Production) :
    (∃ type, ∀ rest f, Cursor.type ⟨t :: rest, f, k⟩ p = .ok (type, t, ⟨rest, f, k⟩))
      ∨ ∃ e, ∀ rest f, Cursor.type ⟨t :: rest, f, k⟩ p = .error e := by
  obtain ⟨l, q⟩ := t
  cases l with
  | identifier name => exact Or.inl ⟨name, fun _ _ => rfl⟩
  | keyword w =>
    by_cases hw : w = .int ∨ w = .char ∨ w = .boolean
    · exact Or.inl ⟨w.spelling, fun _ _ => if_pos hw⟩
    · exact Or.inr ⟨.badSyntax p ⟨some (.keyword w), q⟩
        [.keyword .int, .keyword .char, .keyword .boolean, .className], fun _ _ => if_neg hw⟩
  | symbol m => exact Or.inr ⟨.wrongCategory p ⟨some (.symbol m), q⟩ .identifier, fun _ _ => rfl⟩
  | integer n => exact Or.inr ⟨.wrongCategory p ⟨some (.integer n), q⟩ .identifier, fun _ _ => rfl⟩
  | string text =>
    exact Or.inr ⟨.wrongCategory p ⟨some (.string text), q⟩ .identifier, fun _ _ => rfl⟩

/-- A goal is met in the same way in front of the same token. Where the token is a name in an
expression, the token behind it has to be the same, too. -/
theorem Goal.meet_alike {g : Goal} (hg : g.quiet = true)
    (hname : g = .term → ∀ name, t.lexeme = .identifier name →
      Cursor.found ⟨rest, f, k⟩ = Cursor.found ⟨rest', f', k⟩) :
    StepsAlike t rest rest' f f' k (g.meet ⟨t :: rest, f, k⟩) (g.meet ⟨t :: rest', f', k⟩) := by
  cases g with
  | due a => exact .stay (Nat.add_eq_zero_iff.2 ⟨eq_of_beq hg, rfl⟩) rfl
  | mark p m =>
    by_cases hm : t.lexeme = .symbol m
    · simp only [Goal.meet, Cursor.mark?, Cursor.read?_cons_of_eq hm]
      exact .take rfl rfl
    · simp only [Goal.meet, Cursor.mark?, Cursor.read?_cons_of_ne hm]
      exact .error _
  | classWord =>
    by_cases hm : t.lexeme = .keyword .class_
    · simp only [Goal.meet, Cursor.read?_cons_of_eq hm]
      exact .take rfl rfl
    · simp only [Goal.meet, Cursor.read?_cons_of_ne hm]
      exact .error _
  | className =>
    obtain ⟨l, p⟩ := t
    cases l with
    | identifier name => exact .take rfl rfl
    | keyword w | symbol m | integer n | string text => exact .error _
  | classVarDecs => exact meetClassVarDecs_alike
  | subroutineDecs => exact meetSubroutineDecs_alike
  | endOfFile => exact .error _
  | typed d count =>
    rcases Cursor.type_cons t k d.production with ⟨type, htype⟩ | ⟨e, htype⟩
    · simp only [Goal.meet, htype]
      exact .take rfl rfl
    · simp only [Goal.meet, htype]
      exact .error e
  | named d type count =>
    obtain ⟨l, p⟩ := t
    cases l with
    | identifier name => exact .take rfl rfl
    | keyword w | symbol m | integer n | string text => exact .error _
  | afterName d type count position => exact meetAfterName_alike
  | resultType =>
    by_cases hvoid : t.lexeme = .keyword .void
    · simp only [Goal.meet, Cursor.read?_cons_of_eq hvoid]
      exact .take rfl rfl
    · rcases Cursor.type_cons t k .subroutineDec with ⟨type, htype⟩ | ⟨e, htype⟩
      · simp only [Goal.meet, Cursor.read?_cons_of_ne hvoid, htype]
        exact .take rfl rfl
      · simp only [Goal.meet, Cursor.read?_cons_of_ne hvoid, htype]
        exact .error e
  | subroutineName role => exact meetSubroutineName_alike
  | parameters =>
    by_cases hparen : t.lexeme = .symbol .rightParen
    · simp only [Goal.meet, Cursor.sees_cons, hparen, decide_true, if_true]
      exact .stay rfl rfl
    · simp only [Goal.meet, Cursor.sees_cons, hparen, decide_false, Bool.false_eq_true, if_false]
      exact .stay rfl rfl
  | counted role before count start =>
    cases hwords : addWords? count before with
    | some n =>
      simp only [Goal.meet, hwords]
      exact .stay rfl rfl
    | none =>
      simp only [Goal.meet, hwords]
      exact .error _
  | body role locals => exact meetBody_alike
  | statements => exact meetStatements_alike
  | letTarget =>
    obtain ⟨l, p⟩ := t
    cases l with
    | identifier name => exact .take rfl rfl
    | keyword w | symbol m | integer n | string text => exact .error _
  | letValue target => exact meetLetValue_alike
  | otherwise =>
    by_cases helse : t.lexeme = .keyword .else_
    · simp only [Goal.meet, Cursor.read?_cons_of_eq helse]
      exact .take rfl rfl
    · simp only [Goal.meet, Cursor.read?_cons_of_ne helse]
      exact .stay rfl rfl
  | returned =>
    by_cases hsemicolon : t.lexeme = .symbol .semicolon
    · simp only [Goal.meet, Cursor.sees_cons, hsemicolon, decide_true, if_true]
      exact .stay rfl rfl
    · simp only [Goal.meet, Cursor.sees_cons, hsemicolon, decide_false, Bool.false_eq_true,
        if_false]
      exact .stay rfl rfl
  | term => exact meetTerm_alike (hname rfl)
  | operands waiting => exact meetOperands_alike
  | call p =>
    obtain ⟨l, q⟩ := t
    cases l with
    | identifier name => exact .take rfl rfl
    | keyword w | symbol m | integer n | string text => exact .error _
  | callee p first => exact meetCallee_alike
  | member p owner =>
    obtain ⟨l, q⟩ := t
    cases l with
    | identifier name => exact .take rfl rfl
    | keyword w | symbol m | integer n | string text => exact .error _
  | arguments p target =>
    by_cases hparen : t.lexeme = .symbol .rightParen
    · simp only [Goal.meet, Cursor.sees_cons, hparen, decide_true, if_true]
      exact .stay rfl rfl
    · simp only [Goal.meet, Cursor.sees_cons, hparen, decide_false, Bool.false_eq_true, if_false]
      exact .stay rfl rfl
  | moreArguments p target count position => exact meetMoreArguments_alike

end

/-- At the end of a text nothing is read. -/
theorem Goal.meet_end {g : Goal} {f : Position} {k : Nat} {s : Step} (hg : g.quiet = true)
    (h : g.meet ⟨[], f, k⟩ = .ok s) :
    readBy s.actions = 0 ∧ s.cursor = ⟨[], f, k⟩ ∧ s.goals.all Goal.inner = true := by
  cases g with
  | due a =>
    cases h
    exact ⟨Nat.add_eq_zero_iff.2 ⟨eq_of_beq hg, rfl⟩, rfl, rfl⟩
  | mark p m | classWord | className | typed d count | named d type count | resultType
    | subroutineName role | letTarget | term | call p | member p owner => cases h
  | classVarDecs | subroutineDecs | endOfFile | otherwise | statements | parameters | returned
    | body role locals | letValue target | callee p first | arguments p target =>
    cases h
    exact ⟨rfl, rfl, rfl⟩
  | operands waiting =>
    cases h
    exact ⟨readBy_map_emitAt waiting, rfl, rfl⟩
  | afterName d type count position =>
    simp only [Goal.meet, meetAfterName] at h
    split at h
    · cases h
    · simp only [Cursor.mark?, Cursor.read?] at h
      split at h
      · cases h
        exact ⟨rfl, rfl, by cases d <;> rfl⟩
      · cases h
  | counted role before count start =>
    simp only [Goal.meet] at h
    split at h
    · cases h
      exact ⟨rfl, rfl, rfl⟩
    · cases h
  | moreArguments p target count position =>
    simp only [Goal.meet, meetMoreArguments] at h
    split at h
    · cases h
    · cases h
      exact ⟨rfl, rfl, rfl⟩

/-! ### A whole script -/

/-- A step reads as many tokens as its actions count, and leaves only goals that belong inside. -/
theorem Goal.rest_of_meet {g : Goal} {c : Cursor} {s : Step} (hg : g.quiet = true)
    (h : g.meet c = .ok s) :
    (∃ front, c.rest = front ++ s.cursor.rest ∧ front.length = readBy s.actions)
      ∧ s.cursor.finish = c.finish ∧ s.goals.all Goal.inner = true := by
  obtain ⟨rest, f, k⟩ := c
  cases rest with
  | nil =>
    obtain ⟨hr, hc, hq⟩ := Goal.meet_end hg h
    rw [hr, hc]
    exact ⟨⟨[], rfl, rfl⟩, rfl, hq⟩
  | cons t rest =>
    have halike : StepsAlike t rest rest f f k (g.meet ⟨t :: rest, f, k⟩)
        (g.meet ⟨t :: rest, f, k⟩) := Goal.meet_alike hg fun _ _ _ => rfl
    rw [h] at halike
    cases halike with
    | stay hr hq => exact ⟨⟨[], rfl, hr.symm⟩, rfl, hq⟩
    | read hr _ _ hq _ _ => exact ⟨⟨[t], rfl, hr.symm⟩, rfl, hq⟩

theorem quiet_classGoals : classGoals.all Goal.quiet = true := rfl

theorem Goal.quiet_of_inner {g : Goal} (h : g.inner = true) : g.quiet = true := by
  cases g with
  | endOfFile => cases h
  | _ => exact h

theorem quiet_append {news goals : List Goal} (hn : news.all Goal.inner = true)
    (hq : goals.all Goal.quiet = true) : (news ++ goals).all Goal.quiet = true := by
  rw [List.all_append, Bool.and_eq_true]
  exact ⟨List.all_eq_true.2 fun g hg => Goal.quiet_of_inner (List.all_eq_true.1 hn g hg), hq⟩

namespace Script

/-- The script of a goal that is met is that of the goals in its place, behind the step's
actions. -/
theorem ofGoals_of_meet {g : Goal} {c d : Cursor} {actions : List Action} {news : List Goal}
    (hg : g.meet c = .ok ⟨actions, news, d⟩) (goals : List Goal) :
    (ofGoals (g :: goals) c #[]).actions.toList
        = actions ++ (ofGoals (news ++ goals) d #[]).actions.toList
      ∧ (ofGoals (g :: goals) c #[]).cursor = (ofGoals (news ++ goals) d #[]).cursor
      ∧ (ofGoals (g :: goals) c #[]).fault? = (ofGoals (news ++ goals) d #[]).fault? := by
  rw [ofGoals_cons_of_ok hg, ofGoals_eq_append]
  exact ⟨by simp, rfl, rfl⟩

/-- The actions of a script count the tokens that it reads. -/
theorem rest_ofGoals {goals : List Goal} {c : Cursor} (hq : goals.all Goal.quiet = true) :
    (∃ front, c.rest = front ++ (ofGoals goals c #[]).cursor.rest
        ∧ front.length = readBy (ofGoals goals c #[]).actions.toList)
      ∧ (ofGoals goals c #[]).cursor.finish = c.finish := by
  induction goals, c using induction_on_meet with
  | nil c => exact ⟨⟨[], by simp, by simp⟩, by simp⟩
  | error g goals c e hg =>
    rw [ofGoals_cons_of_error hg]
    exact ⟨⟨[], rfl, rfl⟩, rfl⟩
  | ok g goals c s hg ih =>
    obtain ⟨hg', hgoals⟩ := Bool.and_eq_true_iff.1 hq
    obtain ⟨⟨front, hfront, hlength⟩, hfinish, hnew⟩ := Goal.rest_of_meet hg' hg
    obtain ⟨actions, news, d⟩ := s
    obtain ⟨hactions, hcursor, -⟩ := ofGoals_of_meet hg goals
    obtain ⟨⟨behind, hbehind, hrest⟩, hend⟩ := ih (quiet_append hnew hgoals)
    refine ⟨⟨front ++ behind, ?_, ?_⟩, ?_⟩
    · rw [hcursor, hfront, hbehind, List.append_assoc]
    · rw [hactions, readBy_append, List.length_append, hlength, hrest]
    · rw [hcursor, hend, hfinish]

/-- A name that begins a term is read, or it is left to the call that it begins. -/
theorem meetName_eq (c : Cursor) (o : Occurrence) (d : Cursor) :
    (∃ actions news, meetName c o d = ⟨.mention o :: actions, news, d⟩)
      ∨ meetName c o d = ⟨[], [.call .term, .due (.leave .term)], c⟩ := by
  unfold meetName
  cases d.sees .leftBracket with
  | true => exact Or.inl ⟨_, _, rfl⟩
  | false =>
    cases d.sees .leftParen || d.sees .dot with
    | true => exact Or.inr rfl
    | false => exact Or.inl ⟨_, _, rfl⟩

/-- Where a term begins with a name, the first action reads it. -/
theorem actions_term_name (goals : List Goal) (name : String) (p : Position) (rest : List Token)
    (f : Position) (k : Nat) :
    ∃ a more, (ofGoals (.term :: goals) ⟨⟨.identifier name, p⟩ :: rest, f, k⟩ #[]).actions.toList
      = a :: more ∧ a.reads = 1 := by
  have hmeet : Goal.term.meet ⟨⟨.identifier name, p⟩ :: rest, f, k⟩
      = .ok (meetName ⟨⟨.identifier name, p⟩ :: rest, f, k⟩ ⟨name, p⟩ ⟨rest, f, k⟩) := by
    simp only [Goal.meet, meetTerm, Cursor.to]
  rcases meetName_eq ⟨⟨.identifier name, p⟩ :: rest, f, k⟩ ⟨name, p⟩ ⟨rest, f, k⟩ with
    ⟨actions, news, hname⟩ | hname
  · rw [hname] at hmeet
    exact ⟨_, _, (ofGoals_of_meet hmeet goals).1, rfl⟩
  · rw [hname] at hmeet
    have hcall : (Goal.call .term).meet ⟨⟨.identifier name, p⟩ :: rest, f, k⟩
        = .ok ⟨[.mentionFirst ⟨name, p⟩], [.callee .term ⟨name, p⟩], ⟨rest, f, k⟩⟩ := rfl
    exact ⟨_, _, (ofGoals_of_meet hmeet goals).1.trans
      (ofGoals_of_meet hcall (.due (.leave .term) :: goals)).1, rfl⟩

/-- Texts that agree on the next token and on `n` tokens behind it have the same actions up to the
one that reads past them, and a script that reads no further is the same. -/
theorem actions_agree {goals : List Goal} {c d : Cursor} {n : Nat}
    (hq : goals.all Goal.quiet = true) (h : c.Agrees n d) :
    within n (ofGoals goals c #[]).actions.toList = within n (ofGoals goals d #[]).actions.toList
      ∧ (readBy (ofGoals goals c #[]).actions.toList ≤ n →
        (ofGoals goals c #[]).actions.toList = (ofGoals goals d #[]).actions.toList
          ∧ (ofGoals goals c #[]).fault? = (ofGoals goals d #[]).fault?) := by
  induction goals, c using induction_on_meet generalizing d n with
  | nil c => simp
  | error g goals c e hg =>
    rcases h.eq_or_exists with rfl | ⟨t, rest, rest', f, f', k, rfl, rfl, hnext⟩
    · exact ⟨rfl, fun _ => ⟨rfl, rfl⟩⟩
    · have hname : g = .term → ∀ name, t.lexeme = .identifier name →
          Cursor.found ⟨rest, f, k⟩ = Cursor.found ⟨rest', f', k⟩ := by
        rintro rfl name hl
        obtain ⟨l, p⟩ := t
        obtain rfl : l = .identifier name := hl
        cases hg
      have halike := Goal.meet_alike (Bool.and_eq_true_iff.1 hq).1 hname
      rw [hg] at halike
      generalize hg' : g.meet ⟨t :: rest', f', k⟩ = result at halike
      cases halike
      rw [ofGoals_cons_of_error hg, ofGoals_cons_of_error hg']
      exact ⟨rfl, fun _ => ⟨rfl, rfl⟩⟩
  | ok g goals c s hg ih =>
    obtain ⟨hquiet, hgoals⟩ := Bool.and_eq_true_iff.1 hq
    rcases h.eq_or_exists with rfl | ⟨t, rest, rest', f, f', k, rfl, rfl, hnext⟩
    · exact ⟨rfl, fun _ => ⟨rfl, rfl⟩⟩
    by_cases hopen : n = 0 ∧ g = .term ∧ ∃ name, t.lexeme = .identifier name
    · -- the next token is a name that either script reads first
      obtain ⟨rfl, rfl, name, hl⟩ := hopen
      obtain ⟨l, p⟩ := t
      obtain rfl : l = .identifier name := hl
      obtain ⟨a, more, ha, hr⟩ := actions_term_name goals name p rest f k
      obtain ⟨a', more', ha', hr'⟩ := actions_term_name goals name p rest' f' k
      rw [ha, ha']
      refine ⟨?_, fun hle => ?_⟩
      · rw [within, within, if_neg (by omega), if_neg (by omega)]
      · rw [readBy_cons] at hle
        omega
    · have hname : g = .term → ∀ name, t.lexeme = .identifier name →
          Cursor.found ⟨rest, f, k⟩ = Cursor.found ⟨rest', f', k⟩ := by
        rintro rfl name hl
        cases n with
        | zero => exact absurd ⟨rfl, rfl, name, hl⟩ hopen
        | succ m => exact (hnext m rfl k).found
      have halike := Goal.meet_alike hquiet hname
      rw [hg] at halike
      generalize hg' : g.meet ⟨t :: rest', f', k⟩ = result at halike
      cases halike with
      | stay hr hnew =>
        obtain ⟨hactions, -, hfault⟩ := ofGoals_of_meet hg goals
        obtain ⟨hactions', -, hfault'⟩ := ofGoals_of_meet hg' goals
        obtain ⟨hwithin, hrest⟩ := ih (quiet_append hnew hgoals) h
        rw [hactions, hactions', hfault, hfault']
        refine ⟨?_, fun hle => ?_⟩
        · rw [within_append_of_le (by omega), within_append_of_le (by omega), hr, Nat.sub_zero,
            hwithin]
        · rw [readBy_append] at hle
          obtain ⟨heq, hfaults⟩ := hrest (Nat.le_trans (Nat.le_add_left _ _) hle)
          exact ⟨congrArg _ heq, hfaults⟩
      | read hr hr' hw hnew hnew' hsame =>
        obtain ⟨hactions, -, hfault⟩ := ofGoals_of_meet hg goals
        obtain ⟨hactions', -, hfault'⟩ := ofGoals_of_meet hg' goals
        rw [hactions, hactions', hfault, hfault']
        cases n with
        | zero =>
          refine ⟨?_, fun hle => ?_⟩
          · rw [within_append_of_lt (by omega), within_append_of_lt (by omega), hw]
          · rw [readBy_append] at hle
            omega
        | succ m =>
          obtain ⟨rfl, rfl⟩ := hsame (hnext m rfl k).found
          obtain ⟨hwithin, hrest⟩ :=
            ih (quiet_append hnew hgoals) (hnext m rfl _)
          refine ⟨?_, fun hle => ?_⟩
          · rw [within_append_of_le (by omega), within_append_of_le (by omega), hr,
              Nat.add_sub_cancel, hwithin]
          · rw [readBy_append, hr, Nat.add_comm] at hle
            obtain ⟨heq, hfaults⟩ := hrest (Nat.le_of_succ_le_succ hle)
            exact ⟨congrArg _ heq, hfaults⟩

end Script

/-! ### The compilation -/

/-- Actions that cannot all be performed fail before any token is read that does not count. -/
theorem Session.performAll_within {s : Session} {actions : List Action} {n : Nat}
    (h : s.consumed actions ≤ n) (he : (s.performAll actions).2 ≠ none) :
    s.performAll (within n actions) = s.performAll actions := by
  induction actions generalizing s n with
  | nil => rfl
  | cons a rest ih =>
    rw [Session.consumed] at h
    rw [Session.performAll_cons] at he ⊢
    cases hp : s.perform a with
    | mk t error? =>
      simp only [hp] at h he ⊢
      cases error? with
      | some e =>
        rw [within, if_pos h, Session.performAll_cons, hp]
      | none =>
        simp only at h he ⊢
        rw [within, if_pos (by omega), Session.performAll_cons, hp]
        exact ih (by omega) he

theorem Session.consumed_le (s : Session) (actions : List Action) :
    s.consumed actions ≤ readBy actions := by
  induction actions generalizing s with
  | nil => exact Nat.le_refl _
  | cons a rest ih =>
    rw [Session.consumed, readBy_cons]
    split
    · exact Nat.add_le_add_left (ih _) _
    · exact Nat.le_add_right _ _

/-- If all actions can be performed, all their tokens are read. -/
theorem Session.consumed_eq {s : Session} {actions : List Action}
    (h : (s.performAll actions).2 = none) : s.consumed actions = readBy actions := by
  induction actions generalizing s with
  | nil => rfl
  | cons a rest ih =>
    rw [Session.performAll_cons] at h
    rw [Session.consumed, readBy_cons]
    cases hp : s.perform a with
    | mk t error? =>
      cases error? with
      | some e => rw [hp] at h; cases h
      | none => rw [hp] at h; simp only [ih h]

/-- Actions that begin like others that cannot be performed end in the same way. -/
theorem Session.performAll_of_isPrefix {s : Session} {front actions : List Action}
    (h : front <+: actions) (he : (s.performAll front).2 ≠ none) :
    s.performAll actions = s.performAll front := by
  obtain ⟨more, rfl⟩ := h
  rw [Session.performAll_append]
  cases hp : s.performAll front with
  | mk t error? =>
    cases error? with
    | some e => rfl
    | none => rw [hp] at he; exact absurd rfl he

/-- The actions behind the one that cannot be performed do not matter. -/
theorem Session.performAll_eq_of_within {s : Session} {actions others : List Action}
    (h : within (s.consumed actions) actions = within (s.consumed actions) others)
    (he : (s.performAll actions).2 ≠ none) : s.performAll others = s.performAll actions := by
  have hfront := Session.performAll_within (Nat.le_refl _) he
  rw [h] at hfront
  rw [← hfront] at he ⊢
  exact Session.performAll_of_isPrefix (within_isPrefix _ _) he

namespace TokenStream

/-- If all actions can be performed, the compilation stops where recognition does. -/
theorem rest_stop {stream : TokenStream} {outlined : Bool}
    (h : ((Session.initial outlined).performAll
      (Script.ofTokens stream).actions.toList).2 = none) :
    (∃ front, stream.tokens = front ++ (Script.ofTokens stream).cursor.rest
        ∧ front.length = stream.stop outlined)
      ∧ (Script.ofTokens stream).cursor.finish = stream.finish := by
  obtain ⟨⟨front, hfront, hlength⟩, hfinish⟩ :=
    @Script.rest_ofGoals _ ⟨stream.tokens, stream.finish, 0⟩ quiet_classGoals
  exact ⟨⟨front, hfront, hlength.trans (Session.consumed_eq h).symm⟩, hfinish⟩

theorem stop_lt (stream : TokenStream) (outlined : Bool) :
    stream.stop outlined < stream.founds.length := by
  obtain ⟨⟨front, hfront, hlength⟩, -⟩ :=
    @Script.rest_ofGoals _ ⟨stream.tokens, stream.finish, 0⟩ quiet_classGoals
  have htokens := congrArg List.length hfront
  have hle : stream.stop outlined ≤ readBy (Script.ofTokens stream).actions.toList :=
    (Session.initial outlined).consumed_le _
  rw [List.length_append, hlength] at htokens
  rw [founds, List.length_append, List.length_map, List.length_singleton, htokens]
  exact Nat.lt_succ_of_le (Nat.le_trans hle (Nat.le_add_right _ _))

/-- A compilation does not depend on the tokens behind the one where it stopped. -/
theorem compile_eq_of_agree {stream other : TokenStream} {outlined : Bool}
    (h : other.founds.take (stream.stop outlined + 1)
      = stream.founds.take (stream.stop outlined + 1)) :
    other.compile outlined = stream.compile outlined := by
  have hagrees : Cursor.Agrees (stream.stop outlined) ⟨stream.tokens, stream.finish, 0⟩
      ⟨other.tokens, other.finish, 0⟩ := ⟨h.symm, rfl⟩
  obtain ⟨hwithin, hsame⟩ := Script.actions_agree quiet_classGoals hagrees
  cases hp : (Session.initial outlined).performAll (Script.ofTokens stream).actions.toList with
  | mk s error? =>
    cases error? with
    | some e =>
      -- both texts share the action that fails
      have hother : (Session.initial outlined).performAll (Script.ofTokens other).actions.toList
          = (Session.initial outlined).performAll (Script.ofTokens stream).actions.toList :=
        Session.performAll_eq_of_within hwithin (by rw [hp]; exact nofun)
      rw [compile, compile, Script.compile, Script.compile, hother, hp]
    | none =>
      -- the whole text up to the fault is shared
      have hread : readBy (Script.ofTokens stream).actions.toList ≤ stream.stop outlined :=
        Nat.le_of_eq (Session.consumed_eq (congrArg Prod.snd hp)).symm
      obtain ⟨hactions, hfault⟩ := hsame hread
      rw [compile, compile, Script.compile, Script.compile, Script.ofTokens, Script.ofTokens,
        hactions, hfault]

end TokenStream

/-- The tokens behind the one where a compilation stops decide nothing. If it fails, every text with
the same tokens up to there fails with the same error, and leaves the same listing, outline, class
name and variables. -/
theorem failure_decided_by_tokens_read {a : String} {stream : TokenStream} {outlined : Bool}
    {e : CompileError} (ha : tokenize a = .ok stream)
    (he : (stream.compile outlined).error? = some e) :
    stream.stop outlined < stream.founds.length
      ∧ ∀ (b : String) (other : TokenStream), tokenize b = .ok other →
        other.founds.take (stream.stop outlined + 1)
          = stream.founds.take (stream.stop outlined + 1) →
        ∃ failed, compilation a outlined = .ok failed ∧ compilation b outlined = .ok failed
          ∧ failed.error? = some e := by
  refine ⟨stream.stop_lt outlined, fun b other hb hsame => ⟨stream.compile outlined, ?_, ?_, he⟩⟩
  · rw [compilation, ha]
  · rw [compilation, hb]
    exact congrArg Except.ok (TokenStream.compile_eq_of_agree hsame)

theorem undefined_variable_decided :
    ∃ failed, compilation "class A\x7bfunction int f()\x7breturn x;" true = .ok failed
      ∧ compilation "class A\x7bfunction int f()\x7breturn x;\x7d\x7d" true = .ok failed
      ∧ failed.error? = some (.undefinedVariable .term "x" ⟨1, 33⟩) := by
  have ha : tokenize "class A\x7bfunction int f()\x7breturn x;" = .ok ⟨[
      ⟨.keyword .class_, ⟨1, 1⟩⟩, ⟨.identifier "A", ⟨1, 7⟩⟩, ⟨.symbol .leftBrace, ⟨1, 8⟩⟩,
      ⟨.keyword .function, ⟨1, 9⟩⟩, ⟨.keyword .int, ⟨1, 18⟩⟩, ⟨.identifier "f", ⟨1, 22⟩⟩,
      ⟨.symbol .leftParen, ⟨1, 23⟩⟩, ⟨.symbol .rightParen, ⟨1, 24⟩⟩, ⟨.symbol .leftBrace, ⟨1, 25⟩⟩,
      ⟨.keyword .return_, ⟨1, 26⟩⟩, ⟨.identifier "x", ⟨1, 33⟩⟩, ⟨.symbol .semicolon, ⟨1, 34⟩⟩],
      ⟨1, 35⟩⟩ := by rfl
  exact (failure_decided_by_tokens_read ha rfl).2
    "class A\x7bfunction int f()\x7breturn x;\x7d\x7d" _ rfl rfl

end Jack
