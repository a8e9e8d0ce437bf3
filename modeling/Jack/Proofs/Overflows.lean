import Jack.Proofs.Counting

/-! Where a count overflows. The count of a declaration is no greater than that of the scope, so it
is the scope that is full first, and the locals of a subroutine are never too many to be added up.
All that can overflow besides is the count of the arguments of a call. -/

namespace Jack

/-- The counts that overflow, each in its own production: those of variables when the scope is full,
and those of the arguments of a call. -/
inductive Scope.Overflows (s : Scope) : Production → Excess → Prop
  | classVarDec {kind : Kind} (hk : kind.ofClass = true) (hfull : s.count kind = 65535) :
    s.Overflows .classVarDec (.variables kind)
  | parameterList (hfull : s.count .argument = 65535) :
    s.Overflows .parameterList (.variables .argument)
  | varDec (hfull : s.count .var = 65535) : s.Overflows .varDec (.variables .var)
  | expressionList : s.Overflows .expressionList .callArguments
  | call {p : Production} (hp : p = .term ∨ p = .doStatement) : s.Overflows p .callArguments

section

variable {step : Step} {g : Goal} {c : Cursor} {s t : Session} {p : Production} {x : Excess}
  {position : Position}

theorem Production.eq_of_calls (h : p.calls = true) : p = .term ∨ p = .doStatement := by
  cases p with
  | term => exact .inl rfl
  | doStatement => exact .inr rfl
  | _ => cases h

theorem exists_nextWord? {n : UInt16} {k : UInt16} (h : n.toNat + 1 ≤ k.toNat) :
    ∃ m, nextWord? n = some m := by
  unfold nextWord?
  rw [if_neg]
  · exact ⟨_, rfl⟩
  · rintro rfl
    have hlt := k.toNat_lt
    have hmax : (65535 : UInt16).toNat = 65535 := rfl
    omega

theorem Declaration.Counted.le {d : Declaration} {s : Scope} {n : Nat} (h : d.Counted s n) :
    n ≤ (s.count d.kind).toNat := by
  cases d with
  | ofClass kind => exact h.2
  | parameter => exact h
  | locals role before start => exact Nat.le_trans (Nat.le_add_left _ _) (Nat.le_of_eq h)

theorem exists_addWords? {m n k : UInt16} (h : n.toNat + m.toNat = k.toNat) :
    ∃ l, addWords? m n = some l := by
  have hlt := k.toNat_lt
  unfold addWords?
  rw [if_pos (by omega)]
  exact ⟨_, rfl⟩

theorem Cursor.type_ne_tooMany {q : Production} :
    c.type q ≠ .error (.tooMany p x position) := by
  intro h
  unfold Cursor.type at h
  split at h
  · cases h
  · split at h
    · cases h
    · cases h
  · cases h

/-- Of the goals that fit, none overflows but the arguments of a call. -/
theorem Goal.Fits.overflows_of_error (hfit : g.Fits s.scope)
    (hg : g.meet c = .error (.tooMany p x position)) : s.scope.Overflows p x := by
  cases g with
  | due a | classVarDecs | subroutineDecs | body role locals | statements | letValue target
  | operands waiting | callee p first => cases hg
  | afterName d type count position =>
    obtain ⟨n, hn⟩ := exists_nextWord? (Declaration.Counted.le hfit)
    simp only [Goal.meet, meetAfterName, hn] at hg
    split at hg
    · split at hg <;> cases hg
    · split at hg
      · cases hg
      · split at hg <;> cases hg
  | counted role before count start =>
    obtain ⟨n, hn⟩ := exists_addWords? hfit
    simp only [Goal.meet, hn] at hg
    cases hg
  | moreArguments q callee count position =>
    simp only [Goal.meet, meetMoreArguments] at hg
    split at hg
    · cases hg
      exact .expressionList
    · split at hg <;> cases hg
  | typed d count =>
    simp only [Goal.meet] at hg
    split at hg
    · cases hg
    · rename_i htype
      cases hg
      exact absurd htype Cursor.type_ne_tooMany
  | resultType =>
    simp only [Goal.meet] at hg
    split at hg
    · cases hg
    · split at hg
      · cases hg
      · rename_i htype
        cases hg
        exact absurd htype Cursor.type_ne_tooMany
  | subroutineName role =>
    simp only [Goal.meet, meetSubroutineName] at hg
    split at hg <;> cases hg
  | term =>
    simp only [Goal.meet, meetTerm] at hg
    split at hg
    · cases hg
    · split at hg
      · cases hg
      · cases hg
      · cases hg
      · split at hg <;> cases hg
      · split at hg
        · cases hg
        · split at hg <;> cases hg
  | mark q m | classWord | className | named d type count | letTarget | call q | member q owner
  | endOfFile | parameters | otherwise | returned | arguments q callee =>
    simp only [Goal.meet] at hg
    split at hg <;> cases hg

/-- A variable overflows in the production of its own declaration. -/
theorem Declaration.Counted.overflows {d : Declaration} {s : Scope} {n : Nat}
    (h : d.Counted s n) (hfull : s.count d.kind = 65535) :
    s.Overflows d.production (.variables d.kind) := by
  cases d with
  | ofClass kind => exact .classVarDec h.1 hfull
  | parameter => exact .parameterList hfull
  | locals role before start => exact .varDec hfull

theorem Session.full_of_declare {q : Production} {o : Occurrence} {type : String} {kind : Kind}
    {e : CompileError} (hp : s.perform (.declare q o type kind) = (t, some e)) :
    t.scope.count kind = 65535 ∧ t.scope = s.scope
      ∧ e = .tooMany q (.variables kind) o.position := by
  simp only [perform, define] at hp
  cases hd : (s.moveTo o.position).scope.define? o.name type kind with
  | none =>
    simp only [hd] at hp
    cases hp
    exact ⟨Scope.define?_eq_none_iff.1 hd, rfl, rfl⟩
  | some scope =>
    simp only [hd] at hp
    cases hp

theorem Scope.Overflows.of_plain {actions : List Action}
    (hactions : actions.all Action.plain = true)
    (hp : s.performAll actions = (t, some (.tooMany p x position))) : t.scope.Overflows p x := by
  obtain ⟨hcalls, rfl⟩ := Session.tooMany_of_performAll_plain hactions hp
  exact .call (Production.eq_of_calls hcalls)

theorem Goal.Fits.overflows_of_fail (hfit : g.Fits s.scope) (hg : g.meet c = .ok step)
    (hp : s.performAll step.actions = (t, some (.tooMany p x position))) :
    t.scope.Overflows p x := by
  cases g with
  | classVarDecs =>
    have hstep : meetClassVarDecs c = step := Except.ok.inj hg
    unfold meetClassVarDecs at hstep
    split at hstep
    · split at hstep <;> obtain rfl := hstep <;> cases hp
    · obtain rfl := hstep
      cases hp
  | subroutineDecs =>
    have hstep : meetSubroutineDecs c = step := Except.ok.inj hg
    unfold meetSubroutineDecs at hstep
    split at hstep
    · split at hstep <;> obtain rfl := hstep <;> cases hp
    · obtain rfl := hstep
      cases hp
  | typed d count | parameters | counted role before count start =>
    simp only [Goal.meet] at hg
    split at hg <;> cases hg <;> cases hp
  | named d type count =>
    simp only [Goal.meet] at hg
    split at hg
    · cases hg
      rw [Session.performAll_cons] at hp
      rcases hdeclare : s.perform _ with ⟨u, - | e⟩
      all_goals rw [hdeclare] at hp
      · cases hp
      · obtain ⟨hfull, hscope, he⟩ := Session.full_of_declare hdeclare
        cases hp
        cases he
        rw [hscope] at hfull ⊢
        exact hfit.overflows hfull
    · cases hg
  | afterName d type count position =>
    simp only [Goal.meet, meetAfterName] at hg
    split at hg
    · cases hg
    · split at hg
      · split at hg <;> cases hg <;> cases hp
      · split at hg
        · cases hg
          cases hp
        · split at hg <;> cases hg
          cases hp
  | subroutineName role =>
    simp only [Goal.meet, meetSubroutineName] at hg
    split at hg
    · cases hg
      obtain ⟨u, hu, -⟩ := Session.exists_subroutineName hfit.1
      rw [hu] at hp
      cases hp
    · cases hg
  | body role locals =>
    have hstep : meetBody c role locals = step := Except.ok.inj hg
    unfold meetBody at hstep
    split at hstep <;> obtain rfl := hstep <;> cases hp
  | _ => exact .of_plain (Goal.plain_of_meet hfit hg).actions hp

end

/-! ### Every moment of a compilation -/

theorem Moment.suits_next {m n : Moment} (h : m.session.scope.Suits m.goals) (hnext : m.Next n) :
    n.session.scope.Suits n.goals := by
  obtain ⟨g, goals, step, t, hgoals, hg, hp, rfl⟩ := next_iff.1 hnext
  rw [hgoals] at h
  exact h.next ((h.fits g (.head _)).keepsCounts hg hp)

theorem suits_classGoals (s : Scope) : s.Suits classGoals := by
  refine .plain_append [_, _, _, _] rfl (.cons trivial ?_ (.cons trivial ?_ ?_))
  · simp [Goal.Spares, Goal.watches]
  · simp [Goal.Spares, Goal.watches]
  · exact .plain rfl s

theorem Moment.suits_of_reaches {m n : Moment} (h : m.session.scope.Suits m.goals)
    (hreaches : m.Reaches n) : n.session.scope.Suits n.goals :=
  hreaches.invariant suits_next h

theorem Moment.overflows_of_outcome {m : Moment} (h : m.session.scope.Suits m.goals)
    {p : Production} {x : Excess} {position : Position}
    (herror : m.outcome.error? = some (.tooMany p x position)) :
    m.outcome.session.scope.Overflows p x := by
  obtain ⟨last, hreaches, hlast⟩ := m.exists_last
  have hsuits := suits_of_reaches h hreaches
  rw [← hreaches.outcome_eq] at herror ⊢
  rcases last_cases hlast with ⟨-, houtcome⟩ | ⟨g, goals, e, hgoals, hg, houtcome⟩ |
    ⟨g, goals, step, t, e, hgoals, hg, hp, houtcome⟩
  · rw [houtcome] at herror
    cases herror
  · rw [houtcome] at herror ⊢
    rw [hgoals] at hsuits
    cases herror
    exact (hsuits.fits g (.head _)).overflows_of_error hg
  · rw [houtcome] at herror ⊢
    rw [hgoals] at hsuits
    cases herror
    exact (hsuits.fits g (.head _)).overflows_of_fail hg hp

theorem error?_of_compile {source : String} {stream : TokenStream} {outlined : Bool}
    {e : CompileError} (h : tokenize source = .ok stream)
    (he : compile source outlined = .error e) : (stream.compile outlined).error? = some e := by
  rw [compile, compilation, h] at he
  simp only [Compilation.result] at he
  split at he
  · rename_i e' herror
    cases he
    exact herror
  · cases he

theorem Scope.Overflows.ne {s : Scope} {p : Production} {x : Excess} (h : s.Overflows p x) :
    p ≠ .subroutineBody ∧ p ≠ .subroutineDec := by
  cases h with
  | classVarDec | parameterList | varDec | expressionList => exact ⟨nofun, nofun⟩
  | call hp =>
    rcases hp with rfl | rfl
    · exact ⟨nofun, nofun⟩
    · exact ⟨nofun, nofun⟩

/-- Wherever the compilation of a text has got, the locals that a body has counted are those that
the scope has counted, and neither they nor the names of a declaration overflow. What overflows is a
count of the scope, in the production of the declaration, or the arguments of a call. -/
theorem locals_counted_as_in_scope {source : String} {stream : TokenStream}
    (h : tokenize source = .ok stream) (outlined : Bool) :
    (∀ m, (stream.start outlined).Reaches m →
      (∀ role locals below, m.goals = .body role locals :: below →
        locals = m.session.scope.count .var)
      ∧ (∀ d type count position below, m.goals = .afterName d type count position :: below →
        ∃ n, nextWord? count = some n)
      ∧ ∀ role before count start below, m.goals = .counted role before count start :: below →
        ∃ n, addWords? count before = some n)
    ∧ ∀ p x position, compile source outlined = .error (.tooMany p x position) →
      (stream.compile outlined).session.scope.Overflows p x
        ∧ p ≠ .subroutineBody ∧ p ≠ .subroutineDec := by
  have hstart : (stream.start outlined).session.scope.Suits (stream.start outlined).goals :=
    suits_classGoals _
  constructor
  · intro m hm
    have hfits : ∀ g below, m.goals = g :: below → g.Fits m.session.scope := by
      intro g below hgoals
      exact (Moment.suits_of_reaches hstart hm).fits g (hgoals ▸ .head _)
    refine ⟨?_, ?_, ?_⟩
    · intro role locals below hgoals
      exact hfits _ _ hgoals
    · intro d type count position below hgoals
      exact exists_nextWord? (Declaration.Counted.le (hfits _ _ hgoals))
    · intro role before count start below hgoals
      exact exists_addWords? (hfits _ _ hgoals)
  · intro p x position he
    have herror := error?_of_compile h he
    rw [TokenStream.compile_eq_pass] at herror ⊢
    have hoverflows := Moment.overflows_of_outcome hstart herror
    exact ⟨hoverflows, hoverflows.ne⟩

/-- A function that declares three locals on two lines, two of them by one name. -/
def localsDeclaredTwice : String :=
  "class A\x7bfunction void f(int x)\x7bvar int a,a;var char b;return;\x7d\x7d"

theorem locals_of_repeated_name_counted :
    ∃ stream m, tokenize localsDeclaredTwice = .ok stream ∧ (stream.start false).Reaches m
      ∧ m.goals.head? = some (.body .function 3) ∧ m.session.scope.count .var = 3 := by
  obtain ⟨stream, hs⟩ : ∃ stream, tokenize localsDeclaredTwice = .ok stream := ⟨_, rfl⟩
  obtain ⟨m, hlater, hhead⟩ : ∃ m, (stream.start false).later? 33 = some m
      ∧ m.goals.head? = some (.body .function 3) := by
    obtain rfl := Except.ok.inj (hs.symm.trans rfl)
    exact ⟨_, rfl, rfl⟩
  have hm := Moment.reaches_of_later? hlater
  obtain ⟨below, hgoals⟩ := List.head?_eq_some_iff.1 hhead
  exact ⟨stream, m, hs, hm, hhead,
    (((locals_counted_as_in_scope hs false).1 m hm).1 _ _ _ hgoals).symm⟩

end Jack
