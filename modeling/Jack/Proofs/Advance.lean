import Jack.Proofs.Moments
import Jack.Proofs.Portions

/-! A cursor moves through its stream. It stays inside and never goes back, whatever goals are met
from wherever in the stream. Two measures bound a pass. The potential gets smaller with every goal,
so a pass ends, and goals of no smaller weight are only back on the stack once a token was read. The
other one is the number of tokens that goals need at least, which only the reading of a token can
lower. -/

namespace Jack

/-! ### The tokens that goals need -/

/-- How many tokens the goal reads at least. -/
def Goal.least : Goal → Nat
  | .mark _ _ | .classWord | .className | .typed _ _ | .named _ _ _ | .resultType
  | .subroutineName _ | .letTarget | .term | .call _ | .member _ _ => 1
  | _ => 0

def leastOf (goals : List Goal) : Nat := (goals.map Goal.least).sum

@[simp] theorem leastOf_cons (g : Goal) (goals : List Goal) :
    leastOf (g :: goals) = g.least + leastOf goals := by
  simp only [leastOf, List.map_cons, List.sum_cons]

@[simp] theorem leastOf_append (goals more : List Goal) :
    leastOf (goals ++ more) = leastOf goals + leastOf more := by
  simp only [leastOf, List.map_append, List.sum_append]

theorem least_le_meetTerm {c : Cursor} {s : Step} (h : meetTerm c = .ok s) :
    1 ≤ readBy s.actions + leastOf s.goals := by
  unfold meetTerm at h
  split at h
  · cases h
  · rename_i t rest hc
    split at h
    · cases h
      exact Nat.le_refl 1
    · cases h
      exact Nat.le_refl 1
    · rename_i name hl
      cases h
      rcases Script.meetName_eq c ⟨name, t.position⟩ (c.to rest) with ⟨actions, news, hname⟩ | hname
      · rw [hname]
        simp only [readBy_cons, Action.reads]
        omega
      · rw [hname]
        exact Nat.le_refl 1
    · split at h
      · cases h
        exact Nat.le_add_right 1 _
      · cases h
    · split at h
      · cases h
        exact Nat.le_add_right 1 _
      · split at h
        · cases h
          exact Nat.le_add_right 1 _
        · cases h

/-- The tokens that a goal needs are read at once, or the goals in its place need them. -/
theorem Goal.least_le_of_meet {g : Goal} {c : Cursor} {s : Step} (h : g.meet c = .ok s) :
    g.least ≤ readBy s.actions + leastOf s.goals := by
  cases g with
  | term => exact least_le_meetTerm h
  | mark p m | classWord | className | named d type count | letTarget | call p | member p owner =>
    simp only [Goal.meet] at h
    split at h
    · cases h
      exact Nat.le_add_right 1 _
    · cases h
  | typed d count =>
    simp only [Goal.meet] at h
    split at h
    · cases h
      exact Nat.le_add_right 1 _
    · cases h
  | resultType =>
    simp only [Goal.meet] at h
    split at h
    · cases h
      exact Nat.le_refl 1
    · split at h
      · cases h
        exact Nat.le_refl 1
      · cases h
  | subroutineName role =>
    simp only [Goal.meet, meetSubroutineName] at h
    split at h
    · cases h
      simp only [Goal.least, readBy_cons, Action.reads]
      omega
    · cases h
  | _ => exact Nat.zero_le _

/-! ### Where a cursor stands in a stream -/

/-- The index of the token in front of the cursor. At the end it is that of the end itself. -/
def TokenStream.index (stream : TokenStream) (c : Cursor) : Nat :=
  stream.tokens.length - c.rest.length

/-- What is left at the cursor is the end of the stream. -/
structure Cursor.Inside (c : Cursor) (stream : TokenStream) : Prop where
  rest : c.rest <:+ stream.tokens
  finish : c.finish = stream.finish

namespace Cursor.Inside

variable {c d : Cursor} {stream : TokenStream}

theorem index_add (h : c.Inside stream) :
    stream.index c + c.rest.length = stream.tokens.length := by
  have hle := h.rest.length_le
  rw [TokenStream.index]
  omega

theorem drop_index (h : c.Inside stream) : stream.tokens.drop (stream.index c) = c.rest :=
  (List.suffix_iff_eq_drop.1 h.rest).symm

theorem getElem?_founds (h : c.Inside stream) :
    stream.founds[stream.index c]? = some c.found := by
  obtain ⟨front, hfront⟩ := h.rest
  have hindex : stream.index c = front.length := by
    rw [TokenStream.index, ← hfront, List.length_append]
    omega
  rw [hindex]
  exact TokenStream.getElem?_founds hfront.symm h.finish

theorem to_drop (h : c.Inside stream) (n : Nat) : (c.to (c.rest.drop n)).Inside stream :=
  ⟨(List.drop_suffix n c.rest).trans h.rest, h.finish⟩

/-- A cursor with no more tokens left stands no farther back. -/
theorem index_le (hc : c.Inside stream) (hd : d.Inside stream)
    (hle : d.rest.length ≤ c.rest.length) : stream.index c ≤ stream.index d := by
  have hcindex := hc.index_add
  have hdindex := hd.index_add
  omega

theorem index_lt (hc : c.Inside stream) (hd : d.Inside stream)
    (hlt : d.rest.length < c.rest.length) : stream.index c < stream.index d := by
  have hcindex := hc.index_add
  have hdindex := hd.index_add
  omega

end Cursor.Inside

/-! ### Moments in a stream -/

namespace Moment

variable {m n a b : Moment} {stream : TokenStream}

/-- The moment is one of a pass through the stream. -/
structure In (m : Moment) (stream : TokenStream) : Prop where
  cursor : m.cursor.Inside stream
  quiet : m.goals.all Goal.quiet = true

theorem In.meet (h : m.In stream) {g : Goal} {goals : List Goal} {step : Step}
    (hgoals : m.goals = g :: goals) (hg : g.meet m.cursor = .ok step) :
    step.cursor.Inside stream ∧ (step.goals ++ goals).all Goal.quiet = true
      ∧ m.cursor.rest = tokensRead step.actions ++ step.cursor.rest := by
  have hquiet := h.quiet
  rw [hgoals] at hquiet
  obtain ⟨hquiet, hbelow⟩ := Bool.and_eq_true_iff.1 hquiet
  obtain ⟨-, hfinish, hnews⟩ := Goal.rest_of_meet hquiet hg
  have hrest := Goal.rest_eq_of_meet hquiet hg
  have hsuffix : step.cursor.rest <:+ m.cursor.rest := ⟨_, hrest.symm⟩
  exact ⟨⟨hsuffix.trans h.cursor.rest, hfinish.trans h.cursor.finish⟩,
    quiet_append hnews hbelow, hrest⟩

theorem In.next (h : m.In stream) (hnext : m.Next n) : n.In stream := by
  obtain ⟨g, goals, step, t, hgoals, hg, -, rfl⟩ := next_iff.1 hnext
  obtain ⟨hcursor, hquiet, -⟩ := h.meet hgoals hg
  exact ⟨hcursor, hquiet⟩

theorem In.of_reaches (h : m.In stream) (hreaches : m.Reaches n) : n.In stream :=
  hreaches.invariant In.next h

/-- From one moment to the next, tokens are read, and they count towards what the goals need. -/
theorem In.least_le_of_next (h : m.In stream) (hnext : m.Next n) :
    n.cursor.rest.length ≤ m.cursor.rest.length
      ∧ leastOf m.goals + n.cursor.rest.length ≤ leastOf n.goals + m.cursor.rest.length := by
  obtain ⟨g, goals, step, t, hgoals, hg, -, rfl⟩ := next_iff.1 hnext
  obtain ⟨-, -, hrest⟩ := h.meet hgoals hg
  have hlength := congrArg List.length hrest
  rw [List.length_append, length_tokensRead] at hlength
  have hleast := Goal.least_le_of_meet hg
  simp only [hgoals, leastOf_cons, leastOf_append]
  omega

theorem In.least_le (h : a.In stream) (hreaches : a.Reaches b) :
    b.cursor.rest.length ≤ a.cursor.rest.length
      ∧ leastOf a.goals + b.cursor.rest.length ≤ leastOf b.goals + a.cursor.rest.length := by
  induction hreaches with
  | refl => exact ⟨Nat.le_refl _, Nat.le_refl _⟩
  | tail ham hnext ih =>
    have hstep := (h.of_reaches ham).least_le_of_next hnext
    omega

end Moment

/-! ### Phrases -/

/-- The goals of a phrase, and the goals in their place once the phrase is read. Declarations of one
kind are goals that stay, and so are statements, as more of them may follow. -/
inductive Phrase : List Goal → List Goal → Prop
  | class_ : Phrase classGoals []
  | classVarDec : Phrase [.classVarDecs] [.classVarDecs]
  | subroutineDec : Phrase [.subroutineDecs] [.subroutineDecs]
  | varDec (role : Role) (before count : UInt16) (start : Position) :
    Phrase [.body role before] [.counted role before count start]
  | declared (d : Declaration) (count : UInt16) : Phrase [.typed d 0] (d.endGoals count)
  | statement : Phrase [.statements] [.statements]
  | expression : Phrase expressionGoals []
  | term : Phrase [.term] []
  | call (p : Production) : Phrase [.call p] []

theorem leastOf_endGoals (d : Declaration) (count : UInt16) : leastOf (d.endGoals count) = 0 := by
  cases d <;> rfl

/-- A phrase needs a token, or its goals would not weigh less when it is read. -/
theorem Phrase.measure {front after : List Goal} (h : Phrase front after) :
    leastOf after < leastOf front ∨ weightOf front ≤ weightOf after := by
  cases h with
  | class_ | expression => exact .inl (by decide)
  | term | call p => exact .inl Nat.one_pos
  | declared d count =>
    refine .inl ?_
    rw [leastOf_endGoals]
    exact Nat.one_pos
  | classVarDec | subroutineDec | statement => exact .inr (Nat.le_refl _)
  | varDec role before count start => exact .inr (Nat.le_succ 8)

/-- A phrase that is read has read a token. -/
theorem Moment.In.rest_lt {a b : Moment} {stream : TokenStream} {front after below : List Goal}
    (h : a.In stream) (hphrase : Phrase front after) (hab : a.Precedes b)
    (ha : a.goals = front ++ below) (hb : b.goals = after ++ below) :
    b.cursor.rest.length < a.cursor.rest.length := by
  obtain ⟨-, hleast⟩ := h.least_le hab.reaches
  have hpotential := hab.potential_lt
  rw [ha, hb] at hleast hpotential
  simp only [leastOf_append, potential, weightOf_append] at hleast hpotential
  rcases hphrase.measure with hmeasure | hmeasure
  · omega
  · omega

/-! ### Passes from anywhere in a stream -/

/-- What a pass through a stream does with its tokens. -/
structure Moment.ReadsOn (start : Moment) (stream : TokenStream) : Prop where
  /-- The outcome is what the script of the goals comes to when it is performed. -/
  performed : start.outcome.session
      = (start.session.performAll (Script.ofGoals start.goals start.cursor #[]).actions.toList).1
    ∧ start.outcome.error?
      = (start.session.performAll
          (Script.ofGoals start.goals start.cursor #[]).actions.toList).2.or
        (Script.ofGoals start.goals start.cursor #[]).fault?
  /-- There is a last moment, and no goal is left there just if no error has ended the pass. -/
  ends : ∃ last, start.Reaches last ∧ last.next? = none ∧ last.outcome = start.outcome
    ∧ (start.outcome.error? = none ↔ last.goals = [])
  /-- The index of the cursor is in range, and the token there is the one that the cursor sees. -/
  inside : ∀ m, start.Reaches m → stream.tokens.drop (stream.index m.cursor) = m.cursor.rest
    ∧ stream.founds[stream.index m.cursor]? = some m.cursor.found
  forward : ∀ a b, start.Reaches a → a.Reaches b →
    stream.index a.cursor ≤ stream.index b.cursor
  /-- A token that was read stands right before the cursor. -/
  behind : ∀ m g goals step, start.Reaches m → m.goals = g :: goals →
    g.meet m.cursor = .ok step → ∀ t ∈ tokensRead step.actions,
      0 < stream.index step.cursor ∧ stream.tokens[stream.index step.cursor - 1]? = some t
  /-- A phrase is not read without a token. -/
  phrases : ∀ front after below a b, Phrase front after → start.Reaches a → a.Precedes b →
    a.goals = front ++ below → b.goals = after ++ below →
      stream.index a.cursor < stream.index b.cursor
  final : stream.index start.cursor ≤ stream.index start.outcome.cursor
    ∧ stream.founds[stream.index start.outcome.cursor]? = some start.outcome.cursor.found
  /-- An error about a token leaves the cursor in front of it. -/
  found : ∀ e f, start.outcome.error? = some e → e.found? = some f →
    stream.founds[stream.index start.outcome.cursor]? = some f

namespace Moment

variable {m start : Moment} {stream : TokenStream}

theorem In.behind (h : m.In stream) {g : Goal} {goals : List Goal} {step : Step} {t : Token}
    (hgoals : m.goals = g :: goals) (hg : g.meet m.cursor = .ok step)
    (ht : t ∈ tokensRead step.actions) :
    0 < stream.index step.cursor ∧ stream.tokens[stream.index step.cursor - 1]? = some t := by
  obtain ⟨hinside, -, hrest⟩ := h.meet hgoals hg
  have hquiet := h.quiet
  rw [hgoals] at hquiet
  -- a step reads one token at most, so it is all that was read
  have hone : (tokensRead step.actions).length ≤ 1 :=
    length_tokensRead step.actions ▸ Goal.reads_of_meet_le (Bool.and_eq_true_iff.1 hquiet).1 hg
  have hread : tokensRead step.actions = [t] := by
    obtain ⟨u, hu⟩ := List.length_eq_one_iff.1
      (Nat.le_antisymm hone (List.length_pos_of_mem ht))
    rw [hu, List.mem_singleton] at ht
    rw [hu, ht]
  rw [hread] at hrest
  have hindex := hinside.index_add
  have hbefore := h.cursor.index_add
  have hlength := congrArg List.length hrest
  rw [List.length_append, List.length_singleton] at hlength
  have hpred : stream.index step.cursor - 1 = stream.index m.cursor := by omega
  refine ⟨by omega, ?_⟩
  rw [hpred, ← Nat.add_zero (stream.index m.cursor), ← List.getElem?_drop, h.cursor.drop_index,
    hrest]
  rfl

/-- What the outcome is at a last moment. -/
structure In.Outcome (m : Moment) (stream : TokenStream) : Prop where
  done : m.outcome.error? = none ↔ m.goals = []
  cursor : m.outcome.cursor.Inside stream
  forward : m.outcome.cursor.rest.length ≤ m.cursor.rest.length
  found : ∀ e f, m.outcome.error? = some e → e.found? = some f → f = m.outcome.cursor.found

theorem In.outcome (h : m.In stream) (hlast : m.next? = none) : In.Outcome m stream := by
  rcases last_cases hlast with ⟨hgoals, houtcome⟩ | ⟨g, goals, e, hgoals, hg, houtcome⟩ |
    ⟨g, goals, step, t, e, hgoals, hg, hp, houtcome⟩
  · constructor
    · simp only [houtcome, hgoals]
    · rw [houtcome]
      exact h.cursor
    · rw [houtcome]
    · intro e f he
      rw [houtcome] at he
      cases he
  · constructor
    · simp only [houtcome, hgoals, reduceCtorEq]
    · rw [houtcome]
      exact h.cursor
    · rw [houtcome]
    · intro e' f he hf
      rw [houtcome] at he ⊢
      cases he
      exact (Goal.refuses_of_error hg).found f hf
  · constructor
    · simp only [houtcome, hgoals, reduceCtorEq]
    · rw [houtcome]
      exact h.cursor.to_drop _
    · rw [houtcome]
      exact (List.drop_suffix _ _).length_le
    · intro e' f he hf
      rw [houtcome] at he
      cases he
      rw [Session.found?_of_performAll hp] at hf
      cases hf

end Moment

/-- Whatever goals are met from wherever in a stream, the pass ends. The cursor stays inside the
stream and never goes back, each class, declaration, statement, expression, term and call that is
read has at least one token, and an error about a token leaves the cursor in front of that token. -/
theorem goals_read_on {stream : TokenStream} {start : Moment}
    (hcursor : start.cursor.Inside stream) (hquiet : start.goals.all Goal.quiet = true) :
    start.ReadsOn stream := by
  have hstart : start.In stream := ⟨hcursor, hquiet⟩
  obtain ⟨last, hreaches, hlast⟩ := start.exists_last
  have hend := (hstart.of_reaches hreaches).outcome hlast
  have houtcome := hreaches.outcome_eq
  have hforward := (hstart.least_le hreaches).1
  constructor
  case performed => exact start.session.pass_eq_performAll start.goals start.cursor
  case ends => exact ⟨last, hreaches, hlast, houtcome, houtcome ▸ hend.done⟩
  case inside =>
    intro m hm
    have hinside := (hstart.of_reaches hm).cursor
    exact ⟨hinside.drop_index, hinside.getElem?_founds⟩
  case forward =>
    intro a b ha hab
    have hina := hstart.of_reaches ha
    exact hina.cursor.index_le (hina.of_reaches hab).cursor (hina.least_le hab).1
  case behind =>
    intro m g goals step hm hgoals hg t ht
    exact (hstart.of_reaches hm).behind hgoals hg ht
  case phrases =>
    intro front after below a b hphrase ha hab hgoals hafter
    have hina := hstart.of_reaches ha
    exact hina.cursor.index_lt (hina.of_reaches hab.reaches).cursor
      (hina.rest_lt hphrase hab hgoals hafter)
  case final =>
    rw [← houtcome]
    exact ⟨hcursor.index_le hend.cursor (Nat.le_trans hend.forward hforward),
      hend.cursor.getElem?_founds⟩
  case found =>
    intro e f he hf
    rw [← houtcome] at he ⊢
    rw [hend.found e f he hf]
    exact hend.cursor.getElem?_founds

/-- An expression in the midst of a statement, with an operator where an operand should be. -/
theorem expression_reads_on_to_operator :
    ∃ stream, tokenize "let x=1+*2;" = .ok stream
      ∧ ∃ start : Moment, start.goals = expressionGoals
        ∧ start.cursor.rest = stream.tokens.drop 3 ∧ start.ReadsOn stream
        ∧ stream.founds[stream.index start.outcome.cursor]?
          = some ⟨some (.symbol .star), ⟨1, 9⟩⟩ := by
  obtain ⟨stream, hs⟩ : ∃ stream, tokenize "let x=1+*2;" = .ok stream := ⟨_, rfl⟩
  have hreads : (Moment.mk (.initial false) expressionGoals
      ⟨stream.tokens.drop 3, stream.finish, 0⟩).ReadsOn stream :=
    goals_read_on ⟨List.drop_suffix _ _, rfl⟩ rfl
  have herror := hreads.performed.2
  obtain rfl := Except.ok.inj (hs.symm.trans rfl)
  exact ⟨_, rfl, _, rfl, rfl, hreads, hreads.found _ _ herror rfl⟩

end Jack
