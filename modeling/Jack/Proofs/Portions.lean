import Jack.Proofs.Attribution
import Jack.Proofs.Operators

/-! What a pass makes of one subroutine. A pass that is midway through a subroutine goes on along
the trail of its tokens, until the subroutine is over or an error ends the pass. -/

namespace Jack

/-! ### What stays -/

theorem Phase.quiet_of_goal? {x y : Phase} {g : Goal} (h : x.goal? g = some y) :
    g.quiet = true := by
  cases g with
  | due a =>
    cases a with
    | take t | declare p o type kind | mention o | mentionFirst o => cases h
    | _ => rfl
  | _ => rfl

theorem Phase.quiet_of_goals? {x y : Phase} {goals : List Goal} (h : x.goals? goals = some y) :
    goals.all Goal.quiet = true := by
  induction goals generalizing x with
  | nil => rfl
  | cons g goals ih =>
    obtain ⟨z, hz, hgoals⟩ := Phase.goals?_cons h
    rw [List.all_cons, Phase.quiet_of_goal? hz, ih hgoals]
    rfl

theorem IsPlain.mono {rs rs' : List Reading} {p : Position} (h : IsPlain rs p)
    (hrs : rs <+: rs') : IsPlain rs' p := by
  obtain ⟨more, rfl⟩ := hrs
  exact h.append more

/-- What is remembered stays, however many tokens are read. -/
theorem Goal.Recalls.mono {g : Goal} {rs rs' : List Reading} (h : g.Recalls rs)
    (hrs : rs <+: rs') : g.Recalls rs' := by
  cases g with
  | due a =>
    cases a with
    | header name =>
      obtain ⟨more, rfl⟩ := hrs
      exact HasName.append h more
    | call p target args => exact IsPlain.mono h hrs
    | _ => trivial
  | arguments p target | moreArguments p target count position | callee p first
    | member p owner => exact IsPlain.mono h hrs
  | _ => trivial

theorem Trail.readings_after (tr : Trail) (a : Action) : tr.readings <+: (tr.after a).readings := by
  have hread : ∀ t, tr.readings <+: (tr.read t).readings := by
    intro t
    rw [read]
    split <;> exact List.prefix_append _ _
  cases a with
  | take t | declare p o type kind | mention o | mentionFirst o => exact hread _
  | _ => exact List.prefix_rfl

theorem Trail.readings_afterAll (tr : Trail) (as : List Action) :
    tr.readings <+: (tr.afterAll as).readings := by
  induction as generalizing tr with
  | nil => exact List.prefix_rfl
  | cons a as ih => exact (tr.readings_after a).trans (ih (tr.after a))

theorem Trail.afterAll_append (tr : Trail) (as bs : List Action) :
    tr.afterAll (as ++ bs) = (tr.afterAll as).afterAll bs :=
  List.foldl_append

theorem tokensRead_append (as bs : List Action) :
    tokensRead (as ++ bs) = tokensRead as ++ tokensRead bs :=
  List.filterMap_append

theorem length_tokensRead (as : List Action) : (tokensRead as).length = readBy as := by
  induction as with
  | nil => rfl
  | cons a as ih =>
    have hread : a.read?.toList.length = a.reads := by cases a <;> rfl
    rw [tokensRead_cons, List.length_append, hread, ih, readBy_cons]

/-- Actions that are always performed are performed while the header stands in its slot. -/
theorem Session.Holds.performAll_sure {s : Session} (h : s.Holds) {as : List Action}
    (has : as.all Action.sure = true) : (s.performAll as).2 = none := by
  induction as generalizing s with
  | nil => rfl
  | cons a as ih =>
    obtain ⟨ha, has⟩ := Bool.and_eq_true_iff.1 has
    have hstep := h.perform a
    have hnone : (s.perform a).2 = none := by
      cases a with
      | enter p | leave p | take t => rfl
      | complete locals => exact (h.complete locals).2
      | _ => cases ha
    rw [Session.performAll_cons]
    cases hp : s.perform a with
    | mk t error? =>
      rw [hp] at hstep hnone
      obtain rfl : error? = none := hnone
      exact ih hstep has

theorem Session.Holds.performAll {s : Session} (h : s.Holds) (as : List Action) :
    (s.performAll as).1.Holds := by
  induction as generalizing s with
  | nil => exact h
  | cons a as ih =>
    have hstep := h.perform a
    rw [Session.performAll_cons]
    cases hp : s.perform a with
    | mk t error? =>
      rw [hp] at hstep
      cases error? with
      | none => exact ih hstep
      | some e => exact hstep

/-- When a step fails, the token that it reads has been read, or none has. -/
theorem Session.rest_of_fail (s : Session) {g : Goal} {c : Cursor} {step : Step}
    (hq : g.quiet = true) (hg : g.meet c = .ok step) :
    ∃ us, (tokensRead step.actions).take (s.consumed step.actions) = us
      ∧ c.rest = us ++ c.rest.drop (s.consumed step.actions)
      ∧ (us = [] ∨ us = tokensRead step.actions) := by
  have hrest := Goal.rest_eq_of_meet hq hg
  have hconsumed : s.consumed step.actions ≤ (tokensRead step.actions).length :=
    length_tokensRead step.actions ▸ s.consumed_le step.actions
  have hone : (tokensRead step.actions).length ≤ 1 :=
    length_tokensRead step.actions ▸ Goal.reads_of_meet_le hq hg
  refine ⟨_, rfl, ?_, ?_⟩
  · rw [hrest, List.drop_append_of_le_length hconsumed, ← List.append_assoc,
      List.take_append_drop]
  · rcases Nat.eq_zero_or_pos (s.consumed step.actions) with hzero | hpos
    · exact .inl (by rw [hzero, List.take_zero])
    · exact .inr (List.take_of_length_le (by omega))

/-! ### Midway through a subroutine -/

/-- A session midway through a subroutine, with the goals that are left of it. -/
structure Session.Midway (s : Session) (old : List Emitted) (k : String) (tr : Trail) (x : Phase)
    (goals : List Goal) : Prop where
  follows : s.Follows old k tr
  holds : s.Holds
  phase : x.Holds tr
  leads : x.goals? goals = some .ended
  waiting : tr.waiting = goals.flatMap Goal.owes
  recalls : ∀ g ∈ goals, g.Recalls tr.readings

namespace Session.Midway

variable {s t : Session} {old : List Emitted} {k : String} {tr : Trail} {x : Phase} {g : Goal}
  {goals : List Goal} {c : Cursor} {step : Step}

/-- The next goal is met, and what it asks for is done. -/
theorem next (h : s.Midway old k tr x (g :: goals)) (hg : g.meet c = .ok step)
    (hd : ((tr.tokens ++ tokensRead step.actions).map Token.position).Nodup)
    (hp : s.performAll step.actions = (t, none)) :
    ∃ y, t.Midway old k (tr.afterAll step.actions) y (step.goals ++ goals) := by
  obtain ⟨z, hz, hgoals⟩ := Phase.goals?_cons h.leads
  have hkeeps := Goal.keeps_of_meet hz h.phase h.waiting (h.recalls g (.head _)) hg
  obtain ⟨y, hy, -, hnews⟩ := hkeeps.phase
  have hfollows := h.follows.performAll hkeeps.allowed hd
  have hholds := h.holds.performAll step.actions
  rw [hp] at hfollows hholds
  refine ⟨y, hfollows, hholds, hy, ?_, ?_, ?_⟩
  · rw [Phase.goals?_append hnews, hgoals]
  · rw [hkeeps.waiting, List.flatMap_append]
    rfl
  · intro g' hg'
    rcases List.mem_append.1 hg' with hg' | hg'
    · exact hkeeps.recalls g' hg'
    · exact (h.recalls g' (.tail _ hg')).mono (tr.readings_afterAll step.actions)

/-- A goal that cannot be met is not the last of the subroutine. -/
theorem ne_ended_of_error (h : s.Midway old k tr x (g :: goals)) {e : CompileError}
    (hg : g.meet c = .error e) : x ≠ .ended := by
  rintro rfl
  obtain ⟨z, hz, -⟩ := Phase.goals?_cons h.leads
  obtain ⟨-, a, rfl, -⟩ := Phase.sure_of_ended hz
  cases hg

/-- Something that cannot be done is asked for before the subroutine is over. -/
theorem fail (h : s.Midway old k tr x (g :: goals)) (hg : g.meet c = .ok step)
    (hd : ((tr.tokens ++ tokensRead step.actions).map Token.position).Nodup) {e : CompileError}
    (hp : s.performAll step.actions = (t, some e)) :
    t.Leaves old k (tr.tokens ++ (tokensRead step.actions).take (s.consumed step.actions))
      ∧ x ≠ .ended ∧ ∃ y : Phase, y ≠ .ended ∧ y.goals? (step.goals ++ goals) = some .ended := by
  obtain ⟨z, hz, hgoals⟩ := Phase.goals?_cons h.leads
  have hkeeps := Goal.keeps_of_meet hz h.phase h.waiting (h.recalls g (.head _)) hg
  obtain ⟨y, -, hended, hnews⟩ := hkeeps.phase
  have hleaves := h.follows.performAll hkeeps.allowed hd
  have hunsure : step.actions.all Action.sure ≠ true := by
    intro hsure
    have hnone := h.holds.performAll_sure hsure
    rw [hp] at hnone
    cases hnone
  rw [hp] at hleaves
  refine ⟨hleaves, ?_, y, fun hy => hunsure (hended hy), ?_⟩
  · rintro rfl
    obtain ⟨-, a, rfl, ha⟩ := Phase.sure_of_ended hz
    cases hg
    exact hunsure (by simp [ha])
  · rw [Phase.goals?_append hnews, hgoals]

/-- By induction on the goals that are met: the pass follows the trail of its own actions. -/
theorem pass {P : List Lexeme → Prop} (h : s.Midway old k tr x goals)
    (hd : ((tr.tokens ++ c.rest).map Token.position).Nodup)
    (hp : Promises goals (tr.tokens.map Token.lexeme) P) :
    ∃ us, c.rest = us ++ (s.pass goals c).cursor.rest
      ∧ ((s.pass goals c).error? = none →
        P ((tr.tokens ++ us).map Token.lexeme)
          ∧ tokensRead (Script.ofGoals goals c #[]).actions.toList = us
          ∧ ∃ y, (s.pass goals c).session.Midway old k
            (tr.afterAll (Script.ofGoals goals c #[]).actions.toList) y [])
      ∧ ∀ e ∈ (s.pass goals c).error?,
        (s.pass goals c).session.Leaves old k (tr.tokens ++ us)
          ∧ ∃ more, more ≠ [] ∧ P ((tr.tokens ++ us).map Token.lexeme ++ more) := by
  have hmore : ∀ {y : Phase} {gs : List Goal} {ws : List Lexeme}, y ≠ .ended →
      y.goals? gs = some .ended → Promises gs ws P → ∃ more, more ≠ [] ∧ P (ws ++ more) := by
    intro y gs ws hy hgs hws
    obtain ⟨ls, hls, -⟩ := exists_reads gs
    exact ⟨ls, Phase.ne_nil_of_reads hy hgs hls, hws ls hls⟩
  induction goals, c using Script.induction_on_meet generalizing s tr x with
  | nil c =>
    rw [Session.pass_nil, Script.ofGoals_nil]
    refine ⟨[], rfl, fun _ => ⟨?_, rfl, x, h⟩, fun _ he => absurd he (Option.not_mem_none _)⟩
    rw [List.append_nil]
    exact hp.of_nil
  | error g goals c e hg =>
    rw [Session.pass_of_error hg]
    refine ⟨[], rfl, fun h => absurd h (Option.some_ne_none _), fun _ _ => ?_⟩
    rw [List.append_nil]
    exact ⟨h.follows.leaves List.prefix_rfl, hmore (h.ne_ended_of_error hg) h.leads hp⟩
  | ok g goals c step hg ih =>
    obtain ⟨actions, news, d⟩ := step
    have hquiet : g.quiet = true := (Bool.and_eq_true_iff.1 (Phase.quiet_of_goals? h.leads)).1
    have hrest : c.rest = tokensRead actions ++ d.rest := Goal.rest_eq_of_meet hquiet hg
    have hwords : c.lexemes = (tokensRead actions).map Token.lexeme ++ d.lexemes := by
      rw [Cursor.lexemes, hrest, List.map_append, Cursor.lexemes]
    have hpromise := hp.meet hg hwords
    rw [← List.map_append] at hpromise
    rw [hrest, ← List.append_assoc] at hd
    have hd' : ((tr.tokens ++ tokensRead actions).map Token.position).Nodup := by
      rw [List.map_append] at hd
      exact (List.nodup_append.1 hd).1
    rw [Session.pass_of_ok hg, (Script.ofGoals_of_meet hg goals).1]
    cases hperform : s.performAll actions with
    | mk t error? =>
      cases error? with
      | none =>
        obtain ⟨y, hy⟩ := h.next hg hd' hperform
        rw [← Trail.tokens_afterAll] at hd hpromise
        obtain ⟨us, hus, hnone, hsome⟩ := ih hy hd hpromise
        rw [Trail.tokens_afterAll, List.append_assoc] at hnone hsome
        refine ⟨tokensRead actions ++ us, ?_, ?_, hsome⟩
        · rw [hrest, List.append_assoc]
          exact congrArg (tokensRead actions ++ ·) hus
        · intro he
          obtain ⟨hP, hread, hmidway⟩ := hnone he
          rw [tokensRead_append, hread, Trail.afterAll_append]
          exact ⟨hP, rfl, hmidway⟩
      | some e =>
        obtain ⟨hleaves, hx, y, hy, hleads⟩ := h.fail hg hd' hperform
        obtain ⟨us, htake, hus, hread⟩ := s.rest_of_fail hquiet hg
        rw [htake] at hleaves
        refine ⟨us, hus, fun h => absurd h (Option.some_ne_none _), fun _ _ => ⟨hleaves, ?_⟩⟩
        rcases hread with rfl | rfl
        · rw [List.append_nil]
          exact hmore hx h.leads hp
        · exact hmore hy hleads hpromise

end Session.Midway

/-! ### Portions of a text -/

/-- The tokens of a subroutine that were read, and the lines that were emitted for it. -/
structure Portion where
  dec : SubroutineDec
  tokens : List Token
  lines : List Emitted

namespace Portion

/-- Each line stands for a token of the subroutine. The first one is the header, the only one. -/
structure Stands (b : Portion) (k : String) : Prop where
  words : b.tokens.map Token.lexeme <+: b.dec.lexemes
  header : b.lines = [] ∨ ∃ locals p rest,
    b.lines = ⟨.function (qualified k b.dec.name) locals, p⟩ :: rest
      ∧ ∀ e ∈ rest, e.instruction.header? = none
  places : ∀ e ∈ b.lines, ∃ t ∈ b.tokens, t.position = e.position

/-- The subroutine is read to its end, each of its tokens is an operator or none, and one line
stands for each operator, the instruction of this operator. -/
structure Complete (b : Portion) (k : String) : Prop extends b.Stands k where
  whole : b.tokens.map Token.lexeme = b.dec.lexemes
  emitted : b.lines ≠ []
  aligned : b.dec.operators.length = b.tokens.length
  operators : ∀ (j : Nat) (t : Token) (i : Instruction), b.tokens[j]? = some t →
    b.dec.operators[j]? = some (some i) →
      b.lines.filter (fun e => e.position = t.position) = [⟨i, t.position⟩]

end Portion

section

variable {s : Session} {old : List Emitted} {k : String} {tr : Trail} {d : SubroutineDec}

theorem SubroutineDec.name_of_hasName {ts : List Token} (hts : tr.tokens <+: ts)
    (hwords : ts.map Token.lexeme <+: d.lexemes) {name : String} (h : HasName tr.readings name) :
    name = d.name := by
  obtain ⟨r, hr, hname⟩ := Option.map_eq_some_iff.1 h
  have hprefix : tr.readings.map (fun r => r.token.lexeme) <+: d.lexemes := by
    have hmap := (hts.map Token.lexeme).trans hwords
    rwa [Trail.tokens, List.map_map] at hmap
  have hthird : d.lexemes[2]? = some (.identifier name) := by
    obtain ⟨more, hmore⟩ := hprefix
    obtain ⟨hlt, -⟩ := List.getElem?_eq_some_iff.1 hr
    rw [← hmore, List.getElem?_append_left (by simpa using hlt), List.getElem?_map, hr]
    exact congrArg some hname
  have hdec : d.lexemes[2]? = some (.identifier d.name) := rfl
  exact Lexeme.identifier.inj (Option.some.inj (hthird.symm.trans hdec))

/-- The lines of a session on a trail are those of a portion. -/
theorem Session.Follows.stands (h : s.Follows old k tr) {ts : List Token} (hts : tr.tokens <+: ts)
    (hwords : ts.map Token.lexeme <+: d.lexemes) :
    ∃ lines, s.listing.lines.toList = old ++ lines ∧ (Portion.mk d ts lines).Stands k := by
  obtain ⟨lines, haccounted, hlists⟩ := h.lines
  have hmem : ∀ r ∈ tr.readings, r.token ∈ ts :=
    fun r hr => hts.subset (List.mem_map_of_mem hr)
  cases hname : tr.name? with
  | none =>
    rw [hname] at hlists
    refine ⟨[], by rw [hlists.2, List.append_nil], hwords, .inl rfl, List.forall_mem_nil _⟩
  | some name =>
    rw [hname] at hlists
    obtain ⟨hhas, -, locals, p, ⟨t, ht, hp⟩, hold⟩ := hlists
    obtain rfl := SubroutineDec.name_of_hasName hts hwords hhas
    refine ⟨_, hold, hwords, .inr ⟨locals, p, lines, rfl, haccounted.headless⟩, ?_⟩
    refine List.forall_mem_cons.2 ⟨⟨t, hmem _ ht, hp⟩, ?_⟩
    intro e he
    obtain ⟨r, hr, hposition⟩ := haccounted.places e he
    exact ⟨r.token, hmem r hr, hposition⟩

theorem Session.Leaves.stands {ts : List Token} (h : s.Leaves old k ts)
    (hwords : ts.map Token.lexeme <+: d.lexemes) :
    ∃ lines, s.listing.lines.toList = old ++ lines ∧ (Portion.mk d ts lines).Stands k := by
  obtain ⟨t, tr, ht, hlines, hts⟩ := h
  rw [hlines]
  exact ht.stands hts hwords

/-- At the end of a trail no operator waits any more. -/
theorem Session.Follows.complete_portion (h : s.Follows old k tr) (hname : tr.name?.isSome)
    (hw : tr.waiting = []) (hwords : tr.tokens.map Token.lexeme = d.lexemes)
    (hoperators : tr.readings.map Reading.operator? = d.operators) :
    ∃ lines, s.listing.lines.toList = old ++ lines ∧ (Portion.mk d tr.tokens lines).Complete k := by
  obtain ⟨lines, haccounted, hlists⟩ := h.lines
  obtain ⟨name, hsome⟩ := Option.isSome_iff_exists.1 hname
  obtain ⟨all, hall, hstands⟩ := h.stands (d := d) List.prefix_rfl (hwords ▸ List.prefix_rfl)
  rw [hsome] at hlists
  rw [hw] at haccounted
  obtain ⟨-, -, locals, p, hp, hold⟩ := hlists
  obtain rfl : all = ⟨.function (qualified k name) locals, p⟩ :: lines :=
    List.append_cancel_left (hall.symm.trans hold)
  refine ⟨_, hall, hstands, hwords, List.cons_ne_nil _ _, ?_, ?_⟩
  · rw [← hoperators, List.length_map]
    exact (List.length_map _).symm
  intro j t i ht hi
  have hmem : ⟨t, some i⟩ ∈ tr.readings := by
    rw [← hoperators, List.getElem?_map] at hi
    rw [Trail.tokens, List.getElem?_map] at ht
    obtain ⟨r, hr, hoperator⟩ := Option.map_eq_some_iff.1 hi
    rw [hr] at ht
    obtain rfl := Option.some.inj ht
    rw [← hoperator]
    exact List.mem_of_getElem? hr
  have hother : p ≠ t.position := by
    rintro rfl
    have hat : atOperator tr.readings t.position = true :=
      List.any_eq_true.2 ⟨⟨i, t.position⟩, mem_operatorLines.2 ⟨_, hmem, rfl, rfl⟩, by simp⟩
    rw [hp.atOperator_eq_false h.distinct] at hat
    cases hat
  rw [List.filter_cons_of_neg (by simpa using hother)]
  exact haccounted.filter_eq_of_mem h.distinct hmem

end

/-- The trail of a subroutine whose first word is read. -/
def Trail.start (t : Token) : Trail := ⟨none, [⟨t, none⟩], none, t.position, []⟩

theorem Session.midway_start {s : Session} {t : Token} (hs : s.Holds)
    (hplace : s.listing.position = t.position) (role : Role) :
    s.Midway s.listing.lines.toList s.className (.start t) .result
      [.resultType, .subroutineName role] := by
  have hfollows : s.Follows s.listing.lines.toList s.className (.start t) :=
    ⟨rfl, hplace, List.nodup_singleton _, [], Accounted.nil.read_plain t, rfl, rfl⟩
  exact ⟨hfollows, hs, ⟨rfl, rfl, rfl⟩, rfl, rfl, by simp [Goal.Recalls]⟩

theorem promises_subroutine (role : Role) :
    Promises [.resultType, .subroutineName role] [.keyword role.keyword]
      fun ls => ∃ d : SubroutineDec, d.role = role ∧ d.lexemes = ls := by
  intro ls hls
  obtain ⟨_, _, ⟨result, rfl⟩, hname, rfl⟩ := hls
  obtain ⟨name, ps, vars, body, rfl⟩ := reads_singleton.1 hname
  exact ⟨⟨role, result, name, ps, vars, body⟩, rfl,
    by simp [SubroutineDec.lexemes, bodyLexemes, inBraces]⟩

/-- A pass over a subroutine, from the word behind its first one on, makes a portion. -/
theorem Session.exists_portion {s : Session} {t : Token} {role : Role} {c : Cursor} (hs : s.Holds)
    (hplace : s.listing.position = t.position) (ht : t.lexeme = .keyword role.keyword)
    (hd : ((t :: c.rest).map Token.position).Nodup) :
    let p := s.pass [.resultType, .subroutineName role] c
    ∃ b : Portion, t :: c.rest = b.tokens ++ p.cursor.rest
      ∧ p.session.listing.lines.toList = s.listing.lines.toList ++ b.lines
      ∧ b.Stands s.className
      ∧ (p.error? = none → b.Complete s.className ∧ p.session.className = s.className
        ∧ p.session.Holds)
      ∧ ∀ e ∈ p.error?, b.tokens.map Token.lexeme ≠ b.dec.lexemes := by
  intro p
  have hpromise := promises_subroutine role
  rw [← ht] at hpromise
  obtain ⟨us, hrest, hnone, hsome⟩ := (s.midway_start hs hplace role).pass hd hpromise
  have htokens : t :: c.rest = (t :: us) ++ p.cursor.rest := congrArg (t :: ·) hrest
  cases he : p.error? with
  | none =>
    obtain ⟨⟨d, rfl, hwords⟩, hread, y, hmidway⟩ := hnone he
    obtain rfl : y = .ended := Option.some.inj hmidway.leads
    have hfault : (Script.ofGoals [.resultType, .subroutineName d.role] c #[]).fault? = none := by
      have herror := (s.pass_eq_performAll [.resultType, .subroutineName d.role] c).2
      exact (Option.or_eq_none_iff.1 (herror.symm.trans he)).2
    have hc : c.lexemes = d.lexemes.tail ++ p.cursor.lexemes := by
      rw [hwords, Cursor.lexemes, hrest, List.map_append]
      rfl
    have hread' : ((Trail.start t).afterAll
        (Script.ofGoals [.resultType, .subroutineName d.role] c #[]).actions.toList).tokens
        = t :: us := by
      rw [Trail.tokens_afterAll, hread]
      rfl
    have hoperators := ((Trail.start t).operators_afterAll _).trans
      (congrArg ([none] ++ ·) (d.marks_script hc hfault))
    obtain ⟨lines, hlines, hcomplete⟩ := hmidway.follows.complete_portion hmidway.phase
      hmidway.waiting (hread' ▸ hwords.symm) hoperators
    rw [hread'] at hcomplete
    exact ⟨⟨d, t :: us, lines⟩, htokens, hlines, hcomplete.toStands,
      fun _ => ⟨hcomplete, hmidway.follows.className, hmidway.holds⟩,
      fun _ he => absurd he (Option.not_mem_none _)⟩
  | some e =>
    obtain ⟨hleaves, more, hmore, d, -, hwords⟩ := hsome e he
    have hprefix : (t :: us).map Token.lexeme <+: d.lexemes := ⟨more, hwords.symm⟩
    obtain ⟨lines, hlines, hstands⟩ := Session.Leaves.stands (d := d) hleaves hprefix
    refine ⟨⟨d, t :: us, lines⟩, htokens, hlines, hstands,
      fun h => absurd h (Option.some_ne_none _), ?_⟩
    intro _ _ hwhole
    exact hmore (List.self_eq_append_right.1 (hwhole.trans hwords))

end Jack
