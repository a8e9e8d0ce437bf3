import Jack.Proofs.Headers
import Jack.Proofs.Portions

/-! What a pass makes of a class. Its tokens are cut where its subroutines begin: each of them makes
lines of its own, and what stands outside of them makes none. -/

namespace Jack

/-! ### The opening of a class -/

/-- A session that has emitted nothing since another one. -/
structure Session.Same (s t : Session) : Prop where
  className : t.className = s.className
  slot? : t.slot? = s.slot?
  lines : t.listing.lines = s.listing.lines

/-- The action emits nothing and names no class. -/
def Action.silent : Action → Bool
  | .enter _ | .leave _ | .take _ | .declare _ _ _ _ => true
  | _ => false

/-- The goal belongs to a class, but to none of its subroutines. -/
def Goal.silent : Goal → Bool
  | .due (.leave _) | .mark _ _ | .endOfFile | .classVarDecs | .typed (.ofClass _) _
    | .named (.ofClass _) _ _ | .afterName (.ofClass _) _ _ _ => true
  | _ => false

theorem Session.Same.trans {s t u : Session} (h : s.Same t) (h' : t.Same u) : s.Same u :=
  ⟨h'.className.trans h.className, h'.slot?.trans h.slot?, h'.lines.trans h.lines⟩

theorem Session.Same.perform {a : Action} (h : a.silent = true) (s : Session) :
    s.Same (s.perform a).1 := by
  cases a with
  | enter p | leave p | take t => exact ⟨rfl, rfl, rfl⟩
  | declare p o type kind =>
    simp only [Session.perform, Session.define]
    split
    · rename_i t hdefine
      split at hdefine <;> cases hdefine
      exact ⟨rfl, rfl, rfl⟩
    · rename_i t e hdefine
      split at hdefine <;> cases hdefine
      exact ⟨rfl, rfl, rfl⟩
  | _ => cases h

theorem Session.Same.performAll {as : List Action} (h : as.all Action.silent = true)
    (s : Session) : s.Same (s.performAll as).1 := by
  induction as generalizing s with
  | nil => exact ⟨rfl, rfl, rfl⟩
  | cons a as ih =>
    obtain ⟨ha, has⟩ := Bool.and_eq_true_iff.1 h
    have hstep := Session.Same.perform ha s
    rw [Session.performAll_cons]
    cases hp : s.perform a with
    | mk t error? =>
      rw [hp] at hstep
      cases error? with
      | none => exact hstep.trans (ih has t)
      | some e => exact hstep

theorem Goal.silent_of_meet {g : Goal} {c : Cursor} {s : Step} (hg : g.silent = true)
    (h : g.meet c = .ok s) :
    s.actions.all Action.silent = true ∧ s.goals.all Goal.silent = true := by
  cases g with
  | due a =>
    cases a with
    | leave p =>
      cases h
      exact ⟨rfl, rfl⟩
    | _ => cases hg
  | mark p m =>
    simp only [Goal.meet] at h
    split at h <;> cases h
    exact ⟨rfl, rfl⟩
  | endOfFile =>
    simp only [Goal.meet] at h
    split at h <;> cases h
    exact ⟨rfl, rfl⟩
  | classVarDecs =>
    cases h
    unfold meetClassVarDecs
    split
    · split <;> exact ⟨rfl, rfl⟩
    · exact ⟨rfl, rfl⟩
  | typed declared count =>
    cases declared with
    | ofClass kind =>
      simp only [Goal.meet] at h
      split at h <;> cases h
      exact ⟨rfl, rfl⟩
    | _ => cases hg
  | named declared type count =>
    cases declared with
    | ofClass kind =>
      simp only [Goal.meet] at h
      split at h <;> cases h
      exact ⟨rfl, rfl⟩
    | _ => cases hg
  | afterName declared type count position =>
    cases declared with
    | ofClass kind =>
      simp only [Goal.meet, meetAfterName] at h
      split at h
      · cases h
      · split at h
        · cases h
          exact ⟨rfl, rfl⟩
        · rw [if_neg Declaration.noConfusion] at h
          split at h <;> cases h
          exact ⟨rfl, rfl⟩
    | _ => cases hg
  | _ => cases hg

theorem Goal.quiet_of_silent {g : Goal} (h : g.silent = true) : g.quiet = true := by
  cases g with
  | due a =>
    cases a with
    | leave p => rfl
    | _ => cases h
  | _ => rfl

/-- Outside the subroutines a pass makes no line. -/
theorem Session.pass_silent {s : Session} {goals : List Goal} {c : Cursor} {ws : List Lexeme}
    {P : List Lexeme → Prop} (hgoals : goals.all Goal.silent = true) (hp : Promises goals ws P) :
    s.Same (s.pass goals c).session
      ∧ ∃ us, c.rest = us ++ (s.pass goals c).cursor.rest
        ∧ ((s.pass goals c).error? = none → P (ws ++ us.map Token.lexeme))
        ∧ ∃ more, P (ws ++ us.map Token.lexeme ++ more) := by
  induction goals, c using Script.induction_on_meet generalizing s ws with
  | nil c =>
    rw [Session.pass_nil]
    refine ⟨⟨rfl, rfl, rfl⟩, [], rfl, ?_⟩
    rw [List.map_nil, List.append_nil]
    exact ⟨fun _ => hp.of_nil, hp.exists_append⟩
  | error g goals c e hg =>
    rw [Session.pass_of_error hg]
    refine ⟨⟨rfl, rfl, rfl⟩, [], rfl, fun h => absurd h (Option.some_ne_none _), ?_⟩
    rw [List.map_nil, List.append_nil]
    exact hp.exists_append
  | ok g goals c step hg ih =>
    obtain ⟨hsilent, hrest⟩ := Bool.and_eq_true_iff.1 hgoals
    obtain ⟨hactions, hnews⟩ := Goal.silent_of_meet hsilent hg
    have hquiet := Goal.quiet_of_silent hsilent
    have hread := Goal.rest_eq_of_meet hquiet hg
    have hsame := Session.Same.performAll hactions s
    have hwords : c.lexemes
        = (tokensRead step.actions).map Token.lexeme ++ step.cursor.lexemes := by
      rw [Cursor.lexemes, hread, List.map_append, Cursor.lexemes]
    have hpromise := hp.meet hg hwords
    rw [Session.pass_of_ok hg]
    cases hperform : s.performAll step.actions with
    | mk t error? =>
      rw [hperform] at hsame
      cases error? with
      | none =>
        have hall : (step.goals ++ goals).all Goal.silent = true := by
          rw [List.all_append, hnews, hrest]
          rfl
        obtain ⟨hmore, us, hus, hnone, hP⟩ := ih (s := t) hall hpromise
        refine ⟨hsame.trans hmore, tokensRead step.actions ++ us, ?_, ?_, ?_⟩
        · rw [hread, List.append_assoc]
          exact congrArg _ hus
        · rw [List.map_append, ← List.append_assoc]
          exact hnone
        · rw [List.map_append, ← List.append_assoc]
          exact hP
      | some e =>
        obtain ⟨us, -, hus, hus'⟩ := s.rest_of_fail hquiet hg
        refine ⟨hsame, us, hus, fun h => absurd h (Option.some_ne_none _), ?_⟩
        rcases hus' with rfl | rfl
        · rw [List.map_nil, List.append_nil]
          exact hp.exists_append
        · exact hpromise.exists_append

/-- How a pass over the beginning of a class ends, from a cursor behind the words `ws` on. -/
structure Pass.Opens (p : Pass) (c : Cursor) (ws : List Lexeme) : Prop where
  holds : p.session.Holds
  lines : p.session.listing.lines.toList = []
  words : ∃ us k vars more, c.rest = us ++ p.cursor.rest
    ∧ ws ++ us.map Token.lexeme ++ more = (ClassDec.mk k vars []).openLexemes
    ∧ (p.error? = none → more = [] ∧ p.session.className = k)

section

variable {s : Session} {c d : Cursor}

theorem Pass.Opens.read {p : Pass} {t : Token} {ws : List Lexeme}
    (h : p.Opens d (ws ++ [t.lexeme])) (hc : c.rest = t :: d.rest) : p.Opens c ws := by
  obtain ⟨us, k, vars, more, hus, hwords, hdone⟩ := h.words
  refine ⟨h.holds, h.lines, t :: us, k, vars, more, by rw [hc, hus]; rfl, ?_, hdone⟩
  rw [← hwords]
  simp

theorem Pass.opens_of_error {g : Goal} {goals : List Goal} {e : CompileError}
    {ws more : List Lexeme} (hs : s.Holds) (hlines : s.listing.lines.toList = [])
    (hg : g.meet c = .error e) {k : String}
    (hwords : ws ++ more = (ClassDec.mk k [] []).openLexemes) :
    (s.pass (g :: goals) c).Opens c ws := by
  rw [Session.pass_of_error hg]
  refine ⟨hs, hlines, [], k, [], more, rfl, ?_, fun h => absurd h (Option.some_ne_none _)⟩
  rwa [List.map_nil, List.append_nil]

theorem Session.opens_brace (hs : s.Holds) (hlines : s.listing.lines.toList = []) :
    (s.pass [.mark .class_ .leftBrace, .classVarDecs] c).Opens c
      [.keyword .class_, .identifier s.className] := by
  have hpromise : Promises [.mark .class_ .leftBrace, .classVarDecs]
      [.keyword .class_, .identifier s.className]
      fun ls => ∃ vars, ls = (ClassDec.mk s.className vars []).openLexemes := by
    intro ls hls
    obtain ⟨_, hvars, rfl⟩ := reads_mark_cons.1 hls
    obtain ⟨vars, rfl⟩ := reads_singleton.1 hvars
    exact ⟨vars, by simp [ClassDec.openLexemes]⟩
  obtain ⟨hsame, us, hus, hnone, more, vars, hwords⟩ :=
    Session.pass_silent (s := s) (c := c) rfl hpromise
  have hholds : (s.pass [.mark .class_ .leftBrace, .classVarDecs] c).session.Holds := by
    intro slot hslot
    rw [hsame.slot?] at hslot
    have hheld := hs slot hslot
    rw [Listing.holds_iff] at hheld ⊢
    rwa [hsame.lines]
  refine ⟨hholds, by rw [hsame.lines, hlines], us, ?_⟩
  cases he : (s.pass [.mark .class_ .leftBrace, .classVarDecs] c).error? with
  | none =>
    obtain ⟨vars, hvars⟩ := hnone he
    exact ⟨s.className, vars, [], hus, by rw [List.append_nil, hvars],
      fun _ => ⟨rfl, hsame.className⟩⟩
  | some e =>
    exact ⟨s.className, vars, more, hus, hwords, fun h => absurd h (Option.some_ne_none _)⟩

theorem Session.opens_name (hs : s.Holds) (hlines : s.listing.lines.toList = []) :
    (s.pass [.className, .mark .class_ .leftBrace, .classVarDecs] c).Opens c
      [.keyword .class_] := by
  cases hc : c.name? with
  | none =>
    have hmeet : Goal.className.meet c = .error (c.noName .class_) := by simp [Goal.meet, hc]
    exact Pass.opens_of_error (k := "A") hs hlines hmeet rfl
  | some r =>
    obtain ⟨o, d⟩ := r
    have hmeet : Goal.className.meet c = .ok ⟨[.take o.token, .nameClass o.name], [], d⟩ := by
      simp [Goal.meet, hc]
    rw [Session.pass_of_ok hmeet]
    exact Pass.Opens.read (t := o.token) (Session.opens_brace hs hlines) (Cursor.rest_of_name? hc)

theorem Session.opens_word (hs : s.Holds) (hlines : s.listing.lines.toList = []) :
    (s.pass [.classWord, .className, .mark .class_ .leftBrace, .classVarDecs] c).Opens c [] := by
  cases hc : c.read? (.keyword .class_) with
  | none =>
    have hmeet : Goal.classWord.meet c = .error (c.badSyntax .class_ [.keyword .class_]) := by
      simp [Goal.meet, hc]
    exact Pass.opens_of_error (k := "A") hs hlines hmeet rfl
  | some r =>
    obtain ⟨t, d⟩ := r
    have hmeet : Goal.classWord.meet c = .ok ⟨[.take t], [], d⟩ := by simp [Goal.meet, hc]
    have hname : ∀ s' : Session, s'.Holds → s'.listing.lines.toList = [] →
        (s'.pass [.className, .mark .class_ .leftBrace, .classVarDecs] d).Opens d
          ([] ++ [t.lexeme]) := by
      intro s' hs' hlines'
      rw [Cursor.lexeme_of_read? hc]
      exact Session.opens_name hs' hlines'
    rw [Session.pass_of_ok hmeet]
    exact (hname (s.perform (.take t)).1 hs hlines).read (Cursor.rest_of_read? hc)

/-- The goals of a class before its subroutines. -/
def openingGoals : List Goal :=
  [.due (.enter .class_), .classWord, .className, .mark .class_ .leftBrace, .classVarDecs]

/-- A pass over the beginning of a class makes no line. -/
theorem Session.opens_class (outlined : Bool) (c : Cursor) :
    ((Session.initial outlined).pass openingGoals c).Opens c [] := by
  have hdue : (Goal.due (.enter .class_)).meet c = .ok ⟨[.enter .class_], [], c⟩ := rfl
  rw [openingGoals, Session.pass_of_ok hdue]
  exact Session.opens_word (s := ((Session.initial outlined).perform (.enter .class_)).1)
    (fun _ h => absurd h (Option.not_mem_none _)) rfl

end

/-! ### A class cut into its subroutines -/

/-- The tokens of a class that were read, cut where its subroutines begin. -/
structure Division where
  opening : List Token
  /-- The subroutines that were read to their ends. -/
  complete : List Portion
  /-- The subroutine in which the reading ended. -/
  last? : Option Portion
  closing : List Token

namespace Division

def portions (x : Division) : List Portion := x.complete ++ x.last?.toList

def tokens (x : Division) : List Token :=
  x.opening ++ x.portions.flatMap Portion.tokens ++ x.closing

def lines (x : Division) : List Emitted := x.portions.flatMap Portion.lines

/-- The parts are those of a class of this name, and the lines of each subroutine stand for its
tokens. -/
structure Stands (x : Division) (k : String) : Prop where
  opening : ∃ vars more, x.opening.map Token.lexeme ++ more = (ClassDec.mk k vars []).openLexemes
    ∧ (more = [] ∨ x.portions = [] ∧ x.closing = [])
  complete : ∀ b ∈ x.complete, b.Complete k
  last : ∀ b ∈ x.last?, b.Stands k ∧ b.tokens.map Token.lexeme ≠ b.dec.lexemes
  closing : x.closing.map Token.lexeme <+: [.symbol .rightBrace]
    ∧ (x.closing ≠ [] → x.last? = none)

end Division

section

variable {s : Session} {c : Cursor} {k : String} {vars : List ClassVarDec} {opening : List Token}
  {complete : List Portion}

/-- The end of a class, behind subroutines that are complete. -/
theorem Session.exists_division_end
    (hopening : opening.map Token.lexeme = (ClassDec.mk k vars []).openLexemes)
    (hcomplete : ∀ b ∈ complete, b.Complete k)
    (hlines : s.listing.lines.toList = complete.flatMap Portion.lines) :
    ∃ x : Division, x.Stands k ∧ x.last? = none
      ∧ (s.pass classEnd c).session.listing.lines.toList = x.lines
      ∧ opening ++ complete.flatMap Portion.tokens ++ c.rest
        = x.tokens ++ (s.pass classEnd c).cursor.rest := by
  have hpromise : Promises classEnd [] fun ls => ls = [.symbol .rightBrace] := by
    intro ls hls
    obtain ⟨_, hend, rfl⟩ := reads_mark_cons.1 hls
    obtain rfl := reads_singleton.1 (reads_due_cons.1 hend)
    rfl
  obtain ⟨hsame, us, hus, -, more, hwords⟩ := Session.pass_silent (s := s) (c := c) rfl hpromise
  refine ⟨⟨opening, complete, none, us⟩, ⟨⟨vars, [], ?_, .inl rfl⟩, hcomplete, ?_, ?_⟩, rfl, ?_, ?_⟩
  · rw [List.append_nil, hopening]
  · exact fun _ h => absurd h (Option.not_mem_none _)
  · exact ⟨⟨more, hwords⟩, fun _ => rfl⟩
  · rw [hsame.lines, hlines]
    simp [Division.lines, Division.portions]
  · rw [hus]
    simp [Division.tokens, Division.portions]

theorem meetSubroutineDecs_cases (c : Cursor) :
    meetSubroutineDecs c = ⟨[], [], c⟩
      ∨ ∃ role t d, c.rest = t :: d.rest ∧ t.lexeme = .keyword (Role.keyword role)
        ∧ meetSubroutineDecs c = ⟨[.startSubroutine, .enter .subroutineDec, .take t],
          [.resultType, .subroutineName role, .subroutineDecs], d⟩ := by
  unfold meetSubroutineDecs
  split
  · rename_i k t d hc
    split
    · rename_i role hrole
      refine .inr ⟨role, t, d, Cursor.rest_of_keyword? hc, ?_, rfl⟩
      rw [Cursor.lexeme_of_keyword? hc, Role.keyword_of_ofKeyword? hrole]
    · exact .inl rfl
  · exact .inl rfl

/-- By induction on what is left of the text: each subroutine is a portion of it. -/
theorem Session.exists_division
    (hopening : opening.map Token.lexeme = (ClassDec.mk k vars []).openLexemes)
    (hs : s.Holds) (hclass : s.className = k) (hcomplete : ∀ b ∈ complete, b.Complete k)
    (hlines : s.listing.lines.toList = complete.flatMap Portion.lines)
    (hd : (c.rest.map Token.position).Nodup) :
    ∃ x : Division, x.Stands k
      ∧ ((s.pass (.subroutineDecs :: classEnd) c).error? = none → x.last? = none)
      ∧ (s.pass (.subroutineDecs :: classEnd) c).session.listing.lines.toList = x.lines
      ∧ opening ++ complete.flatMap Portion.tokens ++ c.rest
        = x.tokens ++ (s.pass (.subroutineDecs :: classEnd) c).cursor.rest := by
  induction hn : c.rest.length using Nat.strong_induction_on generalizing s c complete with
  | _ n ih =>
    subst hn
    rcases meetSubroutineDecs_cases c with hstay | ⟨role, t, d, hc, ht, hmeet⟩
    · have hmeet : Goal.subroutineDecs.meet c = .ok ⟨[], [], c⟩ := congrArg Except.ok hstay
      rw [Session.pass_of_ok hmeet]
      obtain ⟨x, hx, hlast, hx'⟩ := Session.exists_division_end hopening hcomplete hlines
      exact ⟨x, hx, fun _ => hlast, hx'⟩
    · have hmeet : Goal.subroutineDecs.meet c = .ok ⟨[.startSubroutine, .enter .subroutineDec,
          .take t], [.resultType, .subroutineName role, .subroutineDecs], d⟩ :=
        congrArg Except.ok hmeet
      generalize hs' : (s.performAll [.startSubroutine, .enter .subroutineDec, .take t]).1 = s'
      have hbegun : s.pass (.subroutineDecs :: classEnd) c
          = (s'.pass [.resultType, .subroutineName role] d).andThen
            fun t d => t.pass (.subroutineDecs :: classEnd) d := by
        rw [Session.pass_of_ok hmeet, ← Session.pass_append, ← hs']
        rfl
      have hlines' : s'.listing.lines.toList = complete.flatMap Portion.lines := hs' ▸ hlines
      have hclass' : s'.className = k := hs' ▸ hclass
      rw [hc] at hd
      obtain ⟨b, hb, hblines, hstands, hnone, hsome⟩ :=
        Session.exists_portion (s := s') (hs' ▸ hs) (hs' ▸ rfl) ht hd
      rw [hclass'] at hstands hnone
      rw [hlines'] at hblines
      rw [hbegun, hc, hb]
      generalize s'.pass [.resultType, .subroutineName role] d = p at *
      obtain ⟨u, f, error?⟩ := p
      cases error? with
      | none =>
        obtain ⟨hwhole, huclass, huholds⟩ := hnone rfl
        have hbrest : t :: d.rest = b.tokens ++ f.rest := hb
        have hshorter : f.rest.length < c.rest.length := by
          have hpos : 0 < b.tokens.length := by
            have hlength := congrArg List.length hwhole.whole
            rw [List.length_map] at hlength
            rw [hlength]
            exact Nat.succ_pos _
          rw [hc, hbrest, List.length_append]
          omega
        have hrest : (f.rest.map Token.position).Nodup := by
          rw [hbrest, List.map_append] at hd
          exact (List.nodup_append.1 hd).2.1
        have hall : ∀ b' ∈ complete ++ [b], b'.Complete k :=
          List.forall_mem_append.2 ⟨hcomplete, List.forall_mem_singleton.2 hwhole⟩
        obtain ⟨x, hx, hlast, hxlines, hxtokens⟩ := ih _ hshorter huholds huclass hall
          (by rw [hblines, List.flatMap_append, List.flatMap_singleton]) hrest rfl
        refine ⟨x, hx, hlast, hxlines, ?_⟩
        rw [Pass.andThen_none, ← hxtokens]
        simp
      | some e =>
        refine ⟨⟨opening, complete, some b, []⟩,
          ⟨⟨vars, [], ?_, .inl rfl⟩, hcomplete, ?_, List.nil_prefix, fun h => absurd rfl h⟩,
          fun h => absurd h (Option.some_ne_none _), ?_, ?_⟩
        · rw [List.append_nil, hopening]
        · rintro _ ⟨⟩
          exact ⟨hstands, hsome e rfl⟩
        · rw [Pass.andThen_some, hblines]
          simp [Division.lines, Division.portions]
        · simp [Division.tokens, Division.portions]

/-- A pass over a class divides what it reads. -/
theorem Session.exists_division_of_class (outlined : Bool)
    (hd : (c.rest.map Token.position).Nodup) :
    let p := (Session.initial outlined).pass classGoals c
    ∃ (x : Division) (k : String), x.Stands k ∧ (p.error? = none → x.last? = none)
      ∧ p.session.listing.lines.toList = x.lines ∧ c.rest = x.tokens ++ p.cursor.rest := by
  intro p
  have hpass : p = ((Session.initial outlined).pass openingGoals c).andThen
      fun t d => t.pass (.subroutineDecs :: classEnd) d :=
    (Session.initial outlined).pass_append openingGoals (.subroutineDecs :: classEnd) c
  obtain ⟨hholds, hlines, us, k, vars, more, hus, hwords, hdone⟩ := Session.opens_class outlined c
  rw [hpass]
  generalize (Session.initial outlined).pass openingGoals c = q at *
  obtain ⟨t, d, - | e⟩ := q
  · obtain ⟨rfl, hclass⟩ := hdone rfl
    have hrest : (d.rest.map Token.position).Nodup := by
      rw [hus, List.map_append] at hd
      exact (List.nodup_append.1 hd).2.1
    rw [List.append_nil] at hwords
    have hnone : ∀ b ∈ ([] : List Portion), b.Complete k := List.forall_mem_nil _
    obtain ⟨x, hx, hlast, hxlines, hxtokens⟩ :=
      Session.exists_division hwords hholds hclass hnone hlines hrest
    refine ⟨x, k, hx, hlast, hxlines, ?_⟩
    rw [Pass.andThen_none, ← hxtokens, hus]
    simp
  · refine ⟨⟨us, [], none, []⟩, k, ?_, fun h => absurd h (Option.some_ne_none _), hlines, ?_⟩
    · refine ⟨⟨vars, more, hwords, .inr ⟨rfl, rfl⟩⟩, List.forall_mem_nil _, ?_, List.nil_prefix,
        fun h => absurd rfl h⟩
      exact fun _ h => absurd h (Option.not_mem_none _)
    · rw [Pass.andThen_some, hus]
      simp [Division.tokens, Division.portions]

end

end Jack
