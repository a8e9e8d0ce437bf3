import Jack.Proofs.SyntaxErrors

/-! A compilation step by step. The actions of a script are performed after it, but what becomes of
them is what would if each goal were met and its actions performed at once. -/

namespace Jack

/-! ### Goals met one at a time -/

theorem Session.consumed_append (s : Session) (actions more : List Action) :
    s.consumed (actions ++ more)
      = match s.performAll actions with
        | (t, none) => readBy actions + t.consumed more
        | (_, some _) => s.consumed actions := by
  induction actions generalizing s with
  | nil => simp
  | cons a actions ih =>
    rw [List.cons_append, consumed, performAll_cons, consumed, readBy_cons]
    rcases s.perform a with ⟨t, - | e⟩
    · simp only [ih]
      rcases t.performAll actions with ⟨u, - | e⟩
      · exact (Nat.add_assoc _ _ _).symm
      · rfl
    · rfl

/-- To meet a goal reads one token at most. -/
theorem Goal.reads_of_meet_le {g : Goal} {c : Cursor} {s : Step} (hg : g.quiet = true)
    (h : g.meet c = .ok s) : readBy s.actions ≤ 1 := by
  obtain ⟨rest, f, k⟩ := c
  cases rest with
  | nil =>
    rw [(Goal.meet_end hg h).1]
    exact Nat.zero_le 1
  | cons t rest =>
    have halike : StepsAlike t rest rest f f k (g.meet ⟨t :: rest, f, k⟩)
        (g.meet ⟨t :: rest, f, k⟩) := Goal.meet_alike hg fun _ _ _ => rfl
    rw [h] at halike
    cases halike with
    | stay hr _ => exact Nat.le_trans (Nat.le_of_eq hr) (Nat.zero_le 1)
    | read hr _ _ _ _ _ => exact Nat.le_of_eq hr

/-- What holds of the words read, the goals left and the session may be shown along the meeting of
the goals, as if each step were performed at once. -/
theorem Session.induction_on_script (Inv : List Lexeme → List Goal → Session → Prop)
    (Q : List Lexeme → Session → Prop)
    (quiet : ∀ {ws goals s}, Inv ws goals s → goals.all Goal.quiet = true)
    (done : ∀ {ws s}, Inv ws [] s → Q ws s)
    (stuck : ∀ {ws g goals s c e}, Inv ws (g :: goals) s → g.meet c = .error e → Q ws s)
    (failed : ∀ {ws ks us g goals s c step t e}, Inv ws (g :: goals) s → g.meet c = .ok step →
      c.lexemes = ks ++ step.cursor.lexemes → s.performAll step.actions = (t, some e) →
      us = [] ∨ us = ks → Q (ws ++ us) t)
    (next : ∀ {ws ks g goals s c step t}, Inv ws (g :: goals) s → g.meet c = .ok step →
      c.lexemes = ks ++ step.cursor.lexemes → s.performAll step.actions = (t, none) →
      Inv (ws ++ ks) (step.goals ++ goals) t)
    {ws : List Lexeme} {goals : List Goal} {s : Session} {c : Cursor} (h : Inv ws goals s) :
    Q (ws ++ c.lexemes.take (s.consumed (Script.ofGoals goals c #[]).actions.toList))
      (s.performAll (Script.ofGoals goals c #[]).actions.toList).1 := by
  induction goals, c using Script.induction_on_meet generalizing ws s with
  | nil c =>
    simp only [Script.ofGoals_nil, Session.consumed, Session.performAll_nil, List.take_zero,
      List.append_nil]
    exact done h
  | error g goals c e hg =>
    rw [Script.ofGoals_cons_of_error hg]
    simp only [Session.consumed, Session.performAll_nil, List.take_zero, List.append_nil]
    exact stuck h hg
  | ok g goals c step hg ih =>
    have hquiet : g.quiet = true := (Bool.and_eq_true_iff.1 (quiet h)).1
    obtain ⟨⟨front, hfront, hlength⟩, -, -⟩ := Goal.rest_of_meet hquiet hg
    obtain ⟨actions, news, d⟩ := step
    have hread : readBy actions ≤ 1 := Goal.reads_of_meet_le hquiet hg
    have hlexemes : c.lexemes = front.map Token.lexeme ++ d.lexemes := by
      rw [Cursor.lexemes, hfront, List.map_append, Cursor.lexemes]
    have hlen : (front.map Token.lexeme).length = readBy actions := by
      rw [List.length_map, hlength]
    rw [(Script.ofGoals_of_meet hg goals).1, Session.performAll_append, Session.consumed_append]
    cases hp : s.performAll actions with
    | mk t error? =>
      cases error? with
      | none =>
        have hih := ih (next h hg hlexemes hp)
        rw [List.append_assoc] at hih
        simpa only [hlexemes, ← hlen, List.take_length_add_append] using hih
      | some e =>
        refine failed h hg hlexemes hp ?_
        rcases Nat.eq_zero_or_pos (s.consumed actions) with hzero | hpos
        · exact Or.inl (by simp [hzero])
        · have hle := s.consumed_le actions
          have hall : s.consumed actions = (front.map Token.lexeme).length := by omega
          exact Or.inr (by rw [hlexemes]; simp only [hall, List.take_left])

/-! ### What goals promise -/

/-- Whatever words meet the goals, they go on from the words `ws` as wanted. -/
def Promises (goals : List Goal) (ws : List Lexeme) (P : List Lexeme → Prop) : Prop :=
  ∀ ls, Reads False [] goals ls → P (ws ++ ls)

namespace Promises

variable {g : Goal} {goals : List Goal} {ws : List Lexeme} {P : List Lexeme → Prop}

theorem of_nil (h : Promises [] ws P) : P ws := by
  have hp := h [] rfl
  rwa [List.append_nil] at hp

theorem of_nil_goals (h : P ws) : Promises [] ws P := by
  rintro _ rfl
  rwa [List.append_nil]

/-- A promise can be kept. -/
theorem exists_append (h : Promises goals ws P) : ∃ ls, P (ws ++ ls) := by
  obtain ⟨ls, hls, -⟩ := exists_reads goals
  exact ⟨ls, h ls hls⟩

/-- To meet a goal keeps the promise. -/
theorem meet (h : Promises (g :: goals) ws P) {c : Cursor} {s : Step} (hg : g.meet c = .ok s)
    {ks : List Lexeme} (hks : c.lexemes = ks ++ s.cursor.lexemes) :
    Promises (s.goals ++ goals) (ws ++ ks) P := by
  obtain ⟨js, hjs, hreads⟩ : s.Reads False c g := Goal.reads_of_meet hg
  obtain rfl : js = ks := List.append_cancel_right (hjs.symm.trans hks)
  intro ls hls
  obtain ⟨ms, ns, hm, hn, rfl⟩ := reads_append.1 hls
  have hp := h (js ++ ms ++ ns) ⟨js ++ ms, ns, hreads ms _ hm False.elim, hn, rfl⟩
  rwa [List.append_assoc, ← List.append_assoc] at hp

end Promises

end Jack
