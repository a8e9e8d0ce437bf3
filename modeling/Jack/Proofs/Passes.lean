import Mathlib.Data.List.Infix
import Jack.Proofs.Lookahead

/-! Recognition and performance in one pass: the actions of a step are performed before the next
goal is met. A pass says how far a compilation has got, in the text and in what it has built, and
what follows a part of the text goes on from there. -/

namespace Jack

/-- Where a pass has got: what it has built, what is left of the text, and the error that ended
it. -/
structure Pass where
  session : Session
  cursor : Cursor
  error? : Option CompileError

/-- Goes on, unless an error has ended the pass. -/
def Pass.andThen (p : Pass) (next : Session → Cursor → Pass) : Pass :=
  match p.error? with
  | none => next p.session p.cursor
  | some _ => p

@[simp] theorem Pass.andThen_none (s : Session) (c : Cursor) (next : Session → Cursor → Pass) :
    (Pass.mk s c none).andThen next = next s c := rfl

@[simp] theorem Pass.andThen_some (s : Session) (c : Cursor) (e : CompileError)
    (next : Session → Cursor → Pass) :
    (Pass.mk s c (some e)).andThen next = ⟨s, c, some e⟩ := rfl

theorem Pass.andThen_assoc (p : Pass) (next more : Session → Cursor → Pass) :
    (p.andThen next).andThen more = p.andThen fun s c => (next s c).andThen more := by
  obtain ⟨s, c, - | e⟩ := p
  · rfl
  · rfl

namespace Session

/-- Meets goals one at a time, and performs the actions of a step before it meets the next one.
When an action fails, the tokens up to its own have been read. -/
def pass (s : Session) (goals : List Goal) (c : Cursor) : Pass :=
  match goals with
  | [] => ⟨s, c, none⟩
  | g :: goals =>
    match _hg : g.meet c with
    | .error e => ⟨s, c, some e⟩
    | .ok step =>
      match s.performAll step.actions with
      | (t, none) => t.pass (step.goals ++ goals) step.cursor
      | (t, some e) => ⟨t, c.to (c.rest.drop (s.consumed step.actions)), some e⟩
termination_by potential goals c
decreasing_by
  have hpos := potential_cons_pos g goals c
  have hle : potential (step.goals ++ goals) step.cursor ≤ potential (g :: goals) c - 1 :=
    potential_append_le_of_meet _hg (by omega)
  omega

@[simp] theorem pass_nil (s : Session) (c : Cursor) : s.pass [] c = ⟨s, c, none⟩ := by
  rw [pass]

theorem pass_of_error {g : Goal} {c : Cursor} {e : CompileError} (hg : g.meet c = .error e)
    (s : Session) (goals : List Goal) : s.pass (g :: goals) c = ⟨s, c, some e⟩ := by
  rw [pass]
  split
  · rename_i f hf
    rw [hg] at hf
    cases hf
    rfl
  · rename_i step hstep
    rw [hg] at hstep
    cases hstep

theorem pass_of_ok {g : Goal} {c : Cursor} {step : Step} (hg : g.meet c = .ok step)
    (s : Session) (goals : List Goal) :
    s.pass (g :: goals) c
      = match s.performAll step.actions with
        | (t, none) => t.pass (step.goals ++ goals) step.cursor
        | (t, some e) => ⟨t, c.to (c.rest.drop (s.consumed step.actions)), some e⟩ := by
  rw [pass]
  split
  · rename_i e he
    rw [hg] at he
    cases he
  · rename_i step' hstep
    rw [hg] at hstep
    cases hstep
    rfl

/-- Goals below others are met where those have left the text and the session. -/
theorem pass_append (s : Session) (goals more : List Goal) (c : Cursor) :
    s.pass (goals ++ more) c = (s.pass goals c).andThen fun t d => t.pass more d := by
  induction goals, c using Script.induction_on_meet generalizing s with
  | nil c => rw [List.nil_append, pass_nil, Pass.andThen_none]
  | error g goals c e hg =>
    rw [List.cons_append, pass_of_error hg, pass_of_error hg, Pass.andThen_some]
  | ok g goals c step hg ih =>
    rw [List.cons_append, pass_of_ok hg, pass_of_ok hg, ← List.append_assoc]
    rcases s.performAll step.actions with ⟨t, - | e⟩
    · exact ih t
    · rfl

/-- A pass builds what performing the whole script afterwards builds, and ends in the same
error. -/
theorem pass_eq_performAll (s : Session) (goals : List Goal) (c : Cursor) :
    (s.pass goals c).session = (s.performAll (Script.ofGoals goals c #[]).actions.toList).1
      ∧ (s.pass goals c).error?
        = (s.performAll (Script.ofGoals goals c #[]).actions.toList).2.or
          (Script.ofGoals goals c #[]).fault? := by
  induction goals, c using Script.induction_on_meet generalizing s with
  | nil c =>
    rw [pass_nil, Script.ofGoals_nil]
    exact ⟨rfl, rfl⟩
  | error g goals c e hg =>
    rw [pass_of_error hg, Script.ofGoals_cons_of_error hg]
    exact ⟨rfl, rfl⟩
  | ok g goals c step hg ih =>
    obtain ⟨actions, news, d⟩ := step
    obtain ⟨hactions, -, hfault⟩ := Script.ofGoals_of_meet hg goals
    rw [pass_of_ok hg, hactions, hfault, performAll_append]
    rcases s.performAll actions with ⟨t, - | e⟩
    · exact ih t
    · exact ⟨rfl, rfl⟩

/-- A pass never goes back in the text. -/
theorem rest_pass (s : Session) {goals : List Goal} {c : Cursor}
    (hq : goals.all Goal.quiet = true) : (s.pass goals c).cursor.rest <:+ c.rest := by
  induction goals, c using Script.induction_on_meet generalizing s with
  | nil c => rw [pass_nil]
  | error g goals c e hg => rw [pass_of_error hg]
  | ok g goals c step hg ih =>
    obtain ⟨hg', hgoals⟩ := Bool.and_eq_true_iff.1 hq
    obtain ⟨⟨front, hfront, -⟩, -, hnew⟩ := Goal.rest_of_meet hg' hg
    rw [pass_of_ok hg]
    rcases s.performAll step.actions with ⟨t, - | e⟩
    · exact (ih t (quiet_append hnew hgoals)).trans ⟨front, hfront.symm⟩
    · exact List.drop_suffix _ _

end Session

/-- To compile a text is to pass over its tokens once. -/
theorem TokenStream.compile_eq_pass (stream : TokenStream) (outlined : Bool) :
    stream.compile outlined
      = ⟨((Session.initial outlined).pass classGoals ⟨stream.tokens, stream.finish, 0⟩).session,
        ((Session.initial outlined).pass classGoals ⟨stream.tokens, stream.finish, 0⟩).error?⟩ := by
  obtain ⟨hsession, herror⟩ := (Session.initial outlined).pass_eq_performAll classGoals
    ⟨stream.tokens, stream.finish, 0⟩
  rw [hsession, herror, compile, Script.compile, Script.ofTokens]
  rcases (Session.initial outlined).performAll _ with ⟨s, - | e⟩
  · rfl
  · rfl

end Jack
