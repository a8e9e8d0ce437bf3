import Mathlib.Logic.Relation
import Jack.Proofs.Passes

/-! A compilation moment by moment. A moment is a session, the goals that are left and the cursor in
front of the topmost one, and the next moment is there once that goal is met and its actions are
performed. A moment without a next one is the last, and the pass ends as it stands there. -/

namespace Jack

structure Moment where
  session : Session
  goals : List Goal
  cursor : Cursor

/-- The moment before a class is compiled. -/
def TokenStream.start (stream : TokenStream) (outlined : Bool) : Moment :=
  ⟨.initial outlined, classGoals, ⟨stream.tokens, stream.finish, 0⟩⟩

namespace Moment

/-- Meets the topmost goal and performs what it asks for. There is no next moment when no goal is
left, when the goal cannot be met, or when an action cannot be performed. -/
def next? (m : Moment) : Option Moment :=
  match m.goals with
  | [] => none
  | g :: goals =>
    match g.meet m.cursor with
    | .error _ => none
    | .ok step =>
      match m.session.performAll step.actions with
      | (t, none) => some ⟨t, step.goals ++ goals, step.cursor⟩
      | (_, some _) => none

def Next (m n : Moment) : Prop := m.next? = some n

/-- The second moment is the first one or follows it. -/
def Reaches : Moment → Moment → Prop := Relation.ReflTransGen Next

/-- The second moment follows the first one. -/
def Precedes : Moment → Moment → Prop := Relation.TransGen Next

/-- What the pass from a moment on comes to. -/
def outcome (m : Moment) : Pass := m.session.pass m.goals m.cursor

variable {m n k : Moment}

theorem next_iff : m.Next n ↔ ∃ g goals step t, m.goals = g :: goals
    ∧ g.meet m.cursor = .ok step ∧ m.session.performAll step.actions = (t, none)
    ∧ n = ⟨t, step.goals ++ goals, step.cursor⟩ := by
  unfold Next next?
  constructor
  · intro h
    split at h
    · cases h
    · rename_i g more hgoals
      split at h
      · cases h
      · rename_i step hg
        split at h
        · rename_i t ht
          exact ⟨g, more, step, t, hgoals, hg, ht, (Option.some.inj h).symm⟩
        · cases h
  · rintro ⟨g, more, step, t, hgoals, hg, ht, rfl⟩
    rw [hgoals]
    simp only [hg, ht]

theorem outcome_of_next (h : m.Next n) : n.outcome = m.outcome := by
  obtain ⟨g, goals, step, t, hgoals, hg, ht, rfl⟩ := next_iff.1 h
  rw [outcome, outcome, hgoals, Session.pass_of_ok hg, ht]

theorem potential_lt_of_next (h : m.Next n) :
    potential n.goals n.cursor < potential m.goals m.cursor := by
  obtain ⟨g, goals, step, t, hgoals, hg, -, rfl⟩ := next_iff.1 h
  have hlt := potential_lt_of_meet hg
  rw [hgoals]
  simp only [potential, weightOf_append, weightOf_cons, weightOf_nil] at hlt ⊢
  omega

/-- Why a moment is the last one. -/
theorem last_cases (h : m.next? = none) :
    (m.goals = [] ∧ m.outcome = ⟨m.session, m.cursor, none⟩)
      ∨ (∃ g goals e, m.goals = g :: goals ∧ g.meet m.cursor = .error e
        ∧ m.outcome = ⟨m.session, m.cursor, some e⟩)
      ∨ ∃ g goals step t e, m.goals = g :: goals ∧ g.meet m.cursor = .ok step
        ∧ m.session.performAll step.actions = (t, some e)
        ∧ m.outcome = ⟨t, m.cursor.to (m.cursor.rest.drop (m.session.consumed step.actions)),
          some e⟩ := by
  obtain ⟨s, goals, c⟩ := m
  cases goals with
  | nil => exact .inl ⟨rfl, s.pass_nil c⟩
  | cons g goals =>
    cases hg : g.meet c with
    | error e => exact .inr (.inl ⟨g, goals, e, rfl, hg, Session.pass_of_error hg s goals⟩)
    | ok step =>
      cases hp : s.performAll step.actions with
      | mk t error? =>
        cases error? with
        | none => simp only [next?, hg, hp, reduceCtorEq] at h
        | some e =>
          refine .inr (.inr ⟨g, goals, step, t, e, rfl, hg, hp, ?_⟩)
          rw [outcome, Session.pass_of_ok hg, hp]

/-! ### Runs of moments -/

theorem Reaches.refl (m : Moment) : m.Reaches m := Relation.ReflTransGen.refl

theorem Reaches.head (h : m.Next n) (hnk : n.Reaches k) : m.Reaches k :=
  Relation.ReflTransGen.head h hnk

theorem Precedes.reaches (h : m.Precedes n) : m.Reaches n := Relation.TransGen.to_reflTransGen h

/-- What every step keeps holds from then on. -/
theorem Reaches.invariant {P : Moment → Prop} (hstep : ∀ {m n}, P m → m.Next n → P n)
    (h : m.Reaches n) (hm : P m) : P n := by
  induction h with
  | refl => exact hm
  | tail _ hnext ih => exact hstep ih hnext

theorem Reaches.outcome_eq (h : m.Reaches n) : n.outcome = m.outcome :=
  h.invariant (P := fun n => n.outcome = m.outcome)
    (fun hn hnext => (outcome_of_next hnext).trans hn) rfl

theorem Precedes.potential_lt (h : m.Precedes n) :
    potential n.goals n.cursor < potential m.goals m.cursor := by
  induction h with
  | single hnext => exact potential_lt_of_next hnext
  | tail _ hnext ih => exact (potential_lt_of_next hnext).trans ih

/-- Every moment leads to a last one. -/
theorem exists_last (m : Moment) : ∃ last, m.Reaches last ∧ last.next? = none := by
  obtain ⟨s, goals, c⟩ := m
  induction goals, c using Script.induction_on_meet generalizing s with
  | nil c => exact ⟨⟨s, [], c⟩, .refl _, rfl⟩
  | error g goals c e hg => exact ⟨⟨s, g :: goals, c⟩, .refl _, by simp only [next?, hg]⟩
  | ok g goals c step hg ih =>
    cases hp : s.performAll step.actions with
    | mk t error? =>
      cases error? with
      | none =>
        obtain ⟨last, hreaches, hlast⟩ := ih t
        exact ⟨last, .head (next_iff.2 ⟨g, goals, step, t, rfl, hg, hp, rfl⟩) hreaches, hlast⟩
      | some e => exact ⟨⟨s, g :: goals, c⟩, .refl _, by simp only [next?, hg, hp]⟩

/-- The moment that stands so many steps later. -/
def later? (m : Moment) : Nat → Option Moment
  | 0 => some m
  | j + 1 => m.next?.bind fun n => n.later? j

theorem reaches_of_later? {j : Nat} (h : m.later? j = some n) : m.Reaches n := by
  induction j generalizing m with
  | zero =>
    obtain rfl := Option.some.inj h
    exact .refl m
  | succ j ih =>
    obtain ⟨k, hk, hkn⟩ := Option.bind_eq_some_iff.1 h
    exact .head hk (ih hkn)

end Moment

end Jack
