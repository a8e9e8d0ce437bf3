import Jack.Script.Progress

/-!
The script of a text: the actions that recognising it asks for, in order, and the fault that ended
the recognition, if one did. Recognition keeps a stack of goals and meets the topmost one until
none is left; since what is left gets lighter with every goal, its weight bounds the number of
goals to be met. The bound does not show in the equations of `Script.ofGoals`.
-/

namespace Jack

/-- The actions asked for, the cursor at the end, and the fault there. -/
structure Script where
  actions : Array Action
  cursor : Cursor
  fault? : Option CompileError

/-- Meets goals, the topmost first, after the actions `done`. The number of goals met is bounded by
`bound`. -/
def recognise : (bound : Nat) → (goals : List Goal) → (c : Cursor) → (done : Array Action) →
    potential goals c ≤ bound → Script
  | _, [], c, done, _ => ⟨done, c, none⟩
  | 0, g :: goals, c, _, h => absurd h (Nat.not_le.2 (potential_cons_pos g goals c))
  | bound + 1, g :: goals, c, done, h =>
    match hg : g.meet c with
    | .error e => ⟨done, c, some e⟩
    | .ok s =>
      recognise bound (s.goals ++ goals) s.cursor (done ++ s.actions)
        (potential_append_le_of_meet hg h)

@[simp] theorem recognise_nil {bound : Nat} {c : Cursor} {done : Array Action}
    (h : potential [] c ≤ bound) : recognise bound [] c done h = ⟨done, c, none⟩ := by
  cases bound <;> rw [recognise]

theorem recognise_of_ok {bound : Nat} {g : Goal} {goals : List Goal} {c : Cursor} {s : Step}
    {done : Array Action} (hg : g.meet c = .ok s) (h : potential (g :: goals) c ≤ bound + 1)
    (h' : potential (s.goals ++ goals) s.cursor ≤ bound) :
    recognise (bound + 1) (g :: goals) c done h
      = recognise bound (s.goals ++ goals) s.cursor (done ++ s.actions) h' := by
  rw [recognise]
  split
  · rename_i e he
    rw [hg] at he
    cases he
  · rename_i t ht
    rw [hg] at ht
    cases ht
    rfl

theorem recognise_of_error {bound : Nat} {g : Goal} {goals : List Goal} {c : Cursor}
    {e : CompileError} {done : Array Action} (hg : g.meet c = .error e)
    (h : potential (g :: goals) c ≤ bound + 1) :
    recognise (bound + 1) (g :: goals) c done h = ⟨done, c, some e⟩ := by
  rw [recognise]
  split
  · rename_i f hf
    rw [hg] at hf
    cases hf
    rfl
  · rename_i t ht
    rw [hg] at ht
    cases ht

/-- Any bound that is large enough gives the same script. -/
theorem recognise_bound_irrel {m n : Nat} {goals : List Goal} {c : Cursor} {done : Array Action}
    (hm : potential goals c ≤ m) (hn : potential goals c ≤ n) :
    recognise m goals c done hm = recognise n goals c done hn := by
  induction m generalizing n goals c done with
  | zero =>
    cases goals with
    | nil => simp
    | cons g goals => exact absurd hm (Nat.not_le.2 (potential_cons_pos g goals c))
  | succ m ih =>
    cases goals with
    | nil => simp
    | cons g goals =>
      cases n with
      | zero => exact absurd hn (Nat.not_le.2 (potential_cons_pos g goals c))
      | succ n =>
        cases hg : g.meet c with
        | error e => rw [recognise_of_error hg, recognise_of_error hg]
        | ok s =>
          rw [recognise_of_ok hg hm (potential_append_le_of_meet hg hm),
            recognise_of_ok hg hn (potential_append_le_of_meet hg hn)]
          exact ih _ _

/-- The script of goals that are met from a cursor on, after the actions `done`. -/
def Script.ofGoals (goals : List Goal) (c : Cursor) (done : Array Action) : Script :=
  recognise (potential goals c) goals c done (Nat.le_refl _)

/-- The script of the tokens of a text that should be a class. -/
def Script.ofTokens (stream : TokenStream) : Script :=
  Script.ofGoals classGoals ⟨stream.tokens, stream.finish, 0⟩ #[]

namespace Script

@[simp] theorem ofGoals_nil (c : Cursor) (done : Array Action) :
    ofGoals [] c done = ⟨done, c, none⟩ := recognise_nil _

theorem ofGoals_eq_recognise {bound : Nat} {goals : List Goal} {c : Cursor}
    {done : Array Action} (h : potential goals c ≤ bound) :
    ofGoals goals c done = recognise bound goals c done h :=
  recognise_bound_irrel _ _

theorem ofGoals_cons_of_ok {g : Goal} {goals : List Goal} {c : Cursor} {s : Step}
    {done : Array Action} (hg : g.meet c = .ok s) :
    ofGoals (g :: goals) c done = ofGoals (s.goals ++ goals) s.cursor (done ++ s.actions) := by
  have h : potential (g :: goals) c ≤ potential (g :: goals) c + 1 := Nat.le_succ _
  rw [ofGoals_eq_recognise h, recognise_of_ok hg h (potential_append_le_of_meet hg h),
    ofGoals_eq_recognise]

theorem ofGoals_cons_of_error {g : Goal} {goals : List Goal} {c : Cursor} {e : CompileError}
    {done : Array Action} (hg : g.meet c = .error e) :
    ofGoals (g :: goals) c done = ⟨done, c, some e⟩ := by
  rw [ofGoals_eq_recognise (Nat.le_succ _), recognise_of_error hg]

/-- Goals are met one at a time, so what holds of goals may be shown along the meeting. -/
theorem induction_on_meet {motive : List Goal → Cursor → Prop}
    (nil : ∀ c, motive [] c)
    (error : ∀ g goals c e, g.meet c = .error e → motive (g :: goals) c)
    (ok : ∀ g goals c s, g.meet c = .ok s → motive (s.goals ++ goals) s.cursor →
      motive (g :: goals) c)
    (goals : List Goal) (c : Cursor) : motive goals c := by
  suffices h : ∀ n goals c, potential goals c ≤ n → motive goals c from
    h _ goals c (Nat.le_refl _)
  intro n
  induction n with
  | zero =>
    intro goals c hn
    cases goals with
    | nil => exact nil c
    | cons g goals => exact absurd hn (Nat.not_le.2 (potential_cons_pos g goals c))
  | succ n ih =>
    intro goals c hn
    cases goals with
    | nil => exact nil c
    | cons g goals =>
      cases hg : g.meet c with
      | error e => exact error g goals c e hg
      | ok s => exact ok g goals c s hg (ih _ _ (potential_append_le_of_meet hg hn))

/-- Actions asked for before stay in front. -/
theorem ofGoals_eq_append (goals : List Goal) (c : Cursor) (done : Array Action) :
    ofGoals goals c done
      = { ofGoals goals c #[] with actions := done ++ (ofGoals goals c #[]).actions } := by
  induction goals, c using induction_on_meet generalizing done with
  | nil c => simp
  | error g goals c e hg => simp [ofGoals_cons_of_error hg]
  | ok g goals c s hg ih =>
    rw [ofGoals_cons_of_ok hg, ofGoals_cons_of_ok hg, ih, ih (#[] ++ s.actions)]
    simp only [Script.mk.injEq, and_self, and_true]
    apply Array.toList_inj.1
    simp

/-- Goals below others on the stack are met once those have been met without a fault. -/
theorem ofGoals_append (goals more : List Goal) (c : Cursor) (done : Array Action) :
    ofGoals (goals ++ more) c done
      = match (ofGoals goals c done).fault? with
        | some _ => ofGoals goals c done
        | none => ofGoals more (ofGoals goals c done).cursor (ofGoals goals c done).actions := by
  induction goals, c using induction_on_meet generalizing done with
  | nil c => simp
  | error g goals c e hg => simp [ofGoals_cons_of_error hg]
  | ok g goals c s hg ih =>
    rw [List.cons_append, ofGoals_cons_of_ok hg, ofGoals_cons_of_ok hg, ← List.append_assoc, ih]

end Script

end Jack
