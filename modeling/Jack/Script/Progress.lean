import Jack.Script.Goal

/-!
Recognition comes to an end. Every goal has a weight, a token outweighs whatever goals it brings,
and meeting a goal makes the tokens and goals that are left lighter.
-/

namespace Jack

/-- How many goals can follow from a goal before a token is read, itself included. -/
def Goal.weight : Goal → Nat
  | .counted _ _ _ _ => 9
  | .body _ _ => 8
  | .letValue _ => 12
  | .parameters => 2
  | .returned => 8
  | .term => 3
  | .callee _ _ => 17
  | .arguments _ _ => 13
  | .moreArguments _ _ _ _ => 4
  | _ => 1

def weightOf (goals : List Goal) : Nat := goals.foldr (fun g n => g.weight + n) 0

/-- What is left to do: a token weighs more than the goals that it can bring. -/
def potential (goals : List Goal) (c : Cursor) : Nat := 32 * c.rest.length + weightOf goals

@[simp] theorem weightOf_nil : weightOf [] = 0 := rfl

@[simp] theorem weightOf_cons (g : Goal) (goals : List Goal) :
    weightOf (g :: goals) = g.weight + weightOf goals := rfl

@[simp] theorem weightOf_append (goals more : List Goal) :
    weightOf (goals ++ more) = weightOf goals + weightOf more := by
  induction goals with
  | nil => simp
  | cons g goals ih =>
    rw [List.cons_append, weightOf_cons, weightOf_cons, ih]
    omega

theorem Goal.weight_pos (g : Goal) : 0 < g.weight := by
  cases g <;> simp [Goal.weight]

theorem potential_cons_pos (g : Goal) (goals : List Goal) (c : Cursor) :
    0 < potential (g :: goals) c := by
  have := g.weight_pos
  simp only [potential, weightOf_cons]
  omega

theorem Cursor.length_of_read? {c d : Cursor} {l : Lexeme} {t : Token}
    (h : c.read? l = some (t, d)) : d.rest.length + 1 = c.rest.length := by
  unfold Cursor.read? at h
  split at h
  · rename_i u rest hc
    split at h
    · cases h
      simp [Cursor.to, hc]
    · cases h
  · cases h

theorem Cursor.length_of_mark? {c d : Cursor} {s : Punctuation} {t : Token}
    (h : c.mark? s = some (t, d)) : d.rest.length + 1 = c.rest.length :=
  Cursor.length_of_read? h

theorem Cursor.length_of_keyword? {c d : Cursor} {k : Keyword} {t : Token}
    (h : c.keyword? = some (k, t, d)) : d.rest.length + 1 = c.rest.length := by
  unfold Cursor.keyword? at h
  split at h
  · rename_i hc
    cases h
    simp [Cursor.to, hc]
  · cases h

theorem Cursor.length_of_name? {c d : Cursor} {o : Occurrence}
    (h : c.name? = some (o, d)) : d.rest.length + 1 = c.rest.length := by
  unfold Cursor.name? at h
  split at h
  · rename_i hc
    cases h
    simp [Cursor.to, hc]
  · cases h

theorem Cursor.length_of_type {c d : Cursor} {p : Production} {type : String} {t : Token}
    (h : c.type p = .ok (type, t, d)) : d.rest.length + 1 = c.rest.length := by
  unfold Cursor.type at h
  split at h
  · rename_i hc
    cases h
    simp [Cursor.to, hc]
  · rename_i hc
    split at h
    · cases h
      simp [Cursor.to, hc]
    · cases h
  · cases h

@[simp] theorem weightOf_expressionGoals : weightOf expressionGoals = 7 := rfl

@[simp] theorem weightOf_statementsGoals : weightOf statementsGoals = 3 := rfl

@[simp] theorem weightOf_blockGoals (p : Production) : weightOf (blockGoals p) = 5 := rfl

@[simp] theorem weightOf_conditionGoals (p : Production) (label : String) :
    weightOf (conditionGoals p label) = 10 := rfl

@[simp] theorem weightOf_argumentsGoals (p : Production) (callee : Callee) :
    weightOf (argumentsGoals p callee) = 15 := rfl

@[simp] theorem weightOf_callGoals (p : Production) (callee : Callee) (count : UInt16) :
    weightOf (callGoals p callee count) = 3 := rfl

theorem weightOf_endGoals_le (d : Declaration) (count : UInt16) :
    weightOf (d.endGoals count) ≤ 10 := by
  cases d <;> simp [Declaration.endGoals, Goal.weight]

theorem potential_meetClassVarDecs_lt (c : Cursor) :
    potential (meetClassVarDecs c).goals (meetClassVarDecs c).cursor
      < potential [.classVarDecs] c := by
  unfold meetClassVarDecs
  split
  · rename_i h
    have := Cursor.length_of_keyword? h
    split <;> simp [potential, Goal.weight]
    omega
  · simp [potential, Goal.weight]

theorem potential_meetSubroutineDecs_lt (c : Cursor) :
    potential (meetSubroutineDecs c).goals (meetSubroutineDecs c).cursor
      < potential [.subroutineDecs] c := by
  unfold meetSubroutineDecs
  split
  · rename_i h
    have := Cursor.length_of_keyword? h
    split <;> simp [potential, Goal.weight]
    omega
  · simp [potential, Goal.weight]

theorem potential_meetAfterName_lt {c : Cursor} {d : Declaration} {type : String}
    {count : UInt16} {position : Position} {s : Step}
    (h : meetAfterName c d type count position = .ok s) :
    potential s.goals s.cursor < potential [.afterName d type count position] c := by
  unfold meetAfterName at h
  split at h
  · cases h
  · rename_i n _
    have hend := weightOf_endGoals_le d n
    split at h
    · rename_i hc
      have := Cursor.length_of_mark? hc
      split at h <;> cases h <;> simp [potential, Goal.weight] <;> omega
    · split at h
      · rename_i hd
        cases h
        subst hd
        simp [potential, Goal.weight, Declaration.endGoals]
      · split at h
        · rename_i hc
          have := Cursor.length_of_mark? hc
          cases h
          simp [potential, Goal.weight]
          omega
        · cases h

theorem potential_meetSubroutineName_lt {c : Cursor} {role : Role} {s : Step}
    (h : meetSubroutineName c role = .ok s) :
    potential s.goals s.cursor < potential [.subroutineName role] c := by
  unfold meetSubroutineName at h
  split at h
  · rename_i hc
    have := Cursor.length_of_name? hc
    cases h
    simp [potential, Goal.weight]
    omega
  · cases h

theorem potential_meetBody_lt (c : Cursor) (role : Role) (locals : UInt16) :
    potential (meetBody c role locals).goals (meetBody c role locals).cursor
      < potential [.body role locals] c := by
  unfold meetBody
  split
  · rename_i h
    have := Cursor.length_of_read? h
    simp [potential, Goal.weight]
    omega
  · simp [potential, Goal.weight]

theorem potential_meetStatements_lt (c : Cursor) :
    potential (meetStatements c).goals (meetStatements c).cursor
      < potential [.statements] c := by
  unfold meetStatements
  split <;> try
    rename_i h
    have := Cursor.length_of_keyword? h
    simp [potential, Goal.weight]
    omega
  simp [potential, Goal.weight]

theorem potential_meetLetValue_lt (c : Cursor) (target : Occurrence) :
    potential (meetLetValue c target).goals (meetLetValue c target).cursor
      < potential [.letValue target] c := by
  unfold meetLetValue
  split
  · rename_i h
    have := Cursor.length_of_mark? h
    simp [potential, Goal.weight]
    omega
  · simp [potential, Goal.weight]

theorem potential_meetName_lt {c d : Cursor} (o : Occurrence)
    (h : d.rest.length + 1 = c.rest.length) :
    potential (meetName c o d).goals (meetName c o d).cursor < potential [.term] c := by
  unfold meetName
  split
  · simp [potential, Goal.weight]
    omega
  · split
    · simp [potential, Goal.weight]
    · simp [potential, Goal.weight]
      omega

theorem potential_meetTerm_lt {c : Cursor} {s : Step} (h : meetTerm c = .ok s) :
    potential s.goals s.cursor < potential [.term] c := by
  unfold meetTerm at h
  split at h
  · cases h
  · rename_i t rest hc
    have hlen : (c.to rest).rest.length + 1 = c.rest.length := by simp [Cursor.to, hc]
    split at h
    · cases h
      simp [potential, Goal.weight]
      omega
    · cases h
      simp [potential, Goal.weight]
      omega
    · cases h
      exact potential_meetName_lt _ hlen
    · split at h
      · cases h
        simp [potential, Goal.weight]
        omega
      · cases h
    · split at h
      · cases h
        simp [potential, Goal.weight]
        omega
      · split at h
        · cases h
          simp [potential, Goal.weight]
          omega
        · cases h

theorem potential_meetOperands_lt (c : Cursor) (waiting : List (BinaryOp × Position)) :
    potential (meetOperands c waiting).goals (meetOperands c waiting).cursor
      < potential [.operands waiting] c := by
  unfold meetOperands
  split
  · rename_i hc
    split
    · simp [potential, Goal.weight, Cursor.to, hc]
      omega
    · simp [potential, Goal.weight]
  · simp [potential, Goal.weight]

theorem potential_meetCallee_lt (c : Cursor) (p : Production) (first : Occurrence) :
    potential (meetCallee c p first).goals (meetCallee c p first).cursor
      < potential [.callee p first] c := by
  unfold meetCallee
  split
  · rename_i h
    have := Cursor.length_of_mark? h
    simp [potential, Goal.weight]
    omega
  · simp [potential, Goal.weight]

theorem potential_meetMoreArguments_lt {c : Cursor} {p : Production} {callee : Callee}
    {count : UInt16} {position : Position} {s : Step}
    (h : meetMoreArguments c p callee count position = .ok s) :
    potential s.goals s.cursor < potential [.moreArguments p callee count position] c := by
  unfold meetMoreArguments at h
  split at h
  · cases h
  · split at h
    · rename_i hc
      have := Cursor.length_of_mark? hc
      cases h
      simp [potential, Goal.weight]
      omega
    · cases h
      simp [potential, Goal.weight]

/-- Meeting a goal makes what is left lighter. -/
theorem potential_lt_of_meet {c : Cursor} {g : Goal} {s : Step} (h : g.meet c = .ok s) :
    potential s.goals s.cursor < potential [g] c := by
  cases g with
  | due a => cases h; simp [potential, Goal.weight]
  | mark p m =>
    simp only [Goal.meet] at h
    split at h
    · rename_i hc
      have := Cursor.length_of_mark? hc
      cases h; simp [potential, Goal.weight]; omega
    · cases h
  | classWord =>
    simp only [Goal.meet] at h
    split at h
    · rename_i hc
      have := Cursor.length_of_read? hc
      cases h; simp [potential, Goal.weight]; omega
    · cases h
  | className =>
    simp only [Goal.meet] at h
    split at h
    · rename_i hc
      have := Cursor.length_of_name? hc
      cases h; simp [potential, Goal.weight]; omega
    · cases h
  | classVarDecs => cases h; exact potential_meetClassVarDecs_lt c
  | subroutineDecs => cases h; exact potential_meetSubroutineDecs_lt c
  | endOfFile =>
    simp only [Goal.meet] at h
    split at h
    · cases h; simp [potential, Goal.weight]
    · cases h
  | typed d count =>
    simp only [Goal.meet] at h
    split at h
    · rename_i hc
      have := Cursor.length_of_type hc
      cases h; simp [potential, Goal.weight]; omega
    · cases h
  | named d type count =>
    simp only [Goal.meet] at h
    split at h
    · rename_i hc
      have := Cursor.length_of_name? hc
      cases h; simp [potential, Goal.weight]; omega
    · cases h
  | afterName d type count position => exact potential_meetAfterName_lt h
  | resultType =>
    simp only [Goal.meet] at h
    split at h
    · rename_i hc
      have := Cursor.length_of_read? hc
      cases h; simp [potential, Goal.weight]; omega
    · split at h
      · rename_i hc
        have := Cursor.length_of_type hc
        cases h; simp [potential, Goal.weight]; omega
      · cases h
  | subroutineName role => exact potential_meetSubroutineName_lt h
  | parameters =>
    simp only [Goal.meet] at h
    split at h <;> cases h <;> simp [potential, Goal.weight]
  | counted role before count start =>
    simp only [Goal.meet] at h
    split at h <;> cases h
    simp [potential, Goal.weight]
  | body role locals => cases h; exact potential_meetBody_lt c role locals
  | statements => cases h; exact potential_meetStatements_lt c
  | letTarget =>
    simp only [Goal.meet] at h
    split at h
    · rename_i hc
      have := Cursor.length_of_name? hc
      cases h; simp [potential, Goal.weight]; omega
    · cases h
  | letValue target => cases h; exact potential_meetLetValue_lt c target
  | otherwise =>
    simp only [Goal.meet] at h
    split at h
    · rename_i hc
      have := Cursor.length_of_read? hc
      cases h; simp [potential, Goal.weight]; omega
    · cases h; simp [potential, Goal.weight]
  | returned =>
    simp only [Goal.meet] at h
    split at h <;> cases h <;> simp [potential, Goal.weight]
  | term => exact potential_meetTerm_lt h
  | operands waiting => cases h; exact potential_meetOperands_lt c waiting
  | call p =>
    simp only [Goal.meet] at h
    split at h
    · rename_i hc
      have := Cursor.length_of_name? hc
      cases h; simp [potential, Goal.weight]; omega
    · cases h
  | callee p first => cases h; exact potential_meetCallee_lt c p first
  | member p owner =>
    simp only [Goal.meet] at h
    split at h
    · rename_i hc
      have := Cursor.length_of_name? hc
      cases h; simp [potential, Goal.weight]; omega
    · cases h
  | arguments p callee =>
    simp only [Goal.meet] at h
    split at h <;> cases h <;> simp [potential, Goal.weight]
  | moreArguments p callee count position => exact potential_meetMoreArguments_lt h

/-- What is left after meeting the topmost goal fits a bound one smaller. -/
theorem potential_append_le_of_meet {g : Goal} {goals : List Goal} {c : Cursor} {s : Step}
    {bound : Nat} (hg : g.meet c = .ok s) (h : potential (g :: goals) c ≤ bound + 1) :
    potential (s.goals ++ goals) s.cursor ≤ bound := by
  have := potential_lt_of_meet hg
  simp only [potential, weightOf_append, weightOf_cons, weightOf_nil] at this h ⊢
  omega

end Jack
