import Jack.Proofs.Passes

/-! Chains of operators. While a chain is read its operators wait, and are applied when no other one
follows. That is the recursion of the grammar, `expression ::= term (op expression)?`: the operator
is applied once the whole expression behind it is there. -/

namespace Jack

/-- A term in an element of its own. -/
def termGoals : List Goal := [.due (.enter .term), .term]

/-- A term, and the operators and operands behind it. -/
def chainGoals : List Goal := termGoals ++ [.operands []]

example : expressionGoals
    = .due (.enter .expression) :: chainGoals ++ [.due (.leave .expression)] := rfl

/-- Reads an operator that takes two operands. -/
def Cursor.operator? (c : Cursor) : Option (BinaryOp × Token × Cursor) :=
  match c.rest with
  | ⟨.symbol s, p⟩ :: rest => (BinaryOp.ofMark? s).map fun op => (op, ⟨.symbol s, p⟩, c.to rest)
  | _ => none

theorem Cursor.length_of_operator? {c d : Cursor} {op : BinaryOp} {t : Token}
    (h : c.operator? = some (op, t, d)) : d.rest.length + 1 = c.rest.length := by
  unfold operator? at h
  split at h
  · rename_i hc
    obtain ⟨op, -, h⟩ := Option.map_eq_some_iff.1 h
    cases h
    rw [hc]
    rfl
  · cases h

theorem meetOperands_eq (c : Cursor) (waiting : List (BinaryOp × Position)) :
    meetOperands c waiting
      = match c.operator? with
        | some (op, t, d) =>
          ⟨[.take t], termGoals ++ [.operands ((op, t.position) :: waiting)], d⟩
        | none => ⟨waiting.map fun w => .emitAt w.2 [w.1.instruction], [], c⟩ := by
  obtain ⟨rest, finish, constructs⟩ := c
  cases rest with
  | nil => rfl
  | cons t rest =>
    obtain ⟨l, p⟩ := t
    cases l with
    | symbol s =>
      simp only [meetOperands, Cursor.operator?]
      cases BinaryOp.ofMark? s with
      | none => rfl
      | some op => rfl
    | _ => rfl

namespace Session

/-- A token that names no variable is read. -/
def taken (s : Session) (t : Token) : Session := (s.moveTo t.position).note (.leaf t.lexeme)

/-- An operator is applied to what is on the stack, at its own place. -/
def applied (s : Session) (w : BinaryOp × Position) : Session :=
  (s.moveTo w.2).emit [w.1.instruction]

/-- Waiting operators are applied in order. -/
theorem performAll_waiting (s : Session) (waiting : List (BinaryOp × Position)) :
    s.performAll (waiting.map fun w => .emitAt w.2 [w.1.instruction])
      = (waiting.foldl applied s, none) := by
  induction waiting generalizing s with
  | nil => rfl
  | cons w waiting ih =>
    rw [List.map_cons, performAll_cons, List.foldl_cons]
    exact ih (s.applied w)

theorem length_rest_term (s : Session) (c : Cursor) :
    (s.pass termGoals c).cursor.rest.length ≤ c.rest.length :=
  (s.rest_pass rfl).length_le

/-- The recursion of the grammar: the left term, then the whole expression behind the operator, and
last the operator. An error ends it where it is. -/
def expression (s : Session) (c : Cursor) : Pass :=
  match _hleft : s.pass termGoals c with
  | ⟨t, d, some e⟩ => ⟨t, d, some e⟩
  | ⟨t, d, none⟩ =>
    match _hop : d.operator? with
    | none => ⟨t, d, none⟩
    | some (op, token, right) =>
      ((t.taken token).expression right).andThen fun u f =>
        ⟨u.applied (op, token.position), f, none⟩
termination_by c.rest.length
decreasing_by
  have hle := s.length_rest_term c
  have hlt := Cursor.length_of_operator? _hop
  rw [_hleft] at hle
  simp only at hle
  omega

theorem pass_operands (s : Session) (waiting : List (BinaryOp × Position)) (c : Cursor) :
    s.pass [.operands waiting] c
      = match c.operator? with
        | none => ⟨waiting.foldl applied s, c, none⟩
        | some (op, t, d) =>
          (s.taken t).pass (termGoals ++ [.operands ((op, t.position) :: waiting)]) d := by
  have hmeet : Goal.meet c (.operands waiting) = .ok (meetOperands c waiting) := rfl
  rw [pass_of_ok hmeet, meetOperands_eq]
  rcases c.operator? with - | ⟨op, t, d⟩
  · simp only [performAll_waiting, List.append_nil, pass_nil]
  · rfl

/-- A chain that is read while operators wait is the recursion, and then the operators. -/
theorem pass_chain (s : Session) (c : Cursor) (waiting : List (BinaryOp × Position)) :
    s.pass (termGoals ++ [.operands waiting]) c
      = (s.expression c).andThen fun t d => ⟨waiting.foldl applied t, d, none⟩ := by
  -- along the recursion: each operator that is met waits on top of those before it
  fun_induction expression s c generalizing waiting with
  | case1 s c t d e hleft => rw [pass_append, hleft, Pass.andThen_some, Pass.andThen_some]
  | case2 s c t d hleft hop =>
    rw [pass_append, hleft, Pass.andThen_none, pass_operands, hop]
    rfl
  | case3 s c t d hleft op token right hop ih =>
    rw [pass_append, hleft, Pass.andThen_none, pass_operands, hop, Pass.andThen_assoc]
    exact ih _

end Session

/-- A chain of operators compiles as the recursion of the grammar does, from every state. -/
theorem chain_compiles_by_recursion (s : Session) (c : Cursor) :
    s.pass chainGoals c = s.expression c := by
  rw [chainGoals, Session.pass_chain]
  rcases s.expression c with ⟨t, d, - | e⟩
  · rfl
  · rfl

end Jack
