import Jack.Compilation
import Jack.Proofs.Labels

/-! Labels are never defined twice, however far a compilation gets. The labels asked for so far and
those that waiting goals are due to define bear numbers below the one that the next construct
draws. -/

namespace Jack

/-! ### Labels of actions and goals -/

/-- The instructions that an action brings along. -/
def Action.code : Action → List Instruction
  | .emit code | .emitAt _ code => code
  | _ => []

/-- The instructions that a goal is due to emit. -/
def Goal.code : Goal → List Instruction
  | .due action => action.code
  | _ => []

def actionCode (actions : List Action) : List Instruction := actions.flatMap Action.code

def goalCode (goals : List Goal) : List Instruction := goals.flatMap Goal.code

def Step.code (s : Step) : List Instruction := actionCode s.actions ++ goalCode s.goals

/-- A step that defines no label, and owes none. -/
structure Step.Quiet (s : Step) (c : Cursor) : Prop where
  constructs : s.cursor.constructs = c.constructs
  labels : labels s.code = []

theorem Cursor.constructs_of_read? {c d : Cursor} {l : Lexeme} {t : Token}
    (h : c.read? l = some (t, d)) : d.constructs = c.constructs := by
  unfold Cursor.read? at h
  split at h
  · split at h
    · cases h
      rfl
    · cases h
  · cases h

theorem Cursor.constructs_of_mark? {c d : Cursor} {s : Punctuation} {t : Token}
    (h : c.mark? s = some (t, d)) : d.constructs = c.constructs :=
  Cursor.constructs_of_read? h

theorem Cursor.constructs_of_keyword? {c d : Cursor} {k : Keyword} {t : Token}
    (h : c.keyword? = some (k, t, d)) : d.constructs = c.constructs := by
  unfold Cursor.keyword? at h
  split at h
  · cases h
    rfl
  · cases h

theorem Cursor.constructs_of_name? {c d : Cursor} {o : Occurrence}
    (h : c.name? = some (o, d)) : d.constructs = c.constructs := by
  unfold Cursor.name? at h
  split at h
  · cases h
    rfl
  · cases h

theorem Cursor.constructs_of_type {c d : Cursor} {p : Production} {type : String} {t : Token}
    (h : c.type p = .ok (type, t, d)) : d.constructs = c.constructs := by
  unfold Cursor.type at h
  split at h
  · cases h
    rfl
  · split at h
    · cases h
      rfl
    · cases h
  · cases h

theorem quiet_meetClassVarDecs (c : Cursor) : (meetClassVarDecs c).Quiet c := by
  unfold meetClassVarDecs
  split
  · rename_i hc
    split
    · exact ⟨Cursor.constructs_of_keyword? hc, rfl⟩
    · exact ⟨rfl, rfl⟩
  · exact ⟨rfl, rfl⟩

theorem quiet_meetSubroutineDecs (c : Cursor) : (meetSubroutineDecs c).Quiet c := by
  unfold meetSubroutineDecs
  split
  · rename_i hc
    split
    · exact ⟨Cursor.constructs_of_keyword? hc, rfl⟩
    · exact ⟨rfl, rfl⟩
  · exact ⟨rfl, rfl⟩

theorem goalCode_endGoals (d : Declaration) (count : UInt16) : goalCode (d.endGoals count) = [] := by
  cases d <;> rfl

theorem quiet_meetAfterName {c : Cursor} {d : Declaration} {type : String} {count : UInt16}
    {position : Position} {s : Step} (h : meetAfterName c d type count position = .ok s) :
    s.Quiet c := by
  unfold meetAfterName at h
  split at h
  · cases h
  · rename_i n _
    have hend : labels (goalCode (d.endGoals n)) = [] := by
      rw [goalCode_endGoals]
      rfl
    split at h
    · rename_i hc
      have hc := Cursor.constructs_of_mark? hc
      split at h <;> cases h <;> exact ⟨hc, rfl⟩
    · split at h
      · cases h
        exact ⟨rfl, hend⟩
      · split at h
        · rename_i hc
          cases h
          exact ⟨Cursor.constructs_of_mark? hc, hend⟩
        · cases h

theorem quiet_meetSubroutineName {c : Cursor} {role : Role} {s : Step}
    (h : meetSubroutineName c role = .ok s) : s.Quiet c := by
  unfold meetSubroutineName at h
  split at h
  · rename_i hc
    cases h
    refine ⟨Cursor.constructs_of_name? hc, ?_⟩
    cases role <;> rfl
  · cases h

theorem quiet_meetBody (c : Cursor) (role : Role) (locals : UInt16) :
    (meetBody c role locals).Quiet c := by
  unfold meetBody
  split
  · rename_i hc
    exact ⟨Cursor.constructs_of_read? hc, rfl⟩
  · exact ⟨rfl, rfl⟩

theorem quiet_meetLetValue (c : Cursor) (target : Occurrence) :
    (meetLetValue c target).Quiet c := by
  unfold meetLetValue
  split
  · rename_i hc
    exact ⟨Cursor.constructs_of_mark? hc, rfl⟩
  · exact ⟨rfl, rfl⟩

theorem quiet_meetName {c d : Cursor} (o : Occurrence) (h : d.constructs = c.constructs) :
    (meetName c o d).Quiet c := by
  unfold meetName
  split
  · exact ⟨h, rfl⟩
  · split
    · exact ⟨rfl, rfl⟩
    · exact ⟨h, rfl⟩

theorem quiet_meetTerm {c : Cursor} {s : Step} (h : meetTerm c = .ok s) : s.Quiet c := by
  unfold meetTerm at h
  split at h
  · cases h
  · split at h
    · cases h
      exact ⟨rfl, rfl⟩
    · rename_i text _
      cases h
      refine ⟨rfl, ?_⟩
      have hplain : Plain (stringCode text) := plain_stringValue text
      simp [Step.code, actionCode, goalCode, Action.code, hplain.labels]
    · cases h
      exact quiet_meetName _ rfl
    · split at h
      · rename_i constant _
        cases h
        refine ⟨rfl, ?_⟩
        cases constant <;> rfl
      · cases h
    · split at h
      · cases h
        exact ⟨rfl, rfl⟩
      · split at h
        · cases h
          exact ⟨rfl, rfl⟩
        · cases h

theorem labels_waiting (waiting : List (BinaryOp × Position)) :
    labels (actionCode (waiting.map fun w => .emitAt w.2 [w.1.instruction])) = [] := by
  induction waiting with
  | nil => rfl
  | cons w waiting ih =>
    have hw : labels [w.1.instruction] = [] := by
      rw [w.1.instruction_eq_code]
      exact w.1.plain_code.labels
    rw [List.map_cons, actionCode, List.flatMap_cons, labels_append]
    exact List.append_eq_nil_iff.2 ⟨hw, ih⟩

theorem quiet_meetOperands (c : Cursor) (waiting : List (BinaryOp × Position)) :
    (meetOperands c waiting).Quiet c := by
  have hwaiting : labels (actionCode (waiting.map fun w => .emitAt w.2 [w.1.instruction])
      ++ goalCode []) = [] := by
    rw [labels_append, labels_waiting]
    rfl
  unfold meetOperands
  split
  · split
    · exact ⟨rfl, rfl⟩
    · exact ⟨rfl, hwaiting⟩
  · exact ⟨rfl, hwaiting⟩

theorem quiet_meetCallee (c : Cursor) (p : Production) (first : Occurrence) :
    (meetCallee c p first).Quiet c := by
  unfold meetCallee
  split
  · rename_i hc
    exact ⟨Cursor.constructs_of_mark? hc, rfl⟩
  · exact ⟨rfl, rfl⟩

theorem quiet_meetMoreArguments {c : Cursor} {p : Production} {callee : Callee} {count : UInt16}
    {position : Position} {s : Step} (h : meetMoreArguments c p callee count position = .ok s) :
    s.Quiet c := by
  unfold meetMoreArguments at h
  split at h
  · cases h
  · split at h
    · rename_i hc
      cases h
      exact ⟨Cursor.constructs_of_mark? hc, rfl⟩
    · cases h
      exact ⟨rfl, rfl⟩

/-- A goal is met quietly, or with the labels of the construct whose number it draws. -/
theorem meetStatements_labels (c : Cursor) :
    (meetStatements c).Quiet c
      ∨ (meetStatements c).cursor.constructs = c.constructs + 1
        ∧ LabelsWithin (meetStatements c).code c.constructs (c.constructs + 1) := by
  unfold meetStatements
  split
  · rename_i hc
    exact .inl ⟨Cursor.constructs_of_keyword? hc, rfl⟩
  · exact .inr ⟨rfl, .construct .ifFalse .ifEnd (by decide) (.of_nil labels_nil)
      (Nat.lt_succ_self _) (.refl _)⟩
  · exact .inr ⟨rfl, .construct .whileStart .whileEnd (by decide) (.of_nil labels_nil)
      (Nat.lt_succ_self _) (.refl _)⟩
  · rename_i hc
    exact .inl ⟨Cursor.constructs_of_keyword? hc, rfl⟩
  · rename_i hc
    exact .inl ⟨Cursor.constructs_of_keyword? hc, rfl⟩
  · exact .inl ⟨rfl, rfl⟩

/-- What is left of the labels of a goal, or a goal of no label that draws the next number. -/
theorem Goal.labels_of_meet {c : Cursor} {g : Goal} {s : Step} (h : g.meet c = .ok s) :
    s.cursor.constructs = c.constructs ∧ labels s.code = labels g.code
      ∨ s.cursor.constructs = c.constructs + 1 ∧ labels g.code = []
        ∧ LabelsWithin s.code c.constructs (c.constructs + 1) := by
  have quiet : s.Quiet c → labels g.code = [] → s.cursor.constructs = c.constructs
      ∧ labels s.code = labels g.code := by
    intro hs hg
    exact ⟨hs.constructs, hs.labels.trans hg.symm⟩
  cases g with
  | due a =>
    cases h
    refine .inl ⟨rfl, ?_⟩
    simp [Step.code, actionCode, goalCode, Goal.code]
  | mark p m =>
    simp only [Goal.meet] at h
    split at h
    · rename_i hc
      cases h
      exact .inl (quiet ⟨Cursor.constructs_of_mark? hc, rfl⟩ rfl)
    · cases h
  | classWord =>
    simp only [Goal.meet] at h
    split at h
    · rename_i hc
      cases h
      exact .inl (quiet ⟨Cursor.constructs_of_read? hc, rfl⟩ rfl)
    · cases h
  | className =>
    simp only [Goal.meet] at h
    split at h
    · rename_i hc
      cases h
      exact .inl (quiet ⟨Cursor.constructs_of_name? hc, rfl⟩ rfl)
    · cases h
  | classVarDecs =>
    cases h
    exact .inl (quiet (quiet_meetClassVarDecs c) rfl)
  | subroutineDecs =>
    cases h
    exact .inl (quiet (quiet_meetSubroutineDecs c) rfl)
  | endOfFile =>
    simp only [Goal.meet] at h
    split at h
    · cases h
      exact .inl (quiet ⟨rfl, rfl⟩ rfl)
    · cases h
  | typed d count =>
    simp only [Goal.meet] at h
    split at h
    · rename_i hc
      cases h
      exact .inl (quiet ⟨Cursor.constructs_of_type hc, rfl⟩ rfl)
    · cases h
  | named d type count =>
    simp only [Goal.meet] at h
    split at h
    · rename_i hc
      cases h
      exact .inl (quiet ⟨Cursor.constructs_of_name? hc, rfl⟩ rfl)
    · cases h
  | afterName d type count position => exact .inl (quiet (quiet_meetAfterName h) rfl)
  | resultType =>
    simp only [Goal.meet] at h
    split at h
    · rename_i hc
      cases h
      exact .inl (quiet ⟨Cursor.constructs_of_read? hc, rfl⟩ rfl)
    · split at h
      · rename_i hc
        cases h
        exact .inl (quiet ⟨Cursor.constructs_of_type hc, rfl⟩ rfl)
      · cases h
  | subroutineName role => exact .inl (quiet (quiet_meetSubroutineName h) rfl)
  | parameters =>
    simp only [Goal.meet] at h
    split at h <;> cases h <;> exact .inl (quiet ⟨rfl, rfl⟩ rfl)
  | counted role before count start =>
    simp only [Goal.meet] at h
    split at h <;> cases h
    exact .inl (quiet ⟨rfl, rfl⟩ rfl)
  | body role locals =>
    cases h
    exact .inl (quiet (quiet_meetBody c role locals) rfl)
  | statements =>
    cases h
    rcases meetStatements_labels c with hs | ⟨hn, hs⟩
    · exact .inl (quiet hs rfl)
    · exact .inr ⟨hn, rfl, hs⟩
  | letTarget =>
    simp only [Goal.meet] at h
    split at h
    · rename_i hc
      cases h
      exact .inl (quiet ⟨Cursor.constructs_of_name? hc, rfl⟩ rfl)
    · cases h
  | letValue target =>
    cases h
    exact .inl (quiet (quiet_meetLetValue c target) rfl)
  | otherwise =>
    simp only [Goal.meet] at h
    split at h
    · rename_i hc
      cases h
      exact .inl (quiet ⟨Cursor.constructs_of_read? hc, rfl⟩ rfl)
    · cases h
      exact .inl (quiet ⟨rfl, rfl⟩ rfl)
  | returned =>
    simp only [Goal.meet] at h
    split at h <;> cases h <;> exact .inl (quiet ⟨rfl, rfl⟩ rfl)
  | term => exact .inl (quiet (quiet_meetTerm h) rfl)
  | operands waiting =>
    cases h
    exact .inl (quiet (quiet_meetOperands c waiting) rfl)
  | call p =>
    simp only [Goal.meet] at h
    split at h
    · rename_i hc
      cases h
      exact .inl (quiet ⟨Cursor.constructs_of_name? hc, rfl⟩ rfl)
    · cases h
  | callee p first =>
    cases h
    exact .inl (quiet (quiet_meetCallee c p first) rfl)
  | member p owner =>
    simp only [Goal.meet] at h
    split at h
    · rename_i hc
      cases h
      exact .inl (quiet ⟨Cursor.constructs_of_name? hc, rfl⟩ rfl)
    · cases h
  | arguments p callee =>
    simp only [Goal.meet] at h
    split at h <;> cases h <;> exact .inl (quiet ⟨rfl, rfl⟩ rfl)
  | moreArguments p callee count position => exact .inl (quiet (quiet_meetMoreArguments h) rfl)

/-! ### Labels of a script -/

/-- The labels of what was asked for and of what is due are different, and of numbers drawn. -/
def Fresh (done : List Action) (goals : List Goal) (c : Cursor) : Prop :=
  LabelsWithin (actionCode done ++ goalCode goals) 0 c.constructs

theorem Fresh.meet {done : List Action} {g : Goal} {goals : List Goal} {c : Cursor} {s : Step}
    (h : Fresh done (g :: goals) c) (hg : g.meet c = .ok s) :
    Fresh (done ++ s.actions) (s.goals ++ goals) s.cursor := by
  have hcode : actionCode (done ++ s.actions) ++ goalCode (s.goals ++ goals)
      = actionCode done ++ s.code ++ goalCode goals := by
    simp [Step.code, actionCode, goalCode]
  have hcons : goalCode (g :: goals) = g.code ++ goalCode goals := List.flatMap_cons
  rw [Fresh, hcons] at h
  rw [Fresh, hcode]
  rcases Goal.labels_of_meet hg with ⟨hn, hlabels⟩ | ⟨hn, hnone, hnew⟩
  · rw [hn]
    apply h.perm
    simp [hlabels]
  · rw [hn]
    apply (h.append hnew (Nat.zero_le _) (Nat.le_succ _)).perm
    simp only [labels_append, hnone, List.nil_append, List.append_assoc]
    exact List.perm_append_comm.append_left _

theorem Script.labelsWithin_ofGoals (goals : List Goal) (c : Cursor) (done : Array Action)
    (h : Fresh done.toList goals c) :
    LabelsWithin (actionCode (ofGoals goals c done).actions.toList) 0
      (ofGoals goals c done).cursor.constructs := by
  induction goals, c using induction_on_meet generalizing done with
  | nil c =>
    rw [ofGoals_nil]
    exact LabelsWithin.left h
  | error g goals c e hg =>
    rw [ofGoals_cons_of_error hg]
    exact LabelsWithin.left h
  | ok g goals c s hg ih =>
    rw [ofGoals_cons_of_ok hg]
    apply ih
    simpa using h.meet hg

/-! ### Labels of a session -/

theorem Session.labels_emit (s : Session) (is : List Instruction) :
    labels (s.emit is).code = labels s.code ++ labels is := by
  rw [(Session.Adds.emit s is).code, labels_append]

/-- A header that is filled in was a header before. -/
theorem Listing.labels_patch (l : Listing) (slot : HeaderSlot) (locals : UInt16) :
    labels ((l.patch slot locals).1.lines.toList.map (·.instruction))
      = labels (l.lines.toList.map (·.instruction)) := by
  have hlabel : (l.patch slot locals).1.lines.toList.map (·.instruction.label?)
      = l.lines.toList.map (·.instruction.label?) := by
    apply List.ext_getElem?
    intro n
    rw [List.getElem?_map, List.getElem?_map, Array.getElem?_toList, Array.getElem?_toList,
      Listing.getElem?_patch]
    split
    · rename_i h
      obtain ⟨hholds, rfl⟩ := h
      cases he : l.lines[slot.offset]? with
      | none => rfl
      | some e =>
        simp only [Listing.holds, he, decide_eq_true_eq] at hholds
        cases hi : e.instruction <;> rw [hi] at hholds <;> cases hholds
        simp [hi, Instruction.label?]
    · rfl
  have hmap : ∀ es : List Emitted, labels (es.map (·.instruction))
      = (es.map (·.instruction.label?)).filterMap id := by
    intro es
    rw [labels, List.filterMap_map, List.filterMap_map]
    rfl
  rw [hmap, hmap, hlabel]

theorem Session.labels_complete (s : Session) (locals : UInt16) :
    labels (s.complete locals).1.code = labels s.code := by
  obtain ⟨scope, listing, outline?, className, slot?⟩ := s
  cases slot? with
  | none => rfl
  | some slot =>
    have hpatch := listing.labels_patch slot locals
    simp only [Session.complete]
    split
    · rename_i l hl
      rw [hl] at hpatch
      exact hpatch
    · rename_i l hl
      rw [hl] at hpatch
      exact hpatch

theorem Session.code_define (s : Session) (p : Production) (name type : String) (kind : Kind)
    (position : Position) : (s.define p name type kind position).1.code = s.code := by
  unfold Session.define
  split <;> rfl

theorem Session.labels_resolve {s : Session} {p : Production} {o : Occurrence}
    {next : Session → Variable → Session}
    (h : ∀ v, labels (next s v).code = labels s.code) :
    labels (s.resolve p o next).1.code = labels s.code := by
  unfold Session.resolve
  split
  · rename_i v _
    exact h v
  · rfl

/-- An instruction that is no label adds none. -/
theorem Session.labels_emit_of_plain (s : Session) {is : List Instruction} (h : Plain is) :
    labels (s.emit is).code = labels s.code := by
  rw [s.labels_emit, h.labels, List.append_nil]

theorem Variable.plain_pushCode (v : Variable) : Plain [v.pushCode] := .cons rfl .nil

theorem Variable.plain_popCode (v : Variable) : Plain [v.popCode] := .cons rfl .nil

theorem Role.plain_preamble (fields : UInt16) (r : Role) : Plain (r.preamble fields) := by
  cases r with
  | constructor => exact .cons rfl (.cons rfl (.cons rfl .nil))
  | function => exact .nil
  | method => exact .cons rfl (.cons rfl .nil)

/-- An action adds the labels that it brings along, also when it cannot be performed. -/
theorem Session.labels_perform (s : Session) (a : Action) :
    labels (s.perform a).1.code = labels s.code ++ labels a.code := by
  have keep : a.code = [] → labels (s.perform a).1.code = labels s.code →
      labels (s.perform a).1.code = labels s.code ++ labels a.code := by
    intro ha hs
    rw [hs, ha, labels_nil, List.append_nil]
  cases a with
  | emit code => exact s.labels_emit code
  | emitAt p code => exact (s.moveTo p).labels_emit code
  | enter p | leave p | take t | nameClass name | startSubroutine | mention o =>
    exact keep rfl rfl
  | mentionFirst o =>
    refine keep rfl ?_
    rw [Session.perform]
    split <;> rfl
  | declare p o type kind =>
    refine keep rfl (congrArg labels ?_)
    have hdefine := (s.moveTo o.position).code_define p o.name type kind o.position
    rw [Session.perform]
    split
    · rename_i t ht
      rw [ht] at hdefine
      exact hdefine
    · rename_i t e ht
      rw [ht] at hdefine
      exact hdefine
  | declareThis position =>
    refine keep rfl (congrArg labels ?_)
    exact s.code_define _ _ _ _ _
  | require p o => exact keep rfl (Session.labels_resolve fun v => rfl)
  | load p o =>
    exact keep rfl (Session.labels_resolve fun v => s.labels_emit_of_plain v.plain_pushCode)
  | store p o =>
    exact keep rfl (Session.labels_resolve fun v => s.labels_emit_of_plain v.plain_popCode)
  | loadReceiver o =>
    refine keep rfl ?_
    rw [Session.perform]
    split
    · rename_i v _
      exact s.labels_emit_of_plain v.plain_pushCode
    · rfl
  | call p callee args =>
    refine keep rfl ?_
    rw [Session.perform, Session.call]
    split
    split
    · exact (s.moveTo callee.first.position).labels_emit_of_plain (.cons rfl .nil)
    · rfl
  | header name =>
    refine keep rfl ?_
    have hheader := s.labels_emit [.function (qualified s.className name) 0]
    rw [show labels [.function (qualified s.className name) 0] = [] from rfl,
      List.append_nil] at hheader
    exact hheader
  | preamble role =>
    exact keep rfl (s.labels_emit_of_plain (role.plain_preamble (s.scope.count .field)))
  | complete locals => exact keep rfl (s.labels_complete locals)

theorem Session.labels_performAll (s : Session) (actions : List Action) :
    labels (s.performAll actions).1.code <+: labels s.code ++ labels (actionCode actions) := by
  induction actions generalizing s with
  | nil => simp [actionCode]
  | cons a actions ih =>
    have ha := s.labels_perform a
    have hcode : labels (actionCode (a :: actions))
        = labels a.code ++ labels (actionCode actions) := by
      rw [actionCode, List.flatMap_cons, labels_append]
      rfl
    rw [Session.performAll_cons, hcode, ← List.append_assoc, ← ha]
    split
    · rename_i t ht
      rw [ht]
      exact ih t
    · rename_i t e ht
      rw [ht]
      exact List.prefix_append _ _

/-- No label is defined twice, whether the tokens compile or not. -/
theorem TokenStream.nodup_labels_compile (stream : TokenStream) (outlined : Bool) :
    (labels (stream.compile outlined).session.code).Nodup := by
  have hstart : Fresh (#[] : Array Action).toList classGoals ⟨stream.tokens, stream.finish, 0⟩ :=
    .of_nil rfl
  have hscript := Script.labelsWithin_ofGoals _ _ _ hstart
  have hrun := (Session.initial outlined).labels_performAll (Script.ofTokens stream).actions.toList
  have hsession : (stream.compile outlined).session
      = ((Session.initial outlined).performAll (Script.ofTokens stream).actions.toList).1 := by
    rw [TokenStream.compile, Script.compile]
    split <;> rename_i h <;> rw [h]
  rw [hsession]
  exact hscript.nodup.sublist hrun.sublist

end Jack
