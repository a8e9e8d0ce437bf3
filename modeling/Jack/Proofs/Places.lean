import Jack.Proofs.Lookahead

/-! Where a compilation says that something stands. Every instruction stands for a token of the
text, and every error names the place of a token or the end of the text. -/

namespace Jack

/-! ### The places of actions and goals -/

section

variable (P Q : Position → Prop)

/-- The action names places in `P`. Where only an error could show the place, it may be in `Q`. -/
def Action.Within : Action → Prop
  | .take t => P t.position
  | .declare _ o _ _ | .mention o | .mentionFirst o | .require _ o | .load _ o | .store _ o
    | .loadReceiver o => P o.position
  | .declareThis p => Q p
  | .emitAt p _ => P p
  | .call _ callee _ => P callee.first.position
  | .enter _ | .leave _ | .nameClass _ | .startSubroutine | .emit _ | .header _ | .preamble _
    | .complete _ => True

def Declaration.Within : Declaration → Prop
  | .ofClass _ | .parameter => True
  | .locals _ _ start => P start

/-- The places that a goal remembers. -/
def Goal.Within : Goal → Prop
  | .due a => a.Within P Q
  | .typed d _ | .named d _ _ => d.Within P
  | .afterName d _ _ p => d.Within P ∧ P p
  | .counted _ _ _ start => P start
  | .letValue o | .callee _ o | .member _ o => P o.position
  | .operands waiting => ∀ w ∈ waiting, P w.2
  | .arguments _ target => P target.first.position
  | .moreArguments _ target _ p => P target.first.position ∧ Q p
  | .mark _ _ | .classWord | .className | .classVarDecs | .subroutineDecs | .endOfFile
    | .resultType | .subroutineName _ | .parameters | .body _ _ | .statements | .letTarget
    | .otherwise | .returned | .term | .call _ => True

/-- Every token that is left stands in `P`, and the text ends in `Q`. -/
structure Cursor.Within (c : Cursor) : Prop where
  tokens : ∀ t ∈ c.rest, P t.position
  finish : Q c.finish

structure Step.Within (s : Step) : Prop where
  actions : ∀ a ∈ s.actions, a.Within P Q
  goals : ∀ g ∈ s.goals, g.Within P Q
  cursor : s.cursor.Within P Q

/-- The error names a place, which is in `Q`. -/
def CompileError.Within (e : CompileError) : Prop := ∃ p, e.position? = some p ∧ Q p

/-- What a goal comes to, met or not. -/
def MeetsWithin : Except CompileError Step → Prop
  | .ok s => s.Within P Q
  | .error e => e.Within Q

end

section

variable {P Q : Position → Prop} {c d : Cursor}

theorem Cursor.Within.next {t : Token} {rest : List Token} (h : c.Within P Q)
    (hc : c.rest = t :: rest) : P t.position ∧ (c.to rest).Within P Q := by
  have htokens := h.tokens
  rw [hc] at htokens
  exact ⟨htokens t (.head _), fun v hv => htokens v (.tail _ hv), h.finish⟩

theorem Cursor.Within.read? {l : Lexeme} {t : Token} (h : c.Within P Q)
    (hr : c.read? l = some (t, d)) : P t.position ∧ d.Within P Q := by
  unfold Cursor.read? at hr
  split at hr
  · rename_i u rest hc
    split at hr
    · cases hr
      exact h.next hc
    · cases hr
  · cases hr

theorem Cursor.Within.keyword? {k : Keyword} {t : Token} (h : c.Within P Q)
    (hr : c.keyword? = some (k, t, d)) : P t.position ∧ d.Within P Q := by
  unfold Cursor.keyword? at hr
  split at hr
  · rename_i hc
    cases hr
    exact h.next hc
  · cases hr

theorem Cursor.Within.name? {o : Occurrence} (h : c.Within P Q)
    (hr : c.name? = some (o, d)) : P o.position ∧ d.Within P Q := by
  unfold Cursor.name? at hr
  split at hr
  · rename_i hc
    cases hr
    exact h.next hc
  · cases hr

/-- A step that reads nothing and asks for nothing. -/
theorem Step.Within.left (h : c.Within P Q) {goals : List Goal} (hg : ∀ g ∈ goals, g.Within P Q) :
    Step.Within P Q ⟨[], goals, c⟩ :=
  ⟨List.forall_mem_nil _, hg, h⟩

/-- A step that reads a token and asks for nothing else. -/
theorem Step.Within.took {t : Token} (ht : P t.position) {goals : List Goal}
    (hg : ∀ g ∈ goals, g.Within P Q) (hd : d.Within P Q) : Step.Within P Q ⟨[.take t], goals, d⟩ :=
  ⟨List.forall_mem_singleton.2 ht, hg, hd⟩

theorem within_expressionGoals : ∀ g ∈ expressionGoals, g.Within P Q := by
  simp [expressionGoals, Goal.Within, Action.Within]

theorem within_meetClassVarDecs (h : c.Within P Q) : (meetClassVarDecs c).Within P Q := by
  unfold meetClassVarDecs
  split
  · rename_i k t d hc
    obtain ⟨ht, hd⟩ := h.keyword? hc
    split
    · exact ⟨by simp [Action.Within, ht], by simp [Goal.Within, Declaration.Within], hd⟩
    · exact .left h (List.forall_mem_nil _)
  · exact .left h (List.forall_mem_nil _)

theorem within_meetSubroutineDecs (h : c.Within P Q) : (meetSubroutineDecs c).Within P Q := by
  unfold meetSubroutineDecs
  split
  · rename_i k t d hc
    obtain ⟨ht, hd⟩ := h.keyword? hc
    split
    · exact ⟨by simp [Action.Within, ht], by simp [Goal.Within], hd⟩
    · exact .left h (List.forall_mem_nil _)
  · exact .left h (List.forall_mem_nil _)

theorem within_meetBody (h : c.Within P Q) (role : Role) (locals : UInt16) :
    (meetBody c role locals).Within P Q := by
  unfold meetBody
  split
  · rename_i t d hc
    obtain ⟨ht, hd⟩ := h.read? hc
    exact ⟨by simp [Action.Within, ht], by simp [Goal.Within, Declaration.Within, ht], hd⟩
  · exact ⟨by simp [Action.Within], by simp [statementsGoals, Goal.Within, Action.Within], h⟩

theorem within_meetStatements (h : c.Within P Q) : (meetStatements c).Within P Q := by
  unfold meetStatements
  split
  case h_6 => exact .left h (List.forall_mem_nil _)
  all_goals
    rename_i t d hc
    obtain ⟨ht, hd⟩ := h.keyword? hc
    refine ⟨by simp [Action.Within, ht], ?_, ⟨hd.tokens, hd.finish⟩⟩
    simp [conditionGoals, expressionGoals, blockGoals, statementsGoals, Goal.Within, Action.Within]

theorem within_meetLetValue (h : c.Within P Q) {target : Occurrence} (ho : P target.position) :
    (meetLetValue c target).Within P Q := by
  unfold meetLetValue
  split
  · rename_i t d hc
    obtain ⟨ht, hd⟩ := h.read? hc
    exact ⟨by simp [Action.Within, ht, ho],
      by simp [expressionGoals, Goal.Within, Action.Within], hd⟩
  · exact .left h (by simp [expressionGoals, Goal.Within, Action.Within, ho])

theorem within_meetName (h : c.Within P Q) (hd : d.Within P Q) {o : Occurrence}
    (ho : P o.position) : (meetName c o d).Within P Q := by
  unfold meetName
  split
  · exact ⟨by simp [Action.Within, ho],
      by simp [expressionGoals, Goal.Within, Action.Within, ho], hd⟩
  · split
    · exact .left h (by simp [Goal.Within, Action.Within])
    · exact ⟨by simp [Action.Within, ho], List.forall_mem_nil _, hd⟩

/-- An operator is emitted at the place where it was read. -/
theorem within_meetOperands (h : c.Within P Q) {waiting : List (BinaryOp × Position)}
    (hw : ∀ w ∈ waiting, P w.2) : (meetOperands c waiting).Within P Q := by
  have hend : Step.Within P Q ⟨waiting.map fun w => .emitAt w.2 [w.1.instruction], [], c⟩ :=
    ⟨List.forall_mem_map.2 hw, List.forall_mem_nil _, h⟩
  unfold meetOperands
  split
  · rename_i m p rest hc
    obtain ⟨hp, hd⟩ := h.next hc
    split
    · rename_i op hop
      have hwaiting : ∀ v ∈ (op, p) :: waiting, P v.2 := List.forall_mem_cons.2 ⟨hp, hw⟩
      exact .took hp (List.forall_mem_cons.2
        ⟨trivial, List.forall_mem_cons.2 ⟨trivial, List.forall_mem_singleton.2 hwaiting⟩⟩) hd
    · exact hend
  · exact hend

theorem within_meetCallee (h : c.Within P Q) (p : Production) {first : Occurrence}
    (ho : P first.position) : (meetCallee c p first).Within P Q := by
  unfold meetCallee
  split
  · rename_i t d hc
    obtain ⟨ht, hd⟩ := h.read? hc
    exact .took ht (by simp [Goal.Within, ho]) hd
  · exact ⟨by simp [Action.Within],
      by simp [argumentsGoals, Goal.Within, Action.Within, Callee.first, ho], h⟩

theorem Declaration.within_endGoals {d : Declaration} (h : d.Within P) (n : UInt16) :
    ∀ g ∈ d.endGoals n, g.Within P Q := by
  cases d with
  | ofClass kind => simp [Declaration.endGoals, Goal.Within, Action.Within]
  | parameter => simp [Declaration.endGoals]
  | locals role before start =>
    simp [Declaration.endGoals, Goal.Within, Action.Within, show P start from h]

variable (hPQ : ∀ p, P p → Q p)

include hPQ

theorem Cursor.Within.found (h : c.Within P Q) : Q c.found.position := by
  obtain ⟨rest, finish, constructs⟩ := c
  cases rest with
  | nil => exact h.finish
  | cons t rest => exact hPQ _ (h.tokens t (.head _))

theorem Cursor.Within.badSyntax (h : c.Within P Q) (p : Production) (xs : List Expectation) :
    (c.badSyntax p xs).Within Q := by
  exact ⟨_, rfl, h.found hPQ⟩

theorem Cursor.Within.noName (h : c.Within P Q) (p : Production) : (c.noName p).Within Q := by
  exact ⟨_, rfl, h.found hPQ⟩

theorem Cursor.Within.type (h : c.Within P Q) (p : Production) :
    match c.type p with
    | .ok (_, t, d) => P t.position ∧ d.Within P Q
    | .error e => e.Within Q := by
  have hbad := h.badSyntax hPQ p
  have hname := h.noName hPQ p
  obtain ⟨rest, finish, constructs⟩ := c
  rcases rest with - | ⟨⟨l, q⟩, rest⟩
  · exact hname
  · have hread : P q ∧ Cursor.Within P Q ⟨rest, finish, constructs⟩ := h.next rfl
    cases l with
    | identifier name => exact hread
    | keyword k =>
      by_cases hk : k = .int ∨ k = .char ∨ k = .boolean
      · simp only [Cursor.type, if_pos hk]
        exact hread
      · simp only [Cursor.type, if_neg hk]
        exact hbad _
    | symbol m | integer n | string text => exact hname

theorem meetsWithin_afterName (h : c.Within P Q) {d : Declaration} (hd : d.Within P)
    (type : String) (count : UInt16) {p : Position} (hp : P p) :
    MeetsWithin P Q (meetAfterName c d type count p) := by
  unfold meetAfterName
  split
  · exact ⟨p, rfl, hPQ p hp⟩
  · rename_i n _
    split
    · rename_i t e hc
      obtain ⟨ht, he⟩ := h.read? hc
      split
      · exact .took ht (by simp [Goal.Within, hd]) he
      · exact .took ht (by simp [Goal.Within, hd]) he
    · split
      · exact .left h (Declaration.within_endGoals hd n)
      · split
        · rename_i t e hc
          obtain ⟨ht, he⟩ := h.read? hc
          exact .took ht (Declaration.within_endGoals hd n) he
        · exact h.badSyntax hPQ _ _

theorem meetsWithin_subroutineName (h : c.Within P Q) (role : Role) :
    MeetsWithin P Q (meetSubroutineName c role) := by
  unfold meetSubroutineName
  split
  · rename_i o d hc
    obtain ⟨ho, hd⟩ := h.name? hc
    refine ⟨List.forall_mem_cons.2 ⟨ho, ?_⟩, by simp [Goal.Within, Action.Within], hd⟩
    split
    · exact List.forall_mem_singleton.2 (hd.found hPQ)
    · exact List.forall_mem_nil _
  · exact h.noName hPQ _

theorem meetsWithin_term (h : c.Within P Q) : MeetsWithin P Q (meetTerm c) := by
  have hbad := h.badSyntax hPQ .term termStarts
  unfold meetTerm
  split
  · exact hbad
  · rename_i t rest hc
    obtain ⟨ht, hd⟩ := h.next hc
    split
    · exact ⟨by simp [Action.Within, ht], List.forall_mem_nil _, hd⟩
    · exact ⟨by simp [Action.Within, ht], List.forall_mem_nil _, hd⟩
    · exact within_meetName h hd ht
    · split
      · exact ⟨by simp [Action.Within, ht], List.forall_mem_nil _, hd⟩
      · exact hbad
    · split
      · exact .took ht (by simp [expressionGoals, Goal.Within, Action.Within]) hd
      · split
        · exact .took ht (by simp [Goal.Within, Action.Within, ht]) hd
        · exact hbad

theorem meetsWithin_moreArguments (h : c.Within P Q) (p : Production) {target : Callee}
    (ht : P target.first.position) (count : UInt16) {q : Position} (hq : Q q) :
    MeetsWithin P Q (meetMoreArguments c p target count q) := by
  unfold meetMoreArguments
  split
  · exact ⟨q, rfl, hq⟩
  · split
    · rename_i t d hc
      obtain ⟨ht', hd⟩ := h.read? hc
      refine ⟨by simp [Action.Within, ht'], ?_, hd⟩
      simp [expressionGoals, Goal.Within, Action.Within, ht, hd.found hPQ]
    · exact .left h (by simp [callGoals, Goal.Within, Action.Within, ht])

/-- What a goal comes to names no places but those of the goal and of the tokens that are left. -/
theorem Goal.Within.meet {g : Goal} (hg : g.Within P Q) (h : c.Within P Q) :
    MeetsWithin P Q (g.meet c) := by
  cases g with
  | due a => exact ⟨List.forall_mem_singleton.2 hg, List.forall_mem_nil _, h⟩
  | mark p m =>
    simp only [Goal.meet]
    split
    · rename_i t d hc
      obtain ⟨ht, hd⟩ := h.read? hc
      exact .took ht (List.forall_mem_nil _) hd
    · exact h.badSyntax hPQ _ _
  | classWord =>
    simp only [Goal.meet]
    split
    · rename_i t d hc
      obtain ⟨ht, hd⟩ := h.read? hc
      exact .took ht (List.forall_mem_nil _) hd
    · exact h.badSyntax hPQ _ _
  | className =>
    simp only [Goal.meet]
    split
    · rename_i o d hc
      obtain ⟨ho, hd⟩ := h.name? hc
      exact ⟨by simp [Action.Within, Occurrence.token, ho], List.forall_mem_nil _, hd⟩
    · exact h.noName hPQ _
  | classVarDecs => exact within_meetClassVarDecs h
  | subroutineDecs => exact within_meetSubroutineDecs h
  | endOfFile =>
    simp only [Goal.meet]
    split
    · exact .left h (List.forall_mem_nil _)
    · exact h.badSyntax hPQ _ _
  | typed d count =>
    have ht := h.type hPQ d.production
    simp only [Goal.meet]
    split
    · rename_i type t e htype
      rw [htype] at ht
      exact .took ht.1 (by simpa [Goal.Within] using hg) ht.2
    · rename_i e htype
      rw [htype] at ht
      exact ht
  | named d type count =>
    simp only [Goal.meet]
    split
    · rename_i o e hc
      obtain ⟨ho, he⟩ := h.name? hc
      exact ⟨by simp [Action.Within, ho], by simpa [Goal.Within, ho] using hg, he⟩
    · exact h.noName hPQ _
  | afterName d type count p => exact meetsWithin_afterName hPQ h hg.1 type count hg.2
  | resultType =>
    have ht := h.type hPQ .subroutineDec
    simp only [Goal.meet]
    split
    · rename_i t d hc
      obtain ⟨ht, hd⟩ := h.read? hc
      exact .took ht (List.forall_mem_nil _) hd
    · split
      · rename_i type t d htype
        rw [htype] at ht
        exact .took ht.1 (List.forall_mem_nil _) ht.2
      · rename_i e htype
        rw [htype] at ht
        exact ht
  | subroutineName role => exact meetsWithin_subroutineName hPQ h role
  | parameters =>
    simp only [Goal.meet]
    split
    · exact .left h (List.forall_mem_nil _)
    · exact .left h (by simp [Goal.Within, Declaration.Within])
  | counted role before count start =>
    simp only [Goal.meet]
    split
    · exact .left h (by simp [Goal.Within])
    · exact ⟨start, rfl, hPQ _ hg⟩
  | body role locals => exact within_meetBody h role locals
  | statements => exact within_meetStatements h
  | letTarget =>
    simp only [Goal.meet]
    split
    · rename_i o d hc
      obtain ⟨ho, hd⟩ := h.name? hc
      exact ⟨by simp [Action.Within, ho], by simp [Goal.Within, ho], hd⟩
    · exact h.noName hPQ _
  | letValue target => exact within_meetLetValue h hg
  | otherwise =>
    simp only [Goal.meet]
    split
    · rename_i t d hc
      obtain ⟨ht, hd⟩ := h.read? hc
      exact .took ht (by simp [blockGoals, statementsGoals, Goal.Within, Action.Within]) hd
    · exact .left h (List.forall_mem_nil _)
  | returned =>
    simp only [Goal.meet]
    split
    · exact ⟨by simp [Action.Within], List.forall_mem_nil _, h⟩
    · exact .left h within_expressionGoals
  | term => exact meetsWithin_term hPQ h
  | operands waiting => exact within_meetOperands h hg
  | call p =>
    simp only [Goal.meet]
    split
    · rename_i o d hc
      obtain ⟨ho, hd⟩ := h.name? hc
      exact ⟨by simp [Action.Within, ho], by simp [Goal.Within, ho], hd⟩
    · exact h.noName hPQ _
  | callee p first => exact within_meetCallee h p hg
  | member p owner =>
    simp only [Goal.meet]
    split
    · rename_i o d hc
      obtain ⟨ho, hd⟩ := h.name? hc
      exact ⟨by simp [Action.Within, Occurrence.token, ho, show P owner.position from hg],
        by simp [argumentsGoals, Goal.Within, Action.Within, Callee.first,
          show P owner.position from hg], hd⟩
    · exact h.noName hPQ _
  | arguments p target =>
    have hfirst : P target.first.position := hg
    simp only [Goal.meet]
    split
    · exact .left h (by simp [callGoals, Goal.Within, Action.Within, hfirst])
    · exact .left h (by simp [expressionGoals, Goal.Within, Action.Within, hfirst, h.found hPQ])
  | moreArguments p target count q =>
    exact meetsWithin_moreArguments hPQ h p hg.1 count hg.2

/-- A script names no places but those of its goals and of its tokens. -/
theorem Script.within_ofGoals {goals : List Goal} (hg : ∀ g ∈ goals, g.Within P Q)
    (h : c.Within P Q) :
    (∀ a ∈ (ofGoals goals c #[]).actions.toList, a.Within P Q)
      ∧ ∀ e ∈ (ofGoals goals c #[]).fault?, e.Within Q := by
  induction goals, c using induction_on_meet with
  | nil c => simp
  | error g goals c e hm =>
    have he := (hg g (.head _)).meet hPQ h
    rw [hm] at he
    rw [ofGoals_cons_of_error hm]
    exact ⟨by simp, by rintro _ ⟨⟩; exact he⟩
  | ok g goals c s hm ih =>
    have hs := (hg g (.head _)).meet hPQ h
    rw [hm] at hs
    obtain ⟨hactions, hgoals, hcursor⟩ := hs
    obtain ⟨ha, -, hf⟩ := ofGoals_of_meet hm goals
    have hrest := ih (List.forall_mem_append.2
      ⟨hgoals, fun g' hg' => hg g' (.tail _ hg')⟩) hcursor
    rw [ha, hf]
    exact ⟨List.forall_mem_append.2 ⟨hactions, hrest.1⟩, hrest.2⟩

end

/-! ### The slot of a header -/

/-- The header that a session waits to fill in stands where its slot says. -/
def Session.Holds (s : Session) : Prop := ∀ slot ∈ s.slot?, s.listing.holds slot = true

section

variable {l : Listing} {slot : HeaderSlot} {s : Session}

theorem Listing.holds_iff :
    l.holds slot = true
      ↔ ∃ e, l.lines[slot.offset]? = some e ∧ e.instruction.header? = some slot.name := by
  unfold Listing.holds
  cases l.lines[slot.offset]? <;> simp

theorem Listing.holds_emit (h : l.holds slot = true) (i : Instruction) :
    (l.emit i).holds slot = true := by
  obtain ⟨e, he, hname⟩ := Listing.holds_iff.1 h
  obtain ⟨hlt, -⟩ := Array.getElem?_eq_some_iff.1 he
  refine Listing.holds_iff.2 ⟨e, ?_, hname⟩
  rw [Listing.emit, Array.getElem?_push_lt hlt, ← he, Array.getElem?_eq_getElem hlt]

theorem Listing.holds_emitAll (h : l.holds slot = true) (is : List Instruction) :
    (l.emitAll is).holds slot = true := by
  induction is generalizing l with
  | nil => exact h
  | cons i is ih => exact ih (Listing.holds_emit h i)

theorem Session.Holds.emit (h : s.Holds) (code : List Instruction) : (s.emit code).Holds :=
  fun slot hslot => Listing.holds_emitAll (h slot hslot) code

theorem Session.Holds.moveTo (h : s.Holds) (p : Position) : (s.moveTo p).Holds := h

theorem Session.Holds.define (h : s.Holds) (p : Production) (name type : String) (kind : Kind)
    (position : Position) : (s.define p name type kind position).1.Holds := by
  unfold Session.define
  split
  · exact h
  · exact h

theorem Session.Holds.resolve (h : s.Holds) (p : Production) (o : Occurrence)
    {next : Session → Variable → Session} (hnext : ∀ v, (next s v).Holds) :
    (s.resolve p o next).1.Holds := by
  unfold Session.resolve
  split
  · exact hnext _
  · exact h

theorem Session.Holds.call (h : s.Holds) (p : Production) (callee : Callee) (args : UInt16) :
    (s.call p callee args).1.Holds := by
  simp only [Session.call]
  split
  · exact (h.moveTo _).emit _
  · exact h

theorem Session.holds_header (s : Session) (name : String) : (s.header name).Holds := by
  rintro slot ⟨⟩
  refine Listing.holds_iff.2
    ⟨⟨.function (qualified s.className name) 0, s.listing.position⟩, ?_, rfl⟩
  simp [Session.header, Listing.slot, Listing.header, Listing.emit]

/-- A subroutine can always be completed. -/
theorem Session.Holds.complete (h : s.Holds) (locals : UInt16) :
    (s.complete locals).1.Holds ∧ (s.complete locals).2 = none := by
  obtain ⟨scope, listing, outline?, className, - | slot⟩ := s
  · exact ⟨h, rfl⟩
  · have hpatch := listing.snd_patch slot locals
    rw [h slot rfl] at hpatch
    simp only [Session.complete]
    split
    · exact ⟨nofun, rfl⟩
    · rename_i hfail
      rw [hfail] at hpatch
      cases hpatch

theorem Session.Holds.perform (h : s.Holds) (a : Action) : (s.perform a).1.Holds := by
  cases a with
  | enter p | leave p | take t | nameClass name | startSubroutine | mention o => exact h
  | mentionFirst o =>
    simp only [Session.perform]
    split
    · exact h
    · exact h
  | declare p o type kind =>
    have hd := (h.moveTo o.position).define p o.name type kind o.position
    simp only [Session.perform]
    split
    · rename_i t ht
      rw [ht] at hd
      exact hd
    · rename_i t e ht
      rw [ht] at hd
      exact hd
  | declareThis p => exact h.define _ _ _ _ _
  | require p o => exact h.resolve p o fun _ => h
  | load p o | store p o => exact h.resolve p o fun _ => h.emit _
  | loadReceiver o =>
    simp only [Session.perform]
    split
    · exact h.emit _
    · exact h
  | emit code => exact h.emit code
  | emitAt p code => exact (h.moveTo p).emit code
  | call p callee args => exact h.call p callee args
  | header name => exact s.holds_header name
  | preamble role => exact h.emit _
  | complete locals => exact (h.complete locals).1

end

/-! ### The performance -/

/-- Every instruction stands in `P`, and so will the next one. -/
structure Listing.Within (P : Position → Prop) (l : Listing) : Prop where
  lines : ∀ e ∈ l.lines.toList, P e.position
  position : P l.position

section

variable {P Q : Position → Prop} {l : Listing} {s : Session}

theorem Listing.Within.moveTo (h : l.Within P) {p : Position} (hp : P p) : (l.moveTo p).Within P :=
  ⟨h.lines, hp⟩

theorem Listing.Within.emitAll (h : l.Within P) (is : List Instruction) :
    (l.emitAll is).Within P := by
  refine ⟨?_, by rw [Listing.position_emitAll]; exact h.position⟩
  rw [Listing.toList_emitAll, List.forall_mem_append]
  exact ⟨h.lines, List.forall_mem_map.2 fun _ _ => h.position⟩

/-- A header that is filled in stays where it is. -/
theorem Listing.Within.patch (h : l.Within P) (slot : HeaderSlot) (locals : UInt16) :
    (l.patch slot locals).1.Within P := by
  have hposition : (l.patch slot locals).1.position = l.position := by
    unfold Listing.patch
    split <;> rfl
  refine ⟨fun e he => ?_, by rw [hposition]; exact h.position⟩
  obtain ⟨n, hn⟩ := List.mem_iff_getElem?.1 he
  rw [Array.getElem?_toList, Listing.getElem?_patch] at hn
  split at hn
  · obtain ⟨old, hold, rfl⟩ := Option.map_eq_some_iff.1 hn
    exact h.lines old (Array.mem_toList_iff.2 (Array.mem_of_getElem? hold))
  · exact h.lines e (Array.mem_toList_iff.2 (Array.mem_of_getElem? hn))

theorem Session.within_define (h : s.listing.Within P) (p : Production) (name type : String)
    (kind : Kind) {position : Position} (hp : Q position) :
    (s.define p name type kind position).1.listing.Within P
      ∧ ∀ e ∈ (s.define p name type kind position).2, e.Within Q := by
  unfold Session.define
  split
  · exact ⟨h, by simp⟩
  · refine ⟨h, ?_⟩
    rintro _ ⟨⟩
    exact ⟨position, rfl, hp⟩

theorem Session.within_resolve (h : s.listing.Within P) (p : Production) {o : Occurrence}
    (ho : Q o.position) {next : Session → Variable → Session}
    (hnext : ∀ v, (next s v).listing.Within P) :
    (s.resolve p o next).1.listing.Within P ∧ ∀ e ∈ (s.resolve p o next).2, e.Within Q := by
  unfold Session.resolve
  split
  · rename_i v _
    exact ⟨hnext v, by simp⟩
  · refine ⟨h, ?_⟩
    rintro _ ⟨⟩
    exact ⟨o.position, rfl, ho⟩

theorem Session.within_call (h : s.listing.Within P) (p : Production) {callee : Callee}
    (hc : P callee.first.position) (hQ : Q callee.first.position) (args : UInt16) :
    (s.call p callee args).1.listing.Within P ∧ ∀ e ∈ (s.call p callee args).2, e.Within Q := by
  simp only [Session.call]
  split
  · exact ⟨(h.moveTo hc).emitAll _, by simp⟩
  · refine ⟨h, ?_⟩
    rintro _ ⟨⟩
    exact ⟨callee.first.position, rfl, hQ⟩

theorem Session.within_complete (h : s.listing.Within P) (hs : s.Holds) (locals : UInt16) :
    (s.complete locals).1.listing.Within P ∧ ∀ e ∈ (s.complete locals).2, e.Within Q := by
  refine ⟨?_, by simp [(hs.complete locals).2]⟩
  obtain ⟨scope, listing, outline?, className, - | slot⟩ := s
  · exact h
  · have hpatch := Listing.Within.patch h slot locals
    simp only [Session.complete]
    split
    · rename_i patched hl
      rw [hl] at hpatch
      exact hpatch
    · rename_i patched hl
      rw [hl] at hpatch
      exact hpatch

/-- An action emits at the place of the last token read or at a place of its own. -/
theorem Session.within_perform (hPQ : ∀ p, P p → Q p) (h : s.listing.Within P) (hs : s.Holds)
    {a : Action} (ha : a.Within P Q) :
    (s.perform a).1.listing.Within P ∧ ∀ e ∈ (s.perform a).2, e.Within Q := by
  have hmoved : ∀ p, P p → (s.moveTo p).listing.Within P := fun _ hp => h.moveTo hp
  cases a with
  | enter p | leave p | nameClass name | startSubroutine => exact ⟨h, by simp [Session.perform]⟩
  | take t => exact ⟨hmoved _ ha, by simp [Session.perform]⟩
  | mention o => exact ⟨hmoved _ ha, by simp [Session.perform]⟩
  | mentionFirst o =>
    simp only [Session.perform]
    split
    · exact ⟨hmoved _ ha, by simp⟩
    · exact ⟨hmoved _ ha, by simp⟩
  | declare p o type kind =>
    have hd := Session.within_define (hmoved _ ha) p o.name type kind (hPQ _ ha)
    simp only [Session.perform]
    split
    · rename_i t hdefine
      rw [hdefine] at hd
      exact ⟨hd.1, by simp⟩
    · rename_i t e hdefine
      rw [hdefine] at hd
      exact hd
  | declareThis p => exact Session.within_define h _ _ _ _ ha
  | require p o => exact Session.within_resolve h p (hPQ _ ha) fun _ => h
  | load p o | store p o => exact Session.within_resolve h p (hPQ _ ha) fun _ => h.emitAll _
  | loadReceiver o =>
    simp only [Session.perform]
    split
    · exact ⟨h.emitAll _, by simp⟩
    · exact ⟨h, by simp⟩
  | emit code => exact ⟨h.emitAll _, by simp [Session.perform]⟩
  | emitAt p code => exact ⟨(hmoved p ha).emitAll _, by simp [Session.perform]⟩
  | call p callee args => exact Session.within_call h p ha (hPQ _ ha) args
  | header name => exact ⟨h.emitAll [_], by simp [Session.perform]⟩
  | preamble role => exact ⟨h.emitAll _, by simp [Session.perform]⟩
  | complete locals => exact Session.within_complete h hs locals

theorem Session.within_performAll (hPQ : ∀ p, P p → Q p) (h : s.listing.Within P) (hs : s.Holds)
    {actions : List Action} (ha : ∀ a ∈ actions, a.Within P Q) :
    (s.performAll actions).1.listing.Within P ∧ ∀ e ∈ (s.performAll actions).2, e.Within Q := by
  induction actions generalizing s with
  | nil => exact ⟨h, by simp⟩
  | cons a actions ih =>
    obtain ⟨haction, hactions⟩ := List.forall_mem_cons.1 ha
    have hstep := Session.within_perform hPQ h hs haction
    have hnext := hs.perform a
    rw [Session.performAll_cons]
    split
    · rename_i t ht
      rw [ht] at hstep hnext
      exact ih hstep.1 hnext hactions
    · rename_i t e ht
      rw [ht] at hstep
      exact hstep

end

/-! ### A whole text -/

/-- The first token is read before anything can be emitted. -/
theorem Script.actions_ofTokens (stream : TokenStream) :
    (ofTokens stream).actions.toList = [.enter .class_]
      ∨ ∃ t ∈ stream.tokens, ∃ more,
        (ofTokens stream).actions.toList = .enter .class_ :: .take t :: more := by
  obtain ⟨tokens, finish⟩ := stream
  have henter : (ofTokens ⟨tokens, finish⟩).actions.toList = .enter .class_
      :: (ofGoals classGoals.tail ⟨tokens, finish, 0⟩ #[]).actions.toList :=
    (ofGoals_of_meet (g := .due (.enter .class_)) rfl classGoals.tail).1
  rw [henter]
  rcases tokens with - | ⟨t, rest⟩
  · have hm : Goal.classWord.meet ⟨[], finish, 0⟩
        = .error (Cursor.badSyntax ⟨[], finish, 0⟩ .class_ [.keyword .class_]) := rfl
    exact Or.inl (by rw [classGoals, List.tail_cons, ofGoals_cons_of_error hm])
  · by_cases ht : t.lexeme = .keyword .class_
    · have hm : Goal.classWord.meet ⟨t :: rest, finish, 0⟩
          = .ok ⟨[.take t], [], ⟨rest, finish, 0⟩⟩ := by
        rw [Goal.meet, Cursor.read?_cons_of_eq ht]
      exact Or.inr ⟨t, .head _, _, congrArg _ (ofGoals_of_meet hm _).1⟩
    · have hm : Goal.classWord.meet ⟨t :: rest, finish, 0⟩
          = .error (Cursor.badSyntax ⟨t :: rest, finish, 0⟩ .class_ [.keyword .class_]) := by
        rw [Goal.meet, Cursor.read?_cons_of_ne ht]
      exact Or.inl (by rw [classGoals, List.tail_cons, ofGoals_cons_of_error hm])

namespace TokenStream

variable {stream : TokenStream} {outlined : Bool} {e : CompileError} {line : Emitted} {p : Position}

theorem within_compile {P Q : Position → Prop} (hPQ : ∀ p, P p → Q p)
    (htokens : ∀ t ∈ stream.tokens, P t.position) (hfinish : Q stream.finish) :
    (∀ line ∈ (stream.compile outlined).instructions, P line.position)
      ∧ ∀ e ∈ (stream.compile outlined).error?, e.Within Q := by
  have hgoals : ∀ g ∈ classGoals, g.Within P Q := by
    simp [classGoals, Goal.Within, Action.Within]
  obtain ⟨hactions, hfault⟩ := Script.within_ofGoals (c := ⟨stream.tokens, stream.finish, 0⟩) hPQ
    hgoals ⟨htokens, hfinish⟩
  change ∀ a ∈ (Script.ofTokens stream).actions.toList, a.Within P Q at hactions
  change ∀ e ∈ (Script.ofTokens stream).fault?, e.Within Q at hfault
  have hrun : (∀ line ∈ ((Session.initial outlined).performAll
        (Script.ofTokens stream).actions.toList).1.listing.lines.toList, P line.position)
      ∧ ∀ e ∈ ((Session.initial outlined).performAll
        (Script.ofTokens stream).actions.toList).2, e.Within Q := by
    rcases Script.actions_ofTokens stream with h | ⟨t, more, ht, h⟩
    · rw [h]
      exact ⟨by simp [Session.perform, Session.performAll, Session.initial, Session.note,
        Listing.empty], by simp [Session.perform, Session.performAll]⟩
    · rw [h] at hactions ⊢
      obtain ⟨-, htake, hmore⟩ := by simpa only [List.forall_mem_cons] using hactions
      let start := (((Session.initial outlined).note (.enter Production.class_.name)).moveTo
        t.position).note (.leaf t.lexeme)
      have hstart : start.listing.Within P := ⟨by simp [start, Session.note, Session.moveTo,
        Session.initial, Listing.empty, Listing.moveTo], htake⟩
      obtain ⟨hlisting, herror⟩ := Session.within_performAll hPQ hstart nofun hmore
      exact ⟨hlisting.lines, herror⟩
  rw [compile, Script.compile]
  cases hp : (Session.initial outlined).performAll (Script.ofTokens stream).actions.toList with
  | mk s e? =>
    rw [hp] at hrun
    cases e? with
    | none => exact ⟨hrun.1, hfault⟩
    | some e => exact hrun

/-- Every instruction stands for a token of the text. -/
theorem exists_token_of_instruction (h : line ∈ (stream.compile outlined).instructions) :
    ∃ t ∈ stream.tokens, t.position = line.position := by
  have htokens : ∀ t ∈ stream.tokens, ∃ u ∈ stream.tokens, u.position = t.position :=
    fun t ht => ⟨t, ht, rfl⟩
  exact (within_compile (P := fun p => ∃ t ∈ stream.tokens, t.position = p) (Q := fun _ => True)
    (fun _ _ => trivial) htokens trivial).1 line h

/-- Every error stands at a token or at the end of the text. -/
theorem exists_found_of_error (h : (stream.compile outlined).error? = some e) :
    ∃ x ∈ stream.founds, e.position? = some x.position := by
  have htokens : ∀ t ∈ stream.tokens, ∃ x ∈ stream.founds, x.position = t.position := by
    intro t ht
    exact ⟨t.found, List.mem_append_left _ (List.mem_map_of_mem ht), rfl⟩
  have hfinish : ∃ x ∈ stream.founds, x.position = stream.finish :=
    ⟨⟨none, stream.finish⟩, List.mem_append_right _ (.head _), rfl⟩
  obtain ⟨_, hp, x, hx, rfl⟩ := (within_compile (Q := fun p => ∃ x ∈ stream.founds, x.position = p)
    (fun _ h => h) htokens hfinish).2 e h
  exact ⟨x, hx, hp⟩

end TokenStream

end Jack
