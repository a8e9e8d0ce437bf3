import Mathlib.Data.List.Nodup
import Jack.Proofs.Passes
import Jack.Proofs.Phases
import Jack.Proofs.Writing

/-! The lines of a subroutine and the tokens that they stand for. Every line stands for a token of
the subroutine; a line that stands for an operator is the instruction of that operator, and there is
one such line for each operator that does not wait. -/

namespace Jack

/-! ### Lines that stand for operators -/

/-- The lines that operators are due, in the order of the operators. -/
def operatorLines (rs : List Reading) : List Emitted :=
  rs.filterMap fun r => r.operator?.map fun i => ⟨i, r.token.position⟩

/-- An operator stands at the place. -/
def atOperator (rs : List Reading) (p : Position) : Bool :=
  (operatorLines rs).any fun e => e.position = p

/-- No two tokens stand at one place. -/
def Distinct (rs : List Reading) : Prop := (rs.map fun r => r.token.position).Nodup

/-- The lines stand for tokens that were read, and hold each operator once, but for those that
wait. -/
structure Accounted (rs : List Reading) (waiting lines : List Emitted) : Prop where
  places : ∀ e ∈ lines, ∃ r ∈ rs, r.token.position = e.position
  headless : ∀ e ∈ lines, e.instruction.header? = none
  operators : (operatorLines rs).Perm (waiting ++ lines.filter fun e => atOperator rs e.position)

section

variable {rs : List Reading} {p : Position} {i : Instruction} {t : Token}
  {waiting lines : List Emitted}

theorem mem_operatorLines {e : Emitted} :
    e ∈ operatorLines rs
      ↔ ∃ r ∈ rs, r.operator? = some e.instruction ∧ r.token.position = e.position := by
  obtain ⟨i, p⟩ := e
  simp only [operatorLines, List.mem_filterMap, Option.map_eq_some_iff, Emitted.mk.injEq]
  constructor
  · rintro ⟨r, hr, i, hi, rfl, rfl⟩
    exact ⟨r, hr, hi, rfl⟩
  · rintro ⟨r, hr, hi, rfl⟩
    exact ⟨r, hr, i, hi, rfl, rfl⟩

theorem IsPlain.atOperator_eq_false (h : IsPlain rs p) (hd : Distinct rs) :
    atOperator rs p = false := by
  obtain ⟨t, ht, rfl⟩ := h
  rw [atOperator, List.any_eq_false]
  intro e he hp
  obtain ⟨r, hr, hi, hposition⟩ := mem_operatorLines.1 he
  have hsame : r = ⟨t, none⟩ :=
    List.inj_on_of_nodup_map hd hr ht (hposition.trans (of_decide_eq_true hp))
  rw [hsame] at hi
  cases hi

@[simp] theorem operatorLines_concat_none (rs : List Reading) (t : Token) :
    operatorLines (rs ++ [⟨t, none⟩]) = operatorLines rs := by
  simp [operatorLines]

@[simp] theorem operatorLines_concat_some (rs : List Reading) (t : Token) (i : Instruction) :
    operatorLines (rs ++ [⟨t, some i⟩]) = operatorLines rs ++ [⟨i, t.position⟩] := by
  simp [operatorLines]

/-- The operators among distinct tokens stand at distinct places. -/
theorem Distinct.operatorLines (hd : Distinct rs) :
    ((operatorLines rs).map Emitted.position).Nodup := by
  have hsublist : ((Jack.operatorLines rs).map Emitted.position).Sublist
      (rs.map fun r => r.token.position) := by
    clear hd
    induction rs with
    | nil => exact .slnil
    | cons r rs ih =>
      obtain ⟨t, - | i⟩ := r
      · exact ih.cons _
      · exact ih.cons_cons _
  exact hsublist.nodup hd

namespace Accounted

theorem nil : Accounted [] [] [] :=
  ⟨List.forall_mem_nil _, List.forall_mem_nil _, .nil⟩

theorem read_plain (h : Accounted rs waiting lines) (t : Token) :
    Accounted (rs ++ [⟨t, none⟩]) waiting lines := by
  refine ⟨?_, h.headless, ?_⟩
  · intro e he
    obtain ⟨r, hr, hp⟩ := h.places e he
    exact ⟨r, List.mem_append_left _ hr, hp⟩
  · have hsame : atOperator (rs ++ [⟨t, none⟩]) = atOperator rs := by
      funext p
      rw [atOperator, operatorLines_concat_none, atOperator]
    rw [operatorLines_concat_none, hsame]
    exact h.operators

theorem read_operator (h : Accounted rs waiting lines)
    (hfresh : t.position ∉ rs.map fun r => r.token.position) (i : Instruction) :
    Accounted (rs ++ [⟨t, some i⟩]) (⟨i, t.position⟩ :: waiting) lines := by
  refine ⟨?_, h.headless, ?_⟩
  · intro e he
    obtain ⟨r, hr, hp⟩ := h.places e he
    exact ⟨r, List.mem_append_left _ hr, hp⟩
  · have hsame : ∀ e ∈ lines,
        atOperator (rs ++ [⟨t, some i⟩]) e.position = atOperator rs e.position := by
      intro e he
      obtain ⟨r, hr, hp⟩ := h.places e he
      have hne : t.position ≠ e.position := by
        rw [← hp]
        intro heq
        exact hfresh (heq ▸ List.mem_map_of_mem hr)
      simp [atOperator, hne]
    rw [operatorLines_concat_some, List.filter_congr hsame]
    exact List.perm_append_singleton _ _ |>.trans (h.operators.cons _)

/-- Lines at a place where no operator stands. -/
theorem emit (h : Accounted rs waiting lines) (hp : IsPlain rs p) (hd : Distinct rs)
    {code : List Instruction} (hcode : Headless code) :
    Accounted rs waiting (lines ++ code.map fun i => ⟨i, p⟩) := by
  refine ⟨List.forall_mem_append.2 ⟨h.places, ?_⟩, List.forall_mem_append.2 ⟨h.headless, ?_⟩, ?_⟩
  · obtain ⟨t, ht, rfl⟩ := hp
    exact List.forall_mem_map.2 fun i _ => ⟨_, ht, rfl⟩
  · exact List.forall_mem_map.2 hcode
  · have hnone : (code.map fun i => (⟨i, p⟩ : Emitted)).filter
        (fun e => atOperator rs e.position) = [] := by
      rw [List.filter_eq_nil_iff]
      intro e he
      obtain ⟨i, -, rfl⟩ := List.mem_map.1 he
      simp [hp.atOperator_eq_false hd]
    rw [List.filter_append, hnone, List.append_nil]
    exact h.operators

/-- The first of the waiting lines, at its operator. -/
theorem emitAt (h : Accounted rs (⟨i, p⟩ :: waiting) lines) (hi : i.header? = none) :
    Accounted rs waiting (lines ++ [⟨i, p⟩]) := by
  have hmem : ⟨i, p⟩ ∈ operatorLines rs := h.operators.mem_iff.2 (.head _)
  obtain ⟨r, hr, -, hposition⟩ := mem_operatorLines.1 hmem
  have hat : atOperator rs p = true := List.any_eq_true.2 ⟨_, hmem, by simp⟩
  refine ⟨List.forall_mem_append.2 ⟨h.places, ?_⟩, List.forall_mem_append.2 ⟨h.headless, ?_⟩, ?_⟩
  · exact List.forall_mem_singleton.2 ⟨r, hr, hposition⟩
  · exact List.forall_mem_singleton.2 hi
  · rw [List.filter_append, List.filter_cons_of_pos (by simpa using hat), List.filter_nil,
      ← List.append_assoc]
    exact h.operators.trans (List.perm_append_singleton _ _).symm

/-- Once no operator waits, one line stands for each. -/
theorem filter_eq_of_mem (h : Accounted rs [] lines) (hd : Distinct rs)
    (hr : ⟨t, some i⟩ ∈ rs) :
    lines.filter (fun e => e.position = t.position) = [⟨i, t.position⟩] := by
  have hmem : ⟨i, t.position⟩ ∈ operatorLines rs := mem_operatorLines.2 ⟨_, hr, rfl, rfl⟩
  have hlines : (lines.filter fun e => atOperator rs e.position).filter
      (fun e => e.position = t.position) = lines.filter fun e => e.position = t.position := by
    rw [List.filter_filter]
    apply List.filter_congr
    intro e _
    by_cases he : e.position = t.position
    · have hat : atOperator rs e.position = true :=
        List.any_eq_true.2 ⟨_, hmem, by simp [he]⟩
      simp [he ▸ hat, he]
    · simp [he]
  have hsingle : (operatorLines rs).filter (fun e => e.position = t.position)
      = [⟨i, t.position⟩] := by
    have hsame : ∀ e ∈ operatorLines rs,
        decide (e.position = t.position) = decide (e = ⟨i, t.position⟩) := by
      intro e he
      have hinj := List.inj_on_of_nodup_map hd.operatorLines he hmem
      exact decide_eq_decide.2 ⟨hinj, fun h => by rw [h]⟩
    rw [List.filter_congr hsame, List.filter_eq,
      List.count_eq_one_of_mem (List.Nodup.of_map _ hd.operatorLines) hmem, List.replicate_one]
  have hperm := h.operators.filter fun e => decide (e.position = t.position)
  rw [hsingle, List.nil_append, hlines] at hperm
  exact (List.singleton_perm.1 hperm).symm

end Accounted

end

/-! ### Sessions that follow a trail -/

/-- What a session has listed of a subroutine behind the lines `old`: nothing before the header, and
then the header and these lines. -/
def Session.Lists (s : Session) (old : List Emitted) (k : String) (rs : List Reading)
    (lines : List Emitted) : Option String → Prop
  | none => lines = [] ∧ s.listing.lines.toList = old
  | some name => HasName rs name ∧ (∀ slot ∈ s.slot?, slot = ⟨old.length, qualified k name⟩)
      ∧ ∃ locals p, IsPlain rs p
        ∧ s.listing.lines.toList = old ++ ⟨.function (qualified k name) locals, p⟩ :: lines

/-- A session that is where a trail leads, in a subroutine of the class `k`. -/
structure Session.Follows (s : Session) (old : List Emitted) (k : String) (tr : Trail) : Prop where
  className : s.className = k
  place : s.listing.position = tr.place
  distinct : Distinct tr.readings
  lines : ∃ lines, Accounted tr.readings tr.waiting lines
    ∧ s.Lists old k tr.readings lines tr.name?

namespace Session.Follows

section

variable {s t : Session} {old : List Emitted} {k : String} {tr : Trail}

/-- A session with the same listing. -/
theorem keep (h : s.Follows old k tr) (hclass : t.className = s.className)
    (hslot : t.slot? = s.slot?) (hlisting : t.listing = s.listing) (edge? : Option Edge) :
    t.Follows old k { tr with edge? := edge? } := by
  obtain ⟨lines, haccounted, hlists⟩ := h.lines
  refine ⟨hclass.trans h.className, by rw [hlisting]; exact h.place, h.distinct, lines, haccounted,
    ?_⟩
  cases hname : tr.name? with
  | none =>
    rw [hname] at hlists
    exact ⟨hlists.1, by rw [hlisting]; exact hlists.2⟩
  | some name =>
    rw [hname] at hlists
    obtain ⟨hhas, hslots, hlines⟩ := hlists
    exact ⟨hhas, by rw [hslot]; exact hslots, by rw [hlisting]; exact hlines⟩

/-- A session that has moved on to another token. -/
theorem read (h : s.Follows old k tr) {token : Token}
    (hfresh : token.position ∉ tr.readings.map fun r => r.token.position)
    (hclass : t.className = s.className) (hslot : t.slot? = s.slot?)
    (hlisting : t.listing = s.listing.moveTo token.position) :
    t.Follows old k (tr.read token) := by
  obtain ⟨lines, haccounted, hlists⟩ := h.lines
  have hdistinct : ∀ operator?, Distinct (tr.readings ++ [⟨token, operator?⟩]) := by
    intro operator?
    rw [Distinct, List.map_append, List.nodup_append]
    refine ⟨h.distinct, List.nodup_singleton _, ?_⟩
    rintro p hp q hq rfl
    obtain rfl := List.mem_singleton.1 hq
    exact hfresh hp
  have hlists' : ∀ operator?,
      t.Lists old k (tr.readings ++ [⟨token, operator?⟩]) lines tr.name? := by
    intro operator?
    cases hname : tr.name? with
    | none =>
      rw [hname] at hlists
      exact ⟨hlists.1, by rw [hlisting]; exact hlists.2⟩
    | some name =>
      rw [hname] at hlists
      obtain ⟨hhas, hslots, locals, p, hp, hlines⟩ := hlists
      exact ⟨hhas.append _, by rw [hslot]; exact hslots, locals, p, hp.append _,
        by rw [hlisting]; exact hlines⟩
  have hplace : t.listing.position = token.position := by rw [hlisting]; rfl
  rw [Trail.read]
  split
  · rename_i i _
    exact ⟨hclass.trans h.className, hplace, hdistinct _, lines, haccounted.read_operator hfresh i,
      hlists' _⟩
  · exact ⟨hclass.trans h.className, hplace, hdistinct _, lines, haccounted.read_plain token,
      hlists' _⟩

/-- A session that has emitted lines at a place, once the header is there. -/
theorem emitted (h : s.Follows old k tr) (hname : tr.name?.isSome) {p : Position}
    {code : List Instruction} {waiting : List Emitted}
    (haccounted : ∀ lines, Accounted tr.readings tr.waiting lines →
      Accounted tr.readings waiting (lines ++ code.map fun i => ⟨i, p⟩))
    (hclass : t.className = s.className) (hslot : t.slot? = s.slot?)
    (hlisting : t.listing = (s.listing.moveTo p).emitAll code) :
    t.Follows old k ⟨tr.name?, tr.readings, none, p, waiting⟩ := by
  obtain ⟨lines, hlines, hlists⟩ := h.lines
  refine ⟨hclass.trans h.className, by simp [hlisting], h.distinct, _, haccounted _ hlines, ?_⟩
  obtain ⟨name, hsome⟩ := Option.isSome_iff_exists.1 hname
  rw [hsome] at hlists ⊢
  obtain ⟨hhas, hslots, locals, q, hq, hold⟩ := hlists
  refine ⟨hhas, by rw [hslot]; exact hslots, locals, q, hq, ?_⟩
  rw [hlisting, Listing.toList_emitAll, Listing.lines_moveTo, hold, Listing.position_moveTo]
  simp

theorem emit (h : s.Follows old k tr) (hname : tr.name?.isSome)
    (hplain : IsPlain tr.readings tr.place) {code : List Instruction} (hcode : Headless code) :
    (s.emit code).Follows old k { tr with edge? := none } := by
  refine h.emitted hname (fun lines hl => hl.emit hplain h.distinct hcode) rfl rfl ?_
  rw [← h.place]
  rfl

theorem header (h : s.Follows old k tr) (hname : tr.name? = none)
    (hplain : IsPlain tr.readings tr.place) {name : String} (hhas : HasName tr.readings name) :
    (s.header name).Follows old k { tr with edge? := none, name? := some name } := by
  obtain ⟨lines, hlines, hlists⟩ := h.lines
  rw [hname] at hlists
  obtain ⟨rfl, hold⟩ := hlists
  refine ⟨h.className, h.place, h.distinct, [], hlines, hhas, ?_, 0, tr.place, hplain, ?_⟩
  · rintro slot ⟨⟩
    simp [Listing.slot, ← hold, h.className]
  · simp [Session.header, Listing.header, Listing.slot, hold, h.place, h.className]

theorem complete (h : s.Follows old k tr) (hname : tr.name?.isSome) (locals : UInt16) :
    (s.complete locals).1.Follows old k { tr with edge? := none } := by
  cases hslot : s.slot? with
  | none =>
    obtain ⟨scope, listing, outline?, className, slot?⟩ := s
    obtain rfl : slot? = none := hslot
    exact h.keep rfl rfl rfl none
  | some slot =>
    obtain ⟨lines, hlines, hlists⟩ := h.lines
    obtain ⟨name, hsome⟩ := Option.isSome_iff_exists.1 hname
    rw [hsome] at hlists
    obtain ⟨hhas, hslots, before, q, hq, hold⟩ := hlists
    obtain rfl := hslots slot hslot
    have hholds : s.listing.holds ⟨old.length, qualified k name⟩ = true := by
      refine Listing.holds_iff.2 ⟨⟨.function (qualified k name) before, q⟩, ?_, rfl⟩
      rw [← Array.getElem?_toList, hold]
      simp
    rw [Session.complete_of_holds hslot hholds]
    refine ⟨h.className, Listing.position_patch.trans h.place, h.distinct, lines, hlines, ?_⟩
    rw [hsome]
    refine ⟨hhas, by simp, locals, q, hq, ?_⟩
    rw [Listing.patch, if_pos hholds, Array.toList_modify, hold, List.modify_eq_take_drop]
    simp

/-- To perform an action leads on along the trail. -/
theorem perform (h : s.Follows old k tr) {a : Action} (ha : tr.Allows a)
    (hfresh : ∀ token ∈ a.read?, token.position ∉ tr.readings.map fun r => r.token.position)
    (hp : s.perform a = (t, none)) : t.Follows old k (tr.after a) := by
  cases a with
  | nameClass name => cases ha
  | enter p | leave p | startSubroutine =>
    cases hp
    refine h.keep ?_ ?_ ?_ _ <;> rfl
  | take token =>
    cases hp
    exact h.read (hfresh _ rfl) rfl rfl rfl
  | mention o =>
    cases hp
    exact h.read (hfresh _ rfl) rfl rfl rfl
  | mentionFirst o =>
    simp only [Session.perform] at hp
    split at hp <;> cases hp <;> exact h.read (hfresh _ rfl) rfl rfl rfl
  | declare p o type kind =>
    simp only [Session.perform, Session.define] at hp
    split at hp
    · rename_i u hdefine
      cases hp
      split at hdefine
      · cases hdefine
        exact h.read (hfresh _ rfl) rfl rfl rfl
      · cases hdefine
    · cases hp
  | declareThis p =>
    simp only [Session.perform, Session.define] at hp
    split at hp <;> cases hp
    refine h.keep ?_ ?_ ?_ none <;> rfl
  | require p o =>
    simp only [Session.perform, Session.resolve] at hp
    split at hp <;> cases hp
    exact h.keep rfl rfl rfl none
  | load p o | store p o =>
    simp only [Session.perform, Session.resolve] at hp
    split at hp <;> cases hp
    exact h.emit ha.1 ha.2 (.cons rfl .nil)
  | loadReceiver o =>
    simp only [Session.perform] at hp
    split at hp <;> cases hp
    · exact h.emit ha.1 ha.2 (.cons rfl .nil)
    · exact h.keep rfl rfl rfl none
  | emit code =>
    cases hp
    exact h.emit ha.1 ha.2.1 ha.2.2
  | emitAt p code =>
    cases hp
    obtain ⟨hname, i, owed, rfl, hi, hw⟩ := ha
    have haccounted : ∀ lines, Accounted tr.readings tr.waiting lines →
        Accounted tr.readings tr.waiting.tail (lines ++ [i].map fun i => ⟨i, p⟩) := by
      intro lines hl
      rw [hw] at hl ⊢
      exact hl.emitAt hi
    exact h.emitted hname haccounted rfl rfl rfl
  | call p callee args =>
    simp only [Session.perform, Session.call] at hp
    split at hp <;> cases hp
    exact h.emitted ha.1 (fun lines hl => hl.emit ha.2 h.distinct (.cons rfl .nil)) rfl rfl rfl
  | header name =>
    cases hp
    exact h.header ha.1 ha.2.1 ha.2.2
  | preamble role =>
    cases hp
    refine h.emit ha.1 ha.2 ?_
    cases role <;> exact headless_of_all rfl
  | complete locals =>
    have hcomplete := h.complete ha locals
    rw [show s.complete locals = (t, none) from hp] at hcomplete
    exact hcomplete

end

end Session.Follows

/-- An action that cannot be performed emits nothing. -/
theorem Session.lines_of_fail {s t : Session} {a : Action} {e : CompileError}
    (hp : s.perform a = (t, some e)) : t.listing.lines = s.listing.lines := by
  cases a with
  | enter p | leave p | startSubroutine | take token | mention o | nameClass name | emit code
  | emitAt p code | header name | preamble role => cases hp
  | mentionFirst o | loadReceiver o =>
    simp only [Session.perform] at hp
    split at hp <;> cases hp
  | declare p o type kind =>
    simp only [Session.perform, Session.define] at hp
    split at hp
    · cases hp
    · rename_i u e hdefine
      cases hp
      split at hdefine
      · cases hdefine
      · cases hdefine
        rfl
  | declareThis p =>
    simp only [Session.perform, Session.define] at hp
    split at hp <;> cases hp
    rfl
  | require p o | load p o | store p o =>
    simp only [Session.perform, Session.resolve] at hp
    split at hp <;> cases hp
    rfl
  | call p callee args =>
    simp only [Session.perform, Session.call] at hp
    split at hp <;> cases hp
    rfl
  | complete locals =>
    obtain ⟨scope, listing, outline?, className, - | slot⟩ := s
    · cases hp
    · cases hholds : listing.holds slot with
      | true =>
        rw [Session.perform, Session.complete_of_holds rfl hholds] at hp
        cases hp
      | false =>
        rw [Session.perform, Session.complete_of_not_holds rfl hholds] at hp
        cases hp
        rfl

/-- A session has listed what the tokens of a subroutine, or the first of them, account for. -/
def Session.Leaves (s : Session) (old : List Emitted) (k : String) (ts : List Token) : Prop :=
  ∃ t tr, Session.Follows t old k tr ∧ s.listing.lines = t.listing.lines ∧ tr.tokens <+: ts

section

variable {s t : Session} {old : List Emitted} {k : String} {tr : Trail} {as : List Action}

theorem Session.Follows.leaves (h : s.Follows old k tr) {ts : List Token} (hts : tr.tokens <+: ts) :
    s.Leaves old k ts :=
  ⟨s, tr, h, rfl, hts⟩

/-- The tokens read up to the first action that cannot be performed. -/
theorem Session.take_consumed_cons (s : Session) (a : Action) (as : List Action) :
    (tokensRead (a :: as)).take (s.consumed (a :: as))
      = a.read?.toList ++ match s.perform a with
        | (t, none) => (tokensRead as).take (t.consumed as)
        | (_, some _) => [] := by
  have hlength : a.read?.toList.length = a.reads := by cases a <;> rfl
  rw [tokensRead_cons, Session.consumed]
  rcases s.perform a with ⟨t, - | e⟩
  · simp only [← hlength, List.take_length_add_append]
  · simp only [← hlength, List.take_left, List.append_nil]

/-- By induction on the actions, up to one that cannot be performed. -/
theorem Session.Follows.performAll (h : s.Follows old k tr) (ha : tr.AllowsAll as)
    (hd : ((tr.tokens ++ tokensRead as).map Token.position).Nodup) :
    match s.performAll as with
    | (t, none) => t.Follows old k (tr.afterAll as)
    | (t, some _) => t.Leaves old k (tr.tokens ++ (tokensRead as).take (s.consumed as)) := by
  induction as generalizing s tr with
  | nil => exact h
  | cons a as ih =>
    obtain ⟨ha, has⟩ := ha
    rw [tokensRead_cons, ← List.append_assoc, ← Trail.tokens_after] at hd
    have hfresh : ∀ token ∈ a.read?,
        token.position ∉ tr.readings.map fun r => r.token.position := by
      intro token htoken hmem
      rw [List.map_append, Trail.tokens_after, List.map_append] at hd
      have hdisjoint := (List.nodup_append.1 (List.nodup_append.1 hd).1).2.2
      refine hdisjoint token.position ?_ token.position ?_ rfl
      · simpa [Trail.tokens] using hmem
      · exact List.mem_map_of_mem (Option.mem_toList.2 htoken)
    rw [Session.performAll_cons, Session.take_consumed_cons, ← List.append_assoc,
      ← Trail.tokens_after]
    cases hp : s.perform a with
    | mk t error? =>
      cases error? with
      | none => exact ih (h.perform ha hfresh hp) has hd
      | some e =>
        refine ⟨s, tr, h, Session.lines_of_fail hp, ?_⟩
        rw [List.append_nil, Trail.tokens_after]
        exact List.prefix_append _ _

end

end Jack
