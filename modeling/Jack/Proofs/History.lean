import Mathlib.Data.List.DropRight
import Jack.Proofs.Declarations
import Jack.Session

/-! The history of a scope. What a scope knows is what the calls on it that succeeded tell: a name
stands for its latest declaration, and an index counts the declarations before it. So no two names
share a word of storage. -/

namespace Jack

/-- A call that changes a scope. -/
inductive ScopeCall where
  | startSubroutine
  | define (d : Declared)
  deriving DecidableEq, Repr

/-- The scope after a call, unless it refuses the call. -/
def Scope.call? (s : Scope) : ScopeCall → Option Scope
  | .startSubroutine => some s.startSubroutine
  | .define d => s.define? d.name d.type d.kind

/-- A scope, and the calls on it that succeeded, the latest one last. -/
structure History where
  scope : Scope
  calls : List ScopeCall

namespace History

def empty : History := ⟨.empty, []⟩

/-- A call that is refused changes nothing. -/
def after (h : History) (c : ScopeCall) : History :=
  match h.scope.call? c with
  | some s => ⟨s, h.calls ++ [c]⟩
  | none => h

/-- The history of a fresh scope on which the calls are tried in order. -/
def ofCalls (calls : List ScopeCall) : History := calls.foldl after empty

theorem ofCalls_concat (calls : List ScopeCall) (c : ScopeCall) :
    ofCalls (calls ++ [c]) = (ofCalls calls).after c := by
  simp [ofCalls]

end History

/-! ### What the calls tell -/

def ScopeCall.declares (kind : Kind) : ScopeCall → Bool
  | .startSubroutine => false
  | .define d => d.kind = kind

/-- The calls in the lifetime of a kind. Where a subroutine starts, the arguments and locals before
are forgotten. -/
def lifetime (kind : Kind) (calls : List ScopeCall) : List ScopeCall :=
  if kind.ofClass then calls else calls.rtakeWhile (· ≠ .startSubroutine)

/-- How many variables of the kind are declared in its lifetime. -/
def declarations (kind : Kind) (calls : List ScopeCall) : Nat :=
  (lifetime kind calls).countP (·.declares kind)

/-- The call hides the variables of the name, those of the class or those of the subroutine at
hand. -/
def ScopeCall.Hides (ofClass : Bool) (name : String) : ScopeCall → Prop
  | .startSubroutine => ofClass = false
  | .define d => d.name = name ∧ d.kind.ofClass = ofClass

/-- The variable is that of the latest declaration of its name, among those of the class or among
those of the subroutine at hand. Its index counts the declarations of its kind before. -/
def IsLatest (calls : List ScopeCall) (ofClass : Bool) (v : Variable) : Prop :=
  v.kind.ofClass = ofClass ∧ ∃ before after,
    calls = before ++ .define ⟨v.name, v.type, v.kind⟩ :: after
      ∧ v.index.toNat = declarations v.kind before
      ∧ ∀ c ∈ after, ¬c.Hides ofClass v.name

@[simp] theorem lifetime_nil (kind : Kind) : lifetime kind [] = [] := by
  cases kind <;> rfl

theorem lifetime_start (kind : Kind) (calls : List ScopeCall) :
    lifetime kind (calls ++ [.startSubroutine])
      = if kind.ofClass then calls ++ [.startSubroutine] else [] := by
  cases hk : kind.ofClass <;> simp [lifetime, hk]

theorem lifetime_define (kind : Kind) (calls : List ScopeCall) (d : Declared) :
    lifetime kind (calls ++ [.define d]) = lifetime kind calls ++ [.define d] := by
  cases hk : kind.ofClass <;> simp [lifetime, hk]

@[simp] theorem declarations_nil (kind : Kind) : declarations kind [] = 0 := by
  rw [declarations, lifetime_nil, List.countP_nil]

theorem declarations_start (kind : Kind) (calls : List ScopeCall) :
    declarations kind (calls ++ [.startSubroutine])
      = if kind.ofClass then declarations kind calls else 0 := by
  rw [declarations, lifetime_start]
  cases hk : kind.ofClass <;> simp [declarations, lifetime, hk, ScopeCall.declares]

theorem declarations_define (kind : Kind) (calls : List ScopeCall) (d : Declared) :
    declarations kind (calls ++ [.define d])
      = declarations kind calls + if d.kind = kind then 1 else 0 := by
  rw [declarations, lifetime_define, List.countP_append]
  simp [declarations, ScopeCall.declares]

/-- A declaration counts as long as its kind lives. -/
theorem declarations_lt {before after : List ScopeCall} {d : Declared}
    (h : d.kind.ofClass = false → .startSubroutine ∉ after) :
    declarations d.kind before < declarations d.kind (before ++ .define d :: after) := by
  induction after using List.reverseRecOn with
  | nil =>
    rw [declarations_define, if_pos rfl]
    exact Nat.lt_succ_self _
  | append_singleton after c ih =>
    have hlt := ih fun hk hmem => h hk (List.mem_append_left _ hmem)
    rw [← List.cons_append, ← List.append_assoc]
    cases c with
    | startSubroutine =>
      cases hk : d.kind.ofClass with
      | true => rwa [declarations_start, if_pos hk]
      | false => exact absurd (by simp) (h hk)
    | define e =>
      rw [declarations_define]
      exact Nat.lt_add_right _ hlt

/-- Two declarations of a kind that lives have different indices. -/
theorem declarations_ne {before after before' after' : List ScopeCall} {d e : Declared}
    (h : before ++ .define d :: after = before' ++ .define e :: after') (hkind : d.kind = e.kind)
    (hne : d ≠ e) (halive : d.kind.ofClass = false → .startSubroutine ∉ after)
    (halive' : d.kind.ofClass = false → .startSubroutine ∉ after') :
    declarations d.kind before ≠ declarations d.kind before' := by
  rcases List.append_eq_append_iff.1 h with ⟨between, rfl, hrest⟩ | ⟨between, rfl, hrest⟩
  · rcases List.cons_eq_append_iff.1 hrest with ⟨rfl, hsame⟩ | ⟨between, rfl, rfl⟩
    · cases hsame
      exact absurd rfl hne
    · exact Nat.ne_of_lt
        (declarations_lt fun hk hmem => halive hk (List.mem_append_left _ hmem))
  · rcases List.cons_eq_append_iff.1 hrest with ⟨rfl, hsame⟩ | ⟨between, rfl, rfl⟩
    · cases hsame
      exact absurd rfl hne
    · rw [hkind] at halive' ⊢
      exact Nat.ne_of_gt
        (declarations_lt fun hk hmem => halive' hk (List.mem_append_left _ hmem))

/-- What one more call changes: it may be the latest declaration itself, or hide it. -/
theorem isLatest_concat {calls : List ScopeCall} {c : ScopeCall} {ofClass : Bool} {v : Variable} :
    IsLatest (calls ++ [c]) ofClass v
      ↔ (c = .define ⟨v.name, v.type, v.kind⟩ ∧ v.kind.ofClass = ofClass
          ∧ v.index.toNat = declarations v.kind calls)
        ∨ (IsLatest calls ofClass v ∧ ¬c.Hides ofClass v.name) := by
  constructor
  · rintro ⟨hclass, before, after, hcalls, hindex, hhides⟩
    rcases List.eq_nil_or_concat after with rfl | ⟨after, last, rfl⟩
    · obtain ⟨rfl, hc⟩ := List.append_inj' hcalls rfl
      exact Or.inl ⟨List.singleton_inj.1 hc, hclass, hindex⟩
    · rw [List.concat_eq_append, ← List.cons_append, ← List.append_assoc] at hcalls
      obtain ⟨rfl, hc⟩ := List.append_inj' hcalls rfl
      obtain rfl := List.singleton_inj.1 hc
      rw [List.concat_eq_append] at hhides
      refine Or.inr ⟨⟨hclass, before, after, rfl, hindex, fun d hd => ?_⟩, ?_⟩
      · exact hhides d (List.mem_append_left _ hd)
      · exact hhides c (List.mem_append_right _ (List.mem_singleton_self c))
  · rintro (⟨rfl, hclass, hindex⟩ | ⟨⟨hclass, before, after, rfl, hindex, hhides⟩, hc⟩)
    · exact ⟨hclass, calls, [], rfl, hindex, by simp⟩
    · refine ⟨hclass, before, after ++ [c], by simp, hindex, fun d hd => ?_⟩
      rcases List.mem_append.1 hd with hd | hd
      · exact hhides d hd
      · rwa [List.mem_singleton.1 hd]

/-! ### What the scope keeps of them -/

namespace Scope

/-- The variable of a name among those of the class, or among those of the subroutine at hand. -/
def inLayer (s : Scope) (ofClass : Bool) (name : String) : Option Variable :=
  if ofClass then s.ofClass[name]? else s.ofSubroutine[name]?

theorem lookup_eq_or (s : Scope) (name : String) :
    s.lookup name = (s.inLayer false name).or (s.inLayer true name) := rfl

theorem inLayer_startSubroutine (s : Scope) (ofClass : Bool) (name : String) :
    s.startSubroutine.inLayer ofClass name
      = if ofClass then s.inLayer ofClass name else none := by
  cases ofClass
  · simp [inLayer, startSubroutine]
  · rfl

theorem inLayer_add (s : Scope) (v : Variable) (n : UInt16) (ofClass : Bool) (name : String) :
    (s.add v n).inLayer ofClass name
      = if v.name = name ∧ v.kind.ofClass = ofClass then some v else s.inLayer ofClass name := by
  unfold add
  cases hv : v.kind <;> cases ofClass <;>
    simp [inLayer, Kind.ofClass, Std.TreeMap.getElem?_insert]

/-- The scope has the latest declarations of the calls, and counts them. -/
structure Records (s : Scope) (calls : List ScopeCall) : Prop where
  latest : ∀ ofClass name v,
    s.inLayer ofClass name = some v ↔ v.name = name ∧ IsLatest calls ofClass v
  absent : ∀ ofClass name, s.inLayer ofClass name = none
    ↔ ∀ d, d.kind.ofClass = ofClass → .define d ∈ lifetime d.kind calls → d.name ≠ name
  count : ∀ kind, (s.count kind).toNat = declarations kind calls

namespace Records

variable {s t : Scope} {calls : List ScopeCall}

theorem empty : Scope.empty.Records [] := by
  refine ⟨fun ofClass name v => ?_, fun ofClass name => ?_, fun kind => ?_⟩
  · cases ofClass <;> simp [inLayer, Scope.empty, IsLatest]
  · cases ofClass <;> simp [inLayer, Scope.empty]
  · rw [declarations_nil]
    cases kind <;> rfl

theorem startSubroutine (h : s.Records calls) :
    s.startSubroutine.Records (calls ++ [.startSubroutine]) := by
  refine ⟨fun ofClass name v => ?_, fun ofClass name => ?_, fun kind => ?_⟩
  · rw [inLayer_startSubroutine, isLatest_concat]
    cases ofClass with
    | false => simp [ScopeCall.Hides]
    | true => simpa [ScopeCall.Hides] using h.latest true name v
  · rw [inLayer_startSubroutine]
    cases ofClass with
    | false => simp +contextual [lifetime_start]
    | true => simpa +contextual [lifetime_start, lifetime] using h.absent true name
  · rw [count_startSubroutine, declarations_start]
    cases kind.ofClass with
    | false => rfl
    | true => exact h.count kind

theorem define (h : s.Records calls) {d : Declared}
    (hd : s.define? d.name d.type d.kind = some t) : t.Records (calls ++ [.define d]) := by
  obtain ⟨n, hn, rfl⟩ := define?_eq_some hd
  refine ⟨fun ofClass name v => ?_, fun ofClass name => ?_, fun kind => ?_⟩
  · rw [inLayer_add, isLatest_concat]
    by_cases hhides : d.name = name ∧ d.kind.ofClass = ofClass
    · obtain ⟨rfl, rfl⟩ := hhides
      rw [if_pos ⟨rfl, rfl⟩]
      constructor
      · rintro ⟨⟩
        exact ⟨rfl, Or.inl ⟨rfl, rfl, h.count d.kind⟩⟩
      · rintro ⟨hname, ⟨hdefine, -, hindex⟩ | ⟨-, hlives⟩⟩
        · obtain rfl := ScopeCall.define.inj hdefine
          have hcount : s.count v.kind = v.index :=
            UInt16.toNat.inj ((h.count v.kind).trans hindex.symm)
          rw [hcount]
        · exact absurd ⟨hname.symm, rfl⟩ hlives
    · rw [if_neg hhides, h.latest]
      constructor
      · rintro ⟨rfl, hlatest⟩
        exact ⟨rfl, Or.inr ⟨hlatest, hhides⟩⟩
      · rintro ⟨rfl, ⟨hdefine, hclass, -⟩ | ⟨hlatest, -⟩⟩
        · obtain rfl := ScopeCall.define.inj hdefine
          exact absurd ⟨rfl, hclass⟩ hhides
        · exact ⟨rfl, hlatest⟩
  · rw [inLayer_add]
    by_cases hhides : d.name = name ∧ d.kind.ofClass = ofClass
    · rw [if_pos hhides]
      refine iff_of_false nofun fun hnone => hnone d hhides.2 ?_ hhides.1
      rw [lifetime_define]
      exact List.mem_append_right _ (List.mem_singleton_self _)
    · rw [if_neg hhides, h.absent]
      simp only [lifetime_define, List.mem_append, List.mem_singleton, ScopeCall.define.injEq]
      constructor
      · rintro hnone e hclass (hmem | rfl) hname
        · exact hnone e hclass hmem hname
        · exact hhides ⟨hname, hclass⟩
      · exact fun hnone e hclass hmem => hnone e hclass (Or.inl hmem)
  · rw [count_add, declarations_define]
    by_cases hk : d.kind = kind
    · subst hk
      simp [toNat_of_nextWord? hn, h.count d.kind]
    · simp [hk, h.count kind]

theorem call (h : s.Records calls) {c : ScopeCall} (hc : s.call? c = some t) :
    t.Records (calls ++ [c]) := by
  cases c with
  | startSubroutine =>
    cases hc
    exact h.startSubroutine
  | define d => exact h.define hc

theorem call?_eq_none_iff (h : s.Records calls) (d : Declared) :
    s.call? (.define d) = none ↔ declarations d.kind calls = 65535 := by
  rw [← h.count d.kind]
  exact Scope.define?_eq_none_iff.trans
    ⟨fun hc => by rw [hc]; rfl, fun hc => UInt16.toNat.inj hc⟩

end Records

end Scope

theorem History.records_ofCalls (calls : List ScopeCall) :
    (ofCalls calls).scope.Records (ofCalls calls).calls := by
  induction calls using List.reverseRecOn with
  | nil => exact Scope.Records.empty
  | append_singleton calls c ih =>
    rw [ofCalls_concat, after]
    split
    · rename_i s hs
      exact ih.call hs
    · exact ih

/-- What the scope answers is what the calls tell. -/
structure History.Faithful (h : History) : Prop where
  /-- A name stands for the latest argument or local since a subroutine started that has the name,
  or else for the latest static or field that has it. -/
  lookup : ∀ name v, h.scope.lookup name = some v
    ↔ v.name = name ∧ (IsLatest h.calls false v
        ∨ (∀ w, w.name = name → ¬IsLatest h.calls false w) ∧ IsLatest h.calls true v)
  /-- A name stands for nothing where no declaration that is in force has it. -/
  absent : ∀ name, h.scope.lookup name = none
    ↔ ∀ d, .define d ∈ lifetime d.kind h.calls → d.name ≠ name
  count : ∀ kind, (h.scope.count kind).toNat = declarations kind h.calls
  refuses : ∀ d, h.scope.call? (.define d) = none ↔ declarations d.kind h.calls = 65535
  unchanged : ∀ d, declarations d.kind h.calls = 65535 → h.after (.define d) = h

/-- However a scope is used, its variables and counts are those of the declarations that succeeded,
and a declaration fails just when there is no index left for it. -/
theorem scope_faithful_to_history (calls : List ScopeCall) :
    (History.ofCalls calls).Faithful := by
  have hrecords := History.records_ofCalls calls
  refine ⟨fun name v => ?_, fun name => ?_, hrecords.count, hrecords.call?_eq_none_iff,
    fun d hfull => ?_⟩
  · rw [Scope.lookup_eq_or, Option.or_eq_some_iff, hrecords.latest, hrecords.latest,
      Option.eq_none_iff_forall_ne_some]
    have hnone : (∀ w, (History.ofCalls calls).scope.inLayer false name ≠ some w)
        ↔ ∀ w, w.name = name → ¬IsLatest (History.ofCalls calls).calls false w := by
      simp only [ne_eq, hrecords.latest, not_and]
    rw [hnone]
    constructor
    · rintro (⟨hname, hlatest⟩ | ⟨hhidden, hname, hlatest⟩)
      · exact ⟨hname, Or.inl hlatest⟩
      · exact ⟨hname, Or.inr ⟨hhidden, hlatest⟩⟩
    · rintro ⟨hname, hlatest | ⟨hhidden, hlatest⟩⟩
      · exact Or.inl ⟨hname, hlatest⟩
      · exact Or.inr ⟨hhidden, hname, hlatest⟩
  · rw [Scope.lookup_eq_or, Option.or_eq_none_iff, hrecords.absent, hrecords.absent]
    constructor
    · rintro ⟨hsubroutine, hclass⟩ d
      cases hk : d.kind.ofClass with
      | false => exact hsubroutine d hk
      | true => exact hclass d hk
    · exact fun hnone => ⟨fun d _ => hnone d, fun d _ => hnone d⟩
  · rw [History.after, (hrecords.call?_eq_none_iff d).2 hfull]

/-! ### The scopes of a compilation -/

/-- The scope is one that calls on a fresh one lead to. -/
def Scope.HasHistory (s : Scope) : Prop := ∃ calls, (History.ofCalls calls).scope = s

theorem Scope.HasHistory.call {s t : Scope} (h : s.HasHistory) {c : ScopeCall}
    (hc : s.call? c = some t) : t.HasHistory := by
  obtain ⟨calls, rfl⟩ := h
  refine ⟨calls ++ [c], ?_⟩
  rw [History.ofCalls_concat, History.after, hc]

namespace Session

variable {s : Session}

theorem scope_complete (s : Session) (locals : UInt16) :
    (s.complete locals).1.scope = s.scope := by
  obtain ⟨scope, listing, outline?, className, - | slot⟩ := s
  · rfl
  · simp only [complete]
    rcases listing.patch slot locals with ⟨patched, - | -⟩
    · rfl
    · rfl

theorem hasHistory_define (h : s.scope.HasHistory) (p : Production) (name type : String)
    (kind : Kind) (position : Position) :
    (s.define p name type kind position).1.scope.HasHistory := by
  simp only [define]
  cases hd : s.scope.define? name type kind with
  | none => exact h
  | some t =>
    have hcall : s.scope.call? (.define ⟨name, type, kind⟩) = some t := hd
    exact h.call hcall

/-- An action declares a variable, starts a subroutine, or leaves the scope as it is. -/
theorem hasHistory_perform (h : s.scope.HasHistory) (a : Action) :
    (s.perform a).1.scope.HasHistory := by
  cases a with
  | startSubroutine =>
    have hcall : s.scope.call? .startSubroutine = some s.scope.startSubroutine := rfl
    exact h.call hcall
  | declare p o type kind =>
    have hmoved : (s.moveTo o.position).scope.HasHistory := h
    have hdefine := hasHistory_define hmoved p o.name type kind o.position
    simp only [perform]
    rcases hd : (s.moveTo o.position).define p o.name type kind o.position with ⟨t, - | e⟩
    all_goals rw [hd] at hdefine
    · exact hdefine
    · exact hdefine
  | declareThis position => exact hasHistory_define h _ _ _ _ _
  | mentionFirst o | loadReceiver o =>
    simp only [perform]
    cases s.scope.lookup o.name with
    | none => exact h
    | some v => exact h
  | require p o | load p o | store p o =>
    simp only [perform, resolve]
    cases s.scope.lookup o.name with
    | none => exact h
    | some v => exact h
  | call p callee args =>
    simp only [perform, call]
    cases addWords? args (s.target callee).2 with
    | none => exact h
    | some n => exact h
  | complete locals =>
    rw [perform, scope_complete]
    exact h
  | _ => exact h

theorem hasHistory_performAll (h : s.scope.HasHistory) (actions : List Action) :
    (s.performAll actions).1.scope.HasHistory := by
  induction actions generalizing s with
  | nil => exact h
  | cons a actions ih =>
    have hstep := hasHistory_perform h a
    rw [performAll_cons]
    rcases ha : s.perform a with ⟨t, - | e⟩
    all_goals rw [ha] at hstep
    · exact ih hstep
    · exact hstep

end Session

/-- Wherever the compilation of a text has got, its scope is that of a history. -/
theorem hasHistory_compiling (outlined : Bool) (actions : List Action) :
    ((Session.initial outlined).performAll actions).1.scope.HasHistory :=
  Session.hasHistory_performAll ⟨[], rfl⟩ actions

/-! ### Slots -/

theorem Kind.segment_injective {j k : Kind} (h : j.segment = k.segment) : j = k := by
  revert h
  cases j <;> cases k <;> decide

theorem Scope.Records.isLatest_of_lookup {s : Scope} {calls : List ScopeCall}
    (h : s.Records calls) {name : String} {v : Variable} (hv : s.lookup name = some v) :
    v.name = name ∧ IsLatest calls v.kind.ofClass v := by
  rw [lookup_eq_or, Option.or_eq_some_iff, h.latest, h.latest] at hv
  rcases hv with ⟨hname, hlatest⟩ | ⟨-, hname, hlatest⟩
  · exact ⟨hname, hlatest.1 ▸ hlatest⟩
  · exact ⟨hname, hlatest.1 ▸ hlatest⟩

theorem IsLatest.exists_alive {calls : List ScopeCall} {v : Variable}
    (h : IsLatest calls v.kind.ofClass v) :
    ∃ before after, calls = before ++ .define ⟨v.name, v.type, v.kind⟩ :: after
      ∧ v.index.toNat = declarations v.kind before
      ∧ (v.kind.ofClass = false → .startSubroutine ∉ after) := by
  obtain ⟨-, before, after, hcalls, hindex, hhides⟩ := h
  exact ⟨before, after, hcalls, hindex, fun hk hstart => hhides _ hstart hk⟩

/-- However a scope is used, no two names stand for the same word of storage, and the index of a
variable is below the count of its kind. -/
theorem names_share_no_slot (calls : List ScopeCall) :
    (∀ n m v w, n ≠ m → (History.ofCalls calls).scope.lookup n = some v →
        (History.ofCalls calls).scope.lookup m = some w →
        (v.kind.segment, v.index) ≠ (w.kind.segment, w.index))
      ∧ ∀ n v, (History.ofCalls calls).scope.lookup n = some v →
        v.index < (History.ofCalls calls).scope.count v.kind := by
  have hrecords := History.records_ofCalls calls
  refine ⟨fun n m v w hne hv hw hslot => ?_, fun n v hv => ?_⟩
  · obtain ⟨hsegment, hsame⟩ := Prod.mk.inj hslot
    have hkind : v.kind = w.kind := Kind.segment_injective hsegment
    obtain ⟨rfl, hlatest⟩ := hrecords.isLatest_of_lookup hv
    obtain ⟨rfl, hlatest'⟩ := hrecords.isLatest_of_lookup hw
    obtain ⟨before, after, hcalls, hindex, halive⟩ := hlatest.exists_alive
    obtain ⟨before', after', hcalls', hindex', halive'⟩ := hlatest'.exists_alive
    refine declarations_ne (hcalls.symm.trans hcalls') hkind (fun h => hne (Declared.mk.inj h).1)
      halive (hkind ▸ halive') ?_
    calc declarations v.kind before = v.index.toNat := hindex.symm
      _ = w.index.toNat := congrArg UInt16.toNat hsame
      _ = declarations w.kind before' := hindex'
      _ = declarations v.kind before' := by rw [hkind]
  · obtain ⟨-, hlatest⟩ := hrecords.isLatest_of_lookup hv
    obtain ⟨before, after, hcalls, hindex, halive⟩ := hlatest.exists_alive
    rw [UInt16.lt_iff_toNat_lt, hrecords.count, hindex, hcalls]
    exact @declarations_lt before after ⟨v.name, v.type, v.kind⟩ halive

end Jack
