import Jack.Viewer.Scroll

/-! How a pane scrolls. The highlighted row is held at one height of the pane; near both ends of the
content the pane stays at the end, and the highlighted row moves instead. -/

namespace Jack

namespace Scroll

/-- The row is among those that a pane with so many rows shows. -/
def Shows (s : Scroll) (rows row : Nat) : Prop := s.offset ≤ row ∧ row < s.offset + rows

/-- A pane with so many rows shows the content from its first row on, or fills all its rows. -/
def Fills (s : Scroll) (rows total : Nat) : Prop := s.offset = 0 ∨ s.offset + rows ≤ total

/-- The row of the pane where a row of the content stands. -/
def rowOf (s : Scroll) (row : Nat) : Nat := row - s.offset

variable {s t : Scroll} {current later total rows : Nat}

theorem targetIn_lt (s : Scroll) (h : 0 < rows) : s.targetIn rows < rows := by
  unfold targetIn
  omega

theorem shows_follow (s : Scroll) (h : current < total) (hrows : 0 < rows) :
    (s.follow current total rows).Shows rows current := by
  have htarget := s.targetIn_lt hrows
  unfold follow Shows
  by_cases hall : rows < total
  · rw [if_pos hall]
    dsimp only
    omega
  · rw [if_neg hall]
    dsimp only
    omega

theorem fills_follow (s : Scroll) (current total rows : Nat) :
    (s.follow current total rows).Fills rows total := by
  unfold follow Fills
  by_cases hall : rows < total
  · right
    rw [if_pos hall]
    dsimp only
    omega
  · left
    exact if_neg hall

/-! ### The height where a row is held -/

theorem target?_follow (s : Scroll) (current total rows : Nat) :
    (s.follow current total rows).target? = some (s.targetIn rows) := rfl

/-- The height that a pane has settled on stays. -/
@[simp] theorem targetIn_follow (s : Scroll) (current total rows : Nat) :
    (s.follow current total rows).targetIn rows = s.targetIn rows := by
  have hcapped : s.targetIn rows ≤ rows - 1 := Nat.min_le_right _ _
  rw [targetIn, target?_follow, Option.getD_some]
  exact Nat.min_eq_left hcapped

/-- Two panes that hold their rows at one height scroll alike. -/
theorem follow_congr (h : t.targetIn rows = s.targetIn rows) (current total : Nat) :
    t.follow current total rows = s.follow current total rows := by
  rw [follow, follow, h]

theorem follow_follow (s : Scroll) (current total rows : Nat) :
    (s.follow current total rows).follow current total rows = s.follow current total rows :=
  follow_congr (s.targetIn_follow current total rows) current total

/-! ### How far a pane is scrolled -/

/-- What does not fit is scrolled until its row is held, or until its last row is seen. -/
theorem offset_follow (s : Scroll) (h : rows < total) (current : Nat) :
    (s.follow current total rows).offset = min (current - s.targetIn rows) (total - rows) :=
  if_pos h

/-- Where a row is seen: at the height where it is held, or nearer to an end of the pane as it is
nearer to that end of the content. -/
structure Holds (s : Scroll) (current total rows target : Nat) : Prop where
  offset_le : s.offset ≤ current
  middle : target ≤ current → current ≤ total - rows + target → s.rowOf current = target
  first : current < target → s.offset = 0 ∧ s.rowOf current = current
  last : total - rows + target < current →
    s.offset = total - rows ∧ s.rowOf current = current - (total - rows)

theorem holds_follow (s : Scroll) (h : rows < total) (current : Nat) :
    (s.follow current total rows).Holds current total rows (s.targetIn rows) := by
  have hoffset := s.offset_follow h current
  refine ⟨by omega, ?_, ?_, ?_⟩
  · intro hfirst hlast
    rw [rowOf, hoffset]
    omega
  · intro hfirst
    have hzero : (s.follow current total rows).offset = 0 := by omega
    exact ⟨hzero, by rw [rowOf, hzero, Nat.sub_zero]⟩
  · intro hlast
    have hend : (s.follow current total rows).offset = total - rows := by omega
    exact ⟨hend, by rw [rowOf, hend]⟩

/-- A pane scrolls with its row, never back and never further than the row moves. -/
theorem offset_follow_le (s : Scroll) (h : current ≤ later) (total rows : Nat) :
    (s.follow current total rows).offset ≤ (s.follow later total rows).offset
      ∧ (s.follow later total rows).offset
        ≤ (s.follow current total rows).offset + (later - current) := by
  by_cases hall : rows < total
  · rw [s.offset_follow hall, s.offset_follow hall]
    omega
  · have hzero : ∀ row, (s.follow row total rows).offset = 0 := fun _ => if_neg hall
    rw [hzero, hzero]
    omega

/-- The height asked for is kept as far as the pane has rows, the highlighted row is held there
except near the ends, a pane that holds its row at the same height scrolls in step with the row,
and to follow a row again changes nothing. -/
theorem follow_holds_row (s : Scroll) {current total rows : Nat} (hrows : 1 ≤ rows)
    (hcurrent : current < total) (hall : rows < total) :
    ∃ target, target = min (s.target?.getD (rows / 2)) (rows - 1)
      ∧ (s.follow current total rows).target? = some target
      ∧ (s.follow current total rows).Shows rows current
      ∧ (s.follow current total rows).Holds current total rows target
      ∧ (∀ t : Scroll, t.targetIn rows = target → ∀ later, current ≤ later →
          (s.follow current total rows).offset ≤ (t.follow later total rows).offset
            ∧ (t.follow later total rows).offset
              ≤ (s.follow current total rows).offset + (later - current))
      ∧ (s.follow current total rows).follow current total rows
          = s.follow current total rows := by
  refine ⟨s.targetIn rows, rfl, rfl, s.shows_follow hcurrent hrows, s.holds_follow hall current, ?_,
    s.follow_follow current total rows⟩
  intro t ht later hlater
  rw [follow_congr ht]
  exact s.offset_follow_le hlater total rows

/-- A row that is to be held far below the pane is held in the last row of the pane. -/
theorem follow_holds_far_row :
    1 ≤ 10 ∧ 50 < 100 ∧ 10 < 100
      ∧ (Scroll.follow ⟨0, some lastRow⟩ 50 100 10).target? = some 9
      ∧ (Scroll.follow ⟨0, some lastRow⟩ 50 100 10).rowOf 50 = 9
      ∧ (∀ later, 50 ≤ later → (Scroll.follow ⟨41, some 9⟩ later 100 10).offset
          ≤ (Scroll.follow ⟨0, some lastRow⟩ 50 100 10).offset + (later - 50)) := by
  obtain ⟨target, htarget, hfollow, -, hholds, hsteady, -⟩ := follow_holds_row ⟨0, some lastRow⟩
    (by decide : 1 ≤ 10) (by decide : 50 < 100) (by decide : 10 < 100)
  obtain rfl : target = 9 := htarget
  refine ⟨by decide, by decide, by decide, hfollow, hholds.middle (by decide) (by decide), ?_⟩
  intro later hlater
  exact (hsteady ⟨41, some 9⟩ rfl later hlater).2

end Scroll

end Jack
