import Warp.Grid.GridHandler

namespace Warp.Grid.GridHandler

def lineOf (self : GridHandler) (row : ℕ) : ℕ := (List.range row).countP fun row => !self.rowWraps row

def StartsLine (self : GridHandler) (row : ℕ) : Prop := ∀ before, row = before + 1 → self.rowWraps before = false

def WrapsBetween (self : GridHandler) (start stop : ℕ) : Prop := ∀ row, start ≤ row → row < stop → self.rowWraps row = true

def ShowsChar (debugAssertions : Bool) (self : GridHandler) (point : GridPoint) (c : Char) : Prop :=
  ∃ row cell, self.row debugAssertions point.row = some (some row) ∧ row.inner[point.col]? = some cell ∧ cell.c = c

def charPoint (self : GridHandler) (start number : ℕ) : GridPoint := ⟨start + number / self.columns, number % self.columns⟩

/-- The grid consists of these lines, which start at these rows; only the last one may be unfinished. -/
structure HoldsLines (debugAssertions : Bool) (grid : GridHandler) (lines : List (List Char)) (start : ℕ → ℕ) : Prop where
  columns : 0 < grid.columns
  first : start 0 = 0
  last : start lines.length = grid.totalRows
  occupies : ∀ line < lines.length, start line < start (line + 1)
  wraps : ∀ line < lines.length, grid.WrapsBetween (start line) (start (line + 1) - 1)
  ends : ∀ line, line + 1 < lines.length → grid.rowWraps (start (line + 1) - 1) = false
  fits : ∀ line text, lines[line]? = some text → text.length ≤ (start (line + 1) - start line) * grid.columns
  chars : ∀ line text number c, lines[line]? = some text → text[number]? = some c →
    grid.ShowsChar debugAssertions (grid.charPoint (start line) number) c

/-- Points of this grid survive the way to its unwrapped lines and back. -/
def PointsReturn (self : GridHandler) : Prop :=
  ∀ point : GridPoint, point.row < self.totalRows → point.col < self.columns →
    ∃ agnostic, self.gridAgnosticPoint point = some agnostic ∧ self.compatiblePoint agnostic = point

def PointsTranslate (debugAssertions : Bool) (self other : GridHandler) : Prop :=
  ∀ lines start otherStart, self.HoldsLines debugAssertions lines start → other.HoldsLines debugAssertions lines otherStart →
    ∀ line text number, lines[line]? = some text → number < text.length →
      ∃ agnostic, self.gridAgnosticPoint (self.charPoint (start line) number) = some agnostic ∧
        other.compatiblePoint agnostic = other.charPoint (otherStart line) number

section Lines

variable {grid other : GridHandler} {row start count : ℕ}

theorem lineOf_succ (row : ℕ) : grid.lineOf (row + 1) = grid.lineOf row + (!grid.rowWraps row).toNat := by
  rw [lineOf, List.range_succ, List.countP_append, lineOf, List.countP_singleton]
  cases grid.rowWraps row <;> rfl

theorem lineOf_mono (order : start ≤ row) : grid.lineOf start ≤ grid.lineOf row := by
  induction row, order using Nat.le_induction with
  | base => exact Nat.le_refl _
  | succ row order ih =>
    rw [lineOf_succ]
    omega

theorem lineOf_lt (starts : grid.StartsLine start) (before : row < start) : grid.lineOf row < grid.lineOf start := by
  obtain ⟨last, rfl⟩ := Nat.exists_eq_succ_of_ne_zero (Nat.ne_of_gt (Nat.zero_lt_of_lt before))
  have earlier : grid.lineOf row ≤ grid.lineOf last := lineOf_mono (Nat.le_of_lt_succ before)
  rw [Nat.succ_eq_add_one, lineOf_succ, starts last rfl]
  simp only [Bool.not_false, Bool.toNat_true]
  omega

theorem lineOf_wraps (wraps : grid.WrapsBetween start (start + count)) : grid.lineOf (start + count) = grid.lineOf start := by
  induction count with
  | zero => rfl
  | succ count ih =>
    have last : grid.rowWraps (start + count) = true := wraps _ (Nat.le_add_right _ _) (by omega)
    rw [← Nat.add_assoc, lineOf_succ, last, ih fun row after within => wraps row after (by omega)]
    rfl

theorem lineSearchRow_spec (row : ℕ) :
    grid.lineSearchRow row ≤ row ∧ grid.StartsLine (grid.lineSearchRow row) ∧ grid.WrapsBetween (grid.lineSearchRow row) row := by
  induction row with
  | zero => exact ⟨Nat.le_refl _, nofun, fun row _ within => absurd within (Nat.not_lt_zero row)⟩
  | succ row ih =>
    obtain ⟨order, starts, wraps⟩ := ih
    rw [lineSearchRow]
    cases wrapped : grid.rowWraps row with
    | false =>
      refine ⟨Nat.le_refl _, fun before same => ?_, fun other after within => by simp only [Bool.false_eq_true, if_false] at after; omega⟩
      obtain rfl : row = before := by simpa using same
      exact wrapped
    | true =>
      refine ⟨Nat.le_succ_of_le order, starts, fun other after within => ?_⟩
      rcases Nat.lt_succ_iff_lt_or_eq.mp within with earlier | rfl
      · exact wraps other after earlier
      · exact wrapped

theorem lineSearchRow_eq (starts : grid.StartsLine start) (wraps : grid.WrapsBetween start (start + count)) :
    grid.lineSearchRow (start + count) = start := by
  induction count with
  | zero =>
    rw [Nat.add_zero]
    cases start with
    | zero => rfl
    | succ before =>
      rw [lineSearchRow, starts before rfl]
      rfl
  | succ count ih =>
    have last : grid.rowWraps (start + count) = true := wraps _ (Nat.le_add_right _ _) (by omega)
    rw [← Nat.add_assoc, lineSearchRow, last, if_pos rfl]
    exact ih fun row after within => wraps row after (by omega)

theorem unwrapRows_eq {startRow : ℕ} (bound : row ≤ startRow) :
    grid.unwrapRows row startRow = some (startRow - row + grid.lineOf row) := by
  induction row generalizing startRow with
  | zero =>
    rw [unwrapRows, Nat.sub_zero]
    rfl
  | succ row ih =>
    rw [unwrapRows, lineOf_succ]
    cases wrapped : grid.rowWraps row with
    | false =>
      rw [if_neg Bool.false_ne_true, ih (by omega)]
      congr 1
      simp only [Bool.not_false, Bool.toNat_true]
      omega
    | true =>
      rw [if_pos rfl, Checked.sub_eq (by omega), Option.bind_some, ih (by omega)]
      congr 1
      simp only [Bool.not_true, Bool.toNat_false]
      omega

theorem gridAgnosticPoint_eq (starts : grid.StartsLine start) (wraps : grid.WrapsBetween start (start + count)) (col : ℕ) :
    grid.gridAgnosticPoint ⟨start + count, col⟩ = some ⟨grid.lineOf start, col + grid.columns * count⟩ := by
  rw [gridAgnosticPoint]
  simp only [lineSearchLeft, lineSearchRow_eq starts wraps]
  rw [unwrapRows_eq (Nat.le_refl _), Nat.sub_self, Nat.zero_add, Nat.add_sub_cancel_left]
  rfl

theorem findRow_eq (starts : grid.StartsLine start) {fuel : ℕ} (order : row ≤ start) (enough : start ≤ row + fuel) :
    grid.findRow (grid.lineOf start) fuel row (grid.lineOf row) = start := by
  induction fuel generalizing row with
  | zero =>
    rw [findRow]
    omega
  | succ fuel ih =>
    rw [findRow]
    by_cases found : row = start
    · rw [found, if_pos rfl]
    have before : row < start := Nat.lt_of_le_of_ne order found
    rw [if_neg (Nat.ne_of_gt (lineOf_lt starts before))]
    have next := ih (show row + 1 ≤ start from before) (by omega)
    rw [lineOf_succ] at next
    cases wrapped : grid.rowWraps row with
    | false =>
      rw [wrapped] at next
      exact next
    | true =>
      rw [wrapped] at next
      exact next

theorem fitColumn_eq {fuel col : ℕ} (wraps : grid.WrapsBetween start (start + count)) (col_lt : col < grid.columns)
    (enough : count ≤ fuel) : grid.fitColumn fuel start (col + grid.columns * count) = ⟨start + count, col⟩ := by
  induction count generalizing start fuel with
  | zero =>
    rw [Nat.mul_zero, Nat.add_zero, Nat.add_zero]
    cases fuel with
    | zero => rfl
    | succ fuel =>
      rw [fitColumn, if_neg]
      simp [col_lt]
  | succ count ih =>
    obtain ⟨rest, rfl⟩ : ∃ rest, fuel = rest + 1 := ⟨fuel - 1, by omega⟩
    have wrapped : grid.rowWraps start = true := wraps start (Nat.le_refl _) (by omega)
    have columns : col + grid.columns * (count + 1) = col + grid.columns * count + grid.columns := by ring
    have far : grid.columns ≤ col + grid.columns * count + grid.columns := Nat.le_add_left _ _
    have along : grid.WrapsBetween (start + 1) (start + 1 + count) := fun row after within => wraps row (by omega) (by omega)
    have later := ih along (show count ≤ rest by omega)
    rw [fitColumn, columns, wrapped, decide_eq_true far, Bool.and_self, if_pos rfl, Nat.add_sub_cancel, later]
    congr 1
    omega

theorem compatiblePoint_eq {col : ℕ} (starts : grid.StartsLine start) (wraps : grid.WrapsBetween start (start + count))
    (col_lt : col < grid.columns) (within : start + count ≤ grid.totalRows) :
    grid.compatiblePoint ⟨grid.lineOf start, col + grid.columns * count⟩ = ⟨start + count, col⟩ := by
  have found : grid.findRow (grid.lineOf start) grid.totalRows 0 0 = start :=
    show grid.findRow (grid.lineOf start) grid.totalRows 0 (grid.lineOf 0) = start from
      findRow_eq starts (Nat.zero_le _) (by omega)
  rw [compatiblePoint, found]
  exact fitColumn_eq wraps col_lt (by omega)

theorem pointsReturn (grid : GridHandler) : grid.PointsReturn := by
  intro ⟨row, col⟩ inRows inColumns
  have found := grid.lineSearchRow_spec row
  generalize grid.lineSearchRow row = start at found
  obtain ⟨order, starts, wraps⟩ := found
  obtain ⟨count, rfl⟩ := Nat.exists_eq_add_of_le order
  exact ⟨_, gridAgnosticPoint_eq starts wraps col, compatiblePoint_eq starts wraps inColumns (Nat.le_of_lt inRows)⟩

end Lines

section HoldsLines

variable {debugAssertions : Bool} {grid other : GridHandler} {lines : List (List Char)} {start otherStart : ℕ → ℕ} {line : ℕ}

section

variable (holds : grid.HoldsLines debugAssertions lines start)
include holds

theorem HoldsLines.starts (bound : line < lines.length) :
    grid.StartsLine (start line) := by
  intro before isStart
  cases line with
  | zero =>
    have first := holds.first
    omega
  | succ line =>
    have last : before = start (line + 1) - 1 := by omega
    rw [last]
    exact holds.ends line bound

theorem HoldsLines.lineOf_start (bound : line < lines.length) :
    grid.lineOf (start line) = line := by
  induction line with
  | zero =>
    rw [holds.first]
    rfl
  | succ line ih =>
    have nonempty := holds.occupies line (by omega)
    have wraps := holds.wraps line (by omega)
    have ends := holds.ends line bound
    obtain ⟨count, next⟩ := Nat.exists_eq_add_of_lt nonempty
    rw [next, Nat.add_sub_cancel] at wraps ends
    rw [next, lineOf_succ, ends, lineOf_wraps wraps, ih (by omega)]
    rfl

theorem HoldsLines.start_le (bound : line ≤ lines.length) :
    start line ≤ grid.totalRows := by
  induction bound using Nat.decreasingInduction with
  | self => exact Nat.le_of_eq holds.last
  | of_succ line bound ih => exact Nat.le_trans (Nat.le_of_lt (holds.occupies line bound)) ih

theorem HoldsLines.row_lt {text : List Char} {number : ℕ} (isLine : lines[line]? = some text)
    (inText : number < text.length) :
    start line + number / grid.columns < start (line + 1) := by
  have nonempty := holds.occupies line (List.getElem?_eq_some_iff.mp isLine).1
  have fits := holds.fits line text isLine
  have row : number / grid.columns < start (line + 1) - start line :=
    (Nat.div_lt_iff_lt_mul holds.columns).mpr (Nat.lt_of_lt_of_le inText fits)
  omega

theorem HoldsLines.charPoint_spec {text : List Char} {number : ℕ} (isLine : lines[line]? = some text)
    (inText : number < text.length) :
    grid.gridAgnosticPoint (grid.charPoint (start line) number) = some ⟨line, number⟩ ∧
      grid.compatiblePoint ⟨line, number⟩ = grid.charPoint (start line) number := by
  have bound := (List.getElem?_eq_some_iff.mp isLine).1
  have starts := holds.starts bound
  have within := holds.row_lt isLine inText
  have total : start (line + 1) ≤ grid.totalRows := holds.start_le bound
  have wraps : grid.WrapsBetween (start line) (start line + number / grid.columns) :=
    fun row after before => holds.wraps line bound row after (by omega)
  have unwrapped := gridAgnosticPoint_eq starts wraps (number % grid.columns)
  have compatible := compatiblePoint_eq starts wraps (Nat.mod_lt number holds.columns) (by omega)
  rw [holds.lineOf_start bound, Nat.mod_add_div] at unwrapped compatible
  exact ⟨unwrapped, compatible⟩

end

theorem pointsTranslate (debugAssertions : Bool) (grid other : GridHandler) : grid.PointsTranslate debugAssertions other := by
  intro lines start otherStart holds otherHolds line text number isLine inText
  obtain ⟨unwrapped, -⟩ := holds.charPoint_spec isLine inText
  obtain ⟨-, compatible⟩ := otherHolds.charPoint_spec isLine inText
  exact ⟨⟨line, number⟩, unwrapped, compatible⟩

end HoldsLines

/-- Points and unwrapped points lead to each other, within a grid and between grids that hold the same lines. -/
theorem agnosticPoint_roundTrips (debugAssertions : Bool) (grid other : GridHandler) :
    grid.PointsReturn ∧ grid.PointsTranslate debugAssertions other :=
  ⟨grid.pointsReturn, grid.pointsTranslate debugAssertions other⟩

example :
    GridHandler.gridAgnosticPoint
        ⟨.new 2 none, ⟨[⟨[.default, { Cell.default with flags := .wrapline }], 2⟩, ⟨[.default, .default], 0⟩], 2⟩, none⟩ ⟨1, 0⟩ =
      some ⟨0, 2⟩ := by
  decide

end Warp.Grid.GridHandler
