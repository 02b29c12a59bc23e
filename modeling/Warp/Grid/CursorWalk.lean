import Warp.Grid.GraphemeCursor
import Warp.Grid.RowRead

namespace Warp.Grid

open GraphemeCursor List Option

namespace GridHandler

variable (debugAssertions : Bool) (grid : GridHandler)

def numCells (grid : GridHandler) : ℕ := grid.totalRows * grid.columns

def pointAt (grid : GridHandler) (number : ℕ) : GridPoint := ⟨number / grid.columns, number % grid.columns⟩

def cellAt (point : GridPoint) : Option Cell := (grid.row debugAssertions point.row).join.bind fun row => row.inner[point.col]?

def isSpacerAt (number : ℕ) : Bool := (grid.cellType (grid.pointAt number)).join.any CellType.isSpacer

/-- The characters of these cells, without the spacers. -/
def shown (numbers : List ℕ) : List (GridPoint × Char) :=
  numbers.filterMap fun number =>
    if grid.isSpacerAt number then none
    else (grid.cellAt debugAssertions (grid.pointAt number)).map fun cell => (grid.pointAt number, cell.c)

def chars : List (GridPoint × Char) := grid.shown debugAssertions (List.range grid.numCells)

def ahead (grid : GridHandler) : CursorDirection → ℕ → List ℕ
  | .right, number => List.range' (number + 1) (grid.numCells - (number + 1))
  | .left, number => (List.range number).reverse

structure Readable : Prop where
  columns : 0 < grid.columns
  rows : ∀ row < grid.totalRows, ∃ cells, grid.row debugAssertions row = some (some cells) ∧ cells.inner.length = grid.columns
  types : ∀ row < grid.totalRows, ∀ col < grid.columns, ∃ type, grid.cellType ⟨row, col⟩ = some (some type)

variable {debugAssertions grid} {number next later : ℕ} {rest : List ℕ} {direction : CursorDirection}

theorem pointAt_row_lt (inside : number < grid.numCells) : (grid.pointAt number).row < grid.totalRows :=
  Nat.div_lt_of_lt_mul (by rwa [Nat.mul_comm])

theorem pointAt_injective : Function.Injective grid.pointAt := by
  intro number other same
  obtain ⟨rows, cols⟩ := GridPoint.mk.inj same
  rw [← Nat.div_add_mod number grid.columns, ← Nat.div_add_mod other grid.columns, rows, cols]

section

variable (readable : grid.Readable debugAssertions)
include readable

theorem Readable.pointAt_col_lt (number : ℕ) :
    (grid.pointAt number).col < grid.columns := Nat.mod_lt _ readable.columns

theorem Readable.cellAt_some (inside : number < grid.numCells) :
    ∃ row cell, grid.row debugAssertions (grid.pointAt number).row = some (some row) ∧
      row.inner[(grid.pointAt number).col]? = some cell ∧ grid.cellAt debugAssertions (grid.pointAt number) = some cell := by
  obtain ⟨row, isRow, length⟩ := readable.rows _ (pointAt_row_lt inside)
  have bound : (grid.pointAt number).col < row.inner.length := by
    rw [length]
    exact readable.pointAt_col_lt number
  refine ⟨row, row.inner[(grid.pointAt number).col], isRow, List.getElem?_eq_getElem bound, ?_⟩
  rw [cellAt, isRow, join_some, bind_some, List.getElem?_eq_getElem bound]

theorem Readable.cellType_some (inside : number < grid.numCells) :
    ∃ type, grid.cellType (grid.pointAt number) = some (some type) ∧ grid.isSpacerAt number = type.isSpacer := by
  obtain ⟨type, isType⟩ := readable.types _ (pointAt_row_lt inside) _ (readable.pointAt_col_lt number)
  exact ⟨type, isType, by rw [isSpacerAt, isType]; rfl⟩

end

section Ahead

theorem ahead_right_cons (inside : number + 1 < grid.numCells) :
    grid.ahead .right number = (number + 1) :: grid.ahead .right (number + 1) := by
  obtain ⟨left, isLeft⟩ : ∃ left, grid.numCells - (number + 1) = left + 1 := ⟨grid.numCells - (number + 1) - 1, by omega⟩
  rw [ahead, isLeft, List.range'_succ, ahead, show grid.numCells - (number + 1 + 1) = left by omega]

theorem ahead_left_cons (number : ℕ) : grid.ahead .left (number + 1) = number :: grid.ahead .left number := by
  rw [ahead, range_succ, reverse_append]
  rfl

theorem ahead_length_lt (inside : number < grid.numCells) : (grid.ahead direction number).length < grid.numCells := by
  cases direction with
  | right =>
    rw [ahead, length_range']
    omega
  | left => rwa [ahead, length_reverse, length_range]

theorem wrappingAdd_pointAt (columns : 0 < grid.columns) (number : ℕ) :
    (grid.pointAt number).wrappingAdd grid.columns 1 = grid.pointAt (number + 1) := by
  rw [GridPoint.wrappingAdd, pointAt, pointAt, GridPoint.mk.injEq]
  constructor
  · show number / grid.columns + (1 + number % grid.columns) / grid.columns = (number + 1) / grid.columns
    conv_rhs => rw [← Nat.div_add_mod number grid.columns, Nat.add_assoc, Nat.mul_add_div columns]
    rw [Nat.add_comm 1]
  · exact Nat.mod_add_mod number grid.columns 1

theorem wrappingSub_pointAt (columns : 0 < grid.columns) (number : ℕ) :
    (grid.pointAt (number + 1)).wrappingSub grid.columns 1 = grid.pointAt number := by
  rw [← wrappingAdd_pointAt columns]
  have bound : (grid.pointAt number).col < grid.columns := Nat.mod_lt _ columns
  generalize grid.pointAt number = point at bound ⊢
  obtain ⟨row, col⟩ := point
  dsimp only at bound
  rw [GridPoint.wrappingAdd]
  dsimp only
  by_cases ends : col + 1 = grid.columns
  · have carried : (1 + col) / grid.columns = 1 := by rw [Nat.add_comm, ends, Nat.div_self columns]
    have started : (col + 1) % grid.columns = 0 := by rw [ends, Nat.mod_self]
    rw [carried, started, GridPoint.wrappingSub]
    dsimp only
    rw [Nat.sub_zero, Nat.add_sub_cancel_left, Nat.div_self columns, if_pos (Nat.le_add_left 1 row), Nat.add_sub_cancel, Nat.add_zero]
    congr 1
    by_cases single : grid.columns = 1
    · rw [single]
      omega
    · rw [Nat.mod_eq_of_lt (show 1 < grid.columns by omega), Nat.mod_eq_of_lt (by omega)]
      omega
  · have stays : (1 + col) / grid.columns = 0 := Nat.div_eq_of_lt (by omega)
    have back : (1 + grid.columns - 1 - (col + 1)) / grid.columns = 0 := Nat.div_eq_of_lt (by omega)
    rw [stays, Nat.mod_eq_of_lt (show col + 1 < grid.columns by omega), GridPoint.wrappingSub]
    dsimp only
    rw [back, if_pos (Nat.zero_le _), Nat.mod_eq_of_lt (show 1 < grid.columns by omega), ← Nat.add_assoc]
    congr 1
    rw [Nat.add_sub_cancel, Nat.add_mod_left, Nat.mod_eq_of_lt bound]

theorem last_iff (inside : number < grid.numCells) :
    number + 1 = grid.numCells ↔
      (grid.pointAt number).row + 1 = grid.totalRows ∧ (grid.pointAt number).col + 1 = grid.columns := by
  have columns : 0 < grid.columns := Nat.pos_of_mul_pos_left (Nat.zero_lt_of_lt inside)
  have row_lt : number / grid.columns < grid.totalRows := pointAt_row_lt inside
  have col_lt : number % grid.columns < grid.columns := Nat.mod_lt number columns
  have parts := Nat.div_add_mod number grid.columns
  rw [pointAt, numCells]
  dsimp only
  generalize number / grid.columns = row at *
  generalize number % grid.columns = col at *
  have next : grid.columns * (row + 1) = grid.columns * row + grid.columns := Nat.mul_succ _ _
  constructor
  · intro last
    have lastRow : row + 1 = grid.totalRows := by
      by_contra other
      have later : (row + 2) * grid.columns ≤ grid.totalRows * grid.columns := Nat.mul_le_mul_right _ (by omega)
      have more : (row + 2) * grid.columns = grid.columns * (row + 1) + grid.columns := by ring
      omega
    refine ⟨lastRow, ?_⟩
    rw [← lastRow, Nat.mul_comm] at last
    omega
  · rintro ⟨lastRow, lastCol⟩
    rw [← lastRow, Nat.mul_comm, next]
    omega

theorem first_iff :
    number = 0 ↔ (grid.pointAt number).row = 0 ∧ (grid.pointAt number).col = 0 := by
  constructor
  · rintro rfl
    exact ⟨Nat.zero_div _, Nat.zero_mod _⟩
  · rintro ⟨row, col⟩
    rw [← Nat.div_add_mod number grid.columns, show number / grid.columns = 0 from row, show number % grid.columns = 0 from col]
    rfl

variable {cursor : GraphemeCursor}

theorem Readable.hasStep_iff (readable : grid.Readable debugAssertions) (inside : number < grid.numCells)
    (cur : cursor.cur = grid.pointAt number) (wrap : cursor.wrap = .all) :
    cursor.hasStep grid direction = true ↔ grid.ahead direction number ≠ [] := by
  have row_lt := pointAt_row_lt inside
  have col_lt := readable.pointAt_col_lt number
  have valid : cursor.currentPointValid grid = true := by
    rw [currentPointValid, cur, decide_eq_true row_lt, decide_eq_true col_lt]
    rfl
  cases direction with
  | right =>
    have last := last_iff inside
    have cells : grid.ahead .right number ≠ [] ↔ number + 1 ≠ grid.numCells := by
      rw [ahead, ne_eq, List.range'_eq_nil_iff]
      omega
    rw [cells, ne_eq, last, hasStep, hasNext, valid, wrap, isAtEndOfRow, cur]
    simp
    omega
  | left =>
    have first := @first_iff grid number
    have cells : grid.ahead .left number ≠ [] ↔ number ≠ 0 := by
      rw [ahead, ne_eq, reverse_eq_nil_iff, range_eq_nil]
    rw [cells, ne_eq, first, hasStep, hasPrev, valid, wrap, isAtStartOfRow, cur]
    simp
    omega

theorem ahead_cons (cons : grid.ahead direction number = next :: rest) :
    (direction = .right ∧ next = number + 1 ∨ direction = .left ∧ number = next + 1) ∧ rest = grid.ahead direction next := by
  cases direction with
  | right =>
    have more : number + 1 < grid.numCells := by
      have lengths := congrArg List.length cons
      rw [ahead, length_range', length_cons] at lengths
      omega
    rw [ahead_right_cons more] at cons
    obtain ⟨rfl, rfl⟩ := List.cons.inj cons
    exact ⟨.inl ⟨rfl, rfl⟩, rfl⟩
  | left =>
    cases number with
    | zero => cases cons
    | succ number =>
      rw [ahead_left_cons] at cons
      obtain ⟨rfl, rfl⟩ := List.cons.inj cons
      exact ⟨.inr ⟨rfl, rfl⟩, rfl⟩

theorem stepPoint_pointAt (columns : 0 < grid.columns) (cons : grid.ahead direction number = next :: rest) :
    stepPoint grid direction (grid.pointAt number) = grid.pointAt next := by
  obtain ⟨⟨rfl, rfl⟩ | ⟨rfl, rfl⟩, -⟩ := ahead_cons cons
  · exact wrappingAdd_pointAt columns number
  · exact wrappingSub_pointAt columns next

theorem lt_of_mem_ahead (inside : number < grid.numCells) (member : next ∈ grid.ahead direction number) : next < grid.numCells := by
  cases direction with
  | right =>
    obtain ⟨_, bound⟩ := mem_range'_1.mp member
    omega
  | left =>
    have before := List.mem_range.mp (List.mem_reverse.mp member)
    omega

theorem row_between (cons : grid.ahead direction number = next :: rest) (member : later ∈ rest)
    (back : (grid.pointAt later).row = (grid.pointAt number).row) : (grid.pointAt next).row = (grid.pointAt number).row := by
  have order : number ≤ next ∧ next ≤ later ∨ later ≤ next ∧ next ≤ number := by
    obtain ⟨⟨rfl, rfl⟩ | ⟨rfl, rfl⟩, rfl⟩ := ahead_cons cons
    · have after := (mem_range'_1.mp member).1
      omega
    · have before := List.mem_range.mp (List.mem_reverse.mp member)
      omega
  rcases order with ⟨first, second⟩ | ⟨first, second⟩
  · have rising : number / grid.columns ≤ next / grid.columns := Nat.div_le_div_right first
    have further : next / grid.columns ≤ later / grid.columns := Nat.div_le_div_right second
    exact Nat.le_antisymm (Nat.le_trans further (Nat.le_of_eq back)) rising
  · have falling : next / grid.columns ≤ number / grid.columns := Nat.div_le_div_right second
    have further : later / grid.columns ≤ next / grid.columns := Nat.div_le_div_right first
    exact Nat.le_antisymm falling (Nat.le_trans (Nat.le_of_eq back.symm) further)

theorem ahead_suffix (suffix : (next :: rest) <:+ grid.ahead direction number) : rest = grid.ahead direction next := by
  obtain ⟨passed, cells⟩ := suffix
  induction passed generalizing number with
  | nil => exact (ahead_cons cells.symm).2
  | cons first passed ih => exact ih (ahead_cons cells.symm).2

end Ahead

def cachedAt (debugAssertions : Bool) (grid : GridHandler) (held : Option Row) (start : GridPoint) (point : GridPoint) : Option Row :=
  if point.row = start.row then held else (grid.row debugAssertions point.row).join

structure On (grid : GridHandler) (cursor : GraphemeCursor) (number : ℕ) : Prop where
  state : cursor.cursorState = .valid
  wrap : cursor.wrap = .all
  cur : cursor.cur = grid.pointAt number

/-- The cursor stands on the first of these cells, or has none left. -/
def Moved (debugAssertions : Bool) (grid : GridHandler) (direction : CursorDirection) (cursor moved : GraphemeCursor) : List ℕ → Prop
  | [] => moved.cursorState = .exhausted direction ∧ ∃ last < grid.numCells, moved.cur = grid.pointAt last
  | next :: _ => grid.On moved next ∧
    moved.cachedRow = grid.cachedAt debugAssertions cursor.cachedRow cursor.cur (grid.pointAt next)

section Moves

variable {cursor moved : GraphemeCursor}

theorem Readable.updates (readable : grid.Readable debugAssertions) (inside : next < grid.numCells)
    (cur : moved.cur = grid.pointAt next) (start : GridPoint) :
    (if moved.cur.row ≠ start.row then moved.updateCachedRow debugAssertions grid else some moved) =
      some { moved with cachedRow := grid.cachedAt debugAssertions moved.cachedRow start moved.cur } := by
  by_cases same : moved.cur.row = start.row
  · rw [if_neg (not_not_intro same), cachedAt, if_pos same]
  · obtain ⟨row, isRow, -⟩ := readable.rows _ (pointAt_row_lt inside)
    rw [if_pos same, cachedAt, if_neg same, updateCachedRow, cur, isRow]
    rfl

theorem cachedAt_cachedAt {held : Option Row} {start middle stop : GridPoint} (between : stop.row = start.row → middle.row = start.row) :
    grid.cachedAt debugAssertions (grid.cachedAt debugAssertions held middle stop) start stop =
      grid.cachedAt debugAssertions held start stop := by
  unfold cachedAt
  by_cases back : stop.row = start.row
  · rw [if_pos back, if_pos back, if_pos (back.trans (between back).symm)]
  · rw [if_neg back, if_neg back]

theorem Readable.move_spec (readable : grid.Readable debugAssertions) (on : grid.On cursor number)
    (inside : number < grid.numCells) {fuel : ℕ} (enough : (grid.ahead direction number).length < fuel) :
    ∃ moved, cursor.move debugAssertions grid direction fuel = some moved ∧
      Moved debugAssertions grid direction cursor moved ((grid.ahead direction number).dropWhile grid.isSpacerAt) := by
  induction fuel generalizing cursor number with
  | zero => exact absurd enough (Nat.not_lt_zero _)
  | succ fuel ih =>
    have steps : cursor.hasStep grid direction = true ↔ grid.ahead direction number ≠ [] :=
      readable.hasStep_iff inside on.cur on.wrap
    rw [GraphemeCursor.move, on.state]
    dsimp only
    cases cells : grid.ahead direction number with
    | nil =>
      rw [if_neg (fun stepped => steps.mp stepped cells)]
      exact ⟨_, rfl, rfl, number, inside, on.cur⟩
    | cons next rest =>
      have isNext : next < grid.numCells := lt_of_mem_ahead inside (by rw [cells]; exact mem_cons_self)
      obtain ⟨-, isRest⟩ := ahead_cons cells
      obtain ⟨type, isType, spacer⟩ := readable.cellType_some isNext
      rw [if_pos (steps.mpr (by rw [cells]; exact cons_ne_nil _ _)), on.cur, stepPoint_pointAt readable.columns cells, isType,
        bind_some, any_some, ← spacer]
      have onNext : grid.On ⟨grid.pointAt next, .valid, cursor.wrap, cursor.cachedRow⟩ next := ⟨rfl, on.wrap, rfl⟩
      cases isSpacer : grid.isSpacerAt next with
      | false =>
        rw [if_neg Bool.false_ne_true, bind_some, dropWhile_cons_of_neg (by rw [isSpacer]; exact Bool.false_ne_true),
          readable.updates isNext rfl]
        exact ⟨_, rfl, ⟨rfl, on.wrap, rfl⟩, by rw [on.cur]⟩
      | true =>
        rw [cells, length_cons, isRest] at enough
        rw [if_pos rfl, dropWhile_cons_of_pos isSpacer]
        obtain ⟨moved, isMoved, reached⟩ := ih onNext isNext (by omega)
        rw [isMoved, bind_some]
        rw [← isRest] at reached
        have suffix := dropWhile_suffix (l := rest) grid.isSpacerAt
        cases left : rest.dropWhile grid.isSpacerAt with
        | nil =>
          rw [left] at reached
          obtain ⟨exhausted, last, isLast, cur⟩ := reached
          exact ⟨_, readable.updates isLast cur _, exhausted, last, isLast, cur⟩
        | cons later others =>
          rw [left] at reached suffix
          have member : later ∈ rest := suffix.subset mem_cons_self
          obtain ⟨onLater, cached⟩ := reached
          have isLater : later < grid.numCells := lt_of_mem_ahead inside (by rw [cells]; exact mem_cons_of_mem _ member)
          refine ⟨_, readable.updates isLater onLater.cur _, ⟨onLater.state, onLater.wrap, onLater.cur⟩, ?_⟩
          dsimp only
          rw [cached, onLater.cur, on.cur]
          exact cachedAt_cachedAt (row_between cells member)

end Moves

end GridHandler

end Warp.Grid
