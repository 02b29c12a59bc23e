import Warp.Lib.Checked
import Warp.Grid.IndexRows

namespace Warp.Grid

open List

structure GridPoint where
  row : ℕ
  col : ℕ
deriving DecidableEq

inductive ContentOffsetToPointError where
  | rowOutOfBounds (row maxRow : ℕ)
  | missingGraphemeSizing (contentOffset : ℕ)
  | nonZeroColumnInEmptyRow (row col : ℕ)
  | columnExceedsContent (row col : ℕ)

inductive PointFromContentOffsetError where
  | offsetBeforeFirstRow (offset firstRowOffset : ℕ)
  | rowOutOfBounds (row : ℕ)
  | missingGraphemeSizing (contentOffset : ℕ)
  | offsetDoesNotMapToCellInRow (row offset : ℕ)

namespace Index

/-- The loop over the runs, which ends when no column remains. -/
def offsetInRuns (offset colsRemaining : ℕ) : List GraphemeRun → Option (ℕ × ℕ)
  | [] => some (offset, colsRemaining)
  | run :: runs =>
    if colsRemaining = 0 then some (offset, colsRemaining)
    else do
      let colsFromRun := min run.cols colsRemaining
      let graphemesFromRun ← Checked.div colsFromRun run.info.cellWidth
      offsetInRuns (offset + graphemesFromRun * run.info.utf8Bytes.get) (colsRemaining - colsFromRun) runs

def offsetInRow (entry : Entry) (point : GridPoint) (runs : List GraphemeRun) :
    Option (Except ContentOffsetToPointError ℕ) :=
  (offsetInRuns entry.contentOffset point.col runs).map fun (offset, colsRemaining) =>
    if colsRemaining = 0 then .ok offset else .error (.columnExceedsContent point.row point.col)

def contentOffsetAtPoint (self : Index) (point : GridPoint) : Option (Except ContentOffsetToPointError ℕ) :=
  match self.rows[point.row]? with
  | none => some (.error (.rowOutOfBounds point.row (self.rows.length - 1)))
  | some entry =>
    match entry.graphemeSizing with
    | .uniform run => offsetInRow entry point [run]
    | .nonUniform =>
      match self.graphemeSizing.get entry.contentOffset with
      | none => some (.error (.missingGraphemeSizing entry.contentOffset))
      | some runs => offsetInRow entry point runs
    | .emptyRow =>
      if point.col = 0 then some (.ok entry.contentOffset)
      else some (.error (.nonZeroColumnInEmptyRow point.row point.col))

/-- The column that the loop over the runs stops at. -/
def columnInRuns (column remainingOffset : ℕ) : List GraphemeRun → Option (Option ℕ)
  | [] => some none
  | run :: runs => do
    let graphemesInRun ← Checked.div run.cols run.info.cellWidth
    let contentInRun := graphemesInRun * run.info.utf8Bytes.get
    let remainingOffsetInRun := min remainingOffset contentInRun
    let remainingGraphemesInRun ← Checked.div remainingOffsetInRun run.info.utf8Bytes.get
    let column := column + remainingGraphemesInRun * run.info.cellWidth
    if remainingOffset - remainingOffsetInRun = 0 then some (some column)
    else columnInRuns column (remainingOffset - remainingOffsetInRun) runs

def pointInRow (entry : Entry) (row offset : ℕ) (runs : List GraphemeRun) :
    Option (Except PointFromContentOffsetError GridPoint) :=
  (columnInRuns 0 (offset - entry.contentOffset) runs).map fun
    | some column => .ok ⟨row, column⟩
    | none => .error (.offsetDoesNotMapToCellInRow row offset)

def partitionPoint (self : Index) (offset : ℕ) : ℕ :=
  (self.rows.takeWhile fun entry => entry.contentOffset ≤ offset).length

/-- In an empty row every offset other than its start is asserted against. -/
def contentOffsetToPoint (self : Index) (offset : ℕ) : Option (Except PointFromContentOffsetError GridPoint) :=
  match self.partitionPoint offset with
  | 0 => some (.error (.offsetBeforeFirstRow offset ((self.contentOffsetForRow 0).getD 0)))
  | row + 1 =>
    match self.getEntry row with
    | none => some (.error (.rowOutOfBounds row))
    | some entry =>
      match entry.graphemeSizing with
      | .uniform run => pointInRow entry row offset [run]
      | .nonUniform =>
        match self.graphemeSizing.get entry.contentOffset with
        | none => some (.error (.missingGraphemeSizing entry.contentOffset))
        | some runs => pointInRow entry row offset runs
      | .emptyRow => if offset = entry.contentOffset then some (.ok ⟨row, 0⟩) else none

end Index

section Runs

def columnsOf (infos : List GraphemeInfo) : ℕ := (infos.map GraphemeInfo.cellWidth).sum

def bytesOf (infos : List GraphemeInfo) : ℕ := (infos.map fun info => info.utf8Bytes.get).sum

variable {infos before after : List GraphemeInfo} {info : GraphemeInfo} {run : GraphemeRun} {runs : List GraphemeRun}

@[simp] theorem columnsOf_append : columnsOf (before ++ after) = columnsOf before + columnsOf after := by simp [columnsOf]

@[simp] theorem bytesOf_append : bytesOf (before ++ after) = bytesOf before + bytesOf after := by simp [bytesOf]

@[simp] theorem columnsOf_replicate (count : ℕ) : columnsOf (List.replicate count info) = count * info.cellWidth := by
  simp [columnsOf]

@[simp] theorem bytesOf_replicate (count : ℕ) : bytesOf (List.replicate count info) = count * info.utf8Bytes.get := by
  simp [bytesOf]

theorem expand_cons : expand (run :: runs) = List.replicate run.count.get run.info ++ expand runs := flatMap_cons

theorem prefix_expand_cons (isPrefix : before <+: expand (run :: runs)) :
    (∃ k ≤ run.count.get, before = List.replicate k run.info) ∨
      ∃ later, before = List.replicate run.count.get run.info ++ later ∧ later <+: expand runs := by
  rw [expand_cons] at isPrefix
  rcases prefix_or_prefix_of_prefix isPrefix (prefix_append _ _) with inside | ⟨later, rfl⟩
  · obtain ⟨count, same⟩ := List.prefix_replicate_iff.mp inside
    exact .inl ⟨before.length, count, same⟩
  · exact .inr ⟨later, rfl, (prefix_append_right_inj _).mp isPrefix⟩

theorem wide_cons (wide : ∀ info ∈ expand (run :: runs), 0 < info.cellWidth) :
    0 < run.info.cellWidth ∧ ∀ info ∈ expand runs, 0 < info.cellWidth := by
  rw [expand_cons, forall_mem_append] at wide
  exact ⟨wide.1 _ (List.mem_replicate.mpr ⟨Nat.ne_of_gt run.count.pos, rfl⟩), wide.2⟩

theorem eq_nil_of_columnsOf (wide : ∀ info ∈ infos, 0 < info.cellWidth) (nothing : columnsOf infos = 0) : infos = [] := by
  cases infos with
  | nil => rfl
  | cons info infos =>
    have positive := wide info mem_cons_self
    simp only [columnsOf, map_cons, sum_cons] at nothing
    omega

theorem eq_nil_of_bytesOf (nothing : bytesOf infos = 0) : infos = [] := by
  cases infos with
  | nil => rfl
  | cons info infos =>
    have positive := info.utf8Bytes.pos
    simp only [bytesOf, map_cons, sum_cons] at nothing
    omega

theorem parts_expand_cons (parts : expand (run :: runs) = before ++ info :: after) :
    (∃ k < run.count.get, before = List.replicate k run.info ∧ info = run.info) ∨
      ∃ later, before = List.replicate run.count.get run.info ++ later ∧ expand runs = later ++ info :: after := by
  rw [expand_cons] at parts
  rcases List.append_eq_append_iff.mp parts with ⟨later, isBefore, isRest⟩ | ⟨rest, isRun, isRest⟩
  · exact .inr ⟨later, isBefore, isRest⟩
  · cases rest with
    | nil => exact .inr ⟨[], by rw [isRun, append_nil, append_nil], isRest.symm⟩
    | cons other rest =>
      obtain ⟨rfl, -⟩ := List.cons.inj isRest
      have lengths := congrArg List.length isRun
      rw [length_replicate, length_append, length_cons] at lengths
      have same : ∀ other ∈ before ++ info :: rest, other = run.info := by
        rw [← isRun]
        exact fun other member => eq_of_mem_replicate member
      refine .inl ⟨before.length, by omega, ?_, same info (by simp)⟩
      exact List.eq_replicate_iff.mpr ⟨rfl, fun other member => same other (mem_append_left _ member)⟩

namespace Index

theorem offsetInRuns_zero (offset : ℕ) : offsetInRuns offset 0 runs = some (offset, 0) := by
  cases runs with
  | nil => rfl
  | cons run runs => rw [offsetInRuns, if_pos rfl]

theorem offsetInRuns_cons (positive : 0 < run.info.cellWidth) (offset cols : ℕ) :
    offsetInRuns offset cols (run :: runs) =
      if cols = 0 then some (offset, cols)
      else offsetInRuns (offset + min run.cols cols / run.info.cellWidth * run.info.utf8Bytes.get) (cols - min run.cols cols) runs := by
  rw [offsetInRuns]
  dsimp only
  rw [Checked.div_eq (Nat.ne_of_gt positive)]
  rfl

theorem offsetInRuns_prefix (wide : ∀ info ∈ expand runs, 0 < info.cellWidth) (isPrefix : before <+: expand runs) (offset : ℕ) :
    offsetInRuns offset (columnsOf before) runs = some (offset + bytesOf before, 0) := by
  induction runs generalizing before offset with
  | nil =>
    rw [List.prefix_nil.mp isPrefix]
    rfl
  | cons run runs ih =>
    obtain ⟨positive, laterWide⟩ := wide_cons wide
    rw [offsetInRuns_cons positive]
    by_cases nothing : columnsOf before = 0
    · rw [if_pos nothing, nothing, eq_nil_of_columnsOf (fun info member => wide info (isPrefix.subset member)) nothing]
      rfl
    rw [if_neg nothing]
    rcases prefix_expand_cons isPrefix with ⟨k, count, rfl⟩ | ⟨later, rfl, isLater⟩
    · have within : min run.cols (columnsOf (List.replicate k run.info)) = k * run.info.cellWidth := by
        rw [columnsOf_replicate]
        exact Nat.min_eq_right (Nat.mul_le_mul_right _ count)
      rw [within, Nat.mul_div_cancel _ positive, columnsOf_replicate, Nat.sub_self, bytesOf_replicate]
      exact offsetInRuns_zero _
    · have within : min run.cols (columnsOf (List.replicate run.count.get run.info ++ later)) =
          run.count.get * run.info.cellWidth := by
        rw [columnsOf_append, columnsOf_replicate]
        exact Nat.min_eq_left (Nat.le_add_right _ _)
      rw [within, Nat.mul_div_cancel _ positive, columnsOf_append, columnsOf_replicate, Nat.add_sub_cancel_left,
        bytesOf_append, bytesOf_replicate, ← Nat.add_assoc]
      exact ih laterWide isLater _

theorem columnInRuns_cons (positive : 0 < run.info.cellWidth) (column remaining : ℕ) :
    columnInRuns column remaining (run :: runs) =
      let taken := min remaining (run.count.get * run.info.utf8Bytes.get)
      if remaining - taken = 0 then some (some (column + taken / run.info.utf8Bytes.get * run.info.cellWidth))
      else columnInRuns (column + taken / run.info.utf8Bytes.get * run.info.cellWidth) (remaining - taken) runs := by
  have graphemes : run.cols / run.info.cellWidth = run.count.get := Nat.mul_div_cancel _ positive
  rw [columnInRuns, Checked.div_eq (Nat.ne_of_gt positive), graphemes]
  show (Checked.div (min remaining (run.count.get * run.info.utf8Bytes.get)) run.info.utf8Bytes.get).bind _ = _
  rw [Checked.div_eq (Nat.ne_of_gt run.info.utf8Bytes.pos)]
  rfl

variable {remaining : ℕ}

theorem columnInRuns_take (positive : 0 < run.info.cellWidth)
    (taken : run.count.get * run.info.utf8Bytes.get ≤ remaining) (column : ℕ) :
    columnInRuns column remaining (run :: runs) =
      if remaining = run.count.get * run.info.utf8Bytes.get then some (some (column + run.count.get * run.info.cellWidth))
      else columnInRuns (column + run.count.get * run.info.cellWidth) (remaining - run.count.get * run.info.utf8Bytes.get) runs := by
  rw [columnInRuns_cons positive, Nat.min_eq_right taken]
  dsimp only
  rw [Nat.mul_div_cancel _ run.info.utf8Bytes.pos]
  congr 1
  rw [eq_iff_iff]
  omega

section

variable (wide : ∀ info ∈ expand runs, 0 < info.cellWidth)
include wide

theorem columnInRuns_inside (parts : expand runs = before ++ info :: after) (reaches : bytesOf before ≤ remaining)
    (inside : remaining < bytesOf before + info.utf8Bytes.get) (column : ℕ) :
    columnInRuns column remaining runs = some (some (column + columnsOf before)) := by
  induction runs generalizing before remaining column with
  | nil =>
    have nothing : before ++ info :: after = [] := parts.symm
    simp at nothing
  | cons run runs ih =>
    obtain ⟨positive, laterWide⟩ := wide_cons wide
    rcases parts_expand_cons parts with ⟨k, count, rfl, rfl⟩ | ⟨later, rfl, rest⟩
    · rw [bytesOf_replicate] at reaches inside
      rw [← Nat.add_one_mul] at inside
      have next : (k + 1) * run.info.utf8Bytes.get ≤ run.count.get * run.info.utf8Bytes.get := Nat.mul_le_mul_right _ count
      have within : min remaining (run.count.get * run.info.utf8Bytes.get) = remaining := Nat.min_eq_left (by omega)
      have graphemes : remaining / run.info.utf8Bytes.get = k :=
        Nat.div_eq_of_lt_le reaches inside
      rw [columnInRuns_cons positive]
      dsimp only
      rw [within, graphemes, Nat.sub_self, if_pos rfl, columnsOf_replicate]
    · rw [bytesOf_append, bytesOf_replicate] at reaches inside
      rw [columnInRuns_take positive (by omega), columnsOf_append, columnsOf_replicate]
      by_cases ends : remaining = run.count.get * run.info.utf8Bytes.get
      · rw [if_pos ends, eq_nil_of_bytesOf (show bytesOf later = 0 by omega)]
        rfl
      · rw [if_neg ends, ih laterWide rest (by omega) (by omega), Nat.add_assoc]

theorem columnInRuns_whole (nonempty : runs ≠ []) (column : ℕ) :
    columnInRuns column (bytesOf (expand runs)) runs = some (some (column + columnsOf (expand runs))) := by
  induction runs generalizing column with
  | nil => exact absurd rfl nonempty
  | cons run runs ih =>
    obtain ⟨positive, laterWide⟩ := wide_cons wide
    rw [expand_cons, bytesOf_append, bytesOf_replicate, columnsOf_append, columnsOf_replicate,
      columnInRuns_take positive (Nat.le_add_right _ _)]
    by_cases last : runs = []
    · have nothing : bytesOf (expand []) = 0 := rfl
      rw [last, nothing, Nat.add_zero, if_pos rfl]
      rfl
    · have more : bytesOf (expand runs) ≠ 0 := fun nothing => expand_ne_nil last (eq_nil_of_bytesOf nothing)
      rw [if_neg (by omega), Nat.add_sub_cancel_left, ih laterWide last, Nat.add_assoc]

theorem columnInRuns_beyond (beyond : bytesOf (expand runs) < remaining) (column : ℕ) :
    columnInRuns column remaining runs = some none := by
  induction runs generalizing remaining column with
  | nil => rfl
  | cons run runs ih =>
    obtain ⟨positive, laterWide⟩ := wide_cons wide
    rw [expand_cons, bytesOf_append, bytesOf_replicate] at beyond
    rw [columnInRuns_take positive (by omega), if_neg (by omega)]
    exact ih laterWide (by omega) _

end

end Index

end Runs

end Warp.Grid
