import Warp.Grid.OffsetPoint
import Warp.Grid.StorageRun

namespace Warp.Grid

open List Option

namespace Index

variable {index : Index} {point : GridPoint} {offset start len : ℕ}

def rowEnd (self : Index) (row : ℕ) : ℕ := (self.contentOffsetForRow (row + 1)).getD self.contentLen

structure Laid (index : Index) (row : ℕ) (entry : Entry) (runs : List GraphemeRun) : Prop where
  sizing : index.graphemeRunsForRow row = some runs
  empty : runs = [] ↔ entry.graphemeSizing = .emptyRow
  wide : ∀ info ∈ expand runs, 0 < info.cellWidth
  ends : index.rowEnd row = entry.contentOffset + bytesOf (expand runs) + entry.hasTrailingNewline.toNat

def Consistent (index : Index) : Prop := ∀ row entry, index.getEntry row = some entry → ∃ runs, index.Laid row entry runs

/-- The point is the first cell of a grapheme with these bytes. -/
def HasGrapheme (index : Index) (point : GridPoint) (start len : ℕ) : Prop :=
  ∃ entry before info after, index.getEntry point.row = some entry ∧
    index.graphemeInfosForRow point.row = some (before ++ info :: after) ∧ point.col = columnsOf before ∧
    start = entry.contentOffset + bytesOf before ∧ len = info.utf8Bytes.get

structure RoundTrips (index : Index) : Prop where
  there : ∀ point start len, index.HasGrapheme point start len → index.contentOffsetAtPoint point = some (.ok start)
  back : ∀ point start len, index.HasGrapheme point start len → index.contentOffsetToPoint start = some (.ok point)
  distinct : ∀ point other start otherStart len otherLen, index.HasGrapheme point start len →
    index.HasGrapheme other otherStart otherLen → point ≠ other → start ≠ otherStart

/-- The offset leads to the grapheme that has it, or to an error where none has it. -/
def Resolves (index : Index) (offset : ℕ) : Prop :=
  (∃ point start len, index.HasGrapheme point start len ∧ start ≤ offset ∧ offset < start + len ∧
    index.contentOffsetToPoint offset = some (.ok point)) ∨
  (∀ point start len, index.HasGrapheme point start len → ¬ (start ≤ offset ∧ offset < start + len)) ∧
    ∃ error, index.contentOffsetToPoint offset = some (.error error)

/-- The offset is a newline's, or the end of a content that no newline ends, or past a last row that is empty. -/
def Astray (index : Index) (offset : ℕ) : Prop :=
  (∃ row entry infos, index.getEntry row = some entry ∧ index.graphemeInfosForRow row = some infos ∧
    entry.hasTrailingNewline = true ∧ offset = entry.contentOffset + bytesOf infos) ∨
  ∃ entry, index.rows.getLast? = some entry ∧
    (entry.graphemeSizing = .emptyRow ∧ index.contentLen ≤ offset ∨ entry.hasTrailingNewline = false ∧ offset = index.contentLen)

section Rows

variable {row : ℕ} {entry : Entry} {runs : List GraphemeRun}

theorem contentOffsetForRow_some (isEntry : index.getEntry row = some entry) :
    index.contentOffsetForRow row = some entry.contentOffset := by
  rw [contentOffsetForRow, show index.rows[row]? = some entry from isEntry, map_some]

theorem rowEnd_of_next {next : Entry} (isNext : index.getEntry (row + 1) = some next) : index.rowEnd row = next.contentOffset := by
  rw [rowEnd, contentOffsetForRow_some isNext, getD_some]

theorem Consistent.next_le (consistent : index.Consistent) {next : Entry} (isEntry : index.getEntry row = some entry)
    (isNext : index.getEntry (row + 1) = some next) : entry.contentOffset ≤ next.contentOffset := by
  obtain ⟨runs, laid⟩ := consistent row entry isEntry
  have ends := laid.ends
  rw [rowEnd_of_next isNext] at ends
  omega

theorem Consistent.sorted (consistent : index.Consistent) {later : ℕ} {other : Entry} (order : row ≤ later)
    (isEntry : index.getEntry row = some entry) (isOther : index.getEntry later = some other) :
    entry.contentOffset ≤ other.contentOffset := by
  induction later, order using Nat.le_induction generalizing other with
  | base =>
    rw [isEntry] at isOther
    rw [Option.some.inj isOther]
  | succ later order ih =>
    obtain ⟨bound, -⟩ := List.getElem?_eq_some_iff.mp isOther
    have isMiddle : index.getEntry later = some index.rows[later] := List.getElem?_eq_getElem (by omega)
    exact Nat.le_trans (ih isMiddle) (consistent.next_le isMiddle isOther)

theorem getEntry_of_partition (before : row < index.partitionPoint offset) :
    ∃ entry, index.getEntry row = some entry ∧ entry.contentOffset ≤ offset := by
  obtain ⟨entry, isEntry⟩ : ∃ entry, (index.rows.takeWhile fun entry => entry.contentOffset ≤ offset)[row]? = some entry :=
    ⟨_, List.getElem?_eq_getElem before⟩
  have starts := List.all_eq_true.mp all_takeWhile entry (mem_of_getElem? isEntry)
  have whole := @List.getElem?_append_left _ _ (index.rows.dropWhile fun entry => entry.contentOffset ≤ offset) _ before
  rw [takeWhile_append_dropWhile, isEntry] at whole
  exact ⟨entry, whole, of_decide_eq_true starts⟩

theorem lt_of_partition (isEntry : index.getEntry (index.partitionPoint offset) = some entry) : offset < entry.contentOffset := by
  have isHead := @List.getElem?_append_right _ (index.rows.takeWhile fun entry => entry.contentOffset ≤ offset)
    (index.rows.dropWhile fun entry => entry.contentOffset ≤ offset) _ (Nat.le_refl _)
  rw [takeWhile_append_dropWhile, Nat.sub_self, ← List.head?_eq_getElem?] at isHead
  have fails := List.head?_dropWhile_not (fun entry : Entry => entry.contentOffset ≤ offset) index.rows
  rw [← isHead, show index.rows[(index.rows.takeWhile fun entry => entry.contentOffset ≤ offset).length]? = some entry from
    isEntry] at fails
  exact Nat.lt_of_not_le (of_decide_eq_false fails)

theorem Consistent.partitionPoint_eq (consistent : index.Consistent) (isEntry : index.getEntry row = some entry)
    (starts : entry.contentOffset ≤ offset) (ends : ∀ next, index.getEntry (row + 1) = some next → offset < next.contentOffset) :
    index.partitionPoint offset = row + 1 := by
  obtain ⟨bound, -⟩ := List.getElem?_eq_some_iff.mp isEntry
  rcases Nat.lt_trichotomy (index.partitionPoint offset) (row + 1) with less | same | more
  · have isFirst : index.getEntry (index.partitionPoint offset) = some (index.rows.get ⟨index.partitionPoint offset, by omega⟩) :=
      List.getElem?_eq_getElem (by omega)
    have after := lt_of_partition isFirst
    have sorted := consistent.sorted (by omega) isFirst isEntry
    omega
  · exact same
  · obtain ⟨next, isNext, before⟩ := getEntry_of_partition more
    have after := ends next isNext
    omega

theorem Laid.nonUniform (laid : index.Laid row entry runs) (isEntry : index.getEntry row = some entry)
    (sizing : entry.graphemeSizing = .nonUniform) : index.graphemeSizing.get entry.contentOffset = some runs := by
  have sized := laid.sizing
  rw [graphemeRunsForRow, isEntry] at sized
  simpa only [bind_eq_bind, bind_some, sizing] using sized

theorem Laid.uniform {run : GraphemeRun} (laid : index.Laid row entry runs) (isEntry : index.getEntry row = some entry)
    (sizing : entry.graphemeSizing = .uniform run) : runs = [run] := by
  have sized := laid.sizing
  rw [graphemeRunsForRow, isEntry] at sized
  simpa only [bind_eq_bind, bind_some, sizing, Option.some.injEq, eq_comm] using sized

theorem Laid.infos (laid : index.Laid row entry runs) : index.graphemeInfosForRow row = some (expand runs) := by
  rw [graphemeInfosForRow, laid.sizing]
  rfl

theorem Laid.contentOffsetAtPoint {col : ℕ} (laid : index.Laid row entry runs) (isEntry : index.getEntry row = some entry)
    (nonempty : runs ≠ []) : index.contentOffsetAtPoint ⟨row, col⟩ = offsetInRow entry ⟨row, col⟩ runs := by
  rw [Index.contentOffsetAtPoint, show index.rows[row]? = some entry from isEntry]
  cases sizing : entry.graphemeSizing with
  | uniform run =>
    rw [laid.uniform isEntry sizing]
    simp only [sizing]
  | nonUniform => simp only [sizing, laid.nonUniform isEntry sizing]
  | emptyRow => exact absurd (laid.empty.mpr sizing) nonempty

theorem Laid.contentOffsetToPoint (laid : index.Laid row entry runs) (isEntry : index.getEntry row = some entry)
    (partition : index.partitionPoint offset = row + 1) :
    index.contentOffsetToPoint offset =
      if runs = [] then if offset = entry.contentOffset then some (.ok ⟨row, 0⟩) else none
      else pointInRow entry row offset runs := by
  simp only [Index.contentOffsetToPoint, partition, isEntry]
  cases sizing : entry.graphemeSizing with
  | uniform run =>
    rw [laid.uniform isEntry sizing, if_neg (cons_ne_nil _ _)]
  | nonUniform =>
    rw [if_neg (mt laid.empty.mp (by rw [sizing]; nofun))]
    simp only [laid.nonUniform isEntry sizing]
  | emptyRow => rw [if_pos (laid.empty.mpr sizing)]

theorem Laid.partitionPoint_eq (consistent : index.Consistent) (laid : index.Laid row entry runs)
    (isEntry : index.getEntry row = some entry) (starts : entry.contentOffset ≤ offset)
    (inside : offset < entry.contentOffset + bytesOf (expand runs)) : index.partitionPoint offset = row + 1 := by
  apply consistent.partitionPoint_eq isEntry starts
  intro next isNext
  have ends := laid.ends
  rw [rowEnd_of_next isNext] at ends
  omega

theorem contentOffsetToPoint_grapheme (consistent : index.Consistent) (grapheme : index.HasGrapheme point start len)
    (reaches : start ≤ offset) (inside : offset < start + len) : index.contentOffsetToPoint offset = some (.ok point) := by
  obtain ⟨entry, before, info, after, isEntry, parts, isColumn, isStart, isLen⟩ := grapheme
  obtain ⟨runs, laid⟩ := consistent point.row entry isEntry
  rw [laid.infos, Option.some.injEq] at parts
  have nonempty : runs ≠ [] := by
    rintro rfl
    simp [expand] at parts
  have bytes : bytesOf (expand runs) = bytesOf before + (info.utf8Bytes.get + bytesOf after) := by
    rw [parts, bytesOf_append]
    rfl
  have partition := laid.partitionPoint_eq consistent isEntry (show entry.contentOffset ≤ offset by omega) (by omega)
  rw [laid.contentOffsetToPoint isEntry partition, if_neg nonempty, pointInRow,
    columnInRuns_inside laid.wide parts (show bytesOf before ≤ offset - entry.contentOffset by omega) (by omega), Nat.zero_add,
    ← isColumn]
  rfl

theorem contentOffsetAtPoint_grapheme (consistent : index.Consistent) (grapheme : index.HasGrapheme point start len) :
    index.contentOffsetAtPoint point = some (.ok start) := by
  obtain ⟨entry, before, info, after, isEntry, parts, isColumn, isStart, -⟩ := grapheme
  obtain ⟨row, col⟩ := point
  obtain ⟨runs, laid⟩ := consistent row entry isEntry
  rw [laid.infos, Option.some.injEq] at parts
  have nonempty : runs ≠ [] := by
    rintro rfl
    simp [expand] at parts
  simp only at isColumn
  rw [laid.contentOffsetAtPoint isEntry nonempty, offsetInRow, isColumn,
    offsetInRuns_prefix laid.wide (parts ▸ prefix_append before _), isStart]
  rfl

theorem Consistent.roundTrips (consistent : index.Consistent) : index.RoundTrips := by
  have back : ∀ point start len, index.HasGrapheme point start len → index.contentOffsetToPoint start = some (.ok point) := by
    intro point start len grapheme
    refine contentOffsetToPoint_grapheme consistent grapheme (Nat.le_refl _) ?_
    obtain ⟨_, _, info, _, _, _, _, _, rfl⟩ := grapheme
    have positive := info.utf8Bytes.pos
    omega
  refine ⟨fun point start len => contentOffsetAtPoint_grapheme consistent, back, ?_⟩
  intro point other start otherStart len otherLen grapheme otherGrapheme differ same
  have there := back point start len grapheme
  rw [same, back other otherStart otherLen otherGrapheme] at there
  simp only [Option.some.injEq, Except.ok.injEq] at there
  exact differ there.symm

theorem Consistent.lt_of_partition_zero (consistent : index.Consistent) (outside : index.partitionPoint offset = 0)
    (isEntry : index.getEntry row = some entry) : offset < entry.contentOffset := by
  obtain ⟨bound, -⟩ := List.getElem?_eq_some_iff.mp isEntry
  obtain ⟨first, isFirst⟩ : ∃ first, index.getEntry 0 = some first :=
    ⟨index.rows.get ⟨0, by omega⟩, List.getElem?_eq_getElem (by omega)⟩
  have after : offset < first.contentOffset := lt_of_partition (by rw [outside, isFirst])
  exact Nat.lt_of_lt_of_le after (consistent.sorted (Nat.zero_le row) isFirst isEntry)

theorem exists_parts {infos : List GraphemeInfo} {rest : ℕ} (inside : rest < bytesOf infos) :
    ∃ before info after, infos = before ++ info :: after ∧ bytesOf before ≤ rest ∧ rest < bytesOf before + info.utf8Bytes.get := by
  induction infos generalizing rest with
  | nil => cases inside
  | cons first infos ih =>
    have bytes : bytesOf (first :: infos) = first.utf8Bytes.get + bytesOf infos := rfl
    by_cases here : rest < first.utf8Bytes.get
    · exact ⟨[], first, infos, rfl, Nat.zero_le _, by simpa [bytesOf] using here⟩
    · obtain ⟨before, info, after, rfl, reaches, ends⟩ := @ih (rest - first.utf8Bytes.get) (by omega)
      have beforeBytes : bytesOf (first :: before) = first.utf8Bytes.get + bytesOf before := rfl
      exact ⟨first :: before, info, after, rfl, by omega, by omega⟩

/-- What goes wrong in the row that the offset is looked for in. -/
def AstrayInRow (index : Index) (row : ℕ) (entry : Entry) (runs : List GraphemeRun) (offset : ℕ) : Prop :=
  entry.hasTrailingNewline = true ∧ offset = entry.contentOffset + bytesOf (expand runs) ∨
    index.getEntry (row + 1) = none ∧
      (runs = [] ∧ index.rowEnd row ≤ offset ∨ entry.hasTrailingNewline = false ∧ offset = index.rowEnd row)

theorem rowEnd_of_last (isLast : index.getEntry (row + 1) = none) : index.rowEnd row = index.contentLen := by
  rw [rowEnd, contentOffsetForRow, show index.rows[row + 1]? = none from isLast, map_none, getD_none]

theorem getLast_of_next (isEntry : index.getEntry row = some entry) (isLast : index.getEntry (row + 1) = none) :
    index.rows.getLast? = some entry := by
  obtain ⟨bound, -⟩ := List.getElem?_eq_some_iff.mp isEntry
  have ends := List.getElem?_eq_none_iff.mp isLast
  rw [List.getLast?_eq_getElem?, show index.rows.length - 1 = row by omega]
  exact isEntry

theorem exists_last (isLast : index.rows.getLast? = some entry) :
    ∃ row, index.getEntry row = some entry ∧ index.getEntry (row + 1) = none := by
  rw [List.getLast?_eq_getElem?] at isLast
  obtain ⟨bound, -⟩ := List.getElem?_eq_some_iff.mp isLast
  exact ⟨_, isLast, List.getElem?_eq_none (by omega)⟩

theorem Consistent.astray_iff (consistent : index.Consistent) (laid : index.Laid row entry runs)
    (isEntry : index.getEntry row = some entry) (partition : index.partitionPoint offset = row + 1) :
    index.Astray offset ↔ index.AstrayInRow row entry runs offset := by
  have here : ∀ {other found}, index.getEntry other = some found → found.contentOffset ≤ offset →
      (∀ next, index.getEntry (other + 1) = some next → offset < next.contentOffset) → other = row ∧ found = entry := by
    intro other found isFound starts ends
    have same := consistent.partitionPoint_eq isFound starts ends
    have isRow : other = row := by omega
    rw [isRow, isEntry] at isFound
    exact ⟨isRow, (Option.some.inj isFound).symm⟩
  constructor
  · rintro (⟨other, found, infos, isFound, isInfos, newline, atNewline⟩ | ⟨found, isLast, ends⟩)
    · obtain ⟨otherRuns, otherLaid⟩ := consistent other found isFound
      rw [otherLaid.infos, Option.some.injEq] at isInfos
      obtain ⟨rfl, rfl⟩ := here isFound (by omega) fun next isNext => by
        have stop := otherLaid.ends
        rw [rowEnd_of_next isNext, newline, isInfos, Bool.toNat_true] at stop
        omega
      have same := laid.infos
      rw [otherLaid.infos, Option.some.injEq] at same
      exact .inl ⟨newline, by rw [← same, isInfos, atNewline]⟩
    · obtain ⟨other, isFound, isNone⟩ := exists_last isLast
      obtain ⟨otherRuns, otherLaid⟩ := consistent other found isFound
      have stop := otherLaid.ends
      rw [rowEnd_of_last isNone] at stop
      obtain ⟨rfl, rfl⟩ := here isFound (by omega) fun next isNext => by
        rw [isNone] at isNext
        cases isNext
      refine .inr ⟨isNone, ?_⟩
      rw [rowEnd_of_last isNone, laid.empty]
      exact ends
  · rintro (⟨newline, atNewline⟩ | ⟨isNone, ends⟩)
    · exact .inl ⟨row, entry, _, isEntry, laid.infos, newline, atNewline⟩
    · rw [rowEnd_of_last isNone, laid.empty] at ends
      exact .inr ⟨entry, getLast_of_next isEntry isNone, ends⟩

theorem Consistent.no_grapheme (consistent : index.Consistent) (laid : index.Laid row entry runs)
    (isEntry : index.getEntry row = some entry) (partition : index.partitionPoint offset = row + 1)
    (past : entry.contentOffset + bytesOf (expand runs) ≤ offset) (grapheme : index.HasGrapheme point start len) :
    ¬ (start ≤ offset ∧ offset < start + len) := by
  rintro ⟨reaches, inside⟩
  obtain ⟨found, before, info, after, isFound, parts, -, isStart, isLen⟩ := grapheme
  obtain ⟨otherRuns, otherLaid⟩ := consistent point.row found isFound
  rw [otherLaid.infos, Option.some.injEq] at parts
  have bytes : bytesOf (expand otherRuns) = bytesOf before + (info.utf8Bytes.get + bytesOf after) := by
    rw [parts, bytesOf_append]
    rfl
  have same := otherLaid.partitionPoint_eq consistent isFound (show found.contentOffset ≤ offset by omega) (by omega)
  have isRow : point.row = row := by omega
  rw [isRow] at isFound otherLaid
  rw [isEntry, Option.some.injEq] at isFound
  have infos := laid.infos
  rw [otherLaid.infos, Option.some.injEq] at infos
  rw [isFound, ← infos] at past
  omega

theorem Consistent.resolves_before (consistent : index.Consistent) (outside : index.partitionPoint offset = 0) :
    index.Resolves offset ∧ ¬ index.Astray offset := by
  have answer : index.contentOffsetToPoint offset =
      some (.error (.offsetBeforeFirstRow offset ((index.contentOffsetForRow 0).getD 0))) := by
    simp only [Index.contentOffsetToPoint, outside]
  refine ⟨.inr ⟨?_, _, answer⟩, ?_⟩
  · rintro point start len ⟨entry, before, info, after, isEntry, -, -, isStart, -⟩ ⟨reaches, -⟩
    have starts := consistent.lt_of_partition_zero outside isEntry
    omega
  · rintro (⟨row, entry, infos, isEntry, -, -, atNewline⟩ | ⟨entry, isLast, ends⟩)
    · have starts := consistent.lt_of_partition_zero outside isEntry
      omega
    · obtain ⟨row, isEntry, isNone⟩ := exists_last isLast
      obtain ⟨runs, laid⟩ := consistent row entry isEntry
      have starts := consistent.lt_of_partition_zero outside isEntry
      have stop := laid.ends
      rw [rowEnd_of_last isNone] at stop
      omega

theorem ends_after (partition : index.partitionPoint offset = row + 1) :
    index.getEntry (row + 1) = none ∨ offset < index.rowEnd row := by
  cases isNext : index.getEntry (row + 1) with
  | none => exact .inl rfl
  | some next =>
    refine .inr ?_
    rw [rowEnd_of_next isNext]
    exact lt_of_partition (by rw [partition, isNext])

theorem Consistent.resolves_inside (consistent : index.Consistent) (laid : index.Laid row entry runs)
    (isEntry : index.getEntry row = some entry) (starts : entry.contentOffset ≤ offset)
    (inside : offset < entry.contentOffset + bytesOf (expand runs)) :
    index.Resolves offset ∧ ¬ index.AstrayInRow row entry runs offset := by
  constructor
  · obtain ⟨before, info, after, parts, reaches, ends⟩ := exists_parts (show offset - entry.contentOffset < bytesOf (expand runs) by omega)
    have grapheme : index.HasGrapheme ⟨row, columnsOf before⟩ (entry.contentOffset + bytesOf before) info.utf8Bytes.get :=
      ⟨entry, before, info, after, isEntry, parts ▸ laid.infos, rfl, rfl, rfl⟩
    have reaches : entry.contentOffset + bytesOf before ≤ offset := by omega
    have ends : offset < entry.contentOffset + bytesOf before + info.utf8Bytes.get := by omega
    exact .inl ⟨_, _, _, grapheme, reaches, ends, contentOffsetToPoint_grapheme consistent grapheme reaches ends⟩
  · have stop := laid.ends
    rintro (⟨-, atNewline⟩ | ⟨-, ⟨-, ends⟩ | ⟨-, ends⟩⟩) <;> omega

theorem Consistent.resolves_past (consistent : index.Consistent) (laid : index.Laid row entry runs)
    (isEntry : index.getEntry row = some entry) (partition : index.partitionPoint offset = row + 1)
    (past : entry.contentOffset + bytesOf (expand runs) ≤ offset) :
    index.Resolves offset ↔ ∃ error, index.contentOffsetToPoint offset = some (.error error) := by
  have absent := fun point start len => @Consistent.no_grapheme index point offset start len _ _ _ consistent laid isEntry partition past
  constructor
  · rintro (⟨point, start, len, grapheme, reaches, inside, -⟩ | ⟨-, answer⟩)
    · exact absurd ⟨reaches, inside⟩ (absent point start len grapheme)
    · exact answer
  · exact fun answer => .inr ⟨absent, answer⟩

theorem Consistent.resolves_iff (consistent : index.Consistent) (offset : ℕ) : index.Resolves offset ↔ ¬ index.Astray offset := by
  cases partition : index.partitionPoint offset with
  | zero =>
    obtain ⟨resolves, notAstray⟩ := consistent.resolves_before partition
    exact ⟨fun _ => notAstray, fun _ => resolves⟩
  | succ row =>
    obtain ⟨entry, isEntry, starts⟩ := getEntry_of_partition (show row < index.partitionPoint offset by omega)
    obtain ⟨runs, laid⟩ := consistent row entry isEntry
    rw [consistent.astray_iff laid isEntry partition]
    by_cases inside : offset < entry.contentOffset + bytesOf (expand runs)
    · obtain ⟨resolves, notAstray⟩ := consistent.resolves_inside laid isEntry starts inside
      exact ⟨fun _ => notAstray, fun _ => resolves⟩
    rw [consistent.resolves_past laid isEntry partition (Nat.le_of_not_lt inside), laid.contentOffsetToPoint isEntry partition]
    have ends := laid.ends
    have later := ends_after partition
    by_cases empty : runs = []
    · rw [if_pos empty]
      have noBytes : bytesOf (expand runs) = 0 := by rw [empty]; rfl
      constructor
      · rintro ⟨error, answer⟩
        split at answer <;> cases answer
      · intro notAstray
        refine absurd ?_ notAstray
        cases newline : entry.hasTrailingNewline <;> rw [newline] at ends <;> simp only [Bool.toNat_true, Bool.toNat_false] at ends
        · exact .inr ⟨later.resolve_right (by omega), .inl ⟨empty, by omega⟩⟩
        · by_cases atNewline : offset = entry.contentOffset
          · exact .inl ⟨newline, by omega⟩
          · exact .inr ⟨later.resolve_right (by omega), .inl ⟨empty, by omega⟩⟩
    rw [if_neg empty, pointInRow]
    by_cases whole : offset = entry.contentOffset + bytesOf (expand runs)
    · have rest : offset - entry.contentOffset = bytesOf (expand runs) := by omega
      rw [rest, columnInRuns_whole laid.wide empty]
      constructor
      · rintro ⟨error, answer⟩
        cases answer
      · intro notAstray
        refine absurd ?_ notAstray
        cases newline : entry.hasTrailingNewline <;> rw [newline] at ends <;> simp only [Bool.toNat_true, Bool.toNat_false] at ends
        · exact .inr ⟨later.resolve_right (by omega), .inr ⟨newline, by omega⟩⟩
        · exact .inl ⟨newline, whole⟩
    · rw [columnInRuns_beyond laid.wide (by omega)]
      refine ⟨fun _ => ?_, fun _ => ⟨_, rfl⟩⟩
      rintro (⟨-, atNewline⟩ | ⟨-, ⟨isEmpty, -⟩ | ⟨newline, stop⟩⟩)
      · exact whole atNewline
      · exact empty isEmpty
      · rw [newline, Bool.toNat_false] at ends
        omega

end Rows

def Sound (index : Index) : Prop := ∃ start rows, index.Indexes start rows ∧ ∀ row ∈ rows, row.FromCells

theorem bytesOf_infos (graphemes : List Grapheme) : bytesOf (graphemes.map Grapheme.info) = byteLen graphemes := by
  rw [bytesOf, byteLen, List.map_map]
  rfl

theorem Sound.consistent (sound : index.Sound) : index.Consistent := by
  obtain ⟨start, rows, indexes, fromCells⟩ := sound
  intro i entry isEntry
  obtain ⟨bound, -⟩ := List.getElem?_eq_some_iff.mp isEntry
  have lengths : index.rows.length = rows.length := indexes.length_eq
  have atRow : rows[i]? = some rows[i] := List.getElem?_eq_getElem (by omega)
  obtain ⟨offset, newline, rowSizing, members, sized⟩ := indexes.getElem isEntry atRow
  have infos := graphemeInfosForRow_eq indexes atRow
  have ends : index.rowEnd i = entry.contentOffset + byteLen rows[i].graphemes + entry.hasTrailingNewline.toNat := by
    rw [rowEnd, offset_or_len indexes, take_succ_eq_append_getElem (by omega), written_append, byteLen_append, written_cons,
      written_nil, append_nil, TextRow.byteLen_written, offset, newline, TextRow.byteLen, Nat.add_assoc, Nat.add_assoc]
  have wide : ∀ info ∈ rows[i].graphemes.map Grapheme.info, 0 < info.cellWidth := by
    intro info member
    obtain ⟨grapheme, isGrapheme, rfl⟩ := List.mem_map.mp member
    exact (fromCells _ (getElem_mem _) grapheme isGrapheme).wide
  rw [graphemeInfosForRow] at infos
  obtain ⟨runs, isRuns, expanded⟩ := Option.map_eq_some_iff.mp infos
  have expanded : expand runs = rows[i].graphemes.map Grapheme.info := expanded
  refine ⟨runs, isRuns, ?_, ?_, ?_⟩
  · rw [graphemeRunsForRow, isEntry] at isRuns
    simp only [bind_eq_bind, bind_some] at isRuns
    generalize entry.graphemeSizing = sizing at sized isRuns ⊢
    generalize rows[i].graphemes.map Grapheme.info = infos at sized
    cases sized with
    | emptyRow =>
      cases isRuns
      exact ⟨fun _ => rfl, fun _ => rfl⟩
    | uniform run =>
      cases isRuns
      exact ⟨by simp, by simp⟩
    | nonUniform others nonempty =>
      simp only [OrderedMap.get_eq_some (members _ (mem_singleton_self _)), Option.some.injEq] at isRuns
      exact ⟨fun empty => absurd (isRuns.trans empty) nonempty, by simp⟩
  · rw [expanded]
    exact wide
  · rw [expanded, bytesOf_infos]
    exact ends

theorem Sound.appendToIndex {index : Index} {builder : EntryBuilder} {row : TextRow} (sound : index.Sound)
    (builds : builder.Builds row) (fromCells : row.FromCells) : (builder.appendToIndex index).Sound := by
  obtain ⟨start, rows, indexes, earlier⟩ := sound
  exact ⟨start, _, (EntryBuilder.appendToIndex_spec indexes builds).1, TextRow.fromCells_snoc earlier fromCells⟩

theorem Sound.truncate {index : Index} (sound : index.Sound) (newLen : ℕ) : (index.truncate newLen).1.Sound := by
  obtain ⟨start, rows, indexes, fromCells⟩ := sound
  exact ⟨start, _, (truncate_spec indexes newLen).1, fun row member => fromCells row (mem_of_mem_take member)⟩

theorem Sound.truncateFront {index : Index} (sound : index.Sound) (count : ℕ) : (index.truncateFront count).1.Sound := by
  obtain ⟨start, rows, indexes, fromCells⟩ := sound
  exact ⟨_, _, (truncateFront_spec indexes count).1, fun row member => fromCells row (mem_of_mem_drop member)⟩

theorem Sound.rebuild {debugAssertions : Bool} {index next : Index} {columns : ℕ} (sound : index.Sound)
    (rebuilt : index.rebuild debugAssertions columns = some next) : next.Sound := by
  obtain ⟨start, rows, indexes, fromCells⟩ := sound
  exact ⟨_, _, (rebuild_spec indexes fromCells rebuilt).1, fromCells_rewrap columns fromCells⟩

end Index

namespace Pushing

variable {debugAssertions : Bool} {pushing next : Pushing}

structure Sound (pushing : Pushing) : Prop where
  index : pushing.storage.index.Sound
  builds : ∃ graphemes, pushing.entryBuilder.Builds ⟨graphemes, false⟩ ∧ ∀ grapheme ∈ graphemes, grapheme.FromCell

theorem Sound.sameRest (sound : pushing.Sound) (same : SameRest pushing next) : next.Sound :=
  ⟨same.index ▸ sound.index, same.entryBuilder ▸ sound.builds⟩

theorem Sound.pushGrapheme {grapheme : Grapheme} (sound : pushing.Sound) (fromCell : grapheme.FromCell)
    (pushed : pushing.pushGrapheme grapheme = some next) : next.Sound := by
  obtain ⟨index, graphemes, builds, fromCells⟩ := sound
  obtain ⟨entryBuilder, processed, rest⟩ := Option.bind_eq_some_iff.mp pushed
  obtain ⟨content, -, made⟩ := Option.bind_eq_some_iff.mp rest
  obtain rfl := Option.some_inj.mp made
  have grown := @EntryBuilder.Builds.push _ _ ⟨graphemes, false⟩ builds _ processed
  exact ⟨index, _, grown.1, List.forall_mem_append.mpr ⟨fromCells, List.forall_mem_singleton.mpr fromCell⟩⟩

theorem Sound.pushCell {cell : Cell} (sound : pushing.Sound) (pushed : pushing.pushCell debugAssertions cell = some next) :
    next.Sound := by
  unfold Pushing.pushCell at pushed
  dsimp only at pushed
  split at pushed
  · obtain rfl := Option.some_inj.mp pushed
    obtain ⟨index, graphemes, builds, fromCells⟩ := sound
    refine ⟨index, graphemes, ?_, fromCells⟩
    dsimp only
    split
    · exact builds.addLeadingWideCharSpacer
    · exact builds
  · obtain ⟨coloured, colouredEq, pushed⟩ := Option.bind_eq_some_iff.mp pushed
    obtain ⟨styled, styledEq, pushed⟩ := Option.bind_eq_some_iff.mp pushed
    obtain ⟨grapheme, made, pushed⟩ := Option.bind_eq_some_iff.mp pushed
    have marked := ((sound.sameRest (setFgColor_spec colouredEq).1).sameRest (setBgAndStyle_spec styledEq).1).sameRest
      (setMarker_spec styled cell).1
    split at pushed
    · obtain ⟨filled, filledEq, last⟩ := Option.bind_eq_some_iff.mp pushed
      have isFilled : filled.Sound := by
        refine Checked.foldlM_keeps (fun other member before after isSound step => ?_) ?_ filledEq
        · rw [eq_of_mem_replicate member] at step
          exact Sound.pushGrapheme isSound Grapheme.fromCell_emptyCell step
        · exact ⟨marked.index, marked.builds⟩
      have ready : Sound { filled with lastCell := pushing.idx + 1 } := ⟨isFilled.index, isFilled.builds⟩
      exact ready.pushGrapheme (Grapheme.newFromCell_spec made) last
    · obtain rfl := Option.some_inj.mp pushed
      exact ⟨marked.index, marked.builds⟩

theorem Sound.endRow {softWraps : Bool} (sound : pushing.Sound) (ended : pushing.endRow softWraps = some next) :
    next.storage.index.Sound := by
  obtain ⟨index, graphemes, builds, fromCells⟩ := sound
  unfold Pushing.endRow at ended
  split at ended
  · obtain rfl := Option.some_inj.mp ended
    exact index.appendToIndex builds fromCells
  · obtain ⟨content, -, made⟩ := Option.bind_eq_some_iff.mp ended
    obtain rfl := Option.some_inj.mp made
    exact index.appendToIndex (@EntryBuilder.Builds.addTrailingNewline _ ⟨graphemes, false⟩ builds) fromCells

theorem pushRow_sound {row : Row} (sound : pushing.storage.index.Sound) (pushed : pushing.pushRow debugAssertions row = some next) :
    next.storage.index.Sound := by
  unfold pushRow at pushed
  obtain ⟨cells, -, pushed⟩ := Option.bind_eq_some_iff.mp pushed
  obtain ⟨ended, looped, pushed⟩ := Option.bind_eq_some_iff.mp pushed
  obtain ⟨softWraps, -, pushed⟩ := Option.bind_eq_some_iff.mp pushed
  have started : Sound
      { storage := pushing.storage
        fgColor := pushing.fgColor
        bgAndStyle := pushing.bgAndStyle
        offset := pushing.storage.content.endOffset } :=
    ⟨sound, [], EntryBuilder.builds_new, nofun⟩
  have isSound : ended.Sound := Checked.foldlM_keeps (fun _ _ _ _ => Sound.pushCell) started looped
  exact isSound.endRow pushed

end Pushing

namespace FlatStorage

variable {debugAssertions : Bool} {storage next : FlatStorage}

theorem pushRowsInternal_sound {rows : List Row} (sound : storage.index.Sound)
    (pushed : storage.pushRowsInternal debugAssertions rows = some next) : next.index.Sound := by
  obtain ⟨pushing, looped, made⟩ := Option.bind_eq_some_iff.mp pushed
  obtain rfl := Option.some_inj.mp made
  exact @Checked.foldlM_keeps _ _ (fun pushing : Pushing => pushing.storage.index.Sound) _ _ _ _
    (fun _ _ _ _ => Pushing.pushRow_sound) sound looped

theorem truncateRowsFront_sound (sound : storage.index.Sound) (count : ℕ) : (storage.truncateRowsFront count).index.Sound := by
  unfold truncateRowsFront
  split
  · exact sound
  · exact sound.truncateFront _

theorem applyMaxRows_sound (sound : storage.index.Sound) : storage.applyMaxRows.index.Sound := by
  unfold applyMaxRows
  dsimp only
  split
  · exact truncateRowsFront_sound sound _
  · exact sound

theorem truncate_sound {newLen : ℕ} (sound : storage.index.Sound) (truncated : storage.truncate debugAssertions newLen = some next) :
    next.index.Sound := by
  obtain ⟨content, -, made⟩ := Option.bind_eq_some_iff.mp truncated
  obtain rfl := Option.some_inj.mp made
  exact sound.truncate newLen

end FlatStorage

namespace StorageCall

variable {debugAssertions : Bool} {storage next : FlatStorage}

theorem apply_sound {call : StorageCall} (sound : storage.index.Sound) (applied : call.apply debugAssertions storage = some next) :
    next.index.Sound := by
  cases call with
  | pushRows rows =>
    obtain ⟨grown, pushed, rfl⟩ := Option.map_eq_some_iff.mp applied
    exact FlatStorage.applyMaxRows_sound (FlatStorage.pushRowsInternal_sound sound pushed)
  | pushRowsWithoutTruncation rows => exact FlatStorage.pushRowsInternal_sound sound applied
  | applyMaxRows =>
    obtain rfl := Option.some_inj.mp applied
    exact FlatStorage.applyMaxRows_sound sound
  | popRows count =>
    obtain ⟨⟨rows, shortened⟩, popped, rfl⟩ := Option.map_eq_some_iff.mp applied
    obtain ⟨_, -, popped⟩ := Option.bind_eq_some_iff.mp popped
    obtain ⟨storage', truncated, made⟩ := Option.bind_eq_some_iff.mp popped
    cases Option.some_inj.mp made
    exact FlatStorage.truncate_sound sound truncated
  | truncateRowsFront count =>
    obtain rfl := Option.some_inj.mp applied
    exact FlatStorage.truncateRowsFront_sound sound count
  | clear => exact FlatStorage.truncate_sound sound applied
  | setColumns newColumns =>
    change storage.setColumns debugAssertions newColumns = some next at applied
    unfold FlatStorage.setColumns at applied
    split at applied
    · obtain rfl := Option.some_inj.mp applied
      exact sound
    · obtain ⟨index, rebuilt, rfl⟩ := Option.map_eq_some_iff.mp applied
      exact sound.rebuild rebuilt

def run (debugAssertions : Bool) (calls : List StorageCall) (storage : FlatStorage) : Option FlatStorage :=
  calls.foldlM (fun storage call => call.apply debugAssertions storage) storage

theorem run_sound (calls : List StorageCall) (sound : storage.index.Sound) (ran : run debugAssertions calls storage = some next) :
    next.index.Sound :=
  @Checked.foldlM_keeps _ _ (fun storage : FlatStorage => storage.index.Sound) _ _ _ _ (fun _ _ _ _ => apply_sound) sound ran

theorem sound_new (columns : ℕ) (maxRows : Option ℕ) : (FlatStorage.new columns maxRows).index.Sound := ⟨0, [], .nil 0, nofun⟩

/-- Points and offsets lead to each other, and each other offset to an error, but for the offsets that go astray. -/
theorem run_resolves (debugAssertions : Bool) (columns : ℕ) (maxRows : Option ℕ) (calls : List StorageCall) (storage : FlatStorage)
    (ran : run debugAssertions calls (.new columns maxRows) = some storage) :
    storage.index.RoundTrips ∧ ∀ offset, storage.index.Resolves offset ↔ ¬ storage.index.Astray offset := by
  have consistent := (run_sound calls (sound_new columns maxRows) ran).consistent
  exact ⟨consistent.roundTrips, consistent.resolves_iff⟩

theorem run_resolves_rewrapped :
    ∃ storage, run true [pushRows sampleRows, setColumns 2] (.new 3 none) = some storage ∧
      storage.index.RoundTrips ∧ ∀ offset, storage.index.Resolves offset ↔ ¬ storage.index.Astray offset := by
  have returns : (run true [pushRows sampleRows, setColumns 2] (.new 3 none)).isSome = true := by decide +kernel
  obtain ⟨storage, ran⟩ := Option.isSome_iff_exists.mp returns
  exact ⟨storage, ran, run_resolves true 3 none _ storage ran⟩

/-- Behind a last row that is empty an offset panics, and the offset of a newline has the column behind its row. -/
theorem contentOffsetToPoint_astray :
    (∃ storage, run false [pushRows [⟨List.replicate 3 .default, 0⟩]] (.new 3 none) = some storage ∧
      storage.index.contentOffsetToPoint 1 = none ∧ ¬ storage.index.Resolves 1) ∧
    ∃ storage, run false [pushRows [⟨[{ Cell.default with c := 'a' }, .default, .default], 1⟩]] (.new 3 none) = some storage ∧
      storage.index.contentOffsetToPoint 1 = some (.ok ⟨0, 1⟩) ∧ ¬ storage.index.Resolves 1 := by
  constructor
  · have panics : (run false [pushRows [⟨List.replicate 3 .default, 0⟩]] (.new 3 none)).map
        (fun storage => (storage.index.contentOffsetToPoint 1).isNone) = some true := by decide +kernel
    obtain ⟨storage, ran, isNone⟩ := Option.map_eq_some_iff.mp panics
    have isNone := Option.isNone_iff_eq_none.mp isNone
    refine ⟨storage, ran, isNone, ?_⟩
    rintro (⟨point, start, len, -, -, -, answer⟩ | ⟨-, error, answer⟩) <;> rw [answer] at isNone <;> cases isNone
  · have answers : (run false [pushRows [⟨[{ Cell.default with c := 'a' }, .default, .default], 1⟩]] (.new 3 none)).map
        (fun storage => ((storage.index.getEntry 0).map fun entry => (entry.hasTrailingNewline, entry.contentOffset),
          (storage.index.graphemeInfosForRow 0).map bytesOf,
          (storage.index.contentOffsetToPoint 1).bind fun answer => answer.toOption)) =
        some (some (true, 0), some 1, some ⟨0, 1⟩) := by decide +kernel
    obtain ⟨storage, ran, same⟩ := Option.map_eq_some_iff.mp answers
    simp only [Prod.mk.injEq] at same
    obtain ⟨isEntry, isInfos, answer⟩ := same
    obtain ⟨entry, isEntry, fields⟩ := Option.map_eq_some_iff.mp isEntry
    obtain ⟨infos, isInfos, bytes⟩ := Option.map_eq_some_iff.mp isInfos
    obtain ⟨answer, isAnswer, isPoint⟩ := Option.bind_eq_some_iff.mp answer
    simp only [Prod.mk.injEq] at fields
    refine ⟨storage, ran, ?_, fun resolves => ?_⟩
    · cases answer with
      | ok point => rw [isAnswer, Option.some.inj isPoint]
      | error error => cases isPoint
    · have consistent := (run_sound _ (sound_new 3 none) ran).consistent
      exact (consistent.resolves_iff 1).mp resolves (.inl ⟨0, entry, infos, isEntry, isInfos, fields.1, by omega⟩)

end StorageCall

end Warp.Grid
