import Warp.Grid.StorageRows

namespace Warp.Grid

open List

section Push

variable {debugAssertions : Bool} {start : ℕ} {rows : List TextRow}

theorem Pushing.pushRow_spec {pushing next : Pushing} {row : Row}
    (represents : pushing.storage.Represents start rows)
    (pushed : pushing.pushRow debugAssertions row = some next) :
    let line := Line.ofRow pushing.fgColor pushing.bgAndStyle row
    next.storage.Represents start
        (rows ++ [⟨line.graphemes, Pushing.rowSoftWraps pushing.storage.columns row = some false⟩]) ∧
      next.fgColor = line.fgColor ∧ next.bgAndStyle = line.bgAndStyle ∧
      next.storage.columns = pushing.storage.columns ∧ next.storage.maxRows = pushing.storage.maxRows := by
  intro line
  unfold pushRow at pushed
  obtain ⟨cells, dirty, pushed⟩ := Option.bind_eq_some_iff.mp pushed
  obtain ⟨ended, looped, pushed⟩ := Option.bind_eq_some_iff.mp pushed
  obtain ⟨softWraps, wraps, pushed⟩ := Option.bind_eq_some_iff.mp pushed
  have cellsEq : cells = row.inner.take row.occ := by
    unfold Row.dirtyCells at dirty
    split at dirty
    · exact (Option.some_inj.mp dirty).symm
    · cases dirty
  subst cellsEq
  have begun : Reads
      { storage := pushing.storage
        fgColor := pushing.fgColor
        bgAndStyle := pushing.bgAndStyle
        offset := pushing.storage.content.endOffset } start rows ⟨[], 0, pushing.fgColor, pushing.bgAndStyle⟩ := by
    refine ⟨⟨represents.index, ?_, EntryBuilder.builds_new, fun _ member => absurd member not_mem_nil⟩,
      rfl, rfl, rfl⟩
    rw [append_nil]
    exact represents.content
  obtain ⟨reads, columns, maxRows⟩ := pushCells_spec begun looped
  have columns : ended.storage.columns = pushing.storage.columns := columns
  have maxRows : ended.storage.maxRows = pushing.storage.maxRows := maxRows
  rw [columns] at wraps
  obtain ⟨index, stores, builds, fromCells⟩ := reads.writing
  have fromCellsRows : ∀ newline, ∀ other ∈ rows ++ [⟨line.graphemes, newline⟩], TextRow.FromCells other :=
    fun newline => TextRow.fromCells_snoc represents.fromCells fromCells
  rw [wraps]
  unfold endRow at pushed
  cases softWraps with
  | true =>
    obtain rfl := Option.some_inj.mp pushed
    refine ⟨⟨?_, ?_, fromCellsRows _⟩, reads.fgColor, reads.bgAndStyle, columns, maxRows⟩
    · exact (EntryBuilder.appendToIndex_spec index builds).1
    · rw [written_append, written_cons, written_nil, append_nil]
      simpa [TextRow.written, line, Line.ofRow] using stores
  | false =>
    obtain ⟨content, closed, made⟩ := Option.bind_eq_some_iff.mp pushed
    obtain rfl := Option.some_inj.mp made
    refine ⟨⟨?_, ?_, fromCellsRows _⟩, reads.fgColor, reads.bgAndStyle, columns, maxRows⟩
    · exact (EntryBuilder.appendToIndex_spec index
        (@EntryBuilder.Builds.addTrailingNewline _ ⟨_, false⟩ builds)).1
    · have closedStores := stores.pushGrapheme Grapheme.sized_newline closed
      rw [written_append, written_cons, written_nil, append_nil]
      simpa [TextRow.written, line, Line.ofRow, append_assoc] using closedStores

theorem Pushing.pushRows_spec (pushedRows : List Row) {pushing next : Pushing}
    (represents : pushing.storage.Represents start rows)
    (pushed : pushedRows.foldlM (Pushing.pushRow debugAssertions) pushing = some next) :
    next.storage.Represents start
        (rows ++ textRows pushing.storage.columns pushing.fgColor pushing.bgAndStyle pushedRows) ∧
      next.storage.maxRows = pushing.storage.maxRows := by
  induction pushedRows generalizing pushing rows with
  | nil =>
    obtain rfl := Option.some_inj.mp pushed
    rw [textRows, append_nil]
    exact ⟨represents, rfl⟩
  | cons row pushedRows ih =>
    rw [foldlM_cons] at pushed
    obtain ⟨middle, first, rest⟩ := Option.bind_eq_some_iff.mp pushed
    obtain ⟨representsMiddle, fg, style, columns, maxRows⟩ := pushRow_spec represents first
    obtain ⟨representsLast, lastMaxRows⟩ := ih representsMiddle rest
    rw [append_assoc, fg, style, columns] at representsLast
    exact ⟨representsLast, lastMaxRows.trans maxRows⟩

end Push

namespace FlatStorage

variable {debugAssertions : Bool} {storage next : FlatStorage} {start : ℕ} {rows : List TextRow}

theorem represents_new (columns : ℕ) (maxRows : Option ℕ) : (new columns maxRows).Represents 0 [] :=
  ⟨.nil 0, Content.stores_new, fun _ member => absurd member not_mem_nil⟩

section

variable (represents : storage.Represents start rows)
include represents

theorem Represents.totalRows_eq : storage.totalRows = rows.length :=
  represents.index.length_eq

theorem pushRowsInternal_spec {pushedRows : List Row}
    (pushed : storage.pushRowsInternal debugAssertions pushedRows = some next) :
    next.Represents start
        (rows ++ textRows storage.columns storage.fgColorMap.tail storage.bgAndStyleMap.tail pushedRows) ∧
      next.maxRows = storage.maxRows := by
  obtain ⟨pushing, looped, made⟩ := Option.bind_eq_some_iff.mp pushed
  obtain rfl := Option.some_inj.mp made
  exact Pushing.pushRows_spec pushedRows
    represents looped

theorem truncateRowsFront_spec (count : ℕ) :
    ∃ newStart, (storage.truncateRowsFront count).Represents newStart (rows.drop count) := by
  unfold truncateRowsFront
  by_cases nothing : count = 0
  · rw [if_pos nothing, nothing, drop_zero]
    exact ⟨start, represents⟩
  · rw [if_neg nothing, represents.totalRows_eq]
    have dropped : rows.drop count = rows.drop (min count rows.length) := by
      rcases Nat.le_total count rows.length with le | le
      · rw [Nat.min_eq_left le]
      · rw [Nat.min_eq_right le, drop_length, drop_of_length_le le]
    rw [dropped]
    obtain ⟨index, offset, -⟩ := Index.truncateFront_spec represents.index (min count rows.length)
    have parts : written rows = written (rows.take (min count rows.length)) ++ written (rows.drop (min count rows.length)) := by
      rw [← written_append, take_append_drop]
    have content := represents.content
    rw [parts] at content
    refine ⟨_, index, ?_, fun row member => represents.fromCells row (mem_of_mem_drop member)⟩
    change (storage.content.truncateFront (storage.index.truncateFront (min count rows.length)).2).Stores _ _
    rw [offset]
    exact content.truncateFront

theorem applyMaxRows_spec :
    ∃ newStart, storage.applyMaxRows.Represents newStart
      (rows.drop (rows.length - storage.maxRows.getD usizeMax)) := by
  have total : storage.index.len = rows.length := represents.totalRows_eq
  unfold applyMaxRows
  dsimp only
  rw [total]
  by_cases excess : storage.maxRows.getD usizeMax ≤ rows.length
  · rw [if_pos excess]
    exact truncateRowsFront_spec represents _
  · rw [if_neg excess, Nat.sub_eq_zero_of_le (Nat.le_of_not_le excess), drop_zero]
    exact ⟨start, represents⟩

theorem truncate_spec {newLen : ℕ} (truncated : storage.truncate debugAssertions newLen = some next) :
    next.Represents start (rows.take newLen) := by
  obtain ⟨index, offset, -⟩ := Index.truncate_spec represents.index newLen
  unfold truncate at truncated
  obtain ⟨content, shortened, made⟩ := Option.bind_eq_some_iff.mp truncated
  obtain rfl := Option.some_inj.mp made
  change storage.content.truncate _ (storage.index.truncate newLen).2 = _ at shortened
  rw [offset] at shortened
  have parts : written rows = written (rows.take newLen) ++ written (rows.drop newLen) := by
    rw [← written_append, take_append_drop]
  have stores := represents.content
  rw [parts] at stores
  exact ⟨index, stores.truncate shortened, fun row member => represents.fromCells row (mem_of_mem_take member)⟩

theorem popRows_spec {count : ℕ} {popped : List Row}
    (truncated : storage.popRows debugAssertions count = some (popped, next)) :
    next.Represents start (rows.take (rows.length - count)) := by
  obtain ⟨_, -, truncated⟩ := Option.bind_eq_some_iff.mp truncated
  obtain ⟨shortened, truncated, made⟩ := Option.bind_eq_some_iff.mp truncated
  cases Option.some_inj.mp made
  rw [← represents.totalRows_eq]
  exact truncate_spec represents truncated

theorem setColumns_spec {newColumns : ℕ}
    (keeps : newColumns = storage.columns ∨ 0 < storage.totalRows ∨ storage.content.endOffset = 0)
    (set : storage.setColumns debugAssertions newColumns = some next) :
    next.Represents start (if newColumns = storage.columns then rows else rewrap newColumns rows) := by
  unfold setColumns at set
  by_cases same : storage.columns = newColumns
  · rw [if_pos same] at set
    obtain rfl := Option.some_inj.mp set
    rw [if_pos same.symm]
    exact represents
  · rw [if_neg same] at set
    obtain ⟨index, rebuilt, rfl⟩ := Option.map_eq_some_iff.mp set
    have different : ¬ newColumns = storage.columns := fun equal => same equal.symm
    rw [if_neg different]
    have keeps := keeps.resolve_left different
    have sameStart : (if rows = [] then 0 else start) = start := by
      by_cases empty : rows = []
      · have total := represents.totalRows_eq
        have stop := represents.content.stop
        rw [empty] at total stop
        rw [if_pos empty]
        have noRows : storage.totalRows = 0 := total
        have stop : storage.content.endOffset = start := stop
        omega
      · rw [if_neg empty]
    obtain ⟨indexes, -⟩ := Index.rebuild_spec represents.index represents.fromCells rebuilt
    rw [sameStart] at indexes
    refine ⟨indexes, ?_, fromCells_rewrap newColumns represents.fromCells⟩
    rw [written_rewrap]
    exact represents.content

end

end FlatStorage

inductive StorageCall where
  | pushRows (rows : List Row)
  | pushRowsWithoutTruncation (rows : List Row)
  | applyMaxRows
  | popRows (count : ℕ)
  | truncateRowsFront (count : ℕ)
  | clear
  | setColumns (newColumns : ℕ)

namespace StorageCall

def apply (debugAssertions : Bool) (storage : FlatStorage) : StorageCall → Option FlatStorage
  | pushRows rows => storage.pushRows debugAssertions rows
  | pushRowsWithoutTruncation rows => storage.pushRowsWithoutTruncation debugAssertions rows
  | applyMaxRows => some storage.applyMaxRows
  | popRows count => (storage.popRows debugAssertions count).map Prod.snd
  | truncateRowsFront count => some (storage.truncateRowsFront count)
  | clear => storage.clear debugAssertions
  | setColumns newColumns => storage.setColumns debugAssertions newColumns

/-- The rows that are left after a call, where `rows` are those before it. -/
def record (storage : FlatStorage) (rows : List TextRow) : StorageCall → List TextRow
  | pushRows pushed =>
    let rows := rows ++ textRows storage.columns storage.fgColorMap.tail storage.bgAndStyleMap.tail pushed
    rows.drop (rows.length - storage.maxRows.getD usizeMax)
  | pushRowsWithoutTruncation pushed =>
    rows ++ textRows storage.columns storage.fgColorMap.tail storage.bgAndStyleMap.tail pushed
  | applyMaxRows => rows.drop (rows.length - storage.maxRows.getD usizeMax)
  | popRows count => rows.take (rows.length - count)
  | truncateRowsFront count => rows.drop count
  | clear => []
  | setColumns newColumns => if newColumns = storage.columns then rows else rewrap newColumns rows

def step (debugAssertions : Bool) (state : FlatStorage × List TextRow) (call : StorageCall) :
    Option (FlatStorage × List TextRow) :=
  (call.apply debugAssertions state.1).map fun next => (next, call.record state.1 state.2)

/-- The width does not change while there is content and no row. -/
def KeepsOffsets (storage : FlatStorage) : StorageCall → Prop
  | setColumns newColumns =>
    newColumns = storage.columns ∨ 0 < storage.totalRows ∨ storage.content.endOffset = 0
  | _ => True

def RunMeets (debugAssertions : Bool) : List StorageCall → FlatStorage × List TextRow → Prop
  | [], _ => True
  | call :: calls, state => call.KeepsOffsets state.1 ∧
    ∀ next ∈ call.step debugAssertions state, RunMeets debugAssertions calls next

variable {debugAssertions : Bool} {storage next : FlatStorage} {start : ℕ} {rows : List TextRow}

theorem apply_spec (represents : storage.Represents start rows) {call : StorageCall} (keeps : call.KeepsOffsets storage)
    (applied : call.apply debugAssertions storage = some next) :
    ∃ newStart, next.Represents newStart (call.record storage rows) := by
  cases call with
  | pushRows pushed =>
    obtain ⟨grown, pushedEq, rfl⟩ := Option.map_eq_some_iff.mp applied
    obtain ⟨representsGrown, maxRows⟩ := FlatStorage.pushRowsInternal_spec represents pushedEq
    have limited := FlatStorage.applyMaxRows_spec representsGrown
    rw [maxRows] at limited
    exact limited
  | pushRowsWithoutTruncation pushed => exact ⟨start, (FlatStorage.pushRowsInternal_spec represents applied).1⟩
  | applyMaxRows =>
    obtain rfl := Option.some_inj.mp applied
    exact FlatStorage.applyMaxRows_spec represents
  | popRows count =>
    obtain ⟨⟨popped, shortened⟩, poppedEq, rfl⟩ := Option.map_eq_some_iff.mp applied
    exact ⟨start, FlatStorage.popRows_spec represents poppedEq⟩
  | truncateRowsFront count =>
    obtain rfl := Option.some_inj.mp applied
    exact FlatStorage.truncateRowsFront_spec represents count
  | clear => exact ⟨start, FlatStorage.truncate_spec represents applied⟩
  | setColumns newColumns => exact ⟨start, FlatStorage.setColumns_spec represents keeps applied⟩

theorem run_spec (calls : List StorageCall) {state final : FlatStorage × List TextRow}
    (represents : state.1.Represents start state.2) (meets : RunMeets debugAssertions calls state)
    (ran : calls.foldlM (step debugAssertions) state = some final) :
    ∃ newStart, final.1.Represents newStart final.2 := by
  induction calls generalizing start state with
  | nil =>
    obtain rfl := Option.some_inj.mp ran
    exact ⟨start, represents⟩
  | cons call calls ih =>
    rw [foldlM_cons] at ran
    obtain ⟨middle, first, rest⟩ := Option.bind_eq_some_iff.mp ran
    obtain ⟨keeps, later⟩ := meets
    obtain ⟨applied, appliedEq, rfl⟩ := Option.map_eq_some_iff.mp first
    obtain ⟨newStart, representsNext⟩ := apply_spec represents keeps appliedEq
    exact ih representsNext (later _ first) rest

end StorageCall

def FlatStorage.RowInStep (debugAssertions : Bool) (storage : FlatStorage) (i : ℕ) (row : TextRow) (entry : Entry) :
    Prop :=
  storage.index.contentRangeForRow i = some (entry.contentOffset, entry.contentOffset + row.byteLen) ∧
    entry.hasTrailingNewline = row.newline ∧
    storage.index.graphemeInfosForRow i = some (row.graphemes.map Grapheme.info) ∧
    ∀ before grapheme after, row.graphemes = before ++ grapheme :: after →
      storage.content.slice debugAssertions (entry.contentOffset + byteLen before)
        (entry.contentOffset + byteLen before + grapheme.len) = some grapheme.bytes

structure FlatStorage.Synchronised (debugAssertions : Bool) (storage : FlatStorage) (rows : List TextRow) : Prop where
  contentLen : storage.index.contentLen = storage.content.endOffset
  totalRows : storage.totalRows = rows.length
  rowsInStep : ∀ i row, rows[i]? = some row →
    ∃ entry, storage.index.getEntry i = some entry ∧ storage.RowInStep debugAssertions i row entry
  sizing : storage.index.graphemeSizing.entries.map Prod.fst =
    (storage.index.rows.filter fun entry => entry.graphemeSizing = .nonUniform).map Entry.contentOffset

theorem FlatStorage.Represents.synchronised {storage : FlatStorage} {start : ℕ} {rows : List TextRow}
    (represents : storage.Represents start rows) (debugAssertions : Bool) :
    storage.Synchronised debugAssertions rows := by
  obtain ⟨index, content, -⟩ := represents
  refine ⟨(Index.contentLen_eq index).trans content.stop.symm, index.length_eq, ?_, index.keys_eq⟩
  intro i row atRow
  obtain ⟨inside, rowEq⟩ := List.getElem?_eq_some_iff.mp atRow
  have lengths : storage.index.rows.length = rows.length := index.length_eq
  have atEntry := List.getElem?_eq_getElem (l := storage.index.rows) (i := i) (by omega)
  obtain ⟨offset, newline, -⟩ := index.getElem atEntry atRow
  refine ⟨_, atEntry, ?_, newline, Index.graphemeInfosForRow_eq index atRow, ?_⟩
  · have range := Index.offset_or_len index (i + 1)
    unfold Index.contentRangeForRow
    rw [range, Index.contentOffsetForRow_eq index, if_pos inside, offset, take_succ_eq_append_getElem inside,
      written_append, byteLen_append, written_cons, written_nil, append_nil, TextRow.byteLen_written, rowEq,
      Nat.add_assoc]
    rfl
  · intro before grapheme after parts
    have split : written rows = (written (rows.take i) ++ before) ++ grapheme ::
        (after ++ ((if row.newline then [.newline] else []) ++ written (rows.drop (i + 1)))) := by
      have rowsSplit : rows = rows.take i ++ row :: rows.drop (i + 1) := by
        rw [← rowEq, ← drop_eq_getElem_cons inside, take_append_drop]
      have whole := congrArg written rowsSplit
      rw [written_append, written_cons, TextRow.written, parts] at whole
      simpa only [append_assoc, cons_append] using whole
    rw [split] at content
    have sliced := content.slice debugAssertions
    rw [byteLen_append, ← Nat.add_assoc, ← offset] at sliced
    exact sliced

namespace StorageCall

/-- Index and content stay synchronised as long as the width does not change while there is content and no row. -/
theorem run_synchronised (debugAssertions : Bool) (columns : ℕ) (maxRows : Option ℕ) (calls : List StorageCall)
    (storage : FlatStorage) (rows : List TextRow)
    (meets : RunMeets debugAssertions calls (.new columns maxRows, []))
    (ran : calls.foldlM (step debugAssertions) (.new columns maxRows, []) = some (storage, rows)) :
    storage.Synchronised debugAssertions rows := by
  obtain ⟨start, represents⟩ := run_spec calls (FlatStorage.represents_new columns maxRows) meets ran
  exact represents.synchronised debugAssertions

instance (storage : FlatStorage) : (call : StorageCall) → Decidable (call.KeepsOffsets storage)
  | setColumns newColumns => inferInstanceAs
    (Decidable (newColumns = storage.columns ∨ 0 < storage.totalRows ∨ storage.content.endOffset = 0))
  | pushRows _ | pushRowsWithoutTruncation _ | applyMaxRows | popRows _ | truncateRowsFront _ | clear => isTrue trivial

instance decidableRunMeets (debugAssertions : Bool) : (calls : List StorageCall) → (state : FlatStorage × List TextRow) →
    Decidable (RunMeets debugAssertions calls state)
  | [], _ => isTrue trivial
  | call :: calls, state =>
    have := decidableRunMeets debugAssertions calls
    inferInstanceAs (Decidable (call.KeepsOffsets state.1 ∧
      ∀ next ∈ call.step debugAssertions state, RunMeets debugAssertions calls next))

def sampleRows : List Row :=
  let wide : Cell := { Cell.default with c := '漢', flags := .wideChar }
  let spacer : Cell := { Cell.default with flags := .wideCharSpacer }
  let narrow : Cell := { Cell.default with c := 'a', fg := .indexed 1 }
  let wrapped : Cell := { Cell.default with c := 'b', flags := .wrapline }
  [⟨[wide, spacer, narrow], 3⟩, ⟨[narrow, narrow, wrapped], 3⟩]

theorem run_synchronised_rewrapped :
    ∃ storage rows, [pushRows sampleRows, truncateRowsFront 1, setColumns 2, popRows 1, clear].foldlM (step true)
        (FlatStorage.new 3 (some 2), []) = some (storage, rows) ∧ storage.Synchronised true rows := by
  cases ran : [pushRows sampleRows, truncateRowsFront 1, setColumns 2, popRows 1, clear].foldlM (step true)
      (FlatStorage.new 3 (some 2), []) with
  | none =>
    have returns : ([pushRows sampleRows, truncateRowsFront 1, setColumns 2, popRows 1, clear].foldlM (step true)
      (FlatStorage.new 3 (some 2), [])).isSome = true := by decide +kernel
    rw [ran] at returns
    cases returns
  | some state => exact ⟨state.1, state.2, rfl, run_synchronised true 3 (some 2) _ _ _ (by decide +kernel) ran⟩

/-- A change of width after the last row is gone puts the index back to 0, and not the content. -/
theorem setColumns_without_rows :
    ¬ ∀ storage rows, [pushRows sampleRows, truncateRowsFront 2, setColumns 2].foldlM (step true)
        (FlatStorage.new 3 none, []) = some (storage, rows) → storage.index.contentLen = storage.content.endOffset := by
  intro claimed
  have reached : ([pushRows sampleRows, truncateRowsFront 2, setColumns 2].foldlM (step true)
      (FlatStorage.new 3 none, [])).map (fun state => (state.1.index.contentLen, state.1.content.endOffset)) =
      some (0, 8) := by decide +kernel
  obtain ⟨state, ran, lengths⟩ := Option.map_eq_some_iff.mp reached
  have same := claimed state.1 state.2 ran
  simp only [Prod.mk.injEq] at lengths
  omega

end StorageCall

end Warp.Grid
