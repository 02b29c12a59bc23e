import Warp.Grid.Index

namespace Warp.Grid

open List Option

structure TextRow where
  graphemes : List Grapheme
  newline : Bool
deriving DecidableEq

def byteLen (graphemes : List Grapheme) : ℕ := (graphemes.map Grapheme.len).sum

@[simp] theorem byteLen_nil : byteLen [] = 0 := rfl

@[simp] theorem byteLen_cons (grapheme : Grapheme) (graphemes : List Grapheme) :
    byteLen (grapheme :: graphemes) = grapheme.len + byteLen graphemes := by
  simp [byteLen]

@[simp] theorem byteLen_append (left right : List Grapheme) :
    byteLen (left ++ right) = byteLen left + byteLen right := by
  simp [byteLen]

namespace TextRow

def written (row : TextRow) : List Grapheme := row.graphemes ++ if row.newline then [.newline] else []

def byteLen (row : TextRow) : ℕ := Warp.Grid.byteLen row.graphemes + row.newline.toNat

def FromCells (row : TextRow) : Prop := ∀ grapheme ∈ row.graphemes, grapheme.FromCell

theorem byteLen_written (row : TextRow) : Warp.Grid.byteLen row.written = row.byteLen := by
  unfold written byteLen
  cases row.newline <;> simp [Grapheme.newline, Grapheme.len, NonZeroU16.one]

end TextRow

def written (rows : List TextRow) : List Grapheme := rows.flatMap TextRow.written

@[simp] theorem written_nil : written [] = [] := rfl

@[simp] theorem written_cons (row : TextRow) (rows : List TextRow) :
    written (row :: rows) = row.written ++ written rows := flatMap_cons

@[simp] theorem written_append (left right : List TextRow) : written (left ++ right) = written left ++ written right :=
  flatMap_append

def expand (runs : List GraphemeRun) : List GraphemeInfo := runs.flatMap GraphemeRun.infos

theorem expand_ne_nil {runs : List GraphemeRun} (nonempty : runs ≠ []) : expand runs ≠ [] := by
  obtain ⟨run, rest, rfl⟩ := exists_cons_of_ne_nil nonempty
  intro nothing
  have lengths := congrArg List.length nothing
  simp only [expand, flatMap_cons, length_append, GraphemeRun.infos, length_replicate,
    length_nil] at lengths
  have := run.count.pos
  omega

theorem EntryBuilder.pushInfo_expand {info : GraphemeInfo} {runs next : List GraphemeRun}
    (pushed : EntryBuilder.pushInfo info runs = some next) : expand next = expand runs ++ [info] := by
  induction runs generalizing next with
  | nil =>
    obtain rfl := Option.some_inj.mp pushed
    rfl
  | cons run rest ih =>
    cases rest with
    | nil =>
      unfold EntryBuilder.pushInfo at pushed
      by_cases same : run.info = info
      · rw [if_pos same] at pushed
        obtain ⟨count, counted, rfl⟩ := Option.map_eq_some_iff.mp pushed
        unfold NonZeroU16.new at counted
        by_cases inRange : 0 < run.count.get + 1 ∧ run.count.get + 1 < 2 ^ 16
        · rw [dif_pos inRange] at counted
          obtain rfl := Option.some_inj.mp counted
          simp [expand, GraphemeRun.infos, same, replicate_succ']
        · rw [dif_neg inRange] at counted
          cases counted
      · rw [if_neg same] at pushed
        obtain rfl := Option.some_inj.mp pushed
        simp [expand, GraphemeRun.infos, NonZeroU16.one]
    | cons second rest =>
      obtain ⟨later, pushedLater, rfl⟩ := Option.map_eq_some_iff.mp pushed
      have expanded := ih pushedLater
      unfold expand at expanded ⊢
      rw [flatMap_cons, expanded, @List.flatMap_cons _ _ _ (second :: rest), append_assoc]

inductive RowSizing (offset : ℕ) : GraphemeSizing → List (ℕ × List GraphemeRun) → List GraphemeInfo → Prop
  | emptyRow : RowSizing offset .emptyRow [] []
  | uniform (run : GraphemeRun) : RowSizing offset (.uniform run) [] (expand [run])
  | nonUniform (runs : List GraphemeRun) (nonempty : runs ≠ []) :
    RowSizing offset .nonUniform [(offset, runs)] (expand runs)

/-- Entries and sizing map describe the rows, laid out from one offset to another. -/
inductive Indexed : ℕ → List Entry → List (ℕ × List GraphemeRun) → List TextRow → ℕ → Prop
  | nil (offset : ℕ) : Indexed offset [] [] [] offset
  | cons {entry : Entry} {sizing : List (ℕ × List GraphemeRun)} {row : TextRow} {entries : List Entry}
    {laterSizing : List (ℕ × List GraphemeRun)} {rows : List TextRow} {stop : ℕ}
    (sized : RowSizing entry.contentOffset entry.graphemeSizing sizing (row.graphemes.map Grapheme.info))
    (newline : entry.hasTrailingNewline = row.newline)
    (later : Indexed (entry.contentOffset + row.byteLen) entries laterSizing rows stop) :
    Indexed entry.contentOffset (entry :: entries) (sizing ++ laterSizing) (row :: rows) stop

namespace Indexed

variable {start stop : ℕ} {entries : List Entry} {sizing : List (ℕ × List GraphemeRun)} {rows : List TextRow}

theorem stop_eq (indexed : Indexed start entries sizing rows stop) : stop = start + byteLen (written rows) := by
  induction indexed with
  | nil => rfl
  | cons sized newline later ih =>
    rw [ih, written_cons, byteLen_append, TextRow.byteLen_written, Nat.add_assoc]

theorem length_eq (indexed : Indexed start entries sizing rows stop) : entries.length = rows.length := by
  induction indexed with
  | nil => rfl
  | cons sized newline later ih => rw [length_cons, length_cons, ih]

variable {key : ℕ × List GraphemeRun}

theorem key_of_row {offset : ℕ} {graphemeSizing : GraphemeSizing} {graphemes : List Grapheme}
    (sized : RowSizing offset graphemeSizing sizing (graphemes.map Grapheme.info)) (member : key ∈ sizing) :
    key.1 = offset ∧ 0 < byteLen graphemes := by
  generalize infosEq : graphemes.map Grapheme.info = infos at sized
  cases sized with
  | emptyRow => cases member
  | uniform run => cases member
  | nonUniform runs nonempty =>
    obtain rfl := List.mem_singleton.mp member
    refine ⟨rfl, ?_⟩
    cases graphemes with
    | nil => exact absurd infosEq.symm (expand_ne_nil nonempty)
    | cons grapheme rest =>
      rw [byteLen_cons]
      have := grapheme.info.utf8Bytes.pos
      unfold Grapheme.len
      omega

theorem key_inside (indexed : Indexed start entries sizing rows stop) (member : key ∈ sizing) :
    start ≤ key.1 ∧ key.1 < stop := by
  induction indexed with
  | nil => cases member
  | cons sized newline later ih =>
    rename_i entry rowSizing row entries laterSizing rows stop
    have reach := later.stop_eq
    unfold TextRow.byteLen at reach ih
    rcases List.mem_append.mp member with member | member
    · obtain ⟨atOffset, positive⟩ := key_of_row sized member
      omega
    · have inside := ih member
      omega

theorem split (indexed : Indexed start entries sizing rows stop) (count : ℕ) :
    ∃ before after, sizing = before ++ after ∧
      Indexed start (entries.take count) before (rows.take count) (start + byteLen (written (rows.take count))) ∧
      Indexed (start + byteLen (written (rows.take count))) (entries.drop count) after (rows.drop count) stop := by
  induction indexed generalizing count with
  | nil offset =>
    refine ⟨[], [], rfl, ?_, ?_⟩
    · simpa using Indexed.nil offset
    · simpa using Indexed.nil offset
  | cons sized newline later ih =>
    rename_i entry rowSizing row entries laterSizing rows stop
    cases count with
    | zero => exact ⟨[], rowSizing ++ laterSizing, rfl, .nil _, .cons sized newline later⟩
    | succ count =>
      obtain ⟨before, after, parts, front, back⟩ := ih count
      have offset : entry.contentOffset + byteLen (written ((row :: rows).take (count + 1))) =
          entry.contentOffset + row.byteLen + byteLen (written (rows.take count)) := by
        rw [take_succ_cons, written_cons, byteLen_append, TextRow.byteLen_written, Nat.add_assoc]
      refine ⟨rowSizing ++ before, after, ?_, ?_, ?_⟩
      · rw [parts, append_assoc]
      · rw [offset]
        exact .cons sized newline front
      · rw [offset]
        exact back

theorem snoc (indexed : Indexed start entries sizing rows stop) {entry : Entry} {row : TextRow}
    {rowSizing : List (ℕ × List GraphemeRun)}
    (sized : RowSizing entry.contentOffset entry.graphemeSizing rowSizing (row.graphemes.map Grapheme.info))
    (newline : entry.hasTrailingNewline = row.newline) (atStop : entry.contentOffset = stop) :
    Indexed start (entries ++ [entry]) (sizing ++ rowSizing) (rows ++ [row]) (stop + row.byteLen) := by
  induction indexed with
  | nil offset =>
    subst atStop
    have alone := Indexed.cons sized newline (.nil _)
    rw [append_nil] at alone
    exact alone
  | cons firstSized firstNewline later ih =>
    rw [append_assoc]
    exact .cons firstSized firstNewline (ih atStop)

theorem getElem {i : ℕ} (indexed : Indexed start entries sizing rows stop) {entry : Entry} {row : TextRow}
    (atEntry : entries[i]? = some entry) (atRow : rows[i]? = some row) :
    entry.contentOffset = start + byteLen (written (rows.take i)) ∧ entry.hasTrailingNewline = row.newline ∧
      ∃ rowSizing, (∀ key ∈ rowSizing, key ∈ sizing) ∧
        RowSizing entry.contentOffset entry.graphemeSizing rowSizing (row.graphemes.map Grapheme.info) := by
  induction indexed generalizing i with
  | nil => cases atEntry
  | cons sized newline later ih =>
    rename_i first rowSizing firstRow entries laterSizing rows stop
    cases i with
    | zero =>
      obtain rfl := Option.some_inj.mp atEntry
      obtain rfl := Option.some_inj.mp atRow
      exact ⟨rfl, newline, rowSizing, fun key member => mem_append_left _ member, sized⟩
    | succ i =>
      obtain ⟨offset, sameNewline, laterRowSizing, members, laterSized⟩ := ih atEntry atRow
      refine ⟨?_, sameNewline, laterRowSizing, fun key member => mem_append_right _ (members key member), laterSized⟩
      rw [offset, take_succ_cons, written_cons, byteLen_append, TextRow.byteLen_written, Nat.add_assoc]

theorem keys_eq (indexed : Indexed start entries sizing rows stop) :
    sizing.map Prod.fst =
      (entries.filter fun entry => entry.graphemeSizing = .nonUniform).map Entry.contentOffset := by
  induction indexed with
  | nil => rfl
  | cons sized newline later ih =>
    rename_i entry rowSizing row entries laterSizing rows stop
    rw [map_append, ih]
    generalize row.graphemes.map Grapheme.info = infos at sized
    generalize sizingEq : entry.graphemeSizing = graphemeSizing at sized
    cases sized with
    | emptyRow => rw [filter_cons_of_neg (by simp [sizingEq])]; rfl
    | uniform run => rw [filter_cons_of_neg (by simp [sizingEq])]; rfl
    | nonUniform runs nonempty => rw [filter_cons_of_pos (by simp [sizingEq])]; rfl

end Indexed

/-- The index describes the rows, the first of which starts at `start`. -/
def Index.Indexes (index : Index) (start : ℕ) (rows : List TextRow) : Prop :=
  Indexed start index.rows index.graphemeSizing.entries rows index.contentLen

namespace Index

variable {index : Index} {start : ℕ} {rows : List TextRow}

section

variable (indexes : index.Indexes start rows)
include indexes

theorem contentOffsetForRow_eq (i : ℕ) :
    index.contentOffsetForRow i =
      if i < rows.length then some (start + byteLen (written (rows.take i))) else none := by
  unfold contentOffsetForRow
  have lengths : index.rows.length = rows.length := indexes.length_eq
  by_cases inside : i < rows.length
  · have atEntry := List.getElem?_eq_getElem (l := index.rows) (i := i) (by omega)
    rw [if_pos inside, atEntry, map_some,
      (indexes.getElem atEntry (List.getElem?_eq_getElem inside)).1]
  · rw [if_neg inside, List.getElem?_eq_none (by omega), map_none]

theorem contentLen_eq : index.contentLen = start + byteLen (written rows) :=
  indexes.stop_eq

theorem offset_or_len (i : ℕ) :
    (index.contentOffsetForRow i).getD index.contentLen = start + byteLen (written (rows.take i)) := by
  rw [contentOffsetForRow_eq indexes, contentLen_eq indexes]
  by_cases inside : i < rows.length
  · rw [if_pos inside, getD_some]
  · rw [if_neg inside, getD_none, take_of_length_le (Nat.le_of_not_lt inside)]

theorem graphemeInfosForRow_eq {i : ℕ} {row : TextRow} (atRow : rows[i]? = some row) :
    index.graphemeInfosForRow i = some (row.graphemes.map Grapheme.info) := by
  have lengths : index.rows.length = rows.length := indexes.length_eq
  obtain ⟨inside, -⟩ := List.getElem?_eq_some_iff.mp atRow
  have atEntry := List.getElem?_eq_getElem (l := index.rows) (i := i) (by omega)
  obtain ⟨-, -, rowSizing, members, sized⟩ := indexes.getElem atEntry atRow
  unfold graphemeInfosForRow graphemeRunsForRow getEntry
  rw [atEntry]
  generalize infosEq : row.graphemes.map Grapheme.info = infos at sized
  generalize sizingEq : (index.rows[i]).graphemeSizing = graphemeSizing at sized
  simp only [bind_eq_bind, bind_some, sizingEq]
  cases sized with
  | emptyRow => rfl
  | uniform run => rfl
  | nonUniform runs nonempty =>
    simp only [OrderedMap.get_eq_some (members _ (mem_singleton_self _)), map_some, expand]

theorem truncate_spec (newLen : ℕ) :
    (index.truncate newLen).1.Indexes start (rows.take newLen) ∧
      (index.truncate newLen).2 = start + byteLen (written (rows.take newLen)) ∧
      (index.truncate newLen).1.columns = index.columns := by
  unfold truncate
  rw [contentOffsetForRow_eq indexes]
  by_cases inside : newLen < rows.length
  · rw [if_pos inside]
    refine ⟨?_, rfl, rfl⟩
    obtain ⟨before, after, parts, front, back⟩ := indexes.split newLen
    have kept := (OrderedMap.splitOff_append index.graphemeSizing _ parts
      (fun key member => (front.key_inside member).2) (fun key member => (back.key_inside member).1)).1
    unfold Indexes
    rw [kept]
    exact front
  · rw [if_neg inside]
    rw [take_of_length_le (Nat.le_of_not_lt inside)]
    exact ⟨indexes, contentLen_eq indexes, rfl⟩

end

theorem truncateFront_spec (indexes : index.Indexes start rows) (count : ℕ) :
    (index.truncateFront count).1.Indexes (start + byteLen (written (rows.take count))) (rows.drop count) ∧
      (index.truncateFront count).2 = start + byteLen (written (rows.take count)) ∧
      (index.truncateFront count).1.columns = index.columns := by
  unfold truncateFront
  rw [offset_or_len indexes]
  refine ⟨?_, rfl, rfl⟩
  obtain ⟨before, after, parts, front, back⟩ := indexes.split count
  have kept := (OrderedMap.splitOff_append index.graphemeSizing _ parts
    (fun key member => (front.key_inside member).2) (fun key member => (back.key_inside member).1)).2
  unfold Indexes
  rw [kept]
  exact back

end Index

namespace EntryBuilder

structure Builds (builder : EntryBuilder) (row : TextRow) : Prop where
  len : builder.incrContentOffset = row.byteLen
  runs : expand builder.graphemeRuns = row.graphemes.map Grapheme.info
  newline : builder.hasTrailingNewline = row.newline

theorem builds_new : ({} : EntryBuilder).Builds ⟨[], false⟩ := ⟨rfl, rfl, rfl⟩

variable {builder next : EntryBuilder} {index : Index} {start : ℕ} {rows : List TextRow} {row : TextRow}

theorem Builds.push (builds : builder.Builds ⟨row.graphemes, false⟩) {grapheme : Grapheme}
    (processed : builder.processGraphemeInfoUnchecked grapheme.info = some next) :
    next.Builds ⟨row.graphemes ++ [grapheme], false⟩ ∧ next.numCells = builder.numCells ∧
      next.endsWithLeadingWideCharSpacer = builder.endsWithLeadingWideCharSpacer := by
  obtain ⟨runs, pushed, rfl⟩ := Option.map_eq_some_iff.mp processed
  refine ⟨⟨?_, ?_, builds.newline⟩, rfl, rfl⟩
  · have len := builds.len
    simp only [TextRow.byteLen, byteLen_append, byteLen_cons, byteLen_nil] at len ⊢
    rw [len]
    rfl
  · rw [pushInfo_expand pushed, builds.runs, map_append]
    rfl

theorem Builds.addTrailingNewline (builds : builder.Builds ⟨row.graphemes, false⟩) :
    builder.addTrailingNewline.Builds ⟨row.graphemes, true⟩ :=
  ⟨congrArg (· + 1) builds.len, builds.runs, rfl⟩

theorem Builds.addLeadingWideCharSpacer (builds : builder.Builds row) : builder.addLeadingWideCharSpacer.Builds row :=
  ⟨builds.len, builds.runs, builds.newline⟩

theorem appendToIndex_spec (indexes : index.Indexes start rows) (builds : builder.Builds row) :
    (builder.appendToIndex index).Indexes start (rows ++ [row]) ∧
      (builder.appendToIndex index).columns = index.columns := by
  refine ⟨?_, ?_⟩
  · unfold Index.Indexes appendToIndex
    have runs := builds.runs
    cases runsEq : builder.graphemeRuns with
    | nil =>
      rw [runsEq] at runs
      have sized : RowSizing index.contentLen .emptyRow [] (row.graphemes.map Grapheme.info) := runs ▸ .emptyRow
      have appended := @Indexed.snoc _ _ _ _ _ indexes ⟨_, _, _, builder.endsWithLeadingWideCharSpacer⟩ _ _ sized
        builds.newline rfl
      rw [append_nil, ← builds.len] at appended
      exact appended
    | cons run rest =>
      rw [runsEq] at runs
      cases rest with
      | nil =>
        have sized : RowSizing index.contentLen (.uniform run) [] (row.graphemes.map Grapheme.info) :=
          runs ▸ .uniform run
        have appended := @Indexed.snoc _ _ _ _ _ indexes ⟨_, _, _, builder.endsWithLeadingWideCharSpacer⟩ _ _ sized
          builds.newline rfl
        rw [append_nil, ← builds.len] at appended
        exact appended
      | cons second rest =>
        have sized : RowSizing index.contentLen .nonUniform [(index.contentLen, run :: second :: rest)]
            (row.graphemes.map Grapheme.info) := runs ▸ .nonUniform _ (cons_ne_nil _ _)
        have appended := @Indexed.snoc _ _ _ _ _ indexes ⟨_, _, _, builder.endsWithLeadingWideCharSpacer⟩ _ _ sized
          builds.newline rfl
        have past : ∀ key ∈ index.graphemeSizing.entries, key.1 < index.contentLen :=
          fun key member => (indexes.key_inside member).2
        rw [← OrderedMap.insert_last _ _ past, ← builds.len] at appended
        exact appended
  · unfold appendToIndex
    rfl

end EntryBuilder

end Warp.Grid
