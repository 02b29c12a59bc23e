import Warp.Grid.HandlerRows
import Warp.Lib.Nesting

namespace Warp.Grid

open List Option

def bracketPairs : List (Char × Char) := [('(', ')'), ('[', ']'), ('\x7b', '\x7d'), ('<', '>')]

namespace GridHandler

variable (debugAssertions : Bool) (grid : GridHandler)

def findPair (startChar : Char) : Option (Bool × Char) :=
  bracketPairs.findSome? fun (opening, closing) =>
    if opening = startChar then some (true, closing)
    else if closing = startChar then some (false, opening)
    else none

/-- The loop over the cells; it ends within `fuel` turns. -/
def searchLoop (forward : Bool) (startChar endChar : Char) : ℕ → GraphemeCursor → ℕ → Option (Option GridPoint)
  | 0, _, _ => none
  | fuel + 1, cursor, skipPairs =>
    (if forward then cursor.moveForward debugAssertions grid else cursor.moveBackward debugAssertions grid).bind fun cursor =>
      cursor.currentItem.bind fun
        | none => some none
        | some (cell, point) =>
          if cell.c == endChar && skipPairs == 0 then some (some point)
          else if cell.c == startChar then searchLoop forward startChar endChar fuel cursor (skipPairs + 1)
          else if cell.c == endChar then searchLoop forward startChar endChar fuel cursor (skipPairs - 1)
          else searchLoop forward startChar endChar fuel cursor skipPairs

/-- The outer option is a panic. -/
def bracketSearch (point : GridPoint) : Option (Option GridPoint) :=
  let point := grid.maybeTranslatePointFromDisplayedToOriginal point
  match (grid.grid.get point.row).bind fun row => row.inner[point.col]? with
  | none => some none
  | some startCell =>
    match findPair startCell.c with
    | none => some none
    | some (forward, endChar) =>
      (GraphemeCursor.new debugAssertions grid point .all).bind fun cursor =>
        grid.searchLoop debugAssertions forward startCell.c endChar (grid.numCells + 1) cursor 0

def Matches (text : List (GridPoint × Char)) (pair : Char × Char) (left right : GridPoint × Char) : Prop :=
  ∃ before inside after, text = before ++ left :: inside ++ right :: after ∧
    Nesting.Nested (fun shown : GridPoint × Char => shown.2 == pair.1) (fun shown => shown.2 == pair.2) inside

def IsPartner (text : List (GridPoint × Char)) (point : GridPoint) (bracket : Char) (partner : GridPoint) : Prop :=
  ∃ pair ∈ bracketPairs, ∃ c,
    bracket = pair.1 ∧ Matches text pair (point, c) (partner, pair.2) ∨
      bracket = pair.2 ∧ Matches text pair (partner, pair.1) (point, c)

/-- The search has a result, which is the bracket's partner, or nothing when there is none. -/
def FindsPartner (point : GridPoint) (bracket : Char) : Prop :=
  ∃ result, grid.bracketSearch debugAssertions point = some result ∧
    ∀ partner, result = some partner ↔
      IsPartner (grid.chars debugAssertions) (grid.maybeTranslatePointFromDisplayedToOriginal point) bracket partner

def storageChar (grid : GridHandler) (point : GridPoint) : Option Char :=
  ((grid.grid.get point.row).bind fun row => row.inner[point.col]?).map Cell.c

structure Shows (point : GridPoint) (c : Char) : Prop where
  shown : (point, c) ∈ grid.chars debugAssertions
  noSpacer : ∀ cell, grid.cellAt debugAssertions point = some cell →
    cell.flags.intersects .wideCharSpacer = false ∧ cell.flags.intersects .leadingWideCharSpacer = false

variable {debugAssertions grid} {number : ℕ} {direction : CursorDirection} {point partner : GridPoint} {c : Char}

theorem shown_append (left right : List ℕ) :
    grid.shown debugAssertions (left ++ right) = grid.shown debugAssertions left ++ grid.shown debugAssertions right :=
  filterMap_append

theorem shown_reverse (numbers : List ℕ) :
    grid.shown debugAssertions numbers.reverse = (grid.shown debugAssertions numbers).reverse := filterMap_reverse

theorem shown_spacer {rest : List ℕ} (spacer : grid.isSpacerAt number = true) :
    grid.shown debugAssertions (number :: rest) = grid.shown debugAssertions rest := by
  rw [shown, filterMap_cons, if_pos spacer]
  rfl

theorem shown_cell {rest : List ℕ} {cell : Cell} (spacer : grid.isSpacerAt number = false)
    (isCell : grid.cellAt debugAssertions (grid.pointAt number) = some cell) :
    grid.shown debugAssertions (number :: rest) = (grid.pointAt number, cell.c) :: grid.shown debugAssertions rest := by
  rw [shown, filterMap_cons, spacer, if_neg Bool.false_ne_true, isCell]
  rfl

theorem shown_dropWhile (numbers : List ℕ) :
    grid.shown debugAssertions (numbers.dropWhile grid.isSpacerAt) = grid.shown debugAssertions numbers := by
  induction numbers with
  | nil => rfl
  | cons number rest ih =>
    cases spacer : grid.isSpacerAt number with
    | true => rw [dropWhile_cons_of_pos spacer, shown_spacer spacer, ih]
    | false => rw [dropWhile_cons_of_neg (by rw [spacer]; exact Bool.false_ne_true)]

theorem mem_shown {numbers : List ℕ} (member : (point, c) ∈ grid.shown debugAssertions numbers) :
    ∃ number ∈ numbers, point = grid.pointAt number ∧ grid.isSpacerAt number = false ∧
      ∃ cell, grid.cellAt debugAssertions point = some cell ∧ cell.c = c := by
  obtain ⟨number, isNumber, shows⟩ := List.mem_filterMap.mp member
  refine ⟨number, isNumber, ?_⟩
  cases spacer : grid.isSpacerAt number with
  | true =>
    rw [if_pos spacer] at shows
    cases shows
  | false =>
    rw [spacer, if_neg Bool.false_ne_true] at shows
    obtain ⟨cell, isCell, same⟩ := Option.map_eq_some_iff.mp shows
    obtain ⟨rfl, rfl⟩ := Prod.mk.inj same
    exact ⟨rfl, rfl, cell, isCell, rfl⟩

theorem nodup_chars : (grid.chars debugAssertions).Nodup := by
  refine List.Nodup.filterMap (fun number other shown first second => ?_) nodup_range
  have isPoint (number : ℕ) (shows : shown ∈ if grid.isSpacerAt number then none
      else (grid.cellAt debugAssertions (grid.pointAt number)).map fun cell => (grid.pointAt number, cell.c)) :
      shown.1 = grid.pointAt number := by
    split at shows
    · cases shows
    · obtain ⟨cell, -, rfl⟩ := Option.map_eq_some_iff.mp shows
      rfl
  exact pointAt_injective ((isPoint number first).symm.trans (isPoint other second))

theorem chars_around (inside : number < grid.numCells) {cell : Cell} (spacer : grid.isSpacerAt number = false)
    (isCell : grid.cellAt debugAssertions (grid.pointAt number) = some cell) :
    grid.chars debugAssertions = (grid.shown debugAssertions (grid.ahead .left number)).reverse ++
      (grid.pointAt number, cell.c) :: grid.shown debugAssertions (grid.ahead .right number) := by
  have split : List.range grid.numCells = List.range number ++ number :: grid.ahead .right number := by
    obtain ⟨rest, total⟩ := Nat.exists_eq_add_of_lt inside
    rw [ahead, total, range_eq_range', range_eq_range', show number + rest + 1 = number + (rest + 1) by omega,
      ← List.range'_append_1, Nat.zero_add, List.range'_succ, show number + (rest + 1) - (number + 1) = rest by omega]
  rw [chars, split, shown_append, shown_cell spacer isCell, ahead.eq_2, shown_reverse, reverse_reverse]

section Search

variable {cursor : GraphemeCursor}

def towards (forward : Bool) : CursorDirection := if forward then .right else .left

theorem Readable.searchLoop_spec (readable : grid.Readable debugAssertions) (on : grid.On cursor number)
    (cached : cursor.cachedRow = (grid.row debugAssertions cursor.cur.row).join) (inside : number < grid.numCells)
    (forward : Bool) {fuel : ℕ} (enough : (grid.ahead (towards forward) number).length < fuel) (startChar endChar : Char)
    (skipPairs : ℕ) :
    grid.searchLoop debugAssertions forward startChar endChar fuel cursor skipPairs =
      some ((Nesting.search (fun shown : GridPoint × Char => shown.2 == startChar) (fun shown => shown.2 == endChar) skipPairs
        (grid.shown debugAssertions (grid.ahead (towards forward) number))).map Prod.fst) := by
  induction fuel generalizing cursor number skipPairs with
  | zero => exact absurd enough (Nat.not_lt_zero _)
  | succ fuel ih =>
    obtain ⟨moved, isMoved, reached⟩ : ∃ moved, cursor.move debugAssertions grid (towards forward) grid.numCells = some moved ∧
        Moved debugAssertions grid (towards forward) cursor moved
          ((grid.ahead (towards forward) number).dropWhile grid.isSpacerAt) :=
      readable.move_spec on inside (ahead_length_lt inside)
    have moves : (if forward then cursor.moveForward debugAssertions grid else cursor.moveBackward debugAssertions grid) =
        some moved := by
      cases forward <;> exact isMoved
    rw [searchLoop, moves, bind_some, ← shown_dropWhile]
    have suffix := dropWhile_suffix (l := grid.ahead (towards forward) number) grid.isSpacerAt
    have firstShown := List.head?_dropWhile_not grid.isSpacerAt (grid.ahead (towards forward) number)
    cases left : (grid.ahead (towards forward) number).dropWhile grid.isSpacerAt with
    | nil =>
      rw [left] at reached
      rw [GraphemeCursor.currentItem, reached.1]
      rfl
    | cons next rest =>
      rw [left] at reached suffix firstShown
      obtain ⟨onNext, nextCached⟩ := reached
      have isNext : next < grid.numCells := lt_of_mem_ahead inside (suffix.subset mem_cons_self)
      have isRest : rest = grid.ahead (towards forward) next := ahead_suffix suffix
      obtain ⟨row, cell, isRow, inRow, isCell⟩ := readable.cellAt_some isNext
      have held : moved.cachedRow = some row := by
        rw [nextCached, cachedAt]
        split
        next same => rw [cached, ← same, isRow, join_some]
        next other => rw [isRow, join_some]
      have item : moved.currentItem = some (some (cell, grid.pointAt next)) := by
        rw [GraphemeCursor.currentItem, onNext.state, held, onNext.cur]
        dsimp only
        rw [bind_some, inRow]
        rfl
      have spacer : grid.isSpacerAt next = false := by
        simpa using firstShown
      have shorter : (grid.ahead (towards forward) next).length < fuel := by
        have lengths := suffix.length_le
        rw [← isRest]
        rw [length_cons] at lengths
        omega
      have again (skipPairs : ℕ) := ih onNext (by rw [held, onNext.cur, isRow]; rfl) isNext shorter skipPairs
      rw [item, bind_some, shown_cell spacer isCell, isRest, Nesting.search]
      dsimp only
      rw [again, again, again]
      split
      · rfl
      · split
        · rfl
        · split <;> rfl

theorem around_unique {text before after otherBefore otherAfter : List (GridPoint × Char)} {shown : GridPoint × Char}
    (distinct : text.Nodup) (here : text = before ++ shown :: after) (there : text = otherBefore ++ shown :: otherAfter) :
    otherBefore = before ∧ otherAfter = after := by
  rw [here] at there distinct
  have once : shown ∉ before ++ after := (List.nodup_cons.mp (List.nodup_middle.mp distinct)).1
  rw [mem_append, not_or] at once
  obtain ⟨same, -, rest⟩ := (append_cons_inj_of_notMem once.1 once.2).mp there
  exact ⟨same.symm, rest.symm⟩

variable {pair : Char × Char}

theorem pair_distinct (isPair : pair ∈ bracketPairs) : pair.1 ≠ pair.2 := by
  revert pair
  decide

theorem search_ahead_iff {text before after : List (GridPoint × Char)} (isPair : pair ∈ bracketPairs)
    (distinct : text.Nodup) (here : text = before ++ (point, c) :: after) :
    (Nesting.search (fun shown : GridPoint × Char => shown.2 == pair.1) (fun shown => shown.2 == pair.2) 0 after).map Prod.fst =
      some partner ↔ Matches text pair (point, c) (partner, pair.2) := by
  have differ : ∀ shown : GridPoint × Char, (shown.2 == pair.1) = true → (shown.2 == pair.2) = false := by
    intro shown isOpen
    rw [beq_eq_false_iff_ne, beq_iff_eq.mp isOpen]
    exact pair_distinct isPair
  rw [map_eq_some_iff]
  constructor
  · rintro ⟨⟨found, d⟩, searched, rfl⟩
    obtain ⟨inside, later, rfl, closes, nested⟩ := (Nesting.search_eq_some_iff differ).mp searched
    obtain rfl : d = pair.2 := beq_iff_eq.mp closes
    exact ⟨before, inside, later, by rw [here, append_assoc, cons_append], nested⟩
  · rintro ⟨otherBefore, inside, later, there, nested⟩
    rw [append_assoc, cons_append] at there
    obtain ⟨-, rfl⟩ := around_unique distinct here there
    exact ⟨_, (Nesting.search_eq_some_iff differ).mpr ⟨inside, later, rfl, beq_self_eq_true _, nested⟩, rfl⟩

theorem search_behind_iff {text before after : List (GridPoint × Char)} (isPair : pair ∈ bracketPairs)
    (distinct : text.Nodup) (here : text = before ++ (point, c) :: after) :
    (Nesting.search (fun shown : GridPoint × Char => shown.2 == pair.2) (fun shown => shown.2 == pair.1) 0
        before.reverse).map Prod.fst = some partner ↔ Matches text pair (partner, pair.1) (point, c) := by
  have differ : ∀ shown : GridPoint × Char, (shown.2 == pair.2) = true → (shown.2 == pair.1) = false := by
    intro shown isClose
    rw [beq_eq_false_iff_ne, beq_iff_eq.mp isClose]
    exact (pair_distinct isPair).symm
  rw [map_eq_some_iff]
  constructor
  · rintro ⟨⟨found, d⟩, searched, rfl⟩
    obtain ⟨inside, earlier, parts, opens, nested⟩ := (Nesting.search_eq_some_iff differ).mp searched
    obtain rfl : d = pair.1 := beq_iff_eq.mp opens
    rw [reverse_eq_iff, reverse_append, reverse_cons] at parts
    exact ⟨earlier.reverse, inside.reverse, after, by rw [here, parts]; simp, Nesting.Nested.reverse nested⟩
  · rintro ⟨earlier, inside, otherAfter, there, nested⟩
    obtain ⟨isBefore, -⟩ := around_unique distinct here there
    refine ⟨(partner, pair.1), (Nesting.search_eq_some_iff differ).mpr ⟨inside.reverse, earlier.reverse, ?_, beq_self_eq_true _,
      Nesting.Nested.reverse nested⟩, rfl⟩
    rw [← isBefore, reverse_append, reverse_cons, append_assoc]
    rfl

end Search

section Partner

variable {text : List (GridPoint × Char)} {pair : Char × Char} {bracket : Char}

theorem findPair_of_mem (isPair : pair ∈ bracketPairs) :
    findPair pair.1 = some (true, pair.2) ∧ findPair pair.2 = some (false, pair.1) := by
  revert pair
  decide

theorem findPair_eq_some {startChar endChar : Char} {forward : Bool} (found : findPair startChar = some (forward, endChar)) :
    ∃ pair ∈ bracketPairs, (forward, startChar, endChar) = (true, pair.1, pair.2) ∨
      (forward, startChar, endChar) = (false, pair.2, pair.1) := by
  obtain ⟨pair, isPair, isFound⟩ := exists_of_findSome?_eq_some found
  refine ⟨pair, isPair, ?_⟩
  dsimp only at isFound
  split at isFound
  next isOpen =>
    obtain ⟨rfl, rfl⟩ := Prod.mk.inj (Option.some.inj isFound)
    exact .inl (by rw [isOpen])
  next notOpen =>
    split at isFound
    next isClose =>
      obtain ⟨rfl, rfl⟩ := Prod.mk.inj (Option.some.inj isFound)
      exact .inr (by rw [isClose])
    next notClose => cases isFound

theorem isPartner_open (isPair : pair ∈ bracketPairs) :
    IsPartner text point pair.1 partner ↔ ∃ c, Matches text pair (point, c) (partner, pair.2) := by
  constructor
  · rintro ⟨other, isOther, c, ⟨same, matched⟩ | ⟨same, matched⟩⟩
    · have found := (findPair_of_mem isPair).1
      rw [same, (findPair_of_mem isOther).1] at found
      obtain ⟨-, closes⟩ := Prod.mk.inj (Option.some.inj found)
      obtain rfl : other = pair := Prod.ext same.symm closes
      exact ⟨c, matched⟩
    · have found := (findPair_of_mem isPair).1
      rw [same, (findPair_of_mem isOther).2] at found
      cases found
  · rintro ⟨c, matched⟩
    exact ⟨pair, isPair, c, .inl ⟨rfl, matched⟩⟩

theorem isPartner_close (isPair : pair ∈ bracketPairs) :
    IsPartner text point pair.2 partner ↔ ∃ c, Matches text pair (partner, pair.1) (point, c) := by
  constructor
  · rintro ⟨other, isOther, c, ⟨same, matched⟩ | ⟨same, matched⟩⟩
    · have found := (findPair_of_mem isPair).2
      rw [same, (findPair_of_mem isOther).1] at found
      cases found
    · have found := (findPair_of_mem isPair).2
      rw [same, (findPair_of_mem isOther).2] at found
      obtain ⟨-, opens⟩ := Prod.mk.inj (Option.some.inj found)
      obtain rfl : other = pair := Prod.ext opens same.symm
      exact ⟨c, matched⟩
  · rintro ⟨c, matched⟩
    exact ⟨pair, isPair, c, .inr ⟨rfl, matched⟩⟩

theorem Matches.mem {left right : GridPoint × Char} (matched : Matches text pair left right) : left ∈ text ∧ right ∈ text := by
  obtain ⟨before, inside, after, rfl, -⟩ := matched
  simp

theorem IsPartner.shows (isPartner : IsPartner text point bracket partner) :
    ∃ c forward, (partner, c) ∈ text ∧ findPair c = some (forward, bracket) := by
  obtain ⟨pair, isPair, c, ⟨rfl, matched⟩ | ⟨rfl, matched⟩⟩ := isPartner
  · exact ⟨pair.2, false, matched.mem.2, (findPair_of_mem isPair).2⟩
  · exact ⟨pair.1, true, matched.mem.1, (findPair_of_mem isPair).1⟩

theorem char_unique {d : Char} (here : (point, c) ∈ grid.chars debugAssertions) (there : (point, d) ∈ grid.chars debugAssertions) :
    c = d := by
  obtain ⟨-, -, -, -, cell, isCell, rfl⟩ := mem_shown here
  obtain ⟨-, -, -, -, other, isOther, rfl⟩ := mem_shown there
  rw [isCell] at isOther
  rw [Option.some.inj isOther]

theorem IsPartner.bracket_unique {other : Char} (isPartner : IsPartner (grid.chars debugAssertions) point bracket partner)
    (isOther : IsPartner (grid.chars debugAssertions) point other partner) : other = bracket := by
  obtain ⟨c, forward, shown, found⟩ := isPartner.shows
  obtain ⟨d, backward, otherShown, otherFound⟩ := isOther.shows
  rw [char_unique otherShown shown, found] at otherFound
  exact (Prod.mk.inj (Option.some.inj otherFound)).2.symm

end Partner

theorem Readable.bracketSearch_spec (readable : grid.Readable debugAssertions)
    (shows : grid.Shows debugAssertions (grid.maybeTranslatePointFromDisplayedToOriginal point) c) :
    ∃ result, grid.bracketSearch debugAssertions point = some result ∧
      ∀ partner, result = some partner ↔
        ∃ startChar, grid.storageChar (grid.maybeTranslatePointFromDisplayedToOriginal point) = some startChar ∧
          IsPartner (grid.chars debugAssertions) (grid.maybeTranslatePointFromDisplayedToOriginal point) startChar partner := by
  rw [bracketSearch, storageChar]
  generalize grid.maybeTranslatePointFromDisplayedToOriginal point = original at shows ⊢
  cases (grid.grid.get original.row).bind fun row => row.inner[original.col]? with
  | none =>
    refine ⟨none, rfl, fun partner => ⟨nofun, ?_⟩⟩
    rintro ⟨startChar, isStart, -⟩
    cases isStart
  | some startCell =>
    dsimp only
    cases found : findPair startCell.c with
    | none =>
      refine ⟨none, rfl, fun partner => ⟨nofun, ?_⟩⟩
      rintro ⟨startChar, isStart, isPartner⟩
      obtain rfl : startCell.c = startChar := by simpa using isStart
      obtain ⟨pair, isPair, c, ⟨same, -⟩ | ⟨same, -⟩⟩ := isPartner
      · rw [same, (findPair_of_mem isPair).1] at found
        cases found
      · rw [same, (findPair_of_mem isPair).2] at found
        cases found
    | some towardsEnd =>
      obtain ⟨forward, endChar⟩ := towardsEnd
      dsimp only
      obtain ⟨number, isNumber, isPoint, spacer, cell, isCell, isChar⟩ := mem_shown shows.shown
      have inside : number < grid.numCells := List.mem_range.mp isNumber
      obtain ⟨row, sameCell, isRow, inRow, cellThere⟩ := readable.cellAt_some inside
      have noSpacer := shows.noSpacer cell isCell
      subst isPoint isChar
      rw [cellThere] at isCell
      obtain rfl := Option.some.inj isCell
      have started : GraphemeCursor.new debugAssertions grid (grid.pointAt number) .all =
          some ⟨grid.pointAt number, .valid, .all, some row⟩ := by
        rw [GraphemeCursor.new, isRow, bind_some, bind_some, inRow]
        dsimp only
        rw [noSpacer.1, noSpacer.2, if_neg Bool.false_ne_true, if_neg Bool.false_ne_true]
      have on : grid.On ⟨grid.pointAt number, .valid, .all, some row⟩ number := ⟨rfl, rfl, rfl⟩
      have enough : (grid.ahead (towards forward) number).length < grid.numCells + 1 :=
        Nat.lt_succ_of_lt (ahead_length_lt inside)
      have around := chars_around inside spacer cellThere
      rw [started, bind_some, readable.searchLoop_spec on (by rw [isRow]; rfl) inside forward enough startCell.c endChar 0]
      refine ⟨_, rfl, fun partner => ?_⟩
      have isStart : (∃ startChar, Option.map Cell.c (some startCell) = some startChar ∧
          IsPartner (grid.chars debugAssertions) (grid.pointAt number) startChar partner) ↔
            IsPartner (grid.chars debugAssertions) (grid.pointAt number) startCell.c partner := by
        simp
      have sameChar {d : Char} (member : (grid.pointAt number, d) ∈ grid.chars debugAssertions) : d = sameCell.c :=
        char_unique member shows.shown
      rw [isStart]
      obtain ⟨pair, isPair, parts | parts⟩ := findPair_eq_some found
      · simp only [Prod.mk.injEq] at parts
        obtain ⟨isForward, opens, closes⟩ := parts
        rw [isForward, opens, closes, isPartner_open isPair, towards, if_pos rfl, search_ahead_iff isPair nodup_chars around]
        constructor
        · exact fun matched => ⟨_, matched⟩
        · rintro ⟨d, matched⟩
          rwa [sameChar matched.mem.1] at matched
      · simp only [Prod.mk.injEq] at parts
        obtain ⟨isBackward, closes, opens⟩ := parts
        have behind : _ = some partner ↔ _ := search_behind_iff isPair nodup_chars around
        rw [reverse_reverse] at behind
        rw [isBackward, opens, closes, isPartner_close isPair, towards, if_neg Bool.false_ne_true, behind]
        constructor
        · exact fun matched => ⟨_, matched⟩
        · rintro ⟨d, matched⟩
          rwa [sameChar matched.mem.2] at matched

def pairRow : Row := ⟨[{ Cell.default with c := '(' }, { Cell.default with c := ')' }], 2⟩

def visibleGrid : GridHandler := ⟨.new 2 none, ⟨[pairRow], 2⟩, none⟩

theorem visibleGrid_sound : visibleGrid.Sound where
  columns := by decide
  flatColumns := rfl
  indexColumns := rfl
  rows := by decide
  flat := ⟨0, [], FlatStorage.represents_new 2 none, by simp⟩

def scrolledGrid (flatStorage : FlatStorage) : GridHandler := ⟨flatStorage, ⟨[⟨[.default, .default], 0⟩], 2⟩, none⟩

end GridHandler

end Warp.Grid
