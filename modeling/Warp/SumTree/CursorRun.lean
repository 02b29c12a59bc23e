import Warp.SumTree.Prev

namespace Warp.SumTree

open List Option

universe u

variable {T S D U A : Type u}

instance {S : Type u} [Add S] [Zero S] : LawfulDimension PUnit S where
  addSummary_default := rfl
  addSummary_add _ _ _ := rfl

/-- A position in a list: before its first item, or at an index (the length is the position after the last item). -/
inductive Place where
  | before
  | at (index : ℕ)

namespace Place

def index : Place → ℕ
  | before => 0
  | «at» index => index

def item (items : List T) : Place → Option T
  | before => none
  | «at» index => items[index]?

def prevItem (items : List T) : Place → Option T
  | before => none
  | «at» index => if index = 0 then none else items[index - 1]?

def next (items : List T) : Place → Place
  | before => .at 0
  | «at» index => .at (min (index + 1) items.length)

def prev : Place → Place
  | before => before
  | «at» 0 => before
  | «at» (index + 1) => .at index

end Place

section Landing

variable [Item T S] [Dimension D S] [LinearOrder D]

/-- The first index from `start` on at which the end prefix sum stops the target. -/
def landing (items : List T) (target : D) (bias : SeekBias) (start : ℕ) : ℕ :=
  ((List.range' start (items.length - start)).find? fun index =>
    Stops target bias (dimensionOf D (items.take (index + 1)))).getD items.length

def PrefixSumsMonotone (D : Type u) [Dimension D S] [LinearOrder D] (items : List T) : Prop :=
  ∀ i j, i ≤ j → dimensionOf D (items.take i) ≤ dimensionOf D (items.take j)

theorem landing_eq {items left done rest : List T} {target : D} {bias : SeekBias}
    (monotone : PrefixSumsMonotone D items) (split : items = left ++ done ++ rest)
    (passed : done = [] ∨ ¬ Stops target bias (dimensionOf D (left ++ done)))
    (stops : ∀ item more, rest = item :: more → Stops target bias (dimensionOf D (left ++ done ++ [item]))) :
    landing items target bias left.length = left.length + done.length := by
  have count : items.length - left.length = done.length + rest.length := by
    simp only [split, length_append]
    omega
  have skipped : (List.range' left.length done.length).find? (fun index =>
      decide (Stops target bias (dimensionOf D (items.take (index + 1))))) = none := by
    refine List.find?_eq_none.mpr ?_
    intro index member stop
    obtain ⟨-, below⟩ := mem_range'_1.mp member
    have stop : Stops target bias (dimensionOf D (items.take (index + 1))) := by simpa using stop
    rcases passed with none | passed
    · simp only [none, length_nil, List.range'_zero, not_mem_nil] at member
    · have le := monotone (index + 1) (left ++ done).length (by simp only [length_append]; omega)
      have all : items.take (left ++ done).length = left ++ done := by
        rw [split]
        exact take_left
      rw [all] at le
      exact passed (stop.mono le)
  have ranges : List.range' left.length (done.length + rest.length) =
      List.range' left.length done.length ++ List.range' (left.length + done.length) rest.length := by
    simp
  rw [landing, count, ranges, List.find?_append, skipped, none_or]
  cases rest with
  | nil => simp [split]
  | cons item more =>
    have stop := stops item more rfl
    have whole : items = left ++ done ++ [item] ++ more := by simp [split]
    have size : left.length + done.length + 1 = (left ++ done ++ [item]).length := by simp [Nat.add_assoc]
    have taken : items.take (left.length + done.length + 1) = left ++ done ++ [item] := by
      rw [size, whole]
      exact take_left
    rw [length_cons, List.range'_succ, List.find?_cons_of_pos, getD_some]
    rw [taken]
    exact decide_eq_true stop

end Landing

inductive Call (D : Type u) where
  | seek (target : D) (bias : SeekBias)
  | slice (stop : D) (bias : SeekBias)
  | summary (stop : D) (bias : SeekBias)
  | suffix
  | next
  | prev

inductive Output (T S A : Type u) where
  | moved
  | slice (tree : Node T S)
  | summary (dimension : A)

inductive ListOutput (T : Type u) where
  | moved
  | slice (items : List T)
  | summary (items : List T)

def Call.onList [Item T S] [Dimension D S] [LinearOrder D] (items : List T) (place : Place) :
    Call D → Place × ListOutput T
  | seek target bias => (.at (landing items target bias 0), .moved)
  | slice stop bias =>
    let found := landing items stop bias place.index
    (.at found, .slice ((items.drop place.index).take (found - place.index)))
  | summary stop bias =>
    let found := landing items stop bias place.index
    (.at found, .summary ((items.drop place.index).take (found - place.index)))
  | suffix => (.at items.length, .slice (items.drop place.index))
  | next => (place.next items, .moved)
  | prev => (place.prev, .moved)

section Runs

variable [Add S] [Zero S] [Dimension D S] [Dimension U S] [Dimension A S] [LinearOrder D]

def Call.apply (build : Build) (cursor : Cursor T S D U) : Call D → Option (Cursor T S D U × Output T S A)
  | seek target bias => (cursor.seek build target bias).map fun result => (result.1, .moved)
  | slice stop bias => (cursor.slice build stop bias).map fun result => (result.1, .slice result.2)
  | summary stop bias => (cursor.summary build stop bias).map fun result => (result.1, .summary result.2)
  | suffix => (cursor.suffix build).map fun result => (result.1, .slice result.2)
  | next => (cursor.next build).map fun result => (result, .moved)
  | prev => (cursor.prev build).map fun result => (result, .moved)

def run (build : Build) : List (Call D) → Cursor T S D U → Option (Cursor T S D U × List (Output T S A))
  | [], cursor => some (cursor, [])
  | call :: calls, cursor => do
    let (cursor, output) ← call.apply build cursor
    let (cursor, outputs) ← run build calls cursor
    return (cursor, output :: outputs)

def runOnList [Item T S] (items : List T) : List (Call D) → Place → Place × List (ListOutput T)
  | [], place => (place, [])
  | call :: calls, place =>
    let (place, output) := call.onList items place
    let (place, outputs) := runOnList items calls place
    (place, output :: outputs)

/-- `prev` has moved the cursor before the first item of a nonempty tree. -/
def Cursor.BeforeFirst (cursor : Cursor T S D U) : Prop :=
  cursor.didSeek = true ∧ cursor.atEnd = false ∧ cursor.stack = [] ∧ cursor.tree.toList ≠ []

/-- `prev` has moved the cursor onto the leaf of an empty tree. -/
def Cursor.OnEmptyTree (cursor : Cursor T S D U) : Prop := cursor.stack ≠ [] ∧ cursor.tree.toList = []

/-- The condition on a cursor under which a call does what it does on a list. -/
def Call.Allowed [Item T S] (build : Build) (cursor : Cursor T S D U) : Call D → Prop
  | seek target _ => build.debugAssertions = true → Dimension.default S ≤ target
  | slice stop _ | summary stop _ =>
    (build.debugAssertions = true → cursor.seekDimension ≤ stop) ∧ ¬ cursor.BeforeFirst
  | suffix => ¬ cursor.BeforeFirst
  | next => (build.debugAssertions = true → cursor.didSeek = true) ∧ ¬ cursor.OnEmptyTree
  | prev => (build.debugAssertions = true → cursor.didSeek = true) ∧
    (cursor.stack = [] ∨ cursor.OnEmptyTree ∨ Cursor.RestartCached cursor.stack)

/-- Every call of the run meets its condition in the state before it. -/
def RunAllowed (A : Type u) [Dimension A S] [Item T S] (build : Build) : List (Call D) → Cursor T S D U → Prop
  | [], _ => True
  | call :: calls, cursor => call.Allowed build cursor ∧
    ∀ result ∈ (call.apply build cursor : Option (Cursor T S D U × Output T S A)), RunAllowed A build calls result.1

end Runs

section Decisions

variable [Add S] [Zero S] [Item T S] [Dimension D S] [Dimension U S] [Dimension A S] [LinearOrder D] [DecidableEq U]

instance (cursor : Cursor T S D U) : Decidable cursor.BeforeFirst :=
  inferInstanceAs (Decidable (cursor.didSeek = true ∧ cursor.atEnd = false ∧ cursor.stack = [] ∧ cursor.tree.toList ≠ []))

instance (cursor : Cursor T S D U) : Decidable cursor.OnEmptyTree :=
  inferInstanceAs (Decidable (cursor.stack ≠ [] ∧ cursor.tree.toList = []))

instance (stack : List (StackEntry T S D U)) : Decidable (Cursor.LastCached stack) :=
  match stack with
  | [] => isTrue trivial
  | parent :: rest =>
    inferInstanceAs (Decidable (parent.seekDimension = dimensionOf D (itemsBefore (parent :: rest)) ∧
      parent.sumDimension = dimensionOf U (itemsBefore (parent :: rest))))

instance decidableRestartCached : (stack : List (StackEntry T S D U)) → Decidable (Cursor.RestartCached stack)
  | [] => isTrue trivial
  | entry :: stack =>
    have := decidableRestartCached stack
    inferInstanceAs (Decidable (if entry.index > 0 then Cursor.LastCached stack else Cursor.RestartCached stack))

instance (build : Build) (cursor : Cursor T S D U) : (call : Call D) → Decidable (call.Allowed build cursor)
  | .seek target _ => inferInstanceAs (Decidable (build.debugAssertions = true → Dimension.default S ≤ target))
  | .slice stop _ | .summary stop _ =>
    inferInstanceAs (Decidable ((build.debugAssertions = true → cursor.seekDimension ≤ stop) ∧ ¬ cursor.BeforeFirst))
  | .suffix => inferInstanceAs (Decidable (¬ cursor.BeforeFirst))
  | .next =>
    inferInstanceAs (Decidable ((build.debugAssertions = true → cursor.didSeek = true) ∧ ¬ cursor.OnEmptyTree))
  | .prev =>
    inferInstanceAs (Decidable ((build.debugAssertions = true → cursor.didSeek = true) ∧
      (cursor.stack = [] ∨ cursor.OnEmptyTree ∨ Cursor.RestartCached cursor.stack)))

instance decidableRunAllowed (build : Build) :
    (calls : List (Call D)) → (cursor : Cursor T S D U) → Decidable (RunAllowed A build calls cursor)
  | [], _ => isTrue trivial
  | call :: calls, cursor =>
    have := decidableRunAllowed build calls
    inferInstanceAs (Decidable (call.Allowed build cursor ∧
      ∀ result ∈ (call.apply build cursor : Option (Cursor T S D U × Output T S A)), RunAllowed A build calls result.1))

end Decisions

section Refinement

variable [Add S] [Zero S] [Item T S] [Dimension D S] [Dimension U S]

inductive IsAt (root : Node T S) : Cursor T S D U → Place → Prop
  | fresh {seek : D} {sum : U} : IsAt root ((⟨root, [], seek, sum, false, false⟩ : Cursor T S D U).spanning []) .before
  | off {seek : D} {sum : U} : IsAt root ((⟨root, [], seek, sum, true, false⟩ : Cursor T S D U).spanning []) .before
  | emptied {seek cachedSeek : D} {sum cachedSum : U} (empty : root.toList = []) :
    IsAt root ((⟨root, [⟨root, 0, cachedSeek, cachedSum⟩], seek, sum, true, false⟩ : Cursor T S D U).spanning []) .before
  | item {seek : D} {sum : U} {stack : List (StackEntry T S D U)} {item : T} (on : OnItem root stack item) :
    IsAt root ((⟨root, stack, seek, sum, true, false⟩ : Cursor T S D U).spanning (itemsBefore stack))
      (.at (itemsBefore stack).length)
  | end {seek : D} {sum : U} :
    IsAt root ((⟨root, [], seek, sum, true, true⟩ : Cursor T S D U).spanning root.toList) (.at root.toList.length)

variable {root : Node T S} {stack : List (StackEntry T S D U)} {build : Build} {cursor : Cursor T S D U}
  {place : Place}

omit [Add S] [Zero S] [Item T S] [Dimension D S] [Dimension U S] in
theorem OnItem.ne_nil {item : T} (on : OnItem root stack item) :
    stack ≠ [] := by
  cases on
  exact cons_ne_nil _ _

variable [LinearOrder D]

omit [Add S] [Zero S] in
theorem Lands.isAt {target : D} {bias : SeekBias} {left done : List T} (lands : Lands target bias root left done stack)
    {seek : D} {sum : U} :
    IsAt root ((⟨root, stack, seek, sum, true, stack.isEmpty⟩ : Cursor T S D U).spanning (left ++ done))
      (.at (left ++ done).length) := by
  rcases lands.place with ⟨item, on, before, -⟩ | ⟨empty, all⟩
  · have notEmpty : stack.isEmpty = false := by simpa using on.ne_nil
    rw [notEmpty, ← before]
    exact .item on
  · subst empty
    rw [← all]
    exact .end

omit [Add S] [Zero S] [Dimension U S] in
theorem Lands.landing_eq {target : D} {bias : SeekBias} {left done : List T}
    (lands : Lands target bias root left done stack) (monotone : PrefixSumsMonotone D root.toList) :
    landing root.toList target bias left.length = (left ++ done).length ∧ ∃ rest, root.toList = left ++ done ++ rest := by
  rcases lands.place with ⟨item, on, before, stops⟩ | ⟨empty, all⟩
  · have split := on.toList
    rw [before] at split
    refine ⟨?_, _, split⟩
    rw [length_append]
    refine SumTree.landing_eq monotone split lands.passed ?_
    intro first more same
    cases same
    exact stops
  · have split : root.toList = left ++ done ++ [] := by simpa using all
    refine ⟨?_, [], split⟩
    rw [length_append]
    exact SumTree.landing_eq monotone split lands.passed (by simp)

theorem empty_root (wf : root.WF build) (empty : root.toList = []) :
    root = .leaf 0 [] [] := by
  cases wf with
  | leaf bound =>
    rw [Node.toList_leaf] at empty
    subst empty
    rfl
  | internal some bound wf level nonempty =>
    rw [Node.toList_internal] at empty
    exact absurd empty (Node.toList_ne_nil_of_children some nonempty)

variable [LawfulSummary S] [LawfulDimension D S] [LawfulDimension U S] [Dimension A S] [LawfulDimension A S]

omit [LinearOrder D] [Add S] [Zero S] [Dimension A S] [LawfulDimension A S] [LawfulSummary S] [LawfulDimension D S]
  [LawfulDimension U S] in
theorem IsAt.reset (isAt : IsAt root cursor place) :
    IsAt root cursor.reset .before := by
  cases isAt <;> exact @IsAt.fresh T S D U _ _ _ _ (Dimension.default S) (Dimension.default S)

omit [LinearOrder D] [Add S] [Zero S] [Dimension A S] [LawfulDimension A S] [LawfulSummary S] [LawfulDimension D S]
  [LawfulDimension U S] in
theorem IsAt.spanning (isAt : IsAt root cursor place) :
    cursor.tree = root ∧ cursor = cursor.spanning (root.toList.take place.index) ∧ place.index ≤ root.toList.length := by
  cases isAt with
  | fresh => exact ⟨rfl, rfl, Nat.zero_le _⟩
  | off => exact ⟨rfl, rfl, Nat.zero_le _⟩
  | emptied empty => exact ⟨rfl, rfl, Nat.zero_le _⟩
  | @item seek sum stack item on =>
    have split := on.toList
    have taken : root.toList.take (itemsBefore stack).length = itemsBefore stack := by
      rw [split]
      exact take_left
    refine ⟨rfl, ?_, ?_⟩
    · simp only [Place.index, taken]
      rfl
    · simp only [Place.index, split, length_append]
      omega
  | «end» =>
    refine ⟨rfl, ?_, Nat.le_refl _⟩
    simp only [Place.index, take_length]
    rfl

theorem IsAt.seekInternal {build : Build} {root : Node T S} (rootWF : root.WF build)
    (low : root.height < stackCapacity) (monotone : PrefixSumsMonotone D root.toList) {cursor : Cursor T S D U}
    {place : Place} (isAt : IsAt root cursor place) (notBefore : ¬ cursor.BeforeFirst) {target : D} (bias : SeekBias)
    (assertion : build.debugAssertions = true → cursor.seekDimension ≤ target) {mode : Mode}
    {aggregate : SeekAggregate T S A} (holds : aggregate.Holds build [] mode) :
    ∃ result next found, cursor.seekInternal build target bias aggregate .no = some (next, result, found) ∧
      IsAt root next (.at (landing root.toList target bias place.index)) ∧
      result.Holds build
        ((root.toList.drop place.index).take (landing root.toList target bias place.index - place.index)) mode ∧
      (cursor.didSeek = false → AllCached next.stack) := by
  have noPanic : (build.debugAssertions && decide (target < cursor.seekDimension)) = false := by
    cases debug : build.debugAssertions with
    | false => rfl
    | true => exact decide_eq_false (not_lt_of_ge (assertion debug))
  have general : ∀ (self : Cursor T S D U) (left : List T), self.tree = root → Cursor.Ready root self left →
      (build.debugAssertions = true → dimensionOf D left ≤ target) →
      ∃ result next found, (self.spanning left).seekInternal build target bias aggregate .no = some (next, result, found) ∧
        IsAt root next (.at (landing root.toList target bias left.length)) ∧
        result.Holds build
          ((root.toList.drop left.length).take (landing root.toList target bias left.length - left.length)) mode ∧
        (self.didSeek = false → AllCached next.stack) := by
    intro self left tree ready assertion
    obtain ⟨stack, result, done, found, sought, lands, resultHolds, cached⟩ :=
      Cursor.seekInternal_spec rootWF low tree ready assertion holds
    obtain ⟨landed, rest, split⟩ := lands.landing_eq monotone
    have passed : (root.toList.drop left.length).take (left.length + done.length - left.length) = done := by
      rw [split, append_assoc, drop_left, Nat.add_sub_cancel_left, take_left]
    refine ⟨result, _, found, sought, ?_, ?_, cached⟩
    · rw [landed]
      subst tree
      exact lands.isAt
    · rw [landed, length_append, passed]
      simpa using resultHolds
  cases isAt with
  | fresh => exact general _ [] rfl (.fresh rfl rfl) assertion
  | off =>
    have empty : root.toList = [] := by
      by_contra filled
      exact notBefore ⟨rfl, rfl, rfl, filled⟩
    refine general _ [] rfl ?_ assertion
    rw [← empty]
    exact .end rfl rfl
  | @emptied seek _ sum _ empty =>
    have leaf := empty_root rootWF empty
    subst leaf
    have nothing : (SliceLeaf.new aggregate).items.isEmpty = true := by
      cases aggregate <;> rfl
    have passed : aggregate.pushNonemptyLeaf build (SliceLeaf.new aggregate : SliceLeaf T S) = some aggregate := by
      simp only [SeekAggregate.pushNonemptyLeaf, nothing, ↓reduceIte]
    refine ⟨aggregate, (⟨.leaf 0 [] [], [], seek, sum, true, true⟩ : Cursor T S D U).spanning [],
      decide (target = dimensionOf D ([] : List T)), ?_, ?_, holds, by simp⟩
    · simp only [Cursor.seekInternal, noPanic, Bool.false_eq_true, ↓reduceIte,
        Cursor.locate, Cursor.spanning_didSeek, Cursor.spanning_stack, Cursor.resume, sliceFrom, length_nil, Nat.le_refl,
        drop_nil, zip_nil_left, Cursor.passWhile, bind_eq_bind, bind_some, Nat.lt_irrefl,
        passed, Cursor.itemSummary, Cursor.assertDidSeek, Bool.not_true, Bool.and_false]
      cases bias <;> rfl
    · exact .end
  | item on => exact general _ _ rfl (.item rfl on) assertion
  | «end» => exact general _ _ rfl (.end rfl rfl) assertion

def Output.Matches (build : Build) : Output T S A → ListOutput T → Prop
  | .moved, .moved => True
  | .slice tree, .slice items => tree.WF build ∧ tree.toList = items
  | .summary dimension, .summary items => dimension = dimensionOf A items
  | _, _ => False

def Call.KeepsCache : Call D → Prop
  | seek .. | next | prev => True
  | slice .. | summary .. | suffix => False

def Call.Exact (A : Type u) [Dimension A S] (build : Build) (root : Node T S) (cursor : Cursor T S D U) (place : Place)
    (call : Call D) : Prop :=
  ∃ next, ∃ output : Output T S A, call.apply build cursor = some (next, output) ∧
    IsAt root next (call.onList root.toList place).1 ∧ output.Matches build (call.onList root.toList place).2 ∧
    (call.KeepsCache → AllCached cursor.stack → AllCached next.stack)

section Calls

variable {build : Build} {root : Node T S} (rootWF : root.WF build) (low : root.height < stackCapacity)
  (monotone : PrefixSumsMonotone D root.toList) {cursor : Cursor T S D U} {place : Place}
  (isAt : IsAt root cursor place)

include rootWF low

omit [LinearOrder D] [Dimension A S] [LawfulDimension A S] in
theorem descendToFirstItem_isAt (seek : D) (sum : U) (didSeek : Bool) :
    ∃ stack, ((⟨root, [], seek, sum, didSeek, false⟩ : Cursor T S D U).spanning []).descendToFirstItem (fun _ => true) root =
        some ((⟨root, stack, seek, sum, true, false⟩ : Cursor T S D U).spanning []) ∧
      IsAt root ((⟨root, stack, seek, sum, true, stack.isEmpty⟩ : Cursor T S D U).spanning []) (.at 0) ∧
      AllCached stack := by
  obtain ⟨stack, skipped, descended, rejected, cached, place⟩ :=
    @Cursor.descendToFirstItem_spec T S D U _ _ _ _ _ _ _ _ _ _ filterExact_true _ _ rootWF
      ⟨root, [], seek, sum, didSeek, false⟩ .root (by simpa using low)
  have none : skipped = [] := List.eq_nil_iff_forall_not_mem.mpr fun item member => by
    simpa using rejected item member
  subst none
  refine ⟨stack, descended, ?_, cached trivial⟩
  rcases place with ⟨item, finds⟩ | ⟨empty, all⟩
  · have before : itemsBefore stack = [] := finds.before
    have filled : stack.isEmpty = false := by simpa using finds.on.ne_nil
    have onItem := @IsAt.item T S D U _ _ _ _ seek sum _ _ finds.on
    rw [before] at onItem
    rw [filled]
    exact onItem
  · have isEnd := @IsAt.end T S D U _ _ _ root seek sum
    rw [← all] at isEnd
    subst empty
    exact isEnd

include monotone isAt

omit [LawfulDimension A S] in
theorem seek_exact (target : D) (bias : SeekBias) (allowed : (Call.seek target bias).Allowed build cursor) :
    (Call.seek target bias).Exact A build root cursor place := by
  have notBefore : ¬ cursor.reset.BeforeFirst := fun before => Bool.false_ne_true before.1
  obtain ⟨result, next, found, sought, nextAt, -, cached⟩ :=
    @IsAt.seekInternal T S D U PUnit _ _ _ _ _ _ _ _ _ _ _ build root rootWF low monotone _ _ isAt.reset notBefore target
      bias allowed .none .none trivial
  refine ⟨next, .moved, ?_, nextAt, trivial, fun _ _ => cached rfl⟩
  simp [Call.apply, Cursor.seek, sought]

omit [LawfulDimension A S] in
theorem slice_exact (stop : D) (bias : SeekBias) (allowed : (Call.slice stop bias).Allowed build cursor) :
    (Call.slice stop bias).Exact A build root cursor place := by
  have start : (SeekAggregate.slice Node.new : SeekAggregate T S PUnit).Holds build [] .slice := ⟨.new build, rfl⟩
  obtain ⟨result, next, found, sought, nextAt, holds, -⟩ :=
    isAt.seekInternal rootWF low monotone allowed.2 bias allowed.1 start
  cases result with
  | slice tree =>
    refine ⟨next, .slice tree, ?_, nextAt, holds, False.elim⟩
    simp [Call.apply, Cursor.slice, sought]
  | none => exact holds.elim
  | summary => exact holds.elim

theorem summary_exact (stop : D) (bias : SeekBias) (allowed : (Call.summary stop bias).Allowed build cursor) :
    (Call.summary stop bias).Exact A build root cursor place := by
  have start : (SeekAggregate.summary (Dimension.default S) : SeekAggregate T S A).Holds build [] .summary := rfl
  obtain ⟨result, next, found, sought, nextAt, holds, -⟩ :=
    isAt.seekInternal rootWF low monotone allowed.2 bias allowed.1 start
  cases result with
  | summary dimension =>
    refine ⟨next, .summary dimension, ?_, nextAt, holds, False.elim⟩
    simp [Call.apply, Cursor.summary, sought]
  | none => exact holds.elim
  | slice => exact holds.elim

omit [LawfulDimension A S] in
theorem suffix_exact (allowed : (Call.suffix : Call D).Allowed build cursor) :
    (Call.suffix : Call D).Exact A build root cursor place := by
  obtain ⟨tree, spans, bound⟩ := isAt.spanning
  have extent : (root.extent : D) = dimensionOf D root.toList := by
    have total := addSummary_items (D := D) root.toList
    rw [← rootWF.summary_eq] at total
    exact total
  have assertion : cursor.seekDimension ≤ (root.extent : D) := by
    have le := monotone place.index root.toList.length bound
    rw [take_length] at le
    rw [spans, extent]
    exact le
  have landed : landing root.toList (root.extent : D) .right place.index = root.toList.length := by
    unfold landing
    rw [List.find?_eq_none.mpr]
    · rfl
    · intro index member
      obtain ⟨-, below⟩ := mem_range'_1.mp member
      have le := monotone (index + 1) root.toList.length (by omega)
      rw [take_length] at le
      simpa [Stops, extent] using le
  obtain ⟨next, output, applied, nextAt, holds, -⟩ := slice_exact (A := A) rootWF low monotone isAt (root.extent : D) .right
    ⟨fun _ => assertion, allowed⟩
  simp only [Call.onList, landed] at nextAt holds
  refine ⟨next, output, ?_, nextAt, ?_, False.elim⟩
  · rw [← applied]
    simp only [Call.apply, Cursor.suffix, tree]
  · have rest : (root.toList.drop place.index).take (root.toList.length - place.index) = root.toList.drop place.index :=
      take_of_length_le (Nat.le_of_eq length_drop)
    rwa [rest] at holds

omit monotone in
omit [LawfulDimension A S] in
theorem next_exact (allowed : (Call.next : Call D).Allowed build cursor) :
    (Call.next : Call D).Exact A build root cursor place := by
  obtain ⟨seeked, notEmptyTree⟩ := allowed
  have seekedAssert : cursor.assertDidSeek build = some ⟨⟩ := by
    cases debug : build.debugAssertions with
    | false => simp [Cursor.assertDidSeek, debug]
    | true => simp [Cursor.assertDidSeek, seeked debug]
  have first : ∀ (seek : D) (sum : U) (didSeek : Bool),
      cursor = (⟨root, [], seek, sum, didSeek, false⟩ : Cursor T S D U).spanning [] → place = .before →
      (Call.next : Call D).Exact A build root cursor place := by
    intro seek sum didSeek same start
    subst same start
    obtain ⟨stack, descended, nextAt, cached⟩ := descendToFirstItem_isAt rootWF low seek sum didSeek
    refine ⟨(⟨root, stack, seek, sum, true, stack.isEmpty⟩ : Cursor T S D U).spanning [], .moved, ?_, nextAt, trivial,
      fun _ _ => cached⟩
    simp only [Call.apply, Cursor.next, Cursor.nextInternal, seekedAssert, bind_eq_bind, bind_some,
      Cursor.spanning_stack, isEmpty_nil, ↓reduceIte, Cursor.spanning_atEnd, Bool.false_eq_true, Cursor.spanning_tree,
      descended]
    rfl
  cases isAt with
  | fresh => exact first _ _ _ rfl rfl
  | off => exact first _ _ _ rfl rfl
  | emptied empty => exact absurd ⟨cons_ne_nil _ _, empty⟩ notEmptyTree
  | @item seek sum stack item on =>
    obtain ⟨final, skipped, looped, rejected, cached, placed⟩ :=
      @Cursor.nextLoop_spec T S D U _ _ _ _ _ _ _ _ _ _ filterExact_true root rootWF low _ _ on
        ⟨root, stack, seek, sum, true, false⟩ rfl rfl
    have none : skipped = [] := List.eq_nil_iff_forall_not_mem.mpr fun item member => by
      simpa using rejected item member
    subst none
    have notEmpty : stack.isEmpty = false := by simpa using on.ne_nil
    have bound := on.toList
    have stepped : min ((itemsBefore stack).length + 1) root.toList.length = (itemsBefore stack ++ [item]).length := by
      rw [bound]
      simp only [length_append, length_cons, length_nil]
      omega
    refine ⟨(⟨root, final, seek, sum, true, final.isEmpty⟩ : Cursor T S D U).spanning (itemsBefore stack ++ [item]), .moved,
      ?_, ?_, trivial, fun _ => cached⟩
    · simp only [Call.apply, Cursor.next, Cursor.nextInternal, seekedAssert, bind_eq_bind, bind_some,
        Cursor.spanning_stack, notEmpty, Bool.false_eq_true, ↓reduceIte, looped]
      rfl
    · simp only [Call.onList, Place.next, stepped]
      rcases placed with ⟨next, finds⟩ | ⟨empty, all⟩
      · have before := finds.before
        have filled : final.isEmpty = false := by simpa using finds.on.ne_nil
        rw [filled, ← before]
        exact .item finds.on
      · subst empty
        rw [← all]
        exact .end
  | @«end» seek sum =>
    refine ⟨(⟨root, [], seek, sum, true, true⟩ : Cursor T S D U).spanning root.toList, .moved, ?_, ?_, trivial,
      fun _ => id⟩
    · simp only [Call.apply, Cursor.next, Cursor.nextInternal, seekedAssert, bind_eq_bind, bind_some,
        Cursor.spanning_stack, isEmpty_nil, ↓reduceIte, Cursor.spanning_atEnd]
      rfl
    · simp only [Call.onList, Place.next]
      rw [Nat.min_eq_right (Nat.le_succ _)]
      exact .end

omit monotone in
omit [LawfulDimension A S] in
theorem prev_exact (allowed : (Call.prev : Call D).Allowed build cursor) :
    (Call.prev : Call D).Exact A build root cursor place := by
  obtain ⟨seeked, restart⟩ := allowed
  have seekedAssert : cursor.assertDidSeek build = some ⟨⟩ := by
    cases debug : build.debugAssertions with
    | false => simp [Cursor.assertDidSeek, debug]
    | true => simp [Cursor.assertDidSeek, seeked debug]
  have applied : (Call.prev.apply build cursor : Option (Cursor T S D U × Output T S A)) =
      (if cursor.atEnd then
        (Cursor.descendToLastItem { cursor with seekDimension := Dimension.default S, sumDimension := Dimension.default S }
          cursor.tree).map fun self => { self with atEnd := false }
      else cursor.prevLoop cursor.stack).map fun result => (result, .moved) := by
    simp only [Call.apply, Cursor.prev, seekedAssert, bind_eq_bind, bind_some]
    cases cursor.atEnd <;> simp [map_eq_bind, Function.comp_def]
  unfold Call.Exact
  rw [applied]
  cases isAt with
  | fresh => exact ⟨_, .moved, rfl, .fresh, trivial, fun _ => id⟩
  | off => exact ⟨_, .moved, rfl, .off, trivial, fun _ => id⟩
  | @emptied seek _ sum _ empty => exact ⟨_, .moved, rfl, @IsAt.off T S D U _ _ _ _ seek sum, trivial, fun _ _ => trivial⟩
  | @item seek sum stack item on =>
    have notEmptyTree : root.toList ≠ [] := by simp [on.toList]
    have restarts : Cursor.RestartCached stack :=
      (restart.resolve_left on.ne_nil).resolve_left fun empty => notEmptyTree empty.2
    have retreats := @Cursor.prevLoop_item T S D U _ _ _ _ _ _ _ _ build root rootWF low _ _ on restarts
      ⟨root, stack, seek, sum, true, false⟩ rfl
    simp only [Cursor.spanning_atEnd, Bool.false_eq_true, ↓reduceIte, Cursor.spanning_stack]
    generalize Cursor.prevLoop ((⟨root, stack, seek, sum, true, false⟩ : Cursor T S D U).spanning (itemsBefore stack)) stack =
      stepped at retreats ⊢
    cases retreats with
    | off first =>
      refine ⟨_, .moved, rfl, ?_, trivial, fun _ _ => trivial⟩
      rw [first]
      exact .off
    | @on final init last before onLast placed cached =>
      refine ⟨_, .moved, rfl, ?_, trivial, fun _ => cached⟩
      have count : (itemsBefore stack).length = init.length + 1 := by simp [before]
      rw [count, ← placed]
      exact .item onLast
  | @«end» seek sum =>
    simp only [Cursor.spanning_atEnd, ↓reduceIte, Cursor.spanning_tree]
    by_cases empty : root.toList = []
    · have leaf := empty_root rootWF empty
      subst leaf
      exact ⟨_, .moved, rfl, @IsAt.emptied T S D U _ _ _ _ seek _ sum _ rfl, trivial, fun _ _ => ⟨⟨rfl, rfl⟩, trivial⟩⟩
    · obtain ⟨stack, init, item, descended, items, on, placed, cached⟩ :=
        @Cursor.descendToLastItem_spec T S D U _ _ _ _ _ _ _ _ build root root rootWF empty
          ⟨root, [], seek, sum, true, true⟩ .root (by simpa using low)
      have start : itemsBefore stack = init := placed
      have moved : (Cursor.descendToLastItem
          (⟨root, [], Dimension.default S, Dimension.default S, true, true⟩ : Cursor T S D U) root).map
            (fun self => { self with atEnd := false }) =
          some ((⟨root, stack, seek, sum, true, false⟩ : Cursor T S D U).spanning init) :=
        congrArg (Option.map _) descended
      refine ⟨_, .moved, congrArg (Option.map _) moved, ?_, trivial, fun _ _ => cached trivial⟩
      have count : root.toList.length = init.length + 1 := by simp [items]
      rw [count, ← start]
      exact .item on

end Calls

theorem Call.exact (rootWF : root.WF build) (low : root.height < stackCapacity)
    (monotone : PrefixSumsMonotone D root.toList) (isAt : IsAt root cursor place) {call : Call D}
    (allowed : call.Allowed build cursor) :
    call.Exact A build root cursor place := by
  cases call with
  | seek target bias => exact seek_exact rootWF low monotone isAt target bias allowed
  | slice stop bias => exact slice_exact rootWF low monotone isAt stop bias allowed
  | summary stop bias => exact summary_exact rootWF low monotone isAt stop bias allowed
  | suffix => exact suffix_exact rootWF low monotone isAt allowed
  | next => exact next_exact rootWF low isAt allowed
  | prev => exact prev_exact rootWF low isAt allowed

theorem run_exact (rootWF : root.WF build) (low : root.height < stackCapacity)
    (monotone : PrefixSumsMonotone D root.toList) (calls : List (Call D)) (isAt : IsAt root cursor place)
    (allowed : RunAllowed A build calls cursor) :
    ∃ final, ∃ outputs : List (Output T S A), run build calls cursor = some (final, outputs) ∧
      IsAt root final (runOnList root.toList calls place).1 ∧
      List.Forall₂ (Output.Matches build) outputs (runOnList root.toList calls place).2 := by
  induction calls generalizing cursor place with
  | nil => exact ⟨cursor, [], rfl, isAt, .nil⟩
  | cons call calls ih =>
    obtain ⟨next, output, applied, nextAt, matched, -⟩ := Call.exact (A := A) rootWF low monotone isAt allowed.1
    obtain ⟨final, outputs, ran, finalAt, allMatched⟩ := ih nextAt (allowed.2 _ applied)
    refine ⟨final, output :: outputs, ?_, finalAt, .cons matched allMatched⟩
    simp [run, applied, ran]

end Refinement

end Warp.SumTree
