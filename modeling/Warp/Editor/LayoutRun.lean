import Warp.Lib.Lines
import Warp.Lib.Spans

namespace Warp.Editor

structure ParsedUrl where
  start : ℕ
  stop : ℕ
  link : Str
deriving DecidableEq

def ParsedUrl.holds (self : ParsedUrl) (p : ℕ) : Bool := self.start ≤ p && p < self.stop

structure SelectableTextRun where
  contentStart : ℕ
  frameStart : ℕ
  length : ℕ
deriving DecidableEq

structure StyledBufferRun (TextStyles : Type) where
  run : Str
  textStyles : TextStyles

/-- The styles of a paragraph: that of a run by its text styles, and that of a link by the style it is laid out in. -/
structure TextLayout (TextStyles Style : Type) where
  styleAndFont : TextStyles → Style
  addLinkToStyleAndFont : Style → Style
  isPlaceholder : TextStyles → Bool

structure LayOutArgs (Style : Type) where
  text : Str
  styleRuns : List (Span Style)
  contentLength : ℕ
  currentInteractiveRun : SelectableTextRun
  selectableRuns : List SelectableTextRun
  highlightedUrls : List ParsedUrl
  frameOffsetFromBlockStart : ℕ
  nextUrlIndex : ℕ
  activeLineUrl : List ParsedUrl
deriving DecidableEq

namespace LayOutArgs

variable {TextStyles Style : Type}

def new : LayOutArgs Style := ⟨[], [], 0, ⟨0, 0, 0⟩, [], [], 0, 0, []⟩

def resetForNewline (self : LayOutArgs Style) : LayOutArgs Style :=
  { self with
    text := [], styleRuns := [], contentLength := 0, currentInteractiveRun := ⟨0, 0, 0⟩, selectableRuns := [], activeLineUrl := [] }

structure Progress (Style : Type) where
  stylingStart : ℕ
  styleRuns : List (Span Style)
  nextUrlIndex : ℕ
  activeLineUrl : List ParsedUrl

inductive Turn (Style : Type) where
  | next (progress : Progress Style)
  | stop (progress : Progress Style)

structure Stretch (Style : Type) where
  urls : List ParsedUrl
  frameOffset : ℕ
  start : ℕ
  stop : ℕ
  base : Style
  linked : Style

namespace Stretch

variable (self : Stretch Style)

def urlStart (url : ParsedUrl) : ℕ := url.start - self.frameOffset

def urlEnd (url : ParsedUrl) : ℕ := url.stop - self.frameOffset

def linkStart (url : ParsedUrl) (progress : Progress Style) : ℕ := max progress.stylingStart (self.urlStart url)

def linkEnd (url : ParsedUrl) (progress : Progress Style) : ℕ :=
  max (min (self.urlEnd url) self.stop) (self.linkStart url progress)

def laidRuns (url : ParsedUrl) (progress : Progress Style) : List (Span Style) :=
  (if progress.stylingStart < self.urlStart url then
    progress.styleRuns ++ [⟨progress.stylingStart, self.urlStart url, self.base⟩] else progress.styleRuns) ++
    [⟨self.linkStart url progress, self.linkEnd url progress, self.linked⟩]

def layUrl (url : ParsedUrl) (progress : Progress Style) : Turn Style :=
  -- A url that starts before the frame is reported, and the loop continues with the same url.
  if url.start < self.frameOffset then .next progress
  else if self.stop ≤ self.urlStart url then .stop progress
  else if self.urlEnd url ≤ self.linkEnd url progress then
    .next ⟨self.linkEnd url progress, self.laidRuns url progress, progress.nextUrlIndex + 1,
      progress.activeLineUrl ++ [⟨self.urlStart url, self.urlEnd url, url.link⟩]⟩
  else .stop ⟨self.linkEnd url progress, self.laidRuns url progress, progress.nextUrlIndex, progress.activeLineUrl⟩

def turn (progress : Progress Style) : Turn Style :=
  match self.urls[progress.nextUrlIndex]? with
  | some url => self.layUrl url progress
  | none => .stop progress

/-- The loop, which has no result with turns left to take. -/
def layUrls : ℕ → Progress Style → Option (Progress Style)
  | 0, _ => none
  | fuel + 1, progress =>
    match self.turn progress with
    | .next progress => layUrls fuel progress
    | .stop progress => some progress

def layRest (progress : Progress Style) : List (Span Style) :=
  if progress.stylingStart < self.stop then
    progress.styleRuns ++ [⟨progress.stylingStart, self.stop, self.base⟩] else progress.styleRuns

end Stretch

def splitNewLine (run : Str) : Str × Bool :=
  if run.getLast? = some '\n' then (run.dropLast, true) else (run, false)

variable (layout : TextLayout TextStyles Style) (self : LayOutArgs Style) (content : StyledBufferRun TextStyles)

def stretch : Stretch Style where
  urls := self.highlightedUrls
  frameOffset := self.frameOffsetFromBlockStart
  start := self.text.length
  stop := self.text.length + (splitNewLine content.run).1.length
  base := layout.styleAndFont content.textStyles
  linked := layout.addLinkToStyleAndFont (layout.styleAndFont content.textStyles)

def progress : Progress Style := ⟨self.text.length, self.styleRuns, self.nextUrlIndex, self.activeLineUrl⟩

def addContent (charLength : ℕ) : LayOutArgs Style :=
  if layout.isPlaceholder content.textStyles then
    { self with
      contentLength := self.contentLength + 1
      currentInteractiveRun := ⟨self.contentLength + 1, self.text.length, 0⟩
      selectableRuns := self.selectableRuns ++ [self.currentInteractiveRun] }
  else
    { self with
      contentLength := self.contentLength + charLength
      currentInteractiveRun :=
        { self.currentInteractiveRun with length := self.currentInteractiveRun.length + charLength } }

def addNewLine : LayOutArgs Style :=
  { self with
    frameOffsetFromBlockStart := self.frameOffsetFromBlockStart + self.text.length
    contentLength := self.contentLength + 1
    currentInteractiveRun := { self.currentInteractiveRun with length := self.currentInteractiveRun.length + 1 } }

/-- No result within so many turns of the loop. -/
def layoutRun (fuel : ℕ) : Option (LayOutArgs Style × Bool) :=
  let (runContent, hasNewLine) := splitNewLine content.run
  let stretch := self.stretch layout content
  (stretch.layUrls fuel self.progress).map fun progress =>
    let laid : LayOutArgs Style :=
      { self with
        text := self.text ++ runContent
        styleRuns := stretch.layRest progress
        nextUrlIndex := progress.nextUrlIndex
        activeLineUrl := progress.activeLineUrl }
    let laid := laid.addContent layout content runContent.length
    (if hasNewLine then laid.addNewLine else laid, hasNewLine)

/-- Url ranges from the first one to the last one, which do not overlap. -/
structure Ordered (urls : List ParsedUrl) : Prop where
  ranges : ∀ url ∈ urls, url.start ≤ url.stop
  disjoint : urls.Pairwise fun url later => url.stop ≤ later.start

/-- The states between two runs, from a frame at any offset of its block. -/
inductive Reached : LayOutArgs Style → Prop where
  | start {urls : List ParsedUrl} (frameOffset : ℕ) (ordered : Ordered urls) :
      Reached { new with highlightedUrls := urls, frameOffsetFromBlockStart := frameOffset }
  | run {self fuel content laid newLine} : Reached self → self.layoutRun layout content fuel = some (laid, newLine) →
      Reached laid
  | newLine {self fuel content laid} : Reached self → self.layoutRun layout content fuel = some (laid, true) →
      Reached laid.resetForNewline

/-- The run is laid out after finitely many turns: its characters follow the text, and each of them has one style run, which is
that of a link where a url holds the character. -/
def LaysOut : Prop :=
  ∃ fuel laid newLine, self.layoutRun layout content fuel = some (laid, newLine) ∧
    laid.text = self.text ++ (splitNewLine content.run).1 ∧
    ∀ p, self.text.length ≤ p → p < laid.text.length →
      Span.valuesAt laid.styleRuns p =
        [if self.highlightedUrls.any (·.holds (self.frameOffsetFromBlockStart + p)) then
          layout.addLinkToStyleAndFont (layout.styleAndFont content.textStyles)
        else layout.styleAndFont content.textStyles]

variable {layout self content} {fuel : ℕ} {laid : LayOutArgs Style} {newLine : Bool}

theorem Ordered.later {urls : List ParsedUrl} (ordered : Ordered urls) {i j : ℕ} {url later : ParsedUrl}
    (found : urls[i]? = some url) (next : urls[j]? = some later) (lt : i < j) : url.stop ≤ later.start := by
  obtain ⟨hi, rfl⟩ := List.getElem?_eq_some_iff.mp found
  obtain ⟨hj, rfl⟩ := List.getElem?_eq_some_iff.mp next
  exact List.pairwise_iff_getElem.mp ordered.disjoint i j hi hj lt

def Turn.Meets (next stop : Progress Style → Prop) : Turn Style → Prop
  | .next progress => next progress
  | .stop progress => stop progress

namespace Stretch

variable {self : Stretch Style} {progress later : Progress Style} {url : ParsedUrl}

def mark (self : Stretch Style) (p : ℕ) : Style :=
  if self.urls.any (·.holds (self.frameOffset + p)) then self.linked else self.base

/-- The characters up to the next one have their style runs, and the urls before the next one lie before it. -/
structure Inv (stretch : Stretch Style) (progress : Progress Style) : Prop where
  ordered : Ordered stretch.urls
  low : stretch.start ≤ progress.stylingStart
  high : progress.stylingStart ≤ stretch.stop
  tiles : Span.Tiles progress.styleRuns stretch.start progress.stylingStart stretch.mark
  passed : ∀ i url, i < progress.nextUrlIndex → stretch.urls[i]? = some url →
    url.stop ≤ stretch.frameOffset + progress.stylingStart

/-- No url holds the characters that are left. -/
structure Done (stretch : Stretch Style) (progress : Progress Style) : Prop extends Inv stretch progress where
  rest : ∀ p, progress.stylingStart ≤ p → p < stretch.stop → stretch.mark p = stretch.base

theorem mark_of_holds (found : url ∈ self.urls) {p : ℕ} (holds : url.holds (self.frameOffset + p)) :
    self.mark p = self.linked :=
  if_pos (List.any_eq_true.mpr ⟨url, found, holds⟩)

theorem mark_of_none {p : ℕ} (none : ∀ url ∈ self.urls, ¬ url.holds (self.frameOffset + p)) :
    self.mark p = self.base := by
  apply if_neg
  intro any
  obtain ⟨url, found, holds⟩ := List.any_eq_true.mp any
  exact none url found holds

namespace Inv

section

variable (inv : self.Inv progress)
include inv

theorem unmarked {p : ℕ} (low : progress.stylingStart ≤ p)
    (after : ∀ i url, progress.nextUrlIndex ≤ i → self.urls[i]? = some url → self.frameOffset + p < url.start) :
    self.mark p = self.base := by
  apply mark_of_none
  intro url found
  obtain ⟨i, at_⟩ := List.mem_iff_getElem?.mp found
  simp only [ParsedUrl.holds, Bool.and_eq_true, decide_eq_true_eq, not_and, Nat.not_lt]
  intro started
  by_cases passed : i < progress.nextUrlIndex
  · have := inv.passed i url passed at_
    omega
  · have := after i url (by omega) at_
    omega

theorem unmarked_before (found : self.urls[progress.nextUrlIndex]? = some url) {p : ℕ}
    (low : progress.stylingStart ≤ p) (high : self.frameOffset + p < url.start) : self.mark p = self.base := by
  apply inv.unmarked low
  intro i later le at_
  rcases Nat.eq_or_lt_of_le le with rfl | lt
  · rw [found, Option.some.injEq] at at_
    subst at_
    exact high
  · have ends := inv.ordered.later found at_ lt
    have range := inv.ordered.ranges url (List.mem_of_getElem? found)
    omega

theorem laidRuns (found : self.urls[progress.nextUrlIndex]? = some url) (inFrame : self.frameOffset ≤ url.start) :
    Span.Tiles (self.laidRuns url progress) self.start (self.linkEnd url progress) self.mark := by
  have before : Span.Tiles (if progress.stylingStart < self.urlStart url then
      progress.styleRuns ++ [⟨progress.stylingStart, self.urlStart url, self.base⟩] else progress.styleRuns) self.start
      (self.linkStart url progress) self.mark := by
    apply inv.tiles.pushSome
    intro p low high
    apply inv.unmarked_before found low
    rw [urlStart] at high
    omega
  apply before.push (Nat.le_max_right _ _)
  intro p low high
  apply mark_of_holds (List.mem_of_getElem? found)
  simp only [linkStart, urlStart, urlEnd] at low high
  simp only [ParsedUrl.holds, Bool.and_eq_true, decide_eq_true_eq]
  omega

theorem layUrl (found : self.urls[progress.nextUrlIndex]? = some url) :
    (self.layUrl url progress).Meets
      (fun later => self.Inv later ∧ (self.frameOffset ≤ url.start → later.nextUrlIndex = progress.nextUrlIndex + 1))
      self.Done := by
  rw [Stretch.layUrl]
  by_cases inFrame : url.start < self.frameOffset
  · rw [if_pos inFrame]
    exact ⟨inv, fun le => absurd inFrame (by omega)⟩
  rw [if_neg inFrame]
  by_cases beyond : self.stop ≤ self.urlStart url
  · rw [if_pos beyond]
    refine { inv with rest := fun p low high => inv.unmarked_before found low ?_ }
    rw [urlStart] at beyond
    omega
  rw [if_neg beyond]
  have tiles := inv.laidRuns found (by omega)
  have low := inv.low
  have high := inv.high
  have begins : progress.stylingStart ≤ self.linkStart url progress := Nat.le_max_left _ _
  have goes : self.linkStart url progress ≤ self.linkEnd url progress := Nat.le_max_right _ _
  have ends : self.linkEnd url progress ≤ self.stop := by
    simp only [linkEnd, linkStart]
    omega
  have passed : ∀ i old, i < progress.nextUrlIndex → self.urls[i]? = some old →
      old.stop ≤ self.frameOffset + self.linkEnd url progress := by
    intro i old before at_
    have := inv.passed i old before at_
    omega
  by_cases whole : self.urlEnd url ≤ self.linkEnd url progress
  · rw [if_pos whole]
    refine ⟨⟨inv.ordered, Nat.le_trans low (Nat.le_trans begins goes), ends, tiles, fun i old before at_ => ?_⟩, fun _ => rfl⟩
    rcases Nat.lt_succ_iff_lt_or_eq.mp before with lt | rfl
    · exact passed i old lt at_
    · rw [found, Option.some.injEq] at at_
      subst at_
      rw [urlEnd] at whole
      exact Nat.sub_le_iff_le_add'.mp whole
  · rw [if_neg whole]
    refine ⟨⟨inv.ordered, Nat.le_trans low (Nat.le_trans begins goes), ends, tiles, passed⟩, fun p rest inside => ?_⟩
    -- The url goes on after the run, so the whole run is laid out.
    have all : self.stop ≤ self.linkEnd url progress := by
      simp only [linkEnd] at whole ⊢
      omega
    exact absurd (Nat.lt_of_lt_of_le inside (Nat.le_trans all rest)) (Nat.lt_irrefl p)

theorem turn :
    (self.turn progress).Meets
      (fun later => self.Inv later ∧ ∃ url, self.urls[progress.nextUrlIndex]? = some url ∧
        (self.frameOffset ≤ url.start → later.nextUrlIndex = progress.nextUrlIndex + 1)) self.Done := by
  unfold Stretch.turn
  cases found : self.urls[progress.nextUrlIndex]? with
  | none =>
    refine { inv with rest := fun p low high => inv.unmarked low fun i url le at_ => ?_ }
    rw [List.getElem?_eq_none (by have := List.getElem?_eq_none_iff.mp found; omega)] at at_
    cases at_
  | some url =>
    have laid := inv.layUrl found
    change Turn.Meets _ _ (self.layUrl url progress)
    cases turned : self.layUrl url progress with
    | next later =>
      rw [turned] at laid
      exact ⟨laid.1, url, rfl, laid.2⟩
    | stop later =>
      rw [turned] at laid
      exact laid

theorem layUrls (laid : self.layUrls fuel progress = some later) : self.Done later := by
  induction fuel generalizing progress with
  | zero => cases laid
  | succ fuel ih =>
    have step := inv.turn
    rw [Stretch.layUrls] at laid
    cases turned : self.turn progress with
    | next after =>
      rw [turned] at laid step
      exact ih step.1 laid
    | stop after =>
      rw [turned] at laid step
      cases laid
      exact step

theorem layUrls_returns (inFrame : ∀ url, self.urls[progress.nextUrlIndex]? = some url → self.frameOffset ≤ url.start) :
    ∃ fuel later, self.layUrls fuel progress = some later := by
  induction left : self.urls.length - progress.nextUrlIndex generalizing progress with
  | zero =>
    refine ⟨1, progress, ?_⟩
    rw [Stretch.layUrls, Stretch.turn, List.getElem?_eq_none (by omega)]
  | succ left ih =>
    have step := inv.turn
    cases turned : self.turn progress with
    | next after =>
      rw [turned] at step
      obtain ⟨inv', url, found, advance⟩ := step
      have index := advance (inFrame url found)
      have range := inv.ordered.ranges url (List.mem_of_getElem? found)
      obtain ⟨fuel, later, laid⟩ := ih inv' (fun next found' => by
        have := inv.ordered.later found found' (by omega)
        have := inFrame url found
        omega) (by omega)
      refine ⟨fuel + 1, later, ?_⟩
      rw [Stretch.layUrls, turned]
      exact laid
    | stop after =>
      refine ⟨1, after, ?_⟩
      rw [Stretch.layUrls, turned]

end

end Inv

theorem layUrls_stuck (found : self.urls[progress.nextUrlIndex]? = some url) (before : url.start < self.frameOffset) :
    self.layUrls fuel progress = none := by
  induction fuel with
  | zero => rfl
  | succ fuel ih =>
    have turned : self.turn progress = .next progress := by
      unfold turn
      rw [found]
      exact if_pos before
    rw [layUrls, turned]
    exact ih

theorem Done.layRest (done : self.Done progress) :
    Span.Tiles (self.layRest progress) self.start self.stop self.mark := by
  have tiles := done.tiles.pushSome done.rest
  rw [Nat.max_eq_right done.high] at tiles
  exact tiles

end Stretch

/-- Between two runs the style runs are those of the text, and the urls that were laid out lie in it or before it. -/
structure Settled (args : LayOutArgs Style) : Prop where
  ordered : Ordered args.highlightedUrls
  passed : ∀ i url, i < args.nextUrlIndex → args.highlightedUrls[i]? = some url →
    url.stop ≤ args.frameOffsetFromBlockStart + args.text.length
  after : ∀ p, args.text.length ≤ p → Span.valuesAt args.styleRuns p = []

theorem Settled.inv (settled : self.Settled) : (self.stretch layout content).Inv self.progress where
  ordered := settled.ordered
  low := Nat.le_refl _
  high := Nat.le_add_right _ _
  tiles := .empty settled.after
  passed := settled.passed

structure Laid (layout : TextLayout TextStyles Style) (args : LayOutArgs Style) (content : StyledBufferRun TextStyles)
    (laid : LayOutArgs Style) (newLine : Bool) (progress : Progress Style) : Prop where
  text : laid.text = args.text ++ (splitNewLine content.run).1
  styleRuns : laid.styleRuns = (args.stretch layout content).layRest progress
  highlightedUrls : laid.highlightedUrls = args.highlightedUrls
  nextUrlIndex : laid.nextUrlIndex = progress.nextUrlIndex
  frameOffset : laid.frameOffsetFromBlockStart =
    args.frameOffsetFromBlockStart + if newLine then laid.text.length else 0

theorem addContent_eq (layout : TextLayout TextStyles Style) (self : LayOutArgs Style) (content : StyledBufferRun TextStyles)
    (charLength : ℕ) : ∃ contentLength interactive selectable, self.addContent layout content charLength =
    { self with contentLength := contentLength, currentInteractiveRun := interactive, selectableRuns := selectable } := by
  unfold addContent
  split <;> exact ⟨_, _, _, rfl⟩

theorem layoutRun_laid (ran : self.layoutRun layout content fuel = some (laid, newLine)) :
    ∃ progress, (self.stretch layout content).layUrls fuel self.progress = some progress ∧
      Laid layout self content laid newLine progress := by
  rw [layoutRun, Option.map_eq_some_iff] at ran
  obtain ⟨progress, done, ended⟩ := ran
  refine ⟨progress, done, ?_⟩
  simp only [Prod.mk.injEq] at ended
  obtain ⟨rfl, rfl⟩ := ended
  obtain ⟨contentLength, interactive, selectable, added⟩ := addContent_eq layout { self with
    text := self.text ++ (splitNewLine content.run).1, styleRuns := (self.stretch layout content).layRest progress
    nextUrlIndex := progress.nextUrlIndex, activeLineUrl := progress.activeLineUrl } content
    (splitNewLine content.run).1.length
  rw [added]
  cases (splitNewLine content.run).2 <;> exact ⟨rfl, rfl, rfl, rfl, rfl⟩

theorem Settled.layoutRun (settled : self.Settled) (ran : self.layoutRun layout content fuel = some (laid, newLine)) :
    laid.text = self.text ++ (splitNewLine content.run).1 ∧
      Span.Tiles laid.styleRuns self.text.length laid.text.length (self.stretch layout content).mark ∧
      laid.Settled ∧ (newLine → laid.resetForNewline.Settled) := by
  obtain ⟨progress, ended, run⟩ := layoutRun_laid ran
  have done := settled.inv.layUrls ended
  have length : laid.text.length = (self.stretch layout content).stop := by
    rw [run.text, List.length_append]
    rfl
  have tiles := done.layRest
  rw [← run.styleRuns, ← length] at tiles
  have ordered : Ordered laid.highlightedUrls := by
    rw [run.highlightedUrls]
    exact settled.ordered
  have passed : ∀ i url, i < laid.nextUrlIndex → laid.highlightedUrls[i]? = some url →
      url.stop ≤ self.frameOffsetFromBlockStart + laid.text.length := by
    rw [run.nextUrlIndex, run.highlightedUrls]
    intro i url before found
    have stop : url.stop ≤ self.frameOffsetFromBlockStart + progress.stylingStart := done.passed i url before found
    have high := done.high
    omega
  refine ⟨run.text, tiles, ⟨ordered, fun i url before found => ?_, tiles.after⟩, fun ends => ?_⟩
  · have stop := passed i url before found
    rw [run.frameOffset]
    omega
  · refine ⟨ordered, fun i url before found => ?_, fun _ _ => rfl⟩
    have stop := passed i url before found
    have frame := run.frameOffset
    rw [if_pos ends] at frame
    rw [resetForNewline, frame]
    exact stop

theorem Reached.settled (reached : Reached layout self) : self.Settled := by
  induction reached with
  | start frameOffset ordered => exact ⟨ordered, fun _ _ before => absurd before (by exact Nat.not_lt_zero _), fun _ _ => rfl⟩
  | run _ ran ih => exact (ih.layoutRun ran).2.2.1
  | newLine _ ran ih => exact (ih.layoutRun ran).2.2.2 rfl

/-- The loop ends exactly when the next url does not start before the frame. -/
theorem layoutRun_laysOut_iff (reached : Reached layout self) :
    self.LaysOut layout content ↔
      ∀ url, self.highlightedUrls[self.nextUrlIndex]? = some url → self.frameOffsetFromBlockStart ≤ url.start := by
  have settled := reached.settled
  constructor
  · rintro ⟨fuel, laid, newLine, ran, -⟩ url found
    by_contra before
    obtain ⟨progress, ended, -⟩ := layoutRun_laid ran
    have stuck : (self.stretch layout content).layUrls fuel self.progress = none :=
      Stretch.layUrls_stuck found (Nat.lt_of_not_le before)
    rw [stuck] at ended
    cases ended
  · intro inFrame
    have inv : (self.stretch layout content).Inv self.progress := settled.inv
    obtain ⟨fuel, progress, ended⟩ := inv.layUrls_returns inFrame
    have ran : ∃ laid newLine, self.layoutRun layout content fuel = some (laid, newLine) := by
      simp only [layoutRun, ended, Option.map_some]
      exact ⟨_, _, rfl⟩
    obtain ⟨laid, newLine, ran⟩ := ran
    obtain ⟨text, tiles, -, -⟩ := settled.layoutRun ran
    exact ⟨fuel, laid, newLine, ran, text, fun p low high => tiles.inside p low high⟩

def plain : TextLayout Unit Bool := ⟨fun _ => false, fun _ => true, fun _ => false⟩

theorem layoutRun_laysOut_url :
    LaysOut plain { new with highlightedUrls := [⟨1, 9, "http://e".toList⟩] } ⟨"(http://e)\n".toList, ()⟩ :=
  (layoutRun_laysOut_iff (.start 0 ⟨by decide, by decide⟩)).mpr fun _ _ => Nat.zero_le _

def secondLine : LayOutArgs Bool where
  text := "ab".toList
  styleRuns := [⟨0, 2, false⟩]
  contentLength := 3
  currentInteractiveRun := ⟨0, 0, 3⟩
  selectableRuns := []
  highlightedUrls := [⟨4, 12, "http://e".toList⟩]
  frameOffsetFromBlockStart := 2
  nextUrlIndex := 0
  activeLineUrl := []

/-- The third line of a table that is laid out as text: its lines are not reset, so the frame is taken to start after them twice. -/
def thirdLine : LayOutArgs Bool where
  text := "abcd".toList
  styleRuns := [⟨0, 2, false⟩, ⟨2, 4, true⟩]
  contentLength := 6
  currentInteractiveRun := ⟨0, 0, 6⟩
  selectableRuns := []
  highlightedUrls := [⟨4, 12, "http://e".toList⟩]
  frameOffsetFromBlockStart := 6
  nextUrlIndex := 0
  activeLineUrl := []

theorem layoutRun_hangs :
    Reached plain thirdLine ∧ ¬ thirdLine.LaysOut plain ⟨"http://e\n".toList, ()⟩ := by
  constructor
  · have begun : Reached plain { new with highlightedUrls := [⟨4, 12, "http://e".toList⟩] } :=
      .start 0 ⟨by decide, by decide⟩
    have first : layoutRun plain { new with highlightedUrls := [⟨4, 12, "http://e".toList⟩] } ⟨"ab\n".toList, ()⟩ 1 =
        some (secondLine, true) := by decide
    have second : secondLine.layoutRun plain ⟨"cd\n".toList, ()⟩ 1 = some (thirdLine, true) := by decide
    exact (begun.run first).run second
  · rintro ⟨fuel, laid, newLine, ran, -⟩
    obtain ⟨progress, ended, -⟩ := layoutRun_laid ran
    have found : (thirdLine.stretch plain ⟨"http://e\n".toList, ()⟩).urls[thirdLine.progress.nextUrlIndex]? =
        some ⟨4, 12, "http://e".toList⟩ := rfl
    have stuck : (thirdLine.stretch plain ⟨"http://e\n".toList, ()⟩).layUrls fuel thirdLine.progress = none :=
      Stretch.layUrls_stuck found (by decide)
    rw [stuck] at ended
    cases ended

end LayOutArgs

end Warp.Editor
