import Warp.Ansi.Performer

namespace Warp.Ansi

open Checked Str List

variable {δ σ : Type} {env : Env δ} {handler : Handler δ σ}

section Text

variable {text : Str}

theorem fromUtf8_bytes {input : Bytes} (decoded : fromUtf8 input = some text) : bytes text = input := by
  obtain ⟨s, isString, rfl⟩ := Option.map_eq_some_iff.mp decoded
  unfold String.fromUTF8? at isString
  by_cases valid : (⟨input.toArray⟩ : ByteArray).IsValidUTF8
  · rw [dif_pos valid] at isString
    have content : s.toByteArray = ⟨input.toArray⟩ := by
      rw [← Option.some_inj.mp isString]
      rfl
    rw [← String.utf8Encode_toList] at content
    have data := congrArg (fun array => array.data.toList) content
    simpa [List.utf8Encode, bytes] using data
  · rw [dif_neg valid] at isString
    cases isString

theorem utf8Size_of_bytes {c : Char} {byte : UInt8} {rest : Bytes} (content : bytes (c :: text) = byte :: rest)
    (isAscii : byte < 128) : c.utf8Size = 1 ∧ bytes text = rest := by
  have content : String.utf8EncodeChar c ++ bytes text = byte :: rest := content
  rcases encodes c with ⟨first, encoded, -⟩ | ⟨first, second, more, encoded⟩
  · rw [encoded] at content
    refine ⟨?_, (List.cons.inj content).2⟩
    rw [← String.length_utf8EncodeChar, encoded]
    rfl
  · rw [encoded.eq] at content
    have same : first = byte := (List.cons.inj content).1
    have width := encoded.width
    rw [same] at width
    have size : c.utf8Size = (String.utf8EncodeChar c).length := (String.length_utf8EncodeChar c).symm
    rw [encoded.eq] at size
    have small : ∀ value : Fin 256, value < 128 → charWidth (.ofNat value) = 1 := by decide +kernel
    have single := small ⟨byte.toNat, byte.toNat_lt⟩ isAscii
    rw [UInt8.ofNat_toNat] at single
    simp only [length_cons] at size
    omega

theorem isBoundary_two {first second : UInt8} {rest : Bytes} (content : bytes text = first :: second :: rest)
    (firstAscii : first < 128) (secondAscii : second < 128) : IsBoundary text 2 := by
  cases text with
  | nil => cases content
  | cons c text =>
    obtain ⟨one, content⟩ := utf8Size_of_bytes content firstAscii
    cases text with
    | nil => cases content
    | cons d text =>
      obtain ⟨two, -⟩ := utf8Size_of_bytes content secondAscii
      exact ⟨[c, d], text, rfl, by simp [one, two]⟩

end Text

section Callbacks

variable {self : Performer σ} {params : List Bytes}

theorem Performer.handleKvMarker_isSome : (self.handleKvMarker handler params).isSome := by
  unfold Performer.handleKvMarker
  cases params[2]? with
  | none => rfl
  | some marker =>
    refine ite_isSome (fun _ => ?_) fun _ => ite_isSome (fun _ => ?_) fun _ => ite_isSome (fun _ => ?_) fun _ => rfl
    · cases params[3]? <;> rfl
    · rcases handler.finishReceivingHook self.handler with ⟨_ | hook, state⟩ <;> rfl
    · cases key : params[3]? with
      | none => rfl
      | some key =>
        have long : 3 < params.length := (List.getElem?_eq_some_iff.mp ‹_›).1
        dsimp only
        rw [sliceFrom_eq long]
        rfl

theorem Performer.apcEnd_isSome : (self.apcEnd env handler).isSome := by
  unfold Performer.apcEnd
  cases first : self.apcData.head? with
  | none => rfl
  | some byte =>
    have long : 1 ≤ self.apcData.length := List.length_pos_iff.mpr fun empty => by rw [empty] at first; cases first
    refine ite_isSome (fun _ => ite_isSome (fun _ => ?_) fun _ => rfl) fun _ => rfl
    rw [sliceFrom_eq long]
    exact bind_isSome rfl fun data _ => bind_isSome (parseKittyChunk_isSome data) fun _ _ => rfl

theorem Performer.updateCompletion_isSome {marker : Bytes} {payload : Option Bytes} (prefixed : ascii "D?" <+: marker) :
    (self.updateCompletion handler marker payload).isSome := by
  unfold Performer.updateCompletion
  cases decoded : fromUtf8 marker with
  | none => rfl
  | some parameter =>
    cases payload.map fromUtf8Lossy with
    | none => rfl
    | some data =>
      obtain ⟨rest, rfl⟩ := prefixed
      have boundary : IsBoundary parameter 2 := isBoundary_two (fromUtf8_bytes decoded) (by decide) (by decide)
      have whole : IsBoundary parameter (byteLen parameter) := ⟨parameter, [], (append_nil _).symm, rfl⟩
      have order : 2 ≤ byteLen parameter := by
        obtain ⟨before, after, rfl, two⟩ := boundary
        rw [byteLen_append]
        omega
      obtain ⟨field, sliced⟩ := exists_byteSlice boundary whole order
      dsimp only
      rw [sliced]
      rfl

theorem Performer.oscTitle_isSome : (self.oscTitle handler params).isSome := by
  apply ite_isSome
  · intro long
    rw [sliceFrom_eq (by omega)]
    rfl
  · exact fun _ => rfl

theorem Performer.oscNotification_isSome : (self.oscNotification handler params).isSome := by
  apply ite_isSome
  · intro long
    rw [index_eq long]
    apply bind_isSome rfl
    intro first _
    apply ite_isSome (fun _ => rfl)
    intro _
    rw [sliceFrom_eq (by omega)]
    apply bind_isSome rfl
    intro parts _
    cases parts.mapM fromUtf8 <;> rfl
  · exact fun _ => rfl

theorem Performer.oscCursorStyle_isSome : (self.oscCursorStyle handler params).isSome := by
  apply ite_isSome
  · intro long
    rw [index_eq long]
    apply bind_isSome rfl
    intro param _
    apply ite_isSome
    · intro long
      rw [slice_eq (Nat.zero_le _) (by omega)]
      apply bind_isSome rfl
      intro key _
      apply ite_isSome
      · intro _
        rw [index_eq long]
        rfl
      · exact fun _ => rfl
    · exact fun _ => rfl
  · exact fun _ => rfl

theorem Performer.oscClipboard_isSome {terminator : Str} : (self.oscClipboard handler terminator params).isSome := by
  apply ite_isSome (fun _ => rfl)
  intro long
  rw [index_eq (by omega), index_eq (by omega)]
  rfl

theorem Performer.oscResetColorIndex_isSome (nonempty : params ≠ []) : (self.oscResetColorIndex handler params).isSome := by
  apply ite_isSome (fun _ => rfl)
  intro _
  rw [sliceFrom_eq (List.length_pos_iff.mpr nonempty)]
  rfl

theorem Performer.oscPromptMarker_isSome (nonempty : params ≠ []) : (self.oscPromptMarker handler params).isSome := by
  unfold Performer.oscPromptMarker
  rw [sliceFrom_eq (List.length_pos_iff.mpr nonempty)]
  exact bind_isSome rfl fun options _ => bind_isSome (PromptMarker.tryFrom_isSome options) fun _ _ => rfl

theorem Performer.oscTitledNotification_isSome : (self.oscTitledNotification handler params).isSome := by
  apply ite_isSome
  · intro long
    rw [index_eq (by omega)]
    exact bind_isSome rfl fun kind _ => ite_isSome (fun _ => rfl) fun _ => rfl
  · exact fun _ => rfl

theorem Performer.oscWarp_isSome : (self.oscWarp env handler params).isSome := by
  unfold Performer.oscWarp
  split
  · cases params[2]?.map fromUtf8Lossy <;> rfl
  · cases params[2]?.map fromUtf8Lossy <;> rfl
  · exact Performer.handleKvMarker_isSome
  · rfl

theorem Performer.oscCompletions_isSome : (self.oscCompletions handler params).isSome := by
  unfold Performer.oscCompletions
  cases params[1]? with
  | none => rfl
  | some marker =>
    refine ite_isSome (fun _ => ?_) fun _ => ite_isSome (fun _ => rfl) fun _ => ite_isSome (fun _ => ?_) fun _ =>
      ite_isSome Performer.updateCompletion_isSome fun _ => ite_isSome (fun _ => rfl) fun _ => rfl
    · cases (params[2]?.map fromUtf8Lossy).bind CompletionsShellData.fromFormatType <;> rfl
    · cases params[2]?.map fromUtf8Lossy <;> rfl

theorem Performer.oscInlineImage_isSome_iff : (self.oscInlineImage env handler params).isSome ↔ 1 < params.length := by
  unfold Performer.oscInlineImage
  by_cases long : 1 < params.length
  · rw [index_eq long]
    simp only [long, iff_true]
    apply bind_isSome rfl
    intro argument _
    refine ite_isSome (fun _ => ?_) fun _ => ite_isSome (fun _ => ?_) fun _ => ite_isSome (fun _ => ?_) fun _ =>
      ite_isSome (fun _ => rfl) fun _ => rfl
    · apply bind_isSome (parseItermImageMetadata_isSome _ _ _)
      intro metadata _
      cases params.getLast? with
      | none => rfl
      | some last =>
        apply bind_isSome (splitOnce_isSome _ last)
        rintro (_ | ⟨key, data⟩) _ <;> rfl
    · exact bind_isSome (parseItermImageMetadata_isSome _ _ _) fun _ _ => rfl
    · apply bind_isSome (splitOnce_isSome _ argument)
      rintro (_ | ⟨key, data⟩) _ <;> rfl
  · have missing : index params 1 = none := List.getElem?_eq_none (Nat.le_of_not_lt long)
    rw [missing]
    simp [long]

end Callbacks

section Colors

variable {self : Performer σ}

def PairsOverrun : List Bytes → Prop
  | name :: spec :: rest => ShiftsOut spec ∨ ¬ (IsIndex name ∧ IsColor spec) ∧ PairsOverrun rest
  | _ => False

theorem Performer.setIndexedColor_isSome_iff {pairs : List Bytes} (even : pairs.length % 2 = 0) :
    (self.setIndexedColor handler (chunksOfTwo pairs)).isSome ↔ ¬ PairsOverrun pairs := by
  induction pairs using chunksOfTwo.induct with
  | case1 => simp [chunksOfTwo, Performer.setIndexedColor, PairsOverrun]
  | case2 name => cases even
  | case3 name spec rest ih =>
    have ih := ih (by rw [length_cons, length_cons] at even; omega)
    rw [chunksOfTwo, Performer.setIndexedColor, PairsOverrun]
    change (Option.bind (xparseColor spec) _).isSome = true ↔ _
    by_cases shifts : ShiftsOut spec
    · have panics := mt xparseColor_isSome_iff.mp (not_not.mpr shifts)
      rw [Option.not_isSome_iff_eq_none.mp panics]
      simp [shifts]
    · obtain ⟨color, parsed⟩ := Option.isSome_iff_exists.mp (xparseColor_isSome_iff.mpr shifts)
      have isColor := xparseColor_value shifts
      have isIndex : (parseNumber name).isSome ↔ IsIndex name := parseNumber_isSome_iff
      rw [parsed] at isColor ⊢
      rw [Option.bind_some, ← isColor, ← isIndex]
      cases number : parseNumber name with
      | none => simp [shifts, ih]
      | some i =>
        cases color with
        | none => simp [shifts, ih]
        | some c => simp [shifts]

variable {code : Bytes}

theorem Performer.oscColorIndex_isSome_iff {pairs : List Bytes} :
    (self.oscColorIndex handler (code :: pairs)).isSome ↔ ¬ (pairs.length % 2 = 0 ∧ PairsOverrun pairs) := by
  unfold Performer.oscColorIndex
  by_cases odd : 1 < (code :: pairs).length ∧ (code :: pairs).length % 2 ≠ 0
  · have even : pairs.length % 2 = 0 := by
      rw [length_cons] at odd
      omega
    rw [if_pos odd, sliceFrom_eq (Nat.succ_pos _)]
    have each : (self.setIndexedColor handler (chunksOfTwo pairs)).isSome ↔ ¬ PairsOverrun pairs :=
      Performer.setIndexedColor_isSome_iff even
    simpa [even] using each
  · rw [if_neg odd]
    have nothing : ¬ (pairs.length % 2 = 0 ∧ PairsOverrun pairs) := by
      rintro ⟨even, overruns⟩
      cases pairs with
      | nil => exact overruns
      | cons name pairs =>
        rw [length_cons, length_cons] at *
        omega
    simp [nothing]

def dynamicColors (code : Bytes) : ℕ := if code = ascii "10" then 3 else if code = ascii "11" then 2 else 1

theorem Performer.setDynamicColors_isSome_iff {terminator : Str} {code : ℕ} {specs : List Bytes} (low : 10 ≤ code)
    (high : code ≤ 13) :
    (self.setDynamicColors handler terminator code specs).isSome ↔ ¬ ∃ spec ∈ specs.take (13 - code), ShiftsOut spec := by
  induction specs generalizing self code with
  | nil => simp [Performer.setDynamicColors]
  | cons spec specs ih =>
    unfold Performer.setDynamicColors
    rw [sub_eq low]
    dsimp only [bind, Option.bind]
    by_cases last : code = 13
    · subst last
      simp [ColorIndex.cursor, ColorIndex.foreground]
    have within : ¬ ColorIndex.cursor < ColorIndex.foreground + (code - 10) := by
      unfold ColorIndex.cursor ColorIndex.foreground
      omega
    have more : 13 - code = 13 - (code + 1) + 1 := by omega
    rw [if_neg within, add_eq (by omega), more, take_succ_cons]
    by_cases shifts : ShiftsOut spec
    · have panics := mt xparseColor_isSome_iff.mp (not_not.mpr shifts)
      rw [Option.not_isSome_iff_eq_none.mp panics]
      simp [shifts]
    · obtain ⟨color, parsed⟩ := Option.isSome_iff_exists.mp (xparseColor_isSome_iff.mpr shifts)
      rw [parsed]
      dsimp only
      rw [ih (by omega) (by omega)]
      simp [shifts]

theorem spelled_eq {α : Type} {table : List (String × α)} {fallback meaning : α} {value : Bytes} (other : fallback ≠ meaning)
    (isSpelled : spelled table fallback value = meaning) : ∃ spelling, (spelling, meaning) ∈ table ∧ value = ascii spelling := by
  unfold spelled at isSpelled
  generalize rows : table.map _ = spellings at isSpelled
  cases found : spellings.lookup value with
  | none =>
    rw [found] at isSpelled
    exact absurd isSpelled other
  | some result =>
    rw [found] at isSpelled
    subst isSpelled
    obtain ⟨before, after, same, -⟩ := List.lookup_eq_some_iff.mp found
    have member : (value, result) ∈ spellings := by
      rw [same]
      simp
    rw [← rows] at member
    obtain ⟨⟨spelling, meaning⟩, inTable, pair⟩ := List.mem_map.mp member
    cases pair
    exact ⟨spelling, inTable, rfl⟩

theorem parseNumber_dynamicColor (isDynamic : OscCode.ofBytes code = .dynamicColor) :
    parseNumber code = some (13 - dynamicColors code) := by
  have names : code = ascii "10" ∨ code = ascii "11" ∨ code = ascii "12" := by
    obtain ⟨spelling, member, rfl⟩ := spelled_eq (by decide) isDynamic
    simp only [mem_cons, Prod.mk.injEq, reduceCtorEq, and_false, and_true, false_or, or_false, not_mem_nil]
      at member
    rcases member with rfl | rfl | rfl <;> simp
  rcases names with rfl | rfl | rfl <;> decide +kernel

theorem Performer.oscDynamicColor_isSome_iff {terminator : Str} {specs : List Bytes}
    (isDynamic : OscCode.ofBytes code = .dynamicColor) :
    (self.oscDynamicColor handler terminator (code :: specs)).isSome ↔
      ¬ ∃ spec ∈ specs.take (dynamicColors code), ShiftsOut spec := by
  have count : 1 ≤ dynamicColors code ∧ dynamicColors code ≤ 3 := by
    unfold dynamicColors
    split <;> [omega; split <;> omega]
  unfold Performer.oscDynamicColor
  by_cases long : 2 ≤ (code :: specs).length
  · rw [if_pos long, index_eq (Nat.succ_pos _), getElem_cons_zero]
    dsimp only [bind, Option.bind]
    rw [parseNumber_dynamicColor isDynamic, sliceFrom_eq (Nat.succ_pos _)]
    dsimp only
    rw [drop_succ_cons, drop_zero, Performer.setDynamicColors_isSome_iff (by omega) (by omega),
      Nat.sub_sub_self (by omega)]
  · rw [if_neg long]
    have none : specs = [] := List.length_eq_zero_iff.mp (by rw [length_cons] at long; omega)
    simp [none]

end Colors

section Runs

variable {self : Performer σ}

/-- An inline image without an argument, or a color whose components are shifted out of the word. -/
def OscOverruns : List Bytes → Prop
  | [] => False
  | code :: arguments =>
    match OscCode.ofBytes code with
    | .inlineImage => arguments = []
    | .colorIndex => arguments.length % 2 = 0 ∧ PairsOverrun arguments
    | .dynamicColor => ∃ spec ∈ arguments.take (dynamicColors code), ShiftsOut spec
    | _ => False

def Event.Overruns : Event → Prop
  | .oscDispatch params _ => OscOverruns params
  | _ => False

theorem Performer.oscDispatch_isSome_iff {params : List Bytes} {bellTerminated : Bool} :
    (self.oscDispatch env handler params bellTerminated).isSome ↔ ¬ OscOverruns params := by
  unfold Performer.oscDispatch
  dsimp only
  cases params with
  | nil => simp [OscOverruns]
  | cons code arguments =>
    have nonempty := cons_ne_nil code arguments
    rw [if_neg nonempty, index_eq (Nat.succ_pos _), getElem_cons_zero, OscOverruns]
    dsimp only [bind, Option.bind]
    by_cases blank : code = []
    · subst blank
      rw [if_pos rfl]
      simp [show OscCode.ofBytes [] = .unknown from rfl]
    rw [if_neg blank]
    cases kind : OscCode.ofBytes code with
    | title => simp [Performer.oscTitle_isSome]
    | colorIndex => exact Performer.oscColorIndex_isSome_iff
    | notification => simp [Performer.oscNotification_isSome]
    | dynamicColor => exact Performer.oscDynamicColor_isSome_iff kind
    | cursorStyle => simp [Performer.oscCursorStyle_isSome]
    | clipboard => simp [Performer.oscClipboard_isSome]
    | resetColorIndex => simp [Performer.oscResetColorIndex_isSome nonempty]
    | resetForeground => simp
    | resetBackground => simp
    | resetCursor => simp
    | promptMarker => simp [Performer.oscPromptMarker_isSome nonempty]
    | titledNotification => simp [Performer.oscTitledNotification_isSome]
    | inlineImage =>
      dsimp only
      rw [Performer.oscInlineImage_isSome_iff, length_cons, Nat.lt_add_left_iff_pos, length_pos_iff]
    | inBandGenerator => simp
    | warp => simp [Performer.oscWarp_isSome]
    | resetGrid => simp
    | completions => simp [Performer.oscCompletions_isSome]
    | unexpected => simp
    | unknown => simp

variable {params : List Param}

theorem paramOr_pos {position : ℕ} : 1 ≤ (paramOr params position 1).toNat := by
  unfold paramOr
  cases found : (params[position]?.map Param.first).filter (· ≠ 0) with
  | none => decide
  | some value =>
    have nonzero : value ≠ 0 := by simpa using (Option.filter_eq_some_iff.mp found).2
    exact Nat.pos_of_ne_zero fun zero => nonzero (UInt16.toNat_inj.mp zero)

theorem Performer.csiDispatch_isSome {intermediates : Bytes} {hasIgnored : Bool} {action : Char} :
    (self.csiDispatch env handler params intermediates hasIgnored action).isSome := by
  apply ite_isSome (fun _ => rfl)
  intro _
  dsimp only
  rw [sub_eq paramOr_pos, sub_eq paramOr_pos]
  cases Csi.ofAction env.windows action intermediates.head? with
  | repeatPreceding => cases self.precedingChar <;> rfl
  | identifyTerminal => exact ite_isSome (fun _ => rfl) fun _ => rfl
  | attributes =>
    apply ite_isSome (fun _ => rfl)
    intro _
    rw [Option.isSome_map]
    exact attrsFromSgrParameters_isSome params
  | setKeyboardFlags => cases KeyboardModesApplyBehavior.fromKittyApplyMode (paramOr params 1 1) <;> rfl
  | _ => rfl

theorem Performer.perform_isSome_iff {event : Event} : (self.perform env handler event).isSome ↔ ¬ event.Overruns := by
  cases event with
  | oscDispatch params bellTerminated => exact Performer.oscDispatch_isSome_iff
  | csiDispatch params intermediates hasIgnored action =>
    simp [Performer.perform, Performer.csiDispatch_isSome, Event.Overruns]
  | apcEnd => simp [Performer.perform, Performer.apcEnd_isSome, Event.Overruns]
  | _ => simp [Performer.perform, Event.Overruns]

/-- From any state and for any handler, the events go through unless one overruns. -/
theorem Performer.run_isSome_iff (env : Env δ) (handler : Handler δ σ) (self : Performer σ) (events : List Event) :
    (self.run env handler events).isSome ↔ ∀ event ∈ events, ¬ event.Overruns := by
  unfold Performer.run
  induction events generalizing self with
  | nil => simp
  | cons event events ih =>
    have step : (self.perform env handler event).isSome ↔ ¬ event.Overruns := Performer.perform_isSome_iff
    rw [foldlM_cons, forall_mem_cons, ← step]
    cases performed : self.perform env handler event with
    | none => simp
    | some next => simpa using ih next

/-- An inline image without an argument panics. -/
theorem Performer.run_inline_image : ¬ ∀ (env : Env Unit) (handler : Handler Unit Unit) (events : List Event),
    ((Performer.new ()).run env handler events).isSome := by
  intro total
  have panics := total ⟨false, false, false, ⟨fun _ => none, fun _ => none⟩, fun _ => 0, fun _ => none, fun _ => none⟩
    ⟨fun _ _ => (), fun _ => (none, ())⟩ [.oscDispatch [ascii "1337"] false]
  revert panics
  decide +kernel

end Runs

end Warp.Ansi
