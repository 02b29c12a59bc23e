import Warp.Completer.Registry

namespace Warp.Completer

open List Option

/-! How the two walks over the tokens of a line relate, and how the walk behind a wrapper relates to that without it. -/

section Tokens

variable {signature : Signature} {token : Str} {rest : List Str} {numTokens tokenIdx : ℕ} {hasPostWhitespace : Bool}

theorem isLastToken_eq (fits : tokenIdx + rest.length + 1 = numTokens) :
    decide (numTokens - 1 = tokenIdx) = rest.isEmpty := by
  subst fits
  cases rest with
  | nil => simp
  | cons _ rest => simp

def typed (rest : List Str) (hasPostWhitespace : Bool) : Bool := !rest.isEmpty || hasPostWhitespace

theorem classifyToken_eq (fits : tokenIdx + rest.length + 1 = numTokens) :
    classifyToken signature token numTokens tokenIdx hasPostWhitespace =
      classifyToken signature token 1 0 (typed rest hasPostWhitespace) := by
  have same : ∀ name, shouldCompleteOnSubcmd name token numTokens tokenIdx hasPostWhitespace =
      shouldCompleteOnSubcmd name token 1 0 (typed rest hasPostWhitespace) := by
    intro name
    simp only [shouldCompleteOnSubcmd, isLastToken_eq fits, typed]
    cases rest <;> simp
  unfold classifyToken
  simp only [same]

theorem shouldCompleteOnSubcmd_untyped (name : Str) : shouldCompleteOnSubcmd name token 1 0 false = false := by
  simp [shouldCompleteOnSubcmd]

end Tokens

namespace CommandRegistry

variable {Data : Type} (platform : Platform) (registry : CommandRegistry Data)

section Walk

variable {signature : Signature} {token : Str} {rest : List Str} {numTokens tokenIdx : ℕ} {hasPostWhitespace : Bool}

theorem maybeLoadReplacementSignature_eq (fits : tokenIdx + rest.length + 1 = numTokens) :
    registry.maybeLoadReplacementSignature platform signature numTokens tokenIdx token hasPostWhitespace =
      if signature.hasCommandArgument && typed rest hasPostWhitespace then
        (registry.getSignature platform token).map fun replacement =>
          (replacement, registry.getData platform replacement.name)
      else none := by
  simp only [maybeLoadReplacementSignature, isLastToken_eq fits, typed]
  cases signature.hasCommandArgument
  · simp
  · cases rest <;> cases hasPostWhitespace <;> cases registry.getSignature platform token <;> simp

theorem walkToken_untyped (found : SignatureAtTokenIndex Data) :
    (registry.walkToken platform signature (tokenIdx + 1) tokenIdx token false found).1 = found := by
  have fits : tokenIdx + ([] : List Str).length + 1 = tokenIdx + 1 := rfl
  have unresolved : ∀ sub, classifyToken found.signature token 1 0 false ≠ .resolvedSubcommand sub := by
    intro sub
    simp only [classifyToken, shouldCompleteOnSubcmd_untyped]
    rw [List.find?_eq_none.mpr (by simp)]
    dsimp only
    split
    · split <;> nofun
    · split <;> nofun
  unfold walkToken
  rw [maybeLoadReplacementSignature_eq platform registry fits, classifyToken_eq fits]
  simp only [typed, isEmpty_nil, Bool.not_true, Bool.or_false, Bool.and_false, Bool.false_eq_true, if_false]
  cases action : classifyToken found.signature token 1 0 false with
  | resolvedSubcommand sub => exact absurd action (unresolved sub)
  | variadicOption => rfl
  | skippedOption advance => rfl
  | skippedUnrecognizedFlag => rfl
  | stopAtCurrentToken => rfl

end Walk

/-! Without alias generators. -/

def WithoutAliasGenerators : Prop := ∀ command signature, registry.getSignature platform command = some signature →
  signature.AliasFree

section AliasFree

variable {platform registry} {aliasOf : Signature → Option Data → Option Alias} {context : Option GeneratorContext}
variable {signature : Signature} {hasPostWhitespace : Bool} {found : SignatureAtTokenIndex Data}

theorem walkToken_aliasFree (signature : Signature) (numTokens tokenIdx : ℕ) (token : Str) (hasPostWhitespace : Bool)
    (without : registry.WithoutAliasGenerators platform) (free : found.signature.AliasFree) :
    (registry.walkToken platform signature numTokens tokenIdx token hasPostWhitespace found).1.signature.AliasFree := by
  unfold walkToken
  cases loaded : registry.maybeLoadReplacementSignature platform signature numTokens tokenIdx token hasPostWhitespace with
  | some replacement =>
    unfold maybeLoadReplacementSignature at loaded
    split at loaded
    · obtain ⟨replaced, known, loaded⟩ := Option.bind_eq_some_iff.mp loaded
      have same : (replaced, registry.getData platform replaced.name) = replacement := by
        revert loaded
        dsimp only
        split
        · split <;> simp
        · simp
      subst same
      exact without token replaced known
    · cases loaded
  | none =>
    dsimp only
    cases action : classifyToken found.signature token numTokens tokenIdx hasPostWhitespace with
    | resolvedSubcommand sub =>
      refine free.subcommand ?_
      unfold classifyToken at action
      split at action
      · rename_i subcommand isSub
        cases action
        exact mem_of_find?_eq_some isSub
      · revert action
        split
        · split <;> nofun
        · split <;> nofun
    | variadicOption => exact free
    | skippedOption advance => exact free
    | skippedUnrecognizedFlag => exact free
    | stopAtCurrentToken => exact free

theorem walkWithAliases_eq (without : registry.WithoutAliasGenerators platform)
    (plain : ∀ signature data, signature.aliasGenerator = none → aliasOf signature data = none)
    (all tokens : List Str) (tokenIdx advance : ℕ) (found : SignatureAtTokenIndex Data)
    (fits : tokenIdx + tokens.length = all.length) (free : found.signature.AliasFree) :
    registry.walkWithAliases platform aliasOf context signature all hasPostWhitespace tokens tokenIdx advance found =
      .success (registry.walkTokens platform signature all.length hasPostWhitespace tokens tokenIdx advance found) := by
  induction tokens generalizing tokenIdx advance found with
  | nil => rw [walkWithAliases, walkTokens]
  | cons token tokens ih =>
    rw [length_cons] at fits
    cases advance with
    | succ advance =>
      rw [walkWithAliases, walkTokens]
      exact ih _ _ _ (by omega) free
    | zero =>
      rw [walkWithAliases, walkTokens]
      have unaliased : expandAlias aliasOf context all tokenIdx found = none := by
        rw [expandAlias, plain _ _ free.plain, bind_none]
      have stays := walkToken_aliasFree signature all.length tokenIdx token hasPostWhitespace without free
      split
      · rename_i last
        obtain ⟨isLast, rfl⟩ := last
        have nothing : tokens = [] := List.length_eq_zero_iff.mp (by omega)
        have count : all.length = tokenIdx + 1 := by omega
        subst nothing
        have same : (registry.walkToken platform signature (tokenIdx + 1) tokenIdx token false found).1 = found :=
          walkToken_untyped platform registry found
        rw [← count] at same
        cases walked : registry.walkToken platform signature all.length tokenIdx token false found with
        | mk next advance =>
          rw [walked] at same
          cases same
          cases advance <;> simp [walkTokens]
      · rw [unaliased]
        cases walked : registry.walkToken platform signature all.length tokenIdx token hasPostWhitespace found with
        | mk next advance =>
          rw [walked] at stays
          cases advance with
          | none => rfl
          | some advance => exact ih _ _ _ (by omega) stays

end AliasFree

/-! The completion data that the two walks start with. -/

/-- Whether the walk loads the signature of a wrapped command at some token. -/
def loadsReplacement (signature : Signature) (numTokens : ℕ) (hasPostWhitespace : Bool) :
    List Str → ℕ → ℕ → Signature → Bool
  | [], _, _, _ => false
  | _ :: tokens, tokenIdx, advance + 1, curr =>
    loadsReplacement signature numTokens hasPostWhitespace tokens (tokenIdx + 1) advance curr
  | token :: tokens, tokenIdx, 0, curr =>
    (registry.maybeLoadReplacementSignature platform signature numTokens tokenIdx token hasPostWhitespace).isSome ||
      match classifyToken curr token numTokens tokenIdx hasPostWhitespace with
      | .resolvedSubcommand sub => loadsReplacement signature numTokens hasPostWhitespace tokens (tokenIdx + 1) 0 sub
      | .skippedOption advance =>
        loadsReplacement signature numTokens hasPostWhitespace tokens (tokenIdx + 1) advance curr
      | .skippedUnrecognizedFlag =>
        loadsReplacement signature numTokens hasPostWhitespace tokens (tokenIdx + 1) 0 curr
      | .variadicOption | .stopAtCurrentToken => false

section Start

variable (signature : Signature) (numTokens : ℕ) (hasPostWhitespace : Bool)

theorem walkTokens_data (tokens : List Str) (tokenIdx advance : ℕ) (found : SignatureAtTokenIndex Data)
    (data : Option Data) :
    registry.walkTokens platform signature numTokens hasPostWhitespace tokens tokenIdx advance
        { found with dynamicCompletionData := data } =
      let walked := registry.walkTokens platform signature numTokens hasPostWhitespace tokens tokenIdx advance found
      if registry.loadsReplacement platform signature numTokens hasPostWhitespace tokens tokenIdx advance found.signature
      then walked else { walked with dynamicCompletionData := data } := by
  induction tokens generalizing tokenIdx advance found with
  | nil => simp [walkTokens, loadsReplacement]
  | cons token tokens ih =>
    cases advance with
    | succ advance =>
      simp only [walkTokens, loadsReplacement]
      exact ih _ _ _
    | zero =>
      rw [walkTokens, walkTokens, loadsReplacement]
      unfold walkToken
      cases registry.maybeLoadReplacementSignature platform signature numTokens tokenIdx token hasPostWhitespace with
      | some replacement => simp
      | none =>
        dsimp only
        cases classifyToken found.signature token numTokens tokenIdx hasPostWhitespace with
        | resolvedSubcommand sub => simpa using ih (tokenIdx + 1) 0 { found with signature := sub, tokenIndex := tokenIdx }
        | variadicOption => simp
        | skippedOption advance => simpa using ih (tokenIdx + 1) advance found
        | skippedUnrecognizedFlag => simpa using ih (tokenIdx + 1) 0 found
        | stopAtCurrentToken => simp

theorem walkTokens_data_eq_iff (tokens : List Str) (tokenIdx advance : ℕ) (found : SignatureAtTokenIndex Data)
    (data : Option Data) :
    registry.walkTokens platform signature numTokens hasPostWhitespace tokens tokenIdx advance
        { found with dynamicCompletionData := data } =
      registry.walkTokens platform signature numTokens hasPostWhitespace tokens tokenIdx advance found ↔
    registry.loadsReplacement platform signature numTokens hasPostWhitespace tokens tokenIdx advance found.signature =
      true ∨ data = found.dynamicCompletionData := by
  have changed := walkTokens_data platform registry signature numTokens hasPostWhitespace tokens tokenIdx advance found
  dsimp only at changed
  cases loads : registry.loadsReplacement platform signature numTokens hasPostWhitespace tokens tokenIdx advance
    found.signature with
  | true =>
    rw [changed data]
    simp [loads]
  | false =>
    simp only [loads, Bool.false_eq_true, if_false] at changed
    have kept := changed found.dynamicCompletionData
    rw [changed data]
    simp only [Bool.false_eq_true, false_or]
    constructor
    · intro same
      have both := congrArg SignatureAtTokenIndex.dynamicCompletionData (same.trans kept)
      exact both
    · rintro rfl
      exact kept.symm

end Start

/-- Where both resolvers look a line up alike: its command is spelled as it may be, and has the same data with and
without the suffix, if they are not replaced anyway. -/
def LooksUpAlike (tokens : List Str) (hasPostWhitespace : Bool)
    (commandCaseSensitivity : TopLevelCommandCaseSensitivity) : Prop :=
  ∀ command rest signature, tokens = command :: rest → registry.getSignature platform command = some signature →
    spelled commandCaseSensitivity signature command = true ∧
      (registry.loadsReplacement platform signature tokens.length hasPostWhitespace rest 1 0 signature = true ∨
        registry.getData platform (platform.commandName command) = registry.getData platform command)

theorem signatureWithAliasExpansion_agrees {aliasOf : Signature → Option Data → Option Alias}
    {context : Option GeneratorContext} (without : registry.WithoutAliasGenerators platform)
    (plain : ∀ signature data, signature.aliasGenerator = none → aliasOf signature data = none)
    (tokens : List Str) (hasPostWhitespace : Bool) (commandCaseSensitivity : TopLevelCommandCaseSensitivity) :
    let expanded := registry.signatureWithAliasExpansion platform aliasOf context tokens hasPostWhitespace
    let resolved := registry.signatureFromTokens platform tokens hasPostWhitespace commandCaseSensitivity
    ((∀ found, expanded = .success found ↔ resolved = some found) ∧ (expanded = .none ↔ resolved = none)) ↔
      registry.LooksUpAlike platform tokens hasPostWhitespace commandCaseSensitivity := by
  dsimp only
  cases tokens with
  | nil => simp [signatureWithAliasExpansion, signatureFromTokens, LooksUpAlike]
  | cons command rest =>
    have sameSignature : registry.getSignature platform (platform.commandName command) =
        registry.getSignature platform command := registry.signatures.get_commandName platform command
    unfold signatureWithAliasExpansion signatureFromTokens LooksUpAlike
    dsimp only
    rw [sameSignature]
    cases known : registry.getSignature platform command with
    | none =>
      constructor
      · rintro - _ _ found ⟨⟩ isKnown
        rw [known] at isKnown
        cases isKnown
      · intro
        simp
    | some signature =>
      simp only [bind_some]
      rw [walkWithAliases_eq without plain _ _ _ _ _ (by rw [length_cons]; omega) (without _ _ known)]
      have alike := walkTokens_data_eq_iff platform registry signature (command :: rest).length hasPostWhitespace rest 1 0
        ⟨signature, registry.getData platform command, 0⟩ (registry.getData platform (platform.commandName command))
      cases isSpelled : spelled commandCaseSensitivity signature command with
      | false => simp [known, isSpelled]
      | true =>
        simp only [if_true, reduceCtorEq, SignatureResult.success.injEq, Option.some.injEq, and_true]
        constructor
        · rintro same _ _ found ⟨⟩ isKnown
          rw [known] at isKnown
          cases isKnown
          exact ⟨isSpelled, alike.mp ((same _).mpr rfl)⟩
        · intro looked found
          have same := alike.mpr (looked _ _ signature rfl known).2
          dsimp only at same
          rw [same]

/-! Behind a wrapper. -/

section Wrapper

variable (hasPostWhitespace : Bool)

/-- The walk without the data it collects, where `wraps` says whether the first command is a wrapper. -/
def locate (wraps : Bool) : List Str → ℕ → ℕ → Signature × ℕ → Signature × ℕ
  | [], _, _, place => place
  | _ :: tokens, tokenIdx, advance + 1, place => locate wraps tokens (tokenIdx + 1) advance place
  | token :: tokens, tokenIdx, 0, place =>
    let isTyped := typed tokens hasPostWhitespace
    match if wraps && isTyped then registry.getSignature platform token else none with
    | some replacement => locate wraps tokens (tokenIdx + 1) 0 (replacement, tokenIdx)
    | none =>
      match classifyToken place.1 token 1 0 isTyped with
      | .resolvedSubcommand sub => locate wraps tokens (tokenIdx + 1) 0 (sub, tokenIdx)
      | .skippedOption advance => locate wraps tokens (tokenIdx + 1) advance place
      | .skippedUnrecognizedFlag => locate wraps tokens (tokenIdx + 1) 0 place
      | .variadicOption | .stopAtCurrentToken => place

variable {platform registry hasPostWhitespace}

theorem walkTokens_place (signature : Signature) {numTokens : ℕ} (tokens : List Str) (tokenIdx advance : ℕ)
    (found : SignatureAtTokenIndex Data) (fits : tokenIdx + tokens.length = numTokens) :
    let walked := registry.walkTokens platform signature numTokens hasPostWhitespace tokens tokenIdx advance found
    (walked.signature, walked.tokenIndex) =
      registry.locate platform hasPostWhitespace signature.hasCommandArgument tokens tokenIdx advance
        (found.signature, found.tokenIndex) := by
  induction tokens generalizing tokenIdx advance found with
  | nil => simp [walkTokens, locate]
  | cons token tokens ih =>
    rw [length_cons] at fits
    cases advance with
    | succ advance =>
      rw [walkTokens, locate]
      exact ih _ _ _ (by omega)
    | zero =>
      have here : tokenIdx + tokens.length + 1 = numTokens := by omega
      rw [walkTokens, locate, walkToken, maybeLoadReplacementSignature_eq platform registry here, classifyToken_eq here]
      dsimp only
      cases signature.hasCommandArgument && typed tokens hasPostWhitespace with
      | true =>
        cases registry.getSignature platform token with
        | some replacement => simpa using ih (tokenIdx + 1) 0 ⟨replacement, _, tokenIdx⟩ (by omega)
        | none =>
          simp only [if_true, map_none]
          cases classifyToken found.signature token 1 0 (typed tokens hasPostWhitespace) with
          | resolvedSubcommand sub =>
            exact ih (tokenIdx + 1) 0 { found with signature := sub, tokenIndex := tokenIdx } (by omega)
          | variadicOption => rfl
          | skippedOption advance => exact ih (tokenIdx + 1) advance found (by omega)
          | skippedUnrecognizedFlag => exact ih (tokenIdx + 1) 0 found (by omega)
          | stopAtCurrentToken => rfl
      | false =>
        simp only [Bool.false_eq_true, if_false]
        cases classifyToken found.signature token 1 0 (typed tokens hasPostWhitespace) with
        | resolvedSubcommand sub =>
          exact ih (tokenIdx + 1) 0 { found with signature := sub, tokenIndex := tokenIdx } (by omega)
        | variadicOption => rfl
        | skippedOption advance => exact ih (tokenIdx + 1) advance found (by omega)
        | skippedUnrecognizedFlag => exact ih (tokenIdx + 1) 0 found (by omega)
        | stopAtCurrentToken => rfl

theorem locate_succ (wraps : Bool) (tokens : List Str) (tokenIdx advance start : ℕ) (curr : Signature) :
    registry.locate platform hasPostWhitespace wraps tokens (tokenIdx + 1) advance (curr, start + 1) =
      ((registry.locate platform hasPostWhitespace wraps tokens tokenIdx advance (curr, start)).1,
        (registry.locate platform hasPostWhitespace wraps tokens tokenIdx advance (curr, start)).2 + 1) := by
  induction tokens generalizing tokenIdx advance start curr with
  | nil => rfl
  | cons token tokens ih =>
    cases advance with
    | succ advance => exact ih _ _ _ _
    | zero =>
      rw [locate, locate]
      dsimp only
      cases if wraps && typed tokens hasPostWhitespace then registry.getSignature platform token else none with
      | some replacement => exact ih _ _ _ _
      | none =>
        dsimp only
        cases classifyToken curr token 1 0 (typed tokens hasPostWhitespace) with
        | resolvedSubcommand sub => exact ih _ _ _ _
        | variadicOption => rfl
        | skippedOption advance => exact ih _ _ _ _
        | skippedUnrecognizedFlag => exact ih _ _ _ _
        | stopAtCurrentToken => rfl

variable (platform registry hasPostWhitespace) in
/-- No later token of a command that the walk looks at is registered, unless it is a subcommand with the signature that
is registered under its name. -/
def Undisturbed : List Str → ℕ → Signature → Prop
  | [], _, _ => True
  | _ :: tokens, advance + 1, curr => Undisturbed tokens advance curr
  | token :: tokens, 0, curr =>
    let isTyped := typed tokens hasPostWhitespace
    match if isTyped then registry.getSignature platform token else none with
    | some replacement =>
      classifyToken curr token 1 0 isTyped = .resolvedSubcommand replacement ∧ Undisturbed tokens 0 replacement
    | none =>
      match classifyToken curr token 1 0 isTyped with
      | .resolvedSubcommand sub => Undisturbed tokens 0 sub
      | .skippedOption advance => Undisturbed tokens advance curr
      | .skippedUnrecognizedFlag => Undisturbed tokens 0 curr
      | .variadicOption | .stopAtCurrentToken => True

theorem Undisturbed.locate_eq {tokens : List Str} {advance : ℕ} {curr : Signature}
    (undisturbed : registry.Undisturbed platform hasPostWhitespace tokens advance curr) (tokenIdx start : ℕ) :
    registry.locate platform hasPostWhitespace true tokens tokenIdx advance (curr, start) =
      registry.locate platform hasPostWhitespace false tokens tokenIdx advance (curr, start) := by
  induction tokens generalizing tokenIdx advance start curr with
  | nil => rfl
  | cons token tokens ih =>
    cases advance with
    | succ advance => exact ih undisturbed _ _
    | zero =>
      rw [Undisturbed] at undisturbed
      rw [locate, locate]
      dsimp only at undisturbed ⊢
      simp only [Bool.true_and, Bool.false_and, Bool.false_eq_true, if_false]
      cases known : if typed tokens hasPostWhitespace then registry.getSignature platform token else none with
      | some replacement =>
        rw [known] at undisturbed
        obtain ⟨action, undisturbed⟩ := undisturbed
        rw [action]
        exact ih undisturbed _ _
      | none =>
        rw [known] at undisturbed
        dsimp only at undisturbed ⊢
        cases action : classifyToken curr token 1 0 (typed tokens hasPostWhitespace) with
        | resolvedSubcommand sub =>
          rw [action] at undisturbed
          exact ih undisturbed _ _
        | variadicOption => rfl
        | skippedOption advance =>
          rw [action] at undisturbed
          exact ih undisturbed _ _
        | skippedUnrecognizedFlag =>
          rw [action] at undisturbed
          exact ih undisturbed _ _
        | stopAtCurrentToken => rfl

variable {rest : List Str} {commandCaseSensitivity : TopLevelCommandCaseSensitivity}

theorem typed_take {count : ℕ} (bound : count ≤ rest.length) :
    typed (rest.take count) (decide (count < rest.length) || hasPostWhitespace) = typed rest hasPostWhitespace := by
  cases rest with
  | nil => simp [typed]
  | cons first rest => cases count <;> simp [typed]

theorem Undisturbed.take {tokens : List Str} {advance : ℕ} {curr : Signature}
    (undisturbed : registry.Undisturbed platform hasPostWhitespace tokens advance curr) (count : ℕ)
    (bound : count ≤ tokens.length) :
    registry.Undisturbed platform (decide (count < tokens.length) || hasPostWhitespace) (tokens.take count) advance
      curr := by
  induction tokens generalizing advance curr count with
  | nil => simpa using undisturbed
  | cons token tokens ih =>
    cases count with
    | zero => exact trivial
    | succ count =>
      have within : count ≤ tokens.length := Nat.le_of_succ_le_succ bound
      simp only [length_cons, Nat.add_lt_add_iff_right, take_succ_cons]
      cases advance with
      | succ advance => exact ih undisturbed count within
      | zero =>
        rw [Undisturbed] at undisturbed ⊢
        rw [typed_take within]
        revert undisturbed
        cases if typed tokens hasPostWhitespace then registry.getSignature platform token else none with
        | some replacement => exact fun undisturbed => ⟨undisturbed.1, ih undisturbed.2 count within⟩
        | none =>
          dsimp only
          cases classifyToken curr token 1 0 (typed tokens hasPostWhitespace) with
          | resolvedSubcommand sub => exact fun undisturbed => ih undisturbed count within
          | variadicOption => exact id
          | skippedOption advance => exact fun undisturbed => ih undisturbed count within
          | skippedUnrecognizedFlag => exact fun undisturbed => ih undisturbed count within
          | stopAtCurrentToken => exact id

/-- If the first command being wrapped or not never matters while a line is typed, then no token disturbs. -/
theorem undisturbed_of_locate_eq {tokens : List Str} {advance tokenIdx start : ℕ} {curr : Signature}
    (later : start < tokenIdx)
    (same : ∀ count ≤ tokens.length,
      registry.locate platform (decide (count < tokens.length) || hasPostWhitespace) true (tokens.take count) tokenIdx
          advance (curr, start) =
        registry.locate platform (decide (count < tokens.length) || hasPostWhitespace) false (tokens.take count) tokenIdx
          advance (curr, start)) :
    registry.Undisturbed platform hasPostWhitespace tokens advance curr := by
  induction tokens generalizing tokenIdx advance start curr with
  | nil => trivial
  | cons token tokens ih =>
    have step : ∀ count ≤ tokens.length,
        registry.locate platform (decide (count < tokens.length) || hasPostWhitespace) true
            (token :: tokens.take count) tokenIdx advance (curr, start) =
          registry.locate platform (decide (count < tokens.length) || hasPostWhitespace) false
            (token :: tokens.take count) tokenIdx advance (curr, start) := by
      intro count bound
      have here := same (count + 1) (Nat.succ_le_succ bound)
      simpa only [length_cons, Nat.add_lt_add_iff_right, take_succ_cons] using here
    cases advance with
    | succ advance => exact ih (Nat.lt_succ_of_lt later) step
    | zero =>
      rw [Undisturbed]
      simp only [locate, Bool.true_and, Bool.false_and, Bool.false_eq_true, if_false] at step
      have typedHere : ∀ count ≤ tokens.length, typed (tokens.take count)
          (decide (count < tokens.length) || hasPostWhitespace) = typed tokens hasPostWhitespace :=
        fun _ bound => typed_take bound
      cases known : if typed tokens hasPostWhitespace then registry.getSignature platform token else none with
      | some replacement =>
        have resolved : classifyToken curr token 1 0 (typed tokens hasPostWhitespace) =
            .resolvedSubcommand replacement := by
          have here := step 0 (Nat.zero_le _)
          rw [typedHere 0 (Nat.zero_le _), known] at here
          simp only [take_zero, locate] at here
          have moved : (replacement, tokenIdx) ≠ (curr, start) := fun equal =>
            (Nat.ne_of_lt later).symm (congrArg Prod.snd equal)
          cases action : classifyToken curr token 1 0 (typed tokens hasPostWhitespace) with
          | resolvedSubcommand sub =>
            rw [action] at here
            have same : replacement = sub := congrArg Prod.fst here
            rw [same]
          | variadicOption =>
            rw [action] at here
            exact absurd here moved
          | skippedOption advance =>
            rw [action] at here
            exact absurd here moved
          | skippedUnrecognizedFlag =>
            rw [action] at here
            exact absurd here moved
          | stopAtCurrentToken =>
            rw [action] at here
            exact absurd here moved
        refine ⟨resolved, ih (Nat.lt_succ_self tokenIdx) fun count bound => ?_⟩
        have here := step count bound
        rw [typedHere count bound, known, resolved] at here
        exact here
      | none =>
        dsimp only
        cases action : classifyToken curr token 1 0 (typed tokens hasPostWhitespace) with
        | resolvedSubcommand sub =>
          refine ih (Nat.lt_succ_self tokenIdx) fun count bound => ?_
          have here := step count bound
          rw [typedHere count bound, known, action] at here
          exact here
        | variadicOption => trivial
        | skippedOption advance =>
          refine ih (Nat.lt_succ_of_lt later) fun count bound => ?_
          have here := step count bound
          rw [typedHere count bound, known, action] at here
          exact here
        | skippedUnrecognizedFlag =>
          refine ih (Nat.lt_succ_of_lt later) fun count bound => ?_
          have here := step count bound
          rw [typedHere count bound, known, action] at here
          exact here
        | stopAtCurrentToken => trivial

variable (platform registry hasPostWhitespace) in
def resolvedPlace (tokens : List Str) (commandCaseSensitivity : TopLevelCommandCaseSensitivity) :
    Option (Signature × ℕ) :=
  (registry.signatureFromTokens platform tokens hasPostWhitespace commandCaseSensitivity).map fun found =>
    (found.signature, found.tokenIndex)

theorem resolvedPlace_cons {command : Str} {signature : Signature}
    (known : registry.getSignature platform command = some signature)
    (isSpelled : spelled commandCaseSensitivity signature command = true) :
    registry.resolvedPlace platform hasPostWhitespace (command :: rest) commandCaseSensitivity =
      some (registry.locate platform hasPostWhitespace signature.hasCommandArgument rest 1 0 (signature, 0)) := by
  have fits : 1 + rest.length = rest.length + 1 := Nat.add_comm 1 rest.length
  have place : _ = registry.locate platform hasPostWhitespace signature.hasCommandArgument rest 1 0 (signature, 0) :=
    walkTokens_place signature rest 1 0 ⟨signature, registry.getData platform command, 0⟩ fits
  simp only [resolvedPlace, signatureFromTokens, known, bind_some, isSpelled, if_true, map_some,
    length_cons]
  rw [← place]

variable (platform registry hasPostWhitespace) in
/-- A line's signature is also found, one token later, behind the wrapper. -/
def TransparentAt (wrapper : Str) (tokens : List Str) (commandCaseSensitivity : TopLevelCommandCaseSensitivity) : Prop :=
  ∀ signature index,
    registry.resolvedPlace platform hasPostWhitespace tokens commandCaseSensitivity = some (signature, index) →
      registry.resolvedPlace platform hasPostWhitespace (wrapper :: tokens) commandCaseSensitivity =
        some (signature, index + 1)

theorem transparentAt_iff {wrapper command : Str} {wrapping signature : Signature}
    (isWrapper : registry.getSignature platform wrapper = some wrapping)
    (wrapperSpelled : spelled commandCaseSensitivity wrapping wrapper = true)
    (wraps : wrapping.hasCommandArgument = true) (known : registry.getSignature platform command = some signature)
    (isSpelled : spelled commandCaseSensitivity signature command = true)
    (isTyped : typed rest hasPostWhitespace = true) :
    registry.TransparentAt platform hasPostWhitespace wrapper (command :: rest) commandCaseSensitivity ↔
      registry.locate platform hasPostWhitespace true rest 1 0 (signature, 0) =
        registry.locate platform hasPostWhitespace signature.hasCommandArgument rest 1 0 (signature, 0) := by
  have behind : registry.resolvedPlace platform hasPostWhitespace (wrapper :: command :: rest) commandCaseSensitivity =
      some (registry.locate platform hasPostWhitespace true rest 2 0 (signature, 1)) := by
    rw [resolvedPlace_cons isWrapper wrapperSpelled, wraps, locate]
    simp only [isTyped, Bool.and_true, if_true, known]
  unfold TransparentAt
  rw [resolvedPlace_cons known isSpelled, behind, locate_succ]
  constructor
  · intro transparent
    have here := Option.some.inj (transparent _ _ rfl)
    simp only [Prod.mk.injEq, Nat.add_right_cancel_iff] at here
    exact Prod.ext here.1 here.2
  · intro same _ _ found
    rw [same, Option.some.inj found]

/-- A wrapper is transparent all the time while a line is typed, one token after the other, if the command is a wrapper
itself, or no later token disturbs. -/
theorem wrapper_transparent {wrapper command : Str} {rest : List Str} {wrapping signature : Signature}
    {commandCaseSensitivity : TopLevelCommandCaseSensitivity}
    (isWrapper : registry.getSignature platform wrapper = some wrapping)
    (wrapperSpelled : spelled commandCaseSensitivity wrapping wrapper = true)
    (wraps : wrapping.hasCommandArgument = true)
    (known : registry.getSignature platform command = some signature)
    (isSpelled : spelled commandCaseSensitivity signature command = true)
    (isTyped : typed rest hasPostWhitespace = true) :
    (∀ count ≤ rest.length, registry.TransparentAt platform (decide (count < rest.length) || hasPostWhitespace) wrapper
        (command :: rest.take count) commandCaseSensitivity) ↔
      signature.hasCommandArgument = true ∨ registry.Undisturbed platform hasPostWhitespace rest 0 signature := by
  have each : ∀ count ≤ rest.length, registry.TransparentAt platform (decide (count < rest.length) || hasPostWhitespace)
        wrapper (command :: rest.take count) commandCaseSensitivity ↔
      registry.locate platform (decide (count < rest.length) || hasPostWhitespace) true (rest.take count) 1 0
          (signature, 0) =
        registry.locate platform (decide (count < rest.length) || hasPostWhitespace) signature.hasCommandArgument
          (rest.take count) 1 0 (signature, 0) :=
    fun count bound => transparentAt_iff isWrapper wrapperSpelled wraps known isSpelled (by rw [typed_take bound, isTyped])
  cases isWrapping : signature.hasCommandArgument with
  | true =>
    rw [isWrapping] at each
    simp only [true_or, iff_true]
    exact fun count bound => (each count bound).mpr rfl
  | false =>
    rw [isWrapping] at each
    simp only [Bool.false_eq_true, false_or]
    constructor
    · intro transparent
      exact undisturbed_of_locate_eq Nat.zero_lt_one fun count bound => (each count bound).mp (transparent count bound)
    · intro undisturbed count bound
      exact (each count bound).mpr ((undisturbed.take count bound).locate_eq _ _)

end Wrapper

/-! A registry of three programs, on a platform where the text is ASCII. -/

def linux : Platform := ⟨false, List.map Char.toLower⟩

def plainSignature (name : Str) (arguments : List Argument) : Signature := ⟨name, none, arguments, [], [], false⟩

def programs : CommandRegistry Unit where
  signatures :=
    { lookupFn := fun command =>
        if command = ['s', 'u', 'd', 'o'] then some (plainSignature command [⟨false, true, .required⟩])
        else if command = ['c', 'a', 't'] ∨ command = ['g', 'i', 't'] then some (plainSignature command [])
        else none
      signatures := fun _ => none }
  dynamicCompletionData := fun _ => none

theorem programs_withoutAliasGenerators : programs.WithoutAliasGenerators linux := by
  intro command signature known
  have plain : ∃ name arguments, signature = plainSignature name arguments := by
    revert known
    simp only [getSignature, SignatureCache.get, programs, getD_none]
    split
    · exact fun known => ⟨_, _, (Option.some.inj known).symm⟩
    · split
      · exact fun known => ⟨_, _, (Option.some.inj known).symm⟩
      · simp
  obtain ⟨name, arguments, rfl⟩ := plain
  exact .mk rfl (by rintro _ ⟨⟩)

/-- The one resolver knows the command in capitals, the other does not. -/
theorem capital_command_differs :
    ¬ ((∀ found, programs.signatureWithAliasExpansion linux (fun _ _ => none) none [['G', 'I', 'T']] true =
            .success found ↔
          programs.signatureFromTokens linux [['G', 'I', 'T']] true .caseSensitive = some found) ∧
        (programs.signatureWithAliasExpansion linux (fun _ _ => none) none [['G', 'I', 'T']] true = .none ↔
          programs.signatureFromTokens linux [['G', 'I', 'T']] true .caseSensitive = none)) := by
  rintro ⟨-, nothing⟩
  have unknown : programs.signatureFromTokens linux [['G', 'I', 'T']] true .caseSensitive = none := rfl
  exact absurd (nothing.mpr unknown) nofun

theorem signatureWithAliasExpansion_agrees_git :
    (∀ found, programs.signatureWithAliasExpansion linux (fun _ _ => none) none [['g', 'i', 't']] true = .success found ↔
        programs.signatureFromTokens linux [['g', 'i', 't']] true .caseSensitive = some found) ∧
      (programs.signatureWithAliasExpansion linux (fun _ _ => none) none [['g', 'i', 't']] true = .none ↔
        programs.signatureFromTokens linux [['g', 'i', 't']] true .caseSensitive = none) := by
  refine (signatureWithAliasExpansion_agrees linux programs programs_withoutAliasGenerators (fun _ _ _ => rfl) _ true
    .caseSensitive).mpr ?_
  rintro _ _ signature ⟨⟩ known
  have isGit : programs.getSignature linux ['g', 'i', 't'] = some (plainSignature ['g', 'i', 't'] []) := rfl
  rw [isGit] at known
  cases known
  exact ⟨rfl, .inr rfl⟩

/-- The wrapper takes the argument of the command it wraps for a command. -/
theorem wrapped_argument_disturbs :
    ¬ programs.TransparentAt linux true ['s', 'u', 'd', 'o'] [['c', 'a', 't'], ['g', 'i', 't']] .caseSensitive := by
  intro transparent
  have moved := transparent (plainSignature ['c', 'a', 't'] []) 0 rfl
  exact absurd (congrArg (Option.map Prod.snd) moved) (by decide)

theorem wrapper_transparent_sudo :
    programs.TransparentAt linux true ['s', 'u', 'd', 'o'] [['c', 'a', 't']] .caseSensitive ∧
      programs.TransparentAt linux true ['s', 'u', 'd', 'o'] [['c', 'a', 't'], ['n', 'o', 't', 'e', 's']] .caseSensitive := by
  have isWrapper : programs.getSignature linux ['s', 'u', 'd', 'o'] =
      some (plainSignature ['s', 'u', 'd', 'o'] [⟨false, true, .required⟩]) := rfl
  have known : programs.getSignature linux ['c', 'a', 't'] = some (plainSignature ['c', 'a', 't'] []) := rfl
  have isTyped : typed [['n', 'o', 't', 'e', 's']] true = true := rfl
  have each : ∀ count ≤ 1, programs.TransparentAt linux (decide (count < 1) || true) ['s', 'u', 'd', 'o']
      (['c', 'a', 't'] :: [['n', 'o', 't', 'e', 's']].take count) .caseSensitive :=
    (wrapper_transparent isWrapper rfl rfl known rfl isTyped).mpr (.inr trivial)
  exact ⟨each 0 (Nat.zero_le _), each 1 (Nat.le_refl _)⟩

end CommandRegistry

end Warp.Completer
