import Warp.Completer.Parser

namespace Warp.Blocklist

open Completer

inductive ActionPermission
  | agentDecides
  | alwaysAllow
  | alwaysAsk
  | unknown
  deriving DecidableEq, Repr

inductive CommandExecutionPermissionAllowedReason
  | dispatched
  | explicitlyAllowlisted
  | isReadOnlyAndSettingEnabled
  | agentDecided
  | alwaysAllowed
  | runToCompletion
  deriving DecidableEq, Repr

inductive CommandExecutionPermissionDeniedReason
  | autonomyForceDisabled
  | alwaysAskEnabled
  | explicitlyDenylisted
  | containsRedirection
  | inconclusive
  | agentDecided
  deriving DecidableEq, Repr

inductive CommandExecutionPermission
  | allowed (reason : CommandExecutionPermissionAllowedReason)
  | denied (reason : CommandExecutionPermissionDeniedReason)
  deriving DecidableEq, Repr

def CommandExecutionPermission.isAllowed : CommandExecutionPermission → Bool
  | .allowed _ => true
  | .denied _ => false

/-- What the check reads of the profile, the conversation and the feature flags. The entries of the lists are their
`matches`. -/
structure Settings where
  denylist : List (Str → Bool)
  allowlist : List (Str → Bool)
  autoexecuteAnyAction : Bool
  executeCommands : ActionPermission
  agentDecidesCommandExecution : Bool

def replaceContinuations (escape : EscapeChar) (blank : Str) : Str → Str
  | [] => []
  | [c] => [c]
  | c :: d :: rest =>
    if escape.isChar c ∧ d = '\n' then blank ++ replaceContinuations escape blank rest
    else c :: replaceContinuations escape blank (d :: rest)

def normalizedCommand (command : Str) (escape : EscapeChar) : Str := replaceContinuations escape [' '] command

def matchesSome (list : List (Str → Bool)) (command : Str) : Bool := list.any fun entry => entry command

def canAutoexecuteCommand (settings : Settings) (command : Str) (escape : EscapeChar) (isReadOnly : Bool)
    (isRisky : Option Bool) : CommandExecutionPermission :=
  let (commands, containsRedirection) := decomposeCommand (normalizedCommand command escape) escape
  if commands.any (matchesSome settings.denylist) then .denied .explicitlyDenylisted
  else if settings.autoexecuteAnyAction then .allowed .runToCompletion
  else match settings.executeCommands with
  | .agentDecides | .unknown =>
    if settings.agentDecidesCommandExecution ∧ isRisky = some false then .allowed .agentDecided
    else if containsRedirection then .denied .containsRedirection
    else if commands.all (matchesSome settings.allowlist) then .allowed .explicitlyAllowlisted
    else if isReadOnly then .allowed .agentDecided
    else .denied .agentDecided
  | .alwaysAllow => .allowed .alwaysAllowed
  | .alwaysAsk =>
    if commands.all (matchesSome settings.allowlist) then .allowed .explicitlyAllowlisted
    else .denied .alwaysAskEnabled

section Check

variable {settings : Settings} {command : Str} {escape : EscapeChar} {isReadOnly : Bool} {isRisky : Option Bool}

def seenCommands (command : Str) (escape : EscapeChar) : List Str :=
  (decomposeCommand (normalizedCommand command escape) escape).1

theorem allowlisted_matches
    (answer : canAutoexecuteCommand settings command escape isReadOnly isRisky = .allowed .explicitlyAllowlisted) :
    ∀ c ∈ seenCommands command escape, matchesSome settings.allowlist c := by
  have allMatch : (seenCommands command escape).all (matchesSome settings.allowlist) := by
    by_contra unlisted
    unfold seenCommands at unlisted
    unfold canAutoexecuteCommand at answer
    dsimp only at answer
    cases setting : settings.executeCommands <;> simp only [setting, if_neg unlisted] at answer <;> split_ifs at answer <;> cases answer
  exact List.all_eq_true.mp allMatch

theorem denylisted_not_allowed {c : Str} (seen : c ∈ seenCommands command escape)
    (denylisted : matchesSome settings.denylist c) :
    canAutoexecuteCommand settings command escape isReadOnly isRisky = .denied .explicitlyDenylisted := by
  have denied : (seenCommands command escape).any (matchesSome settings.denylist) :=
    List.any_eq_true.mpr ⟨c, seen, denylisted⟩
  exact if_pos denied

end Check

end Warp.Blocklist
