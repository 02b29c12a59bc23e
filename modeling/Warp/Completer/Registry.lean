import Warp.Lib.Lines

namespace Warp.Completer

/-! Finding the signature of a command line in the command registry. -/

inductive IsArgumentOptional
  | required
  | optional
  deriving DecidableEq, Repr

structure Argument where
  isVariadic : Bool
  isCommand : Bool
  optional : IsArgumentOptional
  deriving DecidableEq, Repr

structure Opt where
  exactString : List Str
  arguments : List Argument
  deriving DecidableEq, Repr

structure Signature where
  name : Str
  aliasGenerator : Option Str
  arguments : List Argument
  subcommands : List Signature
  options : List Opt
  /-- From the parser directives. -/
  alwaysCaseInsensitive : Bool

namespace Signature

def hasCommandArgument (s : Signature) : Bool := s.arguments.any Argument.isCommand

/-- No alias generator here and in any subcommand. -/
inductive AliasFree : Signature → Prop
  | mk {s : Signature} (plain : s.aliasGenerator = none) (below : ∀ sub ∈ s.subcommands, AliasFree sub) : AliasFree s

theorem AliasFree.plain {s : Signature} : s.AliasFree → s.aliasGenerator = none
  | .mk plain _ => plain

theorem AliasFree.subcommand {s sub : Signature} (member : sub ∈ s.subcommands) : s.AliasFree → sub.AliasFree
  | .mk _ below => below sub member

end Signature

structure Platform where
  windows : Bool
  toLowercase : Str → Str

namespace Platform

def dropExe : Str → Str
  | 'e' :: 'x' :: 'e' :: '.' :: rest => dropExe rest
  | rest => rest

def trimEndExe (command : Str) : Str := (dropExe command.reverse).reverse

def commandName (platform : Platform) (command : Str) : Str := if platform.windows then trimEndExe command else command

theorem dropExe_dropExe (s : Str) : dropExe (dropExe s) = dropExe s := by
  fun_induction dropExe s with
  | case1 rest ih => exact ih
  | case2 rest other => rw [dropExe]; exact other

theorem commandName_commandName (platform : Platform) (command : Str) :
    platform.commandName (platform.commandName command) = platform.commandName command := by
  unfold commandName
  split
  · simp [trimEndExe, dropExe_dropExe]
  · rfl

end Platform

structure SignatureCache where
  lookupFn : Str → Option Signature
  signatures : Str → Option (Option Signature)

namespace SignatureCache

variable (platform : Platform)

def key (command : Str) : Str := platform.toLowercase (platform.commandName command)

def get (cache : SignatureCache) (command : Str) : Option Signature :=
  (cache.signatures (key platform command)).getD (cache.lookupFn (key platform command))

def getOrInsert (cache : SignatureCache) (command : Str) : SignatureCache :=
  { cache with
    signatures := Function.update cache.signatures (key platform command) (some (cache.get platform command)) }

theorem get_commandName (cache : SignatureCache) (command : Str) :
    cache.get platform (platform.commandName command) = cache.get platform command := by
  simp only [get, key, platform.commandName_commandName]

end SignatureCache

structure CommandRegistry (Data : Type) where
  signatures : SignatureCache
  /-- Its keys are lower case. -/
  dynamicCompletionData : Str → Option Data

structure SignatureAtTokenIndex (Data : Type) where
  signature : Signature
  dynamicCompletionData : Option Data
  tokenIndex : ℕ

inductive TokenAction
  | resolvedSubcommand (signature : Signature)
  | variadicOption
  | skippedOption (advanceBy : ℕ)
  | skippedUnrecognizedFlag
  | stopAtCurrentToken

inductive TopLevelCommandCaseSensitivity
  | caseSensitive
  | caseInsensitive
  deriving DecidableEq, Repr

def shouldCompleteOnSubcmd (subcmdName token : Str) (numTokens currTokenIdx : ℕ) (hasPostWhitespace : Bool) : Bool :=
  let isLastToken : Bool := numTokens - 1 = currTokenIdx
  let subcmdMatchesToken : Bool := subcmdName = token
  if isLastToken then hasPostWhitespace && subcmdMatchesToken else subcmdMatchesToken

def findOptionByName (options : List Opt) (token : Str) : Option Opt :=
  options.find? fun option => option.exactString.contains token

def classifyToken (currSignature : Signature) (token : Str) (numTokens tokenIdx : ℕ) (hasPostWhitespace : Bool) :
    TokenAction :=
  match currSignature.subcommands.find? fun s =>
    shouldCompleteOnSubcmd s.name token numTokens tokenIdx hasPostWhitespace with
  | some subcommand => .resolvedSubcommand subcommand
  | none =>
    match findOptionByName currSignature.options token with
    | some option =>
      if (option.arguments.getLast?.map Argument.isVariadic).getD false then .variadicOption
      else .skippedOption (option.arguments.filter fun arg => arg.optional = .required).length
    | none => if token.head? = some '-' then .skippedUnrecognizedFlag else .stopAtCurrentToken

namespace CommandRegistry

variable {Data : Type} (platform : Platform) (registry : CommandRegistry Data)

def getSignature (command : Str) : Option Signature := registry.signatures.get platform command

def getData (command : Str) : Option Data := registry.dynamicCompletionData (platform.toLowercase command)

/-- The command that is the argument of a wrapper such as `sudo`. -/
def maybeLoadReplacementSignature (signature : Signature) (numTokens currentIndex : ℕ) (token : Str)
    (hasPostWhitespace : Bool) : Option (Signature × Option Data) :=
  if signature.hasCommandArgument then
    let isLastToken : Bool := numTokens - 1 = currentIndex
    (registry.getSignature platform token).bind fun replacement =>
      let loaded := (replacement, registry.getData platform replacement.name)
      if isLastToken then (if hasPostWhitespace then some loaded else none) else some loaded
  else none

/-- What both walks do at a token: what is found then, and by how many tokens more to advance, or that it returns. -/
def walkToken (signature : Signature) (numTokens tokenIdx : ℕ) (token : Str) (hasPostWhitespace : Bool)
    (found : SignatureAtTokenIndex Data) : SignatureAtTokenIndex Data × Option ℕ :=
  match registry.maybeLoadReplacementSignature platform signature numTokens tokenIdx token hasPostWhitespace with
  | some (replacement, data) => (⟨replacement, data, tokenIdx⟩, some 0)
  | none =>
    match classifyToken found.signature token numTokens tokenIdx hasPostWhitespace with
    | .resolvedSubcommand subcommand => ({ found with signature := subcommand, tokenIndex := tokenIdx }, some 0)
    | .skippedOption advanceBy => (found, some advanceBy)
    | .skippedUnrecognizedFlag => (found, some 0)
    | .variadicOption | .stopAtCurrentToken => (found, none)

/-- The walk from token `tokenIdx` on, past the arguments of an option first. -/
def walkTokens (signature : Signature) (numTokens : ℕ) (hasPostWhitespace : Bool) :
    List Str → ℕ → ℕ → SignatureAtTokenIndex Data → SignatureAtTokenIndex Data
  | [], _, _, found => found
  | _ :: tokens, tokenIdx, advance + 1, found =>
    walkTokens signature numTokens hasPostWhitespace tokens (tokenIdx + 1) advance found
  | token :: tokens, tokenIdx, 0, found =>
    match registry.walkToken platform signature numTokens tokenIdx token hasPostWhitespace found with
    | (found, some advance) => walkTokens signature numTokens hasPostWhitespace tokens (tokenIdx + 1) advance found
    | (found, none) => found

def spelled (commandCaseSensitivity : TopLevelCommandCaseSensitivity) (signature : Signature) (command : Str) : Bool :=
  !(commandCaseSensitivity = .caseSensitive && !signature.alwaysCaseInsensitive && signature.name ≠ command)

def signatureFromTokens (tokens : List Str) (hasPostWhitespace : Bool)
    (commandCaseSensitivity : TopLevelCommandCaseSensitivity) : Option (SignatureAtTokenIndex Data) :=
  match tokens with
  | [] => none
  | firstToken :: rest =>
    (registry.getSignature platform firstToken).bind fun signature =>
      if spelled commandCaseSensitivity signature firstToken then
        some (registry.walkTokens platform signature tokens.length hasPostWhitespace rest 1 0
          ⟨signature, registry.getData platform firstToken, 0⟩)
      else none

end CommandRegistry

/-! The walk that also runs the alias generators of the signatures it passes. -/

structure Alias where
  command : List Str → Str
  onComplete : Str → List Str → ℕ → Option Str

inductive CommandExitStatus
  | success
  | failure
  deriving DecidableEq, Repr

structure CommandOutput where
  status : CommandExitStatus
  text : Option Str

inductive SignatureResult (Data : Type)
  | success (found : SignatureAtTokenIndex Data)
  | needAliasExpansion (command : Str)
  | none

abbrev GeneratorContext := Str → Option CommandOutput

namespace CommandRegistry

variable {Data : Type} (platform : Platform) (registry : CommandRegistry Data)
variable (aliasOf : Signature → Option Data → Option Alias) (context : Option GeneratorContext)

/-- The command that the alias at the current signature stands for. -/
def expandAlias (tokens : List Str) (tokenIdx : ℕ) (found : SignatureAtTokenIndex Data) : Option Str :=
  (aliasOf found.signature found.dynamicCompletionData).bind fun generator =>
    context.bind fun execute =>
      (execute (generator.command (tokens.take (tokenIdx + 1)))).bind fun output =>
        output.text.bind fun text =>
          match output.status with
          | .success => generator.onComplete text tokens tokenIdx
          | .failure => none

def walkWithAliases (signature : Signature) (all : List Str) (hasPostWhitespace : Bool) :
    List Str → ℕ → ℕ → SignatureAtTokenIndex Data → SignatureResult Data
  | [], _, _, found => .success found
  | _ :: tokens, tokenIdx, advance + 1, found =>
    walkWithAliases signature all hasPostWhitespace tokens (tokenIdx + 1) advance found
  | token :: tokens, tokenIdx, 0, found =>
    if tokenIdx = all.length - 1 ∧ hasPostWhitespace = false then .success found
    else
      match expandAlias aliasOf context all tokenIdx found with
      | some command => .needAliasExpansion command
      | none =>
        match registry.walkToken platform signature all.length tokenIdx token hasPostWhitespace found with
        | (found, some advance) => walkWithAliases signature all hasPostWhitespace tokens (tokenIdx + 1) advance found
        | (found, none) => .success found

def signatureWithAliasExpansion (tokens : List Str) (hasPostWhitespace : Bool) : SignatureResult Data :=
  match tokens with
  | [] => .none
  | command :: rest =>
    match registry.getSignature platform (platform.commandName command) with
    | none => .none
    | some signature =>
      registry.walkWithAliases platform aliasOf context signature tokens hasPostWhitespace rest 1 0
        ⟨signature, registry.getData platform (platform.commandName command), 0⟩

end CommandRegistry

end Warp.Completer
