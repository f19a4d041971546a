import XChainVM.Lint.Composition

/-! # The deploy verdict and the author's gate -/

namespace XChainVM.Lint

def CONSENSUS_RULES : List Rule :=
  [.invalidType, .nestingDepth, .unsupportedSyntax, .reservedIdentifier, .bannedMath, .bannedLiteral, .bannedAsync,
    .bannedGenerator, .bannedWasm, .bannedRest, .bannedWith]

inductive Verdict where
  | valid
  | invalid (error : String)
  deriving DecidableEq, Repr

inductive Compiled where
  | ok
  | unavailable (message : String)
  | failed (fault : Fault)

/-- What a verdict throws: a fault of the host, or an exception passed on. -/
inductive Thrown where
  | hostFault (message : String)
  | raw (fault : Fault)
  deriving DecidableEq, Repr

structure Host extends Toolchain where
  compile : String → Compiled
  /-- The findings about the contract's identity. -/
  checkContractMeta : String → List Finding

variable (host : Host)

structure ValidateOptions where
  enforceBannedAsync : Option Bool := none
  enforceLintHardening : Option Bool := none
  enforceLintGlobalAlias : Option Bool := none
  enforceLintOptionalChain : Option Bool := none
  enforceBannedGenerator : Option Bool := none
  enforceBannedWasm : Option Bool := none
  enforceBannedRest : Option Bool := none
  enforceBannedWith : Option Bool := none
  enforceLintNestingDepth : Option Bool := none
  enforceLintSyntaxDepth : Option Bool := none
  enforceLintDestructure : Option Bool := none
  deriving DecidableEq, Repr

def isBlockingConsensusError (opts : ValidateOptions) (finding : Finding) : Bool :=
  if finding.rule = .bannedAsync ∧ !isOn opts.enforceBannedAsync then false
  else if finding.rule = .bannedGenerator ∧ !isOn opts.enforceBannedGenerator then false
  else if finding.rule = .bannedWasm ∧ !isOn opts.enforceBannedWasm then false
  else if finding.rule = .bannedRest ∧ !isOn opts.enforceBannedRest then false
  else if finding.rule = .bannedWith ∧ !isOn opts.enforceBannedWith then false
  else CONSENSUS_RULES.contains finding.rule

def checkV8Syntax (code : String) (overflowIsHostFault : Bool) : Except Thrown (Option Verdict) :=
  match host.compile code with
  | .ok => .ok none
  | .unavailable message => .error (.hostFault ("syntax validation isolate unavailable: " ++ message))
  | .failed e =>
    if overflowIsHostFault && e.overflow then .error (.hostFault ("syntax validation stack overflow: " ++ e.message))
    else .ok (some (.invalid ("syntax error: " ++ e.message)))

def preParseFinding (code : String) (nesting syntaxDepth : Bool) : Option Finding :=
  (if nesting then nestingDepthFinding host.toToolchain code else none).or
    (if syntaxDepth then syntaxDepthFinding host.toToolchain code else none)

def lintAcornRules (code : String) (opts : LintOptions) : Except Thrown (List Finding) :=
  match lintSource host.toToolchain code opts with
  | .ok findings => .ok findings
  | .error e =>
    if opts.overflowIsHostFault = some true ∧ e.overflow then
      .error (.hostFault ("syntax validation stack overflow: " ++ e.message))
    else .error (.raw e)

namespace ValidateOptions

def syntaxDepth (opts : ValidateOptions) : Bool := isOn opts.enforceLintSyntaxDepth

def nestingDepth (opts : ValidateOptions) : Bool := opts.syntaxDepth || isOn opts.enforceLintNestingDepth

/-- What the verdict passes on to the lint. The depth rules have run by then. -/
def lintOptions (opts : ValidateOptions) : LintOptions where
  hardened := some (isOn opts.enforceLintHardening)
  globalAlias := some (isOn opts.enforceLintGlobalAlias)
  optionalChain := some (isOn opts.enforceLintOptionalChain)
  enforceLintNestingDepth := some false
  enforceLintSyntaxDepth := some false
  overflowIsHostFault := some opts.syntaxDepth
  destructure := some (isOn opts.enforceLintDestructure)

end ValidateOptions

def validateSyntax (code : String) (opts : ValidateOptions) : Except Thrown Verdict := do
  if let some finding := preParseFinding host code opts.nestingDepth opts.syntaxDepth then
    return .invalid finding.message
  if let some verdict ← checkV8Syntax host code opts.syntaxDepth then
    return verdict
  let findings ← lintAcornRules host code opts.lintOptions
  match findings.filter (isBlockingConsensusError opts) with
  | finding :: _ => return .invalid finding.message
  | [] => return .valid

structure GateResult where
  errors : List Finding
  advisories : List Finding
  deriving DecidableEq

def GateResult.ok (result : GateResult) : Bool := result.errors.isEmpty

def DEPLOY_BLOCKING : List Rule := CONSENSUS_RULES ++ [.codeSize, .contractMeta]

def runGate (code : String) : Except Fault GateResult := do
  let findings ← lintSource host.toToolchain code {}
  let allErrors := findings ++ host.checkContractMeta code
  return ⟨allErrors.filter fun e => DEPLOY_BLOCKING.contains e.rule,
    allErrors.filter fun e => !DEPLOY_BLOCKING.contains e.rule⟩

end XChainVM.Lint
