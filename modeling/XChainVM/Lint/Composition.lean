import XChainVM.Lint.BannedSurface
import XChainVM.Lint.SyntaxDepth
import XChainVM.Metering.MeterCode

/-! # The lint of a source

The findings in the order the deploy check reports them. The parser, its tokenizer, the walks
and the printer are a library's.
-/

namespace XChainVM.Lint

inductive Rule where
  | codeSize | invalidType | nestingDepth | unsupportedSyntax | reservedIdentifier | bannedMath | bannedLiteral
  | bannedAsync | bannedGenerator | bannedWasm | bannedRest | bannedWith
  | contractMeta | contractMetaUndecidable | crossCallableNotArray
  deriving DecidableEq, Repr

structure Finding where
  rule : Rule
  message : String
  line : Option ℕ
  deriving DecidableEq, Repr

/-- An exception of the parser or of the meter; `overflow` says that the host's stack ran out. -/
structure Fault where
  message : String
  overflow : Bool
  deriving DecidableEq, Repr

structure Toolchain where
  walk : Walk
  /-- The tokens up to the end of the text or the first error. -/
  tokens : String → List Token
  parse : String → Except Fault Tree
  /-- The meter's passes over the tree, and the printer. -/
  meter : Metering.MeterOptions → Tree → Except Fault String
  codeSizeBytes : String → ℕ
  /-- The error findings of the advice that no verdict rests on. -/
  analyzeContract : String → List Finding

variable (tools : Toolchain)

def MAX_NESTING_DEPTH : ℕ := 64

def scanNesting (limit : ℕ) : ℕ → List Token → Option (ℕ × ℕ)
  | _, [] => none
  | depth, token :: rest =>
    if token.label.opener?.isSome then
      if limit < depth + 1 then some (token.line, depth + 1) else scanNesting limit (depth + 1) rest
    else if token.label = .eof then none
    else scanNesting limit (if token.label.isCloser then depth - 1 else depth) rest

def findNestingDepth (tokens : List Token) (limit : Option ℕ) : List (ℕ × ℕ) :=
  (scanNesting (limit.getD MAX_NESTING_DEPTH) 0 tokens).toList

def nestingDepthFinding (code : String) : Option Finding :=
  (findNestingDepth (tools.tokens code) none).head?.map fun hit =>
    ⟨.nestingDepth, s!"nesting depth exceeds limit ({MAX_NESTING_DEPTH}) at line {hit.1}", some hit.1⟩

def syntaxDepthFinding (code : String) : Option Finding :=
  (findSyntaxDepth (tools.tokens code) none).head?.map fun hit =>
    ⟨.nestingDepth, s!"syntax depth exceeds limit ({MAX_SYNTAX_DEPTH}) at line {hit.line}", some hit.line⟩

def MAX_CODE_SIZE : ℕ := 65536

def CONTRACT_ECMA_VERSION : ℕ := 2020

def sizeErrors (code : String) : List Finding :=
  if MAX_CODE_SIZE < tools.codeSizeBytes code then
    [⟨.codeSize, s!"code size exceeds limit ({MAX_CODE_SIZE} bytes)", none⟩]
  else []

def reservedError (name : String) : Finding := ⟨.reservedIdentifier, "reserved identifier: " ++ name, none⟩

def mathError (hit : MathHit) : Finding :=
  ⟨.bannedMath,
    if hit.transcendental then
      s!"banned API: Math.{hit.name} at line {hit.line}; IEEE 754 floating-point transcendentals are non-deterministic across CPU architectures. Use xchain.math.{hit.name}() instead"
    else
      s!"banned API: Math.{hit.name} at line {hit.line}; not part of the deterministic sandbox Math subset (floor/ceil/round/abs/min/max/sign/trunc/PI/E). Use those members or xchain.math instead",
    some hit.line⟩

def exponentiationError (hit : OperatorHit) : Finding :=
  ⟨.bannedMath,
    s!"banned operator: {hit.op} at line {hit.line}; exponentiation is IEEE 754 floating-point (non-deterministic across CPU architectures). Use xchain.math.pow() instead",
    some hit.line⟩

def literalError (hit : LiteralHit) : Finding :=
  let kind := if hit.isBigint then "bigint" else "regex"
  let advice :=
    if hit.isBigint then "BigInt is unmetered native arithmetic; use the xchain.math bignumber API instead"
    else "regular-expression literals can backtrack catastrophically and are unmetered"
  ⟨.bannedLiteral, s!"banned literal: {kind} literal at line {hit.line}; {advice}", some hit.line⟩

def AsyncKind.text : AsyncKind → String
  | .async => "async"
  | .await => "await"
  | .promise => "promise"
  | .import_ => "import"

def AsyncKind.advice : AsyncKind → String
  | .promise => "Promise schedules microtasks whose drain timing is isolated-vm version-dependent and unpinned"
  | .import_ =>
    "dynamic import() evaluates to a Promise; the microtask surface it schedules is nondeterministic across validators"
  | .await =>
    "await resumes after the synchronous contract invocation returns; post-await state writes are nondeterministic across validators"
  | .async =>
    "async functions return a pending Promise the synchronous CONTRACT_WRAPPER cannot await; their post-await effects are nondeterministic across validators"

def asyncError (hit : AsyncHit) : Finding :=
  ⟨.bannedAsync, s!"banned async surface: {hit.kind.text} at line {hit.line} ({hit.kind.advice})", some hit.line⟩

def generatorError (hit : GeneratorHit) : Finding :=
  let kind := if hit.isYield then "yield" else "generator"
  let advice :=
    if hit.isYield then
      "yield suspends a generator frame without unwinding the call-depth guard; rewrite without generators"
    else
      "a suspended generator frame is not unwound until drained, so undrained generators leak __stackDepth toward the 512 cap and throw a spurious deterministic out_of_stack; use a plain function"
  ⟨.bannedGenerator, s!"banned generator surface: {kind} at line {hit.line} ({advice})", some hit.line⟩

def RestKind.text : RestKind → String
  | .nestedRest => "nested rest"
  | .restParameter => "rest parameter"
  | .catchClauseRest => "catch-clause rest"
  | .forLoopHeadRest => "for-loop-head rest"

def RestKind.advice : RestKind → String
  | .restParameter =>
    "the copy is performed by the caller's argument list, which has no source expression to charge, so f.apply(null, bigArr) in a loop copies O(n) elements for ~1 gas. Read arguments.length / index the parameters instead"
  | .catchClauseRest =>
    "the source is the thrown value, bound by the runtime rather than by an expression, so the own-key copy cannot be charged. Destructure the caught binding on a following line instead"
  | .forLoopHeadRest =>
    "the source is a per-iteration value produced by the iterator, with no expression to charge. Bind the iteration value and destructure it in the loop body instead"
  | .nestedRest =>
    "a nested rest copies an intermediate value produced by the enclosing destructure, with no expression to charge. Destructure in two steps so the rest reads a named binding instead"

def restError (hit : RestHit) : Finding :=
  ⟨.bannedRest, s!"unmeterable rest pattern: {hit.kind.text} at line {hit.line} ({hit.kind.advice})", some hit.line⟩

def withError (line : ℕ) : Finding :=
  ⟨.bannedWith,
    s!"banned statement: with at line {line}; a with block rebinds free identifiers to an object at runtime, which bypasses the identifier-based deploy bans and the metering rewrite. Read the properties through the object instead",
    some line⟩

def wasmError (line : ℕ) : Finding :=
  ⟨.bannedWasm,
    s!"banned global: WebAssembly at line {line}; WebAssembly executes native code that carries no __gas metering (unmetered native execution) and is a consensus-fork surface. The sandbox removes it, so this is unreachable at runtime",
    some line⟩

def isOn (flag : Option Bool) : Bool := flag ≠ some false

structure LintOptions where
  hardened : Option Bool := none
  globalAlias : Option Bool := none
  optionalChain : Option Bool := none
  destructure : Option Bool := none
  enforceLintNestingDepth : Option Bool := none
  enforceLintSyntaxDepth : Option Bool := none
  overflowIsHostFault : Option Bool := none
  deriving DecidableEq, Repr

def LintOptions.refinements (opts : LintOptions) : Refinements :=
  ⟨isOn opts.hardened, isOn opts.globalAlias, isOn opts.optionalChain, isOn opts.destructure⟩

/-- A scanner parses the source anew, and finds nothing where that fails. -/
def scanSource {α : Type} (overflowIsHostFault : Bool) (code : String) (scanner : Tree → List α) :
    Except Fault (List α) :=
  match tools.parse code with
  | .ok ast => .ok (scanner ast)
  | .error e => if overflowIsHostFault && e.overflow then .error e else .ok []

def isSet (flag : Option Bool) : Bool := flag = some true

structure MeterFlags where
  specEvalOrder : Option Bool := none
  meterCallSpread : Option Bool := none
  meterRestPattern : Option Bool := none
  nativeStackTerminal : Option Bool := none
  deriving DecidableEq, Repr

def MeterFlags.resolve (opts : MeterFlags) : Metering.MeterOptions :=
  ⟨isSet opts.specEvalOrder, isSet opts.meterCallSpread, isSet opts.meterRestPattern, isSet opts.nativeStackTerminal⟩

def meterCode (code : String) (opts : MeterFlags) : Except Fault String :=
  tools.parse code >>= tools.meter opts.resolve

def parseError (e : Fault) : Finding :=
  ⟨.unsupportedSyntax, s!"unsupported syntax (ES{CONTRACT_ECMA_VERSION} maximum): {e.message}", none⟩

def parseErrors (overflowIsHostFault : Bool) (code : String) : Except Fault (List Finding) :=
  match meterCode tools code {} with
  | .ok _ => .ok []
  | .error e =>
    if overflowIsHostFault && e.overflow then .error e else .ok [parseError e]

def reservedErrors (hardened : Bool) (ast : Tree) : List Finding :=
  (firstIdentifier tools.walk Metering.RESERVED_IDENTIFIERS ast).toList.map reservedError ++
    if hardened then (findReservedControlBinding tools.walk ast).toList.map reservedError else []

def mathErrors (flags : Refinements) (ast : Tree) : List Finding :=
  (findBannedMathCalls tools.walk flags ast).map mathError ++
    if flags.hardened then (findBannedExponentiation tools.walk ast).map exponentiationError else []

def scanErrors (flags : Refinements) (ast : Tree) : List Finding :=
  reservedErrors tools flags.hardened ast ++ mathErrors tools flags ast ++
    (findBannedLiterals tools.walk ast).map literalError ++ (findBannedAsync tools.walk flags ast).map asyncError ++
    (findBannedGenerator tools.walk ast).map generatorError ++ (findBannedRest ast).map restError ++
    (findBannedWasm tools.walk flags ast).map wasmError ++ (findBannedWith tools.walk ast).map withError

/-- The findings of `result_composition.js`. -/
def composeLintSource (code : String) (opts : LintOptions) : Except Fault (List Finding) := do
  let overflowIsHostFault := opts.overflowIsHostFault.getD (isOn opts.enforceLintSyntaxDepth)
  let parseFindings ← parseErrors tools overflowIsHostFault code
  if parseFindings ≠ [] then return sizeErrors tools code ++ parseFindings
  let found ← scanSource tools overflowIsHostFault code (scanErrors tools opts.refinements)
  return sizeErrors tools code ++ found ++ tools.analyzeContract code

/-- The findings of `lint-core.js`: a source that is too deep is not parsed. -/
def lintSource (code : String) (opts : LintOptions) : Except Fault (List Finding) :=
  let nesting := if isOn opts.enforceLintNestingDepth then nestingDepthFinding tools code else none
  let depth := if isOn opts.enforceLintSyntaxDepth then syntaxDepthFinding tools code else none
  match nesting, depth with
  | some finding, _ => .ok [finding]
  | none, some finding => .ok [finding]
  | none, none => composeLintSource tools code opts

end XChainVM.Lint
