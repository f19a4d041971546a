import XChainVM.Harness.Derivation

/-! # The harness of an execution

Every activation that changes the harness is a rule with a bit of its own. The gates of an
execution set a mask, and the mask names the rules the harness is derived with. The string
result meter is derived on top of whatever the mask selects.
-/

namespace XChainVM.Harness

open XChainVM.Splice

inductive Activation where
  | resourceFaultSignal | hostErrorStackStrip | hostCallBounds | stringifyReentry
  | perElementMeter | stringReceiverMeter | toStringSizeMeter | nativeStackTerminal
  deriving DecidableEq

def RULES : List Activation :=
  [.resourceFaultSignal, .hostErrorStackStrip, .hostCallBounds, .stringifyReentry, .perElementMeter,
    .stringReceiverMeter, .toStringSizeMeter, .nativeStackTerminal]

def bitOf (rule : Activation) : ℕ := 1 <<< RULES.idxOf rule

/-- The gates that an execution resolves for its harness. -/
structure HarnessGates where
  resourceFaultSignal : Bool
  hostErrorStackStrip : Bool
  hostCallBounds : Bool
  stringifyReentry : Bool
  perElementMeter : Bool
  stringReceiverMeter : Bool
  toStringSizeMeter : Bool
  nativeStackTerminal : Bool
  deriving DecidableEq

def HarnessGates.on (gates : HarnessGates) : Activation → Bool
  | .resourceFaultSignal => gates.resourceFaultSignal
  | .hostErrorStackStrip => gates.hostErrorStackStrip
  | .hostCallBounds => gates.hostCallBounds
  | .stringifyReentry => gates.stringifyReentry
  | .perElementMeter => gates.perElementMeter
  | .stringReceiverMeter => gates.stringReceiverMeter
  | .toStringSizeMeter => gates.toStringSizeMeter
  | .nativeStackTerminal => gates.nativeStackTerminal

def harnessMask (gates : HarnessGates) : ℕ :=
  (if gates.resourceFaultSignal then bitOf .resourceFaultSignal else 0) |||
  (if gates.hostErrorStackStrip then bitOf .hostErrorStackStrip else 0) |||
  (if gates.hostCallBounds then bitOf .hostCallBounds else 0) |||
  (if gates.stringifyReentry then bitOf .stringifyReentry else 0) |||
  (if gates.perElementMeter then bitOf .perElementMeter else 0) |||
  (if gates.stringReceiverMeter then bitOf .stringReceiverMeter else 0) |||
  (if gates.toStringSizeMeter then bitOf .toStringSizeMeter else 0) |||
  (if gates.nativeStackTerminal then bitOf .nativeStackTerminal else 0)

/-- The texts of the rules, as their own files have them. -/
structure RuleTable where
  rule : Activation → HarnessRule
  /-- The line of the host error stack strip that serializes the arguments. -/
  argumentLine : Script

def rewriteOnce (label : String) (text fromText toText : Script) : Except String Script :=
  let hits : ℤ := (splitLength fromText text : ℤ) - 1
  if hits ≠ 1 then
    .error ("xchain-vm: " ++ label ++ " helper rewrite matched " ++ toString hits ++ " times: "
      ++ trimmed fromText)
  else
    match indexOf fromText text with
    | some start => .ok (text.take start ++ toText ++ text.drop (start + fromText.length))
    | none => .ok text

/-- A rule whose helpers change when another rule is armed beside it. -/
structure Coupling where
  rule : Activation
  beside : Activation
  apply : Script → Except String Script

/-- The host-call bounds lend a level of depth to the arguments of a host call, also where
another rule has its own code for them. -/
def COUPLINGS (t : RuleTable) : List Coupling :=
  [{ rule := .hostErrorStackStrip
     beside := .hostCallBounds
     apply := fun text =>
      match (t.rule .hostCallBounds).edits with
      | edit :: _ => rewriteOnce (t.rule .hostErrorStackStrip).label text t.argumentLine (edit.toText ++ ['\n'])
      | [] => .error "Cannot read properties of undefined (reading '1')" },
   { rule := .stringifyReentry
     beside := .hostCallBounds
     apply := fun text => do
      let text ← rewriteOnce (t.rule .stringifyReentry).label text
        "    function __rsfStringifyReentrant(value) \x7b\n".toList
        ("    function __rsfStringifyReentrant(value) \x7b\n" ++
          "        var allowance = __hostArgDepthAllowance; __hostArgDepthAllowance = 0;\n").toList
      rewriteOnce (t.rule .stringifyReentry).label text
        "            copy = __resolveForStringify(value, arguments[1]);\n".toList
        "            copy = __resolveForStringify(value, arguments[1], allowance);\n".toList }]

def coupledHelpers (t : RuleTable) (armed : List Activation) (rule : Activation) : Except String Script :=
  (COUPLINGS t).foldlM (fun helpers c => if c.rule = rule ∧ c.beside ∈ armed then c.apply helpers else .ok helpers)
    (t.rule rule).helpers

def armedRules (t : RuleTable) (armed : List Activation) : Except String (List HarnessRule) :=
  armed.mapM fun rule => do
    let helpers ← coupledHelpers t armed rule
    pure { label := (t.rule rule).label, edits := (t.rule rule).edits, helpers }

def rulesFor (t : RuleTable) (mask : ℕ) : Except String (List HarnessRule) :=
  armedRules t (RULES.filter fun rule => mask &&& bitOf rule ≠ 0)

def APPLY_LENGTH_LINE : String :=
  "    var __applyLengthMeterOn = globalThis.__APPLY_LENGTH_METER_ON === true;"

def htmlWrappers (declaration closing : String) : String :=
  declaration ++ "function(name) \x7b\n" ++
    "            var orig = String.prototype[name];\n" ++
    "            if (typeof orig !== 'function') return;\n" ++
    "            __lockMethod(String.prototype, name, function() \x7b\n" ++
    "                var r = orig.apply(this, arguments);\n" ++
    "                __allocGas(r.length);\n" ++
    "                return r;\n" ++
    "            \x7d);\n" ++
    "        \x7d;\n" ++
    "        var __stringHtmlMethods = ['anchor', 'big', 'blink', 'bold', 'fixed',\n" ++
    "            'fontcolor', 'fontsize', 'italics', 'link', 'small', 'strike', 'sub', 'sup'];\n" ++
    "        for (var __shi = 0; __shi < __stringHtmlMethods.length; __shi++) \x7b\n" ++
    "            __meterStringResult(__stringHtmlMethods[__shi]);\n" ++
    "        \x7d" ++ closing

def HTML_WRAPPERS : String := htmlWrappers "        var __meterStringResult = " ""

def GATED_HTML_WRAPPERS : String :=
  htmlWrappers ("        var __meterStringResult, __stringHtmlAllocGas = __allocGas; " ++
    "\x7b let __allocGas = __stringResultMeterOn ? __stringHtmlAllocGas : function() \x7b\x7d; " ++
    "__meterStringResult = ") " \x7d"

def rawWrapper (opening guard closing : String) : String :=
  "        var __stringRaw = String.raw;\n" ++
    "        " ++ opening ++ guard ++ " __lockMethod(String, 'raw', function() \x7b\n" ++
    "            var r = __stringRaw.apply(this, arguments);\n" ++
    "            __allocGas(r.length);\n" ++
    "            return r;\n" ++
    "        \x7d);" ++ closing

def RAW_WRAPPER (guard : String) : String := rawWrapper "" guard ""

def GATED_RAW_WRAPPER (guard : String) : String :=
  rawWrapper ("var __stringRawAllocGas = __allocGas; \x7b let __allocGas = " ++
    "__stringResultMeterOn ? __stringRawAllocGas : function() \x7b\x7d; ") guard " \x7d"

def perElementRawResult (charge : String) : String :=
  "        " ++ charge ++ "__allocGas(r.length);\n" ++
    "        return r;\n" ++
    "    \x7d);\n" ++
    "    // ----- end per-element meter -----"

def PER_ELEMENT_RAW_RESULT : String := perElementRawResult ""

def GATED_PER_ELEMENT_RAW_RESULT : String := perElementRawResult "if (__stringResultMeterOn) "

/-- `source.includes(text)`. -/
def includesText (source : Script) (text : String) : Bool := (indexOf text.toList source).isSome

def buildStringResultMeterHarness (source : Script) : Except String Script :=
  let plainGuard := "if (typeof __stringRaw === 'function')"
  let perElementGuard := "if (typeof __stringRaw === 'function' && !__pemArmed)"
  let perElement := includesText source (RAW_WRAPPER perElementGuard)
  let rawGuard := if perElement then perElementGuard else plainGuard
  let edits : List Edit :=
    [⟨APPLY_LENGTH_LINE.toList, (APPLY_LENGTH_LINE ++
        " var __stringResultMeterOn = globalThis.__STRING_RESULT_METER_ON === true;").toList⟩,
      ⟨HTML_WRAPPERS.toList, GATED_HTML_WRAPPERS.toList⟩,
      ⟨(RAW_WRAPPER rawGuard).toList, (GATED_RAW_WRAPPER rawGuard).toList⟩]
  let edits := if perElement then
      edits ++ [⟨PER_ELEMENT_RAW_RESULT.toList, GATED_PER_ELEMENT_RAW_RESULT.toList⟩]
    else edits
  deriveHarness source [{ label := "string result meter", edits, helpers := [] }]

theorem armed_iff (gates : HarnessGates) (rule : Activation) :
    harnessMask gates &&& bitOf rule ≠ 0 ↔ gates.on rule := by
  obtain ⟨a, b, c, d, e, f, g, h⟩ := gates
  cases rule
  all_goals
    revert a b c d e f g h
    decide

/-- The mask of an execution names the rules its gates arm. -/
theorem rulesFor_harnessMask (t : RuleTable) (gates : HarnessGates) :
    rulesFor t (harnessMask gates) = armedRules t (RULES.filter gates.on) := by
  have hfilter : (RULES.filter fun rule => harnessMask gates &&& bitOf rule ≠ 0) = RULES.filter gates.on := by
    apply List.filter_congr
    intro rule _
    rw [Bool.eq_iff_iff, decide_eq_true_iff]
    exact armed_iff gates rule
  rw [rulesFor, hfilter]

end XChainVM.Harness
