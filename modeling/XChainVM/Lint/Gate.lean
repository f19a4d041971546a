import XChainVM.Lint.Refinement

/-! # What passes the gate

A source the gate reports no error for is refused by no setting of the deploy check, whatever
rules are active, unless the engine does not compile it.
-/

namespace XChainVM.Lint

variable {tools : Toolchain} {code : String}

theorem isOn_none : isOn none = true := rfl

theorem refinements_weaker {opts : LintOptions} (hhardened : isOn opts.hardened = true) :
    opts.refinements.Weaker ({} : LintOptions).refinements where
  hardened := hhardened
  aliased _ := rfl
  optionalChain _ := rfl
  destructure _ := rfl

theorem parse_of_meterCode {text : String} (h : meterCode tools code {} = .ok text) :
    ∃ ast, tools.parse code = .ok ast := by
  cases hparse : tools.parse code with
  | error e =>
    simp only [meterCode, hparse] at h
    cases h
  | ok ast => exact ⟨ast, rfl⟩

/-- A source that the meter takes has the findings of the scanners; else the parse error is all there is. -/
theorem composeLintSource_cases {opts : LintOptions} {findings : List Finding}
    (hlint : composeLintSource tools code opts = .ok findings) :
    (∃ text ast, meterCode tools code {} = .ok text ∧ tools.parse code = .ok ast ∧
      findings = sizeErrors tools code ++ scanErrors tools opts.refinements ast ++ tools.analyzeContract code) ∨
    (∃ e, meterCode tools code {} = .error e ∧ findings = sizeErrors tools code ++ [parseError e]) := by
  unfold composeLintSource parseErrors at hlint
  cases hmeter : meterCode tools code {} with
  | error e =>
    right
    rw [hmeter] at hlint
    dsimp only at hlint
    split at hlint
    · cases hlint
    · cases hlint
      exact ⟨e, rfl, rfl⟩
  | ok text =>
    left
    obtain ⟨ast, hparse⟩ := parse_of_meterCode hmeter
    rw [hmeter] at hlint
    simp only [scanSource, hparse] at hlint
    cases hlint
    exact ⟨text, ast, rfl, hparse, rfl⟩

/-- The stronger refinements keep every finding, in order. -/
theorem composeLintSource_sublist {weak strong : LintOptions} (hweaker : weak.refinements.Weaker strong.refinements)
    {found kept : List Finding} (hweak : composeLintSource tools code weak = .ok found)
    (hstrong : composeLintSource tools code strong = .ok kept) : found.Sublist kept := by
  obtain ⟨text, ast, hmeter, hparse, rfl⟩ | ⟨e, hmeter, rfl⟩ := composeLintSource_cases hweak
  all_goals obtain ⟨text', ast', hmeter', hparse', rfl⟩ | ⟨e', hmeter', rfl⟩ := composeLintSource_cases hstrong
  · obtain rfl : ast = ast' := Except.ok.inj (hparse.symm.trans hparse')
    exact ((List.Sublist.refl _).append (scanErrors_sublist hweaker tools ast)).append (List.Sublist.refl _)
  · cases hmeter.symm.trans hmeter'
  · cases hmeter.symm.trans hmeter'
  · obtain rfl : e = e' := Except.error.inj (hmeter.symm.trans hmeter')
    exact List.Sublist.refl _

/-- The finding that stops the lint before the parser, with the depth rules that are on. -/
def depthFinding (tools : Toolchain) (code : String) (nesting syntaxDepth : Bool) : Option Finding :=
  (if nesting then nestingDepthFinding tools code else none).or
    (if syntaxDepth then syntaxDepthFinding tools code else none)

theorem depthFinding_rule {nesting syntaxDepth : Bool} {finding : Finding}
    (h : depthFinding tools code nesting syntaxDepth = some finding) : finding.rule = .nestingDepth := by
  obtain hnesting | ⟨-, hsyntax⟩ := Option.or_eq_some_iff.mp h
  · cases nesting with
    | false => cases hnesting
    | true =>
      obtain ⟨hit, -, rfl⟩ := Option.map_eq_some_iff.mp hnesting
      rfl
  · cases syntaxDepth with
    | false => cases hsyntax
    | true =>
      obtain ⟨hit, -, rfl⟩ := Option.map_eq_some_iff.mp hsyntax
      rfl

/-- What no depth rule stops at full strength none stops. -/
theorem depthFinding_of_shallow (h : depthFinding tools code true true = none) (nesting syntaxDepth : Bool) :
    depthFinding tools code nesting syntaxDepth = none := by
  obtain ⟨hnesting, hsyntax⟩ := Option.or_eq_none_iff.mp h
  rw [if_pos rfl] at hnesting hsyntax
  simp only [depthFinding, hnesting, hsyntax, ite_self, Option.or_none]

theorem lintSource_eq (opts : LintOptions) : lintSource tools code opts =
    match depthFinding tools code (isOn opts.enforceLintNestingDepth) (isOn opts.enforceLintSyntaxDepth) with
    | some finding => .ok [finding]
    | none => composeLintSource tools code opts := by
  simp only [lintSource, depthFinding]
  generalize (if isOn opts.enforceLintNestingDepth then nestingDepthFinding tools code else none) = nesting
  generalize (if isOn opts.enforceLintSyntaxDepth then syntaxDepthFinding tools code else none) = depth
  cases nesting with
  | some finding => rfl
  | none => cases depth <;> rfl

theorem lintSource_of_shallow (hdepth : depthFinding tools code true true = none) (opts : LintOptions) :
    lintSource tools code opts = composeLintSource tools code opts := by
  rw [lintSource_eq, depthFinding_of_shallow hdepth]

variable {host : Host}

/-- No finding of a source that passes is a consensus rule's. -/
theorem findings_of_ok {result : GateResult} (hgate : runGate host code = .ok result) (hok : result.ok = true) :
    ∃ findings, lintSource host.toToolchain code {} = .ok findings ∧ ∀ e ∈ findings, e.rule ∉ CONSENSUS_RULES := by
  unfold runGate at hgate
  cases hlint : lintSource host.toToolchain code {} with
  | error e =>
    rw [hlint] at hgate
    cases hgate
  | ok findings =>
    rw [hlint] at hgate
    cases hgate
    refine ⟨findings, rfl, fun e he hrule => ?_⟩
    have hnone : (findings ++ host.checkContractMeta code).filter (fun e => DEPLOY_BLOCKING.contains e.rule) = [] :=
      List.isEmpty_iff.mp hok
    refine List.filter_eq_nil_iff.mp hnone e (List.mem_append_left _ he) ?_
    exact List.contains_iff_mem.mpr (List.mem_append_left _ hrule)

theorem shallow_of_ok {findings : List Finding} (hlint : lintSource host.toToolchain code {} = .ok findings)
    (hrules : ∀ e ∈ findings, e.rule ∉ CONSENSUS_RULES) : depthFinding host.toToolchain code true true = none := by
  rw [lintSource_eq, isOn_none] at hlint
  cases hdepth : depthFinding host.toToolchain code true true with
  | none => rfl
  | some finding =>
    rw [hdepth] at hlint
    cases hlint
    have hrule := hrules finding (List.mem_singleton.mpr rfl)
    rw [depthFinding_rule hdepth] at hrule
    exact absurd (by decide) hrule

theorem consensus_of_blocking {opts : ValidateOptions} {e : Finding} (h : isBlockingConsensusError opts e = true) :
    e.rule ∈ CONSENSUS_RULES := by
  unfold isBlockingConsensusError at h
  repeat' split at h
  all_goals first | cases h | exact List.contains_iff_mem.mp h

/-- The lint of the deploy check finds no consensus rule broken in a source that passes. -/
theorem lintAcornRules_of_ok {findings : List Finding} (hlint : lintSource host.toToolchain code {} = .ok findings)
    (hrules : ∀ e ∈ findings, e.rule ∉ CONSENSUS_RULES) {opts : ValidateOptions}
    (hhardened : isOn opts.enforceLintHardening = true) :
    ∃ found, lintAcornRules host code opts.lintOptions = .ok found ∧ found.Sublist findings := by
  have hdepth := shallow_of_ok hlint hrules
  rw [lintSource_of_shallow hdepth] at hlint
  obtain ⟨text, ast, hmeter, hparse, hfindings⟩ | ⟨e, -, hfindings⟩ := composeLintSource_cases hlint
  · have hfound : composeLintSource host.toToolchain code opts.lintOptions =
        .ok (sizeErrors host.toToolchain code ++ scanErrors host.toToolchain opts.lintOptions.refinements ast ++
          host.analyzeContract code) := by
      simp [composeLintSource, parseErrors, hmeter, scanSource, hparse, bind, Except.bind, pure, Except.pure]
    have hweaker : opts.lintOptions.refinements.Weaker ({} : LintOptions).refinements :=
      refinements_weaker (by simpa [ValidateOptions.lintOptions, isOn] using hhardened)
    refine ⟨_, ?_, composeLintSource_sublist hweaker hfound hlint⟩
    rw [lintAcornRules, lintSource_of_shallow hdepth, hfound]
  · have hrule := hrules (parseError e) (by simp [hfindings])
    exact absurd (by decide : Rule.unsupportedSyntax ∈ CONSENSUS_RULES) hrule

/-- The verdict is the engine's. -/
theorem validateSyntax_of_ok {result : GateResult} (hgate : runGate host code = .ok result) (hok : result.ok = true)
    {opts : ValidateOptions} (hhardened : isOn opts.enforceLintHardening = true) :
    validateSyntax host code opts = (checkV8Syntax host code opts.syntaxDepth).map fun refused =>
      refused.getD .valid := by
  obtain ⟨findings, hlint, hrules⟩ := findings_of_ok hgate hok
  obtain ⟨found, hfound, hsub⟩ := lintAcornRules_of_ok hlint hrules hhardened
  have hblocking : found.filter (isBlockingConsensusError opts) = [] :=
    List.filter_eq_nil_iff.mpr fun e he hb => hrules e (hsub.subset he) (consensus_of_blocking hb)
  have hdepth : preParseFinding host code opts.nestingDepth opts.syntaxDepth = none :=
    depthFinding_of_shallow (shallow_of_ok hlint hrules) _ _
  simp only [validateSyntax, hdepth]
  cases checkV8Syntax host code opts.syntaxDepth with
  | error e => rfl
  | ok refused =>
    cases refused with
    | some verdict => rfl
    | none => simp [hfound, hblocking, bind, Except.bind, pure, Except.pure, Except.map]

mutual

/-- The nodes from the leaves up. The name of a property is not visited. -/
def postorder (ancestors : List Tree) : Tree → List Visit
  | .node attributes children =>
    postorderOf attributes (.node attributes children :: ancestors) children ++ [⟨.node attributes children, ancestors⟩]

def postorderOf (parent : Attributes) (ancestors : List Tree) : List Tree → List Visit
  | [] => []
  | .node attributes children :: rest =>
    (if parent.type = .memberExpression ∧ !parent.computed ∧ attributes.field = .property then []
      else postorder ancestors (.node attributes children)) ++ postorderOf parent ancestors rest

end

def postorderWalk : Walk where
  simple t := (postorder [] t).map (·.node)
  ancestor := postorder []
  full t := (postorder [] t).map (·.node)

/-- A machine that knows one source, and takes any other text for an empty script. -/
def sampleHost (source : String) (labels : List Label) (tree : Tree) : Host where
  walk := postorderWalk
  tokens code := ((if code = source then labels else []) ++ [Label.eof]).map fun label => ⟨label, "", 1⟩
  parse code := .ok (if code = source then tree else .node { type := .program } [])
  meter _ _ := .ok ""
  codeSizeBytes code := code.utf8ByteSize
  analyzeContract _ := []
  compile _ := .ok
  checkContractMeta _ := []

/-- `Math.pow(2)` in so many parentheses. -/
def nestedSource (depth : ℕ) : String :=
  String.ofList (List.replicate depth '(' ++ "Math.pow(2)".toList ++ List.replicate depth ')')

def nestedLabels (depth : ℕ) : List Label :=
  List.replicate depth .parenL ++ [.name, .dot, .name, .parenL, .num, .parenR] ++ List.replicate depth .parenR

def powCall : Tree :=
  .node { type := .program }
    [.node { type := .other "ExpressionStatement", field := .body }
      [.node { type := .callExpression, field := .expression }
        [.node { type := .memberExpression, field := .callee }
          [.node { type := .identifier, field := .object, name := "Math" } [],
            .node { type := .identifier, field := .property, name := "pow" } []],
          .node { type := .literal, field := .other "arguments" } []]]]

/-- Without the depth rules the lint reports `Math.pow` in 65 parentheses; at full strength it reports the nesting,
and `Math.pow` no more. -/
theorem depth_hides_math :
    let code := nestedSource 65
    let tools := (sampleHost code (nestedLabels 65) powCall).toToolchain
    let shallow : LintOptions :=
      { enforceLintNestingDepth := some false, enforceLintSyntaxDepth := some false }
    ∃ e, lintSource tools code shallow = .ok [e] ∧ e.rule = .bannedMath ∧
      ∃ full, lintSource tools code {} = .ok full ∧ e ∉ full := by
  refine ⟨mathError ⟨"pow", 1, true⟩, ?_, rfl,
    [⟨.nestingDepth, "nesting depth exceeds limit (64) at line 1", some 1⟩], ?_, ?_⟩
  · decide +kernel
  · decide +kernel
  · decide

/-- What passes the gate is refused by the engine only, whatever the settings; a refinement keeps every finding; and
full strength keeps every finding of any setting, or reports that the source is too deep and nothing else. -/
theorem gate_forwardCompatible (host : Host) (code : String) :
    (∀ result, runGate host code = .ok result → result.ok = true →
      ∀ opts : ValidateOptions, isOn opts.enforceLintHardening = true →
        validateSyntax host code opts = (checkV8Syntax host code opts.syntaxDepth).map fun refused =>
          refused.getD .valid) ∧
    (∀ weak strong : LintOptions, weak.refinements.Weaker strong.refinements →
      weak.enforceLintNestingDepth = strong.enforceLintNestingDepth →
      weak.enforceLintSyntaxDepth = strong.enforceLintSyntaxDepth →
      ∀ found kept, lintSource host.toToolchain code weak = .ok found →
        lintSource host.toToolchain code strong = .ok kept → found.Sublist kept) ∧
    (∀ opts : LintOptions, isOn opts.hardened = true →
      ∀ found full, lintSource host.toToolchain code opts = .ok found →
        lintSource host.toToolchain code {} = .ok full →
          found.Sublist full ∨ ∃ finding, full = [finding] ∧ finding.rule = .nestingDepth) := by
  refine ⟨fun result hgate hok opts hhardened => validateSyntax_of_ok hgate hok hhardened, ?_, ?_⟩
  · intro weak strong hweaker hnesting hsyntax found kept hweak hstrong
    rw [lintSource_eq, hnesting, hsyntax] at hweak
    rw [lintSource_eq] at hstrong
    cases hdepth : depthFinding host.toToolchain code (isOn strong.enforceLintNestingDepth)
        (isOn strong.enforceLintSyntaxDepth) with
    | some finding =>
      rw [hdepth] at hweak hstrong
      obtain rfl := Except.ok.inj (hweak.symm.trans hstrong)
      exact List.Sublist.refl _
    | none =>
      rw [hdepth] at hweak hstrong
      exact composeLintSource_sublist hweaker hweak hstrong
  · intro opts hhardened found full hfound hfull
    rw [lintSource_eq, isOn_none] at hfull
    cases hdepth : depthFinding host.toToolchain code true true with
    | none =>
      rw [hdepth] at hfull
      rw [lintSource_of_shallow hdepth] at hfound
      exact .inl (composeLintSource_sublist (refinements_weaker hhardened) hfound hfull)
    | some finding =>
      rw [hdepth] at hfull
      cases hfull
      exact .inr ⟨finding, rfl, depthFinding_rule hdepth⟩

/-- `Math.max(2)`. -/
def maxCall : Tree :=
  .node { type := .program }
    [.node { type := .other "ExpressionStatement", field := .body }
      [.node { type := .callExpression, field := .expression }
        [.node { type := .memberExpression, field := .callee }
          [.node { type := .identifier, field := .object, name := "Math" } [],
            .node { type := .identifier, field := .property, name := "max" } []],
          .node { type := .literal, field := .other "arguments" } []]]]

/-- A script that passes, under two settings of the deploy check, and one that is reported. -/
theorem gate_forwardCompatible_math :
    let accepted := sampleHost "Math.max(2)" (nestedLabels 0) maxCall
    let reported := sampleHost "Math.pow(2)" (nestedLabels 0) powCall
    let early : ValidateOptions := { enforceBannedAsync := some false, enforceLintGlobalAlias := some false }
    let weak : LintOptions := { globalAlias := some false, destructure := some false }
    (validateSyntax accepted "Math.max(2)" {} = .ok .valid ∧ validateSyntax accepted "Math.max(2)" early = .ok .valid) ∧
      ∃ found kept, lintSource reported.toToolchain "Math.pow(2)" weak = .ok found ∧
        lintSource reported.toToolchain "Math.pow(2)" {} = .ok kept ∧ found ≠ [] ∧ found.Sublist kept ∧
        (found.Sublist kept ∨ ∃ finding, kept = [finding] ∧ finding.rule = .nestingDepth) := by
  intro accepted reported early weak
  have hgate : runGate accepted "Math.max(2)" = .ok ⟨[], []⟩ := by decide +kernel
  have hfound : lintSource reported.toToolchain "Math.pow(2)" weak = .ok [mathError ⟨"pow", 1, true⟩] := by
    decide +kernel
  have hkept : lintSource reported.toToolchain "Math.pow(2)" {} = .ok [mathError ⟨"pow", 1, true⟩] := by
    decide +kernel
  obtain ⟨hpass, -, -⟩ := gate_forwardCompatible accepted "Math.max(2)"
  obtain ⟨-, hkeep, hfull⟩ := gate_forwardCompatible reported "Math.pow(2)"
  have hweaker : weak.refinements.Weaker ({} : LintOptions).refinements := refinements_weaker rfl
  refine ⟨⟨hpass _ hgate rfl {} rfl, hpass _ hgate rfl early rfl⟩, _, _, hfound, hkept, ?_, ?_, ?_⟩
  · exact List.cons_ne_nil _ _
  · exact hkeep weak {} hweaker rfl rfl _ _ hfound hkept
  · exact hfull weak rfl _ _ hfound hkept

end XChainVM.Lint
