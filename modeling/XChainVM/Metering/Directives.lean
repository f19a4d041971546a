import XChainVM.Metering.StrictTransform

/-! # Directives of the source and of the metered code

Whether a string statement is a directive is a matter of the source text: in parentheses it is
none. The parser drops parentheses, the meter reads the prologue off the tree, and the printer
writes a string statement without them.
-/

namespace XChainVM.Metering

open Node

namespace Node

/-- In the text of a source a statement in parentheses is a sequence of one expression, which
the parser makes of nothing else. -/
def stripParens : Node → Node
  | node .expressionStatement [node .sequenceExpression [node .list [e]]] => node .expressionStatement [e]
  | n => n

def dropParens (text : Node) : Node := text.mapUp stripParens

def isParenthesised : Node → Bool
  | node .expressionStatement [node .sequenceExpression [node .list [node (.literal (.string _)) []]]] => true
  | _ => false

def isStringStatement (n : Node) : Bool := isDirective n || isParenthesised n

def elements : Node → List Node
  | node .list es => es
  | _ => []

def bodyStatements : Node → List Node
  | node .functionBody [statements] => statements.elements
  | _ => []

def statements : Node → List Node
  | node kind [body] => if kind = .program then body.elements else []
  | node kind [_, _, body] => if kind.isFunction then body.bodyStatements else []
  | _ => []

def paramCount : Node → Option ℕ
  | node kind [_] => if kind = .program then some 0 else none
  | node kind [_, params, _] => if kind.isFunction then some params.elements.length else none
  | _ => none

/-- None of the string statements that a script or function begins with is in parentheses. -/
def PlainPrologue (n : Node) : Prop :=
  ∀ statement ∈ n.statements.takeWhile isStringStatement, statement.isParenthesised = false

def PlainPrologues (n : Node) : Prop := ∀ m, Within m n → m.PlainPrologue

theorem kind_stripParens (n : Node) : n.stripParens.kind = n.kind := by
  unfold stripParens
  split <;> rfl

theorem dropParens_eq (kind : Kind) (fields : List Node) :
    (node kind fields).dropParens = (node kind (fields.map dropParens)).stripParens := by
  rw [dropParens, mapUp, mapUpList_eq]
  rfl

theorem kind_dropParens (n : Node) : n.dropParens.kind = n.kind := by
  obtain ⟨kind, fields⟩ := n
  rw [dropParens_eq, kind_stripParens]
  rfl

theorem dropParens_node {kind : Kind} (h : kind ≠ .expressionStatement) (fields : List Node) :
    (node kind fields).dropParens = node kind (fields.map dropParens) := by
  rw [dropParens_eq]
  unfold stripParens
  split
  · next heq => exact absurd (congrArg Node.kind heq) h
  · rfl

/-- What a node became tells what it was. -/
theorem of_dropParens {n : Node} {kind : Kind} {fields : List Node} (hkind : kind ≠ .expressionStatement)
    (h : n.dropParens = node kind fields) : ∃ before, n = node kind before ∧ fields = before.map dropParens := by
  obtain ⟨kind', before⟩ := n
  obtain rfl : kind' = kind := by
    have := kind_dropParens (node kind' before)
    rw [h] at this
    exact this.symm
  rw [dropParens_node hkind] at h
  cases h
  exact ⟨before, rfl, rfl⟩

theorem elements_dropParens (n : Node) : n.dropParens.elements = n.elements.map dropParens := by
  unfold elements
  split
  · next es h =>
    obtain ⟨before, rfl, rfl⟩ := of_dropParens (by simp) h
    rfl
  · next h =>
    split
    · next es => exact absurd (dropParens_node (by simp) es) (h _)
    · rfl

theorem bodyStatements_dropParens (n : Node) : n.dropParens.bodyStatements = n.bodyStatements.map dropParens := by
  unfold bodyStatements
  split
  · next body h =>
    obtain ⟨before, rfl, hbefore⟩ := of_dropParens (by simp) h
    obtain ⟨l, rfl, rfl⟩ := List.map_eq_singleton_iff.mp hbefore.symm
    exact elements_dropParens l
  · next h =>
    split
    · next l => exact absurd (dropParens_node (by simp) [l]) (h _)
    · rfl

theorem isDirective_iff {n : Node} :
    isDirective n = true ↔ ∃ text, n = node .expressionStatement [node (.literal (.string text)) []] := by
  constructor
  · intro h
    unfold isDirective at h
    split at h
    · exact ⟨_, rfl⟩
    · cases h
  · rintro ⟨text, rfl⟩
    rfl

theorem isParenthesised_iff {n : Node} :
    n.isParenthesised = true ↔ ∃ text, n =
      node .expressionStatement [node .sequenceExpression [list [node (.literal (.string text)) []]]] := by
  constructor
  · intro h
    unfold isParenthesised at h
    split at h
    · exact ⟨_, rfl⟩
    · cases h
  · rintro ⟨text, rfl⟩
    rfl

theorem literal_of_dropParens {n : Node} {value : LiteralValue} (h : n.dropParens = node (.literal value) []) :
    n = node (.literal value) [] := by
  obtain ⟨before, rfl, hbefore⟩ := of_dropParens (by simp) h
  rw [List.map_eq_nil_iff.mp hbefore.symm]

/-- A string statement becomes a directive. -/
theorem isDirective_dropParens (n : Node) : isDirective n.dropParens = n.isStringStatement := by
  rw [Bool.eq_iff_iff, isStringStatement, Bool.or_eq_true]
  constructor
  · rw [isDirective_iff]
    rintro ⟨text, h⟩
    obtain ⟨kind, fields⟩ := n
    rw [dropParens_eq] at h
    unfold stripParens at h
    split at h
    · next e heq =>
      obtain rfl : e = node (.literal (.string text)) [] := by simpa using h
      obtain ⟨rfl, hfields⟩ := Node.node.inj heq
      obtain ⟨sequence, rfl, hsequence⟩ := List.map_eq_singleton_iff.mp hfields
      obtain ⟨before, rfl, hbefore⟩ := of_dropParens (by simp) hsequence
      obtain ⟨expressions, rfl, hexpressions⟩ := List.map_eq_singleton_iff.mp hbefore.symm
      obtain ⟨inner, rfl, hinner⟩ := of_dropParens (by simp) hexpressions
      obtain ⟨literal, rfl, hliteral⟩ := List.map_eq_singleton_iff.mp hinner.symm
      rw [literal_of_dropParens hliteral]
      exact .inr rfl
    · obtain ⟨rfl, hfields⟩ := Node.node.inj h
      obtain ⟨literal, rfl, hliteral⟩ := List.map_eq_singleton_iff.mp hfields
      rw [literal_of_dropParens hliteral]
      exact .inl rfl
  · rintro (h | h)
    · obtain ⟨text, rfl⟩ := isDirective_iff.mp h
      rfl
    · obtain ⟨text, rfl⟩ := isParenthesised_iff.mp h
      rfl

theorem dropParens_of_isDirective {n : Node} (h : isDirective n = true) : n.dropParens = n := by
  obtain ⟨text, rfl⟩ := isDirective_iff.mp h
  rfl

theorem takeWhile_dropParens (body : List Node) :
    (body.map dropParens).takeWhile isDirective = (body.takeWhile isStringStatement).map dropParens := by
  rw [List.takeWhile_map]
  congr 2
  exact funext isDirective_dropParens

theorem length_directives (body : List Node) :
    (Outline.directives (body.map outline)).length = (body.takeWhile isDirective).length := by
  induction body with
  | nil => rfl
  | cons n rest ih =>
    rw [List.map_cons, Outline.directives, List.takeWhile_cons, isDirective_eq_outline]
    cases n.outline.directive with
    | none => rfl
    | some text => simpa using ih

/-- The directives are the string statements up to the first in parentheses. -/
theorem takeWhile_isDirective_starts (body : List Node) :
    body.takeWhile isDirective <+: body.takeWhile isStringStatement := by
  induction body with
  | nil => exact List.prefix_refl _
  | cons n rest ih =>
    rw [List.takeWhile_cons, List.takeWhile_cons, isStringStatement]
    cases isDirective n with
    | true => exact (List.cons_prefix_cons.mpr ⟨rfl, ih⟩)
    | false => exact List.nil_prefix

theorem length_directives_dropParens (body : List Node) :
    (Outline.directives (body.map outline)).length ≤
      (Outline.directives ((body.map dropParens).map outline)).length := by
  rw [length_directives, length_directives, takeWhile_dropParens, List.length_map]
  exact (takeWhile_isDirective_starts body).length_le

theorem takeWhile_eq_iff (body : List Node) :
    body.takeWhile isDirective = body.takeWhile isStringStatement ↔
      ∀ statement ∈ body.takeWhile isStringStatement, statement.isParenthesised = false := by
  constructor
  · intro h statement hstatement
    rw [← h] at hstatement
    obtain ⟨text, rfl⟩ := isDirective_iff.mp (List.mem_takeWhile_imp hstatement)
    rfl
  · intro h
    induction body with
    | nil => rfl
    | cons n rest ih =>
      rw [List.takeWhile_cons, List.takeWhile_cons]
      cases hstring : n.isStringStatement with
      | false =>
        rw [isStringStatement, Bool.or_eq_false_iff] at hstring
        rw [hstring.1]
        rfl
      | true =>
        rw [List.takeWhile_cons_of_pos hstring, List.forall_mem_cons] at h
        rw [isStringStatement, h.1, Bool.or_false] at hstring
        rw [hstring, ih h.2]

/-- The prologue stays, or gets longer by a statement in parentheses. -/
theorem directives_dropParens_iff (body : List Node) :
    Outline.directives ((body.map dropParens).map outline) = Outline.directives (body.map outline) ↔
      ∀ statement ∈ body.takeWhile isStringStatement, statement.isParenthesised = false := by
  rw [← takeWhile_eq_iff]
  constructor
  · intro h
    refine (takeWhile_isDirective_starts body).eq_of_length ?_
    rw [← length_directives, ← h, length_directives, takeWhile_dropParens, List.length_map]
  · intro h
    rw [directives_eq, directives_eq, takeWhile_dropParens, ← h]
    have hsame : (body.takeWhile isDirective).map dropParens = body.takeWhile isDirective :=
      (List.map_congr_left fun n hn => dropParens_of_isDirective (List.mem_takeWhile_imp hn)).trans (List.map_id _)
    rw [hsame]

/-- The scope analysis reads the same directives. -/
theorem directive_eq_names (n : Node) : n.outline.directive = n.names.directive := by
  cases h : isDirective n with
  | true =>
    obtain ⟨text, rfl⟩ := isDirective_iff.mp h
    rfl
  | false =>
    have houtline : n.outline.directive = none := by
      rwa [isDirective_eq_outline, Option.isSome_eq_false_iff, Option.isNone_iff_eq_none] at h
    have hnames : n.names.directive = none := by
      rwa [isDirective_eq, Option.isSome_eq_false_iff, Option.isNone_iff_eq_none] at h
    rw [houtline, hnames]

theorem useStrict_eq (body : List Node) :
    (Names.list (body.map names)).useStrict = (Outline.directives (body.map outline)).contains "use strict" := by
  show ((body.map names).takeWhile fun n => n.directive.isSome).any (fun n => n.directive = some "use strict") = _
  induction body with
  | nil => rfl
  | cons n rest ih =>
    rw [List.map_cons, List.map_cons, Outline.directives, directive_eq_names, List.takeWhile_cons]
    cases h : n.names.directive with
    | none => rfl
    | some text =>
      simp only [Option.isSome_some, if_true, List.any_cons, ih, h, List.contains_cons, Option.some.injEq]
      rw [BEq.comm, beq_eq_decide]

theorem outline_elements (n : Node) :
    n.outline.prologue = Outline.directives (n.elements.map outline) ∧ n.outline.length = n.elements.length := by
  obtain ⟨kind, fields⟩ := n
  rw [outline_node]
  unfold Outline.combine
  split
  case h_3 => exact ⟨rfl, List.length_map _⟩
  all_goals
    unfold elements
    split
    · simp_all
    · exact ⟨rfl, rfl⟩

theorem outline_bodyStatements (n : Node) :
    n.outline.bodyPrologue = Outline.directives (n.bodyStatements.map outline) := by
  unfold bodyStatements
  split
  · next body =>
    rw [outline_node]
    exact (outline_elements body).1
  · next h =>
    obtain ⟨kind, fields⟩ := n
    rw [outline_node]
    unfold Outline.combine
    split
    case h_4 heq =>
      obtain ⟨body, rfl, -⟩ := List.map_eq_singleton_iff.mp heq
      exact absurd rfl (h body)
    all_goals rfl

theorem asBody_useStrict {body : Node} (h : body.arity) :
    body.names.asBody.useStrict = body.outline.bodyPrologue.contains "use strict" := by
  by_cases hbody : body.kind = .functionBody
  · obtain ⟨kind, fields⟩ := body
    obtain rfl : kind = .functionBody := hbody
    obtain ⟨statements, rfl⟩ := h
    have hprologue : (node .functionBody [list statements]).outline.bodyPrologue =
        Outline.directives (statements.map outline) := outline_bodyStatements _
    rw [hprologue, ← useStrict_eq]
    simp only [names_node, List.map_cons, List.map_nil, Names.combine, Names.asBody, if_true]
  · have hnone : ∀ fields, body ≠ node .functionBody fields := by
      rintro fields rfl
      exact hbody rfl
    rw [asBody_of_kind hnone, bodyPrologue_of_ne_functionBody hbody]
    rfl

/-- Both say the same of strictness. -/
theorem isStrict_eq_strictWithin (strict : Bool) {kind : Kind} {fields : List Node} (h : (node kind fields).arity)
    (hfields : ∀ c ∈ fields, c.arity) :
    isStrict strict kind (fields.map outline) = strictWithin strict kind (fields.map names) := by
  cases kind with
  | program =>
    obtain ⟨body, rfl⟩ := h
    have hbody := useStrict_eq body
    simp only [isStrict, ownCode, strictWithin, List.map_cons, List.map_nil, names_node, outline_node,
      Names.combine, Outline.combine, hbody]
    simp
  | functionDeclaration | functionExpression =>
    obtain ⟨id, params, body, rfl, -⟩ := h
    have hbody := asBody_useStrict (hfields body (by simp))
    simp only [isStrict, ownCode, strictWithin, List.map_cons, List.map_nil, hbody, Kind.isFunction]
    simp
  | arrowFunctionExpression =>
    obtain ⟨params, body, rfl, -⟩ := h
    have hbody := asBody_useStrict (hfields body (by simp))
    simp only [isStrict, ownCode, strictWithin, List.map_cons, List.map_nil, hbody, Kind.isFunction]
    simp
  | classDeclaration | classExpression => simp [isStrict, strictWithin]
  | _ =>
    rw [isStrict, ownCode_eq_none (by simp) rfl]
    simp [strictWithin]

/-- The script and the functions are the nodes that have parameters. -/
theorem ownCode_eq (kind : Kind) (fields : List Node) :
    ownCode kind (fields.map outline) = (node kind fields).paramCount.map fun params =>
      (params, Outline.directives ((node kind fields).statements.map outline)) := by
  rcases fields with _ | ⟨first, _ | ⟨params, _ | ⟨body, _ | ⟨_, _⟩⟩⟩⟩
  case nil | cons.cons.nil | cons.cons.cons.cons => rfl
  · simp only [List.map_cons, List.map_nil, ownCode, paramCount, statements, (outline_elements first).1]
    split <;> rfl
  · simp only [List.map_cons, List.map_nil, ownCode, paramCount, statements, (outline_elements params).2,
      outline_bodyStatements]
    split <;> rfl

theorem paramCount_dropParens (kind : Kind) (fields : List Node) :
    (node kind (fields.map dropParens)).paramCount = (node kind fields).paramCount := by
  rcases fields with _ | ⟨first, _ | ⟨params, _ | ⟨body, _ | ⟨_, _⟩⟩⟩⟩
  case cons.cons.cons.nil => simp [paramCount, elements_dropParens]
  all_goals rfl

theorem statements_dropParens (kind : Kind) (fields : List Node) :
    (node kind (fields.map dropParens)).statements = (node kind fields).statements.map dropParens := by
  rcases fields with _ | ⟨first, _ | ⟨params, _ | ⟨body, _ | ⟨_, _⟩⟩⟩⟩
  case nil | cons.cons.nil | cons.cons.cons.cons => rfl
  · simp only [List.map_cons, List.map_nil, statements, elements_dropParens]
    split <;> rfl
  · simp only [List.map_cons, List.map_nil, statements, bodyStatements_dropParens]
    split <;> rfl

theorem units_stripParens (strict : Bool) (n : Node) : units strict n.stripParens = units strict n := by
  unfold stripParens
  split
  · next e =>
    rw [units_plain strict (rfl : Kind.isPlain .expressionStatement = true), units_plain strict (rfl : Kind.isPlain .expressionStatement = true),
      unitsList_cons, unitsList_cons, units_plain strict (rfl : Kind.isPlain .sequenceExpression = true)]
    simp
  · rfl

/-- The same code when no prologue hides a string in parentheses. -/
theorem units_dropParens (n : Node) (h : n.PlainPrologues) (strict : Bool) :
    units strict n.dropParens = units strict n := by
  induction n using Node.induct generalizing strict with
  | step kind fields ih =>
    rw [dropParens_eq, units_stripParens]
    cases hleaf : kind.isLeaf with
    | true => rw [units_leaf strict hleaf, units_leaf strict hleaf]
    | false =>
      have hown : ownCode kind ((fields.map dropParens).map outline) = ownCode kind (fields.map outline) := by
        rw [ownCode_eq, ownCode_eq, paramCount_dropParens, statements_dropParens,
          (directives_dropParens_iff _).mpr (h _ (.refl _))]
      have hfields (strict : Bool) : unitsList strict (fields.map dropParens) = unitsList strict fields := by
        have hbelow : ∀ c ∈ fields, units strict c.dropParens = units strict c := fun c hc =>
          ih c hc (fun m hm => h m (.field hleaf hc hm)) strict
        clear ih h hown
        induction fields with
        | nil => rfl
        | cons c rest ihrest =>
          rw [List.forall_mem_cons] at hbelow
          rw [List.map_cons, unitsList_cons, unitsList_cons, hbelow.1, ihrest hbelow.2]
      rw [units, units, hleaf]
      simp only [ownUnit, isStrict, hown, hfields]

def ownTotal (n : Node) : ℕ :=
  match n.paramCount with
  | some _ => (Outline.directives (n.statements.map outline)).length
  | none => 0

mutual

def directiveTotal : Node → ℕ
  | node kind fields => if kind.isLeaf then 0 else ownTotal (node kind fields) + directiveTotalList fields

def directiveTotalList : List Node → ℕ
  | [] => 0
  | n :: rest => directiveTotal n + directiveTotalList rest

end

theorem sum_ownUnit (strict : Bool) (kind : Kind) (fields : List Node) :
    ((ownUnit strict kind (fields.map outline)).map fun u => u.directives.length).sum = ownTotal (node kind fields) := by
  rw [ownUnit, ownCode_eq, ownTotal]
  cases (node kind fields).paramCount with
  | none => rfl
  | some params => simp

mutual

theorem sum_units (strict : Bool) : ∀ n : Node,
    ((units strict n).map fun u => u.directives.length).sum = directiveTotal n
  | node kind fields => by
    rw [units, directiveTotal]
    split
    · rfl
    · rw [List.map_append, List.sum_append, sum_ownUnit, sum_unitsList _ fields]

theorem sum_unitsList (strict : Bool) : ∀ ns : List Node,
    ((unitsList strict ns).map fun u => u.directives.length).sum = directiveTotalList ns
  | [] => rfl
  | n :: rest => by
    rw [unitsList_cons, List.map_append, List.sum_append, directiveTotalList, sum_units strict n,
      sum_unitsList strict rest]

end

theorem directiveTotal_stripParens (n : Node) : directiveTotal n.stripParens = directiveTotal n := by
  rw [← sum_units false, units_stripParens, sum_units]

theorem statements_of_paramCount {n : Node} (h : n.paramCount = none) : n.statements = [] := by
  unfold statements
  split
  · next kind body =>
    rw [paramCount] at h
    split at h
    · cases h
    · next hkind => exact if_neg hkind
  · next kind _ params body =>
    rw [paramCount] at h
    split at h
    · cases h
    · next hkind => exact if_neg hkind
  · rfl

theorem ownTotal_dropParens (kind : Kind) (fields : List Node) :
    ownTotal (node kind fields) ≤ ownTotal (node kind (fields.map dropParens)) ∧
      (ownTotal (node kind (fields.map dropParens)) = ownTotal (node kind fields) →
        (node kind fields).PlainPrologue) := by
  rw [ownTotal, ownTotal, paramCount_dropParens, statements_dropParens]
  cases hparams : (node kind fields).paramCount with
  | none =>
    refine ⟨le_rfl, fun _ => ?_⟩
    rw [PlainPrologue, statements_of_paramCount hparams]
    exact fun statement hstatement => by cases hstatement
  | some params =>
    refine ⟨length_directives_dropParens _, fun h => (takeWhile_eq_iff _).mp ?_⟩
    refine (takeWhile_isDirective_starts _).eq_of_length ?_
    simp only [length_directives, takeWhile_dropParens, List.length_map] at h
    exact h.symm

theorem directiveTotalList_dropParens {ns : List Node} (h : ∀ n ∈ ns,
    directiveTotal n ≤ directiveTotal n.dropParens ∧
      (directiveTotal n.dropParens = directiveTotal n → n.PlainPrologues)) :
    directiveTotalList ns ≤ directiveTotalList (ns.map dropParens) ∧
      (directiveTotalList (ns.map dropParens) = directiveTotalList ns → ∀ n ∈ ns, n.PlainPrologues) := by
  induction ns with
  | nil => exact ⟨le_rfl, fun _ n hn => by cases hn⟩
  | cons n rest ih =>
    obtain ⟨⟨hle, heq⟩, hrest⟩ := List.forall_mem_cons.mp h
    obtain ⟨hleRest, heqRest⟩ := ih hrest
    simp only [List.map_cons, directiveTotalList]
    refine ⟨Nat.add_le_add hle hleRest, fun hsum => ?_⟩
    rw [List.forall_mem_cons]
    exact ⟨heq (by omega), heqRest (by omega)⟩

/-- A string that loses its parentheses in a prologue is one directive more. -/
theorem directiveTotal_dropParens (n : Node) :
    directiveTotal n ≤ directiveTotal n.dropParens ∧
      (directiveTotal n.dropParens = directiveTotal n → n.PlainPrologues) := by
  induction n using Node.induct with
  | step kind fields ih =>
    rw [dropParens_eq, directiveTotal_stripParens, directiveTotal, directiveTotal]
    obtain ⟨hle, heq⟩ := ownTotal_dropParens kind fields
    obtain ⟨hleList, heqList⟩ := directiveTotalList_dropParens ih
    cases hleaf : kind.isLeaf with
    | true =>
      refine ⟨le_rfl, fun _ m hm => ?_⟩
      obtain rfl | ⟨h, -⟩ := hm
      · have hnone : (node kind fields).paramCount = none := by
          cases kind <;> first | cases hleaf; done | (rcases fields with _ | ⟨_, _ | ⟨_, _ | ⟨_, _ | ⟨_, _⟩⟩⟩⟩ <;> rfl)
        rw [PlainPrologue, statements_of_paramCount hnone]
        exact fun statement hstatement => by cases hstatement
      · rw [hleaf] at h
        cases h
    | false =>
      simp only [Bool.false_eq_true, if_false]
      refine ⟨Nat.add_le_add hle hleList, fun hsum m hm => ?_⟩
      obtain rfl | ⟨-, hm⟩ := hm
      · exact heq (by omega)
      · obtain ⟨c, hc, hm⟩ := withinList_iff.mp hm
        exact heqList (by omega) c hc m hm

end Node

/-- A source text that keeps its parentheses, with the script the parser builds of it. -/
structure Source where
  text : Node
  script : Script
  parsed : text.dropParens = script.root

theorem grows_meterCode (o : MeterOptions) (script : Script) : Grows script.root (meterCode o script.root) :=
  (grows_recur script.root script.shaped script.placed 0 false 0).trans (grows_instrument _ _)

/-- The script and its functions have the directives and the strictness that they have in the
source, and the thunks between them have no directives. -/
theorem strictness_kept_iff (o : MeterOptions) (source : Source) :
    Inserted (units false source.text) (units false (meterCode o source.script.root)) ↔
      source.text.PlainPrologues := by
  have hmetered := (grows_meterCode o source.script).units false
  rw [← source.parsed] at hmetered
  constructor
  · intro h
    refine (directiveTotal_dropParens source.text).2 ?_
    have hsource := h.sum_directives
    have hparsed := hmetered.sum_directives
    rw [← source.parsed, ← hparsed, sum_units, sum_units] at hsource
    exact hsource.symm
  · intro h
    rw [units_dropParens source.text h] at hmetered
    rwa [← source.parsed]

/-- `("use strict");` -/
def parenthesisedStrict : Node :=
  node .program [list [node .expressionStatement [node .sequenceExpression [list [astLiteral (.string "use strict")]]]]]

theorem within_parenthesisedStrict {n : Node} (h : Within n parenthesisedStrict.dropParens) :
    n = parenthesisedStrict.dropParens ∨
      n = list [node .expressionStatement [astLiteral (.string "use strict")]] ∨
      n = node .expressionStatement [astLiteral (.string "use strict")] ∨ n = astLiteral (.string "use strict") := by
  simpa [parenthesisedStrict, dropParens_node, dropParens_eq, stripParens, Within, WithinList, astLiteral,
    Kind.isLeaf] using h

def parenthesisedSource : Source where
  text := parenthesisedStrict
  script :=
    { root := parenthesisedStrict.dropParens
      shaped := by
        intro n hn
        obtain rfl | rfl | rfl | rfl := within_parenthesisedStrict hn
        all_goals simp [shape, parenthesisedStrict, dropParens_eq, stripParens, astLiteral, Kind.isLeaf, Node.kind]
      isProgram := rfl
      arity := by
        intro n hn
        obtain rfl | rfl | rfl | rfl := within_parenthesisedStrict hn
        all_goals simp [Node.arity, parenthesisedStrict, dropParens_eq, stripParens, astLiteral]
      placed := by
        intro n hn
        obtain rfl | rfl | rfl | rfl := within_parenthesisedStrict hn
        all_goals
          simp only [Node.placed, parenthesisedStrict, dropParens_eq, stripParens, astLiteral]
          try
            rintro (- | i) c hc
            all_goals simp at hc
        all_goals
          subst hc
          decide }
  parsed := rfl

theorem parenthesised_string_turns_strict :
    ¬ ∀ (o : MeterOptions) (source : Source),
      Inserted (units false source.text) (units false (meterCode o source.script.root)) := by
  intro h
  have hsum := (h ⟨true, true, true, true⟩ parenthesisedSource).sum_directives
  revert hsum
  decide

end XChainVM.Metering
