import XChainVM.Visits.ControlFlow

/-! # The metered script is charged

The first phase opens every loop body and every function body with a call of the meter. The
later phases map the tree from the leaves up and keep these calls where they stand, and the
depth guards put the body they guard behind its entry hook.
-/

namespace XChainVM.Metering

open Node

/-- `Opens` before there is any depth guard. -/
inductive Begins : Task → Prop
  | charge {n : Node} (h : isGasCall n) : Begins (.node n)
  | ordered {n : Node} {ns : List Node} (hparts : n.ordered = some ns) (h : Begins (.sequence ns)) :
      Begins (.node n)
  | malformed {n : Node} (hkind : n.kind = .blockStatement ∨ n.kind = .functionBody) (h : n.ordered = none) :
      Begins (.node n)
  | first {n : Node} {ns : List Node} (h : Begins (.node n)) : Begins (.sequence (n :: ns))
  | directive {n : Node} {ns : List Node} (hn : isDirective n) (h : Begins (.sequence ns)) :
      Begins (.sequence (n :: ns))

structure Entered (n : Node) : Prop where
  loop : ∀ head body, n.loop = some (head, body) → Begins (.node body)
  function : ∀ params body, n.function = some (params, body) → Begins (.node body)

theorem Begins.opens {t : Task} (h : Begins t) : Opens t := by
  induction h with
  | charge h => exact .charge h
  | ordered hparts _ ih => exact .ordered hparts ih
  | malformed hkind h => exact .malformed hkind h
  | first _ ih => exact .first ih
  | directive hn _ ih => exact .directive hn ih

def Kind.isEntered : Kind → Bool
  | whileStatement | doWhileStatement | forStatement | forInStatement | forOfStatement
  | functionDeclaration | functionExpression | arrowFunctionExpression => true
  | _ => false

theorem isEntered_of_loop {n : Node} {parts : List Node × Node} (h : n.loop = some parts) : n.kind.isEntered := by
  unfold Node.loop at h
  split at h <;> first | rfl | cases h

theorem isEntered_of_function {n : Node} {parts : Node × Node} (h : n.function = some parts) : n.kind.isEntered := by
  unfold Node.function at h
  split at h <;> first | rfl | cases h

theorem Entered.of_kind {n : Node} (h : n.kind.isEntered = false) : Entered n where
  loop := by
    intro head body hparts
    have := isEntered_of_loop hparts
    rw [h] at this
    cases this
  function := by
    intro params body hparts
    have := isEntered_of_function hparts
    rw [h] at this
    cases this

theorem every_entered {kind : Kind} {fields : List Node} (hkind : kind.isEntered = false)
    (h : ∀ n ∈ fields, Every Entered n) : Every Entered (node kind fields) :=
  .node (.of_kind hkind) h

theorem every_list {ns : List Node} : Every Entered (list ns) ↔ ∀ n ∈ ns, Every Entered n := by
  constructor
  · intro h n hn
    exact h.field hn
  · exact every_entered rfl

theorem every_astCall {name : String} {args : List Node} (h : ∀ n ∈ args, Every Entered n) :
    Every Entered (astCall name args) := by
  refine every_entered rfl ?_
  rw [List.forall_mem_cons, List.forall_mem_singleton, every_list]
  exact ⟨every_entered rfl (by simp), h⟩

theorem every_ident (name : String) : Every Entered (astIdent name) := every_entered rfl (by simp)

theorem every_literal (value : LiteralValue) : Every Entered (astLiteral value) := every_entered rfl (by simp)

theorem every_callStatement {name : String} {args : List Node} (h : ∀ n ∈ args, Every Entered n) :
    Every Entered (callStatement name args) :=
  every_entered rfl (by simpa using every_astCall h)

theorem every_gasCallExpr : Every Entered gasCallExpr := every_astCall (by simpa using every_literal _)

theorem every_gasCallStatement : Every Entered gasCallStatement :=
  every_entered rfl (by simpa using every_gasCallExpr)

theorem every_gasCheckStatement (name : String) : Every Entered (gasCheckStatement name) :=
  every_callStatement (by simp [every_literal, every_ident])

theorem every_wrapWithGas {e : Node} (h : Every Entered e) : Every Entered (wrapWithGas e) := by
  refine every_entered rfl ?_
  rw [List.forall_mem_singleton, every_list]
  simp [every_gasCallExpr, h]

theorem begins_gasCallStatement : Begins (.node gasCallStatement) := .ordered rfl (.first (.charge rfl))

theorem begins_wrapWithGas (e : Node) : Begins (.node (wrapWithGas e)) := .ordered rfl (.first (.charge rfl))

theorem insertGasAfterDirectives_cons (n : Node) (rest : List Node) : insertGasAfterDirectives (n :: rest) =
    if isDirective n then n :: insertGasAfterDirectives rest else gasCallStatement :: n :: rest := by
  cases hn : isDirective n <;> simp [insertGasAfterDirectives, hn]

theorem begins_insertGasAfterDirectives (body : List Node) : Begins (.sequence (insertGasAfterDirectives body)) := by
  induction body with
  | nil => exact .first begins_gasCallStatement
  | cons n rest ih =>
    rw [insertGasAfterDirectives_cons]
    split
    · next hn => exact .directive hn ih
    · exact .first begins_gasCallStatement

theorem mem_insertGasAfterDirectives {n : Node} {body : List Node} :
    n ∈ insertGasAfterDirectives body ↔ n = gasCallStatement ∨ n ∈ body := by
  conv_rhs => rw [← List.takeWhile_append_dropWhile (p := isDirective) (l := body)]
  simp only [insertGasAfterDirectives, List.mem_append, List.mem_cons]
  grind

theorem every_chargedBody {body : List Node} (h : Every Entered (list body)) :
    Every Entered (node .functionBody [list (insertGasAfterDirectives body)]) := by
  refine every_entered rfl ?_
  rw [List.forall_mem_singleton, every_list]
  intro n hn
  obtain rfl | hn := mem_insertGasAfterDirectives.mp hn
  · exact every_gasCallStatement
  · exact h.field hn

section

variable {n : Node} (h : Every Entered n)

include h

theorem every_unshift {statement : Node} (hs : Every Entered statement) : Every Entered (unshift statement n) := by
  unfold unshift
  split
  · refine every_entered rfl ?_
    rw [List.forall_mem_singleton, every_list, List.forall_mem_cons]
    exact ⟨hs, every_list.mp (h.field (List.mem_singleton_self _))⟩
  · exact h

theorem every_ensureBlock : Every Entered (ensureBlock n) := by
  unfold ensureBlock
  split
  · exact h
  · refine every_entered rfl ?_
    rw [List.forall_mem_singleton, every_list, List.forall_mem_singleton]
    exact h

theorem every_chargeLoopBody : Every Entered (chargeLoopBody n) := every_unshift (every_ensureBlock h) every_gasCallStatement

theorem every_chargeUpdate : Every Entered (chargeUpdate n) := by
  unfold chargeUpdate
  split
  · exact every_gasCallExpr
  · exact every_wrapWithGas h

theorem every_chargeAlternate : Every Entered (chargeAlternate n) := by
  unfold chargeAlternate
  split
  · exact h
  · exact every_chargeLoopBody h

theorem every_chargeFunctionEntry : Every Entered (chargeFunctionEntry n) := by
  unfold chargeFunctionEntry
  split
  · exact every_chargedBody (h.field (List.mem_singleton_self _))
  · exact h

theorem every_chargeArrow : Every Entered (chargeArrow n) := by
  unfold chargeArrow
  split
  · exact every_chargedBody (h.field (List.mem_singleton_self _))
  · exact every_wrapWithGas h

theorem every_chargeCall : Every Entered (chargeCall n) := by
  unfold chargeCall
  split
  · split
    · exact h
    · exact every_wrapWithGas h
  · exact h

end

theorem fields_of_ordered {kind : Kind} (hkind : kind = .blockStatement ∨ kind = .functionBody) {fields ns : List Node}
    (h : (node kind fields).ordered = some ns) : fields = [list ns] := by
  obtain rfl | rfl := hkind
  all_goals
    unfold Node.ordered at h
    split at h <;> simp_all

theorem ordered_block {kind : Kind} (hkind : kind = .blockStatement ∨ kind = .functionBody) {fields : List Node}
    (h : ∀ body, fields = [list body] → Begins (.sequence body)) : Begins (.node (node kind fields)) := by
  cases hparts : (node kind fields).ordered with
  | none => exact .malformed hkind hparts
  | some ns => exact .ordered hparts (h ns (fields_of_ordered hkind hparts))

theorem begins_unshift (fields : List Node) :
    Begins (.node (unshift gasCallStatement (node .blockStatement fields))) := by
  unfold unshift
  split
  · exact .ordered rfl (.first begins_gasCallStatement)
  · next hblock =>
    refine ordered_block (.inl rfl) ?_
    rintro stmts rfl
    exact absurd rfl (hblock stmts)

theorem begins_chargeLoopBody (body : Node) : Begins (.node (chargeLoopBody body)) := by
  unfold chargeLoopBody ensureBlock
  split
  · exact begins_unshift _
  · exact begins_unshift _

theorem begins_chargeFunctionEntry {body : Node} (hkind : (chargeFunctionEntry body).kind = .functionBody) :
    Begins (.node (chargeFunctionEntry body)) := by
  obtain ⟨kind, fields⟩ := body
  obtain rfl : kind = .functionBody := by
    unfold chargeFunctionEntry at hkind
    split at hkind
    · next heq =>
      cases heq
      rfl
    · exact hkind
  unfold chargeFunctionEntry
  split
  · exact .ordered rfl (begins_insertGasAfterDirectives _)
  · next hbody =>
    refine ordered_block (.inr rfl) ?_
    rintro stmts rfl
    exact absurd rfl (hbody stmts)

theorem begins_chargeArrow (body : Node) : Begins (.node (chargeArrow body)) := by
  unfold chargeArrow
  split
  · exact .ordered rfl (begins_insertGasAfterDirectives _)
  · exact begins_wrapWithGas _

theorem function_declared {kind : Kind} (hkind : kind = .functionDeclaration ∨ kind = .functionExpression)
    {id params body params' body' : Node} (h : (node kind [id, params, body]).function = some (params', body')) :
    body' = body ∧ body.kind = .functionBody := by
  obtain rfl | rfl := hkind
  all_goals
    unfold Node.function at h
    split at h
    case h_1 heq | h_2 heq =>
      cases heq <;> cases h <;> exact ⟨rfl, rfl⟩
    case h_3 heq => cases heq
    case h_4 => cases h

theorem every_block {body : List Node} (h : ∀ n ∈ body, Every Entered n) : Every Entered (block body) :=
  every_entered rfl (by simpa using every_list.mpr h)

theorem every_absent : Every Entered absent := every_entered rfl (by simp)

theorem every_letDeclaration {id init : Node} (hid : Every Entered id) (hinit : Every Entered init) :
    Every Entered (letDeclaration id init) := by
  refine every_entered rfl ?_
  rw [List.forall_mem_singleton, every_list, List.forall_mem_singleton]
  exact every_entered rfl (by simp [hid, hinit])

theorem every_armHandler (names : ArmedNames) {handler : Node} (h : Every Entered handler) :
    Every Entered (armHandler names handler) := by
  unfold armHandler
  split
  case h_4 => exact h
  all_goals
    have hbody := every_list.mp ((h.field (List.mem_cons_of_mem _ (List.mem_singleton_self _))).field
      (List.mem_singleton_self _))
    have hparam := h.field List.mem_cons_self
    refine every_entered rfl ?_
    rw [List.forall_mem_cons, List.forall_mem_singleton]
  case h_1 => exact ⟨hparam, every_block (List.forall_mem_cons.mpr ⟨every_gasCheckStatement _, hbody⟩)⟩
  case h_2 => exact ⟨every_ident _, every_block (List.forall_mem_cons.mpr ⟨every_gasCheckStatement _, hbody⟩)⟩
  case h_3 =>
    refine ⟨every_ident _, every_block ?_⟩
    rw [List.forall_mem_cons, List.forall_mem_cons]
    exact ⟨every_gasCheckStatement _, every_letDeclaration hparam (every_ident _), hbody⟩

theorem every_throw (name : String) : Every Entered (node .throwStatement [astIdent name]) :=
  every_entered rfl (by simpa using every_ident name)

theorem every_record (names : ArmedNames) : Every Entered (record names) := by
  refine every_entered rfl ?_
  rw [List.forall_mem_cons, List.forall_mem_singleton]
  refine ⟨every_ident _, every_block ?_⟩
  rw [List.forall_mem_cons, List.forall_mem_singleton]
  refine ⟨every_entered rfl ?_, every_throw _⟩
  rw [List.forall_mem_singleton]
  exact every_entered rfl (by simp [every_ident])

section

variable {fields : List Node} (h : ∀ n ∈ fields, Every Entered n)

include h

theorem every_chargeTry : Every Entered (chargeTry (node .tryStatement fields)) := by
  unfold chargeTry
  split
  · next body handler finalizer heq =>
    cases heq
    simp only [List.forall_mem_cons, List.not_mem_nil, false_implies, implies_true, and_true] at h
    refine every_entered rfl ?_
    simp only [List.forall_mem_cons, List.not_mem_nil, false_implies, implies_true, and_true]
    refine ⟨every_unshift h.1 every_gasCallStatement, ?_, every_unshift h.2.2 every_gasCallStatement⟩
    split
    · next param body =>
      refine every_entered rfl ?_
      rw [List.forall_mem_cons, List.forall_mem_singleton]
      exact ⟨h.2.1.field (by simp), every_unshift (h.2.1.field (by simp)) every_gasCallStatement⟩
    · exact h.2.1
  · exact every_entered rfl h

theorem every_armTryStatement (names : ArmedNames) :
    Every Entered (armTryStatement names (node .tryStatement fields)) := by
  unfold armTryStatement
  split
  case h_2 => exact every_entered rfl h
  case h_1 body handler finalizer heq =>
    cases heq
    simp only [List.forall_mem_cons, List.not_mem_nil, false_implies, implies_true, and_true] at h
    have hbody : Every Entered (unshift gasCallStatement body) := every_unshift h.1 every_gasCallStatement
    have hhandler : Every Entered (armHandler names handler) := every_armHandler names h.2.1
    split
    · exact every_entered rfl (by simp [hbody, hhandler, h.2.2])
    · have hguarded : Every Entered (if (armHandler names handler).kind = .absent then unshift gasCallStatement body
          else block [node .tryStatement [unshift gasCallStatement body, armHandler names handler, absent]]) := by
        split
        · exact hbody
        · refine every_block (List.forall_mem_singleton.mpr (every_entered rfl ?_))
          simp [hbody, hhandler, every_absent]
      have hfinalizer : Every Entered (unshift (gasCheckStatement names.flag) finalizer) :=
        every_unshift h.2.2 (every_gasCheckStatement _)
      refine every_block ?_
      rw [List.forall_mem_cons, List.forall_mem_singleton]
      refine ⟨every_letDeclaration (every_ident _) every_absent, every_entered rfl ?_⟩
      simp [hguarded, hfinalizer, every_record]

theorem every_chargeBlock (names : Option ArmedNames) {kind : Kind} :
    Every Entered (chargeBlock names (node kind fields)) := by
  generalize hn : node kind fields = n
  unfold chargeBlock
  split
  all_goals cases hn
  all_goals try simp only [List.forall_mem_cons, List.not_mem_nil, false_implies, implies_true, and_true] at h
  case h_1 | h_2 =>
    refine .node ⟨by rintro head body ⟨⟩, ?_⟩ (by simp [h, every_chargeFunctionEntry])
    intro params body hparts
    obtain ⟨rfl, hkind⟩ := function_declared (by simp) hparts
    exact begins_chargeFunctionEntry hkind
  case h_3 =>
    refine .node ⟨by rintro head body ⟨⟩, ?_⟩ (by simp [h, every_chargeArrow])
    rintro params body ⟨⟩
    exact begins_chargeArrow _
  case h_4 =>
    refine .node ⟨?_, by rintro params body ⟨⟩⟩ (by simp [h, every_chargeUpdate, every_chargeLoopBody])
    rintro head body ⟨⟩
    exact begins_chargeLoopBody _
  case h_5 | h_6 | h_7 | h_8 =>
    refine .node ⟨?_, by rintro params body ⟨⟩⟩ (by simp [h, every_chargeLoopBody])
    rintro head body ⟨⟩
    exact begins_chargeLoopBody _
  case h_9 =>
    refine every_entered rfl ?_
    simp [h, every_chargeAlternate, every_unshift (every_ensureBlock h.2.1) every_gasCallStatement]
  case h_10 consequent test =>
    refine every_entered rfl ?_
    rw [List.forall_mem_cons, List.forall_mem_singleton, every_list]
    refine ⟨?_, h.2⟩
    unfold chargeCase
    split
    · simp
    · exact List.forall_mem_cons.mpr ⟨every_gasCallStatement, every_list.mp h.1⟩
  case h_11 =>
    cases names with
    | none => exact every_chargeTry h
    | some names => exact every_armTryStatement h names
  case h_12 => exact every_entered rfl (by simp [h, every_wrapWithGas])
  case h_13 hdeclaration hexpression harrow hfor hwhile hdoWhile hforIn hforOf _ _ _ _ =>
    refine .node ⟨?_, ?_⟩ h
    · intro head body hparts
      unfold Node.loop at hparts
      split at hparts
      case h_1 heq => exact absurd heq (hwhile _ _)
      case h_2 heq => exact absurd heq (hdoWhile _ _)
      case h_3 heq => exact absurd heq (hfor _ _ _ _)
      case h_4 heq => exact absurd heq (hforIn _ _ _)
      case h_5 heq => exact absurd heq (hforOf _ _ _)
      case h_6 => cases hparts
    · intro params body hparts
      unfold Node.function at hparts
      split at hparts
      case h_1 heq => exact absurd heq (hdeclaration _ _ _)
      case h_2 heq => exact absurd heq (hexpression _ _ _)
      case h_3 heq => exact absurd heq (harrow _ _ _)
      case h_4 => cases hparts

end

theorem every_injectBlockGas (names : Option ArmedNames) (ast : Node) : Every Entered (injectBlockGas names ast) := by
  rw [injectBlockGas]
  induction ast using Node.induct with
  | step kind fields ih =>
    rw [mapUp, mapUpList_eq]
    refine every_chargeBlock ?_ names
    intro m hm
    obtain ⟨n, hn, rfl⟩ := List.mem_map.mp hm
    exact ih n hn

/-- The kinds of the nodes a charge stands in. A later phase changes at most the fields of such
a node. -/
def Kind.holdsCharge : Kind → Bool
  | list | identifier _ | literal _ | callExpression _ => true
  | kind => kind.isControl && !kind.isFunction

/-- The pass `f` keeps the kind of every node, and where it leaves the node in place it does
`g` to its fields, which changes calls only. -/
structure Passes (f g : Node → Node) : Prop where
  kind : ∀ n, (f n).kind = n.kind
  fields : ∀ kind fields, kind.holdsCharge → f (node kind fields) = node kind (fields.map g)
  same : ∀ n, (∀ optional, n.kind ≠ .callExpression optional) → g n = n
  kind_part : ∀ n, (g n).kind = n.kind ∨ (g n).kind = .sequenceExpression
  begins : ∀ n, Begins (.node n) → Begins (.node (g n))

theorem eq_directive {n : Node} (h : isDirective n) : ∃ s, n = node .expressionStatement [node (.literal (.string s)) []] := by
  unfold isDirective at h
  split at h
  · exact ⟨_, rfl⟩
  · cases h

namespace Task

def mapUp (f : Node → Node) : Task → Task
  | node n => node (n.mapUp f)
  | sequence ns => sequence (ns.map (Node.mapUp f))
  | t => t

end Task

theorem of_map {k : Node → Node} {kind kind' : Kind} {fields ms : List Node}
    (h : node kind (fields.map k) = node kind' ms) : kind = kind' ∧ fields.map k = ms :=
  Node.node.inj h

theorem eq_pair {k : Node → Node} {ns : List Node} {a b : Node} (h : ns.map k = [a, b]) :
    ∃ x y, ns = [x, y] ∧ k x = a ∧ k y = b := by
  simp only [List.map_eq_cons_iff, List.map_eq_nil_iff] at h
  obtain ⟨x, _, rfl, rfl, y, _, rfl, rfl, rfl⟩ := h
  exact ⟨x, y, rfl, rfl, rfl⟩

theorem eq_triple {k : Node → Node} {ns : List Node} {a b c : Node} (h : ns.map k = [a, b, c]) :
    ∃ x y z, ns = [x, y, z] ∧ k x = a ∧ k y = b ∧ k z = c := by
  obtain ⟨x, ms, rfl, rfl, hrest⟩ := List.map_eq_cons_iff.mp h
  obtain ⟨y, z, rfl, rfl, rfl⟩ := eq_pair hrest
  exact ⟨x, y, z, rfl, rfl, rfl, rfl⟩

theorem loop_map {k : Node → Node} {kind : Kind} {fields head : List Node} {body : Node}
    (h : (node kind (fields.map k)).loop = some (head, body)) :
    ∃ head' body', (node kind fields).loop = some (head', body') ∧ body = k body' := by
  unfold Node.loop at h
  split at h
  case h_1 heq =>
    obtain ⟨rfl, hfields⟩ := of_map heq
    obtain ⟨test, body, rfl, rfl, rfl⟩ := eq_pair hfields
    cases h
    exact ⟨_, _, rfl, rfl⟩
  case h_2 heq =>
    obtain ⟨rfl, hfields⟩ := of_map heq
    obtain ⟨body, test, rfl, rfl, rfl⟩ := eq_pair hfields
    cases h
    exact ⟨_, _, rfl, rfl⟩
  case h_3 heq =>
    obtain ⟨rfl, hfields⟩ := of_map heq
    obtain ⟨init, ms, rfl, rfl, hrest⟩ := List.map_eq_cons_iff.mp hfields
    obtain ⟨test, update, body, rfl, rfl, rfl, rfl⟩ := eq_triple hrest
    cases h
    exact ⟨_, _, rfl, rfl⟩
  case h_4 heq | h_5 heq =>
    obtain ⟨rfl, hfields⟩ := of_map heq
    obtain ⟨left, right, body, rfl, rfl, rfl, rfl⟩ := eq_triple hfields
    cases h
    exact ⟨_, _, rfl, rfl⟩
  case h_6 => cases h

theorem function_map {k : Node → Node} (hk : ∀ n, (k n).kind = .functionBody → n.kind = .functionBody) {kind : Kind}
    {fields : List Node} {params body : Node} (h : (node kind (fields.map k)).function = some (params, body)) :
    ∃ params' body', (node kind fields).function = some (params', body') ∧ body = k body' := by
  unfold Node.function at h
  split at h
  case h_1 stmts heq | h_2 stmts heq =>
    obtain ⟨rfl, hfields⟩ := of_map heq
    obtain ⟨id, params, ⟨kind, body⟩, rfl, rfl, rfl, hbody⟩ := eq_triple hfields
    obtain rfl : kind = .functionBody := hk (node kind body) (by rw [hbody]; rfl)
    cases h
    exact ⟨_, _, rfl, hbody.symm⟩
  case h_3 heq =>
    obtain ⟨rfl, hfields⟩ := of_map heq
    obtain ⟨id, params, body, rfl, rfl, rfl, rfl⟩ := eq_triple hfields
    cases h
    exact ⟨_, _, rfl, rfl⟩
  case h_4 => cases h

namespace Passes

variable {f g : Node → Node} (hf : Passes f g)

include hf

theorem kind_mapUp (n : Node) : (n.mapUp f).kind = n.kind := by
  obtain ⟨kind, fields⟩ := n
  rw [mapUp, hf.kind]
  rfl

theorem kind_of_part {n : Node} {kind : Kind} (hkind : kind ≠ .sequenceExpression) (h : (g (n.mapUp f)).kind = kind) :
    n.kind = kind := by
  obtain hpart | hpart := hf.kind_part (n.mapUp f)
  · rw [← hf.kind_mapUp, ← hpart, h]
  · exact absurd (h.symm.trans hpart) hkind

theorem mapUp_eq {kind : Kind} (hkind : kind.holdsCharge) (fields : List Node) :
    (node kind fields).mapUp f = node kind ((fields.map (mapUp f)).map g) := by
  rw [mapUp, mapUpList_eq, hf.fields kind _ hkind]

theorem mapUp_list (ns : List Node) : g ((list ns).mapUp f) = list ((ns.map (mapUp f)).map g) := by
  rw [hf.mapUp_eq rfl, hf.same]
  rintro optional ⟨⟩

theorem ordered_mapUp {n : Node} {ns : List Node} (hparts : n.ordered = some ns) :
    (n.mapUp f).ordered = some ((ns.map (mapUp f)).map g) := by
  unfold Node.ordered at hparts
  split at hparts <;> cases hparts
  all_goals
    rw [hf.mapUp_eq rfl]
    simp [Node.ordered, hf.mapUp_list]

theorem malformed_mapUp {n : Node} (hkind : n.kind = .blockStatement ∨ n.kind = .functionBody)
    (hparts : n.ordered = none) : (n.mapUp f).ordered = none := by
  obtain ⟨kind, fields⟩ := n
  have hholds : kind.holdsCharge := by
    obtain rfl | rfl := hkind <;> rfl
  have hlist : ∀ ms, (fields.map (Node.mapUp f)).map g ≠ [list ms] := by
    intro ms hfields
    obtain ⟨e, rfl⟩ : ∃ e, fields = [e] := List.length_eq_one_iff.mp (by simpa using congrArg List.length hfields)
    have he : (g (e.mapUp f)).kind = .list := by
      rw [List.map_singleton, List.map_singleton, List.singleton_inj] at hfields
      rw [hfields]
      rfl
    have he := hf.kind_of_part (by rintro ⟨⟩) he
    obtain ⟨es, rfl⟩ := eq_list he
    obtain rfl | rfl := hkind <;> cases hparts
  rw [hf.mapUp_eq hholds]
  refine Option.eq_none_iff_forall_ne_some.mpr ?_
  intro ms hordered
  exact hlist ms (fields_of_ordered hkind hordered)

theorem mapUp_directive {n : Node} (h : isDirective n) : n.mapUp f = n := by
  obtain ⟨s, rfl⟩ := eq_directive h
  rw [hf.mapUp_eq rfl, List.map_singleton, hf.mapUp_eq rfl, List.map_singleton, hf.same]
  · rfl
  · rintro optional ⟨⟩

theorem begins_sequence {ns : List Node} (h : Begins (.sequence ns)) : Begins (.sequence (ns.map g)) := by
  induction ns with
  | nil => cases h
  | cons n rest ih =>
    cases h with
    | first h => exact .first (hf.begins n h)
    | directive hn h =>
      obtain ⟨s, rfl⟩ := eq_directive hn
      rw [List.map_cons, hf.same]
      · exact .directive rfl (ih h)
      · rintro optional ⟨⟩

theorem isGasCall_mapUp {n : Node} (h : isGasCall n) : isGasCall (n.mapUp f) := by
  unfold isGasCall at h
  split at h
  · next optional callee args =>
    have hkind : (callee.mapUp f).kind = .identifier "__gas" := by
      rw [hf.kind_mapUp]
      exact of_decide_eq_true h
    rw [hf.mapUp_eq rfl, List.map_cons, List.map_cons, hf.same]
    · exact decide_eq_true hkind
    · intro optional hcall
      cases hkind.symm.trans hcall
  · cases h

/-- What begins with a charge still does. -/
theorem begins_mapUp {t : Task} (h : Begins t) : Begins (t.mapUp f) := by
  induction h with
  | charge h => exact .charge (hf.isGasCall_mapUp h)
  | ordered hparts _ ih => exact .ordered (hf.ordered_mapUp hparts) (hf.begins_sequence ih)
  | malformed hkind h => exact .malformed (by rwa [hf.kind_mapUp]) (hf.malformed_mapUp hkind h)
  | first _ ih => exact .first ih
  | directive hn _ ih =>
    rw [Task.mapUp, List.map_cons, hf.mapUp_directive hn]
    exact .directive hn ih

/-- The bodies of loops and functions still begin with a charge when the pass leaves these
nodes in place. -/
theorem every_mapUp (hplace : ∀ kind fields, kind.isEntered → f (node kind fields) = node kind (fields.map g))
    (hpart : ∀ n, Every Entered n → Every Entered (g n))
    (hother : ∀ kind fields, kind.isEntered = false → (∀ n ∈ fields, Every Entered n) →
      Every Entered (f (node kind fields)))
    {n : Node} (h : Every Entered n) : Every Entered (n.mapUp f) := by
  induction n using Node.induct with
  | step kind fields ih =>
    have hfields : ∀ n ∈ fields.map (Node.mapUp f), Every Entered n := by
      intro m hm
      obtain ⟨n, hn, rfl⟩ := List.mem_map.mp hm
      exact ih n hn (h.field hn)
    rw [mapUp, mapUpList_eq]
    cases hkind : kind.isEntered with
    | false => exact hother kind _ hkind hfields
    | true =>
      rw [hplace kind _ hkind, List.map_map]
      refine .node ⟨?_, ?_⟩ ?_
      · intro head body hparts
        obtain ⟨head', body', hsource, rfl⟩ := loop_map hparts
        exact hf.begins _ (hf.begins_mapUp (h.here.loop _ _ hsource))
      · intro params body hparts
        obtain ⟨params', body', hsource, rfl⟩ := function_map (fun n => hf.kind_of_part (by rintro ⟨⟩)) hparts
        exact hf.begins _ (hf.begins_mapUp (h.here.function _ _ hsource))
      · intro m hm
        obtain ⟨n, hn, rfl⟩ := List.mem_map.mp hm
        exact hpart _ (hfields _ (List.mem_map_of_mem hn))

end Passes

theorem every_charged_left {op : BinaryOperator} {left : Node} {right : List Node}
    (h : Every Entered (node (.binaryExpression op) (left :: right))) :
    Every Entered (node (.binaryExpression op) (wrapWithGas left :: right)) := by
  refine every_entered rfl (List.forall_mem_cons.mpr ⟨every_wrapWithGas (h.field List.mem_cons_self), ?_⟩)
  intro m hm
  exact h.field (List.mem_cons_of_mem _ hm)

theorem every_chargeLeft (depth : ℕ) {n : Node} (h : Every Entered n) : Every Entered (chargeLeft depth n) := by
  induction depth using Nat.strongRecOn generalizing n with
  | ind depth ih =>
    unfold chargeLeft
    split
    case h_1 rest op op' fields right =>
      have hleft := ih rest (by omega) (h.field List.mem_cons_self)
      refine every_entered rfl (List.forall_mem_cons.mpr ⟨hleft, ?_⟩)
      intro m hm
      exact h.field (List.mem_cons_of_mem _ hm)
    case h_2 => exact every_charged_left h
    case h_3 => exact h

theorem chargeBinary_of_kind {n : Node} (h : ∀ op, n.kind ≠ .binaryExpression op) : chargeBinary n = n := by
  obtain ⟨kind, fields⟩ := n
  have hdepth : binaryDepth (node kind fields) = 0 := by
    unfold binaryDepth
    split
    · next heq =>
      cases heq
      exact absurd rfl (h _)
    · rfl
  rw [chargeBinary, hdepth]
  rfl

theorem passes_chargeBinary : Passes chargeBinary id where
  kind := by
    intro n
    rw [chargeBinary]
    split
    · exact kind_chargeLeft 10 n
    · rfl
  fields := by
    intro kind fields hkind
    rw [List.map_id, chargeBinary_of_kind]
    rintro op ⟨⟩
    cases hkind
  same := fun _ _ => rfl
  kind_part := fun _ => .inl rfl
  begins := fun _ h => h

theorem every_chargeBinary {n : Node} (h : Every Entered n) : Every Entered (chargeBinary n) := by
  rw [chargeBinary]
  split
  · exact every_chargeLeft 10 h
  · exact h

theorem every_injectBinaryDepthGas {n : Node} (h : Every Entered n) : Every Entered (injectBinaryDepthGas n) := by
  refine passes_chargeBinary.every_mapUp ?_ (fun _ h => h) ?_ h
  · intro kind fields hkind
    rw [List.map_id, chargeBinary_of_kind]
    rintro op ⟨⟩
    cases hkind
  · intro kind fields hkind hfields
    exact every_chargeBinary (every_entered hkind hfields)

theorem chargeCall_of_kind {n : Node} (h : ∀ optional, n.kind ≠ .callExpression optional) : chargeCall n = n := by
  unfold chargeCall
  split
  · exact absurd rfl (h _)
  · rfl

theorem chargeCalls_eq {kind : Kind} (fields : List Node)
    (h : ∀ shorthand computed, kind ≠ .patternProperty shorthand computed) :
    chargeCalls (node kind fields) = node kind (fields.map chargeCall) := by
  unfold chargeCalls
  split
  · next heq =>
    cases heq
    exact absurd rfl (h _ _)
  · next heq =>
    cases heq
    rfl

theorem passes_chargeCalls : Passes chargeCalls chargeCall where
  kind := by
    intro n
    unfold chargeCalls
    split <;> rfl
  fields := by
    intro kind fields hkind
    apply chargeCalls_eq
    rintro shorthand computed rfl
    cases hkind
  same := fun _ h => chargeCall_of_kind h
  kind_part := by
    intro n
    unfold chargeCall
    split
    · split
      · exact .inl rfl
      · exact .inr rfl
    · exact .inl rfl
  begins := by
    intro n h
    unfold chargeCall
    split
    · split
      · exact h
      · exact begins_wrapWithGas _
    · exact h

theorem every_injectCallGas {n : Node} (h : Every Entered n) : Every Entered (injectCallGas n) := by
  refine passes_chargeCalls.every_mapUp ?_ (fun _ h => every_chargeCall h) ?_ h
  · intro kind fields hkind
    apply chargeCalls_eq
    rintro shorthand computed rfl
    cases hkind
  · intro kind fields hkind hfields
    unfold chargeCalls
    split
    · next heq =>
      cases heq
      exact every_entered hkind hfields
    · next heq =>
      cases heq
      refine every_entered hkind ?_
      intro m hm
      obtain ⟨n, hn, rfl⟩ := List.mem_map.mp hm
      exact every_chargeCall (hfields n hn)

theorem Entered.charged {n : Node} (h : Entered n) : Charged n where
  loop := fun head body hparts => (h.loop head body hparts).opens
  function := fun params body hparts => (h.function params body hparts).opens

theorem every_charged {n : Node} (h : Every Entered n) : Every Charged n := by
  induction h with
  | node h _ ih => exact .node h.charged ih

theorem every_plain {kind : Kind} {fields : List Node} (hkind : kind.isEntered = false)
    (h : ∀ n ∈ fields, Every Charged n) : Every Charged (node kind fields) :=
  .node (Entered.of_kind (n := node kind fields) hkind).charged h

theorem not_begins_directive {n : Node} (h : isDirective n) : ¬ Begins (.node n) := by
  obtain ⟨s, rfl⟩ := eq_directive h
  intro h
  cases h with
  | charge h => cases h
  | ordered hparts h =>
    cases hparts
    cases h with
    | first h =>
      cases h with
      | charge h => cases h
      | ordered hparts _ => cases hparts
      | malformed hkind _ => obtain h | h := hkind <;> cases h
    | directive hn _ => cases hn
  | malformed hkind _ => obtain h | h := hkind <;> cases h

/-- A body begins with a charge behind its directives. -/
theorem begins_dropWhile {body : List Node} (h : Begins (.sequence body)) :
    Begins (.sequence (body.dropWhile isDirective)) := by
  induction body with
  | nil => cases h
  | cons n rest ih =>
    cases h with
    | first h =>
      have hn : ¬ isDirective n := fun hn => not_begins_directive hn h
      rw [List.dropWhile_cons_of_neg hn]
      exact .first h
    | directive hn h =>
      rw [List.dropWhile_cons_of_pos hn]
      exact ih h

theorem begins_functionBody {body : List Node} (h : Begins (.node (node .functionBody [list body]))) :
    Begins (.sequence body) := by
  cases h with
  | charge h => cases h
  | ordered hparts h =>
    cases hparts
    exact h
  | malformed _ h => cases h

theorem opens_guard {directives rest : List Node} {enter guarded : Node}
    (hdirectives : ∀ n ∈ directives, isDirective n) (henter : enter.isDepthEnter) (h : Opens (.node guarded)) :
    Opens (.sequence (directives ++ enter :: guarded :: rest)) := by
  induction directives with
  | nil => exact .guard henter (.first h)
  | cons n directives ih =>
    obtain ⟨hn, hrest⟩ := List.forall_mem_cons.mp hdirectives
    exact .directive hn (ih hrest)

theorem isDirective_of_mem_takeWhile {n : Node} {body : List Node} (h : n ∈ body.takeWhile isDirective) :
    isDirective n := by
  induction body with
  | nil => cases h
  | cons m rest ih =>
    rw [List.takeWhile_cons] at h
    split at h
    · next hm =>
      obtain rfl | h := List.mem_cons.mp h
      · exact hm
      · exact ih h
    · cases h

theorem opens_wrapDepthGuard (armed : Option (ℕ × ArmedNames)) {body : Node} (h : Begins (.node body)) :
    Opens (.node (wrapDepthGuard armed body)) := by
  unfold wrapDepthGuard
  split
  · next stmts =>
    have hrest := (begins_dropWhile (begins_functionBody h)).opens
    have hdirectives : ∀ n ∈ stmts.takeWhile isDirective, isDirective n := fun n hn => isDirective_of_mem_takeWhile hn
    split
    · exact .ordered rfl (opens_guard hdirectives rfl (.attempt (.ordered rfl hrest)))
    · exact .ordered rfl (opens_guard hdirectives rfl (.attempt (.ordered rfl hrest)))
  · exact h.opens

theorem begins_blockArrow {body : Node} (h : Begins (.node body)) : Begins (.node (blockArrow body)) := by
  unfold blockArrow
  split
  · exact h
  · exact .ordered rfl (.first (.ordered rfl (.first h)))

theorem every_blockArrow {body : Node} (h : Every Charged body) : Every Charged (blockArrow body) := by
  unfold blockArrow
  split
  · exact h
  · refine every_plain rfl ?_
    rw [List.forall_mem_singleton]
    refine every_plain rfl ?_
    rw [List.forall_mem_singleton]
    exact every_plain rfl (by simpa using h)

theorem every_guard {directives : List Node} {enter guarded : Node} (hdirectives : ∀ n ∈ directives, Every Charged n)
    (henter : Every Charged enter) (h : Every Charged guarded) :
    Every Charged (node .functionBody [list (directives ++ [enter, guarded])]) := by
  refine every_plain rfl ?_
  rw [List.forall_mem_singleton]
  refine every_plain rfl ?_
  rw [List.forall_mem_append, List.forall_mem_cons, List.forall_mem_singleton]
  exact ⟨hdirectives, henter, h⟩

theorem every_chargedBlock {body : List Node} (h : ∀ n ∈ body, Every Charged n) : Every Charged (block body) := by
  refine every_plain rfl ?_
  rw [List.forall_mem_singleton]
  exact every_plain rfl h

theorem every_armedEnter (weight : ℕ) (token : String) : Every Charged (armedEnter weight token) := by
  refine every_charged (every_entered rfl ?_)
  rw [List.forall_mem_singleton, every_list, List.forall_mem_singleton]
  refine every_entered rfl ?_
  rw [List.forall_mem_cons, List.forall_mem_singleton]
  exact ⟨every_ident _, every_astCall (by simpa using every_literal _)⟩

theorem every_armedExit (token : String) : Every Charged (armedExit token) :=
  every_charged (every_callStatement (by simp [every_ident, every_literal]))

theorem every_guardedBody {rest : List Node} (h : ∀ n ∈ rest, Every Charged n) : Every Charged (guardedBody rest) := by
  refine every_plain rfl ?_
  rw [List.forall_mem_cons, List.forall_mem_cons, List.forall_mem_singleton]
  refine ⟨every_chargedBlock h, every_charged every_absent, every_chargedBlock ?_⟩
  rw [List.forall_mem_singleton]
  exact every_charged (every_callStatement (by simp))

theorem every_armedGuardedBody (names : ArmedNames) {rest : List Node} (h : ∀ n ∈ rest, Every Charged n) :
    Every Charged (armedGuardedBody names rest) := by
  refine every_plain rfl ?_
  rw [List.forall_mem_cons, List.forall_mem_cons, List.forall_mem_singleton]
  refine ⟨every_chargedBlock h, every_charged (every_entered rfl ?_), every_chargedBlock ?_⟩
  · rw [List.forall_mem_cons, List.forall_mem_singleton]
    refine ⟨every_ident _, every_block ?_⟩
    rw [List.forall_mem_cons, List.forall_mem_singleton]
    exact ⟨every_callStatement (by simpa using every_ident _), every_throw _⟩
  · rw [List.forall_mem_singleton]
    exact every_armedExit _

theorem every_wrapDepthGuard (armed : Option (ℕ × ArmedNames)) {body : Node} (h : Every Charged body) :
    Every Charged (wrapDepthGuard armed body) := by
  unfold wrapDepthGuard
  split
  · next stmts =>
    have hlist : Every Charged (list stmts) := h.field (List.mem_singleton_self _)
    have hdirectives : ∀ n ∈ stmts.takeWhile isDirective, Every Charged n := fun n hn =>
      hlist.field (List.takeWhile_prefix _ |>.subset hn)
    have hrest : ∀ n ∈ stmts.dropWhile isDirective, Every Charged n := fun n hn =>
      hlist.field (List.dropWhile_suffix _ |>.subset hn)
    split
    · exact every_guard hdirectives (every_charged (every_callStatement (by simp))) (every_guardedBody hrest)
    · exact every_guard hdirectives (every_armedEnter _ _) (every_armedGuardedBody _ hrest)
  · exact h

theorem kind_guardFunction (names : Option ArmedNames) (n : Node) : (guardFunction names n).kind = n.kind := by
  unfold guardFunction
  split <;> rfl

theorem guardFunction_of_kind (names : Option ArmedNames) {kind : Kind} (h : kind.isFunction = false)
    (fields : List Node) : guardFunction names (node kind fields) = node kind fields := by
  unfold guardFunction
  split
  case h_4 => rfl
  all_goals
    next heq =>
      cases heq
      cases h

theorem passes_guardFunction (names : Option ArmedNames) : Passes (guardFunction names) id where
  kind := kind_guardFunction names
  fields := by
    intro kind fields hkind
    rw [List.map_id, guardFunction_of_kind]
    cases kind <;> first | rfl | cases hkind
  same := fun _ _ => rfl
  kind_part := fun _ => .inl rfl
  begins := fun _ h => h

theorem kind_wrapDepthGuard (armed : Option (ℕ × ArmedNames)) (body : Node) :
    (wrapDepthGuard armed body).kind = body.kind := by
  unfold wrapDepthGuard
  split
  · split <;> rfl
  · rfl

theorem every_guardFunction (names : Option ArmedNames) {kind : Kind} {fields : List Node}
    (hloop : ∀ head body, (node kind fields).loop = some (head, body) → Begins (.node body))
    (hfunction : ∀ params body, (node kind fields).function = some (params, body) → Begins (.node body))
    (h : ∀ n ∈ fields, Every Charged n) : Every Charged (guardFunction names (node kind fields)) := by
  generalize hn : node kind fields = n
  unfold guardFunction
  split
  all_goals cases hn
  all_goals try simp only [List.forall_mem_cons, List.not_mem_nil, false_implies, implies_true, and_true] at h
  case h_1 id params body | h_2 id params body =>
    refine .node ⟨by rintro head body ⟨⟩, ?_⟩ (by simp [h, every_wrapDepthGuard])
    intro params' body' hparts
    obtain ⟨rfl, hkind⟩ := function_declared (by simp) hparts
    rw [kind_wrapDepthGuard] at hkind
    obtain ⟨kind, stmts⟩ := body
    obtain rfl : kind = .functionBody := hkind
    exact opens_wrapDepthGuard _ (hfunction _ _ rfl)
  case h_3 id params body =>
    refine .node ⟨by rintro head body ⟨⟩, ?_⟩ (by simp [h, every_wrapDepthGuard, every_blockArrow])
    rintro params body ⟨⟩
    exact opens_wrapDepthGuard _ (begins_blockArrow (hfunction _ _ rfl))
  case h_4 =>
    exact .node ⟨fun head body hparts => (hloop head body hparts).opens,
      fun params body hparts => (hfunction params body hparts).opens⟩ h

theorem every_injectDepthGuards (names : Option ArmedNames) {n : Node} (h : Every Entered n) :
    Every Charged (injectDepthGuards names n) := by
  rw [injectDepthGuards]
  have hf := passes_guardFunction names
  induction n using Node.induct with
  | step kind fields ih =>
    rw [mapUp, mapUpList_eq]
    apply every_guardFunction
    · intro head body hparts
      obtain ⟨head', body', hsource, rfl⟩ := loop_map hparts
      exact hf.begins_mapUp (h.here.loop _ _ hsource)
    · intro params body hparts
      obtain ⟨params', body', hsource, rfl⟩ := function_map (fun n hn => by rwa [hf.kind_mapUp] at hn) hparts
      exact hf.begins_mapUp (h.here.function _ _ hsource)
    · intro m hm
      obtain ⟨n, hn, rfl⟩ := List.mem_map.mp hm
      exact ih n hn (h.field hn)

theorem every_chargeTopLevelFrame (names : ArmedNames) {n : Node} (h : Every Charged n) :
    Every Charged (chargeTopLevelFrame names n) := by
  unfold chargeTopLevelFrame
  split
  · next body =>
    have hbody : ∀ n ∈ body, Every Charged n := fun n hn => (h.field (List.mem_singleton_self _)).field hn
    refine every_plain rfl ?_
    rw [List.forall_mem_singleton]
    refine every_plain rfl ?_
    rw [List.forall_mem_append, List.forall_mem_append, List.forall_mem_cons, List.forall_mem_singleton]
    refine ⟨⟨?_, every_armedEnter _ _, ?_⟩, every_armedExit _⟩
    · intro n hn
      exact hbody n (List.mem_of_mem_take hn)
    · intro n hn
      exact hbody n (List.mem_of_mem_drop hn)
  · exact h

theorem every_instrument (names : Option ArmedNames) (ast : Node) : Every Charged (instrument names ast) := by
  have h := every_injectDepthGuards names
    (every_injectCallGas (every_injectBinaryDepthGas (every_injectBlockGas names (chargeTopLevel ast))))
  unfold instrument
  cases names with
  | none => exact h
  | some names => exact every_chargeTopLevelFrame names h

/-- A run of a metered script visits at most as many nodes as the script has, for each call of
the meter and each call of a function that its guard or its parameters refuse, and once more:
no loop and no recursion goes on without being charged. -/
theorem metered_run_bounded (o : MeterOptions) (ast : Node) {w : Work}
    (h : Evaluates (meterCode o ast) (.node (meterCode o ast)) w) :
    w.visits ≤ (meterCode o ast).size * (w.charges + w.refusals + 1) :=
  h.visits_le (every_instrument _ _)

/-- `while (x) {}`. -/
def spin : Node := node .program [list [node .whileStatement [astIdent "x", block []]]]

def plainOptions : MeterOptions := ⟨false, false, false, false⟩

theorem ordered_meterCode_spin : (meterCode plainOptions spin).ordered =
    some [gasCallStatement, node .whileStatement [astIdent "x", block [gasCallStatement]]] := rfl

theorem evaluates_gasCallStatement (root : Node) : Evaluates root (.node gasCallStatement) ⟨2, 1, 0⟩ := by
  have hcall : Evaluates root (.node gasCallExpr) ((Work.visit gasCallExpr).plus .none) :=
    .plain rfl (.skip (.skip .done))
  have hsequence : Evaluates root (.sequence [gasCallExpr]) (((Work.visit gasCallExpr).plus .none).plus (.leave gasCallExpr)) :=
    .leave rfl hcall
  exact .ordered (n := gasCallStatement) rfl hsequence

theorem metered_run_bounded_spin : ∃ w : Work, w.visits ≤ (meterCode plainOptions spin).size * (w.charges + w.refusals + 1) ∧
    w.charges = 3 ∧ w.refusals = 0 := by
  have hblock (root : Node) : Evaluates root (.node (block [gasCallStatement])) ⟨3, 1, 0⟩ :=
    .ordered (n := block [gasCallStatement]) rfl (.leave rfl (evaluates_gasCallStatement root))
  have hloop (root : Node) : Evaluates root (.rounds [astIdent "x"] (block [gasCallStatement])) ⟨6, 2, 0⟩ :=
    .round (.skip .done) (hblock root) (.round (.skip .done) (hblock root) (.last (.skip .done)))
  have hwhile (root : Node) : Evaluates root (.node (node .whileStatement [astIdent "x", block [gasCallStatement]])) ⟨7, 2, 0⟩ :=
    .loop (n := node .whileStatement [astIdent "x", block [gasCallStatement]]) rfl (hloop root)
  have hrun : Evaluates (meterCode plainOptions spin) (.node (meterCode plainOptions spin)) ⟨10, 3, 0⟩ :=
    .ordered ordered_meterCode_spin (.next (evaluates_gasCallStatement _) (.leave rfl (hwhile _)))
  exact ⟨_, metered_run_bounded plainOptions spin hrun, rfl, rfl⟩

end XChainVM.Metering
