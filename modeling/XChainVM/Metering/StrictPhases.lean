import XChainVM.Metering.GuardScopes
import XChainVM.Metering.Strictness

/-! # The charges and the guards keep every prologue -/

namespace XChainVM.Metering

open Node

namespace Kind

def isPlain (kind : Kind) : Bool :=
  !kind.isLeaf && !kind.isFunction && kind ≠ .program && kind ≠ .classDeclaration && kind ≠ .classExpression

end Kind

section

variable (strict : Bool)

theorem units_leaf {kind : Kind} (h : kind.isLeaf = true) (fields : List Node) :
    units strict (node kind fields) = [] := by
  rw [units, if_pos h]

theorem ownCode_eq_none {kind : Kind} (hprogram : kind ≠ .program) (hfunction : kind.isFunction = false)
    (os : List Outline) : ownCode kind os = none := by
  unfold ownCode
  split
  · exact if_neg hprogram
  · rw [hfunction]
    rfl
  · rfl

theorem units_plain {kind : Kind} (h : kind.isPlain = true) (fields : List Node) :
    units strict (node kind fields) = unitsList strict fields := by
  simp only [Kind.isPlain, Bool.and_eq_true, Bool.not_eq_true', decide_eq_true_eq] at h
  obtain ⟨⟨⟨⟨hleaf, hfunction⟩, hprogram⟩, hdeclaration⟩, hexpression⟩ := h
  have hown := ownCode_eq_none hprogram hfunction (fields.map Node.outline)
  rw [units, hleaf]
  simp [ownUnit, isStrict, hown, hdeclaration, hexpression]

@[simp] theorem units_absent (fields : List Node) : units strict (node .absent fields) = [] := units_leaf strict rfl fields

theorem units_of_absent {n : Node} (h : n.kind = .absent) : units strict n = [] := by
  obtain ⟨kind, fields⟩ := n
  obtain rfl : kind = .absent := h
  exact units_absent strict fields

@[simp] theorem units_astIdent (name : String) : units strict (astIdent name) = [] := rfl

@[simp] theorem units_astLiteral (value : LiteralValue) : units strict (astLiteral value) = [] := rfl

@[simp] theorem units_list (elements : List Node) : units strict (list elements) = unitsList strict elements :=
  units_plain strict rfl elements

@[simp] theorem units_block (body : List Node) : units strict (block body) = unitsList strict body := by
  rw [units_plain strict rfl]
  simp

@[simp] theorem units_astCall (name : String) (args : List Node) :
    units strict (astCall name args) = unitsList strict args := by
  rw [astCall, units_plain strict rfl]
  simp

@[simp] theorem units_astArray (elements : List Node) :
    units strict (astArray elements) = unitsList strict elements := by
  rw [astArray, units_plain strict rfl]
  simp

@[simp] theorem units_callStatement (name : String) (args : List Node) :
    units strict (callStatement name args) = unitsList strict args := by
  rw [callStatement, units_plain strict rfl]
  simp

@[simp] theorem units_gasCallExpr : units strict gasCallExpr = [] := rfl

@[simp] theorem units_gasCallStatement : units strict gasCallStatement = [] := rfl

@[simp] theorem units_gasCheckStatement (name : String) : units strict (gasCheckStatement name) = [] := rfl

@[simp] theorem units_wrapWithGas (e : Node) : units strict (wrapWithGas e) = units strict e := by
  rw [wrapWithGas, units_plain strict rfl]
  simp

theorem units_unshift {statement : Node} (h : units strict statement = []) (n : Node) :
    units strict (unshift statement n) = units strict n := by
  unfold unshift
  split
  · simp [h]
  · rfl

@[simp] theorem units_unshift_gas (n : Node) : units strict (unshift gasCallStatement n) = units strict n :=
  units_unshift strict rfl n

@[simp] theorem units_unshift_check (name : String) (n : Node) :
    units strict (unshift (gasCheckStatement name) n) = units strict n :=
  units_unshift strict rfl n

@[simp] theorem units_ensureBlock (n : Node) : units strict (ensureBlock n) = units strict n := by
  unfold ensureBlock
  split
  · rfl
  · simp

theorem units_plain_congr {kind : Kind} (h : kind.isPlain = true) {fields fields' : List Node}
    (hfields : unitsList strict fields' = unitsList strict fields) :
    units strict (node kind fields') = units strict (node kind fields) := by
  rw [units_plain strict h, units_plain strict h, hfields]

end

theorem UnitsKept.of_eq {n m : Node} (h : ∀ strict, units strict m = units strict n) : UnitsKept n m :=
  fun strict => h strict ▸ Inserted.refl _

theorem Grows.of_eq {n m : Node} (houtline : m.outline = n.outline)
    (h : ∀ strict, Node.units strict m = Node.units strict n) : Grows n m :=
  ⟨houtline, .of_eq h⟩

/-- A function shows nothing, and takes its directives from its body. -/
theorem grows_function {kind : Kind} (hkind : kind.isFunction = true) {id params body body' : Node}
    (hprologue : body'.outline.bodyPrologue = body.outline.bodyPrologue) (hbody : UnitsKept body body') :
    Grows (node kind [id, params, body]) (node kind [id, params, body']) := by
  refine ⟨?_, unitsKept_node ?_ (.cons (.refl id) (.cons (.refl params) (.cons hbody .nil)))⟩
  · cases kind <;> first | rfl | cases hkind
  · cases kind <;> first | cases hkind; done | simp [ownCode, hprologue]

theorem text_eq_some {n : Node} {text : String} (h : n.outline.text = some text) :
    n = node (.literal (.string text)) [] := by
  obtain ⟨kind, fields⟩ := n
  rw [outline_node] at h
  unfold Outline.combine at h
  split at h
  all_goals try contradiction
  next heq =>
    cases h
    rw [List.map_eq_nil_iff.mp heq]

theorem isDirective_eq_outline (n : Node) : isDirective n = n.outline.directive.isSome := by
  rw [Bool.eq_iff_iff]
  constructor
  · intro h
    unfold isDirective at h
    split at h
    · rfl
    · contradiction
  · intro h
    obtain ⟨text, htext⟩ := Option.isSome_iff_exists.mp h
    obtain ⟨kind, fields⟩ := n
    rw [outline_node] at htext
    unfold Outline.combine at htext
    split at htext
    all_goals try contradiction
    next heq =>
      obtain ⟨e, rfl, rfl⟩ := List.map_eq_singleton_iff.mp heq
      rw [text_eq_some htext]
      rfl

/-- The prologue is that of the leading directives. -/
theorem directives_eq (ns : List Node) :
    Outline.directives (ns.map Node.outline) = (ns.takeWhile isDirective).filterMap (·.outline.directive) := by
  induction ns with
  | nil => rfl
  | cons n rest ih =>
    rw [List.map_cons, Outline.directives, List.takeWhile_cons, isDirective_eq_outline]
    cases h : n.outline.directive with
    | none => rfl
    | some text => simp [ih, h]

theorem directives_congr {ns ms : List Node} (h : ms.takeWhile isDirective = ns.takeWhile isDirective) :
    Outline.directives (ms.map Node.outline) = Outline.directives (ns.map Node.outline) := by
  rw [directives_eq, directives_eq, h]

/-- What follows the directives is not one. -/
theorem takeWhile_directives {body rest : List Node} {n : Node} (hn : isDirective n = false) :
    (body.takeWhile isDirective ++ n :: rest).takeWhile isDirective = body.takeWhile isDirective := by
  rw [List.takeWhile_append_of_pos fun m hm => List.mem_takeWhile_imp hm, List.takeWhile_cons, hn]
  simp

theorem units_insertGasAfterDirectives (strict : Bool) (body : List Node) :
    unitsList strict (insertGasAfterDirectives body) = unitsList strict body := by
  have hsplit := List.takeWhile_append_dropWhile (p := isDirective) (l := body)
  simp only [insertGasAfterDirectives, unitsList_append, unitsList_cons, units_gasCallStatement, List.nil_append]
  rw [← unitsList_append, hsplit]

theorem grows_functionBody {body body' : List Node} (h : body'.takeWhile isDirective = body.takeWhile isDirective)
    (hunits : ∀ strict, unitsList strict body' = unitsList strict body) :
    Grows (node .functionBody [list body]) (node .functionBody [list body']) := by
  refine .of_eq ?_ fun strict => ?_
  · simp only [outline_node, List.map_cons, List.map_nil, Outline.combine, directives_congr h]
  · exact units_plain_congr strict rfl (by simp [hunits])

theorem grows_chargeFunctionEntry (body : Node) : Grows body (chargeFunctionEntry body) := by
  unfold chargeFunctionEntry
  split
  · exact grows_functionBody (takeWhile_directives rfl) fun strict => units_insertGasAfterDirectives strict _
  · exact .refl _

/-- An arrow without braces has no prologue. -/
theorem bodyPrologue_eq_nil {body : Node} (h : ∀ statements, body ≠ node .functionBody [list statements]) :
    body.outline.bodyPrologue = [] := by
  obtain ⟨kind, fields⟩ := body
  rw [outline_node]
  unfold Outline.combine
  split
  all_goals try rfl
  next heq =>
    obtain ⟨statements, rfl, rfl⟩ := List.map_eq_singleton_iff.mp heq
    obtain ⟨kind, elements⟩ := statements
    rw [outline_node]
    unfold Outline.combine
    split
    all_goals try rfl
    exact absurd rfl (h elements)

theorem grows_arrow (id params body : Node) :
    Grows (node .arrowFunctionExpression [id, params, body])
      (node .arrowFunctionExpression [id, params, chargeArrow body]) := by
  unfold chargeArrow
  split
  · next statements =>
    have h := grows_chargeFunctionEntry (node .functionBody [list statements])
    exact grows_function rfl (congrArg _ h.outline) h.units
  · next hbody =>
    exact grows_function rfl (bodyPrologue_eq_nil fun _ => hbody _).symm (.of_eq fun strict => by simp)

section

variable (strict : Bool)

@[simp] theorem units_chargeLoopBody (body : Node) : units strict (chargeLoopBody body) = units strict body := by
  simp [chargeLoopBody]

@[simp] theorem units_chargeUpdate (update : Node) : units strict (chargeUpdate update) = units strict update := by
  unfold chargeUpdate
  split
  · next h => rw [units_of_absent strict h, units_gasCallExpr]
  · exact units_wrapWithGas strict update

@[simp] theorem units_chargeAlternate (alternate : Node) :
    units strict (chargeAlternate alternate) = units strict alternate := by
  unfold chargeAlternate
  split
  · rfl
  · simp

@[simp] theorem unitsList_chargeCase (consequent : List Node) :
    unitsList strict (chargeCase consequent) = unitsList strict consequent := by
  unfold chargeCase
  split
  · next h => rw [List.isEmpty_iff.mp h]
  · simp

@[simp] theorem units_letDeclaration (id init : Node) :
    units strict (letDeclaration id init) = units strict id ++ units strict init := by
  simp [letDeclaration, units_plain strict (rfl : Kind.isPlain (.variableDeclaration .let) = true),
    units_plain strict (rfl : Kind.isPlain .variableDeclarator = true)]

end

theorem units_try (strict : Bool) (fields : List Node) :
    units strict (node .tryStatement fields) = unitsList strict fields := units_plain strict rfl fields

theorem units_catch (strict : Bool) (fields : List Node) :
    units strict (node .catchClause fields) = unitsList strict fields := units_plain strict rfl fields

theorem units_chargeTry (strict : Bool) (n : Node) : units strict (chargeTry n) = units strict n := by
  unfold chargeTry
  split
  · next body handler finalizer =>
    rw [units_try, units_try]
    split
    · simp [units_catch]
    · simp
  · rfl

theorem units_armHandler (strict : Bool) (names : ArmedNames) (handler : Node) :
    units strict (armHandler names handler) = units strict handler := by
  unfold armHandler
  split
  · simp [units_catch]
  · simp [units_catch]
  · simp [units_catch]
  · rfl

theorem units_record (strict : Bool) (names : ArmedNames) : units strict (record names) = [] := rfl

theorem units_armTryStatement (strict : Bool) (names : ArmedNames) (n : Node) :
    units strict (armTryStatement names n) = units strict n := by
  unfold armTryStatement
  split
  · next body handler finalizer =>
    rw [units_try]
    simp only
    split
    · simp [units_try, units_armHandler]
    · simp only [units_block, unitsList_cons, units_letDeclaration, units_astIdent, units_absent, units_try,
        units_record, units_unshift_check, unitsList_nil, List.append_nil, List.nil_append]
      split
      · next habsent =>
        have h := units_armHandler strict names handler
        rw [units_of_absent strict habsent] at h
        simp [← h]
      · simp [units_try, units_armHandler]
  · rfl

theorem outline_chargeTry (n : Node) : (chargeTry n).outline = n.outline := by
  unfold chargeTry
  split <;> rfl

theorem outline_armTryStatement (names : ArmedNames) (n : Node) :
    (armTryStatement names n).outline = n.outline := by
  unfold armTryStatement
  split
  · simp only
    split <;> rfl
  · rfl

theorem grows_chargeBlock (armedNames : Option ArmedNames) (n : Node) : Grows n (chargeBlock armedNames n) := by
  unfold chargeBlock
  split
  case h_1 id params body | h_2 id params body =>
    have h := grows_chargeFunctionEntry body
    exact grows_function rfl (congrArg _ h.outline) h.units
  case h_3 => exact grows_arrow _ _ _
  case h_4 | h_5 | h_6 | h_7 | h_8 | h_9 | h_10 | h_12 =>
    exact .of_eq rfl fun strict => units_plain_congr strict rfl (by simp)
  case h_11 fields =>
    cases armedNames with
    | none => exact .of_eq (outline_chargeTry _) (units_chargeTry · _)
    | some names => exact .of_eq (outline_armTryStatement names _) (units_armTryStatement · names _)
  case h_13 => exact .refl _

theorem grows_wrapWithGas {e : Node} (h : e.outline = {}) : Grows e (wrapWithGas e) :=
  .of_eq h.symm fun strict => units_wrapWithGas strict e

theorem grows_chargeLeft (depth : ℕ) (n : Node) : Grows n (chargeLeft depth n) := by
  fun_induction chargeLeft depth n with
  | case1 depth op op' fields right ih => exact .node (.cons ih (List.forall₂_same.mpr fun n _ => .refl n))
  | case2 depth op left right => exact .of_eq rfl fun strict => units_plain_congr strict rfl (by simp)
  | case3 => exact .refl _

theorem grows_chargeBinary (n : Node) : Grows n (chargeBinary n) := by
  unfold chargeBinary
  split
  · exact grows_chargeLeft 10 n
  · exact .refl n

theorem grows_chargeCall (n : Node) : Grows n (chargeCall n) := by
  unfold chargeCall
  split
  · split
    · exact .refl _
    · exact grows_wrapWithGas rfl
  · exact .refl _

theorem grows_chargeCalls (n : Node) : Grows n (chargeCalls n) := by
  unfold chargeCalls
  split
  · exact .refl _
  · refine .node ?_
    rw [List.forall₂_map_right_iff]
    exact List.forall₂_same.mpr fun n _ => grows_chargeCall n

theorem units_guardedBody (strict : Bool) (rest : List Node) :
    units strict (guardedBody rest) = unitsList strict rest := by
  simp [guardedBody, units_try]

theorem units_armedGuardedBody (strict : Bool) (names : ArmedNames) (rest : List Node) :
    units strict (armedGuardedBody names rest) = unitsList strict rest := by
  simp [armedGuardedBody, units_try, units_catch, armedExit, units_plain strict (rfl : Kind.isPlain .throwStatement = true)]

theorem units_armedEnter (strict : Bool) (weight : ℕ) (token : String) :
    units strict (armedEnter weight token) = [] := rfl

theorem grows_wrapDepthGuard (armed : Option (ℕ × ArmedNames)) (body : Node) :
    Grows body (wrapDepthGuard armed body) := by
  unfold wrapDepthGuard
  split
  · next statements =>
    have hsplit (strict : Bool) : unitsList strict statements =
        unitsList strict (statements.takeWhile isDirective) ++ unitsList strict (statements.dropWhile isDirective) := by
      rw [← unitsList_append, List.takeWhile_append_dropWhile]
    cases armed with
    | none =>
      refine grows_functionBody (takeWhile_directives rfl) fun strict => ?_
      simp [units_guardedBody, hsplit]
    | some armed =>
      refine grows_functionBody (takeWhile_directives rfl) fun strict => ?_
      simp [units_armedEnter, units_armedGuardedBody, hsplit]
  · exact .refl _

theorem bodyPrologue_blockArrow (body : Node) :
    (blockArrow body).outline.bodyPrologue = body.outline.bodyPrologue := by
  unfold blockArrow
  split
  · rfl
  · next h => exact (bodyPrologue_eq_nil fun _ => h _).symm

theorem units_blockArrow (strict : Bool) (body : Node) : units strict (blockArrow body) = units strict body := by
  unfold blockArrow
  split
  · rfl
  · simp [units_plain strict (rfl : Kind.isPlain .functionBody = true), units_plain strict (rfl : Kind.isPlain .returnStatement = true)]

theorem grows_guardFunction (armedNames : Option ArmedNames) (n : Node) : Grows n (guardFunction armedNames n) := by
  unfold guardFunction
  split
  case h_1 id params body | h_2 id params body =>
    have h := fun armed => grows_wrapDepthGuard armed body
    exact grows_function rfl (congrArg _ (h _).outline) (h _).units
  case h_3 id params body =>
    have h := fun armed => grows_wrapDepthGuard armed (blockArrow body)
    refine grows_function rfl ?_ (.trans (.of_eq (units_blockArrow · body)) (h _).units)
    exact (congrArg _ (h _).outline).trans (bodyPrologue_blockArrow body)
  case h_4 => exact .refl _

theorem grows_program {body body' : List Node} (h : body'.takeWhile isDirective = body.takeWhile isDirective)
    (hunits : ∀ strict, unitsList strict body' = unitsList strict body) :
    Grows (node .program [list body]) (node .program [list body']) := by
  refine ⟨rfl, unitsKept_node ?_ (.cons (.of_eq fun strict => by simp [hunits]) .nil)⟩
  simp only [List.map_cons, List.map_nil, ownCode, outline_node, Outline.combine, directives_congr h]

theorem grows_chargeTopLevel (n : Node) : Grows n (chargeTopLevel n) := by
  unfold chargeTopLevel
  split
  · exact grows_program (takeWhile_directives rfl) fun strict => units_insertGasAfterDirectives strict _
  · exact .refl _

theorem grows_chargeTopLevelFrame (names : ArmedNames) (n : Node) : Grows n (chargeTopLevelFrame names n) := by
  unfold chargeTopLevelFrame
  split
  · next body =>
    refine grows_program ?_ fun strict => ?_
    · rw [List.append_assoc, List.cons_append]
      exact takeWhile_insert rfl
    · rw [unitsList_append, unitsList_append, unitsList_cons, units_armedEnter, List.nil_append, ← unitsList_append,
        List.take_append_drop]
      simp [armedExit]
  · exact .refl _

/-- The charges and guards change neither directives nor strictness. -/
theorem grows_instrument (armedNames : Option ArmedNames) (ast : Node) : Grows ast (instrument armedNames ast) := by
  have hguarded : Grows ast (injectDepthGuards armedNames (injectCallGas (injectBinaryDepthGas
      (injectBlockGas armedNames (chargeTopLevel ast))))) :=
    (grows_chargeTopLevel ast).trans <| (Grows.mapUp (grows_chargeBlock armedNames) _).trans <|
      (Grows.mapUp grows_chargeBinary _).trans <| (Grows.mapUp grows_chargeCalls _).trans <|
        Grows.mapUp (grows_guardFunction armedNames) _
  cases armedNames with
  | none => exact hguarded
  | some names => exact hguarded.trans (grows_chargeTopLevelFrame names _)

end XChainVM.Metering
