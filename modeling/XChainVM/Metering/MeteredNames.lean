import Mathlib
import XChainVM.Metering.Binding
import XChainVM.Metering.MeterCode

/-! # The identifiers of metered code

The transform adds calls of reserved names and its own fresh names, and no other
identifier: a reserved name only ever stands where it is called.
-/

namespace XChainVM.Metering

open Node

namespace Node

mutual

/-- Every identifier has the property, or is a reserved name where it is called. -/
def Uses (S : String → Prop) : Node → Prop
  | node (.identifier x) _ => S x
  | node (.callExpression _) (node (.identifier x) _ :: args) =>
    (S x ∨ x ∈ RESERVED_IDENTIFIERS) ∧ UsesList S args
  | node _ fields => UsesList S fields

def UsesList (S : String → Prop) : List Node → Prop
  | [] => True
  | n :: rest => Uses S n ∧ UsesList S rest

end

variable {S : String → Prop}

@[simp] theorem usesList_nil : UsesList S [] := trivial

@[simp] theorem usesList_cons (n : Node) (rest : List Node) :
    UsesList S (n :: rest) ↔ Uses S n ∧ UsesList S rest :=
  Iff.rfl

theorem usesList_iff {ns : List Node} : UsesList S ns ↔ ∀ n ∈ ns, Uses S n := by
  induction ns with
  | nil => simp
  | cons n rest ih => rw [usesList_cons, ih, List.forall_mem_cons]

@[simp] theorem usesList_append (ns ms : List Node) :
    UsesList S (ns ++ ms) ↔ UsesList S ns ∧ UsesList S ms := by
  simp only [usesList_iff, List.forall_mem_append]

theorem uses_of_fields {kind : Kind} {fields : List Node} (hkind : ∀ x, kind ≠ .identifier x)
    (h : UsesList S fields) : Uses S (node kind fields) := by
  cases kind
  case identifier x => exact absurd rfl (hkind x)
  case callExpression optional =>
    rcases fields with _ | ⟨⟨kind, callee⟩, args⟩
    · exact h
    · cases kind
      case identifier x => exact ⟨.inl h.1, h.2⟩
      all_goals exact h
  all_goals exact h

/-- A node whose fields are used alike is used alike, if an identifier that is called stays. -/
theorem uses_node_congr {kind : Kind} {fields fields' : List Node}
    (hcallee : ∀ x args rest, fields = node (.identifier x) args :: rest →
      ∃ args' rest', fields' = node (.identifier x) args' :: rest' ∧ (UsesList S rest → UsesList S rest'))
    (hfields : UsesList S fields → UsesList S fields') (h : Uses S (node kind fields)) :
    Uses S (node kind fields') := by
  cases kind
  case identifier x => exact h
  case callExpression optional =>
    rcases fields with _ | ⟨⟨kind, callee⟩, args⟩
    · exact uses_of_fields (by simp) (hfields trivial)
    · cases kind
      case identifier x =>
        obtain ⟨callee', args', rfl, hargs⟩ := hcallee x callee args rfl
        exact ⟨h.1, hargs h.2⟩
      all_goals exact uses_of_fields (by simp) (hfields h)
  all_goals exact hfields h

/-- What follows the first field of a node. -/
theorem uses_rest {kind : Kind} {first : Node} {rest : List Node} (hkind : ∀ x, kind ≠ .identifier x)
    (h : Uses S (node kind (first :: rest))) : UsesList S rest := by
  cases kind
  case identifier x => exact absurd rfl (hkind x)
  case callExpression optional =>
    obtain ⟨kind, callee⟩ := first
    cases kind <;> exact h.2
  all_goals exact h.2

theorem uses_mapUp {f : Node → Node}
    (hident : ∀ x fields, ∃ fields', f (node (.identifier x) fields) = node (.identifier x) fields')
    (hf : ∀ n, Uses S n → Uses S (f n)) {n : Node} (h : Uses S n) : Uses S (n.mapUp f) := by
  induction n using Node.induct with
  | step kind fields ih =>
    rw [mapUp, mapUpList_eq]
    refine hf _ (uses_node_congr ?_ ?_ h)
    · rintro x args rest rfl
      obtain ⟨args', hargs'⟩ := hident x (args.map (mapUp f))
      refine ⟨args', rest.map (mapUp f), ?_, ?_⟩
      · rw [List.map_cons, mapUp, mapUpList_eq, hargs']
      · simp only [usesList_iff, List.forall_mem_map]
        exact fun hs n hn => ih n (List.mem_cons_of_mem _ hn) (hs n hn)
    · simp only [usesList_iff, List.forall_mem_map]
      exact fun hs n hn => ih n hn (hs n hn)

end Node

variable {S : String → Prop}

@[simp] theorem uses_gasCallExpr : Uses S gasCallExpr := by
  simp [gasCallExpr, astCall, astLiteral, astIdent, Uses, RESERVED_IDENTIFIERS]

@[simp] theorem uses_gasCallStatement : Uses S gasCallStatement := ⟨uses_gasCallExpr, trivial⟩

@[simp] theorem uses_gasCheckStatement {x : String} : Uses S (gasCheckStatement x) ↔ S x := by
  simp [gasCheckStatement, callStatement, astCall, astLiteral, astIdent, Uses, RESERVED_IDENTIFIERS]

@[simp] theorem uses_wrapWithGas {e : Node} : Uses S (wrapWithGas e) ↔ Uses S e := by
  simp [wrapWithGas, Uses]

@[simp] theorem uses_block {body : List Node} : Uses S (block body) ↔ UsesList S body := by
  simp [Uses]

theorem uses_unshift {statement n : Node} (hs : Uses S statement) (h : Uses S n) : Uses S (unshift statement n) := by
  unfold unshift
  split
  · simp [Uses] at h
    simp [hs, h]
  · exact h

theorem uses_ensureBlock {n : Node} (h : Uses S n) : Uses S (ensureBlock n) := by
  unfold ensureBlock
  split
  · exact h
  · simpa using h

theorem uses_insertGasAfterDirectives {body : List Node} (h : UsesList S body) :
    UsesList S (insertGasAfterDirectives body) := by
  rw [← List.takeWhile_append_dropWhile (p := isDirective) (l := body), usesList_append] at h
  simp [insertGasAfterDirectives, h]

theorem uses_chargeFunctionEntry {body : Node} (h : Uses S body) : Uses S (chargeFunctionEntry body) := by
  unfold chargeFunctionEntry
  split
  · simp [Uses] at h
    simpa [Uses] using uses_insertGasAfterDirectives h
  · exact h

theorem uses_chargeArrow {body : Node} (h : Uses S body) : Uses S (chargeArrow body) := by
  unfold chargeArrow
  split
  · simp [Uses] at h
    simpa [Uses] using uses_insertGasAfterDirectives h
  · simpa using h

theorem uses_chargeLoopBody {body : Node} (h : Uses S body) : Uses S (chargeLoopBody body) :=
  uses_unshift uses_gasCallStatement (uses_ensureBlock h)

theorem uses_chargeUpdate {update : Node} (h : Uses S update) : Uses S (chargeUpdate update) := by
  unfold chargeUpdate
  split
  · exact uses_gasCallExpr
  · simpa using h

theorem uses_chargeAlternate {alternate : Node} (h : Uses S alternate) : Uses S (chargeAlternate alternate) := by
  unfold chargeAlternate
  split
  · exact h
  · exact uses_chargeLoopBody h

theorem uses_chargeCase {consequent : List Node} (h : UsesList S consequent) :
    UsesList S (chargeCase consequent) := by
  unfold chargeCase
  split
  · trivial
  · exact ⟨uses_gasCallStatement, h⟩

theorem uses_armHandler {names : ArmedNames} (hcaught : S names.caught) {handler : Node}
    (h : Uses S handler) : Uses S (armHandler names handler) := by
  unfold armHandler
  split
  · simp only [Uses, UsesList, uses_gasCheckStatement, and_true] at h ⊢
    exact ⟨h.1, h.1, h.2⟩
  · simp only [Uses, UsesList, uses_gasCheckStatement, astIdent, and_true] at h ⊢
    exact ⟨hcaught, hcaught, h.2⟩
  · simp only [Uses, UsesList, uses_gasCheckStatement, letDeclaration, astIdent,
      and_true] at h ⊢
    exact ⟨hcaught, hcaught, ⟨h.1, hcaught⟩, h.2⟩
  · exact h

theorem uses_armTryStatement {names : ArmedNames} (hcaught : S names.caught) (hflag : S names.flag) {n : Node}
    (h : Uses S n) : Uses S (armTryStatement names n) := by
  unfold armTryStatement
  split
  · rename_i body handler finalizer
    simp only [Uses, UsesList, and_true] at h
    have hBody : Uses S (unshift gasCallStatement body) := uses_unshift uses_gasCallStatement h.1
    have hHandler := uses_armHandler hcaught h.2.1
    have hRecord : Uses S (record names) := by
      simp [record, astIdent, Uses, hcaught, hflag]
    have hFinalizer := uses_unshift (uses_gasCheckStatement.mpr hflag) h.2.2
    have hFlag : Uses S (letDeclaration (astIdent names.flag) absent) := by
      simp [letDeclaration, astIdent, Uses, hflag]
    by_cases hfinally : finalizer.kind = .absent
    · simp only [hfinally, if_true, Uses, UsesList, and_true]
      exact ⟨hBody, hHandler, h.2.2⟩
    · simp only [hfinally, if_false, uses_block, usesList_cons, usesList_nil, and_true]
      refine ⟨hFlag, ?_⟩
      simp only [Uses, UsesList, and_true]
      refine ⟨?_, hRecord, hFinalizer⟩
      split
      · exact hBody
      · simp [Uses, hBody, hHandler]
  · exact h

theorem uses_chargeTry {n : Node} (h : Uses S n) : Uses S (chargeTry n) := by
  unfold chargeTry
  split
  · simp only [Uses, UsesList, and_true] at h ⊢
    refine ⟨uses_unshift uses_gasCallStatement h.1, ?_, uses_unshift uses_gasCallStatement h.2.2⟩
    split
    · simp only [Uses, UsesList, and_true] at h ⊢
      exact ⟨h.2.1.1, uses_unshift uses_gasCallStatement h.2.1.2⟩
    · exact h.2.1
  · exact h

theorem uses_chargeBlock {names : Option ArmedNames} (hnames : ∀ n ∈ names, S n.caught ∧ S n.flag) {n : Node}
    (h : Uses S n) : Uses S (chargeBlock names n) := by
  unfold chargeBlock
  split
  all_goals try exact h
  all_goals simp only [Uses, UsesList, and_true] at h ⊢
  case h_1 | h_2 => exact ⟨h.1, h.2.1, uses_chargeFunctionEntry h.2.2⟩
  case h_3 => exact ⟨h.1, h.2.1, uses_chargeArrow h.2.2⟩
  case h_4 => exact ⟨h.1, h.2.1, uses_chargeUpdate h.2.2.1, uses_chargeLoopBody h.2.2.2⟩
  case h_5 => exact ⟨h.1, uses_chargeLoopBody h.2⟩
  case h_6 => exact ⟨uses_chargeLoopBody h.1, h.2⟩
  case h_7 | h_8 => exact ⟨h.1, h.2.1, uses_chargeLoopBody h.2.2⟩
  case h_9 => exact ⟨h.1, uses_chargeLoopBody h.2.1, uses_chargeAlternate h.2.2⟩
  case h_10 => exact ⟨uses_chargeCase h.1, h.2⟩
  case h_11 fields =>
    have hTry : Uses S (node .tryStatement fields) := uses_of_fields (by simp) h
    cases names with
    | none => exact uses_chargeTry hTry
    | some names => exact uses_armTryStatement (hnames names rfl).1 (hnames names rfl).2 hTry
  case h_12 => exact ⟨uses_wrapWithGas.mpr h.1, h.2⟩

theorem uses_chargeLeft {depth : ℕ} {n : Node} (h : Uses S n) : Uses S (chargeLeft depth n) := by
  fun_induction chargeLeft depth n with
  | case1 depth op op' fields right ih =>
    simp only [Uses, UsesList] at h ⊢
    exact ⟨by simpa [Uses] using ih (by simpa [Uses] using h.1), h.2⟩
  | case2 depth op left right =>
    simp only [Uses, UsesList] at h ⊢
    exact ⟨uses_wrapWithGas.mpr h.1, h.2⟩
  | case3 => exact h

theorem uses_chargeBinary {n : Node} (h : Uses S n) : Uses S (chargeBinary n) := by
  unfold chargeBinary
  split
  · exact uses_chargeLeft h
  · exact h

theorem uses_chargeCall {n : Node} (h : Uses S n) : Uses S (chargeCall n) := by
  unfold chargeCall
  split
  · split
    · exact h
    · exact uses_wrapWithGas.mpr h
  · exact h

theorem uses_chargeCalls {n : Node} (h : Uses S n) : Uses S (chargeCalls n) := by
  unfold chargeCalls
  split
  · exact h
  · refine uses_node_congr ?_ ?_ h
    · rintro x args rest rfl
      refine ⟨args, rest.map chargeCall, rfl, ?_⟩
      simp only [usesList_iff, List.forall_mem_map]
      exact fun hs n hn => uses_chargeCall (hs n hn)
    · simp only [usesList_iff, List.forall_mem_map]
      exact fun hs n hn => uses_chargeCall (hs n hn)

theorem uses_depthHook {name : String} (hname : name ∈ DEPTH_HELPERS) {args : List Node} (h : UsesList S args) :
    Uses S (astCall name args) := by
  have hReserved : name ∈ RESERVED_IDENTIFIERS := by
    simp only [DEPTH_HELPERS, List.mem_cons, List.not_mem_nil, or_false] at hname
    obtain rfl | rfl := hname <;> decide
  simp [astCall, astIdent, Uses, hReserved, h]

theorem uses_armedEnter {weight : ℕ} {token : String} (h : S token) : Uses S (armedEnter weight token) := by
  have hCall : Uses S (astCall "__depth_enter" [astLiteral (.number weight)]) :=
    uses_depthHook (by decide) (by simp [astLiteral, Uses])
  simp [armedEnter, astIdent, Uses, h, hCall]

theorem uses_armedExit {token : String} (h : S token) : Uses S (armedExit token) := by
  have hCall : Uses S (astCall "__depth_exit" [astIdent token, astLiteral (.number 0)]) :=
    uses_depthHook (by decide) (by simp [astIdent, astLiteral, Uses, h])
  simp [armedExit, callStatement, Uses, hCall]

theorem uses_wrapDepthGuard {armed : Option (ℕ × ArmedNames)}
    (harmed : ∀ a ∈ armed, S a.2.caught ∧ S a.2.token) {body : Node} (h : Uses S body) :
    Uses S (wrapDepthGuard armed body) := by
  unfold wrapDepthGuard
  split
  · rename_i body
    simp only [Uses, UsesList, and_true] at h
    rw [← List.takeWhile_append_dropWhile (p := isDirective) (l := body), usesList_append] at h
    have hEnter : Uses S (astCall "__depth_enter" []) := uses_depthHook (by decide) usesList_nil
    have hExit : Uses S (astCall "__depth_exit" []) := uses_depthHook (by decide) usesList_nil
    cases armed with
    | none => simp [callStatement, guardedBody, Uses, h, hEnter, hExit]
    | some armed =>
      obtain ⟨hcaught, htoken⟩ := harmed armed rfl
      have hExitCheck : Uses S (astCall "__depth_exit" [astIdent armed.2.caught]) :=
        uses_depthHook (by decide) (by simp [astIdent, Uses, hcaught])
      have hEnterArmed : Uses S (armedEnter armed.1 armed.2.token) := uses_armedEnter htoken
      have hExitArmed := uses_armedExit htoken
      simp [armedGuardedBody, callStatement, Uses, h, hEnterArmed, hExitArmed, hExitCheck]
      simp [astIdent, Uses, hcaught]
  · exact h

theorem uses_blockArrow {body : Node} (h : Uses S body) : Uses S (blockArrow body) := by
  unfold blockArrow
  split
  · exact h
  · simpa [Uses] using h

theorem uses_guardFunction {names : Option ArmedNames} (hnames : ∀ n ∈ names, S n.caught ∧ S n.token) {n : Node}
    (h : Uses S n) : Uses S (guardFunction names n) := by
  have hArmed : ∀ weight : ℕ, ∀ a ∈ names.map fun names => (weight, names), S a.2.caught ∧ S a.2.token := by
    intro weight a ha
    obtain ⟨names, hmem, rfl⟩ := Option.map_eq_some_iff.mp ha
    exact hnames names hmem
  unfold guardFunction
  split
  case h_4 => exact h
  all_goals simp only [Uses, UsesList, and_true] at h ⊢
  case h_1 | h_2 => exact ⟨h.1, h.2.1, uses_wrapDepthGuard (hArmed _) h.2.2⟩
  case h_3 => exact ⟨h.1, h.2.1, uses_wrapDepthGuard (hArmed _) (uses_blockArrow h.2.2)⟩

theorem uses_chargeTopLevel {n : Node} (h : Uses S n) : Uses S (chargeTopLevel n) := by
  unfold chargeTopLevel
  split
  · simp only [Uses, UsesList, and_true] at h ⊢
    exact uses_insertGasAfterDirectives h
  · exact h

theorem uses_chargeTopLevelFrame {names : ArmedNames} (htoken : S names.token) {n : Node} (h : Uses S n) :
    Uses S (chargeTopLevelFrame names n) := by
  unfold chargeTopLevelFrame
  split
  · rename_i body
    simp only [Uses, UsesList, and_true] at h ⊢
    rw [← List.take_append_drop (1 + directivePrologueLength body) body, usesList_append] at h
    simp [uses_armedEnter htoken, uses_armedExit htoken, h]
  · exact h

@[simp] theorem uses_astLiteral (value : LiteralValue) : Uses S (astLiteral value) := trivial

@[simp] theorem uses_astArray {elements : List Node} : Uses S (astArray elements) ↔ UsesList S elements := by
  simp [astArray, Uses]

theorem uses_helper {name : String} (hname : name ∈ ALLOC_HELPERS) {args : List Node} (h : UsesList S args) :
    Uses S (astCall name args) := by
  have hReserved : name ∈ RESERVED_IDENTIFIERS :=
    List.mem_cons_of_mem _ (List.mem_append_left _ hname)
  simp [astCall, astIdent, Uses, hReserved, h]

theorem uses_memberKeyExpr (computed : Bool) {property : Node} (h : Uses S property) :
    Uses S (memberKeyExpr computed property) := by
  unfold memberKeyExpr
  split
  · exact h
  · split
    · trivial
    · exact h

theorem uses_convertConcat {specEvalOrder : Bool} {n m : Node} (hm : convertConcat specEvalOrder n = some m)
    (h : Uses S n) : Uses S m := by
  unfold convertConcat at hm
  split at hm
  all_goals simp only [Uses, UsesList, and_true, reduceCtorEq, Option.some.injEq] at h hm
  · subst hm
    exact uses_helper (by decide) (by simp [h])
  · subst hm
    simp only [Uses, UsesList, astIdent, and_true]
    exact ⟨h.1, uses_helper (by decide) (by simp [Uses, h])⟩
  · subst hm
    have hKey := fun computed => uses_memberKeyExpr computed h.1.2
    split
    · exact uses_helper (by decide) (by simp [arrowThunk, Uses, h, hKey])
    · exact uses_helper (by decide) (by simp [h, hKey])

theorem uses_cookedText (n : Node) : Uses S (cookedText n) := by
  unfold cookedText
  split
  · trivial
  · simp [astVoid0, Uses]

theorem uses_rawText {n : Node} (h : Uses S n) : Uses S (rawText n) := by
  unfold rawText
  split
  · trivial
  · exact h

theorem uses_convertTaggedTemplate {n m : Node} (hm : convertTaggedTemplate n = some m) (h : Uses S n) :
    Uses S m := by
  unfold convertTaggedTemplate at hm
  split at hm
  · simp only [Uses, UsesList, and_true, Option.some.injEq] at h hm
    obtain ⟨hTag, hExpressions, hQuasis⟩ := h
    subst hm
    rename_i tag expressions quasis
    have hCooked : UsesList S (quasis.map cookedText) :=
      usesList_iff.mpr (List.forall_mem_map.mpr fun n _ => uses_cookedText n)
    have hRaw : UsesList S (quasis.map rawText) :=
      usesList_iff.mpr (List.forall_mem_map.mpr fun n hn => uses_rawText (usesList_iff.mp hQuasis n hn))
    split
    · simp only [Uses, UsesList, and_true] at hTag
      have hKey := fun computed => uses_memberKeyExpr computed hTag.2
      exact uses_helper (by decide) (by simp [hTag, hKey, hCooked, hRaw, hExpressions])
    · exact uses_helper (by decide) (by simp [hTag, hCooked, hRaw, hExpressions])
  · cases hm

theorem uses_templateParts {quasis expressions : List Node} (h : UsesList S expressions) :
    UsesList S (templateParts quasis expressions) := by
  induction quasis generalizing expressions with
  | nil => trivial
  | cons quasi quasis ih =>
    cases expressions with
    | nil => exact ⟨uses_cookedText quasi, ih trivial⟩
    | cons e expressions => exact ⟨uses_cookedText quasi, h.1, ih h.2⟩

theorem uses_convertTemplateLiteral {n m : Node} (hm : convertTemplateLiteral n = some m) (h : Uses S n) :
    Uses S m := by
  unfold convertTemplateLiteral at hm
  split at hm
  · simp only [Uses, UsesList, and_true, Option.some.injEq] at h hm
    subst hm
    exact uses_helper (by decide) (by simp [uses_templateParts h.1])
  · cases hm

theorem uses_segment {n : Node} (h : Uses S n) : Uses S (segment n) := by
  unfold segment
  split
  · simp
  · simp only [Uses, UsesList, and_true] at h
    simp [h]
  · simp [h]

theorem uses_segments {ns : List Node} (h : UsesList S ns) : Uses S (astArray (ns.map segment)) :=
  uses_astArray.mpr (usesList_iff.mpr (List.forall_mem_map.mpr fun n hn => uses_segment (usesList_iff.mp h n hn)))

theorem uses_convertArraySpread {n m : Node} (hm : convertArraySpread n = some m) (h : Uses S n) : Uses S m := by
  unfold convertArraySpread at hm
  split at hm
  · simp only [Uses, UsesList, and_true] at h
    split at hm
    · cases hm
      exact uses_helper (by decide) ⟨uses_segments h, trivial⟩
    · cases hm
  · cases hm

theorem uses_objectSegment {n : Node} (h : Uses S n) : Uses S (objectSegment n) := by
  unfold objectSegment
  split
  · simp only [Uses, UsesList, and_true] at h
    simp [h]
  · simp only [Uses, UsesList, and_true] at h
    simp [h, uses_memberKeyExpr _ h.1]
  · exact h

theorem uses_meterSpreadProperty {n : Node} (h : Uses S n) : Uses S (meterSpreadProperty n) := by
  unfold meterSpreadProperty
  split
  · simp only [Uses, UsesList, and_true] at h ⊢
    exact uses_helper (by decide) ⟨h, trivial⟩
  · exact h

theorem uses_convertObjectSpread {n m : Node} (hm : convertObjectSpread n = some m) (h : Uses S n) :
    Uses S m := by
  unfold convertObjectSpread at hm
  split at hm
  · simp only [Uses, UsesList, and_true] at h
    split at hm
    · cases hm
    split at hm
    · cases hm
      simp only [Uses, UsesList, and_true, usesList_iff, List.forall_mem_map]
      exact fun n hn => uses_meterSpreadProperty (usesList_iff.mp h n hn)
    · cases hm
      refine uses_helper (by decide) ⟨uses_astArray.mpr ?_, trivial⟩
      simp only [usesList_iff, List.forall_mem_map]
      exact fun n hn => uses_objectSegment (usesList_iff.mp h n hn)
  · cases hm

theorem uses_convertCallSpread {o : AllocatorOptions} {chainDepth : ℕ} {n : Node} {m : StateM ℕ Node}
    (hm : convertCallSpread o chainDepth n = some m) (h : Uses S n) (site : ℕ) : Uses S (m site).1 := by
  unfold convertCallSpread at hm
  split at hm
  · rename_i kind callee args
    split at hm
    · cases hm
    have hkind : ∀ x, kind ≠ .identifier x := by
      rintro x rfl
      simp [isCallOrNew] at *
    have hArgs := uses_rest hkind h
    simp only [Uses, UsesList, and_true] at hArgs
    have hSegs := uses_segments hArgs
    have hSpread : ∀ rest, UsesList S rest → Uses S (node kind
        [callee, list [node .spreadElement [astCall "__arrspread" (astArray (args.map segment) :: rest)]]]) := by
      intro rest hrest
      have hCall : Uses S (astCall "__arrspread" (astArray (args.map segment) :: rest)) :=
        uses_helper (by decide) ⟨hSegs, hrest⟩
      refine uses_node_congr ?_ ?_ h
      · rintro x fields rest' heq
        cases heq
        exact ⟨fields, _, rfl, fun _ => by simp [Uses, hCall]⟩
      · intro hfields
        simp only [Uses, UsesList, and_true] at hfields ⊢
        exact ⟨hfields.1, hCall⟩
    split at hm
    · cases hm
      exact hSpread [] trivial
    · cases hm
      have hHeld := hSpread [astLiteral (.number 1), astLiteral (.number site)] (by simp)
      by_cases hchain : chainDepth > 0
      · simpa [hchain, StateT.run, bind, StateT.bind, get, getThe, MonadStateOf.get, StateT.get, set, StateT.set,
          pure, StateT.pure] using hHeld
      · simp [hchain, bind, StateT.bind, get, getThe, MonadStateOf.get, StateT.get, set, StateT.set,
          pure, StateT.pure]
        exact uses_helper (by decide) (by simp [hHeld])
  · cases hm

theorem uses_meterRestSource {pat src : Node} (h : Uses S src) : Uses S (meterRestSource pat src) := by
  unfold meterRestSource
  split
  · split
    · exact uses_helper (by decide) ⟨h, trivial⟩
    · exact h
  · split
    · exact uses_helper (by decide) (by simp [h])
    · exact h
  · exact h

theorem uses_convertRestPattern {meterRestPattern : Bool} {n m : Node}
    (hm : convertRestPattern meterRestPattern n = some m) (h : Uses S n) : Uses S m := by
  unfold convertRestPattern at hm
  split at hm
  · split at hm
    · cases hm
    · cases hm
      simp only [Uses, UsesList, and_true] at h ⊢
      exact ⟨h.1, uses_meterRestSource h.2⟩
  · split at hm
    · cases hm
      simp only [Uses, UsesList, and_true] at h ⊢
      exact ⟨h.1, uses_meterRestSource h.2⟩
    · cases hm
  · cases hm

theorem uses_convertAllocator {specEvalOrder tagged : Bool} {n m : Node}
    (hm : convertAllocator specEvalOrder tagged n = some m) (h : Uses S n) : Uses S m := by
  simp only [convertAllocator, Option.or_eq_some_iff] at hm
  obtain hm | ⟨-, hm | ⟨-, hm | ⟨-, hm | ⟨-, hm⟩⟩⟩⟩ := hm
  · exact uses_convertConcat hm h
  · exact uses_convertTaggedTemplate hm h
  · split at hm
    · cases hm
    · exact uses_convertTemplateLiteral hm h
  · exact uses_convertArraySpread hm h
  · exact uses_convertObjectSpread hm h

theorem uses_convert (o : AllocatorOptions) (chainDepth : ℕ) (tagged : Bool) {n : Node} (h : Uses S n)
    (site : ℕ) : Uses S (convert o chainDepth tagged n site).1 := by
  rw [convert]
  cases hAllocator : convertAllocator o.specEvalOrder tagged n with
  | some m => exact uses_convertAllocator hAllocator h
  | none =>
    cases hCall : convertCallSpread o chainDepth n with
    | some m => exact uses_convertCallSpread hCall h site
    | none =>
      cases hRest : convertRestPattern o.meterRestPattern n with
      | none => exact h
      | some m => exact uses_convertRestPattern hRest h

theorem convert_identifier (o : AllocatorOptions) (chainDepth : ℕ) (tagged : Bool) (x : String)
    (fields : List Node) (site : ℕ) :
    (convert o chainDepth tagged (node (.identifier x) fields) site).1 = node (.identifier x) fields := by
  have hAllocator : convertAllocator o.specEvalOrder tagged (node (.identifier x) fields) = none := by
    cases tagged <;> rfl
  have hCall : convertCallSpread o chainDepth (node (.identifier x) fields) = none := by
    unfold convertCallSpread
    split
    · rename_i heq
      cases heq
      simp [isCallOrNew]
    · rfl
  rw [convert, hAllocator]
  simp only [hCall]
  rfl

theorem recur_identifier (o : AllocatorOptions) (chainDepth : ℕ) (tagged : Bool) (x : String)
    (fields : List Node) (site : ℕ) :
    ∃ fields', (recur o chainDepth tagged (node (.identifier x) fields) site).1 =
      node (.identifier x) fields' := by
  refine ⟨(recurList o chainDepth false fields site).1, ?_⟩
  exact convert_identifier o chainDepth tagged x _ _

/-- The recursion keeps what a node uses, if it does so for the fields. -/
theorem uses_recur_node (o : AllocatorOptions) (depth : ℕ) (tagged : Bool) {kind : Kind}
    {fields fields' : List Node} {site : ℕ}
    (hcallee : ∀ x args rest, fields = node (.identifier x) args :: rest →
      ∃ args' rest', fields' = node (.identifier x) args' :: rest' ∧ (UsesList S rest → UsesList S rest'))
    (hfields : UsesList S fields → UsesList S fields') (h : Uses S (node kind fields)) :
    Uses S (convert o depth tagged (node kind fields') site).1 :=
  uses_convert o depth tagged (uses_node_congr hcallee hfields h) site

mutual

theorem uses_recur (o : AllocatorOptions) (chainDepth : ℕ) (tagged : Bool) (n : Node) (h : Uses S n)
    (site : ℕ) : Uses S (recur o chainDepth tagged n site).1 := by
  fun_cases recur o chainDepth tagged n
  case case1 tag quasi =>
    change Uses S (convert o chainDepth tagged (node .taggedTemplateExpression
      ((recur o chainDepth false tag site).1 :: (recurList o chainDepth true quasi _).1)) _).1
    refine uses_convert _ _ _ ?_ _
    exact ⟨uses_recur o chainDepth false tag h.1 site, uses_recurList o chainDepth true quasi h.2 _⟩
  case case2 fields =>
    change Uses S (convert o chainDepth tagged (node .chainExpression
      (recurList o (chainDepth + 1) false fields site).1) _).1
    refine uses_convert _ _ _ ?_ _
    exact uses_recurList o (chainDepth + 1) false fields h site
  case case3 kind fields hTagged hChain =>
    change Uses S (convert o chainDepth tagged (node kind (recurList o chainDepth false fields site).1) _).1
    refine uses_recur_node o chainDepth tagged ?_ (fun hs => ?_) h
    · rintro x args rest rfl
      obtain ⟨args', hargs'⟩ := recur_identifier o chainDepth false x args site
      refine ⟨args', 
        (recurList o chainDepth false rest (recur o chainDepth false (node (.identifier x) args) site).2).1, ?_,
        fun hs => ?_⟩
      · rw [← hargs']
        rfl
      · exact uses_recurList o chainDepth false rest hs _
    · exact uses_recurList o chainDepth false fields hs site
termination_by sizeOf n

theorem uses_recurList (o : AllocatorOptions) (chainDepth : ℕ) (tagged : Bool) (ns : List Node)
    (h : UsesList S ns) (site : ℕ) : UsesList S (recurList o chainDepth tagged ns site).1 := by
  cases ns with
  | nil => trivial
  | cons n rest =>
    exact ⟨uses_recur o chainDepth tagged n h.1 site, uses_recurList o chainDepth tagged rest h.2 _⟩
termination_by sizeOf ns

end

theorem uses_instrument {names : Option ArmedNames} (hnames : ∀ n ∈ names, S n.caught ∧ S n.flag ∧ S n.token)
    {ast : Node} (h : Uses S ast) : Uses S (instrument names ast) := by
  have hBlock : Uses S (injectBlockGas names (chargeTopLevel ast)) :=
    uses_mapUp (fun _ _ => ⟨_, rfl⟩)
      (fun n hn => uses_chargeBlock (fun a ha => ⟨(hnames a ha).1, (hnames a ha).2.1⟩) hn)
      (uses_chargeTopLevel h)
  have hBinary : Uses S (injectBinaryDepthGas (injectBlockGas names (chargeTopLevel ast))) :=
    uses_mapUp (fun _ _ => ⟨_, rfl⟩) (fun n hn => uses_chargeBinary hn) hBlock
  have hCalls : Uses S (injectCallGas (injectBinaryDepthGas (injectBlockGas names (chargeTopLevel ast)))) :=
    uses_mapUp (fun _ _ => ⟨_, rfl⟩) (fun n hn => uses_chargeCalls hn) hBinary
  have hGuards := uses_mapUp (fun _ _ => ⟨_, rfl⟩)
    (fun n hn => uses_guardFunction (fun a ha => ⟨(hnames a ha).1, (hnames a ha).2.2⟩) hn) hCalls
  unfold instrument
  cases names with
  | none => exact hGuards
  | some names => exact uses_chargeTopLevelFrame (hnames names rfl).2.2 hGuards

theorem uses_meterCode (o : MeterOptions) {ast : Node} (h : Uses S ast)
    (hnames : S (chooseNames ast).caught ∧ S (chooseNames ast).flag ∧ S (chooseNames ast).token) :
    Uses S (meterCode o ast) := by
  refine uses_instrument (fun n hn => ?_) (uses_recur _ 0 false ast h 0)
  split at hn
  · cases hn
    exact hnames
  · cases hn

end XChainVM.Metering
