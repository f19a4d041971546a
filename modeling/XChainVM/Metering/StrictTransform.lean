import XChainVM.Metering.Grammar
import XChainVM.Metering.StrictPhases
import XChainVM.Metering.TransformKeeps

/-! # The allocator transform keeps every prologue

The helpers take the operands in the order of the source, one of them in a thunk.
-/

namespace XChainVM.Metering

open Node

section

variable (strict : Bool)

theorem units_memberKeyExpr (computed : Bool) (property : Node) :
    units strict (memberKeyExpr computed property) = units strict property := by
  unfold memberKeyExpr
  split
  · rfl
  · split
    · exact (units_leaf strict rfl _).symm
    · rfl

@[simp] theorem units_cookedText (n : Node) : units strict (cookedText n) = [] := by
  unfold cookedText
  split
  · rfl
  · rfl

theorem unitsList_cookedTexts (quasis : List Node) : unitsList strict (quasis.map cookedText) = [] := by
  induction quasis with
  | nil => rfl
  | cons quasi quasis ih => simp [ih]

/-- The texts of a template hold no code. -/
theorem unitsList_texts {quasis : List Node}
    (h : ∀ q ∈ quasis, ∃ cooked raw, q = node (.templateElement cooked raw) []) :
    unitsList strict quasis = [] ∧ unitsList strict (quasis.map rawText) = [] := by
  induction quasis with
  | nil => exact ⟨rfl, rfl⟩
  | cons quasi quasis ih =>
    obtain ⟨⟨cooked, raw, rfl⟩, hrest⟩ := List.forall_mem_cons.mp h
    exact ih hrest

theorem unitsList_templateParts {quasis expressions : List Node}
    (hlength : quasis.length = expressions.length + 1) :
    unitsList strict (templateParts quasis expressions) = unitsList strict expressions := by
  induction quasis generalizing expressions with
  | nil => cases hlength
  | cons quasi quasis ih =>
    cases expressions with
    | nil =>
      obtain rfl : quasis = [] := List.length_eq_zero_iff.mp (Nat.succ.inj hlength)
      simp [templateParts]
    | cons e expressions => simp [templateParts, ih (Nat.succ.inj hlength)]

theorem units_spread (argument : Node) :
    units strict (node .spreadElement [argument]) = units strict argument := by
  rw [units_plain strict rfl]
  simp

@[simp] theorem units_segment (n : Node) : units strict (segment n) = units strict n := by
  unfold segment
  split
  · simp
  · simp [units_spread]
  · simp

@[simp] theorem unitsList_segments (ns : List Node) : unitsList strict (ns.map segment) = unitsList strict ns := by
  induction ns with
  | nil => rfl
  | cons n ns ih => simp [ih]

@[simp] theorem units_objectSegment (n : Node) : units strict (objectSegment n) = units strict n := by
  unfold objectSegment
  split
  · simp [units_spread]
  · next kind method shorthand computed key value =>
    rw [units_plain strict (rfl : Kind.isPlain (.property kind method shorthand computed) = true)]
    simp [units_memberKeyExpr]
  · rfl

@[simp] theorem unitsList_objectSegments (ns : List Node) :
    unitsList strict (ns.map objectSegment) = unitsList strict ns := by
  induction ns with
  | nil => rfl
  | cons n ns ih => simp [ih]

@[simp] theorem units_meterSpreadProperty (n : Node) : units strict (meterSpreadProperty n) = units strict n := by
  unfold meterSpreadProperty
  split
  · simp [units_spread]
  · rfl

@[simp] theorem unitsList_meterSpreadProperties (ns : List Node) :
    unitsList strict (ns.map meterSpreadProperty) = unitsList strict ns := by
  induction ns with
  | nil => rfl
  | cons n ns ih => simp [ih]

@[simp] theorem units_meterRestSource (pat src : Node) : units strict (meterRestSource pat src) = units strict src := by
  unfold meterRestSource
  split
  · split <;> simp
  · split <;> simp
  · rfl

/-- A thunk is as strict as the code around it. -/
theorem units_arrowThunk {e : Node} (h : e.outline.bodyPrologue = []) :
    units strict (arrowThunk e) = ⟨.arrowFunctionExpression, 0, [], strict⟩ :: units strict e := by
  have hcode : ownCode .arrowFunctionExpression [absent.outline, (list []).outline, e.outline] = some (0, []) := by
    show some (0, e.outline.bodyPrologue) = _
    rw [h]
  rw [arrowThunk, units]
  simp [ownUnit, isStrict, hcode, Kind.isLeaf]

end

theorem grows_convertConcat {specEvalOrder : Bool} {n m : Node}
    (hright : ∀ left right, n = node (.assignmentExpression .add) [left, right] → right.outline.bodyPrologue = [])
    (hm : convertConcat specEvalOrder n = some m) : Grows n m := by
  unfold convertConcat at hm
  split at hm
  · cases hm
    refine .of_eq rfl fun strict => ?_
    rw [units_plain strict (rfl : Kind.isPlain (.binaryExpression .add) = true), units_astCall]
  · cases hm
    refine .of_eq rfl fun strict => ?_
    rw [units_plain strict (rfl : Kind.isPlain (.assignmentExpression .assign) = true),
      units_plain strict (rfl : Kind.isPlain (.assignmentExpression .add) = true)]
    simp [units_leaf strict (rfl : Kind.isLeaf (.identifier _) = true)]
  · next computed optional object property right =>
    cases hm
    refine ⟨by split <;> rfl, fun strict => ?_⟩
    have hsource : units strict (node (.assignmentExpression .add)
        [node (.memberExpression computed optional) [object, property], right]) =
          units strict object ++ units strict property ++ units strict right := by
      rw [units_plain strict rfl, unitsList_cons, units_plain strict rfl]
      simp
    rw [hsource]
    split
    · rw [units_astCall, unitsList_cons, unitsList_cons, unitsList_cons, units_memberKeyExpr,
        units_arrowThunk strict (hright _ _ rfl), unitsList_nil, List.append_nil, ← List.append_assoc]
      exact (Inserted.refl _).append (.thunk strict (.refl _))
    · simp only [units_astCall, unitsList_cons, units_memberKeyExpr, unitsList_nil, List.append_nil, List.append_assoc]
      exact .refl _
  · cases hm

theorem grows_convertTaggedTemplate {n m : Node}
    (hshape : ∀ tag fields, n = node .taggedTemplateExpression [tag, node .templateLiteral fields] →
      (node .templateLiteral fields).shape)
    (hm : convertTaggedTemplate n = some m) : Grows n m := by
  unfold convertTaggedTemplate at hm
  split at hm
  · next tag expressions quasis =>
    cases hm
    obtain ⟨expressions', quasis', hfields, -, hquasis⟩ := hshape _ _ rfl
    cases hfields
    have htexts := fun strict => unitsList_texts strict hquasis
    refine .of_eq (by split <;> rfl) fun strict => ?_
    rw [units_plain strict (rfl : Kind.isPlain .taggedTemplateExpression = true), unitsList_cons, unitsList_cons,
      units_plain strict (rfl : Kind.isPlain .templateLiteral = true)]
    split
    · next computed optional object property =>
      rw [units_plain strict (rfl : Kind.isPlain (.memberExpression computed optional) = true)]
      simp [units_memberKeyExpr, unitsList_cookedTexts, (htexts strict).1, (htexts strict).2]
    · simp [unitsList_cookedTexts, (htexts strict).1, (htexts strict).2]
  · cases hm

theorem grows_convertTemplateLiteral {n m : Node} (hshape : ∀ fields, n = node .templateLiteral fields → n.shape)
    (hm : convertTemplateLiteral n = some m) : Grows n m := by
  unfold convertTemplateLiteral at hm
  split at hm
  · next expressions quasis =>
    cases hm
    obtain ⟨expressions', quasis', hfields, hlength, hquasis⟩ := hshape _ rfl
    cases hfields
    refine .of_eq rfl fun strict => ?_
    rw [units_plain strict (rfl : Kind.isPlain .templateLiteral = true)]
    simp [unitsList_templateParts strict hlength, (unitsList_texts strict hquasis).1]
  · cases hm

theorem grows_convertArraySpread {n m : Node} (hm : convertArraySpread n = some m) : Grows n m := by
  unfold convertArraySpread at hm
  split at hm
  · split at hm
    · cases hm
      refine .of_eq rfl fun strict => ?_
      rw [units_plain strict (rfl : Kind.isPlain .arrayExpression = true)]
      simp
    · cases hm
  · cases hm

theorem grows_convertObjectSpread {n m : Node} (hm : convertObjectSpread n = some m) : Grows n m := by
  unfold convertObjectSpread at hm
  split at hm
  · split at hm
    · cases hm
    · split at hm
      · cases hm
        exact .of_eq rfl fun strict => units_plain_congr strict rfl (by simp)
      · cases hm
        refine .of_eq rfl fun strict => ?_
        rw [units_plain strict (rfl : Kind.isPlain .objectExpression = true)]
        simp
  · cases hm

theorem grows_heldCall {kind : Kind} (hkind : isCallOrNew kind = true) (callee : Node) {args rest : List Node}
    (hrest : ∀ strict, unitsList strict rest = []) :
    Grows (node kind [callee, list args])
      (node kind [callee, list [node .spreadElement [astCall "__arrspread" (astArray (args.map segment) :: rest)]]]) := by
  have hplain : kind.isPlain = true := by
    cases kind <;> first | rfl | cases hkind
  refine .of_eq ?_ fun strict => units_plain_congr strict hplain (by simp [units_spread, hrest])
  cases kind <;> first | rfl | cases hkind

theorem grows_convertCallSpread {o : AllocatorOptions} {chainDepth : ℕ} {n : Node} {m : StateM ℕ Node}
    (hm : convertCallSpread o chainDepth n = some m) (site : ℕ) : Grows n (m site).1 := by
  unfold convertCallSpread at hm
  split at hm
  · next kind callee args =>
    split at hm
    · cases hm
    · next hguard =>
      have hkind : isCallOrNew kind = true := by
        simp only [Bool.or_eq_true, Bool.not_eq_true', not_or, Bool.not_eq_false] at hguard
        exact hguard.1.2
      split at hm
      · cases hm
        exact grows_heldCall hkind callee fun _ => rfl
      · have hheld : Grows (node kind [callee, list args]) (node kind [callee, list [node .spreadElement
            [astCall "__arrspread" (astArray (args.map segment) ::
              [astLiteral (.number 1), astLiteral (.number site)])]]]) :=
          grows_heldCall hkind callee fun _ => rfl
        cases hm
        by_cases hchain : chainDepth > 0
        · simpa [hchain, Bind.bind, StateT.bind, get, getThe, MonadStateOf.get, StateT.get, set, StateT.set,
            pure, StateT.pure] using hheld
        · simp only [hchain, if_false, Bind.bind, StateT.bind, get, getThe, MonadStateOf.get, StateT.get, set,
            StateT.set, pure, StateT.pure]
          refine hheld.trans (.of_eq ?_ fun strict => by simp)
          rw [hheld.outline]
          cases kind <;> first | rfl | cases hkind
  · cases hm

theorem grows_convertRestPattern {meterRestPattern : Bool} {n m : Node}
    (hm : convertRestPattern meterRestPattern n = some m) : Grows n m := by
  unfold convertRestPattern at hm
  split at hm
  · split at hm
    · cases hm
    · cases hm
      exact .of_eq rfl fun strict => units_plain_congr strict rfl (by simp)
  · split at hm
    · cases hm
      exact .of_eq rfl fun strict => units_plain_congr strict rfl (by simp)
    · cases hm
  · cases hm

/-- What the conversions rely on: the right side of a concatenation is no function body, and a
template has its texts. -/
structure Convertible (n : Node) : Prop where
  right : ∀ left right, n = node (.assignmentExpression .add) [left, right] → right.outline.bodyPrologue = []
  template : ∀ fields, n = node .templateLiteral fields → n.shape
  tagged : ∀ tag fields, n = node .taggedTemplateExpression [tag, node .templateLiteral fields] →
    (node .templateLiteral fields).shape

theorem grows_convertAllocator {specEvalOrder tagged : Bool} {n m : Node} (h : Convertible n)
    (hm : convertAllocator specEvalOrder tagged n = some m) : Grows n m := by
  simp only [convertAllocator, Option.or_eq_some_iff] at hm
  obtain hm | ⟨-, hm | ⟨-, hm | ⟨-, hm | ⟨-, hm⟩⟩⟩⟩ := hm
  · exact grows_convertConcat h.right hm
  · exact grows_convertTaggedTemplate h.tagged hm
  · split at hm
    · cases hm
    · exact grows_convertTemplateLiteral h.template hm
  · exact grows_convertArraySpread hm
  · exact grows_convertObjectSpread hm

theorem grows_convert (o : AllocatorOptions) (chainDepth : ℕ) (tagged : Bool) {n : Node} (h : Convertible n)
    (site : ℕ) : Grows n (convert o chainDepth tagged n site).1 := by
  rw [convert]
  cases hAllocator : convertAllocator o.specEvalOrder tagged n with
  | some m => exact grows_convertAllocator h hAllocator
  | none =>
    cases hCall : convertCallSpread o chainDepth n with
    | some m => exact grows_convertCallSpread hCall site
    | none =>
      cases hRest : convertRestPattern o.meterRestPattern n with
      | none => exact .refl n
      | some m => exact grows_convertRestPattern hRest

/-- A template that is tagged stays as it is. -/
theorem recur_tagged_template (o : AllocatorOptions) (depth : ℕ) (fields : List Node) (site : ℕ) :
    recur o depth true (node .templateLiteral fields) site =
      (node .templateLiteral (recurList o depth false fields site).1, (recurList o depth false fields site).2) := by
  have hAllocator (parts : List Node) : convertAllocator o.specEvalOrder true (node .templateLiteral parts) = none := by
    simp [convertAllocator, convertConcat, convertTaggedTemplate, convertArraySpread, convertObjectSpread]
  have hRest (parts : List Node) : convertRestPattern o.meterRestPattern (node .templateLiteral parts) = none := by
    simp [convertRestPattern]
  rw [recur_eq o depth true (by simp) (by simp), convert, hAllocator]
  simp only [convertCallSpread_eq_none o depth (show isCallOrNew .templateLiteral = false from rfl), hRest]
  rfl

theorem forall₂_recurList {o : AllocatorOptions} {ns : List Node}
    (h : ∀ n ∈ ns, ∀ depth tagged site, Grows n (recur o depth tagged n site).1) (depth : ℕ) (tagged : Bool)
    (site : ℕ) : List.Forall₂ Grows ns (recurList o depth tagged ns site).1 := by
  induction ns generalizing site with
  | nil => exact .nil
  | cons n rest ih =>
    rw [List.forall_mem_cons] at h
    rw [recurList_cons]
    exact .cons (h.1 depth tagged site) (ih h.2 _)

/-- No function body stands where an operand does. -/
theorem bodyPrologue_of_ne_functionBody {n : Node} (h : n.kind ≠ .functionBody) : n.outline.bodyPrologue = [] :=
  bodyPrologue_eq_nil fun _ heq => h (heq ▸ rfl)

theorem grows_recur {o : AllocatorOptions} (n : Node) (hshaped : ∀ m, Within m n → m.shape)
    (hplaced : ∀ m, Within m n → m.placed) (depth : ℕ) (tagged : Bool) (site : ℕ) :
    Grows n (recur o depth tagged n site).1 := by
  induction n using Node.induct generalizing depth tagged site with
  | step kind fields ih =>
    have hfields : ∀ c ∈ fields, ∀ depth tagged site, Grows c (recur o depth tagged c site).1 := by
      intro c hc
      have hleaf : kind.isLeaf = false := not_isLeaf_of_shape (hshaped _ (.refl _)) (List.ne_nil_of_mem hc)
      exact ih c hc (fun m hm => hshaped m (.field hleaf hc hm)) (fun m hm => hplaced m (.field hleaf hc hm))
    have hshape : (node kind fields).shape := hshaped _ (.refl _)
    by_cases htagged : kind = .taggedTemplateExpression
    · subst htagged
      obtain ⟨tag, quasi, rfl, -⟩ := hshape
      have htag := hfields tag (by simp) depth false site
      have hquasi := hfields quasi (by simp) depth true (recur o depth false tag site).2
      refine Grows.trans (.node (.cons htag (.cons hquasi .nil))) (grows_convert o depth tagged ?_ _)
      refine ⟨by simp, by simp, fun tag' fields' heq => ?_⟩
      obtain ⟨-, hquasi'⟩ : _ ∧ (recur o depth true quasi (recur o depth false tag site).2).1 =
        node .templateLiteral fields' := by simpa using heq
      have hkind := kind_recur o depth true quasi (recur o depth false tag site).2
      rw [hquasi'] at hkind
      obtain ⟨kind, parts⟩ := quasi
      obtain hkind | hkind := hkind
      · obtain rfl : Kind.templateLiteral = kind := hkind
        rw [recur_tagged_template] at hquasi'
        obtain rfl : _ = fields' := by simpa using hquasi'
        exact shape_template o depth false (hshaped _ (.field rfl (by simp) (.refl _))) _
      · cases hkind
    · by_cases hchain : kind = .chainExpression
      · subst hchain
        exact Grows.trans (.node (forall₂_recurList hfields (depth + 1) false site))
          (grows_convert o depth tagged ⟨by simp, by simp, by simp⟩ _)
      · rw [recur_eq o depth tagged htagged hchain]
        have hgrown := forall₂_recurList hfields depth false site
        refine Grows.trans (.node hgrown) (grows_convert o depth tagged ⟨?_, ?_, ?_⟩ _)
        · intro left' right' heq
          obtain ⟨rfl, hlist⟩ : kind = .assignmentExpression .add ∧
            (recurList o depth false fields site).1 = [left', right'] := by simpa using heq
          rw [hlist] at hgrown
          obtain ⟨left, _, _, hrest, rfl⟩ := List.forall₂_cons_right_iff.mp hgrown
          obtain ⟨right, _, hright, hnil, rfl⟩ := List.forall₂_cons_right_iff.mp hrest
          obtain rfl := List.forall₂_nil_right_iff.mp hnil
          rw [hright.outline]
          refine bodyPrologue_of_ne_functionBody fun hbody => ?_
          have hplace := (hplaced _ (.refl _) 1 right rfl).2 (by rw [hbody]; simp)
          rw [hbody] at hplace
          cases hplace.1
        · intro parts heq
          obtain ⟨rfl, -⟩ : kind = .templateLiteral ∧ _ := by simpa using heq
          exact shape_template o depth false hshape site
        · intro tag parts heq
          exact absurd (congrArg Node.kind heq) htagged

end XChainVM.Metering
