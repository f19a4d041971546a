import Mathlib
import XChainVM.Metering.AllocatorTransform
import XChainVM.Metering.Position

/-! # What the allocator transform keeps

The transform takes apart spreads, properties, members and templates, and keeps every declarator
and every plain assignment that stands below them.
-/

namespace XChainVM.Metering

open Node

def Node.IsOwner (n : Node) : Prop :=
  n.kind = .variableDeclarator ∨ n.kind = .assignmentExpression .assign

theorem kind_node (kind : Kind) (fields : List Node) : (node kind fields).kind = kind := rfl

section

variable {x : Node}

@[simp] theorem withinList_nil : WithinList x [] ↔ False := Iff.rfl

@[simp] theorem withinList_cons (n : Node) (rest : List Node) :
    WithinList x (n :: rest) ↔ Within x n ∨ WithinList x rest := Iff.rfl

theorem within_iff (hx : x.IsOwner) {kind : Kind} {fields : List Node} (hdeclarator : kind ≠ .variableDeclarator)
    (hassignment : kind ≠ .assignmentExpression .assign) :
    Within x (node kind fields) ↔ kind.isLeaf = false ∧ WithinList x fields := by
  constructor
  · rintro (rfl | h)
    · exact absurd hx (not_or.mpr ⟨hdeclarator, hassignment⟩)
    · exact h
  · exact .inr

theorem withinList_map {f : Node → Node} {ns : List Node} (hf : ∀ n ∈ ns, Within x n → Within x (f n))
    (h : WithinList x ns) : WithinList x (ns.map f) := by
  obtain ⟨n, hn, hwithin⟩ := withinList_iff.mp h
  exact withinList_iff.mpr ⟨f n, List.mem_map_of_mem hn, hf n hn hwithin⟩

variable (hx : x.IsOwner)

include hx

theorem within_list (ns : List Node) : Within x (list ns) ↔ WithinList x ns := by
  simp [within_iff hx, Kind.isLeaf]

theorem within_astCall (name : String) (args : List Node) : Within x (astCall name args) ↔ WithinList x args := by
  simp [astCall, astIdent, within_iff hx, Kind.isLeaf]

theorem within_astArray (elements : List Node) : Within x (astArray elements) ↔ WithinList x elements := by
  simp [astArray, within_iff hx, Kind.isLeaf]

theorem within_memberKeyExpr (computed : Bool) (property : Node) (h : Within x property) :
    Within x (memberKeyExpr computed property) := by
  unfold memberKeyExpr
  split
  · exact h
  · split
    · simp [within_iff hx, Kind.isLeaf] at h
    · exact h

theorem within_convertConcat {specEvalOrder : Bool} {kind : Kind} {fields : List Node} {m : Node}
    (hm : convertConcat specEvalOrder (node kind fields) = some m) (h : WithinList x fields) : Within x m := by
  unfold convertConcat at hm
  split at hm
  case h_1 left right heq =>
    cases heq
    cases hm
    exact (within_astCall hx _ _).mpr h
  case h_2 name right heq =>
    cases heq
    cases hm
    simp [within_iff hx, Kind.isLeaf] at h
    refine .field rfl (List.mem_cons_of_mem _ (List.mem_singleton_self _)) ?_
    simp [within_astCall hx, h]
  case h_3 computed optional object property right heq =>
    cases heq
    have hparts : Within x object ∨ Within x property ∨ Within x right := by
      simpa [within_iff hx, Kind.isLeaf, or_assoc] using h
    have hkey := within_memberKeyExpr hx computed property
    cases hm
    split
    · rw [within_astCall hx]
      obtain h | h | h := hparts
      · exact .inl h
      · exact .inr (.inl (hkey h))
      · refine .inr (.inr (.inl ?_))
        simp [arrowThunk, within_iff hx, Kind.isLeaf, h]
    · rw [within_astCall hx]
      obtain h | h | h := hparts
      · exact .inl h
      · exact .inr (.inl (hkey h))
      · exact .inr (.inr (.inl h))
  case h_4 => cases hm

theorem within_rawText {n : Node} (h : Within x n) : Within x (rawText n) := by
  unfold rawText
  split
  · simp [within_iff hx, Kind.isLeaf] at h
  · exact h

theorem within_convertTaggedTemplate {kind : Kind} {fields : List Node} {m : Node}
    (hm : convertTaggedTemplate (node kind fields) = some m) (h : WithinList x fields) : Within x m := by
  unfold convertTaggedTemplate at hm
  split at hm
  case h_1 tag expressions quasis heq =>
    cases heq
    have hparts : Within x tag ∨ WithinList x expressions ∨ WithinList x quasis := by
      simpa [within_iff hx, Kind.isLeaf, within_list hx] using h
    have hraw : WithinList x quasis → Within x (astArray (quasis.map rawText)) := by
      intro h
      rw [within_astArray hx]
      exact withinList_map (fun n _ => within_rawText hx) h
    cases hm
    split
    · next computed optional object property =>
      have hkey := within_memberKeyExpr hx computed property
      rw [within_astCall hx]
      obtain h | h | h := hparts
      · have htag : Within x object ∨ Within x property := by
          simpa [within_iff hx, Kind.isLeaf] using h
        exact htag.imp id fun h => .inl (hkey h)
      · simp [within_astArray hx, h]
      · simp [hraw h]
    · rw [within_astCall hx]
      obtain h | h | h := hparts
      · exact .inl h
      · simp [within_astArray hx, h]
      · simp [hraw h]
  case h_2 => cases hm

omit hx in
theorem withinList_templateParts {quasis expressions : List Node}
    (hlength : expressions.length ≤ quasis.length) (h : WithinList x expressions) :
    WithinList x (templateParts quasis expressions) := by
  induction quasis generalizing expressions with
  | nil =>
    obtain rfl := List.length_eq_zero_iff.mp (Nat.le_zero.mp hlength)
    exact h
  | cons quasi quasis ih =>
    cases expressions with
    | nil => exact False.elim h
    | cons e expressions =>
      refine .inr (h.imp id fun h => ih ?_ h)
      simpa using hlength

/-- Text parts hold no owner. -/
theorem not_withinList_quasis {quasis : List Node}
    (h : ∀ q ∈ quasis, ∃ cooked raw, q = node (.templateElement cooked raw) []) : ¬WithinList x quasis := by
  intro hwithin
  obtain ⟨q, hq, hwithin⟩ := withinList_iff.mp hwithin
  obtain ⟨cooked, raw, rfl⟩ := h q hq
  simp [within_iff hx, Kind.isLeaf] at hwithin

theorem within_convertTemplateLiteral {kind : Kind} {fields : List Node} {m : Node}
    (hshape : kind = .templateLiteral → (node kind fields).shape) (hm : convertTemplateLiteral (node kind fields) = some m)
    (h : WithinList x fields) : Within x m := by
  unfold convertTemplateLiteral at hm
  split at hm
  case h_1 expressions quasis heq =>
    cases heq
    obtain ⟨expressions', quasis', hfields, hlength, hquasis⟩ := hshape rfl
    cases hfields
    cases hm
    have hparts : WithinList x expressions ∨ WithinList x quasis := by simpa [within_list hx] using h
    simp only [within_astCall hx, withinList_cons, within_astArray hx, withinList_nil, or_false]
    obtain h | h := hparts
    · exact withinList_templateParts (by omega) h
    · exact absurd h (not_withinList_quasis hx hquasis)
  case h_2 => cases hm

theorem within_segment {n : Node} (h : Within x n) : Within x (segment n) := by
  unfold segment
  split
  · simp [within_iff hx, Kind.isLeaf] at h
  · next argument =>
    have harg : Within x argument := by simpa [within_iff hx, Kind.isLeaf] using h
    simp [within_astArray hx, harg]
  · simp [within_astArray hx, h]

theorem within_segments {ns : List Node} (h : WithinList x ns) : Within x (astArray (ns.map segment)) :=
  (within_astArray hx _).mpr (withinList_map (fun _ _ => within_segment hx) h)

theorem within_convertArraySpread {kind : Kind} {fields : List Node} {m : Node}
    (hm : convertArraySpread (node kind fields) = some m) (h : WithinList x fields) : Within x m := by
  unfold convertArraySpread at hm
  split at hm
  case h_1 elements heq =>
    cases heq
    have helements : WithinList x elements := by simpa [within_list hx] using h
    split at hm
    · cases hm
      simp [within_astCall hx, within_segments hx helements]
    · cases hm
  case h_2 => cases hm

theorem within_objectSegment {n : Node} (h : Within x n) : Within x (objectSegment n) := by
  unfold objectSegment
  split
  · next argument =>
    have harg : Within x argument := by simpa [within_iff hx, Kind.isLeaf] using h
    simp [within_astArray hx, harg]
  · next kind method shorthand computed key value =>
    have hparts : Within x key ∨ Within x value := by
      simpa [within_iff hx, Kind.isLeaf] using h
    have hkey := within_memberKeyExpr hx computed key
    simp only [within_astArray hx, withinList_cons, withinList_nil, or_false]
    exact .inr (hparts.imp hkey id)
  · exact h

theorem within_meterSpreadProperty {n : Node} (h : Within x n) : Within x (meterSpreadProperty n) := by
  unfold meterSpreadProperty
  split
  · next argument =>
    have harg : Within x argument := by simpa [within_iff hx, Kind.isLeaf] using h
    simp [within_iff hx, Kind.isLeaf, within_astCall hx, harg]
  · exact h

theorem within_convertObjectSpread {kind : Kind} {fields : List Node} {m : Node}
    (hm : convertObjectSpread (node kind fields) = some m) (h : WithinList x fields) : Within x m := by
  unfold convertObjectSpread at hm
  split at hm
  case h_1 properties heq =>
    cases heq
    have hproperties : WithinList x properties := by simpa [within_list hx] using h
    split at hm
    · cases hm
    split at hm
    · cases hm
      refine .field rfl (List.mem_singleton_self _) ((within_list hx _).mpr ?_)
      exact withinList_map (fun _ _ => within_meterSpreadProperty hx) hproperties
    · cases hm
      simp only [within_astCall hx, withinList_cons, within_astArray hx, withinList_nil, or_false]
      exact withinList_map (fun _ _ => within_objectSegment hx) hproperties
  case h_2 => cases hm

theorem within_meterRestSource {pat src : Node} (h : Within x src) : Within x (meterRestSource pat src) := by
  unfold meterRestSource
  split
  · split
    · simp [within_astCall hx, h]
    · exact h
  · split
    · simp [within_astCall hx, within_astArray hx, h]
    · exact h
  · exact h

theorem within_convertAllocator {specEvalOrder tagged : Bool} {kind : Kind} {fields : List Node} {m : Node}
    (hshape : kind = .templateLiteral → (node kind fields).shape)
    (hm : convertAllocator specEvalOrder tagged (node kind fields) = some m) (h : WithinList x fields) :
    Within x m := by
  simp only [convertAllocator, Option.or_eq_some_iff] at hm
  obtain hm | ⟨-, hm | ⟨-, hm | ⟨-, hm | ⟨-, hm⟩⟩⟩⟩ := hm
  · exact within_convertConcat hx hm h
  · exact within_convertTaggedTemplate hx hm h
  · split at hm
    · cases hm
    · exact within_convertTemplateLiteral hx hshape hm h
  · exact within_convertArraySpread hx hm h
  · exact within_convertObjectSpread hx hm h

/-- A call whose arguments are rebuilt keeps its callee and each argument. -/
theorem within_heldCall {kind : Kind} {callee : Node} {args : List Node} (rest : List Node) (hkind : isCallOrNew kind = true)
    (h : Within x callee ∨ WithinList x args) :
    Within x (node kind
      [callee, list [node .spreadElement [astCall "__arrspread" (astArray (args.map segment) :: rest)]]]) := by
  have hleaf : kind.isLeaf = false := by
    cases kind
    case callExpression optional => rfl
    case newExpression => rfl
    all_goals cases hkind
  obtain h | h := h
  · exact .field hleaf (by simp) h
  · refine .field hleaf (List.mem_cons_of_mem _ (List.mem_singleton_self _)) ?_
    simp [within_iff hx, Kind.isLeaf, within_astCall hx, within_segments hx h]

theorem within_convertCallSpread {o : AllocatorOptions} {chainDepth : ℕ} {kind : Kind} {fields : List Node}
    {m : StateM ℕ Node} (hm : convertCallSpread o chainDepth (node kind fields) = some m)
    (h : WithinList x fields) (site : ℕ) : Within x (m site).1 := by
  unfold convertCallSpread at hm
  split at hm
  · next callee args heq =>
    cases heq
    have hparts : Within x callee ∨ WithinList x args := by simpa [within_list hx] using h
    split at hm
    · cases hm
    next hgate =>
    have hkind : isCallOrNew kind = true := by
      cases hk : isCallOrNew kind with
      | true => rfl
      | false => simp [hk] at hgate
    split at hm
    · cases hm
      exact within_heldCall hx [] hkind hparts
    · cases hm
      have hheld := within_heldCall hx [astLiteral (.number 1), astLiteral (.number site)] hkind hparts
      by_cases hchain : chainDepth > 0
      · simpa [hchain, bind, StateT.bind, get, getThe, MonadStateOf.get, StateT.get, set, StateT.set,
          pure, StateT.pure] using hheld
      · simp only [hchain, bind, StateT.bind, get, getThe, MonadStateOf.get, StateT.get, set, StateT.set,
          pure, StateT.pure, if_false, within_astCall hx]
        exact .inl hheld
  · cases hm

theorem within_convertRestPattern {meterRestPattern : Bool} {kind : Kind} {fields : List Node} {m : Node}
    (hm : convertRestPattern meterRestPattern (node kind fields) = some m) (h : WithinList x fields) :
    Within x m := by
  unfold convertRestPattern at hm
  split at hm
  · next id init heq =>
    cases heq
    split at hm
    · cases hm
    · cases hm
      obtain h | h | h := h
      · exact .field rfl (by simp) h
      · exact .field rfl (List.mem_cons_of_mem _ (List.mem_singleton_self _)) (within_meterRestSource hx h)
      · exact False.elim h
  · next left right heq =>
    cases heq
    split at hm
    · cases hm
      obtain h | h | h := h
      · exact .field rfl (by simp) h
      · exact .field rfl (List.mem_cons_of_mem _ (List.mem_singleton_self _)) (within_meterRestSource hx h)
      · exact False.elim h
    · cases hm
  · cases hm

theorem within_convert (o : AllocatorOptions) (chainDepth : ℕ) (tagged : Bool) {kind : Kind} {fields : List Node}
    (hshape : kind = .templateLiteral → (node kind fields).shape) (hleaf : kind.isLeaf = false) (h : WithinList x fields) (site : ℕ) :
    Within x (convert o chainDepth tagged (node kind fields) site).1 := by
  rw [convert]
  cases hAllocator : convertAllocator o.specEvalOrder tagged (node kind fields) with
  | some m => exact within_convertAllocator hx hshape hAllocator h
  | none =>
    cases hCall : convertCallSpread o chainDepth (node kind fields) with
    | some m => exact within_convertCallSpread hx hCall h site
    | none =>
      cases hRest : convertRestPattern o.meterRestPattern (node kind fields) with
      | none => exact .inr ⟨hleaf, h⟩
      | some m => exact within_convertRestPattern hx hRest h

end

def Kind.allocates : Kind → Bool
  | .binaryExpression .add | .assignmentExpression .add | .taggedTemplateExpression | .templateLiteral
  | .arrayExpression | .objectExpression => true
  | _ => false

def Kind.converts (kind : Kind) : Bool :=
  kind.allocates || isCallOrNew kind || kind = .variableDeclarator || kind = .assignmentExpression .assign

section

variable (o : AllocatorOptions) (depth : ℕ) (tagged : Bool)

theorem convertCallSpread_eq_none {kind : Kind} (hkind : isCallOrNew kind = false) (fields : List Node) :
    convertCallSpread o depth (node kind fields) = none := by
  unfold convertCallSpread
  split
  · next heq =>
    cases heq
    simp [hkind]
  · rfl

theorem convertAllocator_eq_none {kind : Kind} (hkind : kind.allocates = false) (specEvalOrder : Bool)
    (fields : List Node) : convertAllocator specEvalOrder tagged (node kind fields) = none := by
  simp only [convertAllocator, Option.or_eq_none_iff]
  refine ⟨?_, ?_, ?_, ?_, ?_⟩
  · unfold convertConcat
    split
    case h_4 => rfl
    all_goals
      next heq =>
        cases heq
        cases hkind
  · unfold convertTaggedTemplate
    split
    · next heq =>
      cases heq
      cases hkind
    · rfl
  · split
    · rfl
    unfold convertTemplateLiteral
    split
    · next heq =>
      cases heq
      cases hkind
    · rfl
  · unfold convertArraySpread
    split
    · next heq =>
      cases heq
      cases hkind
    · rfl
  · unfold convertObjectSpread
    split
    · next heq =>
      cases heq
      cases hkind
    · rfl

theorem convert_eq_self {kind : Kind} (hkind : kind.converts = false) (fields : List Node) (site : ℕ) :
    convert o depth tagged (node kind fields) site = (node kind fields, site) := by
  simp only [Kind.converts, Bool.or_eq_false_iff, decide_eq_false_iff_not] at hkind
  obtain ⟨⟨⟨hallocates, hcall⟩, hdeclarator⟩, hassignment⟩ := hkind
  have hrest : convertRestPattern o.meterRestPattern (node kind fields) = none := by
    unfold convertRestPattern
    split
    · next heq =>
      cases heq
      exact absurd rfl hdeclarator
    · next heq =>
      cases heq
      exact absurd rfl hassignment
    · rfl
  rw [convert, convertAllocator_eq_none tagged hallocates]
  simp only [convertCallSpread_eq_none o depth hcall, hrest]
  rfl

theorem recur_eq {kind : Kind} (htagged : kind ≠ .taggedTemplateExpression) (hchain : kind ≠ .chainExpression)
    (fields : List Node) (site : ℕ) :
    recur o depth tagged (node kind fields) site =
      convert o depth tagged (node kind (recurList o depth false fields site).1)
        (recurList o depth false fields site).2 := by
  cases kind
  case taggedTemplateExpression => exact absurd rfl htagged
  case chainExpression => exact absurd rfl hchain
  all_goals rfl

/-- A node that no conversion rewrites keeps its kind. -/
theorem recur_of_not_converts {kind : Kind} (hkind : kind.converts = false) (hchain : kind ≠ .chainExpression)
    (fields : List Node) (site : ℕ) :
    recur o depth tagged (node kind fields) site =
      (node kind (recurList o depth false fields site).1, (recurList o depth false fields site).2) := by
  rw [recur_eq o depth tagged (by rintro rfl; cases hkind) hchain, convert_eq_self o depth tagged hkind]

theorem recurList_cons (n : Node) (rest : List Node) (site : ℕ) :
    recurList o depth tagged (n :: rest) site =
      ((recur o depth tagged n site).1 :: (recurList o depth tagged rest (recur o depth tagged n site).2).1,
        (recurList o depth tagged rest (recur o depth tagged n site).2).2) := rfl

theorem recurList_eq_self {ns : List Node} (h : ∀ n ∈ ns, ∀ site, recur o depth tagged n site = (n, site))
    (site : ℕ) : recurList o depth tagged ns site = (ns, site) := by
  induction ns with
  | nil => rfl
  | cons n rest ih =>
    rw [recurList_cons, h n List.mem_cons_self, ih fun m hm => h m (List.mem_cons_of_mem n hm)]

theorem recurList_length (ns : List Node) (site : ℕ) :
    (recurList o depth tagged ns site).1.length = ns.length := by
  induction ns generalizing site with
  | nil => rfl
  | cons n rest ih => exact congrArg (· + 1) (ih (recur o depth tagged n site).2)

/-- Every field is rewritten in some state. -/
theorem mem_recurList {n : Node} {ns : List Node} (hn : n ∈ ns) (site : ℕ) :
    ∃ site', (recur o depth tagged n site').1 ∈ (recurList o depth tagged ns site).1 := by
  induction ns generalizing site with
  | nil => cases hn
  | cons m rest ih =>
    obtain rfl | hn := List.mem_cons.mp hn
    · exact ⟨site, List.mem_cons_self⟩
    · obtain ⟨site', h⟩ := ih hn (recur o depth tagged m site).2
      exact ⟨site', List.mem_cons_of_mem _ h⟩

/-- Text parts stay as they are. -/
theorem recur_quasis {quasis : List Node}
    (h : ∀ q ∈ quasis, ∃ cooked raw, q = node (.templateElement cooked raw) []) (site : ℕ) :
    recur o depth tagged (list quasis) site = (list quasis, site) := by
  rw [recur_of_not_converts o depth tagged rfl (by simp), recurList_eq_self]
  intro q hq site
  obtain ⟨cooked, raw, rfl⟩ := h q hq
  rw [recur_of_not_converts o depth false rfl (by simp)]
  rfl

/-- A template keeps its shape. -/
theorem shape_template {fields : List Node} (h : (node .templateLiteral fields).shape) (site : ℕ) :
    (node .templateLiteral (recurList o depth tagged fields site).1).shape := by
  obtain ⟨expressions, quasis, rfl, hlength, hquasis⟩ := h
  refine ⟨(recurList o depth false expressions site).1, quasis, ?_, ?_, hquasis⟩
  · rw [recurList_cons, recurList_cons, recur_quasis o depth tagged hquasis,
      recur_of_not_converts o depth tagged rfl (by simp)]
    rfl
  · rw [recurList_length, hlength]

/-- One step of the recursion: the fields are rewritten first. -/
theorem recur_step (kind : Kind) (fields : List Node) (site : ℕ) :
    ∃ fields' site', recur o depth tagged (node kind fields) site =
        convert o depth tagged (node kind fields') site' ∧
      (∀ c ∈ fields, ∃ depth' tagged' site'', (recur o depth' tagged' c site'').1 ∈ fields') ∧
      (kind = .templateLiteral → (node kind fields).shape → (node kind fields').shape) := by
  by_cases htagged : kind = .taggedTemplateExpression
  · subst htagged
    cases fields with
    | nil => exact ⟨[], site, rfl, by simp, by simp⟩
    | cons tag quasi =>
      refine ⟨_, _, rfl, ?_, by simp⟩
      intro c hc
      obtain rfl | hc := List.mem_cons.mp hc
      · exact ⟨depth, false, site, List.mem_cons_self⟩
      · obtain ⟨site', h⟩ := mem_recurList o depth true hc (recur o depth false tag site).2
        exact ⟨depth, true, site', List.mem_cons_of_mem _ h⟩
  by_cases hchain : kind = .chainExpression
  · subst hchain
    refine ⟨_, _, rfl, ?_, by simp⟩
    intro c hc
    obtain ⟨site', h⟩ := mem_recurList o (depth + 1) false hc site
    exact ⟨depth + 1, false, site', h⟩
  · refine ⟨_, _, recur_eq o depth tagged htagged hchain fields site, ?_, ?_⟩
    · intro c hc
      obtain ⟨site', h⟩ := mem_recurList o depth false hc site
      exact ⟨depth, false, site', h⟩
    · rintro rfl h
      exact shape_template o depth false h site

end

theorem convert_owner (o : AllocatorOptions) (depth : ℕ) (tagged : Bool) {kind : Kind} {fields : List Node}
    (h : (node kind fields).IsOwner) (site : ℕ) :
    convert o depth tagged (node kind fields) site =
      ((convertRestPattern o.meterRestPattern (node kind fields)).getD (node kind fields), site) := by
  obtain rfl | rfl : kind = .variableDeclarator ∨ kind = .assignmentExpression .assign := h
  · rw [convert, convertAllocator_eq_none tagged rfl]
    simp only [convertCallSpread_eq_none o depth (show isCallOrNew .variableDeclarator = false from rfl)]
    rfl
  · rw [convert, convertAllocator_eq_none tagged rfl]
    simp only [convertCallSpread_eq_none o depth (show isCallOrNew (.assignmentExpression .assign) = false from rfl)]
    rfl

def Kind.isMetered : Kind → Bool
  | .callExpression _ | .assignmentExpression .assign | .objectExpression => true
  | _ => false

theorem kind_convertAllocator {specEvalOrder tagged : Bool} {n m : Node}
    (hm : convertAllocator specEvalOrder tagged n = some m) : m.kind.isMetered = true := by
  simp only [convertAllocator, Option.or_eq_some_iff] at hm
  obtain hm | ⟨-, hm | ⟨-, hm | ⟨-, hm | ⟨-, hm⟩⟩⟩⟩ := hm
  · unfold convertConcat at hm
    split at hm
    case h_3 =>
      cases hm
      split <;> rfl
    all_goals cases hm
    all_goals rfl
  · unfold convertTaggedTemplate at hm
    split at hm
    · cases hm
      split <;> rfl
    · cases hm
  · unfold convertTemplateLiteral at hm
    split at hm
    · cases hm
    split at hm
    · cases hm
      rfl
    · cases hm
  · unfold convertArraySpread at hm
    split at hm
    · split at hm
      · cases hm
        rfl
      · cases hm
    · cases hm
  · unfold convertObjectSpread at hm
    split at hm
    · split at hm
      · cases hm
      split at hm
      all_goals
        cases hm
        rfl
    · cases hm

theorem kind_convertCallSpread {o : AllocatorOptions} {depth : ℕ} {n : Node} {m : StateM ℕ Node}
    (hm : convertCallSpread o depth n = some m) (site : ℕ) :
    (m site).1.kind = n.kind ∨ (m site).1.kind.isMetered = true := by
  unfold convertCallSpread at hm
  split at hm
  · split at hm
    · cases hm
    split at hm
    · cases hm
      exact .inl rfl
    · cases hm
      by_cases hchain : depth > 0
      · refine .inl ?_
        simp [hchain, bind, StateT.bind, get, getThe, MonadStateOf.get, StateT.get, set, StateT.set, pure,
          StateT.pure, kind_node]
      · refine .inr ?_
        simp [hchain, bind, StateT.bind, get, getThe, MonadStateOf.get, StateT.get, set, StateT.set, pure,
          StateT.pure, astCall, kind_node, Kind.isMetered]
  · cases hm

theorem kind_convertRestPattern {meterRestPattern : Bool} {n m : Node}
    (hm : convertRestPattern meterRestPattern n = some m) : m.kind = n.kind := by
  unfold convertRestPattern at hm
  split at hm
  · split at hm
    · cases hm
    · cases hm
      rfl
  · split at hm
    · cases hm
      rfl
    · cases hm
  · cases hm

/-- A node keeps its kind or becomes metered. -/
theorem kind_convert (o : AllocatorOptions) (depth : ℕ) (tagged : Bool) (n : Node) (site : ℕ) :
    (convert o depth tagged n site).1.kind = n.kind ∨
      (convert o depth tagged n site).1.kind.isMetered = true := by
  rw [convert]
  cases hAllocator : convertAllocator o.specEvalOrder tagged n with
  | some m => exact .inr (kind_convertAllocator hAllocator)
  | none =>
    cases hCall : convertCallSpread o depth n with
    | some m => exact kind_convertCallSpread hCall site
    | none =>
      cases hRest : convertRestPattern o.meterRestPattern n with
      | none => exact .inl rfl
      | some m => exact .inl (kind_convertRestPattern hRest)

theorem kind_recur (o : AllocatorOptions) (depth : ℕ) (tagged : Bool) (n : Node) (site : ℕ) :
    (recur o depth tagged n site).1.kind = n.kind ∨ (recur o depth tagged n site).1.kind.isMetered = true := by
  obtain ⟨kind, fields⟩ := n
  obtain ⟨fields', site', hrecur, -, -⟩ := recur_step o depth tagged kind fields site
  rw [hrecur]
  exact kind_convert o depth tagged (node kind fields') site'

/-- What an owner becomes is an owner. -/
theorem isOwner_recur {o : AllocatorOptions} {n : Node} (h : n.IsOwner) (depth : ℕ) (tagged : Bool)
    (site : ℕ) : (recur o depth tagged n site).1.IsOwner := by
  obtain ⟨kind, fields⟩ := n
  have hkind : kind ≠ .taggedTemplateExpression ∧ kind ≠ .chainExpression := by
    constructor
    all_goals
      rintro rfl
      obtain h | h := h
      all_goals cases h
  have h' : (node kind (recurList o depth false fields site).1).IsOwner := h
  rw [recur_eq o depth tagged hkind.1 hkind.2, convert_owner o depth tagged h']
  unfold convertRestPattern
  split
  · split
    · exact h
    · exact .inl rfl
  · split
    · exact .inr rfl
    · exact h
  · exact h

/-- An owner below a node is rewritten, and what it becomes stands below what the node becomes. -/
theorem owner_survives {o : AllocatorOptions} {owner : Node} (howner : owner.IsOwner) (n : Node)
    (hshaped : ∀ m, Within m n → m.shape) (hwithin : Within owner n) (depth : ℕ) (tagged : Bool) (site : ℕ) :
    ∃ depth' tagged' site',
      Within (recur o depth' tagged' owner site').1 (recur o depth tagged n site).1 := by
  induction n using Node.induct generalizing depth tagged site with
  | step kind fields ih =>
    obtain rfl | ⟨hleaf, hfields⟩ := hwithin
    · exact ⟨depth, tagged, site, .refl _⟩
    · obtain ⟨c, hc, hwithin⟩ := withinList_iff.mp hfields
      obtain ⟨fields', site₁, hrecur, hmem, hshape⟩ := recur_step o depth tagged kind fields site
      obtain ⟨depth₁, tagged₁, site₂, hc'⟩ := hmem c hc
      have hbelow : ∀ m, Within m c → m.shape := fun m hm => hshaped m (.field hleaf hc hm)
      obtain ⟨depth', tagged', site', h⟩ := ih c hc hbelow hwithin depth₁ tagged₁ site₂
      refine ⟨depth', tagged', site', ?_⟩
      rw [hrecur]
      have hx : (recur o depth' tagged' owner site').1.IsOwner :=
        isOwner_recur howner depth' tagged' site'
      refine within_convert hx o depth tagged ?_ hleaf (withinList_iff.mpr ⟨_, hc', h⟩) site₁
      intro hkind
      exact hshape hkind (hshaped _ (.refl _))

end XChainVM.Metering
