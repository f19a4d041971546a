import XChainVM.Metering.BannedRest
import XChainVM.Metering.TransformKeeps

/-! # Rest elements are metered or reported

Every rest element either reads a source that the transform wraps in the helper of its pattern, or
is reported by the deploy check, and no rest element is both.
-/

namespace XChainVM.Metering

open Node

def restHelper : Kind → Option (Node → Node)
  | .objectPattern => some fun src => astCall "__objspreadmeter" [src]
  | .arrayPattern =>
    some fun src => astCall "__arrspread" [astArray [astArray [astLiteral (.string "s"), src]]]
  | _ => none

/-- The transform of `owner` keeps its pattern and wraps its source in the helper of the pattern. -/
def WrapsSource (o : AllocatorOptions) (depth : ℕ) (tagged : Bool) (site : ℕ) (owner : Node) : Prop :=
  ∃ kind pat src helper, owner = node kind [pat, src] ∧ restHelper pat.kind = some helper ∧
    (recur o depth tagged owner site).1 = node kind [(recur o depth false pat site).1,
      helper (recur o depth false src (recur o depth false pat site).2).1]

/-- The rest at this place is an element of a pattern whose source is wrapped in the transformed
program. -/
def Metered (o : AllocatorOptions) (ast : Node) (ancestors : Ancestors) : Prop :=
  ∃ elements i pat owner above, ancestors = ⟨list elements, i⟩ :: ⟨pat, 0⟩ :: ⟨owner, 0⟩ :: above ∧
    ∃ depth tagged site, WrapsSource o depth tagged site owner ∧
      Within (recur o depth tagged owner site).1 (transformAllocators o ast)

def Reported (ast : Node) (ancestors : Ancestors) : Prop := ∃ kind, ⟨kind, ancestors⟩ ∈ findBannedRest ast

section

variable {ast : SyntaxTree} {ancestors : Ancestors} {r : Node}

/-- The only field of a pattern is the array of its parts. -/
theorem pattern_fields {pat child : Node} {i : ℕ} (hshape : pat.shape) (hpat : pat.kind.isPattern = true)
    (hchild : pat.fields[i]? = some child) : i = 0 ∧ ∃ elements, child = list elements := by
  obtain ⟨kind, fields⟩ := pat
  cases kind
  case arrayPattern =>
    obtain ⟨elements, rfl⟩ := hshape
    obtain ⟨hi, rfl⟩ := getElem?_singleton hchild
    exact ⟨hi, elements, rfl⟩
  case objectPattern =>
    obtain ⟨elements, rfl⟩ := hshape
    obtain ⟨hi, rfl⟩ := getElem?_singleton hchild
    exact ⟨hi, elements, rfl⟩
  all_goals cases hpat

/-- The fields of an owner are its pattern and its source. -/
theorem owner_fields {owner : Node} (hshape : owner.shape) (howner : owner.IsOwner) :
    ∃ kind left right, owner = node kind [left, right] ∧ left.kind ≠ .list ∧ right.kind ≠ .list := by
  obtain ⟨kind, fields⟩ := owner
  obtain rfl | rfl : kind = .variableDeclarator ∨ kind = .assignmentExpression .assign := howner
  all_goals
    obtain ⟨left, right, rfl, hleft, hright⟩ := hshape
    exact ⟨_, left, right, rfl, hleft, hright⟩

theorem isOwner_of_hasSource {n : Node} (h : hasSource n = true) : n.IsOwner := by
  unfold hasSource at h
  split at h
  · exact .inl rfl
  · exact .inr rfl
  · cases h

@[simp] theorem stackOf_cons_list (elements : List Node) (i : ℕ) (above : Ancestors) :
    stackOf (⟨list elements, i⟩ :: above) = stackOf above := by
  simp [stackOf, Node.kind]

theorem stackOf_cons {f : Frame} (h : f.node.kind ≠ .list) (above : Ancestors) :
    stackOf (f :: above) = f :: stackOf above := by
  simp [stackOf, h]

/-- Some owner is the second node of the stack, and its pattern is where its first field is. -/
theorem ancestors_of_owner {pat : Node} {gp : Frame} {above stack : Ancestors}
    (hchain : Chain ast.root above pat) (hstack : stackOf above = gp :: stack) (hindex : gp.index = 0)
    (hsource : hasSource gp.node = true) : ∃ above', above = ⟨gp.node, 0⟩ :: above' := by
  cases above with
  | nil => cases hstack
  | cons f above =>
    obtain ⟨node, index⟩ := f
    obtain ⟨hchild, habove⟩ := hchain
    by_cases hlist : node.kind = .list
    · obtain ⟨elements, rfl⟩ := eq_list hlist
      rw [stackOf_cons_list] at hstack
      cases above with
      | nil => cases hstack
      | cons f above =>
        obtain ⟨hfield, habove⟩ := habove
        have hshape : f.node.shape := ast.shaped f.node (habove.within ast.shaped)
        rw [stackOf_cons (not_list_of_child_list hshape hfield rfl)] at hstack
        cases hstack
        obtain ⟨kind, left, right, howner, hleft, -⟩ := owner_fields hshape (isOwner_of_hasSource hsource)
        rw [hindex, howner] at hfield
        cases hfield
        exact absurd rfl hleft
    · rw [stackOf_cons hlist] at hstack
      cases hstack
      obtain rfl : index = 0 := hindex
      exact ⟨above, rfl⟩

/-- A metered rest is an element of the pattern that is the first field of an owner. -/
theorem ancestors_of_isMeteredRest (hchain : Chain ast.root ancestors r) (hr : r.kind = .restElement)
    (h : isMeteredRest (stackOf ancestors) = true) :
    ∃ elements i pat owner above, ancestors = ⟨list elements, i⟩ :: ⟨pat, 0⟩ :: ⟨owner, 0⟩ :: above ∧
      pat.kind.isPattern = true ∧ hasSource owner = true := by
  obtain ⟨parent, gp, stack, hstack, hpat, hindex, hsource⟩ : ∃ parent gp stack,
      stackOf ancestors = parent :: gp :: stack ∧ parent.node.kind.isPattern = true ∧ gp.index = 0 ∧
        hasSource gp.node = true := by
    unfold isMeteredRest at h
    split at h
    · next parent gp stack hstack =>
      simp only [Bool.and_eq_true, decide_eq_true_eq] at h
      exact ⟨parent, gp, stack, hstack, h.1.1, h.1.2, h.2⟩
    · cases h
  have hnotList : ∀ f : Frame, f.node.kind.isPattern = true → f.node.kind ≠ .list := by
    intro f hf hlist
    rw [hlist] at hf
    cases hf
  cases ancestors with
  | nil => cases hstack
  | cons f above =>
    obtain ⟨node, i⟩ := f
    obtain ⟨hchild, habove⟩ := hchain
    by_cases hlist : node.kind = .list
    · obtain ⟨elements, rfl⟩ := eq_list hlist
      rw [stackOf_cons_list] at hstack
      cases above with
      | nil => cases hstack
      | cons f above =>
        obtain ⟨hfield, habove⟩ := habove
        have hshape : f.node.shape := ast.shaped f.node (habove.within ast.shaped)
        rw [stackOf_cons (not_list_of_child_list hshape hfield rfl)] at hstack
        obtain ⟨rfl, hrest⟩ := List.cons.inj hstack
        obtain ⟨hzero, -⟩ := pattern_fields hshape hpat hfield
        obtain ⟨above', rfl⟩ := ancestors_of_owner habove hrest hindex hsource
        obtain ⟨pat, index⟩ := f
        obtain rfl : index = 0 := hzero
        exact ⟨elements, i, pat, gp.node, above', rfl, hpat, hsource⟩
    · rw [stackOf_cons hlist] at hstack
      obtain ⟨rfl, -⟩ := List.cons.inj hstack
      have hshape : node.shape := ast.shaped node (habove.within ast.shaped)
      obtain ⟨-, elements, rfl⟩ := pattern_fields hshape hpat hchild
      cases hr

end

section

variable (o : AllocatorOptions) (depth : ℕ) (tagged : Bool) (site : ℕ)

theorem recur_pair {kind : Kind} (htagged : kind ≠ .taggedTemplateExpression) (hchain : kind ≠ .chainExpression)
    (left right : Node) :
    ∃ site', recur o depth tagged (node kind [left, right]) site =
      convert o depth tagged (node kind [(recur o depth false left site).1,
        (recur o depth false right (recur o depth false left site).2).1]) site' := by
  rw [recur_eq o depth tagged htagged hchain]
  exact ⟨_, rfl⟩

/-- A pattern keeps its kind, and its rest element. -/
theorem recur_pattern {pat : Node} (hshape : pat.shape) (hpat : pat.kind.isPattern = true) :
    ∃ elements elements', pat = node pat.kind [list elements] ∧
      (recur o depth tagged pat site).1 = node pat.kind [list elements'] ∧
        (elements.any isRest = true → elements'.any isRest = true) := by
  obtain ⟨kind, fields⟩ := pat
  obtain ⟨elements, rfl⟩ : ∃ elements, fields = [list elements] := by
    cases kind
    case arrayPattern => exact hshape
    case objectPattern => exact hshape
    all_goals cases hpat
  have hconverts : kind.converts = false ∧ kind ≠ .chainExpression := by
    cases kind
    case arrayPattern => exact ⟨rfl, by simp⟩
    case objectPattern => exact ⟨rfl, by simp⟩
    all_goals cases hpat
  refine ⟨elements, (recurList o depth false elements site).1, rfl, ?_, ?_⟩
  · rw [recur_of_not_converts o depth tagged hconverts.1 hconverts.2, recurList_cons,
      recur_of_not_converts o depth false rfl (by simp)]
    rfl
  · intro hrest
    obtain ⟨e, he, hrest⟩ := List.any_eq_true.mp hrest
    obtain ⟨site', hmem⟩ := mem_recurList o depth false he site
    refine List.any_eq_true.mpr ⟨_, hmem, ?_⟩
    obtain ⟨kind, fields⟩ := e
    cases kind
    case restElement =>
      rw [recur_of_not_converts o depth false rfl (by simp)]
      rfl
    all_goals cases hrest

/-- Only an absent node becomes absent. -/
theorem recur_ne_absent {n : Node} (hn : n.kind ≠ .absent) : (recur o depth tagged n site).1.kind ≠ .absent := by
  rcases kind_recur o depth tagged n site with hsame | hmetered
  · rwa [hsame]
  · intro habsent
    rw [habsent] at hmetered
    cases hmetered

/-- The source of a metered rest is wrapped. -/
theorem wrapsSource_of_hasSource {owner pat : Node} {elements : List Node} (hmeter : o.meterRestPattern = true)
    (hshape : owner.shape) (hpatshape : pat.shape) (hsource : hasSource owner = true)
    (hpat : owner.fields[0]? = some pat) (hpattern : pat.kind.isPattern = true)
    (helements : pat.fields[0]? = some (list elements)) (hrest : elements.any isRest = true) :
    WrapsSource o depth tagged site owner := by
  have howner : owner.IsOwner := isOwner_of_hasSource hsource
  obtain ⟨kind, left, src, rfl, -, -⟩ := owner_fields hshape howner
  obtain rfl : left = pat := by simpa [Node.fields] using hpat
  obtain ⟨elements₀, elements', hnode, hrecur, hkeep⟩ := recur_pattern o depth false site hpatshape hpattern
  obtain rfl : elements₀ = elements := by
    rw [hnode] at helements
    simpa [Node.fields] using helements
  have hrest' := hkeep hrest
  have hkinds : kind ≠ .taggedTemplateExpression ∧ kind ≠ .chainExpression := by
    obtain rfl | rfl : kind = .variableDeclarator ∨ kind = .assignmentExpression .assign := howner
    all_goals simp
  obtain ⟨site', hpair⟩ := recur_pair o depth tagged site hkinds.1 hkinds.2 left src
  obtain ⟨helper, hhelper, hmeterRest⟩ : ∃ helper, restHelper left.kind = some helper ∧
      ∀ n, meterRestSource (node left.kind [list elements']) n = helper n := by
    cases hk : left.kind
    case arrayPattern => exact ⟨_, rfl, fun n => by simp [meterRestSource, hrest']⟩
    case objectPattern => exact ⟨_, rfl, fun n => by simp [meterRestSource, hrest']⟩
    all_goals
      rw [hk] at hpattern
      cases hpattern
  refine ⟨kind, left, src, helper, rfl, hhelper, ?_⟩
  have howner' : (node kind [(recur o depth false left site).1,
      (recur o depth false src (recur o depth false left site).2).1]).IsOwner := howner
  rw [hpair, convert_owner o depth tagged howner', hrecur]
  obtain rfl | rfl : kind = .variableDeclarator ∨ kind = .assignmentExpression .assign := howner
  · have hinit : src.kind ≠ .absent := by simpa [hasSource] using hsource
    have hinit' := recur_ne_absent o depth false (recur o depth false left site).2 hinit
    simp [convertRestPattern, hmeter, hinit', hmeterRest]
  · have hleft : left.kind = .arrayPattern ∨ left.kind = .objectPattern := by
      cases hk : left.kind
      case arrayPattern => exact .inl rfl
      case objectPattern => exact .inr rfl
      all_goals
        rw [hk] at hpattern
        cases hpattern
    simp only [convertRestPattern, hmeter, kind_node, hmeterRest, Bool.true_and]
    rw [if_pos (by obtain h | h := hleft <;> rw [h] <;> rfl)]
    rfl

theorem isPattern_of_restHelper {kind : Kind} {helper : Node → Node} (h : restHelper kind = some helper) :
    kind.isPattern = true ∧ ∀ n, (helper n).kind = .callExpression false ∧ helper n ≠ n := by
  unfold restHelper at h
  split at h
  case h_3 => cases h
  all_goals
    cases h
    refine ⟨rfl, fun n => ⟨rfl, fun heq => ?_⟩⟩
    have hsize := congrArg sizeOf heq
    simp only [astCall, astArray, Node.node.sizeOf_spec, List.cons.sizeOf_spec, List.nil.sizeOf_spec] at hsize
    omega

theorem recur_absent {n : Node} (hn : n.kind = .absent) : (recur o depth tagged n site).1.kind = .absent := by
  obtain ⟨kind, fields⟩ := n
  obtain rfl : kind = .absent := hn
  rw [recur_of_not_converts o depth tagged rfl (by simp)]
  rfl

theorem recur_pattern_kind {pat : Node} (hpat : pat.kind.isPattern = true) :
    (recur o depth tagged pat site).1.kind = pat.kind := by
  obtain ⟨kind, fields⟩ := pat
  have hkind : kind.converts = false ∧ kind ≠ .chainExpression := by
    cases kind
    case arrayPattern => exact ⟨rfl, by simp⟩
    case objectPattern => exact ⟨rfl, by simp⟩
    all_goals cases hpat
  rw [recur_of_not_converts o depth tagged hkind.1 hkind.2]
  rfl

variable {kind : Kind} {pat src : Node}

/-- No conversion with a pattern as its first field yields a node of the same kind. -/
theorem convertAllocator_pattern {specEvalOrder : Bool} {m : Node} (hpat : pat.kind.isPattern = true)
    (htagged : kind ≠ .taggedTemplateExpression)
    (hm : convertAllocator specEvalOrder tagged (node kind [pat, src]) = some m) : m.kind ≠ kind := by
  simp only [convertAllocator, Option.or_eq_some_iff] at hm
  obtain hm | ⟨-, hm | ⟨-, hm | ⟨-, hm | ⟨-, hm⟩⟩⟩⟩ := hm
  · unfold convertConcat at hm
    split at hm
    case h_1 heq =>
      cases heq
      cases hm
      simp [astCall, kind_node]
    case h_2 heq =>
      cases heq
      cases hpat
    case h_3 heq =>
      cases heq
      cases hpat
    case h_4 => cases hm
  · unfold convertTaggedTemplate at hm
    split at hm
    · next heq =>
      cases heq
      exact absurd rfl htagged
    · cases hm
  · split at hm
    · cases hm
    unfold convertTemplateLiteral at hm
    split at hm
    · next heq =>
      cases heq
      cases hpat
    · cases hm
  · unfold convertArraySpread at hm
    split at hm
    · next heq => cases heq
    · cases hm
  · unfold convertObjectSpread at hm
    split at hm
    · next heq => cases heq
    · cases hm

/-- A rebuilt call does not have a call where its arguments were. -/
theorem convertCallSpread_pattern {m : StateM ℕ Node} (hpat : pat.kind.isPattern = true)
    (hm : convertCallSpread o depth (node kind [pat, src]) = some m) {n : Node}
    (hn : n.kind = .callExpression false) : (m site).1 ≠ node kind [pat, n] := by
  unfold convertCallSpread at hm
  split at hm
  · next callee args heq =>
    cases heq
    have hheld : ∀ rest, node kind [pat, list rest] ≠ node kind [pat, n] := by
      intro rest heq
      cases heq
      cases hn
    split at hm
    · cases hm
    split at hm
    · cases hm
      exact hheld _
    · cases hm
      by_cases hchain : depth > 0
      · simpa [hchain, bind, StateT.bind, get, getThe, MonadStateOf.get, StateT.get, set, StateT.set,
          pure, StateT.pure] using hheld _
      · simp only [hchain, bind, StateT.bind, get, getThe, MonadStateOf.get, StateT.get, set, StateT.set,
          pure, StateT.pure, if_false]
        intro heq
        cases heq
        cases hpat
  · cases hm

/-- Only an owner with a source has its source wrapped. -/
theorem hasSource_of_wrapsSource {owner : Node} (hshape : owner.shape)
    (h : WrapsSource o depth tagged site owner) : hasSource owner = true := by
  obtain ⟨kind, pat, src, helper, rfl, hhelper, heq⟩ := h
  obtain ⟨hpattern, hcall⟩ := isPattern_of_restHelper hhelper
  have hpat : (recur o depth false pat site).1.kind.isPattern = true := by
    rw [recur_pattern_kind o depth false site hpattern]
    exact hpattern
  have htagged : kind ≠ .taggedTemplateExpression := by
    rintro rfl
    obtain ⟨tag, quasi, hfields, htag⟩ := hshape
    cases hfields
    rw [hpattern] at htag
    cases htag
  have hchain : kind ≠ .chainExpression := by
    rintro rfl
    obtain ⟨e, hfields⟩ := hshape
    cases hfields
  obtain ⟨site', hpair⟩ := recur_pair o depth tagged site htagged hchain pat src
  rw [hpair, convert] at heq
  generalize (recur o depth false pat site).1 = pat' at heq hpat
  generalize hsrc : (recur o depth false src (recur o depth false pat site).2).1 = src' at heq
  cases hAllocator : convertAllocator o.specEvalOrder tagged (node kind [pat', src']) with
  | some m =>
    rw [hAllocator] at heq
    have hm : m = node kind [pat', helper src'] := heq
    exact absurd (congrArg Node.kind hm) (convertAllocator_pattern tagged hpat htagged hAllocator)
  | none =>
    rw [hAllocator] at heq
    cases hCall : convertCallSpread o depth (node kind [pat', src']) with
    | some m =>
      rw [hCall] at heq
      exact absurd heq (convertCallSpread_pattern o depth site' hpat hCall (hcall src').1)
    | none =>
      rw [hCall] at heq
      have hrest : (convertRestPattern o.meterRestPattern (node kind [pat', src'])).getD (node kind [pat', src']) =
          node kind [pat', helper src'] := heq
      unfold convertRestPattern at hrest
      split at hrest
      · next id init hnode =>
        cases hnode
        split at hrest
        · next hgate =>
          have hsame : src' = helper src' := by
            simpa using hrest
          exact absurd hsame.symm (hcall src').2
        · next hgate =>
          have hinit : src'.kind ≠ .absent := by
            intro habsent
            simp [habsent] at hgate
          have hinit' : src.kind ≠ .absent := by
            intro habsent
            rw [← hsrc, recur_absent o depth false _ habsent] at hinit
            exact hinit rfl
          simpa [hasSource] using hinit'
      · next left right hnode =>
        cases hnode
        rfl
      · have hsame : src' = helper src' := by
          simpa using hrest
        exact absurd hsame.symm (hcall src').2

end

theorem not_reported_iff {ast r : Node} {ancestors : Ancestors} (hmem : (ancestors, r) ∈ ast.positions [])
    (hr : r.kind = .restElement) : ¬Reported ast ancestors ↔ isMeteredRest (stackOf ancestors) = true := by
  rw [Reported, reported_iff hmem hr, Bool.not_eq_false]

theorem metered_of_isMeteredRest {o : AllocatorOptions} (hmeter : o.meterRestPattern = true) {ast : SyntaxTree}
    {ancestors : Ancestors} {r : Node} (hchain : Chain ast.root ancestors r) (hr : r.kind = .restElement)
    (h : isMeteredRest (stackOf ancestors) = true) : Metered o ast.root ancestors := by
  obtain ⟨elements, i, pat, owner, above, rfl, hpattern, hsource⟩ := ancestors_of_isMeteredRest hchain hr h
  obtain ⟨hrest, hlist, hpat, howner⟩ := hchain
  have hwithin : Within owner ast.root := howner.within ast.shaped
  have hchainPat : Chain ast.root (⟨owner, 0⟩ :: above) pat := ⟨hpat, howner⟩
  obtain ⟨depth, tagged, site, hsurvives⟩ :=
    owner_survives (o := o) (isOwner_of_hasSource hsource) ast.root ast.shaped hwithin 0 false 0
  refine ⟨elements, i, pat, owner, above, rfl, depth, tagged, site, ?_, hsurvives⟩
  refine wrapsSource_of_hasSource o depth tagged site hmeter (ast.shaped owner hwithin)
    (ast.shaped pat (hchainPat.within ast.shaped)) hsource hpat hpattern hlist ?_
  refine List.any_eq_true.mpr ⟨r, List.mem_of_getElem? hrest, ?_⟩
  obtain ⟨kind, fields⟩ := r
  obtain rfl : kind = .restElement := hr
  rfl

theorem isMeteredRest_of_metered {o : AllocatorOptions} {ast : SyntaxTree} {ancestors : Ancestors} {r : Node}
    (hchain : Chain ast.root ancestors r) (h : Metered o ast.root ancestors) :
    isMeteredRest (stackOf ancestors) = true := by
  obtain ⟨elements, i, pat, owner, above, rfl, depth, tagged, site, hwraps, -⟩ := h
  obtain ⟨-, hlist, hpat, howner⟩ := hchain
  have hshape : owner.shape := ast.shaped owner (howner.within ast.shaped)
  have hsource := hasSource_of_wrapsSource o depth tagged site hshape hwraps
  obtain ⟨kind, left, src, helper, rfl, hhelper, -⟩ := hwraps
  obtain rfl : left = pat := by simpa [Node.fields] using hpat
  have hpattern := (isPattern_of_restHelper hhelper).1
  have hpatList : left.kind ≠ .list := by
    intro heq
    rw [heq] at hpattern
    cases hpattern
  have hownerList : (node kind [left, src]).kind ≠ .list := by
    intro heq
    obtain hkind | hkind := isOwner_of_hasSource hsource
    all_goals
      rw [heq] at hkind
      cases hkind
  rw [stackOf_cons_list, stackOf_cons hpatList, stackOf_cons hownerList]
  simp [isMeteredRest, hpattern, hsource]

/-- A rest element of a parsed program is metered or reported, and never both. -/
theorem rest_metered_or_reported (o : AllocatorOptions) (hmeter : o.meterRestPattern = true) (ast : SyntaxTree)
    (ancestors : Ancestors) (r : Node) (hmem : (ancestors, r) ∈ ast.root.positions [])
    (hr : r.kind = .restElement) : Xor (Metered o ast.root ancestors) (Reported ast.root ancestors) := by
  have hroot : Chain ast.root [] ast.root := rfl
  have hchain := chain_positions ast.root hroot hmem
  have hmetered : Metered o ast.root ancestors ↔ ¬Reported ast.root ancestors := by
    rw [not_reported_iff hmem hr]
    exact ⟨isMeteredRest_of_metered hchain, metered_of_isMeteredRest hmeter hchain hr⟩
  exact xor_iff_iff_not.mpr hmetered

/-- `[...c]`. -/
def restPattern : Node := node .arrayPattern [list [node .restElement [astIdent "c"]]]

/-- `var [...c] = a`. -/
def restDeclaration : SyntaxTree where
  root := node .variableDeclarator [restPattern, astIdent "a"]
  shaped := by
    intro n hn
    simp only [Within, WithinList, restPattern, astIdent, Kind.isLeaf, Bool.true_eq_false, false_and, true_and,
      or_false] at hn
    obtain rfl | (rfl | rfl | rfl | rfl) | rfl := hn
    · exact ⟨_, _, rfl, by simp [kind_node], by simp [kind_node]⟩
    · exact ⟨_, rfl⟩
    · simp [shape, kind_node]
    · exact nofun
    · exact fun _ => rfl
    · exact fun _ => rfl

theorem rest_metered_or_reported_declaration :
    Xor (Metered ⟨true, true, true, true⟩ restDeclaration.root
        [⟨list [node .restElement [astIdent "c"]], 0⟩, ⟨restPattern, 0⟩, ⟨restDeclaration.root, 0⟩])
      (Reported restDeclaration.root
        [⟨list [node .restElement [astIdent "c"]], 0⟩, ⟨restPattern, 0⟩, ⟨restDeclaration.root, 0⟩]) :=
  rest_metered_or_reported ⟨true, true, true, true⟩ rfl restDeclaration _ (node .restElement [astIdent "c"])
    (by simp [Node.positions, Node.positionsOf, restDeclaration, restPattern]) rfl

end XChainVM.Metering
