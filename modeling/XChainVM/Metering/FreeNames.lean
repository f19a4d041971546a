import XChainVM.Metering.MeteredNames

/-! # The free names of metered code

The charges close the fresh names they introduce, and the later phases change neither what
a node declares nor, apart from the reserved names, what is free in it.
-/

namespace XChainVM.Metering

open Node

theorem Node.identifiersList_eq (ns : List Node) : identifiersList ns = ns.flatMap identifiers := by
  induction ns with
  | nil => rfl
  | cons n rest ih => rw [identifiersList, ih, List.flatMap_cons]

theorem Node.mem_identifiers_node {kind : Kind} {fields : List Node} {x : String} :
    x ∈ identifiers (node kind fields) ↔
      kind = .identifier x ∨ (∀ y, kind ≠ .identifier y) ∧ ∃ n ∈ fields, x ∈ identifiers n := by
  by_cases hident : ∃ y, kind = .identifier y
  · obtain ⟨y, rfl⟩ := hident
    simp [identifiers, eq_comm]
  · rw [identifiers.eq_2 _ _ (not_exists.mp hident), identifiersList_eq, List.mem_flatMap]
    grind

def Closed (x : String) (n : Node) : Prop := ∀ strict, x ∉ freeNames strict n

variable {x : String}

theorem closed_node {kind : Kind} {fields : List Node} (hkind : ∀ y, kind ≠ .identifier y)
    (h : ∀ n ∈ fields, Closed x n) : Closed x (node kind fields) := by
  intro strict hx
  obtain ⟨i, n, hn, hx, -⟩ := (mem_freeNames_node hkind).mp hx
  exact h n (List.mem_of_getElem? hn) _ hx

@[simp] theorem closed_astIdent {y : String} : Closed x (astIdent y) ↔ x ≠ y := by
  simp [Closed, astIdent]

@[simp] theorem closed_absent : Closed x absent := closed_node (by simp) (by simp)

@[simp] theorem closed_astLiteral (value : LiteralValue) : Closed x (astLiteral value) :=
  closed_node (by simp) (by simp)

@[simp] theorem closed_list {ns : List Node} : Closed x (list ns) ↔ ∀ n ∈ ns, Closed x n := by
  constructor
  · intro h n hn strict hx
    exact h strict (mem_freeNames_list.mpr ⟨n, hn, hx⟩)
  · exact closed_node (by simp)

@[simp] theorem closed_functionBody {body : List Node} :
    Closed x (node .functionBody [list body]) ↔ ∀ n ∈ body, Closed x n := by
  constructor
  · intro h n hn strict hx
    refine h strict ((mem_freeNames_plain (by simp) rfl fun _ => rfl).mpr ⟨_, List.mem_singleton_self _, ?_⟩)
    exact mem_freeNames_list.mpr ⟨n, hn, hx⟩
  · exact fun h => closed_node (by simp) (by simpa using h)

theorem closed_callStatement {name : String} {args : List Node} (hname : x ≠ name) (h : ∀ n ∈ args, Closed x n) :
    Closed x (callStatement name args) := by
  refine closed_node (by simp) (List.forall_mem_singleton.mpr (closed_node (by simp) ?_))
  simpa [hname] using h

theorem closed_gasCallExpr (hx : x ≠ "__gas") : Closed x gasCallExpr :=
  closed_node (by simp) (by simp [hx])

theorem closed_gasCallStatement (hx : x ≠ "__gas") : Closed x gasCallStatement :=
  closed_node (by simp) (by simp [closed_gasCallExpr hx])

theorem closed_gasCheckStatement {y : String} (hx : x ≠ "__gas") (hy : x ≠ y) :
    Closed x (gasCheckStatement y) :=
  closed_callStatement hx (by simp [hy])

theorem closed_wrapWithGas (hx : x ≠ "__gas") {e : Node} (h : Closed x e) : Closed x (wrapWithGas e) :=
  closed_node (by simp) (by simp [closed_gasCallExpr hx, h])

/-- A name closed in the statements before a block's own is closed in the whole block. -/
theorem closed_block_append (before : List Node) {body : List Node} (hbefore : ∀ n ∈ before, Closed x n)
    (h : Closed x (block body)) : Closed x (block (before ++ body)) := by
  intro strict hx
  obtain ⟨⟨n, hn, hfree⟩, hscope⟩ := mem_freeNames_block.mp hx
  rcases List.mem_append.mp hn with hn | hn
  · exact hbefore n hn strict hfree
  · refine h strict (mem_freeNames_block.mpr ⟨⟨n, hn, hfree⟩, fun hbody => hscope ?_⟩)
    simp only [Names.ofBlock, Names.list, List.map_append, List.flatMap_append, List.mem_append] at hbody ⊢
    grind

theorem closed_unshift {statement n : Node} (hs : Closed x statement) (h : Closed x n) :
    Closed x (unshift statement n) := by
  unfold unshift
  split
  · exact closed_block_append [statement] (by simpa using hs) h
  · exact h

theorem closed_ensureBlock {n : Node} (h : Closed x n) : Closed x (ensureBlock n) := by
  unfold ensureBlock
  split
  · exact h
  · exact closed_node (by simp) (by simpa using h)

theorem closed_insertGasAfterDirectives (hx : x ≠ "__gas") {body : List Node} (h : ∀ n ∈ body, Closed x n) :
    ∀ n ∈ insertGasAfterDirectives body, Closed x n := by
  rw [← List.takeWhile_append_dropWhile (p := isDirective) (l := body), List.forall_mem_append] at h
  rw [insertGasAfterDirectives, List.forall_mem_append, List.forall_mem_cons]
  exact ⟨h.1, closed_gasCallStatement hx, h.2⟩

theorem closed_chargeFunctionEntry (hx : x ≠ "__gas") {body : Node} (h : Closed x body) :
    Closed x (chargeFunctionEntry body) := by
  unfold chargeFunctionEntry
  split
  · exact closed_functionBody.mpr (closed_insertGasAfterDirectives hx (closed_functionBody.mp h))
  · exact h

theorem closed_chargeArrow (hx : x ≠ "__gas") {body : Node} (h : Closed x body) : Closed x (chargeArrow body) := by
  unfold chargeArrow
  split
  · exact closed_functionBody.mpr (closed_insertGasAfterDirectives hx (closed_functionBody.mp h))
  · exact closed_wrapWithGas hx h

theorem closed_chargeLoopBody (hx : x ≠ "__gas") {body : Node} (h : Closed x body) :
    Closed x (chargeLoopBody body) :=
  closed_unshift (closed_gasCallStatement hx) (closed_ensureBlock h)

theorem closed_chargeUpdate (hx : x ≠ "__gas") {update : Node} (h : Closed x update) :
    Closed x (chargeUpdate update) := by
  unfold chargeUpdate
  split
  · exact closed_gasCallExpr hx
  · exact closed_wrapWithGas hx h

theorem closed_chargeAlternate (hx : x ≠ "__gas") {alternate : Node} (h : Closed x alternate) :
    Closed x (chargeAlternate alternate) := by
  unfold chargeAlternate
  split
  · exact h
  · exact closed_chargeLoopBody hx h

theorem closed_chargeCase (hx : x ≠ "__gas") {consequent : List Node} (h : ∀ n ∈ consequent, Closed x n) :
    ∀ n ∈ chargeCase consequent, Closed x n := by
  unfold chargeCase
  split
  · simp
  · exact List.forall_mem_cons.mpr ⟨closed_gasCallStatement hx, h⟩

theorem mem_freeNames_catch {strict : Bool} {param body : Node} :
    x ∈ freeNames strict (node .catchClause [param, body]) ↔
      (x ∈ freeNames strict param ∨ x ∈ freeNames strict body) ∧ x ∉ param.names.bound := by
  rw [mem_freeNames_node (by simp)]
  simp only [strictWithin, scopes, List.map_cons, List.map_nil, List.mem_singleton, forall_eq]
  constructor
  · rintro ⟨i, n, hn, hx, hscope⟩
    rcases i with _ | _ | i
    · cases hn
      exact ⟨.inl hx, hscope⟩
    · cases hn
      exact ⟨.inr hx, hscope⟩
    · simp at hn
  · rintro ⟨hx | hx, hscope⟩
    · exact ⟨0, param, rfl, hx, hscope⟩
    · exact ⟨1, body, rfl, hx, hscope⟩

theorem closed_catch {y : String} {fields : List Node} {body : Node} (h : x ≠ y → Closed x body) :
    Closed x (node .catchClause [node (.identifier y) fields, body]) := by
  intro strict hfree
  obtain ⟨hfree, hbound⟩ := mem_freeNames_catch.mp hfree
  have hx : x ≠ y := by simpa [names_node, Names.combine] using hbound
  rcases hfree with hfree | hfree
  · exact hx (by simpa using hfree)
  · exact h hx strict hfree

theorem mem_freeNames_letDeclaration {strict : Bool} {id init : Node} :
    x ∈ freeNames strict (letDeclaration id init) ↔ x ∈ freeNames strict id ∨ x ∈ freeNames strict init := by
  rw [letDeclaration, mem_freeNames_plain (by simp) rfl fun _ => rfl]
  simp only [List.mem_singleton, exists_eq_left, mem_freeNames_list]
  rw [mem_freeNames_plain (by simp) rfl fun _ => rfl]
  simp

theorem names_letDeclaration (id init : Node) :
    (letDeclaration id init).names = { lexical := id.names.bound } := by
  simp [letDeclaration, names_node, Names.combine, Names.list]

theorem closed_armHandler (hx : x ≠ "__gas") {names : ArmedNames} {handler : Node} (h : Closed x handler) :
    Closed x (armHandler names handler) := by
  unfold armHandler
  split
  case h_1 y fields body =>
    refine closed_catch fun hy => closed_block_append [_] ?_ fun strict hfree => ?_
    · simpa using closed_gasCheckStatement hx hy
    · refine h strict (mem_freeNames_catch.mpr ⟨.inr hfree, ?_⟩)
      simpa [names_node, Names.combine] using hy
  case h_2 fields body =>
    refine closed_catch fun hy => closed_block_append [_] ?_ fun strict hfree => ?_
    · simpa using closed_gasCheckStatement hx hy
    · refine h strict (mem_freeNames_catch.mpr ⟨.inr hfree, ?_⟩)
      simp [names_node, Names.combine]
  case h_3 param body _ _ =>
    refine closed_catch fun hy => closed_block_append [_] (by simpa using closed_gasCheckStatement hx hy) ?_
    intro strict hfree
    obtain ⟨⟨n, hn, hfree⟩, hscope⟩ := mem_freeNames_block.mp hfree
    rw [List.map_cons, names_letDeclaration] at hscope
    simp only [Names.ofBlock, Names.list, List.flatMap_cons, List.mem_append, not_or, List.nil_append] at hscope
    rcases List.mem_cons.mp hn with rfl | hn
    · rcases mem_freeNames_letDeclaration.mp hfree with hfree | hfree
      · exact h strict (mem_freeNames_catch.mpr ⟨.inl hfree, hscope.1.1⟩)
      · exact hy (by simpa [astIdent] using hfree)
    · refine h strict (mem_freeNames_catch.mpr ⟨.inr (mem_freeNames_block.mpr ⟨⟨n, hn, hfree⟩, ?_⟩), hscope.1.1⟩)
      simpa [Names.ofBlock, Names.list] using And.intro hscope.1.2 hscope.2
  · exact h

theorem closed_record {names : ArmedNames} (hflag : x ≠ names.flag) : Closed x (record names) := by
  refine closed_catch fun hcaught => closed_node (by simp) ?_
  rw [List.forall_mem_singleton, closed_list, List.forall_mem_cons, List.forall_mem_singleton]
  constructor
  · refine closed_node (by simp) (List.forall_mem_singleton.mpr (closed_node (by simp) ?_))
    simp [hflag, hcaught]
  · exact closed_node (by simp) (by simp [hcaught])

theorem closed_tryStatement {fields : List Node} (h : ∀ n ∈ fields, Closed x n) :
    Closed x (node .tryStatement fields) :=
  closed_node (by simp) h

theorem closed_armTryStatement (hx : x ≠ "__gas") {names : ArmedNames} {fields : List Node}
    (h : ∀ n ∈ fields, Closed x n) : Closed x (armTryStatement names (node .tryStatement fields)) := by
  unfold armTryStatement
  split
  case h_2 => exact closed_tryStatement h
  case h_1 body handler finalizer hnode =>
    cases hnode
    simp only [List.forall_mem_cons, List.not_mem_nil, false_implies, implies_true, and_true] at h
    have hBody : Closed x (unshift gasCallStatement body) := closed_unshift (closed_gasCallStatement hx) h.1
    have hHandler : Closed x (armHandler names handler) := closed_armHandler hx h.2.1
    by_cases hfinally : finalizer.kind = .absent
    · simp only [hfinally, if_true]
      exact closed_tryStatement (by simp [hBody, hHandler, h.2.2])
    · simp only [hfinally, if_false]
      intro strict hfree
      obtain ⟨⟨n, hn, hfree⟩, hscope⟩ := mem_freeNames_block.mp hfree
      have hflag : x ≠ names.flag := by
        rintro rfl
        apply hscope
        simp [names_letDeclaration, Names.ofBlock, Names.list, astIdent, names_node, Names.combine]
      simp only [List.mem_cons, List.not_mem_nil, or_false] at hn
      rcases hn with rfl | rfl
      · rcases mem_freeNames_letDeclaration.mp hfree with hfree | hfree
        · exact hflag (by simpa [astIdent] using hfree)
        · exact closed_absent strict hfree
      · refine closed_tryStatement ?_ strict hfree
        simp only [List.forall_mem_cons, List.not_mem_nil, false_implies, implies_true, and_true]
        refine ⟨?_, closed_record hflag, closed_unshift (closed_gasCheckStatement hx hflag) h.2.2⟩
        split
        · exact hBody
        · exact closed_node (by simp) (by simpa using closed_tryStatement (by simp [hBody, hHandler]))

theorem closed_chargeTry (hx : x ≠ "__gas") {fields : List Node} (h : ∀ n ∈ fields, Closed x n) :
    Closed x (chargeTry (node .tryStatement fields)) := by
  unfold chargeTry
  split
  case h_2 => exact closed_tryStatement h
  case h_1 body handler finalizer hnode =>
    cases hnode
    simp only [List.forall_mem_cons, List.not_mem_nil, false_implies, implies_true, and_true] at h
    refine closed_tryStatement ?_
    simp only [List.forall_mem_cons, List.not_mem_nil, false_implies, implies_true, and_true]
    refine ⟨closed_unshift (closed_gasCallStatement hx) h.1, ?_, closed_unshift (closed_gasCallStatement hx) h.2.2⟩
    split
    case h_2 => exact h.2.1
    case h_1 param body =>
      intro strict hfree
      obtain ⟨hfree, hbound⟩ := mem_freeNames_catch.mp hfree
      rcases hfree with hfree | hfree
      · exact h.2.1 strict (mem_freeNames_catch.mpr ⟨.inl hfree, hbound⟩)
      · refine closed_unshift (closed_gasCallStatement hx) (fun strict hfree => ?_) strict hfree
        exact h.2.1 strict (mem_freeNames_catch.mpr ⟨.inr hfree, hbound⟩)

theorem closed_chargeBlock (hx : x ≠ "__gas") (names : Option ArmedNames) {kind : Kind} {fields : List Node}
    (hkind : kind ≠ .identifier x) (h : ∀ n ∈ fields, Closed x n) :
    Closed x (chargeBlock names (node kind fields)) := by
  generalize hn : node kind fields = n
  unfold chargeBlock
  split
  all_goals cases hn
  all_goals try simp only [List.forall_mem_cons, List.not_mem_nil, false_implies, implies_true, and_true] at h
  case h_1 | h_2 => exact closed_node (by simp) (by simp [h, closed_chargeFunctionEntry hx])
  case h_3 => exact closed_node (by simp) (by simp [h, closed_chargeArrow hx])
  case h_4 => exact closed_node (by simp) (by simp [h, closed_chargeUpdate hx, closed_chargeLoopBody hx])
  case h_5 | h_6 | h_7 | h_8 => exact closed_node (by simp) (by simp [h, closed_chargeLoopBody hx])
  case h_9 =>
    refine closed_node (by simp) ?_
    simp [h, closed_chargeAlternate hx, closed_unshift (closed_gasCallStatement hx) (closed_ensureBlock h.2.1)]
  case h_10 =>
    refine closed_node (by simp) ?_
    simpa [h.2] using closed_chargeCase hx (closed_list.mp h.1)
  case h_11 =>
    cases names with
    | none => exact closed_chargeTry hx h
    | some names => exact closed_armTryStatement hx h
  case h_12 => exact closed_node (by simp) (by simp [h, closed_wrapWithGas hx])
  case h_13 =>
    by_cases hident : ∃ y, kind = .identifier y
    · obtain ⟨y, rfl⟩ := hident
      intro strict hfree
      rw [freeNames_identifier, List.mem_singleton] at hfree
      exact hkind (by rw [hfree])
    · exact closed_node (not_exists.mp hident) h

theorem closed_injectBlockGas (hx : x ≠ "__gas") (names : Option ArmedNames) {n : Node}
    (h : x ∉ n.identifiers) : Closed x (injectBlockGas names n) := by
  induction n using Node.induct with
  | step kind fields ih =>
    rw [injectBlockGas, mapUp, mapUpList_eq]
    rw [mem_identifiers_node, not_or] at h
    by_cases hident : ∃ y, kind = .identifier y
    · obtain ⟨y, rfl⟩ := hident
      exact closed_astIdent.mpr fun hxy => h.1 (by rw [hxy])
    · refine closed_chargeBlock hx names h.1 ?_
      intro m hm
      obtain ⟨n, hn, rfl⟩ := List.mem_map.mp hm
      exact ih n hn fun hfree => h.2 ⟨not_exists.mp hident, n, hn, hfree⟩

/-- The rewrite keeps what a node declares and frees reserved names only. -/
structure KeepsScopes (f : Node → Node) : Prop where
  names : ∀ n, (f n).names = n.names
  free : ∀ strict n, ∀ x ∈ freeNames strict (f n), x ∈ freeNames strict n ∨ x ∈ RESERVED_IDENTIFIERS

theorem KeepsScopes.comp {f g : Node → Node} (hg : KeepsScopes g) (hf : KeepsScopes f) :
    KeepsScopes fun n => g (f n) where
  names n := (hg.names _).trans (hf.names n)
  free strict n x hx := (hg.free strict _ x hx).elim (hf.free strict n x) .inr

/-- Children declare the same, and free reserved names only. -/
theorem freeNames_map {f : Node → Node} (hnames : ∀ n, (f n).names = n.names) {kind : Kind} {fields : List Node}
    (hfree : ∀ n ∈ fields, ∀ strict, ∀ x ∈ freeNames strict (f n),
      x ∈ freeNames strict n ∨ x ∈ RESERVED_IDENTIFIERS) {strict : Bool} {x : String}
    (hx : x ∈ freeNames strict (node kind (fields.map f))) :
    x ∈ freeNames strict (node kind fields) ∨ x ∈ RESERVED_IDENTIFIERS := by
  by_cases hident : ∃ y, kind = .identifier y
  · obtain ⟨y, rfl⟩ := hident
    rw [freeNames_identifier] at hx ⊢
    exact .inl hx
  · have hsame : (fields.map f).map Node.names = fields.map Node.names := by simp [hnames]
    rw [mem_freeNames_node (not_exists.mp hident), hsame] at hx
    obtain ⟨i, n, hn, hx, hscope⟩ := hx
    rw [List.getElem?_map, Option.map_eq_some_iff] at hn
    obtain ⟨m, hm, rfl⟩ := hn
    rcases hfree m (List.mem_of_getElem? hm) _ x hx with hx | hx
    · exact .inl ((mem_freeNames_node (not_exists.mp hident)).mpr ⟨i, m, hm, hx, hscope⟩)
    · exact .inr hx

theorem KeepsScopes.mapUp {f : Node → Node} (hf : KeepsScopes f) : KeepsScopes (Node.mapUp f) := by
  have hnames (n : Node) : (Node.mapUp f n).names = n.names := by
    induction n using Node.induct with
    | step kind fields ih =>
      rw [Node.mapUp, mapUpList_eq, hf.names, names_node, names_node, List.map_map]
      exact congrArg _ (List.map_congr_left fun n hn => ih n hn)
  refine ⟨hnames, fun strict n => ?_⟩
  induction n using Node.induct generalizing strict with
  | step kind fields ih =>
    intro x hx
    rw [Node.mapUp, mapUpList_eq] at hx
    rcases hf.free strict _ x hx with hx | hx
    · exact freeNames_map hnames (fun n hn strict => ih n hn strict) hx
    · exact .inr hx

theorem mem_freeNames_wrapWithGas {strict : Bool} {e : Node} (hx : x ∈ freeNames strict (wrapWithGas e)) :
    x ∈ freeNames strict e ∨ x ∈ RESERVED_IDENTIFIERS := by
  rw [wrapWithGas, mem_freeNames_plain (by simp) rfl fun _ => rfl] at hx
  simp only [exists_eq_left, mem_freeNames_list, List.mem_cons, List.not_mem_nil, or_false, exists_eq_or_imp] at hx
  rcases hx with hx | hx
  · by_cases hgas : x = "__gas"
    · exact .inr (by simp [hgas, RESERVED_IDENTIFIERS])
    · exact absurd hx (closed_gasCallExpr hgas strict)
  · exact .inl hx

theorem mem_freeNames_binary {strict : Bool} {op : BinaryOperator} {fields : List Node} :
    x ∈ freeNames strict (node (.binaryExpression op) fields) ↔ ∃ n ∈ fields, x ∈ freeNames strict n :=
  mem_freeNames_plain (by simp) rfl fun _ => rfl

theorem keepsScopes_chargeLeft (depth : ℕ) : KeepsScopes (chargeLeft depth) where
  names n := by
    fun_cases chargeLeft depth n <;> rfl
  free strict n x hx := by
    fun_induction chargeLeft depth n with
    | case1 depth op op' fields right ih =>
      simp only [mem_freeNames_binary, List.mem_cons, exists_eq_or_imp] at hx ih ⊢
      rcases hx with hx | hx
      · exact (ih hx).imp_left .inl
      · exact .inl (.inr hx)
    | case2 depth op left right =>
      simp only [mem_freeNames_binary, List.mem_cons, exists_eq_or_imp] at hx ⊢
      rcases hx with hx | hx
      · exact (mem_freeNames_wrapWithGas hx).imp_left .inl
      · exact .inl (.inr hx)
    | case3 => exact .inl hx

theorem keepsScopes_chargeBinary : KeepsScopes chargeBinary where
  names n := by
    unfold chargeBinary
    split
    · exact (keepsScopes_chargeLeft 10).names n
    · rfl
  free strict n x hx := by
    unfold chargeBinary at hx
    split at hx
    · exact (keepsScopes_chargeLeft 10).free strict n x hx
    · exact .inl hx

theorem keepsScopes_chargeCall : KeepsScopes chargeCall where
  names n := by
    fun_cases chargeCall n <;> rfl
  free strict n x hx := by
    unfold chargeCall at hx
    split at hx
    · split at hx
      · exact .inl hx
      · exact mem_freeNames_wrapWithGas hx
    · exact .inl hx

theorem keepsScopes_chargeCalls : KeepsScopes chargeCalls where
  names n := by
    unfold chargeCalls
    split
    · rfl
    · rw [names_node, names_node, List.map_map]
      exact congrArg _ (List.map_congr_left fun n _ => keepsScopes_chargeCall.names n)
  free strict n x hx := by
    unfold chargeCalls at hx
    split at hx
    · exact .inl hx
    · exact freeNames_map keepsScopes_chargeCall.names (fun n _ strict => keepsScopes_chargeCall.free strict n) hx

end XChainVM.Metering
