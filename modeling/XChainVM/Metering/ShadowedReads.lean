import XChainVM.Metering.BannedRest
import XChainVM.Metering.ShadowedNames

/-! # Reads of shadowed names

From the place of a declaration up to the scope that binds it, and from an ancestor that declares
the name of a read to a scope around the read.
-/

namespace XChainVM.Metering

open Node

section

variable {script : Script} {x : String} {n : Node} {above : Ancestors}

/-- A variable is bound around the place where it is declared. -/
theorem binds_of_vars (hchain : Chain script.root above n) (hx : x ∈ n.names.vars) : Binds above x := by
  induction above generalizing n with
  | nil =>
    obtain rfl : n = script.root := hchain
    have hkind := script.isProgram
    obtain hr | hr | hr | hr | hr := role_of_vars hx
    all_goals
      rw [hkind] at hr
      cases hr
  | cons f above ih =>
    obtain ⟨⟨kind, fields⟩, i⟩ := f
    obtain ⟨hchild, habove⟩ := hchain
    have hwithin := habove.within script.shaped
    by_cases hlist : kind = .list
    · subst hlist
      refine (ih habove ?_).cons
      rw [names_node]
      exact List.mem_flatMap.mpr ⟨n.names, mem_names hchild, hx⟩
    · have hn : Within n script.root :=
        Chain.within script.shaped (show Chain script.root (⟨node kind fields, i⟩ :: above) n from ⟨hchild, habove⟩)
      obtain hx | ⟨scope, hscope, hx⟩ := vars_step hlist (script.arity _ hwithin) (script.placed _ hwithin) hchild
        (script.shaped n hn) (script.arity n hn) hx
      · exact (ih habove hx).cons
      · exact .here _ hscope hx

/-- A label that offers a function stands before it. -/
theorem isLabelledFunction_of_functions (hn : Within n script.root) (hkind : n.kind = .labeledStatement)
    (hx : x ∈ n.names.functions) : n.isLabelledFunction = true := by
  induction n using Node.induct with
  | step kind fields ih =>
    obtain rfl : kind = .labeledStatement := hkind
    obtain ⟨body, label, rfl, hbody⟩ := script.arity _ hn
    have hwithin : Within body script.root := Within.trans (.field rfl List.mem_cons_self (.refl body)) hn
    have hx : x ∈ body.names.functions := by simpa [names_node, Names.combine] using hx
    rw [isLabelledFunction]
    obtain hr | hr | hr | hr := kind_of_functions hx
    · exact absurd hr hbody
    · obtain ⟨kind, fields⟩ := body
      obtain rfl : kind = .functionDeclaration := hr
      rfl
    · exact ih body List.mem_cons_self hwithin hr hx
    · obtain ⟨-, hholds⟩ := placed_iff (by simp) (script.placed _ hn) (show [body, label][0]? = some body from rfl)
      have hrole := (hholds hbody).1
      rw [hr] at hrole
      cases hrole

/-- A function is bound around the place where it is declared. -/
theorem binds_of_functions (hchain : Chain script.root above n)
    (hx : x ∈ n.names.functions ∨ x ∈ n.names.caseFunctions) : Binds above x := by
  induction above generalizing n with
  | nil =>
    obtain rfl : n = script.root := hchain
    have hkind := script.isProgram
    obtain hx | hx := hx
    · obtain hr | hr | hr | hr := kind_of_functions hx
      all_goals
        rw [hkind] at hr
        cases hr
    · obtain hr | hr := kind_of_caseFunctions hx
      all_goals
        rw [hkind] at hr
        cases hr
  | cons f above ih =>
    obtain ⟨⟨kind, fields⟩, i⟩ := f
    obtain ⟨hchild, habove⟩ := hchain
    have hwithin := habove.within script.shaped
    by_cases hlist : kind = .list
    · subst hlist
      refine (ih habove ?_).cons
      rw [names_node]
      exact hx.imp (fun hx => List.mem_flatMap.mpr ⟨n.names, mem_names hchild, hx⟩)
        fun hx => List.mem_flatMap.mpr ⟨n.names, mem_names hchild, hx⟩
    · have hn : Within n script.root :=
        Chain.within script.shaped (show Chain script.root (⟨node kind fields, i⟩ :: above) n from ⟨hchild, habove⟩)
      obtain hx | ⟨scope, hscope, hx⟩ := functions_step hlist (script.arity _ hwithin) (script.placed _ hwithin)
        hchild (script.shaped n hn) (script.arity n hn) (isLabelledFunction_of_functions hn) hx
      · exact (ih habove hx).cons
      · exact .here _ hscope hx

/-- A child that is no array stands directly in its parent, or in an array of the node above. -/
theorem parent_cases {f : Frame} (hchain : Chain script.root (f :: above) n) (hn : n.kind ≠ .list) :
    (f.node.kind ≠ .list ∧ f.node.kind.holds f.index n.kind.role = true) ∨
      ∃ elements q above', f.node = list elements ∧ above = q :: above' ∧ q.node.kind ≠ .list ∧
        q.node.fields[q.index]? = some f.node ∧ q.node.kind.lists q.index n.kind.role = true := by
  obtain ⟨hchild, habove⟩ := hchain
  by_cases hlist : f.node.kind = .list
  · right
    obtain ⟨elements, helements⟩ := eq_list hlist
    cases above with
    | nil =>
      have hroot : f.node = script.root := habove
      rw [hroot, script.isProgram] at hlist
      cases hlist
    | cons q above' =>
      obtain ⟨hq, habove'⟩ := habove
      have hwithin := habove'.within script.shaped
      have hqlist : q.node.kind ≠ .list := not_list_of_child_list (script.shaped _ hwithin) hq hlist
      refine ⟨elements, q, above', helements, rfl, hqlist, hq, ?_⟩
      obtain ⟨⟨kind, fields⟩, i⟩ := q
      obtain ⟨hlists, -⟩ := placed_iff hqlist (script.placed _ hwithin) hq
      refine hlists hlist n ?_
      rw [helements] at hchild ⊢
      exact List.mem_of_getElem? hchild
  · left
    have hwithin := habove.within script.shaped
    obtain ⟨⟨kind, fields⟩, i⟩ := f
    obtain ⟨-, hholds⟩ := placed_iff hlist (script.placed _ hwithin) hchild
    exact ⟨hlist, (hholds hn).1⟩

/-- What the statements of a function body declare is bound around it. -/
theorem binds_of_functionBody (hchain : Chain script.root above n) (hkind : n.kind = .functionBody)
    (hx : x ∈ n.names.vars ∨ x ∈ n.names.lexical ∨ x ∈ n.names.functions) : Binds above x := by
  cases above with
  | nil =>
    have hroot : n = script.root := hchain
    rw [hroot, script.isProgram] at hkind
    cases hkind
  | cons f above =>
    have harity := script.arity n (hchain.within script.shaped)
    obtain ⟨-, hholds⟩ | ⟨elements, q, above', -, -, -, -, hlists⟩ := parent_cases hchain (by simp [hkind])
    · obtain ⟨hchild, habove⟩ := hchain
      rw [hkind] at hholds
      obtain ⟨hfunction, hindex⟩ : f.node.kind.isFunction = true ∧ f.index = 2 := by
        simpa [Kind.holds, Kind.role] using hholds
      obtain ⟨⟨kind, fields⟩, i⟩ := f
      obtain rfl : i = 2 := hindex
      obtain ⟨scope, hscope, hx⟩ := functionBody_scope hfunction
        (script.arity _ (habove.within script.shaped)) hchild hkind harity hx
      exact .here _ hscope hx
    · rw [hkind] at hlists
      cases hlists

/-- What the statements of a case declare is bound around it. -/
theorem binds_of_switchCase (hchain : Chain script.root above n) (hkind : n.kind = .switchCase)
    (hx : x ∈ n.names.vars ∨ x ∈ n.names.caseLexical ∨ x ∈ n.names.caseFunctions) : Binds above x := by
  obtain hx | hx | hx := hx
  · exact binds_of_vars hchain hx
  · cases above with
    | nil =>
      have hroot : n = script.root := hchain
      rw [hroot, script.isProgram] at hkind
      cases hkind
    | cons f above =>
      obtain ⟨-, hholds⟩ | ⟨elements, q, above', hf, rfl, -, hq, hlists⟩ := parent_cases hchain (by simp [hkind])
      · rw [hkind] at hholds
        cases hholds
      · rw [hkind] at hlists
        obtain ⟨hswitch, hindex⟩ : q.node.kind = .switchStatement ∧ q.index = 1 := by
          simpa [Kind.lists, Kind.role] using hlists
        obtain ⟨hchild, -, habove⟩ := hchain
        obtain ⟨⟨kind, fields⟩, i⟩ := q
        obtain rfl : kind = .switchStatement := hswitch
        obtain rfl : i = 1 := hindex
        obtain ⟨discriminant, cases, rfl⟩ := script.arity _ (habove.within script.shaped)
        obtain ⟨node, j⟩ := f
        obtain rfl : list cases = node := by simpa [Node.fields] using hq
        have hcases : x ∈ (list cases).names.caseLexical := by
          rw [names_node]
          exact List.mem_flatMap.mpr ⟨n.names, mem_names hchild, hx⟩
        refine Binds.cons (.here ((list cases).names.caseLexical ++ (list cases).names.caseFunctions) ?_ ?_)
        · simp [scopes, Node.fields, Node.kind]
        · exact List.mem_append_left _ hcases
  · exact binds_of_functions hchain (.inr hx)

/-- What the head of a loop declares is bound in the loop. -/
theorem binds_of_loop {f : Frame} (hchain : Chain script.root above f.node) {head : Node}
    (hvars : head.names.vars ⊆ f.node.names.vars)
    (hscope : head.names.lexical ∈ scopes (strictAt (f :: above)) f.node.kind (f.node.fields.map names) f.index)
    (hdeclares : declarationDeclares x head = true) : Binds (f :: above) x := by
  obtain hx | hx := declared_of_declarationDeclares hdeclares
  · exact (binds_of_vars hchain (hvars hx)).cons
  · exact .here _ hscope hx

/-- The parameters of a function are bound in its parameters and its body. -/
theorem binds_of_params {kind : Kind} {id body : Node} {params : List Node} {i : ℕ} (hkind : kind.isFunction = true)
    (hi : i = 1 ∨ i = 2) (hparams : params.any (patternDeclares x) = true) :
    Binds (⟨node kind [id, list params, body], i⟩ :: above) x := by
  have hx := bound_of_params hparams
  cases kind
  case functionDeclaration =>
    refine .here ("arguments" :: (list params).names.bound) ?_ (List.mem_cons_of_mem _ hx)
    obtain rfl | rfl := hi
    all_goals simp [scopes, Node.fields, Node.kind]
  case functionExpression =>
    refine .here ("arguments" :: (list params).names.bound) ?_ (List.mem_cons_of_mem _ hx)
    obtain rfl | rfl := hi
    all_goals simp [scopes, Node.fields, Node.kind]
  case arrowFunctionExpression =>
    refine .here (list params).names.bound ?_ hx
    obtain rfl | rfl := hi
    all_goals simp [scopes, Node.fields, Node.kind]
  all_goals cases hkind

/-- A child of a function that is not its name stands in the parameters or in the body. -/
theorem index_of_function {id params body c : Node} {i : ℕ} (hchild : [id, params, body][i]? = some c)
    (hi : i ≠ 0) : i = 1 ∨ i = 2 := by
  have hlt : i < 3 := (List.getElem?_eq_some_iff.mp hchild).1
  omega

/-- A name that an ancestor declares is bound around its children. -/
theorem binds_of_scopeDeclares {owner : Node} {i : ℕ} (hchild : owner.fields[i]? = some n)
    (habove : Chain script.root above owner) (hindex : owner.kind.isFunction = true → i ≠ 0)
    (hdeclares : scopeDeclares x owner = true) : Binds (⟨owner, i⟩ :: above) x := by
  have harity := script.arity owner (habove.within script.shaped)
  unfold scopeDeclares at hdeclares
  split at hdeclares
  · next id params body =>
    have hi := index_of_function hchild (hindex rfl)
    obtain hid | hparams := Bool.or_eq_true_iff.mp hdeclares
    · have hx := bound_of_isNamed hid
      exact (binds_of_functions habove (.inl (by simpa [names_node, Names.combine] using hx))).cons
    · exact binds_of_params rfl hi hparams
  · next id params body =>
    have hi := index_of_function hchild (hindex rfl)
    obtain hid | hparams := Bool.or_eq_true_iff.mp hdeclares
    · refine .here id.names.bound ?_ (bound_of_isNamed hid)
      obtain rfl | rfl := hi
      all_goals simp [scopes, Node.fields, Node.kind]
    · exact binds_of_params rfl hi hparams
  · next id params body =>
    have hi := index_of_function hchild (hindex rfl)
    obtain hid | hparams := Bool.or_eq_true_iff.mp hdeclares
    · obtain ⟨params', body', hfields, -⟩ := harity
      obtain rfl : id = absent := by simp_all
      cases hid
    · exact binds_of_params rfl hi hparams
  · next param rest =>
    refine .here param.names.bound ?_ (bound_of_patternDeclares x param hdeclares)
    simp [scopes, Node.fields, Node.kind]
  · next body =>
    obtain ⟨scope, hscope, hx⟩ := mem_bodyScopes _ wrapperParams (declared_of_statements hdeclares)
    exact .here _ (List.mem_append_left _ hscope) hx
  · next body =>
    obtain hx | hx := declared_of_statements hdeclares
    · exact (binds_of_vars habove (by simpa [names_node, Names.combine] using hx)).cons
    · refine .here (list body).names.ofBlock ?_ (by simpa [Names.ofBlock] using hx)
      simp [scopes, Node.fields, Node.kind]
  · next body =>
    refine (binds_of_functionBody habove rfl ?_).cons
    simpa [names_node, Names.combine] using declared_of_statements hdeclares
  · next consequent rest =>
    refine (binds_of_switchCase habove rfl ?_).cons
    simpa [names_node, Names.combine] using declared_of_statements hdeclares
  · next init rest =>
    refine binds_of_loop habove ?_ ?_ hdeclares
    · simp [names_node, Names.combine, Names.loop]
    · simp [scopes, Node.fields, Node.kind]
  · next left rest =>
    refine binds_of_loop habove ?_ ?_ hdeclares
    · simp [names_node, Names.combine, Names.loop]
    · simp [scopes, Node.fields, Node.kind]
  · next left rest =>
    refine binds_of_loop habove ?_ ?_ hdeclares
    · simp [names_node, Names.combine, Names.loop]
    · simp [scopes, Node.fields, Node.kind]
  · cases hdeclares

/-- A frame of a chain holds the node below it, and only the last node may be without children. -/
theorem Chain.split {root : Node} {below : Ancestors} {f : Frame} (h : Chain root (below ++ f :: above) n) :
    ∃ c, f.node.fields[f.index]? = some c ∧ Chain root above f.node ∧ (below = [] ∧ c = n ∨ c.fields ≠ []) := by
  induction below generalizing n with
  | nil => exact ⟨n, h.1, h.2, .inl ⟨rfl, rfl⟩⟩
  | cons g below ih =>
    obtain ⟨hchild, habove⟩ := h
    obtain ⟨c, hc, hf, hlast⟩ := ih habove
    refine ⟨c, hc, hf, .inr ?_⟩
    obtain ⟨-, rfl⟩ | hfields := hlast
    · exact List.ne_nil_of_mem (List.mem_of_getElem? hchild)
    · exact hfields

/-- The name of a function is a target or nothing. -/
theorem isTarget_of_id {owner c : Node} (above : Ancestors) (hfunction : owner.kind.isFunction = true) (harity : owner.arity)
    (hchild : owner.fields[0]? = some c) : c.fields = [] ∧ isTarget (⟨owner, 0⟩ :: above) = true := by
  obtain ⟨kind, fields⟩ := owner
  have hid : ∀ {id : Node}, id.isId → id.fields = [] := by
    intro id h
    obtain ⟨idKind, idFields⟩ := id
    cases idKind
    case absent => exact h
    case identifier => exact h
    all_goals cases h
  cases kind
  case functionDeclaration =>
    obtain ⟨id, params, body, rfl, h, -⟩ := harity
    obtain rfl : id = c := by simpa [Node.fields] using hchild
    exact ⟨hid h, rfl⟩
  case functionExpression =>
    obtain ⟨id, params, body, rfl, h, -⟩ := harity
    obtain rfl : id = c := by simpa [Node.fields] using hchild
    exact ⟨hid h, rfl⟩
  case arrowFunctionExpression =>
    obtain ⟨params, body, rfl, -⟩ := harity
    obtain rfl : absent = c := by simpa [Node.fields] using hchild
    exact ⟨rfl, rfl⟩
  all_goals cases hfunction

/-- A read below an ancestor that declares its name is bound. -/
theorem binds_of_declared {position : Ancestors} (hchain : Chain script.root position n)
    (hread : isTarget position = false) {f : Frame} (hf : f ∈ position) (hdeclares : scopeDeclares x f.node = true) :
    Binds position x := by
  obtain ⟨below, above, rfl⟩ := List.append_of_mem hf
  obtain ⟨c, hchild, habove, hlast⟩ := hchain.split
  refine Binds.append (binds_of_scopeDeclares hchild habove ?_ hdeclares)
  intro hfunction hindex
  rw [hindex] at hchild
  obtain ⟨owner, i⟩ := f
  obtain rfl : i = 0 := hindex
  obtain ⟨hfields, htarget⟩ := isTarget_of_id above hfunction
    (script.arity owner (habove.within script.shaped)) hchild
  obtain ⟨rfl, -⟩ | hne := hlast
  · rw [List.nil_append, htarget] at hread
    cases hread
  · exact hne hfields

/-- The keys that are not computed are no identifiers. -/
theorem not_isPropertyName {position : Ancestors} (hchain : Chain script.root position n) (hn : n.kind = .identifier x) :
    isPropertyName position = false := by
  unfold isPropertyName
  split
  · next optional fields above =>
    obtain ⟨hchild, habove⟩ := hchain
    obtain ⟨object, property, hfields, hproperty⟩ := script.arity _ (habove.within script.shaped)
    rw [Node.fields, hfields] at hchild
    obtain rfl : property = n := by simpa using hchild
    exact absurd hn (hproperty x)
  · next kind method shorthand fields above =>
    obtain ⟨hchild, habove⟩ := hchain
    obtain ⟨key, value, hfields, hkey⟩ := script.arity _ (habove.within script.shaped)
    rw [Node.fields, hfields] at hchild
    obtain rfl : key = n := by simpa using hchild
    exact absurd hn (hkey x)
  · rfl

/-- The innermost scope of the contract that binds the name. A name without one is a global. -/
def resolve (position : Ancestors) (x : String) : Option (List String) :=
  (scopesAround position).find? fun scope => x ∈ scope

theorem resolve_of_binds {position : Ancestors} (h : Binds position x) : (resolve position x).isSome = true := by
  obtain ⟨scope, hscope, hx⟩ := h
  exact List.find?_isSome.mpr ⟨scope, hscope, by simpa using hx⟩

end

/-- Accepted programs read `Promise` and `WebAssembly` only where a scope of their own binds them. -/
theorem accepted_reads_resolve (walk : AncestorWalk) (flags : LintFlags) (isAsync : Ancestors → Bool) (script : Script)
    (hasync : findBannedAsync walk flags isAsync script.root = [])
    (hwasm : findBannedWasm walk flags script.root = []) {name : String} {position : Ancestors} {fields : List Node}
    (hname : name = "Promise" ∨ name = "WebAssembly")
    (hmem : (position, node (.identifier name) fields) ∈ script.root.positions [])
    (hread : isTarget position = false) : (resolve position name).isSome = true := by
  have hroot : Chain script.root [] script.root := rfl
  have hchain := chain_positions script.root hroot hmem
  have hdeclared : isPropertyName position = true ∨ ∃ f ∈ position, scopeDeclares name f.node = true := by
    obtain rfl | rfl := hname
    · exact declared_of_accepted (async_accepted hasync) hmem hread
    · exact declared_of_accepted (wasm_accepted hwasm) hmem hread
  obtain hproperty | ⟨f, hf, hdeclares⟩ := hdeclared
  · rw [not_isPropertyName hchain rfl] at hproperty
    cases hproperty
  · exact resolve_of_binds (binds_of_declared hchain hread hf hdeclares)

def ancestorWalk : AncestorWalk where
  visits root := ((root.positions []).filter fun p => !isTarget p.1).map fun p => ⟨p.1, p.2, stackOf p.1⟩
  visited := by
    intro root position x fields hmem hread
    refine ⟨⟨position, node (.identifier x) fields, stackOf position⟩, ?_, rfl, rfl⟩
    exact List.mem_map.mpr ⟨(position, node (.identifier x) fields), List.mem_filter.mpr ⟨hmem, by simp [hread]⟩, rfl⟩
  ancestors_sublist := by
    intro root v hv
    obtain ⟨p, -, rfl⟩ := List.mem_map.mp hv
    exact List.filter_sublist

/-- `return Promise`. -/
def returnPromise : Node := node .returnStatement [astIdent "Promise"]

/-- `function f(Promise) { return Promise }`. -/
def shadowing : Node :=
  node .functionDeclaration
    [astIdent "f", list [astIdent "Promise"], node .functionBody [list [returnPromise]]]

theorem within_shadowing {n : Node} (h : Within n (node .program [list [shadowing]])) :
    n = node .program [list [shadowing]] ∨ n = list [shadowing] ∨ n = shadowing ∨ n = astIdent "f" ∨
      n = list [astIdent "Promise"] ∨ n = astIdent "Promise" ∨ n = node .functionBody [list [returnPromise]] ∨
      n = list [returnPromise] ∨ n = returnPromise := by
  simp only [Within, WithinList, shadowing, returnPromise, astIdent, Kind.isLeaf, Bool.true_eq_false, false_and,
    true_and, or_false] at h
  obtain rfl | rfl | rfl | rfl | (rfl | rfl) | rfl | rfl | rfl | rfl := h
  all_goals simp [shadowing, returnPromise, astIdent]

def shadowingScript : Script where
  root := node .program [list [shadowing]]
  shaped := by
    intro n hn
    obtain rfl | rfl | rfl | rfl | rfl | rfl | rfl | rfl | rfl := within_shadowing hn
    all_goals simp [shape, shadowing, returnPromise, astIdent, Node.kind, Kind.isLeaf]
  isProgram := rfl
  arity := by
    intro n hn
    obtain rfl | rfl | rfl | rfl | rfl | rfl | rfl | rfl | rfl := within_shadowing hn
    all_goals simp [Node.arity, shadowing, returnPromise, astIdent, Node.kind, isId]
  placed := by
    intro n hn
    obtain rfl | rfl | rfl | rfl | rfl | rfl | rfl | rfl | rfl := within_shadowing hn
    all_goals
      simp only [Node.placed, shadowing, returnPromise, astIdent]
      try
        rintro (- | - | - | i) c hc
        all_goals simp at hc
    all_goals
      subst hc
      decide

/-- The read in `return Promise`. -/
def shadowedRead : Ancestors :=
  [⟨returnPromise, 0⟩, ⟨list [returnPromise], 0⟩, ⟨node .functionBody [list [returnPromise]], 0⟩, ⟨shadowing, 2⟩,
    ⟨list [shadowing], 0⟩, ⟨node .program [list [shadowing]], 0⟩]

theorem accepted_reads_resolve_parameter : (resolve shadowedRead "Promise").isSome = true :=
  accepted_reads_resolve ancestorWalk ⟨true, true, true, true⟩ (fun _ => false) shadowingScript (by decide)
    (by decide) (.inl rfl)
    (show (shadowedRead, astIdent "Promise") ∈ shadowingScript.root.positions [] by
      simp [shadowingScript, shadowedRead, positions, positionsOf, shadowing, returnPromise, astIdent]) rfl

end XChainVM.Metering
