import XChainVM.Metering.BannedGlobals
import XChainVM.Metering.Scope

/-! # Shadowed names

What a node declares is declared by its parent too, or bound by a scope the parent opens: a `var`
and a function end in the scope of the function or block they belong to.
-/

namespace XChainVM.Metering

open Node

def strictAt : Ancestors → Bool
  | [] => false
  | f :: above => strictWithin (strictAt above) f.node.kind (f.node.fields.map names)

def scopesAround : Ancestors → List (List String)
  | [] => []
  | f :: above =>
    scopes (strictAt (f :: above)) f.node.kind (f.node.fields.map names) f.index ++ scopesAround above

def Binds (position : Ancestors) (x : String) : Prop := ∃ scope ∈ scopesAround position, x ∈ scope

section

variable {x : String} {f : Frame} {above below position : Ancestors}

theorem Binds.here (scope : List String)
    (hscope : scope ∈ scopes (strictAt (f :: above)) f.node.kind (f.node.fields.map names) f.index)
    (hx : x ∈ scope) : Binds (f :: above) x :=
  ⟨scope, List.mem_append_left _ hscope, hx⟩

theorem Binds.cons (h : Binds above x) : Binds (f :: above) x := by
  obtain ⟨scope, hscope, hx⟩ := h
  exact ⟨scope, List.mem_append_right _ hscope, hx⟩

theorem Binds.append (h : Binds above x) : Binds (below ++ above) x := by
  induction below with
  | nil => exact h
  | cons f below ih => exact ih.cons

variable (x) in
mutual

theorem bound_of_patternDeclares (n : Node) (h : patternDeclares x n = true) : x ∈ n.names.bound := by
  unfold patternDeclares at h
  split at h
  · simpa [names_node, Names.combine, eq_comm] using h
  · next left rest => simpa [names_node, Names.combine] using bound_of_patternDeclares left h
  · next argument rest => simpa [names_node, Names.combine] using bound_of_patternDeclares argument h
  · next elements => simpa [names_node, Names.combine] using bound_of_elementsDeclare elements h
  · next properties => simpa [names_node, Names.combine] using bound_of_propertiesDeclare properties h
  · cases h
termination_by sizeOf n

theorem bound_of_elementsDeclare (ns : List Node) (h : elementsDeclare x ns = true) :
    x ∈ (Names.list (ns.map names)).bound := by
  unfold elementsDeclare at h
  split at h
  · cases h
  · next e rest =>
    rw [Bool.or_eq_true] at h
    obtain h | h := h
    · have he := bound_of_patternDeclares e h
      simp [Names.list, he]
    · have hrest := bound_of_elementsDeclare rest h
      simp only [Names.list, List.mem_flatMap, List.map_cons, List.mem_cons] at hrest ⊢
      obtain ⟨n, hn, hx⟩ := hrest
      exact ⟨n, .inr hn, hx⟩
termination_by sizeOf ns

theorem bound_of_propertiesDeclare (ns : List Node) (h : propertiesDeclare x ns = true) :
    x ∈ (Names.list (ns.map names)).bound := by
  have hcons : ∀ (n : Node) (rest : List Node), x ∈ n.names.bound ∨ x ∈ (Names.list (rest.map names)).bound →
      x ∈ (Names.list ((n :: rest).map names)).bound := by
    intro n rest hx
    simpa [Names.list] using hx
  unfold propertiesDeclare at h
  split at h
  · cases h
  · next argument fields rest =>
    rw [Bool.or_eq_true] at h
    refine hcons _ _ (h.imp (fun h => ?_) fun h => bound_of_propertiesDeclare rest h)
    simpa [names_node, Names.combine] using bound_of_patternDeclares argument h
  · next shorthand computed key value rest =>
    rw [Bool.or_eq_true] at h
    refine hcons _ _ (h.imp (fun h => ?_) fun h => bound_of_propertiesDeclare rest h)
    simpa [names_node, Names.combine] using bound_of_patternDeclares value h
  · next n rest _ _ => exact hcons _ _ (.inr (bound_of_propertiesDeclare rest h))
termination_by sizeOf ns

end

theorem bound_of_isNamed {id : Node} (h : isNamed x id = true) : x ∈ id.names.bound := by
  unfold isNamed at h
  split at h
  · simpa [names_node, Names.combine, eq_comm] using h
  · cases h

theorem bound_of_params {params : List Node} (h : params.any (patternDeclares x) = true) :
    x ∈ (list params).names.bound := by
  obtain ⟨p, hp, hdeclares⟩ := List.any_eq_true.mp h
  simp only [names_node, Names.combine, Names.list, List.mem_flatMap, List.mem_map]
  exact ⟨p.names, ⟨p, hp, rfl⟩, bound_of_patternDeclares x p hdeclares⟩

/-- The declarators of a variable declaration are variables or lexical. -/
theorem declared_of_declarationDeclares {n : Node} (h : declarationDeclares x n = true) :
    x ∈ n.names.vars ∨ x ∈ n.names.lexical := by
  unfold declarationDeclares at h
  split at h
  · next kind declarators =>
    obtain ⟨d, hd, hdeclares⟩ := List.any_eq_true.mp h
    have hdeclarator : x ∈ d.names.declarators := by
      unfold declaratorDeclares at hdeclares
      split at hdeclares
      · next id rest => simpa [names_node, Names.combine] using bound_of_patternDeclares x id hdeclares
      · cases hdeclares
    have hlist : x ∈ (list declarators).names.declarators := by
      simp only [names_node, Names.combine, Names.list, List.mem_flatMap, List.mem_map]
      exact ⟨d.names, ⟨d, hd, rfl⟩, hdeclarator⟩
    rw [names_node]
    cases kind with
    | var => exact .inl hlist
    | «let» => exact .inr hlist
    | const => exact .inr hlist
  · cases h

theorem declared_of_statementDeclares {n : Node} (h : statementDeclares x n = true) :
    x ∈ n.names.vars ∨ x ∈ n.names.lexical ∨ x ∈ n.names.functions := by
  unfold statementDeclares at h
  split at h
  · next id rest => exact .inr (.inr (by simpa [names_node, Names.combine] using bound_of_isNamed h))
  · next id rest => exact .inr (.inl (by simpa [names_node, Names.combine] using bound_of_isNamed h))
  · exact (declared_of_declarationDeclares h).imp id .inl

theorem declared_of_statements {body : List Node} (h : body.any (statementDeclares x) = true) :
    x ∈ (list body).names.vars ∨ x ∈ (list body).names.lexical ∨ x ∈ (list body).names.functions := by
  obtain ⟨s, hs, hdeclares⟩ := List.any_eq_true.mp h
  simp only [names_node, Names.combine, Names.list, List.mem_flatMap, List.mem_map]
  obtain hx | hx | hx := declared_of_statementDeclares hdeclares
  · exact .inl ⟨s.names, ⟨s, hs, rfl⟩, hx⟩
  · exact .inr (.inl ⟨s.names, ⟨s, hs, rfl⟩, hx⟩)
  · exact .inr (.inr ⟨s.names, ⟨s, hs, rfl⟩, hx⟩)

theorem mem_names {fields : List Node} {i : ℕ} {c : Node} (h : fields[i]? = some c) :
    c.names ∈ fields.map names :=
  List.mem_map_of_mem (List.mem_of_getElem? h)

/-- Only statements and what belongs to them hold variables. -/
theorem role_of_vars {n : Node} (hx : x ∈ n.names.vars) : n.kind = .list ∨ n.kind.role = .statement ∨
    n.kind.role = .functionBody ∨ n.kind.role = .switchCase ∨ n.kind.role = .catchClause := by
  obtain ⟨kind, fields⟩ := n
  rw [names_node] at hx
  unfold Names.combine at hx
  split at hx
  all_goals
    first
    | exact .inl rfl
    | exact .inr (.inl rfl)
    | exact .inr (.inr (.inl rfl))
    | exact .inr (.inr (.inr (.inl rfl)))
    | exact .inr (.inr (.inr (.inr rfl)))
    | simp only [List.not_mem_nil] at hx

theorem eq_functionBody {n : Node} (h : n.kind.role = .functionBody) : n.kind = .functionBody := by
  obtain ⟨kind, fields⟩ := n
  cases kind
  case functionBody => rfl
  all_goals cases h

/-- The body of a function is bound by the scopes of the function. -/
theorem asBody_functionBody {n : Node} (hkind : n.kind = .functionBody) (harity : n.arity) :
    n.names.asBody = n.names := by
  obtain ⟨kind, fields⟩ := n
  obtain rfl : kind = .functionBody := hkind
  obtain ⟨elements, rfl⟩ := harity
  simp [names_node, Names.combine, Names.asBody]

/-- What the statements of a body declare is in the scopes of the body. -/
theorem mem_bodyScopes {body : Names} (strict : Bool) (params : List String)
    (hx : x ∈ body.vars ∨ x ∈ body.lexical ∨ x ∈ body.functions) :
    ∃ scope ∈ bodyScopes strict params body, x ∈ scope := by
  obtain hx | hx | hx := hx
  · exact ⟨body.varScope strict params, by simp [bodyScopes], by simp [Names.varScope, hx]⟩
  · exact ⟨body.lexical, by simp [bodyScopes], hx⟩
  · exact ⟨body.varScope strict params, by simp [bodyScopes], by simp [Names.varScope, hx]⟩

/-- What a function body declares is in the scopes of its function. -/
theorem functionBody_scope {strict : Bool} {kind : Kind} {fields : List Node} {c : Node}
    (hkind : kind.isFunction = true) (harity : (node kind fields).arity) (hchild : fields[2]? = some c)
    (hbody : c.kind = .functionBody) (hbodyArity : c.arity)
    (hx : x ∈ c.names.vars ∨ x ∈ c.names.lexical ∨ x ∈ c.names.functions) :
    ∃ scope ∈ scopes strict kind (fields.map names) 2, x ∈ scope := by
  obtain ⟨id, params, body, rfl⟩ : ∃ id params body, fields = [id, list params, body] := by
    cases kind
    case functionDeclaration =>
      obtain ⟨id, params, body, hfields, -⟩ := harity
      exact ⟨id, params, body, hfields⟩
    case functionExpression =>
      obtain ⟨id, params, body, hfields, -⟩ := harity
      exact ⟨id, params, body, hfields⟩
    case arrowFunctionExpression =>
      obtain ⟨params, body, hfields, -⟩ := harity
      exact ⟨absent, params, body, hfields⟩
    all_goals cases hkind
  obtain rfl : body = c := by simpa using hchild
  obtain ⟨scope, hscope, hx⟩ := mem_bodyScopes strict (list params).names.bound hx
  rw [← asBody_functionBody hbody hbodyArity] at hscope
  refine ⟨scope, ?_, hx⟩
  cases kind
  case functionDeclaration => simp only [List.map_cons, List.map_nil, scopes, List.mem_append, hscope, true_or]
  case functionExpression => simp only [List.map_cons, List.map_nil, scopes, List.mem_append, hscope, true_or]
  case arrowFunctionExpression => simp only [List.map_cons, List.map_nil, scopes, List.mem_append, hscope, true_or]
  all_goals cases hkind

/-- A node that holds a statement passes the variables of the statement on. -/
theorem vars_of_holdsStatement {kind : Kind} {fields : List Node} {i : ℕ} {c : Node}
    (harity : (node kind fields).arity) (hchild : fields[i]? = some c) (hholds : kind.holdsStatement i = true)
    (hx : x ∈ c.names.vars) : x ∈ (node kind fields).names.vars := by
  have hmem : x ∈ (fields.map names).flatMap Names.vars := List.mem_flatMap.mpr ⟨c.names, mem_names hchild, hx⟩
  rw [names_node]
  cases kind
  case labeledStatement =>
    obtain ⟨body, label, rfl, -⟩ := harity
    obtain rfl : i = 0 := by simpa [Kind.holdsStatement] using hholds
    obtain rfl : body = c := by simpa using hchild
    exact hx
  case catchClause =>
    obtain ⟨param, body, rfl⟩ := harity
    obtain rfl : i = 1 := by simpa [Kind.holdsStatement] using hholds
    obtain rfl : body = c := by simpa using hchild
    exact hx
  case ifStatement => exact hmem
  case whileStatement => exact hmem
  case doWhileStatement => exact hmem
  case tryStatement => exact hmem
  case forStatement =>
    cases fields with
    | nil => simp at hchild
    | cons head rest => exact hmem
  case forInStatement =>
    cases fields with
    | nil => simp at hchild
    | cons head rest => exact hmem
  case forOfStatement =>
    cases fields with
    | nil => simp at hchild
    | cons head rest => exact hmem
  all_goals cases hholds

/-- A list of statements passes what it holds on, or the node around it binds it. -/
theorem vars_of_listsStatements {strict : Bool} {kind : Kind} {fields : List Node} {i : ℕ} {c : Node}
    (harity : (node kind fields).arity) (hchild : fields[i]? = some c) (hlists : kind.listsStatements i = true)
    (hx : x ∈ c.names.vars) :
    x ∈ (node kind fields).names.vars ∨ ∃ scope ∈ scopes strict kind (fields.map names) i, x ∈ scope := by
  rw [names_node]
  cases kind
  case program =>
    obtain ⟨elements, rfl⟩ := harity
    right
    obtain ⟨rfl, rfl⟩ : i = 0 ∧ list elements = c := getElem?_singleton hchild
    refine ⟨(list elements).names.varScope strict wrapperParams, ?_, by simp [Names.varScope, hx]⟩
    simp [scopes, bodyScopes]
  case functionBody =>
    obtain ⟨elements, rfl⟩ := harity
    obtain ⟨rfl, rfl⟩ : i = 0 ∧ list elements = c := getElem?_singleton hchild
    exact .inl hx
  case blockStatement =>
    obtain ⟨elements, rfl⟩ := harity
    obtain ⟨rfl, rfl⟩ : i = 0 ∧ list elements = c := getElem?_singleton hchild
    exact .inl hx
  case switchCase =>
    obtain ⟨consequent, test, rfl⟩ := harity
    obtain rfl : i = 0 := by simpa [Kind.listsStatements] using hlists
    obtain rfl : list consequent = c := by simpa using hchild
    exact .inl hx
  all_goals cases hlists

/-- Where a child may stand, by its role. -/
theorem placed_iff {kind : Kind} {fields : List Node} (hlist : kind ≠ .list) (hplaced : (node kind fields).placed)
    {i : ℕ} {c : Node} (hchild : fields[i]? = some c) :
    (c.kind = .list → ∀ e ∈ c.fields, kind.lists i e.kind.role = true) ∧
      (c.kind ≠ .list → kind.holds i c.kind.role = true ∧
        (kind ≠ .labeledStatement → c.isLabelledFunction = false)) := by
  cases kind
  case list => exact absurd rfl hlist
  all_goals exact hplaced i c hchild

/-- A node passes the variables of its children on, or binds them. -/
theorem vars_step {strict : Bool} {kind : Kind} {fields : List Node} {i : ℕ} {c : Node} (hlist : kind ≠ .list)
    (harity : (node kind fields).arity) (hplaced : (node kind fields).placed) (hchild : fields[i]? = some c)
    (hshape : c.shape) (hchildArity : c.arity) (hx : x ∈ c.names.vars) :
    x ∈ (node kind fields).names.vars ∨ ∃ scope ∈ scopes strict kind (fields.map names) i, x ∈ scope := by
  obtain ⟨hlists, hholds⟩ := placed_iff hlist hplaced hchild
  by_cases hc : c.kind = .list
  · obtain ⟨elements, rfl⟩ := eq_list hc
    obtain ⟨e, he, hxe⟩ : ∃ e ∈ elements, x ∈ e.names.vars := by
      simpa [names_node, Names.combine, Names.list] using hx
    have hrole := hlists rfl e he
    obtain hr | hr | hr | hr | hr := role_of_vars hxe
    · exact absurd hr (hshape e he)
    · rw [hr] at hrole
      exact vars_of_listsStatements harity hchild hrole hx
    · rw [hr] at hrole
      cases hrole
    · rw [hr] at hrole
      obtain ⟨rfl, rfl⟩ : kind = .switchStatement ∧ i = 1 := by simpa [Kind.lists] using hrole
      obtain ⟨discriminant, cases, rfl⟩ := harity
      obtain rfl : cases = elements := by simpa using hchild
      exact .inl hx
    · rw [hr] at hrole
      cases hrole
  · obtain ⟨hrole, -⟩ := hholds hc
    obtain hr | hr | hr | hr | hr := role_of_vars hx
    · exact absurd hr hc
    · rw [hr] at hrole
      exact .inl (vars_of_holdsStatement harity hchild hrole hx)
    · have hbody := eq_functionBody hr
      rw [hr] at hrole
      obtain ⟨hkind, rfl⟩ : kind.isFunction = true ∧ i = 2 := by simpa [Kind.holds] using hrole
      exact .inr (functionBody_scope hkind harity hchild hbody hchildArity (.inl hx))
    · rw [hr] at hrole
      cases hrole
    · rw [hr] at hrole
      obtain rfl : kind = .tryStatement := by simpa [Kind.holds] using hrole
      left
      rw [names_node]
      exact List.mem_flatMap.mpr ⟨c.names, mem_names hchild, hx⟩

/-- Only declarations, behind labels or in a body, offer functions. -/
theorem kind_of_functions {n : Node} (hx : x ∈ n.names.functions) : n.kind = .list ∨
    n.kind = .functionDeclaration ∨ n.kind = .labeledStatement ∨ n.kind = .functionBody := by
  obtain ⟨kind, fields⟩ := n
  rw [names_node] at hx
  unfold Names.combine at hx
  split at hx
  all_goals
    first
    | exact .inl rfl
    | exact .inr (.inl rfl)
    | exact .inr (.inr (.inl rfl))
    | exact .inr (.inr (.inr rfl))
    | simp only [Names.loop, List.not_mem_nil] at hx

theorem kind_of_caseFunctions {n : Node} (hx : x ∈ n.names.caseFunctions) :
    n.kind = .list ∨ n.kind = .switchCase := by
  obtain ⟨kind, fields⟩ := n
  rw [names_node] at hx
  unfold Names.combine at hx
  split at hx
  all_goals
    first
    | exact .inl rfl
    | exact .inr rfl
    | simp only [Names.loop, List.not_mem_nil] at hx

/-- A list of statements passes its functions on, or the node around it binds them. -/
theorem functions_of_listsStatements {strict : Bool} {kind : Kind} {fields : List Node} {i : ℕ} {c : Node}
    (harity : (node kind fields).arity) (hchild : fields[i]? = some c) (hlists : kind.listsStatements i = true)
    (hx : x ∈ c.names.functions) :
    (x ∈ (node kind fields).names.functions ∨ x ∈ (node kind fields).names.caseFunctions) ∨
      ∃ scope ∈ scopes strict kind (fields.map names) i, x ∈ scope := by
  rw [names_node]
  cases kind
  case program =>
    obtain ⟨elements, rfl⟩ := harity
    right
    obtain ⟨rfl, rfl⟩ : i = 0 ∧ list elements = c := getElem?_singleton hchild
    refine ⟨(list elements).names.varScope strict wrapperParams, ?_, by simp [Names.varScope, hx]⟩
    simp [scopes, bodyScopes]
  case functionBody =>
    obtain ⟨elements, rfl⟩ := harity
    obtain ⟨rfl, rfl⟩ : i = 0 ∧ list elements = c := getElem?_singleton hchild
    exact .inl (.inl hx)
  case blockStatement =>
    obtain ⟨elements, rfl⟩ := harity
    obtain ⟨rfl, rfl⟩ : i = 0 ∧ list elements = c := getElem?_singleton hchild
    right
    refine ⟨(list elements).names.ofBlock, ?_, by simp [Names.ofBlock, hx]⟩
    simp [scopes]
  case switchCase =>
    obtain ⟨consequent, test, rfl⟩ := harity
    obtain rfl : i = 0 := by simpa [Kind.listsStatements] using hlists
    obtain rfl : list consequent = c := by simpa using hchild
    exact .inl (.inr hx)
  all_goals cases hlists

/-- A node passes the functions of its children on, or binds them. -/
theorem functions_step {strict : Bool} {kind : Kind} {fields : List Node} {i : ℕ} {c : Node} (hlist : kind ≠ .list)
    (harity : (node kind fields).arity) (hplaced : (node kind fields).placed) (hchild : fields[i]? = some c)
    (hshape : c.shape) (hchildArity : c.arity)
    (hlabelled : c.kind = .labeledStatement → x ∈ c.names.functions → c.isLabelledFunction = true)
    (hx : x ∈ c.names.functions ∨ x ∈ c.names.caseFunctions) :
    (x ∈ (node kind fields).names.functions ∨ x ∈ (node kind fields).names.caseFunctions) ∨
      ∃ scope ∈ scopes strict kind (fields.map names) i, x ∈ scope := by
  obtain ⟨hlists, hholds⟩ := placed_iff hlist hplaced hchild
  by_cases hc : c.kind = .list
  · obtain ⟨elements, rfl⟩ := eq_list hc
    obtain hx | hx := hx
    · obtain ⟨e, he, hxe⟩ : ∃ e ∈ elements, x ∈ e.names.functions := by
        simpa [names_node, Names.combine, Names.list] using hx
      have hrole := hlists rfl e he
      obtain hr | hr | hr | hr := kind_of_functions hxe
      · exact absurd hr (hshape e he)
      · rw [hr] at hrole
        exact functions_of_listsStatements harity hchild hrole hx
      · rw [hr] at hrole
        exact functions_of_listsStatements harity hchild hrole hx
      · rw [hr] at hrole
        cases hrole
    · obtain ⟨e, he, hxe⟩ : ∃ e ∈ elements, x ∈ e.names.caseFunctions := by
        simpa [names_node, Names.combine, Names.list] using hx
      have hrole := hlists rfl e he
      obtain hr | hr := kind_of_caseFunctions hxe
      · exact absurd hr (hshape e he)
      · rw [hr] at hrole
        obtain ⟨rfl, rfl⟩ : kind = .switchStatement ∧ i = 1 := by simpa [Kind.lists, Kind.role] using hrole
        obtain ⟨discriminant, cases, rfl⟩ := harity
        obtain rfl : cases = elements := by simpa using hchild
        right
        refine ⟨(list cases).names.caseLexical ++ (list cases).names.caseFunctions, ?_, ?_⟩
        · simp [scopes]
        · exact List.mem_append_right _ hx
  · obtain ⟨hrole, hother⟩ := hholds hc
    obtain hx | hx := hx
    · obtain hr | hr | hr | hr := kind_of_functions hx
      · exact absurd hr hc
      · rw [hr] at hrole
        obtain ⟨rfl, rfl⟩ : kind = .labeledStatement ∧ i = 0 := by simpa [Kind.holds, Kind.role] using hrole
        obtain ⟨body, label, rfl, -⟩ := harity
        obtain rfl : body = c := by simpa using hchild
        exact .inl (.inl (by simpa [names_node, Names.combine] using hx))
      · by_cases hkind : kind = .labeledStatement
        · subst hkind
          rw [hr] at hrole
          obtain rfl : i = 0 := by simpa [Kind.holds, Kind.role, Kind.holdsStatement] using hrole
          obtain ⟨body, label, rfl, -⟩ := harity
          obtain rfl : body = c := by simpa using hchild
          exact .inl (.inl (by simpa [names_node, Names.combine] using hx))
        · have hnot := hother hkind
          rw [hlabelled hr hx] at hnot
          cases hnot
      · rw [hr] at hrole
        obtain ⟨hkind, rfl⟩ : kind.isFunction = true ∧ i = 2 := by simpa [Kind.holds, Kind.role] using hrole
        exact .inr (functionBody_scope hkind harity hchild hr hchildArity (.inr (.inr hx)))
    · obtain hr | hr := kind_of_caseFunctions hx
      · exact absurd hr hc
      · rw [hr] at hrole
        cases hrole

end

end XChainVM.Metering
