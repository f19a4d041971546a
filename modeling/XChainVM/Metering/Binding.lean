import XChainVM.Metering.Scope

/-! # Where declared names come from -/

namespace XChainVM.Metering

open Node

namespace Names

def all (n : Names) : List String :=
  n.bound ++ n.declarators ++ n.lexical ++ n.functions ++ n.caseLexical ++ n.caseFunctions ++ n.vars ++ n.hoisted

@[grind =] theorem mem_all {n : Names} {x : String} : x ∈ n.all ↔ x ∈ n.bound ∨ x ∈ n.declarators ∨
    x ∈ n.lexical ∨ x ∈ n.functions ∨ x ∈ n.caseLexical ∨ x ∈ n.caseFunctions ∨ x ∈ n.vars ∨ x ∈ n.hoisted := by
  simp [all]

theorem mem_block {inTheWay hoisted : List String} {x : String} :
    x ∈ block inTheWay hoisted ↔ x ∈ hoisted ∧ x ∉ inTheWay := by
  simp [block]

theorem mem_all_list {ns : List Names} {x : String} (hx : x ∈ (list ns).all) : ∃ n ∈ ns, x ∈ n.all := by
  simp only [mem_all, list, List.mem_flatMap] at hx
  grind

/-- A name comes from a child, unless the node is that identifier. -/
theorem mem_all_combine {kind : Kind} {ns : List Names} {x : String} (hx : x ∈ (combine kind ns).all) :
    kind = .identifier x ∨ ∃ n ∈ ns, x ∈ n.all := by
  unfold combine at hx
  split at hx
  case h_1 => exact .inr (mem_all_list hx)
  all_goals simp only [mem_all, loop, mem_block, List.mem_append, List.mem_flatMap, List.not_mem_nil,
    List.mem_cons, or_false, false_or, exists_eq_or_imp, exists_eq_left] at hx ⊢
  all_goals grind [mem_block]

theorem mem_all_of_ofBlock {body : Names} {x : String} (hx : x ∈ body.ofBlock) : x ∈ body.all := by
  rw [ofBlock, List.mem_append] at hx
  grind

theorem mem_all_of_asBody {body : Names} {x : String} (hx : x ∈ body.asBody.all) : x ∈ body.all := by
  unfold asBody at hx
  split at hx
  · exact hx
  · simp [all] at hx

theorem mem_all_of_varScope {strict : Bool} {params : List String} {body : Names} {x : String}
    (hx : x ∈ body.varScope strict params) : x ∈ body.all := by
  rw [varScope, List.mem_append, List.mem_append] at hx
  cases strict with
  | true => grind
  | false =>
    simp only [Bool.false_eq_true, if_false, mem_block] at hx
    grind

end Names

/-- A scope declares what a child offers, `arguments` and what the wrapper of the contract does. -/
theorem mem_scopes {strict : Bool} {kind : Kind} {ns : List Names} {i : ℕ} {scope : List String} {x : String}
    (hscope : scope ∈ scopes strict kind ns i) (hx : x ∈ scope) :
    x ∈ "arguments" :: wrapperParams ∨ ∃ n ∈ ns, x ∈ n.all := by
  unfold scopes at hscope
  split at hscope
  all_goals try simp only [bodyScopes, List.mem_cons, List.not_mem_nil, or_false, List.cons_append,
    List.nil_append] at hscope
  all_goals simp only [List.mem_cons, List.not_mem_nil, or_false, exists_eq_or_imp,
    exists_eq_left]
  all_goals grind [Names.mem_all_of_ofBlock, Names.mem_all_of_varScope, Names.mem_all_of_asBody]

namespace Node

theorem mem_freeNamesList {strict : Bool} {around : ℕ → List (List String)} {i : ℕ} {ns : List Node} {x : String} :
    x ∈ freeNamesList strict around i ns ↔
      ∃ j n, ns[j]? = some n ∧ x ∈ freeNames strict n ∧ ∀ scope ∈ around (i + j), x ∉ scope := by
  induction ns generalizing i with
  | nil => simp [freeNamesList]
  | cons n rest ih =>
    simp only [freeNamesList, List.mem_append, List.mem_filter, ih, decide_eq_true_eq, List.mem_flatten, not_exists,
      not_and]
    constructor
    · rintro (⟨hx, hscopes⟩ | ⟨j, m, hm, hx, hscopes⟩)
      · exact ⟨0, n, rfl, hx, hscopes⟩
      · exact ⟨j + 1, m, hm, hx, by simpa [Nat.add_assoc, Nat.add_comm 1] using hscopes⟩
    · rintro ⟨j, m, hm, hx, hscopes⟩
      cases j with
      | zero =>
        cases hm
        exact .inl ⟨hx, hscopes⟩
      | succ j => exact .inr ⟨j, m, hm, hx, by simpa [Nat.add_assoc, Nat.add_comm 1] using hscopes⟩

theorem mem_freeNames_node {strict : Bool} {kind : Kind} {fields : List Node} {x : String}
    (hkind : ∀ y, kind ≠ .identifier y) : x ∈ freeNames strict (node kind fields) ↔
      ∃ i n, fields[i]? = some n ∧ x ∈ freeNames (strictWithin strict kind (fields.map names)) n ∧
        ∀ scope ∈ scopes (strictWithin strict kind (fields.map names)) kind (fields.map names) i, x ∉ scope := by
  rw [freeNames.eq_2 strict kind fields hkind, mem_freeNamesList]
  simp only [Nat.zero_add]

/-- A node that opens no scope. -/
theorem mem_freeNames_plain {strict : Bool} {kind : Kind} {fields : List Node} {x : String}
    (hkind : ∀ y, kind ≠ .identifier y) (hstrict : strictWithin strict kind (fields.map names) = strict)
    (hscopes : ∀ i, scopes strict kind (fields.map names) i = []) :
    x ∈ freeNames strict (node kind fields) ↔ ∃ n ∈ fields, x ∈ freeNames strict n := by
  simp only [mem_freeNames_node hkind, hstrict, hscopes, List.not_mem_nil, false_implies, implies_true, and_true]
  constructor
  · rintro ⟨i, n, hn, hx⟩
    exact ⟨n, List.mem_of_getElem? hn, hx⟩
  · rintro ⟨n, hn, hx⟩
    obtain ⟨i, hi⟩ := List.mem_iff_getElem?.mp hn
    exact ⟨i, n, hi, hx⟩

@[simp] theorem freeNames_identifier {strict : Bool} {x : String} {fields : List Node} :
    freeNames strict (node (.identifier x) fields) = [x] := by
  rw [freeNames]

@[simp] theorem mem_freeNames_list {strict : Bool} {ns : List Node} {x : String} :
    x ∈ freeNames strict (list ns) ↔ ∃ n ∈ ns, x ∈ freeNames strict n :=
  mem_freeNames_plain (by simp) rfl fun _ => rfl

@[simp] theorem mem_freeNames_block {strict : Bool} {body : List Node} {x : String} :
    x ∈ freeNames strict (block body) ↔
      (∃ n ∈ body, x ∈ freeNames strict n) ∧ x ∉ (Names.list (body.map names)).ofBlock := by
  rw [mem_freeNames_node (by simp)]
  constructor
  · rintro ⟨i, n, hn, hx, hscopes⟩
    cases i with
    | succ i => simp at hn
    | zero =>
      cases hn
      simp only [List.map_cons, List.map_nil, names_node, scopes, List.mem_singleton, forall_eq] at hscopes
      exact ⟨mem_freeNames_list.mp hx, hscopes⟩
  · rintro ⟨hx, hscope⟩
    refine ⟨0, list body, rfl, mem_freeNames_list.mpr hx, ?_⟩
    simp only [List.map_cons, List.map_nil, names_node, scopes, List.mem_singleton, forall_eq]
    exact hscope

end Node

end XChainVM.Metering
