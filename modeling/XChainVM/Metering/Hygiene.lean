import XChainVM.Metering.GuardScopes

/-! # Hygiene

In metered code every reserved name is a global of the harness, and the fresh names bind
uses of their own only.
-/

namespace XChainVM.Metering

open Node

variable {x : String}

/-- The tried names get longer, so that each used name is met once. -/
theorem freshNameFrom_fresh {used : List String} (fuel : ℕ) (name : String) (longer : List String)
    (hlonger : ∀ u ∈ used, name.length ≤ u.length → u ∈ longer) (hfuel : longer.length < fuel) :
    freshNameFrom used fuel name ∉ used := by
  induction fuel generalizing name longer with
  | zero => contradiction
  | succ fuel ih =>
    rw [freshNameFrom]
    split
    case isFalse h => exact h
    case isTrue hused =>
      have hname : name ∈ longer := hlonger name hused le_rfl
      refine ih _ (longer.erase name) ?_ ?_
      · intro u hu hlength
        rw [String.length_append] at hlength
        have hlt : name.length < u.length := by
          have : "_".length = 1 := rfl
          omega
        exact (List.mem_erase_of_ne (by rintro rfl; omega)).mpr (hlonger u hu (by omega))
      · rw [List.length_erase_of_mem hname]
        have := List.length_pos_of_mem hname
        omega

theorem freshName_fresh (used : List String) (base : String) : freshName used base ∉ used :=
  freshNameFrom_fresh _ _ used (fun _ hu _ => hu) (Nat.lt_succ_self _)

theorem prefix_freshNameFrom (used : List String) (fuel : ℕ) (name : String) :
    name.toList <+: (freshNameFrom used fuel name).toList := by
  induction fuel generalizing name with
  | zero => exact List.prefix_refl _
  | succ fuel ih =>
    rw [freshNameFrom]
    split
    · refine List.IsPrefix.trans ?_ (ih _)
      rw [String.toList_append]
      exact List.prefix_append _ _
    · exact List.prefix_refl _

theorem prefix_freshName (used : List String) (base : String) :
    base.toList <+: (freshName used base).toList :=
  prefix_freshNameFrom used _ base

def ArmedNames.all (names : ArmedNames) : List String := [names.caught, names.flag, names.token]

theorem chooseNames_fresh {ast : Node} (hx : x ∈ (chooseNames ast).all) : x ∉ ast.identifiers := by
  simp only [ArmedNames.all, chooseNames, List.mem_cons, List.not_mem_nil, or_false] at hx
  rcases hx with rfl | rfl | rfl
  all_goals exact freshName_fresh _ _

theorem chooseNames_bases (ast : Node) : ∀ x ∈ (chooseNames ast).all,
    ∃ base ∈ ["__gasx", "__gasf", "__gasd"], base.toList <+: x.toList := by
  intro x hx
  simp only [ArmedNames.all, chooseNames, List.mem_cons, List.not_mem_nil, or_false] at hx
  rcases hx with rfl | rfl | rfl
  all_goals exact ⟨_, by decide, prefix_freshName _ _⟩

theorem chooseNames_not_reserved {ast : Node} (hx : x ∈ (chooseNames ast).all) : x ∉ RESERVED_IDENTIFIERS := by
  intro hreserved
  obtain ⟨base, hbase, hprefix⟩ := chooseNames_bases ast x hx
  have hlong : ∀ r ∈ RESERVED_IDENTIFIERS, ∀ base ∈ ["__gasx", "__gasf", "__gasd"], ¬base.toList <+: r.toList := by
    decide
  exact hlong x hreserved base hbase hprefix

theorem freshName_ne (used : List String) {a b : String} (hlength : a.toList.length = b.toList.length)
    (hne : a.toList ≠ b.toList) : freshName used a ≠ freshName used b := by
  intro heq
  have ha := prefix_freshName used a
  rw [heq] at ha
  exact hne ((List.prefix_of_prefix_length_le ha (prefix_freshName used b) hlength.le).eq_of_length hlength)

theorem chooseNames_nodup (ast : Node) : (chooseNames ast).all.Nodup := by
  simp only [ArmedNames.all, chooseNames, List.nodup_cons, List.mem_cons, List.not_mem_nil, or_false, not_or,
    not_false_eq_true, List.nodup_nil, and_true]
  refine ⟨⟨?_, ?_⟩, ?_⟩
  all_goals exact freshName_ne _ (by decide) (by decide)

theorem mem_occurrencesList {strict : Bool} {around : ℕ → List (List String)} {i : ℕ} {ns : List Node}
    {r : String × List (List String)} (hr : r ∈ occurrencesList strict around i ns) :
    ∃ j, ∃ n ∈ ns, ∃ r' ∈ occurrences strict n, r = (r'.1, r'.2 ++ around (i + j)) ∧ ns[j]? = some n := by
  induction ns generalizing i with
  | nil => contradiction
  | cons n rest ih =>
    rw [occurrencesList, List.mem_append, List.mem_map] at hr
    rcases hr with ⟨r', hr', rfl⟩ | hr
    · exact ⟨0, n, List.mem_cons_self, r', hr', rfl, rfl⟩
    · obtain ⟨j, m, hm, r', hr', rfl, hj⟩ := ih hr
      exact ⟨j + 1, m, List.mem_cons_of_mem _ hm, r', hr', by rw [Nat.add_right_comm, Nat.add_assoc], hj⟩

theorem mem_occurrences_node {strict : Bool} {kind : Kind} {fields : List Node} {r : String × List (List String)}
    (hr : r ∈ occurrences strict (node kind fields)) :
    kind = .identifier r.1 ∧ r.2 = [] ∨ (∀ y, kind ≠ .identifier y) ∧
      ∃ i n, fields[i]? = some n ∧ ∃ r' ∈ occurrences (strictWithin strict kind (fields.map names)) n,
        r = (r'.1, r'.2 ++ scopes (strictWithin strict kind (fields.map names)) kind (fields.map names) i) := by
  by_cases hident : ∃ y, kind = .identifier y
  · obtain ⟨y, rfl⟩ := hident
    rw [occurrences, List.mem_singleton] at hr
    exact .inl (by simp [hr])
  · rw [occurrences.eq_2 _ _ _ (not_exists.mp hident)] at hr
    obtain ⟨j, n, _, r', hr', rfl, hj⟩ := mem_occurrencesList hr
    exact .inr ⟨not_exists.mp hident, j, n, hj, r', hr', by rw [Nat.zero_add]⟩

/-- An identifier that is not free is bound by a scope around it. -/
theorem mem_scope_of_not_free {strict : Bool} {n : Node} {r : String × List (List String)}
    (hr : r ∈ occurrences strict n) (hfree : r.1 ∉ freeNames strict n) : ∃ scope ∈ r.2, r.1 ∈ scope := by
  induction n using Node.induct generalizing strict r with
  | step kind fields ih =>
    rcases mem_occurrences_node hr with ⟨rfl, -⟩ | ⟨hkind, i, n, hn, r', hr', rfl⟩
    · exact absurd (by simp) hfree
    · by_cases hinner : r'.1 ∈ freeNames (strictWithin strict kind (fields.map names)) n
      · by_contra hscope
        refine hfree ((mem_freeNames_node hkind).mpr ⟨i, n, hn, hinner, fun scope hmem hx => hscope ?_⟩)
        exact ⟨scope, List.mem_append_right _ hmem, hx⟩
      · obtain ⟨scope, hscope, hx⟩ := ih n (List.mem_of_getElem? hn) hr' hinner
        exact ⟨scope, List.mem_append_left _ hscope, hx⟩

theorem mem_identifiers_of_occurrences {strict : Bool} {n : Node} {r : String × List (List String)}
    (hr : r ∈ occurrences strict n) : r.1 ∈ n.identifiers := by
  induction n using Node.induct generalizing strict r with
  | step kind fields ih =>
    rcases mem_occurrences_node hr with ⟨rfl, -⟩ | ⟨hkind, i, n, hn, r', hr', heq⟩
    · exact mem_identifiers_node.mpr (.inl rfl)
    · have hmem := List.mem_of_getElem? hn
      have hinner := ih n hmem hr'
      exact mem_identifiers_node.mpr (.inr ⟨hkind, n, hmem, heq ▸ hinner⟩)

variable {S : String → Prop}

/-- A name that is only called declares nothing. -/
theorem declared_of_uses {n : Node} (h : Uses S n) (hx : x ∈ n.names.all) : S x := by
  induction n using Node.induct with
  | step kind fields ih =>
    rw [names_node] at hx
    rcases Names.mem_all_combine hx with rfl | ⟨declared, hdeclared, hmem⟩
    · exact h
    · obtain ⟨n, hn, rfl⟩ := List.mem_map.mp hdeclared
      by_cases hident : ∃ y, kind = .identifier y
      · obtain ⟨y, rfl⟩ := hident
        rw [show x = y by simpa [Names.combine, Names.all] using hx]
        exact h
      · rcases uses_field (not_exists.mp hident) h hn with h | ⟨⟨optional, rfl⟩, -⟩
        · exact ih n hn h hmem
        · simp [Names.combine, Names.all] at hx

theorem scopes_of_uses {strict : Bool} {n : Node} (h : Uses S n) {r : String × List (List String)}
    (hr : r ∈ occurrences strict n) {scope : List String} (hscope : scope ∈ r.2) (hx : x ∈ scope) :
    x ∈ "arguments" :: wrapperParams ∨ S x := by
  induction n using Node.induct generalizing strict r with
  | step kind fields ih =>
    rcases mem_occurrences_node hr with ⟨rfl, hnil⟩ | ⟨hkind, i, n, hn, r', hr', rfl⟩
    · rw [hnil] at hscope
      contradiction
    · have hmem := List.mem_of_getElem? hn
      rcases List.mem_append.mp hscope with hscope | hscope
      · rcases uses_field hkind h hmem with h | ⟨-, y, args, rfl, -⟩
        · exact ih n hmem h hr' hscope
        · rw [occurrences, List.mem_singleton] at hr'
          rw [hr'] at hscope
          contradiction
      · rcases mem_scopes hscope hx with hx | ⟨declared, hdeclared, hx⟩
        · exact .inl hx
        · obtain ⟨m, hm, rfl⟩ := List.mem_map.mp hdeclared
          rcases uses_field hkind h hm with h | ⟨⟨optional, rfl⟩, -⟩
          · exact .inr (declared_of_uses h hx)
          · simp [scopes] at hscope

/-- How metered code resolves the identifiers of the contract, the reserved names and the
fresh ones; every identifier in it, with the scopes around it, is considered. -/
structure Hygienic (ast metered : Node) : Prop where
  /-- An inserted reference is one to the harness: no scope around it binds its name. -/
  harness : ∀ strict, ∀ r ∈ occurrences strict metered, r.1 ∈ RESERVED_IDENTIFIERS → ∀ scope ∈ r.2, r.1 ∉ scope
  /-- A use of a fresh name is below the binding of it. -/
  bound : ∀ strict, ∀ r ∈ occurrences strict metered, r.1 ∈ (chooseNames ast).all → ∃ scope ∈ r.2, r.1 ∈ scope
  /-- The contract neither refers to a fresh name nor declares one. -/
  apart : ∀ x ∈ (chooseNames ast).all, x ∉ ast.identifiers ∧ x ∉ RESERVED_IDENTIFIERS
  distinct : (chooseNames ast).all.Nodup
  /-- Nothing else is inserted. -/
  references : ∀ strict, ∀ r ∈ occurrences strict metered,
    r.1 ∈ ast.identifiers ∨ r.1 ∈ (chooseNames ast).all ∨ r.1 ∈ RESERVED_IDENTIFIERS
  /-- The scopes bind the declarations of the contract, the fresh names and the wrapper's. -/
  declarations : ∀ strict, ∀ r ∈ occurrences strict metered, ∀ scope ∈ r.2, ∀ x ∈ scope,
    x ∈ ast.identifiers ∨ x ∈ (chooseNames ast).all ∨ x ∈ "arguments" :: wrapperParams

theorem uses_meterCode_names (o : MeterOptions) (ast : Node) :
    Uses (fun x => x ∈ ast.identifiers ∨ x ∈ (chooseNames ast).all) (meterCode o ast) :=
  uses_meterCode o (uses_of_identifiers fun _ hx => .inl hx)
    ⟨.inr (by simp [ArmedNames.all]), .inr (by simp [ArmedNames.all]), .inr (by simp [ArmedNames.all])⟩

theorem not_mem_identifiers_of_reserved {ast : Node} (h : findReservedIdentifier ast = none)
    (hx : x ∈ RESERVED_IDENTIFIERS) : x ∉ ast.identifiers := by
  intro hmem
  exact List.find?_eq_none.mp h x hmem (List.contains_iff_mem.mpr hx)

theorem closed_meterCode (o : MeterOptions) {ast : Node} (hx : x ∈ (chooseNames ast).all) :
    Closed x (meterCode o ast) := by
  refine closed_instrument (chooseNames_not_reserved hx) _ fun hmem => ?_
  have huses := uses_recur ⟨o.specEvalOrder, o.meterCallSpread, o.meterRestPattern, o.nativeStackTerminal⟩ 0 false
    ast (uses_of_identifiers (S := (· ∈ ast.identifiers)) fun _ hy => hy) 0
  exact (mem_identifiers_of_uses huses hmem).elim (chooseNames_fresh hx) (chooseNames_not_reserved hx)

theorem meterCode_hygienic (o : MeterOptions) (ast : Node) (h : findReservedIdentifier ast = none) :
    Hygienic ast (meterCode o ast) where
  harness strict r hr hreserved scope hscope hmem := by
    rcases scopes_of_uses (uses_meterCode_names o ast) hr hscope hmem with hwrapper | hsource | hfresh
    · revert hreserved
      have hapart : ∀ x ∈ "arguments" :: wrapperParams, x ∉ RESERVED_IDENTIFIERS := by decide
      exact hapart _ hwrapper
    · exact not_mem_identifiers_of_reserved h hreserved hsource
    · exact chooseNames_not_reserved hfresh hreserved
  bound strict r hr hfresh := mem_scope_of_not_free hr (closed_meterCode o hfresh strict)
  apart x hx := ⟨chooseNames_fresh hx, chooseNames_not_reserved hx⟩
  distinct := chooseNames_nodup ast
  references strict r hr := by
    have hmem := mem_identifiers_of_uses (uses_meterCode_names o ast) (mem_identifiers_of_occurrences hr)
    exact or_assoc.mp hmem
  declarations strict r hr scope hscope x hx := by
    rcases scopes_of_uses (uses_meterCode_names o ast) hr hscope hx with hwrapper | hsource | hfresh
    · exact .inr (.inr hwrapper)
    · exact .inl hsource
    · exact .inr (.inl hfresh)

/-- `function f(__gasx) { try { f(); } catch ({ m }) { f(m); } finally { __gasx; } }` -/
def namedLikeFresh : Node :=
  node .program [list [node .functionDeclaration [astIdent "f", list [astIdent "__gasx"], node .functionBody [list
    [node .tryStatement
      [block [callStatement "f" []],
       node .catchClause
        [node .objectPattern [list [node (.patternProperty true false) [node (.name "m") [], astIdent "m"]]],
         block [callStatement "f" [astIdent "m"]]],
       block [node .expressionStatement [astIdent "__gasx"]]]]]]]]

theorem meterCode_hygienic_namedLikeFresh :
    Hygienic namedLikeFresh (meterCode ⟨true, true, true, true⟩ namedLikeFresh) :=
  meterCode_hygienic _ _ (by decide)

end XChainVM.Metering
