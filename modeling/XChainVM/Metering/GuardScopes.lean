import Mathlib.Data.List.TakeWhile
import XChainVM.Metering.FreeNames

/-! # The scopes of guarded bodies

The depth guard moves the statements of a body into a block: the names they declare are
bound in the block or, as variables, around it, so that nothing more becomes free.
-/

namespace XChainVM.Metering

open Node

variable {x : String}

theorem eq_literal_of_text {n : Node} (h : n.names.text.isSome) : ∃ s, n = node (.literal (.string s)) [] := by
  obtain ⟨kind, fields⟩ := n
  rw [names_node] at h
  unfold Names.combine at h
  split at h
  all_goals try contradiction
  rename_i s hfields
  exact ⟨s, by rw [List.map_eq_nil_iff.mp hfields]⟩

/-- The directives are the statements that are one. -/
theorem isDirective_eq (n : Node) : isDirective n = n.names.directive.isSome := by
  rw [Bool.eq_iff_iff]
  constructor
  · intro h
    unfold isDirective at h
    split at h
    · rfl
    · contradiction
  · intro h
    obtain ⟨kind, fields⟩ := n
    rw [names_node] at h
    unfold Names.combine at h
    split at h
    all_goals try contradiction
    rename_i expression hfields
    obtain ⟨e, rfl, rfl⟩ := List.map_eq_singleton_iff.mp hfields
    obtain ⟨s, rfl⟩ := eq_literal_of_text h
    rfl

theorem names_directive {n : Node} (h : isDirective n) : n.names = { directive := n.names.directive } := by
  unfold isDirective at h
  split at h
  · rfl
  · contradiction

theorem closed_directive {n : Node} (h : isDirective n) : Closed x n := by
  unfold isDirective at h
  split at h
  · exact closed_node (by simp) (List.forall_mem_singleton.mpr (closed_astLiteral _))
  · contradiction

/-- Directives declare nothing. -/
theorem names_list_directives {directives : List Node} (rest : List Node) (h : ∀ n ∈ directives, isDirective n) :
    { Names.list ((directives ++ rest).map names) with useStrict := false } =
      { Names.list (rest.map names) with useStrict := false } := by
  induction directives with
  | nil => rfl
  | cons n directives ih =>
    rw [List.forall_mem_cons] at h
    rw [← ih h.2, List.cons_append, List.map_cons, names_directive h.1]
    rfl

/-- The strictness of a body is that of its directives. -/
theorem useStrict_list {body body' : List Node} (h : body.takeWhile isDirective = body'.takeWhile isDirective) :
    (Names.list (body.map names)).useStrict = (Names.list (body'.map names)).useStrict := by
  have hmap (ns : List Node) : (ns.map names).takeWhile (fun n => n.directive.isSome) =
      (ns.takeWhile isDirective).map names := by
    rw [List.takeWhile_map]
    congr 2
    exact funext fun n => (isDirective_eq n).symm
  rw [Names.list, Names.list, hmap, hmap, h]

/-- The names of a body whose statements were moved into a block. -/
theorem names_guardedBody (rest : List Node) : (guardedBody rest).names =
    { vars := (Names.list (rest.map names)).vars, hoisted := (block rest).names.hoisted } := by
  simp [guardedBody, names_node, Names.combine, Names.list, callStatement, Names.block]

theorem names_armedGuardedBody (names : ArmedNames) (rest : List Node) : (armedGuardedBody names rest).names =
    { vars := (Names.list (rest.map Node.names)).vars, hoisted := (block rest).names.hoisted } := by
  simp [armedGuardedBody, names_node, Names.combine, Names.list, callStatement, armedExit, astIdent, Names.block]

theorem names_armedEnter (weight : ℕ) (token : String) :
    (armedEnter weight token).names = { lexical := [token] } := by
  simp [armedEnter, names_node, Names.combine, Names.list, astIdent]

theorem mem_freeNames_callStatement {strict : Bool} {name : String} {args : List Node}
    (hx : x ∈ freeNames strict (callStatement name args)) :
    x = name ∨ ∃ n ∈ args, x ∈ freeNames strict n := by
  rw [callStatement, mem_freeNames_plain (by simp) rfl fun _ => rfl] at hx
  simp only [List.mem_singleton, exists_eq_left, astCall] at hx
  rw [mem_freeNames_plain (by simp) rfl fun _ => rfl] at hx
  simpa [astIdent] using hx

theorem mem_freeNames_try {strict : Bool} {fields : List Node} :
    x ∈ freeNames strict (node .tryStatement fields) ↔ ∃ n ∈ fields, x ∈ freeNames strict n :=
  mem_freeNames_plain (by simp) rfl fun _ => rfl

theorem mem_freeNames_functionBody {strict : Bool} {body : List Node} :
    x ∈ freeNames strict (node .functionBody [list body]) ↔ ∃ n ∈ body, x ∈ freeNames strict n := by
  rw [mem_freeNames_plain (by simp) rfl fun _ => rfl]
  simp

theorem mem_freeNames_guardedBody {strict : Bool} {rest : List Node}
    (hx : x ∈ freeNames strict (guardedBody rest)) :
    x ∈ freeNames strict (block rest) ∨ x ∈ RESERVED_IDENTIFIERS := by
  by_cases hexit : x = "__depth_exit"
  · exact .inr (by simp [hexit, RESERVED_IDENTIFIERS, DEPTH_HELPERS])
  · have hfinally : Closed x (block [callStatement "__depth_exit" []]) :=
      closed_node (by simp) (by simpa using closed_callStatement hexit (by simp))
    rw [guardedBody, mem_freeNames_try] at hx
    simp only [List.mem_cons, List.not_mem_nil, or_false, exists_eq_or_imp, exists_eq_left] at hx
    rcases hx with hx | hx | hx
    · exact .inl hx
    · exact absurd hx (closed_absent strict)
    · exact absurd hx (hfinally strict)

theorem mem_freeNames_armedGuardedBody {strict : Bool} {names : ArmedNames} {rest : List Node}
    (hx : x ∈ freeNames strict (armedGuardedBody names rest)) :
    x = names.token ∨ x ∈ freeNames strict (block rest) ∨ x ∈ RESERVED_IDENTIFIERS := by
  by_cases htoken : x = names.token
  · exact .inl htoken
  by_cases hexit : x = "__depth_exit"
  · exact .inr (.inr (by simp [hexit, RESERVED_IDENTIFIERS, DEPTH_HELPERS]))
  · have hfinally : Closed x (block [armedExit names.token]) :=
      closed_node (by simp) (by simpa [armedExit] using closed_callStatement hexit (by simp [htoken]))
    rw [armedGuardedBody, mem_freeNames_try] at hx
    simp only [List.mem_cons, List.not_mem_nil, or_false, exists_eq_or_imp, exists_eq_left] at hx
    rcases hx with hx | hx | hx
    · exact .inr (.inl hx)
    · refine absurd hx (closed_catch (fun hcaught => closed_node (by simp) ?_) strict)
      rw [List.forall_mem_singleton, closed_list, List.forall_mem_cons, List.forall_mem_singleton]
      constructor
      · exact closed_callStatement hexit (by simp [hcaught])
      · exact closed_node (by simp) (by simp [hcaught])
    · exact absurd hx (hfinally strict)

theorem mem_freeNames_armedEnter {strict : Bool} {weight : ℕ} {token : String}
    (hx : x ∈ freeNames strict (armedEnter weight token)) : x = token ∨ x ∈ RESERVED_IDENTIFIERS := by
  by_contra hother
  rw [not_or] at hother
  have henter : x ≠ "__depth_enter" := by
    rintro rfl
    exact hother.2 (by decide)
  refine closed_node (by simp) (List.forall_mem_singleton.mpr ?_) strict hx
  refine closed_list.mpr (List.forall_mem_singleton.mpr (closed_node (by simp) ?_))
  rw [List.forall_mem_cons, List.forall_mem_singleton]
  refine ⟨closed_astIdent.mpr hother.1, closed_node (by simp) ?_⟩
  simp [henter]

theorem mem_freeNames_armedExit {strict : Bool} {token : String}
    (hx : x ∈ freeNames strict (armedExit token)) : x = token ∨ x ∈ RESERVED_IDENTIFIERS := by
  rcases mem_freeNames_callStatement hx with rfl | ⟨n, hn, hx⟩
  · exact .inr (by decide)
  · simp only [List.mem_cons, List.not_mem_nil, or_false] at hn
    rcases hn with rfl | rfl
    · exact .inl (by simpa [astIdent] using hx)
    · exact absurd hx (closed_astLiteral _ strict)

/-- What the scopes of a body bind is bound around a block of its statements, and in it. -/
theorem not_mem_bodyScopes {strict : Bool} {params : List String} {body guarded : Names}
    (hvars : guarded.vars = body.vars)
    (hhoisted : guarded.hoisted = body.functions ++ Names.block (body.lexical ++ body.functions) body.hoisted)
    (hparams : x ∉ params) (hblock : x ∉ body.ofBlock)
    (h : ∀ scope ∈ bodyScopes strict params guarded, x ∉ scope) :
    ∀ scope ∈ bodyScopes strict params body, x ∉ scope := by
  simp only [bodyScopes, List.mem_cons, List.not_mem_nil, or_false, forall_eq_or_imp, forall_eq, Names.varScope,
    Names.ofBlock, List.mem_append, not_or, hvars] at h hblock ⊢
  refine ⟨hblock.1, ⟨h.2.1.1, hblock.2⟩, ?_⟩
  cases strict with
  | true => simp
  | false =>
    simp only [Bool.false_eq_true, if_false, Names.mem_block, hhoisted, List.mem_append, not_and] at h ⊢
    grind

/-- Seen from outside of its scopes, the one body declares the same and frees no more than the other. -/
structure KeepsBody (after before : Node) : Prop where
  useStrict : after.names.asBody.useStrict = before.names.asBody.useStrict
  free : ∀ strict params, ∀ x ∈ freeNames strict after, x ∉ params →
    (∀ scope ∈ bodyScopes strict params after.names.asBody, x ∉ scope) →
    x ∈ RESERVED_IDENTIFIERS ∨ x ∈ freeNames strict before ∧
      ∀ scope ∈ bodyScopes strict params before.names.asBody, x ∉ scope

theorem KeepsBody.refl (body : Node) : KeepsBody body body where
  useStrict := rfl
  free _ _ _ hx _ hscope := .inr ⟨hx, hscope⟩

theorem KeepsBody.trans {a b c : Node} (h : KeepsBody a b) (h' : KeepsBody b c) : KeepsBody a c where
  useStrict := h.useStrict.trans h'.useStrict
  free strict params x hx hparams hscope := by
    rcases h.free strict params x hx hparams hscope with hx | ⟨hx, hscope⟩
    · exact .inl hx
    · exact h'.free strict params x hx hparams hscope

/-- Statements moved into a block, behind a token's declaration. -/
theorem keepsBody_block {tokens : List String} {enter guarded : Node} {body : List Node}
    (henter : enter.names = { lexical := tokens })
    (hguarded : guarded.names =
      { vars := (Names.list ((body.dropWhile isDirective).map names)).vars
        hoisted := (block (body.dropWhile isDirective)).names.hoisted })
    (hfreeEnter : ∀ strict, ∀ x ∈ freeNames strict enter, x ∈ tokens ∨ x ∈ RESERVED_IDENTIFIERS)
    (hfreeGuarded : ∀ strict, ∀ x ∈ freeNames strict guarded,
      x ∈ tokens ∨ x ∈ freeNames strict (block (body.dropWhile isDirective)) ∨ x ∈ RESERVED_IDENTIFIERS) :
    KeepsBody (node .functionBody [list (body.takeWhile isDirective ++ [enter, guarded])])
      (node .functionBody [list body]) := by
  set directives := body.takeWhile isDirective with hDirectives
  set rest := body.dropWhile isDirective with hRest
  have hbody : directives ++ rest = body := List.takeWhile_append_dropWhile
  have hdirective : ∀ n ∈ directives, isDirective n := fun n hn => List.mem_takeWhile_imp hn
  have hnames (ns : List Node) : (node .functionBody [list ns]).names.asBody =
      { useStrict := (Names.list (ns.map names)).useStrict, lexical := (Names.list (ns.map names)).lexical
        functions := (Names.list (ns.map names)).functions, vars := (Names.list (ns.map names)).vars
        hoisted := (Names.list (ns.map names)).hoisted, isBody := true } := by
    simp only [names_node, List.map_cons, List.map_nil]
    rfl
  have hlist (ns : List Node) := names_list_directives ns hdirective
  constructor
  · rw [hnames, hnames]
    refine useStrict_list ?_
    rw [List.takeWhile_append_of_pos hdirective, List.takeWhile_cons_of_neg, List.append_nil]
    simp [isDirective_eq, henter]
  · intro strict params x hx hparams hscope
    by_cases hreserved : x ∈ RESERVED_IDENTIFIERS
    · exact .inl hreserved
    have htoken : x ∉ tokens := by
      intro htoken
      refine hscope _ (List.mem_cons_self ..) ?_
      rw [hnames, congrArg Names.lexical (hlist _)]
      simp [Names.list, henter, htoken]
    have hfree : x ∈ freeNames strict (block rest) := by
      obtain ⟨n, hn, hfree⟩ := mem_freeNames_functionBody.mp hx
      simp only [List.mem_append, List.mem_cons, List.not_mem_nil, or_false] at hn
      rcases hn with hn | rfl | rfl
      · exact absurd hfree (closed_directive (hdirective n hn) strict)
      · exact absurd (hfreeEnter strict x hfree) (by simp [htoken, hreserved])
      · simpa [htoken, hreserved] using hfreeGuarded strict x hfree
    obtain ⟨⟨n, hn, hx⟩, hblock⟩ := mem_freeNames_block.mp hfree
    refine .inr ⟨mem_freeNames_functionBody.mpr ⟨n, hbody ▸ List.mem_append_right _ hn, hx⟩, ?_⟩
    refine not_mem_bodyScopes ?_ ?_ hparams ?_ hscope
    · rw [hnames, hnames, congrArg Names.vars (hlist _), ← hbody, congrArg Names.vars (hlist _)]
      simp [Names.list, henter, hguarded]
    · rw [hnames, hnames, congrArg Names.hoisted (hlist _), ← hbody, congrArg Names.hoisted (hlist _),
        congrArg Names.lexical (hlist _), congrArg Names.functions (hlist _)]
      simp [Names.list, henter, hguarded, names_node, Names.combine]
    · rw [Names.ofBlock, hnames, ← hbody, congrArg Names.lexical (hlist _), congrArg Names.functions (hlist _)]
      exact hblock

theorem keepsBody_wrapDepthGuard (armed : Option (ℕ × ArmedNames)) (body : Node) :
    KeepsBody (wrapDepthGuard armed body) body := by
  unfold wrapDepthGuard
  split
  case h_2 => exact KeepsBody.refl _
  case h_1 body =>
    cases armed with
    | none =>
      have henter : (callStatement "__depth_enter" []).names = { lexical := [] } := by
        simp [callStatement, names_node, Names.combine, astCall]
      refine keepsBody_block henter (names_guardedBody _) ?_ ?_
      · intro strict x hx
        refine .inr ?_
        rcases mem_freeNames_callStatement hx with rfl | ⟨n, hn, _⟩
        · decide
        · contradiction
      · exact fun strict x hx => .inr (mem_freeNames_guardedBody hx)
    | some armed =>
      obtain ⟨weight, names⟩ := armed
      refine keepsBody_block (names_armedEnter weight names.token) (names_armedGuardedBody names _) ?_ ?_
      · intro strict x hx
        simpa using mem_freeNames_armedEnter hx
      · intro strict x hx
        simpa using mem_freeNames_armedGuardedBody hx

theorem asBody_of_kind {body : Node} (h : ∀ fields, body ≠ node .functionBody fields) :
    body.names.asBody = {} := by
  obtain ⟨kind, fields⟩ := body
  have hbody : (node kind fields).names.isBody = false := by
    rw [names_node]
    unfold Names.combine
    split
    all_goals first | rfl | exact absurd rfl (h _)
  rw [Names.asBody, hbody]
  rfl

theorem keepsBody_blockArrow (body : Node) : KeepsBody (blockArrow body) body := by
  unfold blockArrow
  split
  case h_1 => exact KeepsBody.refl _
  case h_2 hbody =>
    have hnames : body.names.asBody = {} := asBody_of_kind hbody
    have hblock : (node .functionBody [list [node .returnStatement [body]]]).names.asBody = { isBody := true } := by
      simp [names_node, Names.combine, Names.asBody, Names.list]
    refine ⟨by rw [hnames, hblock], fun strict params x hx _ _ => .inr ⟨?_, ?_⟩⟩
    · simp only [mem_freeNames_functionBody, List.mem_singleton, exists_eq_left] at hx
      rw [mem_freeNames_plain (by simp) rfl fun _ => rfl] at hx
      simpa using hx
    · rw [hnames]
      simp [bodyScopes, Names.varScope, Names.block]

/-- A function of which only the body changes. -/
theorem function_scopes {kind : Kind} (hfunction : kind.isFunction) {id params body body' : Node}
    (h : KeepsBody body' body) :
    (node kind [id, params, body']).names = (node kind [id, params, body]).names ∧
    ∀ strict, ∀ x ∈ freeNames strict (node kind [id, params, body']),
      x ∈ freeNames strict (node kind [id, params, body]) ∨ x ∈ RESERVED_IDENTIFIERS := by
  have hkind : ∀ y, kind ≠ .identifier y := by
    rintro y rfl
    contradiction
  constructor
  · rw [names_node, names_node]
    cases kind
    all_goals first | contradiction | rfl
  · intro strict x hx
    obtain ⟨i, n, hn, hx, hscope⟩ := (mem_freeNames_node hkind).mp hx
    have hstrict' : strictWithin strict kind ([id, params, body'].map names) =
        strictWithin strict kind ([id, params, body].map names) := by
      cases kind
      all_goals first | contradiction | simp [strictWithin, h.useStrict]
    rw [hstrict'] at hx hscope
    generalize hwithin : strictWithin strict kind ([id, params, body].map names) = within at hx hscope
    have hback {n : Node} (hn : [id, params, body][i]? = some n) (hx : x ∈ freeNames within n)
        (hscope : ∀ scope ∈ scopes within kind ([id, params, body].map names) i, x ∉ scope) :
        x ∈ freeNames strict (node kind [id, params, body]) :=
      (mem_freeNames_node hkind).mpr ⟨i, n, hn, hwithin.symm ▸ hx, hwithin.symm ▸ hscope⟩
    rcases i with _ | _ | _ | i
    · cases hn
      refine .inl (hback rfl hx ?_)
      cases kind
      all_goals first | contradiction | exact hscope
    · cases hn
      refine .inl (hback rfl hx ?_)
      cases kind
      all_goals first | contradiction | exact hscope
    · cases hn
      have hparams : x ∉ params.names.bound := by
        cases kind
        all_goals first | contradiction | skip
        all_goals simp only [scopes, List.map_cons, List.map_nil, List.mem_append, List.mem_cons, List.not_mem_nil,
          or_false] at hscope
        all_goals grind
      have hbodyScope : ∀ scope ∈ bodyScopes within params.names.bound body'.names.asBody, x ∉ scope := by
        intro scope hmem
        refine hscope scope ?_
        cases kind
        all_goals first | contradiction | exact List.mem_append_left _ hmem
      rcases h.free within params.names.bound x hx hparams hbodyScope with hx | ⟨hx, hbodyScope⟩
      · exact .inr hx
      · refine .inl (hback rfl hx fun scope hmem => ?_)
        cases kind
        all_goals first | contradiction | skip
        all_goals rcases List.mem_append.mp hmem with hmem | hmem
        all_goals first
          | exact hbodyScope scope hmem
          | exact hscope scope (List.mem_append_right _ hmem)
    · simp at hn

theorem keepsScopes_guardFunction (names : Option ArmedNames) : KeepsScopes (guardFunction names) where
  names n := by
    unfold guardFunction
    split
    · exact (function_scopes rfl (keepsBody_wrapDepthGuard _ _)).1
    · exact (function_scopes rfl (keepsBody_wrapDepthGuard _ _)).1
    · exact (function_scopes rfl ((keepsBody_wrapDepthGuard _ _).trans (keepsBody_blockArrow _))).1
    · rfl
  free strict n := by
    unfold guardFunction
    split
    · exact (function_scopes rfl (keepsBody_wrapDepthGuard _ _)).2 strict
    · exact (function_scopes rfl (keepsBody_wrapDepthGuard _ _)).2 strict
    · exact (function_scopes rfl ((keepsBody_wrapDepthGuard _ _).trans (keepsBody_blockArrow _))).2 strict
    · exact fun x hx => .inl hx

theorem takeWhile_insert {p : Node → Bool} {body : List Node} {n : Node} (hn : p n = false) {rest : List Node} :
    ((body.take (1 + (body.takeWhile p).length) ++ n :: rest)).takeWhile p = body.takeWhile p := by
  induction body with
  | nil => simp [hn]
  | cons m body ih =>
    by_cases hm : p m
    · rw [List.takeWhile_cons_of_pos hm, List.length_cons, ← Nat.add_assoc, List.take_succ_cons, List.cons_append,
        List.takeWhile_cons_of_pos hm, ih]
    · simp [hm]

theorem mem_freeNames_program {strict : Bool} {body : List Node} :
    x ∈ freeNames strict (node .program [list body]) ↔
      (∃ n ∈ body, x ∈ freeNames (strict || (Names.list (body.map names)).useStrict) n) ∧
      ∀ scope ∈ bodyScopes (strict || (Names.list (body.map names)).useStrict) wrapperParams
        (Names.list (body.map names)) ++ ["arguments" :: wrapperParams], x ∉ scope := by
  rw [mem_freeNames_node (by simp)]
  simp only [List.map_cons, List.map_nil, names_node, Names.combine, strictWithin, scopes]
  constructor
  · rintro ⟨i, n, hn, hx, hscope⟩
    cases i with
    | succ i => simp at hn
    | zero =>
      cases hn
      exact ⟨mem_freeNames_list.mp hx, hscope⟩
  · rintro ⟨hx, hscope⟩
    exact ⟨0, _, rfl, mem_freeNames_list.mpr hx, hscope⟩

/-- Statements around which a token is declared and used. -/
theorem mem_freeNames_frame {token : String} {before after : List Node} {enter exit : Node}
    (henter : enter.names = { lexical := [token] }) (hexit : exit.names = {})
    (hfree : ∀ strict, ∀ x ∈ freeNames strict enter ++ freeNames strict exit, x = token ∨ x ∈ RESERVED_IDENTIFIERS)
    (hstrict : (Names.list ((before ++ enter :: (after ++ [exit])).map names)).useStrict =
      (Names.list ((before ++ after).map names)).useStrict) {strict : Bool}
    (hx : x ∈ freeNames strict (node .program [list (before ++ enter :: (after ++ [exit]))])) :
    x ∈ freeNames strict (node .program [list (before ++ after)]) ∨ x ∈ RESERVED_IDENTIFIERS := by
  by_cases hreserved : x ∈ RESERVED_IDENTIFIERS
  · exact .inr hreserved
  rw [mem_freeNames_program, hstrict] at hx
  obtain ⟨⟨n, hn, hx⟩, hscope⟩ := hx
  simp only [bodyScopes, List.mem_append, List.mem_cons, List.not_mem_nil, or_false, or_assoc, forall_eq_or_imp,
    forall_eq] at hscope
  have htoken : x ≠ token := by
    rintro rfl
    exact hscope.1 (by simp [Names.list, henter])
  have hmem : n ∈ before ++ after := by
    have hother := hfree (strict || (Names.list ((before ++ after).map names)).useStrict) x
    simp only [List.mem_append, List.mem_cons, List.not_mem_nil, or_false] at hn hother ⊢
    grind
  refine .inl (mem_freeNames_program.mpr ⟨⟨n, hmem, hx⟩, ?_⟩)
  simp only [bodyScopes, List.mem_append, List.mem_cons, List.not_mem_nil, or_false, or_assoc, forall_eq_or_imp,
    forall_eq]
  simp only [Names.varScope, Names.list, List.map_append, List.map_cons, List.map_nil, List.flatMap_append,
    List.flatMap_cons, List.flatMap_nil, henter, hexit, List.append_nil, List.nil_append, List.mem_append,
    List.mem_cons, not_or] at hscope ⊢
  refine ⟨hscope.1.imp_right And.right, ⟨hscope.2.1.1, ?_⟩, hscope.2.2⟩
  have hoist := hscope.2.1.2
  revert hoist
  split
  · exact fun _ => List.not_mem_nil
  · simp only [Names.mem_block, List.mem_append, List.mem_cons, not_and]
    grind

theorem mem_freeNames_chargeTopLevelFrame {names : ArmedNames} {strict : Bool} {n : Node}
    (hx : x ∈ freeNames strict (chargeTopLevelFrame names n)) :
    x ∈ freeNames strict n ∨ x ∈ RESERVED_IDENTIFIERS := by
  unfold chargeTopLevelFrame at hx
  split at hx
  case h_2 => exact .inl hx
  case h_1 body =>
    dsimp only at hx
    rw [List.append_assoc, List.cons_append] at hx
    have hbody := List.take_append_drop (1 + directivePrologueLength body) body
    have := mem_freeNames_frame (names_armedEnter _ _) ?_ ?_ ?_ hx
    · rwa [hbody] at this
    · simp [armedExit, callStatement, names_node, Names.combine, astCall]
    · intro strict x hx
      rcases List.mem_append.mp hx with hx | hx
      · exact mem_freeNames_armedEnter hx
      · exact mem_freeNames_armedExit hx
    · rw [hbody]
      refine useStrict_list (takeWhile_insert ?_)
      rw [isDirective_eq, names_armedEnter]
      rfl

theorem uses_of_identifiers {S : String → Prop} {n : Node} (h : ∀ y ∈ n.identifiers, S y) : Uses S n := by
  induction n using Node.induct with
  | step kind fields ih =>
    by_cases hident : ∃ y, kind = .identifier y
    · obtain ⟨y, rfl⟩ := hident
      exact h y (by simp [identifiers])
    · refine uses_of_fields (not_exists.mp hident) (usesList_iff.mpr fun n hn => ih n hn fun y hy => ?_)
      exact h y (mem_identifiers_node.mpr (.inr ⟨not_exists.mp hident, n, hn, hy⟩))

theorem uses_field {S : String → Prop} {kind : Kind} {fields : List Node} (hkind : ∀ x, kind ≠ .identifier x)
    (h : Uses S (node kind fields)) {n : Node} (hn : n ∈ fields) :
    Uses S n ∨ (∃ optional, kind = .callExpression optional) ∧
      ∃ x args, n = node (.identifier x) args ∧ x ∈ RESERVED_IDENTIFIERS := by
  obtain _ | ⟨first, rest⟩ := fields
  · contradiction
  rcases List.mem_cons.mp hn with rfl | hn
  · cases kind
    case identifier x => exact absurd rfl (hkind x)
    case callExpression optional =>
      obtain ⟨kind, args⟩ := n
      cases kind
      case identifier x =>
        exact h.1.imp_right fun hx => ⟨⟨optional, rfl⟩, x, args, rfl, hx⟩
      all_goals exact .inl h.1
    all_goals exact .inl h.1
  · exact .inl (usesList_iff.mp (uses_rest hkind h) n hn)

theorem mem_identifiers_of_uses {S : String → Prop} {n : Node} (h : Uses S n) (hx : x ∈ n.identifiers) :
    S x ∨ x ∈ RESERVED_IDENTIFIERS := by
  induction n using Node.induct with
  | step kind fields ih =>
    rcases mem_identifiers_node.mp hx with rfl | ⟨hkind, n, hn, hx⟩
    · exact .inl h
    · rcases uses_field hkind h hn with h | ⟨-, y, args, rfl, hy⟩
      · exact ih n hn h hx
      · simp only [identifiers, List.mem_singleton] at hx
        exact .inr (hx ▸ hy)

/-- What the charges and guards introduce is closed. -/
theorem closed_instrument (hx : x ∉ RESERVED_IDENTIFIERS) (names : Option ArmedNames) {n : Node}
    (h : x ∉ n.identifiers) : Closed x (instrument names n) := by
  have hgas : x ≠ "__gas" := by
    rintro rfl
    exact hx (by decide)
  have hTopLevel : x ∉ (chargeTopLevel n).identifiers := by
    intro hfree
    have huses : Uses (· ∈ n.identifiers) (chargeTopLevel n) :=
      uses_chargeTopLevel (uses_of_identifiers fun _ hy => hy)
    exact (mem_identifiers_of_uses huses hfree).elim h hx
  have hCharged := closed_injectBlockGas hgas names hTopLevel
  have hLater : KeepsScopes fun n => injectDepthGuards names (injectCallGas (injectBinaryDepthGas n)) :=
    (keepsScopes_guardFunction names).mapUp.comp
      (keepsScopes_chargeCalls.mapUp.comp keepsScopes_chargeBinary.mapUp)
  have hGuarded : Closed x
      (injectDepthGuards names (injectCallGas (injectBinaryDepthGas (injectBlockGas names (chargeTopLevel n))))) :=
    fun strict hfree => (hLater.free strict _ x hfree).elim (hCharged strict) hx
  cases names with
  | none => exact hGuarded
  | some names =>
    exact fun strict hfree => (mem_freeNames_chargeTopLevelFrame hfree).elim (hGuarded strict) hx

end XChainVM.Metering
