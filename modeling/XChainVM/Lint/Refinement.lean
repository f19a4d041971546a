import Mathlib.Data.List.Flatten
import XChainVM.Lint.Validation

/-! # Stronger settings find more

Of two settings the stronger one recognizes every reference the weaker one does, so each scanner
and the lint as a whole find at least as much. A source that the gate passes at full strength is
then refused under no setting, except by the engine.
-/

namespace XChainVM.Lint

variable {aliased optionalChain aliased' optionalChain' : Bool}

/-- What is not a chain is unwrapped alike under both settings. -/
theorem unwrapChain_mono {t u : Tree} (hchain : optionalChain = true → optionalChain' = true)
    (hunwrap : unwrapChain optionalChain t = some u) (htype : u.type ≠ .chainExpression) :
    unwrapChain optionalChain' t = some u := by
  cases optionalChain with
  | true =>
    rw [hchain rfl]
    exact hunwrap
  | false =>
    obtain rfl : t = u := by simpa [unwrapChain] using hunwrap
    simp [unwrapChain, htype]

theorem isGlobalObjectRef_iff {t : Tree} : isGlobalObjectRef aliased optionalChain t = true ↔
    ∃ u, unwrapChain optionalChain t = some u ∧
      ((u.type = .identifier ∧ u.attributes.name = "globalThis") ∨
        (aliased = true ∧ (u.type = .thisExpression ∨
          (u.type = .memberExpression ∧ staticMemberKey u = some "globalThis" ∧
            ∃ o, u.at? .object = some o ∧ isGlobalObjectRef aliased optionalChain o = true)))) := by
  rw [isGlobalObjectRef]
  constructor
  · intro h
    obtain ⟨u, -, hu⟩ := (Option.any_eq_true _ _).mp h
    refine ⟨u.1, u.2, ?_⟩
    split at hu
    · exact .inl ‹_›
    · right
      cases aliased with
      | false => cases hu
      | true =>
        refine ⟨rfl, ?_⟩
        simp only [Bool.not_true, Bool.false_eq_true, if_false] at hu
        split at hu
        · exact .inl ‹_›
        · split at hu
          · obtain ⟨hkey, hobject⟩ := Bool.and_eq_true_iff.mp hu
            obtain ⟨o, -, ho⟩ := (Option.any_eq_true _ _).mp hobject
            exact .inr ⟨‹_›, of_decide_eq_true hkey, o.1, o.2, ho⟩
          · cases hu
  · rintro ⟨u, hunwrap, h⟩
    refine (Option.any_eq_true _ _).mpr ⟨⟨u, hunwrap⟩, Option.mem_attach _ _, ?_⟩
    dsimp only
    obtain ⟨htype, hname⟩ | ⟨rfl, htype | ⟨htype, hkey, o, hobject, ho⟩⟩ := h
    · rw [if_pos ⟨htype, hname⟩]
    · simp [htype]
    · have hany : ((u.at? .object).attach.any fun o => isGlobalObjectRef true optionalChain o.1) = true :=
        (Option.any_eq_true _ _).mpr ⟨⟨o, hobject⟩, Option.mem_attach _ _, ho⟩
      simp [htype, hkey, hany]

theorem isGlobalObjectRef_mono (halias : aliased = true → aliased' = true)
    (hchain : optionalChain = true → optionalChain' = true) {t : Tree}
    (h : isGlobalObjectRef aliased optionalChain t = true) : isGlobalObjectRef aliased' optionalChain' t = true := by
  obtain ⟨u, hunwrap, hu⟩ := isGlobalObjectRef_iff.mp h
  have htype : u.type ≠ .chainExpression := by
    obtain ⟨htype, -⟩ | ⟨-, htype | ⟨htype, -⟩⟩ := hu <;> simp [htype]
  refine isGlobalObjectRef_iff.mpr ⟨u, unwrapChain_mono hchain hunwrap htype, ?_⟩
  obtain hname | ⟨ha, hthis | ⟨hmember, hkey, o, hobject, ho⟩⟩ := hu
  · exact .inl hname
  · exact .inr ⟨halias ha, .inl hthis⟩
  · have hlt : sizeOf o < sizeOf t := Nat.lt_of_lt_of_le (Tree.sizeOf_at hobject) (sizeOf_unwrapChain hunwrap)
    exact .inr ⟨halias ha, .inr ⟨hmember, hkey, o, hobject, isGlobalObjectRef_mono halias hchain ho⟩⟩
termination_by sizeOf t

theorem isGlobalObjectPathRef_mono (halias : aliased = true → aliased' = true)
    (hchain : optionalChain = true → optionalChain' = true) {t : Tree} {path : List String}
    (h : isGlobalObjectPathRef aliased optionalChain t path = true) :
    isGlobalObjectPathRef aliased' optionalChain' t path = true := by
  simp only [isGlobalObjectPathRef, Bool.and_eq_true, Bool.or_eq_true] at h ⊢
  obtain ⟨href, hpath⟩ := h
  refine ⟨isGlobalObjectRef_mono halias hchain href, ?_⟩
  obtain hempty | ⟨ha, hall⟩ := hpath
  · exact .inl hempty
  · exact .inr ⟨halias ha, hall⟩

theorem any_mono {o : Option Tree} {p q : Tree → Bool} (h : ∀ t, p t = true → q t = true) (ho : o.any p = true) :
    o.any q = true := by
  obtain ⟨t, ht, hp⟩ := (Option.any_eq_true _ _).mp ho
  exact (Option.any_eq_true _ _).mpr ⟨t, ht, h t hp⟩

theorem isMathObjectRef_mono (halias : aliased = true → aliased' = true)
    (hchain : optionalChain = true → optionalChain' = true) {t : Tree}
    (h : isMathObjectRef aliased optionalChain t = true) : isMathObjectRef aliased' optionalChain' t = true := by
  unfold isMathObjectRef at h
  split at h
  · cases h
  next u hunwrap =>
    have hmono := fun t => isGlobalObjectRef_mono (t := t) halias hchain
    split at h
    next hname =>
      have htype : u.type ≠ .chainExpression := by simp [hname.1]
      simp [isMathObjectRef, unwrapChain_mono hchain hunwrap htype, hname]
    next hname =>
      simp only [Bool.and_eq_true, decide_eq_true_eq] at h
      obtain ⟨⟨hmember, hobject⟩, hkey⟩ := h
      have htype : u.type ≠ .chainExpression := by simp [hmember]
      simp [isMathObjectRef, unwrapChain_mono hchain hunwrap htype, hmember, hkey, any_mono hmono hobject]

theorem isMathObjectPathRef_mono (halias : aliased = true → aliased' = true)
    (hchain : optionalChain = true → optionalChain' = true) {t : Tree} {path : List String}
    (h : isMathObjectPathRef aliased optionalChain t path = true) :
    isMathObjectPathRef aliased' optionalChain' t path = true := by
  cases path with
  | nil => exact isMathObjectRef_mono halias hchain h
  | cons key rest =>
    obtain ⟨hlast, hpath⟩ := Bool.and_eq_true_iff.mp h
    exact Bool.and_eq_true_iff.mpr ⟨hlast, isGlobalObjectPathRef_mono halias hchain hpath⟩

/-- Both settings are hardened or neither is, and a refinement of the weaker one is one of the stronger. -/
structure Refinements.Weaker (f g : Refinements) : Prop where
  hardened : f.hardened = g.hardened
  aliased : f.aliased = true → g.aliased = true
  optionalChain : f.optionalChain = true → g.optionalChain = true
  destructure : f.destructure = true → g.destructure = true

variable {f g : Refinements} (h : f.Weaker g)

include h

theorem markMember_eq (member : Option String) (line : ℕ) : markMember f member line = markMember g member line := by
  simp only [markMember, h.hardened]

omit h in
theorem ite_sublist {α : Type} {p q : Bool} (hpq : p = true → q = true) {l l' : List α} (hl : l.Sublist l') :
    (if p then l else []).Sublist (if q then l' else []) := by
  cases p with
  | false => exact List.nil_sublist _
  | true =>
    rw [hpq rfl]
    exact hl

theorem mathHits_sublist (t : Tree) : (mathHits f t).Sublist (mathHits g t) := by
  have hentries : ((objectPatternEntries t).filter (readsMath f)).Sublist
      ((objectPatternEntries t).filter (readsMath g)) :=
    List.monotone_filter_right _ fun entry => isMathObjectPathRef_mono h.aliased h.optionalChain
  have hobject := any_mono (o := t.at? .object) fun t => isMathObjectRef_mono (t := t) h.aliased h.optionalChain
  simp only [mathHits, markMember_eq h]
  split
  · exact ite_sublist h.destructure (hentries.flatMap _)
  · exact ite_sublist h.destructure (hentries.flatMap _)
  · exact ite_sublist hobject (List.Sublist.refl _)
  · exact List.nil_sublist _

theorem destructuredReads_sublist (t : Tree) (name : String) :
    (destructuredReads f t name).Sublist (destructuredReads g t name) := by
  refine ite_sublist h.destructure (List.Sublist.map _ (List.monotone_filter_right _ fun entry hentry => ?_))
  obtain ⟨hlast, hpath⟩ := Bool.and_eq_true_iff.mp hentry
  exact Bool.and_eq_true_iff.mpr ⟨hlast, isGlobalObjectPathRef_mono h.aliased h.optionalChain hpath⟩

theorem memberReads_mono {name : String} {t : Tree} (hreads : memberReads f name t = true) :
    memberReads g name t = true := by
  obtain ⟨hobject, hkey⟩ := Bool.and_eq_true_iff.mp hreads
  exact Bool.and_eq_true_iff.mpr
    ⟨any_mono (fun t => isGlobalObjectRef_mono h.aliased h.optionalChain) hobject, hkey⟩

theorem asyncHits_sublist (v : Visit) : (asyncHits f v).Sublist (asyncHits g v) := by
  unfold asyncHits
  dsimp only
  split
  · exact (destructuredReads_sublist h v.node "Promise").map _
  · exact (destructuredReads_sublist h v.node "Promise").map _
  any_goals exact List.Sublist.refl _
  · rw [h.hardened]
  · rw [h.hardened]
  · exact ite_sublist (memberReads_mono h) (List.Sublist.refl _)

theorem wasmHits_sublist (v : Visit) : (wasmHits f v).Sublist (wasmHits g v) := by
  unfold wasmHits
  split
  · exact destructuredReads_sublist h v.node "WebAssembly"
  · exact destructuredReads_sublist h v.node "WebAssembly"
  · exact List.Sublist.refl _
  · exact ite_sublist (memberReads_mono h) (List.Sublist.refl _)
  · exact List.Sublist.refl _

variable (tools : Toolchain)

theorem scanErrors_sublist (ast : Tree) : (scanErrors tools f ast).Sublist (scanErrors tools g ast) := by
  have hmath := List.Sublist.flatMap_right (tools.walk.simple ast) fun t _ => mathHits_sublist h t
  have hasync := List.Sublist.flatMap_right (tools.walk.ancestor ast) fun v _ => asyncHits_sublist h v
  have hwasm := List.Sublist.flatMap_right (tools.walk.ancestor ast) fun v _ => wasmHits_sublist h v
  simp only [scanErrors, mathErrors, h.hardened]
  refine ((((((((List.Sublist.refl _).append ?_).append ?_).append ?_).append ?_).append ?_).append ?_).append ?_)
  · exact (hmath.map _).append (List.Sublist.refl _)
  · exact List.Sublist.refl _
  · exact hasync.map _
  · exact List.Sublist.refl _
  · exact List.Sublist.refl _
  · exact hwasm.map _
  · exact List.Sublist.refl _

end XChainVM.Lint
