import XChainVM.Guards.DepthWalk

/-! # The verdict and the charge of the depth guard

Without the cycle check the guard goes on from every root path within its limit. It faults exactly
when there is a longer one, and what it charges can be read off the unfolded tree.
-/

namespace XChainVM.Guards

open Harness XChainVM.Tree

section

variable {β γ : Type*}

theorem upTo_map (bad : γ → Bool) (f : β → γ) (l : List β) :
    (upTo (fun b => bad (f b)) l).map f = upTo bad (l.map f) := by
  induction l with
  | nil => rfl
  | cons b rest ih =>
    rw [List.map_cons, upTo, upTo]
    split
    · rfl
    · rw [List.map_cons, ih]

theorem upTo_leads (bad : β → Bool) (l : List β) : upTo bad l <+: l := by
  induction l with
  | nil => exact List.prefix_refl _
  | cons b rest ih =>
    rw [upTo]
    split
    · exact List.prefix_append [b] rest
    · exact (List.prefix_cons_inj b).mpr ih

end

variable (g : ValueGraph)

def LongPath (limit : ℕ) (root : Val) : Prop :=
  ∃ id p, g.container? root = some id ∧ RootPath (successors g) id p ∧ limit < p.length

def treeGas (limit : ℕ) (root : Val) : ℕ :=
  match g.container? root with
  | none => 0
  | some id => (g.unfold limit id).gas limit

namespace Guard

variable (w : Guard)

def pathsFrom (root : Val) : List (List (ℕ × ℕ)) :=
  match g.container? root with
  | none => []
  | some id => w.paths g id

/-- What is met with enough gas: the root paths in order, up to the first bad one. -/
def visits (root : Val) : List Visit := (upTo w.bad (w.pathsFrom g root)).map w.visit

theorem holds_start (gas : ℕ) {root : Val} {id : ℕ} (h : g.container? root = some id) :
    w.Holds (start g true gas false root) [((id, 0), [])] := by
  have hstart : start g true gas false root = ⟨[(id, 1)], fun _ => none, gas, false, [], none⟩ := by
    rw [start, h]
    rfl
  rw [hstart]
  constructor
  case outcome => rfl
  case stack => rfl
  case length =>
    intro q hq
    rw [List.mem_singleton.mp hq]
    exact Nat.zero_le _
  case above =>
    intro _ q hq
    rw [List.mem_singleton.mp hq]
    rfl
  case sorted => exact List.pairwise_singleton _ _

/-- The run of the guard on a value. -/
theorem iterate_start (gas : ℕ) (root : Val) {s : State}
    (hs : (w.step g)^[(w.pathsFrom g root).length + 1] (start g true gas false root) = s) :
    s.outcome = some .outOfGas ∧ gas < w.cost g (w.pathsFrom g root) ∧
        s.visited <+: w.visits g root ∨
      s.outcome = some (w.verdict ((w.pathsFrom g root).find? w.bad)) ∧ s.gas + w.cost g (w.pathsFrom g root) = gas ∧
        s.visited = w.visits g root := by
  rw [visits]
  cases hroot : g.container? root with
  | none =>
    have hpaths : w.pathsFrom g root = [] := by rw [pathsFrom, hroot]
    have hstart : start g true gas false root = State.ends ⟨[], fun _ => none, gas, false, [], none⟩ .passed := by
      rw [start, hroot]
      rfl
    rw [hpaths, hstart] at hs
    rw [hpaths, ← hs]
    exact .inr ⟨rfl, rfl, rfl⟩
  | some id =>
    have hpaths : w.pathsFrom g root = w.paths g id := by rw [pathsFrom, hroot]
    have hgas : (start g true gas false root).gas = gas ∧ (start g true gas false root).visited = [] := by
      rw [start, hroot]
      exact ⟨rfl, rfl⟩
    have hahead : w.ahead g [((id, 0), [])] = w.paths g id := List.append_nil _
    rw [hpaths] at hs ⊢
    have hrun := w.iterate_of_holds g (w.holds_start g gas hroot) hahead hs
    rw [hgas.1, hgas.2, List.nil_append] at hrun
    exact hrun

theorem nodup_paths (id : ℕ) : (w.paths g id).Nodup :=
  nodup_walked (fun a => List.nodup_reverse.mpr (g.nodup_children a)) _ _ _

theorem nodup_pathsFrom (root : Val) : (w.pathsFrom g root).Nodup := by
  unfold pathsFrom
  split
  · exact List.nodup_nil
  · exact w.nodup_paths g _

end Guard

/-- The guard of the builtins other than `JSON.stringify`. -/
def plainGuard (limit : ℕ) : Guard := ⟨limit, false⟩

theorem plainGuard_bad (limit : ℕ) (p : List (ℕ × ℕ)) : (plainGuard limit).bad p = decide (limit < p.length) := rfl

theorem mem_plainPaths (limit id : ℕ) (p : List (ℕ × ℕ)) :
    p ∈ (plainGuard limit).paths g id ↔ RootPath (successors g) id p ∧ p.length ≤ limit + 1 := by
  have hlong (q : List (ℕ × ℕ)) (hq : [(id, 0)].length + limit ≤ q.length) : (plainGuard limit).bad q = true := by
    rw [plainGuard_bad, decide_eq_true_iff]
    rw [List.length_singleton] at hq
    omega
  refine (mem_walked_iff .root hlong).trans ⟨?_, ?_⟩
  · rintro ⟨hpath, hroot, hgood⟩
    refine ⟨hpath, ?_⟩
    by_contra hlt
    obtain ⟨q, hq, hlength⟩ : ∃ q, q <:+ p ∧ q.length = limit + 1 :=
      ⟨p.drop (p.length - (limit + 1)), List.drop_suffix _ _, by rw [List.length_drop]; omega⟩
    have hne : q ≠ [] := List.ne_nil_of_length_pos (by omega)
    have hqgood := hgood q (hpath.of_suffix hq hne).root_suffix hq (by rintro rfl; omega)
    rw [plainGuard_bad, decide_eq_false_iff_not] at hqgood
    omega
  · rintro ⟨hpath, hle⟩
    refine ⟨hpath, hpath.root_suffix, fun r _ hr hne => ?_⟩
    have hlt : r.length < p.length := lt_of_le_of_ne hr.length_le fun h => hne (hr.eq_of_length h)
    rw [plainGuard_bad, decide_eq_false_iff_not]
    omega

def shape : List (ℕ × ℕ) → ℕ × ℕ
  | [] => (0, 0)
  | a :: p => (p.length + 1, (g a.1).width)

theorem walked_map_shape (limit n : ℕ) (a : ℕ × ℕ) (p : List (ℕ × ℕ)) (hn : p.length + n = limit) :
    (walked (successors g) (plainGuard limit).bad n a p).map (shape g) = (g.unfold n a.1).visits (p.length + 1) := by
  induction n generalizing a p with
  | zero => rfl
  | succ n ih =>
    have hgood : ¬(plainGuard limit).bad (a :: p) = true := by
      rw [plainGuard_bad, decide_eq_true_iff, List.length_cons]
      omega
    have hnext (c : ℕ × ℕ) := ih c (a :: p) (by rw [List.length_cons]; omega)
    rw [walked, if_neg hgood, List.map_cons, List.map_flatMap, ValueGraph.unfold, Unfolding.visits,
      Unfolding.visitsAll_eq, ← List.map_reverse, List.flatMap_map]
    exact congrArg _ (List.flatMap_congr fun c _ => hnext c)

theorem plainGuard_cost (limit : ℕ) (root : Val) :
    (plainGuard limit).cost g ((plainGuard limit).pathsFrom g root) = treeGas g limit root := by
  unfold Guard.pathsFrom treeGas
  split
  · rfl
  · next id _ =>
    have hshape (p : List (ℕ × ℕ)) : (plainGuard limit).bad p = decide (limit < (shape g p).1) := by
      cases p with
      | nil => rfl
      | cons a p => rfl
    have hamount (p : List (ℕ × ℕ)) (hp : p ≠ []) : (plainGuard limit).amount g p =
        if limit < (shape g p).1 then 1 else 1 + scanCharge (shape g p).2 := by
      cases p with
      | nil => exact absurd rfl hp
      | cons a p =>
        rw [Guard.amount, hshape]
        simp only [decide_eq_true_eq]
        rfl
    have hvisits : ((plainGuard limit).paths g id).map (shape g) = (g.unfold limit id).visits 1 :=
      walked_map_shape g limit limit (id, 0) [] (Nat.zero_add _)
    have hne (p) (hp : p ∈ upTo (plainGuard limit).bad ((plainGuard limit).paths g id)) : p ≠ [] :=
      ((mem_plainPaths g limit id p).mp ((upTo_leads _ _).subset hp)).1.ne_nil
    rw [Guard.cost, List.map_congr_left fun p hp => hamount p (hne p hp), funext hshape, Unfolding.gas, ← hvisits,
      ← upTo_map, List.map_map]
    rfl

theorem longPath_iff (limit : ℕ) (root : Val) :
    LongPath g limit root ↔ ∃ p ∈ (plainGuard limit).pathsFrom g root, (plainGuard limit).bad p = true := by
  unfold LongPath Guard.pathsFrom
  cases g.container? root with
  | none =>
    constructor
    · rintro ⟨_, _, h, _⟩
      cases h
    · rintro ⟨_, h, _⟩
      cases h
  | some id =>
    constructor
    · rintro ⟨_, p, h, hp, hlt⟩
      obtain rfl := Option.some.inj h
      obtain ⟨q, hq, hlength⟩ := hp.exists_length (Nat.succ_pos limit) hlt
      refine ⟨q, (mem_plainPaths g limit id q).mpr ⟨hq, hlength.le⟩, ?_⟩
      rw [plainGuard_bad, decide_eq_true_iff]
      omega
    · rintro ⟨p, hp, hbad⟩
      rw [plainGuard_bad, decide_eq_true_iff] at hbad
      exact ⟨id, p, rfl, ((mem_plainPaths g limit id p).mp hp).1, hbad⟩

theorem mem_plainPathsFrom (limit : ℕ) (root : Val) (p : List (ℕ × ℕ)) :
    p ∈ (plainGuard limit).pathsFrom g root ↔
      ∃ id, g.container? root = some id ∧ RootPath (successors g) id p ∧ p.length ≤ limit + 1 := by
  unfold Guard.pathsFrom
  cases g.container? root with
  | none => simp
  | some id =>
    rw [mem_plainPaths]
    simp

/-- The guard without the cycle check ends, and with enough gas it faults exactly if a root path is longer
than the limit. It meets each root path once, in order, and goes on from those within the limit up to the
first beyond it; what it charges is a function of the unfolded tree. -/
theorem plainGuard_run (limit gas : ℕ) (root : Val) :
    ((plainGuard limit).pathsFrom g root).Nodup ∧
    (∀ p, p ∈ (plainGuard limit).pathsFrom g root ↔
      ∃ id, g.container? root = some id ∧ RootPath (successors g) id p ∧ p.length ≤ limit + 1) ∧
    ∃ n, ∃ s, ((plainGuard limit).step g)^[n] (Guard.start g true gas false root) = s ∧
      (s.outcome = some .outOfGas ∧ gas < treeGas g limit root ∧
          s.visited <+: (plainGuard limit).visits g root ∨
        (s.outcome = some .outOfStack ∧ LongPath g limit root ∨ s.outcome = some .passed ∧ ¬LongPath g limit root) ∧
          s.gas + treeGas g limit root = gas ∧
          s.visited = (plainGuard limit).visits g root) := by
  refine ⟨(plainGuard limit).nodup_pathsFrom g root, mem_plainPathsFrom g limit root,
    ((plainGuard limit).pathsFrom g root).length + 1, _, rfl, ?_⟩
  rw [← plainGuard_cost]
  obtain hshort | ⟨hout, hpaid, hvisited⟩ := (plainGuard limit).iterate_start g gas root rfl
  · exact .inl hshort
  · refine .inr ⟨?_, hpaid, hvisited⟩
    rw [hout, longPath_iff]
    cases hfind : ((plainGuard limit).pathsFrom g root).find? (plainGuard limit).bad with
    | none =>
      right
      refine ⟨rfl, ?_⟩
      rintro ⟨p, hp, hbad⟩
      exact List.find?_eq_none.mp hfind p hp hbad
    | some p => exact .inl ⟨rfl, p, List.mem_of_find?_eq_some hfind, List.find?_some hfind⟩

end XChainVM.Guards
