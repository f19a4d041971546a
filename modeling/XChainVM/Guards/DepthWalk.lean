import XChainVM.Guards.NativeDepth

/-! # What the depth guard visits

The stacks of the guard hold the paths it has still to go on from. Taking the top of the stack and
pushing its children leads from the paths still to be met to the same paths without the first, so
the guard meets the root paths in order, up to the first that is bad.
-/

namespace XChainVM.Guards

open Harness XChainVM.Tree

variable (g : ValueGraph)

def successors (id : ℕ) : List (ℕ × ℕ) := (g.children id).reverse

namespace Guard

variable (w : Guard)

/-- The guard ends at a path that is too long and, for `JSON.stringify`, at one that comes back to itself. -/
def bad (p : List (ℕ × ℕ)) : Bool := (w.forJson && decide (Repeats p)) || decide (w.limit < p.length)

def paths (id : ℕ) : List (List (ℕ × ℕ)) := walked (successors g) w.bad w.limit (id, 0) []

def fault (p : List (ℕ × ℕ)) : Outcome := if w.forJson && decide (Repeats p) then .cyclic else .outOfStack

def verdict : Option (List (ℕ × ℕ)) → Outcome
  | none => .passed
  | some p => w.fault p

def amount : List (ℕ × ℕ) → ℕ
  | [] => 0
  | a :: p => if w.bad (a :: p) then 1 else 1 + scanCharge (g a.1).width

def cost (ps : List (List (ℕ × ℕ))) : ℕ := ((upTo w.bad ps).map (w.amount g)).sum

def visit : List (ℕ × ℕ) → Visit
  | [] => ⟨0, 0, []⟩
  | a :: p => ⟨a.1, p.length + 1, if w.forJson then p.reverse.map fun b => some b.1 else []⟩

theorem onPath_eq {path : ℕ → Option ℕ} {a : ℕ × ℕ} {p : List (ℕ × ℕ)}
    (h : (List.range p.length).map path = p.reverse.map fun b => some b.1) :
    onPath path a.1 (p.length + 1) = decide (Repeats (a :: p)) := by
  have hany : onPath path a.1 (p.length + 1) = ((List.range p.length).map path).any fun e => e = some a.1 := by
    rw [List.any_map]
    rfl
  rw [hany, h, Bool.eq_iff_iff, decide_eq_true_iff, List.any_map, List.any_reverse, List.any_eq_true]
  constructor
  · rintro ⟨b, hb, heq⟩
    exact List.mem_map.mpr ⟨b, hb, Option.some.inj (of_decide_eq_true heq)⟩
  · intro hrepeats
    obtain ⟨b, hb, heq⟩ := List.mem_map.mp hrepeats
    exact ⟨b, hb, decide_eq_true (congrArg some heq)⟩

theorem map_update {path : ℕ → Option ℕ} {n k : ℕ} (x : Option ℕ) (h : n ≤ k) :
    (List.range n).map (Function.update path k x) = (List.range n).map path := by
  refine List.map_congr_left fun j hj => ?_
  have hlt := List.mem_range.mp hj
  exact Function.update_of_ne (by omega) _ _

/-- Below a container the array holds what it held above it, and the container. -/
theorem map_update_succ {path : ℕ → Option ℕ} {a : ℕ × ℕ} {p : List (ℕ × ℕ)}
    (h : (List.range p.length).map path = p.reverse.map fun b => some b.1) :
    (List.range (a :: p).length).map (Function.update path p.length (some a.1)) =
      (a :: p).reverse.map fun b => some b.1 := by
  rw [List.length_cons, List.range_succ, List.map_append, map_update _ le_rfl, h]
  simp

/-- The stacks hold these paths, innermost first. -/
structure Holds (s : State) (qs : List ((ℕ × ℕ) × List (ℕ × ℕ))) : Prop where
  outcome : s.outcome = none
  stack : s.stack = qs.map fun q => (q.1.1, q.2.length + 1)
  length : ∀ q ∈ qs, q.2.length ≤ w.limit
  above : w.forJson = true → ∀ q ∈ qs, (List.range q.2.length).map s.path = q.2.reverse.map fun b => some b.1
  sorted : qs.Pairwise fun q r => r.2.length ≤ q.2.length

def ahead (qs : List ((ℕ × ℕ) × List (ℕ × ℕ))) : List (List (ℕ × ℕ)) := pending (successors g) w.bad w.limit qs

def further (a : ℕ × ℕ) (p : List (ℕ × ℕ)) : List ((ℕ × ℕ) × List (ℕ × ℕ)) :=
  (successors g a.1).map fun c => (c, a :: p)

theorem length_le_of_not_bad {p : List (ℕ × ℕ)} (h : w.bad p = false) : p.length ≤ w.limit := by
  have := (Bool.or_eq_false_iff.mp h).2
  simpa using this

theorem foldl_push (d slot : ℕ) (vs : List Val) (stack : List (ℕ × ℕ)) : vs.foldl (push g d) stack =
    ((g.childrenFrom slot vs).reverse.map fun c => (c.1, d + 1)) ++ stack := by
  induction vs generalizing slot stack with
  | nil => rfl
  | cons v rest ih =>
    rw [List.foldl_cons, ih (slot + 1), ValueGraph.childrenFrom, push]
    cases g.container? v with
    | none => rfl
    | some id => simp

/-- A container is gone through: its children are pushed, and its width is paid. -/
theorem scan_eq (s : State) (v d : ℕ) : scan g s v d =
      { s with stack := ((successors g v).map fun c => (c.1, d + 1)) ++ s.stack, gas := s.gas - scanCharge (g v).width } ∧
        scanCharge (g v).width ≤ s.gas ∨
    (scan g s v d).outcome = some .outOfGas ∧ (scan g s v d).visited = s.visited ∧ s.gas < scanCharge (g v).width := by
  have hchildren : successors g v = (g.childrenFrom 0 (g v).slots).reverse := rfl
  have hwidth (s : State) (width : ℕ) (k : State → State) :
      s.spendWidth width k = k { s with gas := s.gas - scanCharge width } ∧ scanCharge width ≤ s.gas ∨
        s.spendWidth width k = s.ends .outOfGas ∧ s.gas < scanCharge width := by
    unfold State.spendWidth State.spend scanCharge
    by_cases hwide : 1 < width
    · simp only [if_pos hwide]
      by_cases hgas : s.gas < width
      · exact .inr ⟨if_pos hgas, hgas⟩
      · exact .inl ⟨if_neg hgas, not_lt.mp hgas⟩
    · simp only [if_neg hwide]
      exact .inl ⟨rfl, Nat.zero_le _⟩
  rw [hchildren]
  unfold scan Container.width
  split
  · next hkind =>
    rw [hkind]
    exact .inl ⟨rfl, Nat.zero_le _⟩
  · next elements hkind =>
    have hlength : (Container.array elements).slots.length = elements.length := List.length_map _
    rw [hkind, hlength]
    obtain ⟨h, hle⟩ | ⟨h, hlt⟩ := hwidth s elements.length fun s =>
      { s with stack := (elements.map Container.read).foldl (push g d) s.stack }
    · rw [h, foldl_push g d 0]
      exact .inl ⟨rfl, hle⟩
    · rw [h]
      exact .inr ⟨rfl, rfl, hlt⟩
  · next fields distinct hkind =>
    have hlength : (Container.object fields distinct).slots.length = fields.length := List.length_map _
    rw [hkind, hlength]
    dsimp only
    rw [foldl_push g d 0]
    obtain ⟨h, hle⟩ | ⟨h, hlt⟩ := hwidth
      { s with stack := ((g.childrenFrom 0 (fields.map Prod.snd)).reverse.map fun c => (c.1, d + 1)) ++ s.stack }
      fields.length id
    · rw [h]
      exact .inl ⟨rfl, hle⟩
    · rw [h]
      exact .inr ⟨rfl, rfl, hlt⟩

/-- Going on from a path, the stacks hold its continuations over the rest. -/
theorem Holds.further {s : State} {a : ℕ × ℕ} {p : List (ℕ × ℕ)} {qs : List ((ℕ × ℕ) × List (ℕ × ℕ))}
    (h : w.Holds s ((a, p) :: qs)) (hlt : p.length < w.limit) {s' : State} (houtcome : s'.outcome = none)
    (hstack : s'.stack = ((successors g a.1).map fun c => (c.1, p.length + 1 + 1)) ++
      qs.map fun q => (q.1.1, q.2.length + 1))
    (hpath : w.forJson = true → s'.path = Function.update s.path p.length (some a.1)) :
    w.Holds s' (further g a p ++ qs) := by
  obtain ⟨hfirst, hsorted⟩ := List.pairwise_cons.mp h.sorted
  have hcons (q) (hq : q ∈ Guard.further g a p) : q.2 = a :: p := by
    obtain ⟨c, -, rfl⟩ := List.mem_map.mp hq
    rfl
  constructor
  case outcome => exact houtcome
  case stack =>
    rw [hstack, List.map_append, Guard.further, List.map_map]
    rfl
  case length =>
    intro q hq
    obtain hq | hq := List.mem_append.mp hq
    · rw [hcons q hq]
      exact hlt
    · exact h.length q (List.mem_cons_of_mem _ hq)
  case above =>
    intro hjson q hq
    rw [hpath hjson]
    obtain hq | hq := List.mem_append.mp hq
    · rw [hcons q hq]
      exact map_update_succ (h.above hjson (a, p) List.mem_cons_self)
    · rw [map_update _ (hfirst q hq)]
      exact h.above hjson q (List.mem_cons_of_mem _ hq)
  case sorted =>
    refine List.pairwise_append.mpr ⟨List.pairwise_of_forall_mem_list fun q hq r hr => ?_, hsorted, fun q hq r hr => ?_⟩
    · rw [hcons q hq, hcons r hr]
    · rw [hcons q hq]
      exact (hfirst r hr).trans (Nat.le_succ _)

/-- What a round does with the first path of those ahead. -/
theorem step_of_holds {s : State} {a : ℕ × ℕ} {p : List (ℕ × ℕ)} {qs : List ((ℕ × ℕ) × List (ℕ × ℕ))}
    (h : w.Holds s ((a, p) :: qs)) :
    (w.step g s).visited = s.visited ++ [w.visit (a :: p)] ∧
    ((w.step g s).outcome = some .outOfGas ∧ s.gas < w.amount g (a :: p) ∨
      w.bad (a :: p) = true ∧ (w.step g s).outcome = some (w.fault (a :: p)) ∧
        (w.step g s).gas + w.amount g (a :: p) = s.gas ∨
      w.bad (a :: p) = false ∧ w.Holds (w.step g s) (further g a p ++ qs) ∧
        (w.step g s).gas + w.amount g (a :: p) = s.gas) := by
  have htop : s.stack = (a.1, p.length + 1) :: qs.map fun q => (q.1.1, q.2.length + 1) := h.stack
  have habove : (if w.forJson then (List.range p.length).map s.path else []) =
      if w.forJson then p.reverse.map fun b => some b.1 else [] := by
    split
    · next hjson => exact h.above hjson (a, p) List.mem_cons_self
    · rfl
  have hcheck : (w.forJson && onPath s.path a.1 (p.length + 1)) = (w.forJson && decide (Repeats (a :: p))) := by
    cases hjson : w.forJson with
    | false => rfl
    | true => rw [onPath_eq (h.above hjson (a, p) List.mem_cons_self)]
  have hvisit : (⟨a.1, p.length + 1, if w.forJson then (List.range (p.length + 1 - 1)).map s.path else []⟩ : Visit) =
      w.visit (a :: p) := by
    rw [Nat.add_sub_cancel, habove, visit]
  rw [step, h.outcome, htop]
  dsimp only
  rw [hvisit, State.spend]
  by_cases hgas : s.gas < 1
  · rw [if_pos hgas]
    refine ⟨rfl, .inl ⟨rfl, hgas.trans_le ?_⟩⟩
    rw [amount]
    split <;> omega
  rw [if_neg hgas, hcheck]
  have hle : s.gas - 1 + 1 = s.gas := by omega
  by_cases hrepeats : (w.forJson && decide (Repeats (a :: p))) = true
  · have hbad : w.bad (a :: p) = true := by rw [bad, hrepeats, Bool.true_or]
    rw [if_pos hrepeats, amount, if_pos hbad, fault, if_pos hrepeats]
    exact ⟨rfl, .inr (.inl ⟨hbad, rfl, hle⟩)⟩
  rw [if_neg hrepeats]
  by_cases hlong : w.limit < p.length + 1
  · have hbad : w.bad (a :: p) = true := by
      rw [bad, List.length_cons, decide_eq_true hlong, Bool.or_true]
    rw [if_pos hlong, amount, if_pos hbad, fault, if_neg hrepeats]
    refine ⟨?_, .inr (.inl ⟨hbad, rfl, ?_⟩)⟩
    · unfold record
      split <;> rfl
    · unfold record
      split <;> exact hle
  have hgood : w.bad (a :: p) = false := by
    rw [bad, Bool.eq_false_iff.mpr hrepeats, List.length_cons, decide_eq_false hlong]
    rfl
  rw [if_neg hlong, amount, hgood]
  -- the container is recorded before it is gone through
  obtain ⟨s₁, hs₁⟩ : ∃ s₁, w.record ⟨qs.map fun q => (q.1.1, q.2.length + 1), s.path, s.gas - 1, s.poison,
    s.visited ++ [w.visit (a :: p)], none⟩ a.1 (p.length + 1) = s₁ := ⟨_, rfl⟩
  have hrecord : s₁.stack = (qs.map fun q => (q.1.1, q.2.length + 1)) ∧ s₁.gas = s.gas - 1 ∧
      s₁.visited = s.visited ++ [w.visit (a :: p)] ∧ s₁.outcome = none ∧
      (w.forJson = true → s₁.path = Function.update s.path p.length (some a.1)) := by
    rw [← hs₁, record]
    split
    · exact ⟨rfl, rfl, rfl, rfl, fun _ => rfl⟩
    · next hplain => exact ⟨rfl, rfl, rfl, rfl, fun hjson => absurd hjson hplain⟩
  obtain ⟨hstack, hgas₁, hvisited, houtcome, hpath⟩ := hrecord
  rw [hs₁]
  obtain ⟨hscan, hpaid⟩ | ⟨hscan, hsame, hshort⟩ := scan_eq g s₁ a.1 (p.length + 1)
  · rw [hscan]
    refine ⟨hvisited, .inr (.inr ⟨rfl, h.further g w (by omega) houtcome ?_ hpath, ?_⟩)⟩
    · rw [← hstack]
    · show s₁.gas - _ + (1 + _) = s.gas
      omega
  · rw [hsame]
    refine ⟨hvisited, .inl ⟨hscan, ?_⟩⟩
    show s.gas < 1 + _
    omega

theorem iterate_of_done {s : State} {o : Outcome} (h : s.outcome = some o) (n : ℕ) : (w.step g)^[n] s = s :=
  Function.iterate_fixed (by rw [step, h]) n

/-- Run to its end, the guard meets the paths ahead up to the first bad one, or runs out of gas on them. -/
theorem iterate_of_holds {s : State} {qs : List ((ℕ × ℕ) × List (ℕ × ℕ))} {L : List (List (ℕ × ℕ))}
    (h : w.Holds s qs) (hahead : w.ahead g qs = L) {s' : State} (hs' : (w.step g)^[L.length + 1] s = s') :
    s'.outcome = some .outOfGas ∧ s.gas < w.cost g L ∧ s'.visited <+: s.visited ++ (upTo w.bad L).map w.visit ∨
      s'.outcome = some (w.verdict (L.find? w.bad)) ∧ s'.gas + w.cost g L = s.gas ∧
        s'.visited = s.visited ++ (upTo w.bad L).map w.visit := by
  induction L generalizing s qs with
  | nil =>
    obtain rfl : qs = [] := by
      cases qs with
      | nil => rfl
      | cons q qs =>
        rw [ahead, pending_cons fun _ => w.length_le_of_not_bad] at hahead
        cases hahead
    have hend : w.step g s = s.ends .passed := by
      rw [step, h.outcome, h.stack]
      rfl
    have hs : s' = s.ends .passed := hs'.symm.trans hend
    rw [hs]
    exact .inr ⟨rfl, rfl, (List.append_nil _).symm⟩
  | cons q L ih =>
    obtain _ | ⟨⟨a, p⟩, qs⟩ := qs
    · cases hahead
    rw [ahead, pending_cons fun _ => w.length_le_of_not_bad] at hahead
    obtain ⟨rfl, hrest⟩ := List.cons.inj hahead
    rw [List.length_cons, Function.iterate_succ_apply] at hs'
    obtain ⟨hvisited, ⟨hout, hgas⟩ | ⟨hbad, hout, hgas⟩ | ⟨hgood, hholds, hgas⟩⟩ := w.step_of_holds g h
    · rw [w.iterate_of_done g hout] at hs'
      rw [← hs', hvisited]
      refine .inl ⟨hout, hgas.trans_le ?_, ?_⟩
      · rw [cost, upTo]
        split
        · simp
        · rw [List.map_cons, List.sum_cons]
          exact Nat.le_add_right _ _
      · refine (List.prefix_append_right_inj _).mpr ?_
        rw [upTo]
        split
        · exact List.prefix_refl _
        · exact List.prefix_append _ _
    · rw [w.iterate_of_done g hout] at hs'
      rw [← hs', hvisited, cost, upTo, if_pos hbad, List.find?_cons_of_pos hbad]
      exact .inr ⟨hout, by simpa using hgas, rfl⟩
    · have hnotbad : ¬w.bad (a :: p) = true := Bool.eq_false_iff.mp hgood
      rw [if_neg hnotbad] at hrest
      have hahead' : w.ahead g (Guard.further g a p ++ qs) = L := by
        rw [← hrest]
        exact pending_append _ _
      rw [cost, upTo, if_neg hnotbad, List.find?_cons_of_neg hnotbad, List.map_cons, List.map_cons, List.sum_cons]
      obtain ⟨hout, hshort, hprefix⟩ | ⟨hout, hpaid, heq⟩ := ih hholds hahead' hs'
      · rw [hvisited, List.append_assoc] at hprefix
        refine .inl ⟨hout, ?_, hprefix⟩
        rw [cost] at hshort
        omega
      · rw [hvisited, List.append_assoc] at heq
        refine .inr ⟨hout, ?_, heq⟩
        rw [cost] at hpaid
        omega

end Guard

end XChainVM.Guards
