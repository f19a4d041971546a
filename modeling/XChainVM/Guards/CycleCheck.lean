import XChainVM.Guards.FrameWalk

/-! # The two cycle checks

The guard of `JSON.stringify` takes the last child first, the resolution the first. Which path ends a
walk depends on that order only where there are both a cycle and a path that is too long.
-/

namespace XChainVM.Guards

open Harness XChainVM.Tree Stringify Js

variable (g : ValueGraph)

def Cyclic (root : Val) : Prop := ∃ id, g.container? root = some id ∧ HasCycle g.children id

/-- Every path from the value that goes through no container twice is within the limit. -/
def SimplePathsFit (limit : ℕ) (root : Val) : Prop := ∀ id, g.container? root = some id → Fits g.children id limit

/-- The guard of `JSON.stringify` ends so. -/
def GuardEnds (limit gas : ℕ) (root : Val) (s : State) : Prop :=
  (∃ n, ((jsonGuard limit).step g)^[n] (Guard.start g true gas false root) = s) ∧ s.outcome.isSome

def FrameEnds (lang : Language) (limit gas : ℕ) (root : Val) (o : Stringify.Outcome) : Prop :=
  ∃ n, ((fun s => (frameWalk lang limit root).step s (plainReply s))^[n]
    ((frameWalk lang limit root).start g.heap gas false)).phase = .done o

variable {g}

theorem mem_successors (a : ℕ) (c : ℕ × ℕ) : c ∈ successors g a ↔ c ∈ g.children a := List.mem_reverse

theorem rootPath_successors {id : ℕ} {p : List (ℕ × ℕ)} : RootPath (successors g) id p ↔ RootPath g.children id p :=
  ⟨.congr fun a c => (mem_successors a c).mp, .congr fun a c => (mem_successors a c).mpr⟩

theorem fits_successors {id limit : ℕ} : Fits (successors g) id limit ↔ Fits g.children id limit :=
  forall_congr' fun _ => imp_congr_left rootPath_successors

theorem hasCycle_successors {id : ℕ} : HasCycle (successors g) id ↔ HasCycle g.children id := by
  rw [← exists_repeats_iff, ← exists_repeats_iff]
  exact exists_congr fun _ => and_congr_left fun _ => rootPath_successors

theorem visited_scan (s : State) (v d : ℕ) : (Guard.scan g s v d).visited = s.visited := by
  obtain ⟨hscan, -⟩ | ⟨-, hscan, -⟩ := Guard.scan_eq g s v d
  · rw [hscan]
  · exact hscan

theorem visited_step (w : Guard) (s : State) : s.visited <+: (w.step g s).visited := by
  have hrecord (s : State) (v d : ℕ) : (w.record s v d).visited = s.visited := by
    unfold Guard.record
    split <;> rfl
  unfold Guard.step
  split
  · exact List.prefix_refl _
  · split
    · exact List.prefix_refl _
    · next v d stack _ =>
      obtain ⟨above, habove⟩ : ∃ above, (if w.forJson then (List.range (d - 1)).map s.path else []) = above := ⟨_, rfl⟩
      dsimp only
      rw [habove]
      unfold State.spend
      split
      · exact List.prefix_append _ _
      · dsimp only
        split
        · exact List.prefix_append _ _
        · split
          · show s.visited <+: (w.record _ v d).visited
            rw [hrecord]
            exact List.prefix_append _ _
          · rw [visited_scan, hrecord]
            exact List.prefix_append _ _

theorem visited_iterate (w : Guard) (s : State) (m n : ℕ) :
    ((w.step g)^[n] s).visited <+: ((w.step g)^[n + m] s).visited := by
  induction m with
  | zero => exact List.prefix_refl _
  | succ m ih =>
    rw [← Nat.add_assoc, Function.iterate_succ_apply']
    exact ih.trans (visited_step w _)

theorem visited_start (w : Guard) (gas : ℕ) (root : Val) (n : ℕ) :
    ((w.step g)^[n] (Guard.start g true gas false root)).visited <+: w.visits g root := by
  have hrun : ((w.step g)^[(w.pathsFrom g root).length + 1] (Guard.start g true gas false root)).visited <+:
      w.visits g root := by
    obtain ⟨-, -, h⟩ | ⟨-, -, h⟩ := w.iterate_start g gas root rfl
    · exact h
    · rw [h]
  have hdone : ∃ o, ((w.step g)^[(w.pathsFrom g root).length + 1] (Guard.start g true gas false root)).outcome = some o := by
    obtain ⟨h, -⟩ | ⟨h, -⟩ := w.iterate_start g gas root rfl
    · exact ⟨_, h⟩
    · exact ⟨_, h⟩
  obtain hle | hle := Nat.le_total n ((w.pathsFrom g root).length + 1)
  · obtain ⟨m, hm⟩ := Nat.exists_eq_add_of_le hle
    exact (hm ▸ visited_iterate w _ m n).trans hrun
  · obtain ⟨m, rfl⟩ := Nat.exists_eq_add_of_le' hle
    obtain ⟨o, hdone⟩ := hdone
    rw [Function.iterate_add_apply, w.iterate_of_done g hdone]
    exact hrun

/-- Each container is compared with the ones above it on its path, and with nothing else. -/
theorem above_visited (limit gas : ℕ) (root : Val) (n : ℕ) {v : Visit}
    (hv : v ∈ (((jsonGuard limit).step g)^[n] (Guard.start g true gas false root)).visited) :
    ∃ id a p, g.container? root = some id ∧ RootPath g.children id (a :: p) ∧
      v = ⟨a.1, p.length + 1, p.reverse.map fun b => some b.1⟩ := by
  obtain ⟨q, hq, rfl⟩ := List.mem_map.mp ((visited_start _ gas root n).subset hv)
  have hmem := (upTo_leads _ _).subset hq
  unfold Guard.pathsFrom at hmem
  cases hroot : g.container? root with
  | none =>
    rw [hroot] at hmem
    cases hmem
  | some id =>
    rw [hroot] at hmem
    have hlong (q : List (ℕ × ℕ)) (hq : 1 + limit ≤ q.length) : (jsonGuard limit).bad q = true :=
      long_of_limit jsonGuard_bad_iff q ((Nat.add_comm _ _).trans_le hq)
    have hpath := ((mem_walked_iff .root hlong).mp hmem).1
    cases q with
    | nil => exact absurd rfl hpath.ne_nil
    | cons a p => exact ⟨id, a, p, rfl, rootPath_successors.mp hpath, rfl⟩

variable (g)

def Passes : Stringify.Outcome → Prop
  | .undefined | .handed _ => True
  | _ => False

/-- Where no root path comes back to itself or is too long, both checks let the value pass; where one does,
both end at a first one. -/
structure Verdicts (limit : ℕ) (root : Val) (s : State) (o : Stringify.Outcome) : Prop where
  passes : s.outcome = some .passed ↔ Passes o
  notOutOfGas : s.outcome ≠ some .outOfGas ∧ o ≠ .outOfGas
  /-- What is reported is above itself. -/
  reported : s.outcome = some .cyclic → ∃ v, s.visited.getLast? = some v ∧ some v.container ∈ v.above
  cyclic : SimplePathsFit g limit root →
    (s.outcome = some .cyclic ↔ Cyclic g root) ∧ (o = .cyclic ↔ Cyclic g root)

variable {g}

theorem getLast_upTo {β : Type*} {bad : β → Bool} {l : List β} {b : β} (h : l.find? bad = some b) :
    (upTo bad l).getLast? = some b := by
  induction l with
  | nil => cases h
  | cons c rest ih =>
    rw [upTo]
    by_cases hbad : bad c = true
    · rw [List.find?_cons_of_pos hbad] at h
      rw [if_pos hbad, Option.some.inj h]
      rfl
    · rw [List.find?_cons_of_neg hbad] at h
      rw [if_neg hbad, List.getLast?_cons, ih h]
      rfl

/-- The guard ends at the first bad path. -/
theorem guardEnds_of_gas (limit gas : ℕ) (root : Val)
    (hgas : (jsonGuard limit).cost g ((jsonGuard limit).pathsFrom g root) ≤ gas) :
    ∃ s, GuardEnds g limit gas root s ∧
      s.outcome = some ((jsonGuard limit).verdict (((jsonGuard limit).pathsFrom g root).find? (jsonGuard limit).bad)) ∧
      s.visited = (jsonGuard limit).visits g root := by
  obtain ⟨-, hlt, -⟩ | ⟨hout, -, hvisited⟩ := (jsonGuard limit).iterate_start g gas root rfl
  · exact absurd hgas (not_le.mpr hlt)
  · exact ⟨_, ⟨⟨_, rfl⟩, by rw [hout]; rfl⟩, hout, hvisited⟩

theorem verdict_cases (limit : ℕ) (first : Option (List (ℕ × ℕ))) :
    first = none ∧ (jsonGuard limit).verdict first = .passed ∨
      ∃ p, first = some p ∧ (Repeats p ∧ (jsonGuard limit).verdict first = .cyclic ∨
        ¬Repeats p ∧ (jsonGuard limit).verdict first = .outOfStack) := by
  cases first with
  | none => exact .inl ⟨rfl, rfl⟩
  | some p =>
    refine .inr ⟨p, rfl, ?_⟩
    by_cases h : Repeats p
    · exact .inl ⟨h, if_pos (decide_eq_true h)⟩
    · exact .inr ⟨h, if_neg (by simpa [jsonGuard] using h)⟩

theorem passes_of_ended {first : Option (List (ℕ × ℕ))} {o : Stringify.Outcome} (h : Ended first o) :
    (first = none ↔ Passes o) ∧ o ≠ .outOfGas := by
  cases first with
  | none => obtain rfl | ⟨c, rfl⟩ := h <;> exact ⟨⟨fun _ => trivial, fun _ => rfl⟩, nofun⟩
  | some p => obtain ⟨-, rfl⟩ | ⟨-, rfl⟩ := h <;> exact ⟨⟨nofun, False.elim⟩, nofun⟩

/-- The last container that is met where the guard reports a cycle is above itself. -/
theorem reported_of_find {limit : ℕ} {root : Val} {p : List (ℕ × ℕ)} (hrepeats : Repeats p)
    (hfind : ((jsonGuard limit).pathsFrom g root).find? (jsonGuard limit).bad = some p) :
    ∃ v, ((jsonGuard limit).visits g root).getLast? = some v ∧ some v.container ∈ v.above := by
  refine ⟨(jsonGuard limit).visit p, ?_, ?_⟩
  · rw [Guard.visits, List.getLast?_map, getLast_upTo hfind]
    rfl
  · cases p with
    | nil => exact hrepeats.elim
    | cons a p =>
      obtain ⟨b, hb, heq⟩ := List.mem_map.mp hrepeats
      exact List.mem_map.mpr ⟨b, List.mem_reverse.mpr hb, congrArg some heq⟩

def Tells (g : ValueGraph) (root : Val) (first : Option (List (ℕ × ℕ))) : Prop :=
  first = none ∧ ¬Cyclic g root ∨ ∃ p, first = some p ∧ Repeats p ∧ Cyclic g root

theorem cyclic_iff_of_tells {root : Val} {first : Option (List (ℕ × ℕ))} (h : Tells g root first) {limit : ℕ} :
    (jsonGuard limit).verdict first = .cyclic ↔ Cyclic g root := by
  obtain ⟨rfl, hacyclic⟩ | ⟨p, rfl, hrepeats, hcyclic⟩ := h
  · exact ⟨nofun, fun h => absurd h hacyclic⟩
  · exact ⟨fun _ => hcyclic, fun _ => if_pos (decide_eq_true hrepeats)⟩

theorem ended_cyclic_iff_of_tells {root : Val} {first : Option (List (ℕ × ℕ))} (h : Tells g root first)
    {o : Stringify.Outcome} (hended : Ended first o) : o = .cyclic ↔ Cyclic g root := by
  obtain ⟨rfl, hacyclic⟩ | ⟨p, rfl, hrepeats, hcyclic⟩ := h
  · obtain rfl | ⟨c, rfl⟩ := hended
    · exact ⟨nofun, fun h => absurd h hacyclic⟩
    · exact ⟨nofun, fun h => absurd h hacyclic⟩
  · obtain ⟨-, rfl⟩ | ⟨hnot, -⟩ := hended
    · exact ⟨fun _ => hcyclic, fun _ => rfl⟩
    · exact absurd hrepeats hnot

/-- The two walks, in their two orders, meet no bad path both or neither. -/
theorem find_orders (g : ValueGraph) (limit : ℕ) (root : Val) :
    (((jsonGuard limit).pathsFrom g root).find? (jsonGuard limit).bad = none ↔
      (toMeet g limit (inSlot g 0 root [])).find? (jsonGuard limit).bad = none) ∧
    (SimplePathsFit g limit root → Tells g root (((jsonGuard limit).pathsFrom g root).find? (jsonGuard limit).bad) ∧
      Tells g root ((toMeet g limit (inSlot g 0 root [])).find? (jsonGuard limit).bad)) := by
  unfold Guard.pathsFrom inSlot
  cases hroot : g.container? root with
  | none =>
    have hacyclic : ¬Cyclic g root := by
      rintro ⟨id, hid, -⟩
      cases hroot.symm.trans hid
    exact ⟨Iff.rfl, fun _ => ⟨.inl ⟨rfl, hacyclic⟩, .inl ⟨rfl, hacyclic⟩⟩⟩
  | some id =>
    have hmeet : toMeet g limit [((id, 0), [])] = walked g.children (jsonGuard limit).bad limit (id, 0) [] :=
      List.append_nil _
    have hcyclic : Cyclic g root ↔ HasCycle g.children id := by
      constructor
      · rintro ⟨id', hid', h⟩
        obtain rfl := Option.some.inj (hroot.symm.trans hid')
        exact h
      · exact fun h => ⟨id, hroot, h⟩
    dsimp only
    rw [hmeet]
    constructor
    · refine (find_walked_eq_none_iff jsonGuard_bad_iff).trans (Iff.trans ?_ (find_walked_eq_none_iff jsonGuard_bad_iff).symm)
      exact forall_congr' fun _ => imp_congr_left rootPath_successors
    · intro hfits
      have hfits := hfits id hroot
      unfold Tells
      rw [hcyclic]
      refine ⟨?_, find_walked jsonGuard_bad_iff hfits⟩
      rw [← hasCycle_successors]
      exact find_walked jsonGuard_bad_iff (fits_successors.mpr hfits)

/-- For every graph of plain values, with enough gas, the guard and the resolution let the same values pass,
and where the simple paths fit the limit both throw the cycle error exactly if there is a cycle. What the
guard compares a container with are its ancestors, with or without the gas. -/
theorem cycle_checks (g : ValueGraph) (lang : Language) (limit : ℕ) (root : Val) :
    (∀ gas n v, v ∈ (((jsonGuard limit).step g)^[n] (Guard.start g true gas false root)).visited →
      ∃ id a p, g.container? root = some id ∧ RootPath g.children id (a :: p) ∧
        v = ⟨a.1, p.length + 1, p.reverse.map fun b => some b.1⟩) ∧
    ∃ need, ∀ gas, need ≤ gas → ∃ s o, GuardEnds g limit gas root s ∧ FrameEnds g lang limit gas root o ∧
      Verdicts g limit root s o := by
  refine ⟨fun gas n v => above_visited limit gas root n,
    max ((jsonGuard limit).cost g ((jsonGuard limit).pathsFrom g root)) (enough g (toMeet g limit (inSlot g 0 root []))),
    fun gas hgas => ?_⟩
  obtain ⟨s, hends, hout, hvisited⟩ := guardEnds_of_gas limit gas root ((le_max_left _ _).trans hgas)
  obtain ⟨n, o, hphase, hended⟩ := exists_ended lang gas root ((le_max_right _ _).trans hgas)
  obtain ⟨hnone, htells⟩ := find_orders g limit root
  refine ⟨s, o, hends, ⟨n, hphase⟩, ?_⟩
  obtain ⟨hpasses, hpaid⟩ := passes_of_ended hended
  have hverdict := verdict_cases limit (((jsonGuard limit).pathsFrom g root).find? (jsonGuard limit).bad)
  constructor
  case passes =>
    rw [hout, Option.some.injEq, ← hpasses, ← hnone]
    obtain ⟨hfirst, hverdict⟩ | ⟨p, hfirst, ⟨-, hverdict⟩ | ⟨-, hverdict⟩⟩ := hverdict
    · exact ⟨fun _ => hfirst, fun _ => hverdict⟩
    · rw [hverdict, hfirst]
      exact ⟨nofun, nofun⟩
    · rw [hverdict, hfirst]
      exact ⟨nofun, nofun⟩
  case notOutOfGas =>
    refine ⟨?_, hpaid⟩
    rw [hout, ne_eq, Option.some.injEq]
    obtain ⟨-, hverdict⟩ | ⟨p, -, ⟨-, hverdict⟩ | ⟨-, hverdict⟩⟩ := hverdict
    · rw [hverdict]
      exact nofun
    · rw [hverdict]
      exact nofun
    · rw [hverdict]
      exact nofun
  case reported =>
    intro hcyclic
    rw [hout, Option.some.injEq] at hcyclic
    rw [hvisited]
    obtain ⟨-, hverdict⟩ | ⟨p, hfirst, ⟨hrepeats, -⟩ | ⟨-, hverdict⟩⟩ := hverdict
    · cases hcyclic.symm.trans hverdict
    · exact reported_of_find hrepeats hfirst
    · cases hcyclic.symm.trans hverdict
  case cyclic =>
    intro hfits
    rw [hout, Option.some.injEq]
    exact ⟨cyclic_iff_of_tells (htells hfits).1, ended_cyclic_iff_of_tells (htells hfits).2 hended⟩

/-- `{ first: root, second: {} }` -/
def cycleBeforeDepth : ValueGraph
  | 0 => .object [("first", .object 0), ("second", .object 1)] (by decide)
  | _ => .object [] List.nodup_nil

/-- With a limit of one container, the guard meets the second property first, which is too deep, and the
resolution meets the cycle first. -/
theorem cycle_checks_order :
    ¬∀ (g : ValueGraph) (lang : Language) (limit gas : ℕ) (root : Val) (s : State) (o : Stringify.Outcome),
      GuardEnds g limit gas root s → FrameEnds g lang limit gas root o →
      s.outcome ≠ some .outOfGas → o ≠ .outOfGas → (s.outcome = some .cyclic ↔ o = .cyclic) := by
  intro hclaim
  have hguard : GuardEnds cycleBeforeDepth 1 10 (.object 0)
      (((jsonGuard 1).step cycleBeforeDepth)^[2] (Guard.start cycleBeforeDepth true 10 false (.object 0))) :=
    ⟨⟨2, rfl⟩, rfl⟩
  have hframes : FrameEnds cycleBeforeDepth ⟨fun _ => "", fun _ => none, fun _ => none⟩ 1 10 (.object 0) .cyclic :=
    ⟨3, rfl⟩
  cases (hclaim _ _ _ _ _ _ _ hguard hframes nofun nofun).mpr rfl

end XChainVM.Guards
