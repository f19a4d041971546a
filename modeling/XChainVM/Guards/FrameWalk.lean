import XChainVM.Guards.PlainHeap
import XChainVM.Guards.RootWalk
import XChainVM.Stringify.Faults

/-! # The frames of a resolution and the paths of a graph

On a graph of plain values the resolution before `JSON.stringify` runs no code of the contract. Its open
frames are the containers of one root path, and the keys they have still to go through lead to the
paths still to be met, the first child first.
-/

namespace XChainVM.Guards

open Harness XChainVM.Tree Stringify Js

/-- Nothing but a hole is asked for, which is `undefined`. -/
def plainReply (s : Stringify.State) : Reply := ⟨s.heap, 0, false, false, s.pool, .undefined, fun _ => .undefined⟩

def frameWalk (lang : Language) (limit : ℕ) (root : Val) : Walk := ⟨lang, limit, 0, true, root, .undefined⟩

/-- The guard of `JSON.stringify`. -/
def jsonGuard (limit : ℕ) : Guard := ⟨limit, true⟩

variable (g : ValueGraph) (limit : ℕ)

/-- The frames are open at the containers of this path, and go on from these. -/
inductive Opened : List Frame → List (ℕ × ℕ) → List ((ℕ × ℕ) × List (ℕ × ℕ)) → Prop
  | nil : Opened [] [] []
  | cons {f : Frame} {fs : List Frame} {a : ℕ × ℕ} {p : List (ℕ × ℕ)} {qs : List ((ℕ × ℕ) × List (ℕ × ℕ))} {slot : ℕ} :
      Opened fs p qs → f.src = a.1 → f.todo = (g a.1).names.drop slot →
      Opened (f :: fs) (a :: p) ((g.childrenFrom slot ((g a.1).slots.drop slot)).map (fun c => (c, a :: p)) ++ qs)

def inSlot (slot : ℕ) (v : Val) (p : List (ℕ × ℕ)) : List ((ℕ × ℕ) × List (ℕ × ℕ)) :=
  match g.container? v with
  | none => []
  | some id => [((id, slot), p)]

def toMeet (qs : List ((ℕ × ℕ) × List (ℕ × ℕ))) : List (List (ℕ × ℕ)) :=
  pending g.children (jsonGuard limit).bad limit qs

/-- Gas that is enough for paths: each container is paid, and copied at the most. -/
def enough (ps : List (List (ℕ × ℕ))) : ℕ := (ps.map fun p => 1 + RSF_COPY_GAS + scanCharge (shape g p).2).sum

def kept (fs : List Frame) : ℕ := RSF_COPY_GAS * fs.countP fun f => f.out.isNone

/-- The outcome of a resolution that met this as the first bad path, or none. -/
def Ended : Option (List (ℕ × ℕ)) → Stringify.Outcome → Prop
  | none, o => o = .undefined ∨ ∃ c, o = .handed c
  | some p, o => Repeats p ∧ o = .cyclic ∨ ¬Repeats p ∧ o = .outOfStack

/-- No hook was found, and the gas is enough. -/
structure Going (first : Option (List (ℕ × ℕ))) (s : Stringify.State) (qs : List ((ℕ × ℕ) × List (ℕ × ℕ))) : Prop where
  heap : s.heap = g.heap
  repFn : s.repFn = false
  propList : s.propList = none
  poison : s.poison = false
  first : (toMeet g limit qs).find? (jsonGuard limit).bad = first
  gas : enough g (toMeet g limit qs) + kept s.pool.frames ≤ s.gas

inductive OnGraph (first : Option (List (ℕ × ℕ))) (s : Stringify.State) : Prop
  | next {p : List (ℕ × ℕ)} {qs : List ((ℕ × ℕ) × List (ℕ × ℕ))} : s.phase = .next → s.pool.frames ≠ [] →
      Opened g s.pool.frames p qs → Going g limit first s qs → OnGraph first s
  | hole {key : String} {p : List (ℕ × ℕ)} {qs : List ((ℕ × ℕ) × List (ℕ × ℕ))} : s.phase = .fetch key →
      s.pool.frames ≠ [] → Opened g s.pool.frames p qs → Going g limit first s qs → OnGraph first s
  | slot {key : String} {v : Val} {slot : ℕ} {p : List (ℕ × ℕ)} {qs : List ((ℕ × ℕ) × List (ℕ × ℕ))} :
      s.phase = .settle key v false → Opened g s.pool.frames p qs → Going g limit first s (inSlot g slot v p ++ qs) →
      OnGraph first s
  | done {o : Stringify.Outcome} : s.phase = .done o → Ended first o → OnGraph first s

variable {g} {limit}

theorem OnGraph.firstSlot {first : Option (List (ℕ × ℕ))} {s : Stringify.State} {key : String} {v : Val}
    {p : List (ℕ × ℕ)} {qs : List ((ℕ × ℕ) × List (ℕ × ℕ))} (hphase : s.phase = .settle key v false)
    (hopened : Opened g s.pool.frames p qs) (hgoing : Going g limit first s (inSlot g 0 v p ++ qs)) :
    OnGraph g limit first s :=
  .slot hphase hopened hgoing

theorem jsonGuard_bad_iff (p : List (ℕ × ℕ)) : (jsonGuard limit).bad p = true ↔ Repeats p ∨ limit < p.length := by
  rw [Guard.bad, Bool.or_eq_true, decide_eq_true_iff]
  exact or_congr decide_eq_true_iff Iff.rfl

namespace Opened

theorem length_eq {fs : List Frame} {p : List (ℕ × ℕ)} {qs : List ((ℕ × ℕ) × List (ℕ × ℕ))} (h : Opened g fs p qs) :
    fs.length = p.length := by
  induction h with
  | nil => rfl
  | cons _ _ _ ih => rw [List.length_cons, List.length_cons, ih]

theorem sources {fs : List Frame} {p : List (ℕ × ℕ)} {qs : List ((ℕ × ℕ) × List (ℕ × ℕ))} (h : Opened g fs p qs) :
    fs.map Frame.src = p.map Prod.fst := by
  induction h with
  | nil => rfl
  | cons _ hsrc _ ih => rw [List.map_cons, List.map_cons, ih, hsrc]

/-- What the frames stand for depends on their containers and keys only. -/
theorem setTop {f f' : Frame} {fs : List Frame} {p : List (ℕ × ℕ)} {qs : List ((ℕ × ℕ) × List (ℕ × ℕ))}
    (h : Opened g (f :: fs) p qs) (hsrc : f'.src = f.src) (htodo : f'.todo = f.todo) : Opened g (f' :: fs) p qs := by
  cases h with
  | cons hrest hsrc₀ htodo₀ => exact .cons hrest (hsrc.trans hsrc₀) (htodo.trans htodo₀)

end Opened

/-- The state but for its gas, its frames and its phase. -/
structure Same (s s' : Stringify.State) : Prop where
  heap : s'.heap = s.heap
  repFn : s'.repFn = s.repFn
  propList : s'.propList = s.propList
  poison : s'.poison = s.poison

variable {first : Option (List (ℕ × ℕ))} {s s' : Stringify.State} {r : Reply}

theorem spend_plain {n : ℕ} {k : Stringify.State → Stringify.State} (hpoison : s.poison = false) (hgas : n ≤ s.gas) :
    s.spend n k = k { s with gas := s.gas - n, owed := s.owed + n } := by
  rw [Stringify.State.spend, hpoison, if_neg Bool.false_ne_true, if_neg (not_lt.mpr hgas)]

theorem kept_cons (f : Frame) (fs : List Frame) : kept (f :: fs) = kept [f] + kept fs := by
  rw [kept, kept, kept, ← List.singleton_append, List.countP_append, Nat.mul_add]

theorem kept_of_isSome {f : Frame} (h : f.out.isSome = true) : kept [f] = 0 := by
  have hnone : f.out.isNone = false := by
    cases hout : f.out with
    | none => rw [hout] at h; cases h
    | some _ => rfl
  rw [kept, List.countP_cons_of_neg (by rw [hnone]; exact Bool.false_ne_true)]
  rfl

theorem kept_of_none {f : Frame} (h : f.out = none) : kept [f] = RSF_COPY_GAS := by
  rw [kept, List.countP_cons_of_pos (by rw [h]; rfl)]
  rfl

/-- A frame becomes a copy out of the gas that is kept for it. -/
theorem materialize_plain {f : Frame} {k : Stringify.State → Frame → Stringify.State} {P : Stringify.State → Prop}
    (hpoison : s.poison = false) (hgas : kept [f] ≤ s.gas) (hheap : r.heap = s.heap) (hpool : r.pool = s.pool)
    (hspent : r.spent = 0) (hthrew : r.threw = false) (hpoisons : r.poisons = false)
    (hk : ∀ s' f', Same s s' → s'.pool = s.pool → s'.gas + kept [f] = s.gas → f'.src = f.src → f'.todo = f.todo →
      f'.out.isSome = true → P (k s' f')) : P (s.materialize r f k) := by
  unfold Stringify.State.materialize
  cases hout : f.out with
  | some out =>
    have hsome : f.out.isSome = true := by rw [hout]; rfl
    rw [if_pos (by rfl)]
    exact hk s f ⟨rfl, rfl, rfl, rfl⟩ rfl (by rw [kept_of_isSome hsome]; rfl) rfl rfl hsome
  | none =>
    rw [kept_of_none hout] at hgas hk
    rw [if_neg (by simp), spend_plain hpoison hgas]
    split
    · exact hk _ _ ⟨rfl, rfl, rfl, rfl⟩ rfl (Nat.sub_add_cancel hgas) rfl rfl rfl
    · unfold Stringify.State.asks
      rw [if_neg (by rw [hspent]; exact Nat.not_lt_zero _), if_neg (by rw [hthrew]; exact Bool.false_ne_true)]
      refine hk _ _ ⟨hheap, rfl, rfl, ?_⟩ hpool ?_ rfl rfl rfl
      · show (s.poison || r.poisons) = s.poison
        rw [hpoisons, Bool.or_false]
      · show s.gas - RSF_COPY_GAS - r.spent + RSF_COPY_GAS = s.gas
        rw [hspent]
        exact Nat.sub_add_cancel hgas

/-- A slot that is read is settled next: there is no hook to run. -/
theorem resolve_plain (hheap : s.heap = g.heap) (hrepFn : s.repFn = false) (key : String) (v : Val) :
    Walk.resolve s key v = { s with phase := .settle key v false } := by
  have htoJSON : s.heap.hasToJSON v = false := by rw [hheap, g.hasToJSON_heap]
  have hplain : ¬s.repFn = true := Bool.eq_false_iff.mp hrepFn
  rw [Walk.resolve, htoJSON, if_neg Bool.false_ne_true, Walk.callReplacer, if_neg hplain]

theorem toMeet_cons (a : ℕ × ℕ) (p : List (ℕ × ℕ)) (qs : List ((ℕ × ℕ) × List (ℕ × ℕ))) :
    toMeet g limit ((a, p) :: qs) = (a :: p) :: ((if (jsonGuard limit).bad (a :: p) then [] else
      toMeet g limit ((g.children a.1).map fun c => (c, a :: p))) ++ toMeet g limit qs) :=
  pending_cons (fun _ => (jsonGuard limit).length_le_of_not_bad) a p qs

theorem enough_cons (p : List (ℕ × ℕ)) (ps : List (List (ℕ × ℕ))) :
    enough g (p :: ps) = 1 + RSF_COPY_GAS + scanCharge (shape g p).2 + enough g ps := by
  rw [enough, List.map_cons, List.sum_cons]
  rfl

theorem any_src {fs : List Frame} {p : List (ℕ × ℕ)} {qs : List ((ℕ × ℕ) × List (ℕ × ℕ))} (h : Opened g fs p qs)
    (id slot : ℕ) : (fs.any fun f => f.src = id) = decide (Repeats ((id, slot) :: p)) := by
  have hany : (fs.any fun f => f.src = id) = (fs.map Frame.src).any fun src => src = id := by
    rw [List.any_map]
    rfl
  rw [hany, h.sources, Bool.eq_iff_iff, decide_eq_true_iff, List.any_eq_true]
  constructor
  · rintro ⟨src, hsrc, heq⟩
    exact of_decide_eq_true heq ▸ hsrc
  · exact fun hmem => ⟨id, hmem, decide_eq_true rfl⟩

/-- A container is gone into, or ends the walk. -/
theorem onGraph_pushFrame (w : Walk) (hcycles : w.detectCycles = true) (hlimit : w.depthLimit = limit) {id slot : ℕ}
    {p : List (ℕ × ℕ)} {qs : List ((ℕ × ℕ) × List (ℕ × ℕ))} (isArr : Bool) (key : String)
    (hopened : Opened g s.pool.frames p qs) (hgoing : Going g limit first s (((id, slot), p) :: qs)) :
    OnGraph g limit first (w.pushFrame s r id isArr false key) := by
  have hgas := hgoing.gas
  have hfirst := hgoing.first
  rw [toMeet_cons, enough_cons] at hgas
  rw [toMeet_cons] at hfirst
  unfold Walk.pushFrame
  rw [spend_plain hgoing.poison (by omega)]
  dsimp only
  rw [hcycles, Bool.true_and, any_src hopened id slot]
  by_cases hrepeats : Repeats ((id, slot) :: p)
  · rw [if_pos (decide_eq_true hrepeats)]
    rw [List.find?_cons_of_pos ((jsonGuard_bad_iff _).mpr (.inl hrepeats))] at hfirst
    exact .done rfl (hfirst ▸ .inl ⟨hrepeats, rfl⟩)
  rw [if_neg (by simpa using hrepeats), hlimit, hopened.length_eq]
  by_cases hlong : limit < p.length + 1
  · rw [if_pos hlong]
    rw [List.find?_cons_of_pos ((jsonGuard_bad_iff _).mpr (.inr hlong))] at hfirst
    exact .done rfl (hfirst ▸ .inr ⟨hrepeats, rfl⟩)
  rw [if_neg hlong]
  have hgood : ¬(jsonGuard limit).bad ((id, slot) :: p) = true := by
    rw [jsonGuard_bad_iff, not_or]
    exact ⟨hrepeats, hlong⟩
  rw [List.find?_cons_of_neg hgood, if_neg hgood] at hfirst
  rw [if_neg hgood] at hgas
  have hnames : s.heap.names s.propList id = (g id).names := by rw [hgoing.propList, hgoing.heap, g.names_heap]
  have hlength : (g id).names.length = (g id).width := by
    rw [← List.length_map (g.slot id), g.names_map_slot]
    rfl
  have hshape : scanCharge (shape g ((id, slot) :: p)).2 = scanCharge (g id).width := rfl
  have hstack {fs : List Frame} {qs : List ((ℕ × ℕ) × List (ℕ × ℕ))} (h : Opened g fs p qs) :
      Opened g (⟨id, isArr, [], (g id).names, none, key⟩ :: fs) ((id, slot) :: p)
        ((g.childrenFrom 0 ((g id).slots.drop 0)).map (fun c => (c, (id, slot) :: p)) ++ qs) :=
    .cons h rfl rfl
  -- the frame that is opened goes through all of its names
  have hopen (s' : Stringify.State) (hs' : Same s s') (hpool : s'.pool = s.pool)
      (hpaid : s'.gas + 1 + scanCharge (g id).width = s.gas) : OnGraph g limit first
        { s' with pool := { s'.pool with frames := ⟨id, isArr, [], (g id).names, none, key⟩ :: s'.pool.frames },
                  phase := .next } := by
    refine .next rfl (List.cons_ne_nil _ _) (hstack (hpool ▸ hopened)) ?_
    refine ⟨hs'.heap.trans hgoing.heap, hs'.repFn.trans hgoing.repFn, hs'.propList.trans hgoing.propList,
      hs'.poison.trans hgoing.poison, ?_, ?_⟩
    · rw [toMeet, pending_append]
      exact hfirst
    · rw [toMeet, pending_append, kept_cons, kept_of_none rfl, hpool]
      show enough g (toMeet g limit ((g.children id).map fun c => (c, (id, slot) :: p)) ++ toMeet g limit qs) +
        (RSF_COPY_GAS + kept s.pool.frames) ≤ s'.gas
      rw [hshape] at hgas
      dsimp only at hgas
      omega
  unfold Stringify.State.spendScan
  rw [hnames, hlength]
  have hcharge : scanCharge (g id).width = if 1 < (g id).width then (g id).width else 0 := rfl
  split
  · next hwide =>
    rw [if_pos hwide] at hcharge
    rw [spend_plain]
    · exact hopen _ ⟨rfl, rfl, rfl, rfl⟩ rfl (by dsimp only; omega)
    · exact hgoing.poison
    · show (g id).width ≤ s.gas - 1
      omega
  · next hnarrow =>
    rw [if_neg hnarrow] at hcharge
    exact hopen _ ⟨rfl, rfl, rfl, rfl⟩ rfl (by dsimp only; omega)

theorem Going.move {qs qs' : List ((ℕ × ℕ) × List (ℕ × ℕ))} (h : Going g limit first s qs) (hsame : Same s s')
    (hqs : toMeet g limit qs' = toMeet g limit qs)
    (hgas : s.gas + kept s'.pool.frames ≤ s'.gas + kept s.pool.frames) : Going g limit first s' qs' := by
  have hpaid := h.gas
  refine ⟨hsame.heap.trans h.heap, hsame.repFn.trans h.repFn, hsame.propList.trans h.propList,
    hsame.poison.trans h.poison, hqs ▸ h.first, ?_⟩
  rw [hqs]
  omega

theorem Going.first_of_nil (h : Going g limit first s []) : first = none := h.first.symm

theorem isSome_commit (f : Frame) (key : String) (slot : Option (String × Copy)) :
    (f.commit key slot).out.isSome = f.out.isSome := by
  rw [Frame.commit, Option.isSome_map]

theorem kept_congr {f f' : Frame} (h : f'.out.isSome = f.out.isSome) (fs : List Frame) : kept (f' :: fs) = kept (f :: fs) := by
  have hnone : f'.out.isNone = f.out.isNone := by rw [← Option.not_isSome, h, Option.not_isSome]
  rw [kept, kept, List.countP_cons, List.countP_cons, hnone]

/-- What a slot holds is left out, taken over or gone into. -/
theorem onGraph_settle (w : Walk) (hcycles : w.detectCycles = true) (hlimit : w.depthLimit = limit) {key : String}
    {v : Val} {slot : ℕ} {p : List (ℕ × ℕ)} {qs : List ((ℕ × ℕ) × List (ℕ × ℕ))}
    (hopened : Opened g s.pool.frames p qs) (hgoing : Going g limit first s (inSlot g slot v p ++ qs)) :
    OnGraph g limit first (w.settle s r key v false) := by
  have hdirty : (s.repFn || false && s.heap.hasToJSON v) = false := by rw [hgoing.repFn, Bool.false_and, Bool.or_false]
  unfold Walk.settle
  cases hframes : s.pool.frames with
  | nil =>
    dsimp only
    rw [hgoing.heap]
    obtain ⟨id, isArr, hcontainer, -, hclassify⟩ | ⟨hcontainer, hclassify⟩ := g.classify_heap v
    · rw [hclassify]
      dsimp only
      rw [← hgoing.heap, hdirty]
      rw [inSlot, hcontainer] at hgoing
      exact onGraph_pushFrame w hcycles hlimit isArr key hopened hgoing
    · rw [inSlot, hcontainer] at hgoing
      rw [hframes] at hopened
      cases hopened
      have hfirst := hgoing.first_of_nil
      obtain hclassify | ⟨q, hclassify⟩ := hclassify
      · rw [hclassify]
        exact .done rfl (hfirst ▸ .inl rfl)
      · rw [hclassify]
        exact .done rfl (hfirst ▸ .inr ⟨_, rfl⟩)
  | cons f fs =>
    have htop : s.setTop f = s := by
      unfold Stringify.State.setTop
      rw [hframes]
      show { s with pool := { s.pool with frames := f :: fs } } = s
      rw [← hframes]
    have hstay (slot' : Option (String × Copy)) (hnone : g.container? v = none) :
        OnGraph g limit first { s.setTop (f.commit key slot') with phase := .next } := by
      rw [inSlot, hnone] at hgoing
      have htail : (s.setTop (f.commit key slot')).pool.frames = f.commit key slot' :: fs := by
        unfold Stringify.State.setTop
        rw [hframes]
        rfl
      rw [hframes] at hopened
      refine .next rfl ?_ (?_ : Opened g (s.setTop (f.commit key slot')).pool.frames p qs) (hgoing.move ⟨rfl, rfl, rfl, rfl⟩ rfl ?_)
      · show (s.setTop (f.commit key slot')).pool.frames ≠ []
        rw [htail]
        exact List.cons_ne_nil _ _
      · rw [htail]
        exact hopened.setTop rfl rfl
      · show s.gas + kept (s.setTop (f.commit key slot')).pool.frames ≤ s.gas + kept s.pool.frames
        rw [htail, hframes, kept_congr (isSome_commit f key slot')]
    dsimp only
    rw [Stringify.State.materializeIf, if_neg Bool.false_ne_true, hgoing.heap]
    obtain ⟨id, isArr, hcontainer, -, hclassify⟩ | ⟨hcontainer, hclassify⟩ := g.classify_heap v
    · rw [hclassify]
      dsimp only
      rw [← hgoing.heap, hdirty, htop]
      rw [inSlot, hcontainer] at hgoing
      exact onGraph_pushFrame w hcycles hlimit isArr key hopened hgoing
    · obtain hclassify | ⟨q, hclassify⟩ := hclassify
      · rw [hclassify]
        exact hstay _ hcontainer
      · rw [hclassify]
        exact hstay _ hcontainer

theorem childrenFrom_drop {slots : List Val} {slot : ℕ} (h : slot < slots.length) (p : List (ℕ × ℕ)) :
    (g.childrenFrom slot (slots.drop slot)).map (fun c => (c, p)) =
      inSlot g slot slots[slot] p ++ (g.childrenFrom (slot + 1) (slots.drop (slot + 1))).map fun c => (c, p) := by
  rw [List.drop_eq_getElem_cons h, ValueGraph.childrenFrom, inSlot]
  cases g.container? slots[slot] with
  | none => rfl
  | some id => rfl

/-- A frame that is done is closed; where it is a copy, so is the frame around it. -/
theorem onGraph_popFrame {f : Frame} {fs : List Frame} {p : List (ℕ × ℕ)} {qs : List ((ℕ × ℕ) × List (ℕ × ℕ))}
    (hframes : s.pool.frames = f :: fs) (htodo : f.todo = []) (hopened : Opened g (f :: fs) p qs)
    (hgoing : Going g limit first s qs) : OnGraph g limit first (Walk.popFrame s (plainReply s) f fs) := by
  cases hopened with
  | @cons _ _ a p qs slot hrest hsrc hslot =>
    have hnone : g.childrenFrom slot ((g a.1).slots.drop slot) = [] := by
      have hle : (g a.1).names.length ≤ slot := by
        rw [← List.drop_eq_nil_iff, ← hslot, htodo]
      rw [← g.names_map_slot, List.drop_eq_nil_of_le]
      · rfl
      · rw [List.length_map]
        exact hle
    rw [hnone] at hgoing
    have hgas := hgoing.gas
    rw [hframes] at hgas
    unfold Walk.popFrame
    cases fs with
    | nil =>
      cases hrest
      exact .done rfl (hgoing.first_of_nil ▸ .inr ⟨_, rfl⟩)
    | cons pf fs =>
      dsimp only
      have hclose (s' : Stringify.State) (pf' : Frame) (hsame : Same s s') (hpool : s'.pool = s.pool)
          (hpaid : s.gas + kept (pf' :: fs) ≤ s'.gas + kept (f :: pf :: fs)) (hsrc' : pf'.src = pf.src)
          (htodo' : pf'.todo = pf.todo) : OnGraph g limit first
            { s' with pool := { s'.pool with frames := pf'.commit f.pKey (some (f.pKey, f.result)) ::
                s'.pool.frames.tail.tail }, phase := .next } := by
        rw [hpool, hframes]
        refine .next rfl (List.cons_ne_nil _ _) (hrest.setTop hsrc' htodo') (hgoing.move
          ⟨hsame.heap, hsame.repFn, hsame.propList, hsame.poison⟩ rfl ?_)
        rw [hframes]
        show s.gas + kept (_ :: fs) ≤ _
        rw [kept_congr (isSome_commit pf' _ _)]
        exact hpaid
      unfold Stringify.State.materializeIf
      rw [kept_cons, kept_cons pf] at hgas
      split
      · next hcopy =>
        refine materialize_plain hgoing.poison (by omega) rfl rfl rfl rfl rfl
          fun s' pf' hsame hpool hpaid hsrc' htodo' hcopy' => hclose s' pf' hsame hpool ?_ hsrc' htodo'
        rw [kept_cons, kept_of_isSome hcopy', kept_cons f, kept_cons pf]
        omega
      · refine hclose s pf ⟨rfl, rfl, rfl, rfl⟩ rfl ?_ rfl rfl
        rw [kept_cons f]
        omega

/-- The frame in hand goes on to its next key, or is closed. -/
theorem onGraph_next {p : List (ℕ × ℕ)} {qs : List ((ℕ × ℕ) × List (ℕ × ℕ))} (hne : s.pool.frames ≠ [])
    (hopened : Opened g s.pool.frames p qs) (hgoing : Going g limit first s qs) :
    OnGraph g limit first (Walk.next s (plainReply s)) := by
  unfold Walk.next
  cases hframes : s.pool.frames with
  | nil => exact absurd hframes hne
  | cons f fs =>
    rw [hframes] at hopened
    dsimp only
    cases htodo : f.todo with
    | nil => exact onGraph_popFrame hframes htodo hopened hgoing
    | cons key todo =>
      cases hopened with
      | @cons _ _ a p qs slot hrest hsrc hslot =>
        have hdrop : (g a.1).names.drop slot = key :: todo := hslot.symm.trans htodo
        have hlt : slot < (g a.1).names.length := by
          by_contra hge
          rw [List.drop_eq_nil_of_le (not_lt.mp hge)] at hdrop
          cases hdrop
        have hlt' : slot < (g a.1).slots.length := by
          rw [← g.names_map_slot, List.length_map]
          exact hlt
        rw [List.drop_eq_getElem_cons hlt] at hdrop
        obtain ⟨hkey, hrest'⟩ := List.cons.inj hdrop
        have hvalue : (g a.1).slots[slot] = g.slot a.1 key := by
          rw [List.getElem_of_eq (g.names_map_slot a.1).symm hlt', List.getElem_map, hkey]
        rw [childrenFrom_drop hlt', hvalue, List.append_assoc] at hgoing
        have hadvance (f' : Frame) (hsrc' : f'.src = f.src) (htodo' : f'.todo = todo) :
            Opened g (f' :: fs) (a :: p) ((g.childrenFrom (slot + 1) ((g a.1).slots.drop (slot + 1))).map
              (fun c => (c, a :: p)) ++ qs) :=
          .cons hrest (hsrc'.trans hsrc) (htodo'.trans hrest'.symm)
        have hread : g.slot a.1 key = Container.read (s.heap.data? f.src key) := by
          rw [hgoing.heap, hsrc]
          rfl
        have hset (s' : Stringify.State) (f' : Frame) (hpool : s'.pool = s.pool) :
            (s'.setTop f').pool.frames = f' :: fs := by
          unfold Stringify.State.setTop
          rw [hpool, hframes]
          rfl
        dsimp only
        split
        · next v hdata =>
          rw [hdata] at hread
          rw [hread] at hgoing
          rw [resolve_plain (s := s.setTop { f with todo }) hgoing.heap hgoing.repFn]
          refine .slot (p := a :: p) rfl (?_ : Opened g (s.setTop { f with todo }).pool.frames _ _)
            (hgoing.move ⟨rfl, rfl, rfl, rfl⟩ rfl ?_)
          · rw [hset s _ rfl]
            exact hadvance _ rfl rfl
          · show s.gas + kept (s.setTop { f with todo }).pool.frames ≤ s.gas + kept s.pool.frames
            rw [hset s _ rfl, hframes]
            exact (congrArg (s.gas + ·) (kept_congr rfl fs)).le
        · next hdata =>
          rw [hdata] at hread
          rw [hread] at hgoing
          have hgas := hgoing.gas
          have hkept : kept (f :: fs) = kept [{ f with todo }] + kept fs := kept_cons f fs
          rw [hframes, hkept] at hgas
          refine materialize_plain hgoing.poison (by omega) rfl rfl rfl rfl rfl
            fun s' f' hsame hpool hpaid hsrc' htodo' hcopy => ?_
          refine .hole (p := a :: p) rfl ?_ (?_ : Opened g (s'.setTop f').pool.frames _ _)
            (hgoing.move ⟨hsame.heap, hsame.repFn, hsame.propList, hsame.poison⟩ rfl ?_)
          · show (s'.setTop f').pool.frames ≠ []
            rw [hset s' f' hpool]
            exact List.cons_ne_nil _ _
          · rw [hset s' f' hpool]
            exact hadvance f' hsrc' htodo'
          · show s.gas + kept (s'.setTop f').pool.frames ≤ s'.gas + kept s.pool.frames
            rw [hset s' f' hpool, hframes, hkept, kept_cons, kept_of_isSome hcopy]
            omega

/-- A hole is read as `undefined`. -/
theorem onGraph_hole {key : String} {p : List (ℕ × ℕ)} {qs : List ((ℕ × ℕ) × List (ℕ × ℕ))}
    (hopened : Opened g s.pool.frames p qs) (hgoing : Going g limit first s qs) :
    OnGraph g limit first (s.asks (plainReply s) fun s' => Walk.resolve s' key .undefined) := by
  have hasks (k : Stringify.State → Stringify.State) : s.asks (plainReply s) k = k (s.after (plainReply s)) :=
    if_neg (Nat.not_lt_zero s.gas)
  rw [hasks, resolve_plain (s := s.after (plainReply s)) hgoing.heap hgoing.repFn]
  refine .firstSlot rfl hopened (hgoing.move ⟨rfl, rfl, rfl, ?_⟩ rfl le_rfl)
  exact Bool.or_false _

theorem onGraph_step (w : Walk) (hcycles : w.detectCycles = true) (hlimit : w.depthLimit = limit)
    (h : OnGraph g limit first s) : OnGraph g limit first (w.step s (plainReply s)) := by
  cases h with
  | next hphase hne hopened hgoing =>
    rw [Walk.step, hphase]
    exact onGraph_next hne hopened hgoing
  | hole hphase hne hopened hgoing =>
    rw [Walk.step, hphase]
    exact onGraph_hole hopened hgoing
  | slot hphase hopened hgoing =>
    rw [Walk.step, hphase]
    exact onGraph_settle w hcycles hlimit hopened hgoing
  | done hphase hended =>
    rw [Walk.step, hphase]
    exact .done hphase hended

theorem onGraph_start (lang : Language) (gas : ℕ) (root : Val)
    (hgas : enough g (toMeet g limit (inSlot g 0 root [])) ≤ gas) :
    OnGraph g limit ((toMeet g limit (inSlot g 0 root [])).find? (jsonGuard limit).bad)
      ((frameWalk lang limit root).start g.heap gas false) := by
  unfold Walk.start
  rw [if_neg Bool.false_ne_true]
  dsimp only [frameWalk]
  rw [resolve_plain (g := g) rfl rfl]
  refine .firstSlot rfl .nil ⟨rfl, rfl, rfl, rfl, ?_, ?_⟩
  · rw [List.append_nil]
  · rw [List.append_nil]
    exact hgas

theorem exists_iterate_done (w : Walk) (n : ℕ) (s : Stringify.State) (hn : weight s ≤ n) :
    ∃ o, ((fun s => w.step s (plainReply s))^[n] s).phase = .done o := by
  induction n generalizing s with
  | zero =>
    by_contra hgoing
    have := weight_going (s := s) fun o hphase => hgoing ⟨o, hphase⟩
    omega
  | succ n ih =>
    rw [Function.iterate_succ_apply]
    refine ih _ ?_
    by_cases hdone : ∃ o, s.phase = .done o
    · obtain ⟨o, hphase⟩ := hdone
      rw [step_done hphase, weight, hphase]
      exact Nat.zero_le _
    · have := weight_step w s (plainReply s) rfl fun o hphase => hdone ⟨o, hphase⟩
      omega

/-- A resolution on a graph of plain values ends as the paths it meets say. -/
theorem exists_ended (lang : Language) (gas : ℕ) (root : Val)
    (hgas : enough g (toMeet g limit (inSlot g 0 root [])) ≤ gas) :
    ∃ n o, ((fun s => (frameWalk lang limit root).step s (plainReply s))^[n]
        ((frameWalk lang limit root).start g.heap gas false)).phase = .done o ∧
      Ended ((toMeet g limit (inSlot g 0 root [])).find? (jsonGuard limit).bad) o := by
  obtain ⟨o, hphase⟩ := exists_iterate_done (frameWalk lang limit root) _ _
    (weight_start (frameWalk lang limit root) g.heap gas false)
  refine ⟨_, o, hphase, ?_⟩
  have hrun : OnGraph g limit _ ((fun s => (frameWalk lang limit root).step s (plainReply s))^[7 * gas + 7] _) :=
    Function.Iterate.rec (OnGraph g limit _) (onGraph_start lang gas root hgas)
      (fun s => onGraph_step (frameWalk lang limit root) rfl rfl) _
  cases hrun with
  | next hnext => cases hphase.symm.trans hnext
  | hole hhole => cases hphase.symm.trans hhole
  | slot hslot => cases hphase.symm.trans hslot
  | done hdone hended =>
    obtain rfl := Phase.done.inj (hphase.symm.trans hdone)
    exact hended

end XChainVM.Guards
