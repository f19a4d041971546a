import Mathlib.Data.List.Infix
import Mathlib.Data.List.Nodup
import Mathlib.Logic.Relation

/-! # The paths of a graph from its root

A graph whose nodes list their successors in order, each under the slot it stands in, unfolds into
the tree of its root paths. A depth-first walk meets them in order and goes on from each that is not
bad; how far the tree has to be followed is bounded when every long path is bad.
-/

namespace XChainVM.Tree

variable {α : Type*} (succ : α → List (α × ℕ))

/-- The steps from a root, the last one first: the node a step leads to, and its slot. -/
inductive RootPath (root : α) : List (α × ℕ) → Prop
  | root : RootPath root [(root, 0)]
  | step {a c : α × ℕ} {p : List (α × ℕ)} : RootPath root (a :: p) → c ∈ succ a.1 → RootPath root (c :: a :: p)

def Edge (a b : α) : Prop := ∃ slot, (b, slot) ∈ succ a

def HasCycle (root : α) : Prop := ∃ a, Relation.ReflTransGen (Edge succ) root a ∧ Relation.TransGen (Edge succ) a a

def Repeats : List (α × ℕ) → Prop
  | [] => False
  | a :: p => a.1 ∈ p.map Prod.fst

instance [DecidableEq α] : DecidablePred (Repeats : List (α × ℕ) → Prop)
  | [] => inferInstanceAs (Decidable False)
  | a :: p => inferInstanceAs (Decidable (a.1 ∈ p.map Prod.fst))

/-- The paths a depth-first walk may meet from here on, for `n` more levels. -/
def walked (bad : List (α × ℕ) → Bool) : ℕ → α × ℕ → List (α × ℕ) → List (List (α × ℕ))
  | 0, a, p => [a :: p]
  | n + 1, a, p => (a :: p) :: if bad (a :: p) then [] else (succ a.1).flatMap fun c => walked bad n c (a :: p)

variable {succ} {root : α}

namespace RootPath

theorem ne_nil {p : List (α × ℕ)} (h : RootPath succ root p) : p ≠ [] := by
  cases h with
  | root => exact List.cons_ne_nil _ _
  | step _ _ => exact List.cons_ne_nil _ _

theorem of_suffix {p q : List (α × ℕ)} (hq : RootPath succ root q) (h : p <:+ q) (hp : p ≠ []) : RootPath succ root p := by
  induction hq with
  | root =>
    obtain rfl | h := List.suffix_cons_iff.mp h
    · exact .root
    · exact absurd (List.suffix_nil.mp h) hp
  | step hrest hc ih =>
    obtain rfl | h := List.suffix_cons_iff.mp h
    · exact hrest.step hc
    · exact ih h

theorem edge_of_step {a c : α × ℕ} {p : List (α × ℕ)} (h : RootPath succ root (c :: a :: p)) : c ∈ succ a.1 := by
  cases h with
  | step _ hc => exact hc

theorem root_suffix {p : List (α × ℕ)} (h : RootPath succ root p) : [(root, 0)] <:+ p := by
  induction h with
  | root => exact List.suffix_refl _
  | step _ _ ih => exact ih.trans (List.suffix_cons _ _)

/-- A path reaches its last node from every node it goes through. -/
theorem reaches {front p : List (α × ℕ)} {a b : α × ℕ} (h : RootPath succ root (a :: front ++ b :: p)) :
    Relation.TransGen (Edge succ) b.1 a.1 := by
  induction front generalizing a with
  | nil => exact .single ⟨a.2, h.edge_of_step⟩
  | cons c front ih => exact (ih (h.of_suffix (List.suffix_cons _ _) (List.cons_ne_nil _ _))).tail ⟨a.2, h.edge_of_step⟩

theorem reachable {p : List (α × ℕ)} {a : α × ℕ} (h : RootPath succ root (a :: p)) :
    Relation.ReflTransGen (Edge succ) root a.1 := by
  obtain ⟨front, hfront⟩ := h.root_suffix
  cases front with
  | nil =>
    obtain ⟨rfl, -⟩ := List.cons.inj hfront
    exact .refl
  | cons b front =>
    obtain ⟨rfl, rfl⟩ := List.cons.inj hfront
    exact h.reaches.to_reflTransGen

/-- A longer path goes through a shorter one. -/
theorem exists_length {q : List (α × ℕ)} (hq : RootPath succ root q) {n : ℕ} (hn : 0 < n) (hle : n ≤ q.length) :
    ∃ p, RootPath succ root p ∧ p.length = n := by
  refine ⟨q.drop (q.length - n), hq.of_suffix (List.drop_suffix _ _) ?_, ?_⟩
  · rw [ne_eq, List.drop_eq_nil_iff]
    omega
  · rw [List.length_drop]
    omega

end RootPath

theorem exists_rootPath {a b : α} {p : List (α × ℕ)} {slot : ℕ} (hp : RootPath succ root ((a, slot) :: p))
    (h : Relation.TransGen (Edge succ) a b) :
    ∃ front slot', RootPath succ root ((b, slot') :: front ++ (a, slot) :: p) := by
  induction h with
  | single h =>
    obtain ⟨slot', h⟩ := h
    exact ⟨[], slot', hp.step h⟩
  | tail _ h ih =>
    obtain ⟨front, slot₁, hfront⟩ := ih
    obtain ⟨slot₂, h⟩ := h
    exact ⟨_ :: front, slot₂, hfront.step h⟩

/-- A cycle can be reached exactly if some path comes back to a node of its own. -/
theorem exists_repeats_iff : (∃ p, RootPath succ root p ∧ Repeats p) ↔ HasCycle succ root := by
  constructor
  · rintro ⟨p, hp, hrepeats⟩
    cases p with
    | nil => exact hrepeats.elim
    | cons a p =>
      obtain ⟨b, hb, hba⟩ := List.mem_map.mp hrepeats
      obtain ⟨front, rest, rfl⟩ := List.append_of_mem hb
      have hcycle := RootPath.reaches hp
      rw [hba] at hcycle
      exact ⟨a.1, hp.reachable, hcycle⟩
  · rintro ⟨a, hreach, hcycle⟩
    have hstart : ∃ p slot, RootPath succ root ((a, slot) :: p) := by
      obtain rfl | h := Relation.reflTransGen_iff_eq_or_transGen.mp hreach
      · exact ⟨[], 0, .root⟩
      · obtain ⟨front, slot, h⟩ := exists_rootPath .root h
        exact ⟨_, slot, h⟩
    obtain ⟨p, slot, hp⟩ := hstart
    obtain ⟨front, slot', hp⟩ := exists_rootPath hp hcycle
    refine ⟨_, hp, List.mem_map.mpr ⟨(a, slot), ?_, rfl⟩⟩
    exact List.mem_append_right _ List.mem_cons_self

/-- A path none of whose parts comes back goes through each node once. -/
theorem nodup_of_not_repeats {p : List (α × ℕ)} (h : ∀ q, q ≠ [] → q <:+ p → ¬Repeats q) : (p.map Prod.fst).Nodup := by
  induction p with
  | nil => exact List.nodup_nil
  | cons a p ih =>
    rw [List.map_cons, List.nodup_cons]
    exact ⟨h (a :: p) (List.cons_ne_nil _ _) (List.suffix_refl _),
      ih fun q hq hsuffix => h q hq (hsuffix.trans (List.suffix_cons a p))⟩

variable {bad : List (α × ℕ) → Bool}

theorem suffix_of_mem_walked {n : ℕ} {a : α × ℕ} {p q : List (α × ℕ)} (h : q ∈ walked succ bad n a p) : a :: p <:+ q := by
  induction n generalizing a p with
  | zero => rw [List.mem_singleton.mp h]
  | succ n ih =>
    obtain rfl | h := List.mem_cons.mp h
    · exact List.suffix_refl _
    · split at h
      · cases h
      · obtain ⟨c, -, hc⟩ := List.mem_flatMap.mp h
        exact (List.suffix_cons c _).trans (ih hc)

/-- The walk meets a path if it goes on from every part of it. -/
theorem mem_walked_iff {n : ℕ} {a : α × ℕ} {p q : List (α × ℕ)} (hp : RootPath succ root (a :: p))
    (hlong : ∀ q : List (α × ℕ), (a :: p).length + n ≤ q.length → bad q = true) :
    q ∈ walked succ bad n a p ↔ RootPath succ root q ∧ a :: p <:+ q ∧
      ∀ r, a :: p <:+ r → r <:+ q → r ≠ q → bad r = false := by
  induction n generalizing a p with
  | zero =>
    rw [walked, List.mem_singleton]
    constructor
    · rintro rfl
      exact ⟨hp, List.suffix_refl _, fun r h h' hne => absurd (h'.eq_of_length_le h.length_le) hne⟩
    · rintro ⟨-, hsuffix, hgood⟩
      by_contra hne
      have := hgood (a :: p) (List.suffix_refl _) hsuffix (Ne.symm hne)
      rw [hlong (a :: p) le_rfl] at this
      cases this
  | succ n ih =>
    have hnext (c : α × ℕ) (hc : c ∈ succ a.1) := ih (a := c) (p := a :: p) (hp.step hc) fun q hq =>
      hlong q (by rw [List.length_cons] at hq; omega)
    rw [walked, List.mem_cons]
    constructor
    · rintro (rfl | h)
      · exact ⟨hp, List.suffix_refl _, fun r h h' hne => absurd (h'.eq_of_length_le h.length_le) hne⟩
      · split at h
        · cases h
        · next hgood =>
          obtain ⟨c, hc, h⟩ := List.mem_flatMap.mp h
          obtain ⟨hq, hsuffix, hgoods⟩ := (hnext c hc).mp h
          refine ⟨hq, (List.suffix_cons c _).trans hsuffix, fun r hr hrq hne => ?_⟩
          obtain hcr | hrc := List.suffix_or_suffix_of_suffix hsuffix hrq
          · exact hgoods r hcr hrq hne
          · obtain rfl | hrp := List.suffix_cons_iff.mp hrc
            · exact hgoods _ (List.suffix_refl _) hrq hne
            · rw [hrp.eq_of_length_le hr.length_le]
              exact Bool.eq_false_iff.mpr hgood
    · rintro ⟨hq, hsuffix, hgood⟩
      by_cases hne : q = a :: p
      · exact .inl hne
      · right
        rw [if_neg (Bool.eq_false_iff.mp (hgood (a :: p) (List.suffix_refl _) hsuffix (Ne.symm hne)))]
        obtain ⟨front, rfl⟩ := hsuffix
        obtain rfl | ⟨front, c, rfl⟩ := List.eq_nil_or_concat front
        · exact absurd rfl hne
        · have hcq : c :: a :: p <:+ front.concat c ++ a :: p := ⟨front, by simp⟩
          have hc : c ∈ succ a.1 := (hq.of_suffix hcq (List.cons_ne_nil _ _)).edge_of_step
          refine List.mem_flatMap.mpr ⟨c, hc, (hnext c hc).mpr ⟨hq, hcq, fun r hr => ?_⟩⟩
          exact hgood r ((List.suffix_cons c _).trans hr)

/-- Each path is met once. -/
theorem nodup_walked (hsucc : ∀ a, (succ a).Nodup) (n : ℕ) (a : α × ℕ) (p : List (α × ℕ)) :
    (walked succ bad n a p).Nodup := by
  induction n generalizing a p with
  | zero => exact List.nodup_singleton _
  | succ n ih =>
    rw [walked, List.nodup_cons]
    split
    · exact ⟨List.not_mem_nil, List.nodup_nil⟩
    · constructor
      · intro h
        obtain ⟨c, -, hc⟩ := List.mem_flatMap.mp h
        have := (suffix_of_mem_walked hc).length_le
        simp only [List.length_cons] at this
        omega
      · refine List.nodup_flatMap.mpr ⟨fun c _ => ih c (a :: p), (hsucc a.1).imp fun {c c'} hne => ?_⟩
        intro q hq hq'
        have heq := (List.suffix_of_suffix_length_le (suffix_of_mem_walked hq) (suffix_of_mem_walked hq')
          (by simp)).eq_of_length (by simp)
        exact hne (List.cons.inj heq).1

/-- A bad path has a first bad part, which the walk meets. -/
theorem exists_mem_walked {n : ℕ} (hlong : ∀ q : List (α × ℕ), n + 1 ≤ q.length → bad q = true) {q : List (α × ℕ)}
    (hq : RootPath succ root q) (hbad : bad q = true) : ∃ p ∈ walked succ bad n (root, 0) [], p <:+ q ∧ bad p = true := by
  induction hlength : q.length using Nat.strong_induction_on generalizing q with
  | _ length ih =>
    by_cases hpart : ∃ r, r ≠ [] ∧ r <:+ q ∧ r ≠ q ∧ bad r = true
    · obtain ⟨r, hr, hrq, hne, hrbad⟩ := hpart
      have hlt : r.length < length :=
        hlength ▸ lt_of_le_of_ne hrq.length_le fun h => hne (hrq.eq_of_length h)
      obtain ⟨p, hp, hpr, hpbad⟩ := ih r.length hlt (hq.of_suffix hrq hr) hrbad rfl
      exact ⟨p, hp, hpr.trans hrq, hpbad⟩
    · refine ⟨q, (mem_walked_iff .root (by simpa [Nat.add_comm] using hlong)).mpr
        ⟨hq, hq.root_suffix, fun r hr hrq hne => ?_⟩, List.suffix_refl _, hbad⟩
      have hr : r ≠ [] := fun h => by simp [h] at hr
      exact Bool.eq_false_iff.mpr fun h => hpart ⟨r, hr, hrq, hne, h⟩

/-- The paths still to be met, where a stack holds the nodes to go on with, each under its path. -/
def pending (succ : α → List (α × ℕ)) (bad : List (α × ℕ) → Bool) (limit : ℕ)
    (qs : List ((α × ℕ) × List (α × ℕ))) : List (List (α × ℕ)) :=
  qs.flatMap fun q => walked succ bad (limit - q.2.length) q.1 q.2

theorem pending_append {limit : ℕ} (qs rs : List ((α × ℕ) × List (α × ℕ))) :
    pending succ bad limit (qs ++ rs) = pending succ bad limit qs ++ pending succ bad limit rs :=
  List.flatMap_append

/-- Taking the first node from the stack meets its path, and goes on to its successors. -/
theorem pending_cons {limit : ℕ} (hgood : ∀ p, bad p = false → p.length ≤ limit) (a : α × ℕ) (p : List (α × ℕ))
    (qs : List ((α × ℕ) × List (α × ℕ))) : pending succ bad limit ((a, p) :: qs) =
      (a :: p) :: ((if bad (a :: p) then [] else pending succ bad limit ((succ a.1).map fun c => (c, a :: p))) ++
        pending succ bad limit qs) := by
  unfold pending
  rw [List.flatMap_cons, ← List.cons_append]
  congr 1
  by_cases hbad : bad (a :: p) = true
  · rw [if_pos hbad]
    cases limit - p.length with
    | zero => rfl
    | succ n => rw [walked, if_pos hbad]
  · have hle := hgood (a :: p) (Bool.eq_false_iff.mpr hbad)
    rw [List.length_cons] at hle
    obtain ⟨n, hn⟩ : ∃ n, limit - p.length = n + 1 := ⟨limit - p.length - 1, by omega⟩
    have hn' : limit - (p.length + 1) = n := by omega
    dsimp only
    rw [hn, walked, if_neg hbad, if_neg hbad, List.flatMap_map]
    simp only [List.length_cons, hn']

/-- Every path that goes through no node twice has at most this many steps. -/
def Fits (succ : α → List (α × ℕ)) (root : α) (limit : ℕ) : Prop :=
  ∀ p, RootPath succ root p → (p.map Prod.fst).Nodup → p.length ≤ limit

variable {limit : ℕ} (hbad : ∀ p, bad p = true ↔ Repeats p ∨ limit < p.length)

include hbad

theorem long_of_limit (q : List (α × ℕ)) (hq : limit + 1 ≤ q.length) : bad q = true :=
  (hbad q).mpr (.inr hq)

/-- Where the simple paths fit the limit, what is bad on the walk comes back to itself. -/
theorem repeats_of_bad (hfits : Fits succ root limit) {q : List (α × ℕ)}
    (hq : q ∈ walked succ bad limit (root, 0) []) (h : bad q = true) : Repeats q := by
  obtain ⟨hpath, hroot, hgood⟩ := (mem_walked_iff .root (by simpa [Nat.add_comm] using long_of_limit hbad)).mp hq
  by_contra hrepeats
  have hnodup : (q.map Prod.fst).Nodup := by
    refine nodup_of_not_repeats fun r hr hrq hrrepeats => ?_
    by_cases hne : r = q
    · exact hrepeats (hne ▸ hrrepeats)
    · have := hgood r (hpath.of_suffix hrq hr).root_suffix hrq hne
      rw [(hbad r).mpr (.inl hrrepeats)] at this
      cases this
  obtain h | h := (hbad q).mp h
  · exact hrepeats h
  · exact absurd (hfits q hpath hnodup) (not_le.mpr h)

/-- Where the simple paths fit the limit, the walk meets a bad path exactly if there is a cycle. -/
theorem exists_bad_iff_hasCycle (hfits : Fits succ root limit) :
    (∃ q ∈ walked succ bad limit (root, 0) [], bad q = true) ↔ HasCycle succ root := by
  rw [← exists_repeats_iff]
  constructor
  · rintro ⟨q, hq, h⟩
    exact ⟨q, ((mem_walked_iff .root (by simpa [Nat.add_comm] using long_of_limit hbad)).mp hq).1,
      repeats_of_bad hbad hfits hq h⟩
  · rintro ⟨q, hq, hrepeats⟩
    obtain ⟨p, hp, -, h⟩ := exists_mem_walked (long_of_limit hbad) hq ((hbad q).mpr (.inl hrepeats))
    exact ⟨p, hp, h⟩

/-- Where the simple paths fit the limit, the first bad path of the walk is one that comes back. -/
theorem find_walked (hfits : Fits succ root limit) :
    (walked succ bad limit (root, 0) []).find? bad = none ∧ ¬HasCycle succ root ∨
      ∃ p, (walked succ bad limit (root, 0) []).find? bad = some p ∧ Repeats p ∧ HasCycle succ root := by
  have hiff := exists_bad_iff_hasCycle hbad hfits
  cases hfind : (walked succ bad limit (root, 0) []).find? bad with
  | none =>
    refine .inl ⟨rfl, fun hcycle => ?_⟩
    obtain ⟨q, hq, h⟩ := hiff.mpr hcycle
    exact List.find?_eq_none.mp hfind q hq h
  | some p =>
    have hp := List.mem_of_find?_eq_some hfind
    have h := List.find?_some hfind
    exact .inr ⟨p, rfl, repeats_of_bad hbad hfits hp h, hiff.mp ⟨p, hp, h⟩⟩

/-- The walk meets no bad path exactly if there is none. -/
theorem find_walked_eq_none_iff :
    (walked succ bad limit (root, 0) []).find? bad = none ↔ ∀ p, RootPath succ root p → bad p = false := by
  rw [List.find?_eq_none]
  constructor
  · intro hnone p hp
    by_contra h
    obtain ⟨q, hq, -, hqbad⟩ := exists_mem_walked (long_of_limit hbad) hp (eq_true_of_ne_false h)
    exact hnone q hq hqbad
  · intro hgood q hq h
    have hpath := ((mem_walked_iff .root (by simpa [Nat.add_comm] using long_of_limit hbad)).mp hq).1
    rw [hgood q hpath] at h
    cases h

omit hbad

/-- The order of the successors does not matter to the paths. -/
theorem RootPath.congr {succ' : α → List (α × ℕ)} (h : ∀ a c, c ∈ succ a → c ∈ succ' a) {p : List (α × ℕ)}
    (hp : RootPath succ root p) : RootPath succ' root p := by
  induction hp with
  | root => exact .root
  | step _ hc ih => exact ih.step (h _ _ hc)

end XChainVM.Tree
