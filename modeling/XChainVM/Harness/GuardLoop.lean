import XChainVM.Harness.LoopCharges

/-! # The walk of the depth guard

The walk ends, because each node lists finitely many keys and the depth is limited. It is
paid where no object it meets inherits an enumerable key or throws when it is read.
-/

namespace XChainVM.Harness

open Js Machine

variable {σ : Type} (w : LoopWorld σ)

/-- The stack that is left has nodes of one depth on top of the old one. -/
def Pushes (d : ℕ) (stack stack' : List (ℕ × ℕ)) : Prop :=
  ∃ children, stack' = children ++ stack ∧ ∀ c ∈ children, c.2 = d

theorem Pushes.refl (d : ℕ) (stack : List (ℕ × ℕ)) : Pushes d stack stack := ⟨[], rfl, by simp⟩

theorem Pushes.trans {d : ℕ} {a b c : List (ℕ × ℕ)} (h : Pushes d a b) (h' : Pushes d b c) : Pushes d a c := by
  obtain ⟨children, rfl, hdepth⟩ := h
  obtain ⟨children', rfl, hdepth'⟩ := h'
  refine ⟨children' ++ children, by rw [List.append_assoc], ?_⟩
  exact List.forall_mem_append.mpr ⟨hdepth', hdepth⟩

/-- What a bind answers comes from its second part. -/
theorem bind_eq_some {α β : Type} {m : Act σ α} {f : α → Act σ β} {s s'' : σ} {b : β}
    (h : ((m >>= f) s).2 = some (b, s'')) : ∃ a s', (m s).2 = some (a, s') ∧ (f a s').2 = some (b, s'') := by
  rcases hm : m s with ⟨t, _ | ⟨a, s'⟩⟩
  · rw [Act.bind_none hm] at h
    cases h
  · rw [Act.bind_some hm] at h
    exact ⟨a, s', rfl, h⟩

theorem push_pushes {c : Val} {d : ℕ} {stack stack' : List (ℕ × ℕ)} {s s' : σ}
    (h : (push w c d stack s).2 = some (stack', s')) : Pushes d stack stack' := by
  cases c with
  | prim p =>
    cases h
    exact .refl d _
  | object id =>
    obtain ⟨isFunction, _, _, h⟩ := bind_eq_some h
    cases isFunction with
    | true =>
      cases h
      exact .refl d _
    | false =>
      cases h
      exact ⟨[(id, d)], rfl, by simp⟩

theorem scanElements_pushes {id d left i : ℕ} {stack stack' : List (ℕ × ℕ)} {s s' : σ}
    (h : (scanElements w id d left i stack s).2 = some (stack', s')) : Pushes (d + 1) stack stack' := by
  induction left generalizing i stack s with
  | zero =>
    cases h
    exact .refl _ _
  | succ left ih =>
    obtain ⟨_, _, _, h⟩ := bind_eq_some h
    obtain ⟨c, _, _, h⟩ := bind_eq_some h
    obtain ⟨mid, _, hpush, h⟩ := bind_eq_some h
    exact (push_pushes w hpush).trans (ih h)

theorem scanKeys_pushes {id d : ℕ} {keys : List ℕ} {own own' : ℕ} {stack stack' : List (ℕ × ℕ)} {s s' : σ}
    (h : (scanKeys w id d keys own stack s).2 = some ((own', stack'), s')) : Pushes (d + 1) stack stack' := by
  induction keys generalizing own stack s with
  | nil =>
    cases h
    exact .refl _ _
  | cons key rest ih =>
    obtain ⟨present, _, _, h⟩ := bind_eq_some h
    cases present with
    | false => exact ih h
    | true =>
      obtain ⟨_, _, _, h⟩ := bind_eq_some h
      obtain ⟨isOwn, _, _, h⟩ := bind_eq_some h
      cases isOwn with
      | false => exact ih h
      | true =>
        obtain ⟨c, _, _, h⟩ := bind_eq_some h
        obtain ⟨mid, _, hpush, h⟩ := bind_eq_some h
        exact (push_pushes w hpush).trans (ih h)

theorem guardNode_pushes {limit id d : ℕ} {stack stack' : List (ℕ × ℕ)} {s s' : σ}
    (h : (guardNode w limit id d stack s).2 = some (stack', s')) : d ≤ limit ∧ Pushes (d + 1) stack stack' := by
  obtain ⟨_, _, _, h⟩ := bind_eq_some h
  by_cases hdepth : limit < d
  · rw [if_pos hdepth] at h
    cases h
  · rw [if_neg hdepth] at h
    refine ⟨by omega, ?_⟩
    obtain ⟨isArray, _, _, h⟩ := bind_eq_some h
    cases isArray with
    | true =>
      obtain ⟨width, _, _, h⟩ := bind_eq_some h
      obtain ⟨_, _, _, h⟩ := bind_eq_some h
      exact scanElements_pushes w h
    | false =>
      obtain ⟨keys, _, _, h⟩ := bind_eq_some h
      obtain ⟨⟨own, mid⟩, _, hscan, h⟩ := bind_eq_some h
      obtain ⟨_, _, _, h⟩ := bind_eq_some h
      cases h
      exact scanKeys_pushes w hscan

/-- Whatever is left ends when what is below it does: the levels under a node are counted. -/
theorem guardLoop_ends_below (limit levels : ℕ) {rest : List (ℕ × ℕ)}
    (hrest : ∀ s, ∃ fuel, Finished (guardLoop w limit fuel rest s).2) {id d : ℕ} (hd : limit + 1 - d ≤ levels)
    (s : σ) : ∃ fuel, Finished (guardLoop w limit fuel ((id, d) :: rest) s).2 := by
  induction levels generalizing id d rest s with
  | zero =>
    rcases hnode : guardNode w limit id d rest s with ⟨t, _ | ⟨stack, s'⟩⟩
    · refine ⟨1, ?_⟩
      rw [guardLoop, Act.bind_none hnode]
      exact finished_none
    · have hle := (guardNode_pushes w (by rw [hnode])).1
      omega
  | succ levels ih =>
    rcases hnode : guardNode w limit id d rest s with ⟨t, _ | ⟨stack, s'⟩⟩
    · refine ⟨1, ?_⟩
      rw [guardLoop, Act.bind_none hnode]
      exact finished_none
    · obtain ⟨hle, children, rfl, hdepth⟩ := guardNode_pushes w (by rw [hnode])
      have hchildren : ∀ cs : List (ℕ × ℕ), (∀ c ∈ cs, c.2 = d + 1) →
          ∀ s, ∃ fuel, Finished (guardLoop w limit fuel (cs ++ rest) s).2 := by
        intro cs hcs
        induction cs with
        | nil => exact hrest
        | cons c cs ihcs =>
          intro s
          obtain ⟨hc, hcs⟩ := List.forall_mem_cons.mp hcs
          refine ih (ihcs hcs) ?_ s
          omega
      obtain ⟨fuel, hfuel⟩ := hchildren children hdepth s'
      refine ⟨fuel + 1, ?_⟩
      rw [guardLoop, Act.bind_some hnode]
      exact hfuel

theorem guardLoop_ends (limit : ℕ) (stack : List (ℕ × ℕ)) (s : σ) :
    ∃ fuel, Finished (guardLoop w limit fuel stack s).2 := by
  induction stack generalizing s with
  | nil => exact ⟨1, fun s' h => by cases h⟩
  | cons node rest ih => exact guardLoop_ends_below w limit _ ih le_rfl s

inductive Reached (root : Val) : ℕ → Prop where
  | root {id : ℕ} (h : root = .object id) : Reached root id
  | element {id c i : ℕ} {s s' : σ} (h : Reached root id)
      (hread : (w.element s (.object id) i).outcome = some (.object c, s')) : Reached root c
  | property {id c key : ℕ} {s s' : σ} (h : Reached root id)
      (hread : (w.property s id key).outcome = some (.object c, s')) : Reached root c

/-- No object the walk can meet has an enumerable key that is not its own, or one that throws. -/
def Tame (root : Val) : Prop :=
  ∀ id, Reached w root id → ∀ s, w.isArray s id = false → ∀ key ∈ w.keys s id, ∀ s', w.isPresent s' id key →
    w.hasOwn s' id key ∧ (w.property s' id key).outcome ≠ none

def AllReached (root : Val) (stack : List (ℕ × ℕ)) : Prop := ∀ node ∈ stack, Reached w root node.1

theorem ask_eq_some {α : Type} {read : σ → Reply σ α} {s s' : σ} {a : α} (h : (ask read s).2 = some (a, s')) :
    (read s).outcome = some (a, s') := h

theorem push_reached {root c : Val} {d : ℕ} {stack stack' : List (ℕ × ℕ)} {s s' : σ}
    (hstack : AllReached w root stack) (hc : ∀ id, c = .object id → Reached w root id)
    (h : (push w c d stack s).2 = some (stack', s')) : AllReached w root stack' := by
  cases c with
  | prim p =>
    cases h
    exact hstack
  | object id =>
    obtain ⟨isFunction, _, _, h⟩ := bind_eq_some h
    cases isFunction with
    | true =>
      cases h
      exact hstack
    | false =>
      cases h
      exact List.forall_mem_cons.mpr ⟨hc id rfl, hstack⟩

theorem scanElements_reached {root : Val} {id d left i : ℕ} {stack stack' : List (ℕ × ℕ)} {s s' : σ}
    (hid : Reached w root id) (hstack : AllReached w root stack)
    (h : (scanElements w id d left i stack s).2 = some (stack', s')) : AllReached w root stack' := by
  induction left generalizing i stack s with
  | zero =>
    cases h
    exact hstack
  | succ left ih =>
    obtain ⟨_, _, _, h⟩ := bind_eq_some h
    obtain ⟨c, _, hread, h⟩ := bind_eq_some h
    obtain ⟨mid, _, hpush, h⟩ := bind_eq_some h
    refine ih (push_reached w hstack ?_ hpush) h
    rintro c rfl
    exact .element hid (ask_eq_some hread)

theorem quiet_push (c : Val) (d : ℕ) (stack : List (ℕ × ℕ)) : Act.Quiet (push w c d stack) := by
  cases c with
  | prim p => exact Act.quiet_pure _
  | object id =>
    refine (quiet_callable w _).bind fun isFunction => ?_
    split
    · exact Act.quiet_pure _
    · exact Act.quiet_pure _

theorem scanElements_rounds (id d left i : ℕ) (stack : List (ℕ × ℕ)) :
    Rounds left (scanElements w id d left i stack) := by
  induction left generalizing i stack with
  | zero => exact rounds_of_quiet (Act.quiet_pure _) 0
  | succ left ih =>
    refine rounds_iterate.bind (fun _ => ?_) (Nat.add_comm _ _).le
    refine Rounds.quiet_bind (quiet_ask _) fun c => ?_
    exact Rounds.quiet_bind (quiet_push w c (d + 1) stack) fun stack => ih (i + 1) stack

theorem push_apply (c : Val) (d : ℕ) (stack : List (ℕ × ℕ)) (s : σ) :
    ∃ stack', push w c d stack s = ([], some (stack', s)) := by
  cases c with
  | prim p => exact ⟨stack, rfl⟩
  | object id =>
    cases hfunction : w.isCallable s (.object id) with
    | true =>
      refine ⟨stack, ?_⟩
      rw [push, Act.bind_some (show callable w (.object id) s = ([], some (true, s)) by rw [callable, look, hfunction])]
      rfl
    | false =>
      refine ⟨(id, d) :: stack, ?_⟩
      rw [push, Act.bind_some (show callable w (.object id) s = ([], some (false, s)) by rw [callable, look, hfunction])]
      rfl

theorem scanKeys_absent {id d key : ℕ} {s : σ} (h : w.isPresent s id key = false) (rest : List ℕ) (own : ℕ)
    (stack : List (ℕ × ℕ)) : scanKeys w id d (key :: rest) own stack s = scanKeys w id d rest own stack s := by
  rw [scanKeys, Act.bind_some (show look (fun s => w.isPresent s id key) s = ([], some (false, s)) by rw [look, h])]
  rfl

theorem scanKeys_own {id d key : ℕ} {s s' : σ} {c : Val} {stack stack' : List (ℕ × ℕ)}
    (hpresent : w.isPresent s id key) (howns : w.hasOwn s id key)
    (hread : (w.property s id key).outcome = some (c, s')) (hpush : push w c (d + 1) stack s' = ([], some (stack', s')))
    (rest : List ℕ) (own : ℕ) : scanKeys w id d (key :: rest) own stack s =
      (.alloc 1 :: .charge (w.property s id key).units :: (scanKeys w id d rest (own + 1) stack' s').1,
        (scanKeys w id d rest (own + 1) stack' s').2) := by
  have hlook : look (fun s => w.isPresent s id key) s = ([], some (true, s)) := by rw [look, hpresent]
  have hown : look (fun s => w.hasOwn s id key) s = ([], some (true, s)) := by rw [look, howns]
  have hask : ask (fun s => w.property s id key) s = ([.charge (w.property s id key).units], some (c, s')) := by
    rw [ask, hread]
  rw [scanKeys, Act.bind_some hlook, if_pos rfl, Act.bind_some (show iterate s = ([.alloc 1], some ((), s)) from rfl),
    Act.bind_some hown, if_pos rfl, Act.bind_some hask, Act.bind_some hpush]
  rfl

/-- The own keys of a tame object are all that is walked. -/
theorem scanKeys_tame {root : Val} {id d : ℕ} {keys : List ℕ} (hid : Reached w root id)
    (hkeys : ∀ key ∈ keys, ∀ s, w.isPresent s id key → w.hasOwn s id key ∧ (w.property s id key).outcome ≠ none)
    (own : ℕ) {stack : List (ℕ × ℕ)} (hstack : AllReached w root stack) (s : σ) :
    ∃ t own' stack' s', scanKeys w id d keys own stack s = (t, some ((own', stack'), s')) ∧
      allocated t + own = own' ∧ AllReached w root stack' := by
  induction keys generalizing own stack s with
  | nil => exact ⟨[], own, stack, s, rfl, Nat.zero_add own, hstack⟩
  | cons key rest ih =>
    obtain ⟨hkey, hrest⟩ := List.forall_mem_cons.mp hkeys
    cases hpresent : w.isPresent s id key with
    | false =>
      rw [scanKeys_absent w hpresent]
      exact ih hrest own hstack s
    | true =>
      obtain ⟨howns, hreads⟩ := hkey s hpresent
      obtain ⟨⟨c, s'⟩, hread⟩ := Option.ne_none_iff_exists'.mp hreads
      obtain ⟨stack', hpush⟩ := push_apply w c (d + 1) stack s'
      have hstack' : AllReached w root stack' := by
        refine push_reached w hstack (fun i hi => ?_) (by rw [hpush])
        exact .property hid (hi ▸ hread)
      obtain ⟨t, own', stack'', s'', heq, hown, hreached⟩ := ih hrest (own + 1) hstack' s'
      refine ⟨.alloc 1 :: .charge (w.property s id key).units :: t, own', stack'', s'', ?_, ?_, hreached⟩
      · exact (scanKeys_own w hpresent howns hread hpush rest own).trans (by rw [heq])
      · simp only [allocated_cons, Entry.allocated]
        omega

theorem charged_chargeWidth (width : ℕ) (s : σ) : ∃ t, (chargeWidth width : Act σ Unit) s = (t, some ((), s)) ∧
    allocated t = 0 ∧ width ≤ charged t + 1 := by
  unfold chargeWidth
  split
  · exact ⟨[.charge width], rfl, rfl, by simp [Entry.charged]⟩
  · exact ⟨[], rfl, rfl, by simp; omega⟩

/-- A node is charged for the keys it is walked for, and leaves nodes that can be met. -/
theorem guardNode_tame {root : Val} (htame : Tame w root) (limit d : ℕ) {id : ℕ} {stack : List (ℕ × ℕ)}
    (hid : Reached w root id) (hstack : AllReached w root stack) (s : σ) :
    allocated (guardNode w limit id d stack s).1 ≤ charged (guardNode w limit id d stack s).1 ∧
      ∀ stack' s', (guardNode w limit id d stack s).2 = some (stack', s') → AllReached w root stack' := by
  have hcharge : Act.charge 1 s = ([.charge 1], some ((), s)) := rfl
  rw [guardNode, Act.bind_some hcharge]
  by_cases hdepth : limit < d
  · rw [if_pos hdepth]
    exact ⟨Nat.zero_le _, fun stack' s' h => by cases h⟩
  rw [if_neg hdepth]
  cases harray : w.isArray s id with
  | true =>
    have hlook : look (fun s => w.isArray s id) s = ([], some (true, s)) := by rw [look, harray]
    have hwidth : look (fun s => w.arrayLength s id) s = ([], some (w.arrayLength s id, s)) := rfl
    obtain ⟨t, hpaid, hquiet, hcovered⟩ := charged_chargeWidth (w.arrayLength s id) s
    have hrounds := scanElements_rounds w id d (w.arrayLength s id) 0 stack s
    rw [Act.bind_some hlook, if_pos rfl, Act.bind_some hwidth, Act.bind_some hpaid]
    refine ⟨?_, fun stack' s' h => scanElements_reached w hid hstack h⟩
    simp only [allocated_append, charged_append, allocated_cons, charged_cons, allocated_nil, charged_nil,
      Entry.allocated, Entry.charged]
    omega
  | false =>
    have hlook : look (fun s => w.isArray s id) s = ([], some (false, s)) := by rw [look, harray]
    have hkeys : look (fun s => w.keys s id) s = ([], some (w.keys s id, s)) := rfl
    obtain ⟨t, own, stack', s', hscan, hown, hreached⟩ :=
      scanKeys_tame w (d := d) hid (fun key hkey s' => htame id hid s harray key hkey s') 0 hstack s
    obtain ⟨t', hpaid, hquiet, hcovered⟩ := charged_chargeWidth own s'
    rw [Act.bind_some hlook, if_neg Bool.false_ne_true, Act.bind_some hkeys, Act.bind_some hscan]
    dsimp only
    rw [Act.bind_some hpaid]
    constructor
    · simp only [allocated_append, charged_append, allocated_cons, charged_cons, allocated_nil, charged_nil,
        Entry.allocated, Entry.charged]
      change 0 + (0 + (0 + (allocated t + (allocated t' + 0)))) ≤ _
      omega
    · intro stack'' s'' h
      cases h
      exact hreached

theorem guardLoop_tame {root : Val} (htame : Tame w root) (limit fuel : ℕ) {stack : List (ℕ × ℕ)}
    (hstack : AllReached w root stack) (s : σ) :
    allocated (guardLoop w limit fuel stack s).1 ≤ charged (guardLoop w limit fuel stack s).1 := by
  induction fuel generalizing stack s with
  | zero => exact le_rfl
  | succ fuel ih =>
    cases stack with
    | nil => exact le_rfl
    | cons node rest =>
      obtain ⟨id, d⟩ := node
      obtain ⟨hid, hrest⟩ := List.forall_mem_cons.mp hstack
      obtain ⟨hpaid, hreached⟩ := guardNode_tame w htame limit d hid hrest s
      rcases hnode : guardNode w limit id d rest s with ⟨t, _ | ⟨stack, s'⟩⟩
      · rw [hnode] at hpaid
        rw [guardLoop, Act.bind_none hnode]
        exact hpaid
      · rw [hnode] at hpaid hreached
        rw [guardLoop, Act.bind_some hnode, allocated_append, charged_append]
        exact Nat.add_le_add hpaid (ih (hreached stack s' rfl) s')

theorem guardNativeDepth_pays {root : Val} (htame : Tame w root) (limit : ℕ) (s : σ) :
    PaysForLoops LOOP_BOUND (fun fuel => guardNativeDepth w limit fuel root) s := by
  by_cases hlimit : limit = 0
  · have hoff (fuel : ℕ) : guardNativeDepth w limit fuel root = pure (some ()) := by
      rw [guardNativeDepth, if_pos hlimit]
    simp only [hoff]
    exact ⟨⟨0, fun s' h => by cases h⟩, fun fuel _ => Nat.zero_le _⟩
  · have hon (fuel : ℕ) : guardNativeDepth w limit fuel root =
        push w root 1 [] >>= fun stack => guardLoop w limit fuel stack := by
      rw [guardNativeDepth, if_neg hlimit]
    simp only [hon]
    refine .quiet_bind (quiet_push w root 1 []) fun stack s' hpush => ?_
    have hstack : AllReached w root stack :=
      push_reached w (fun node hnode => by cases hnode) (fun id hid => .root hid) hpush
    refine ⟨guardLoop_ends w limit stack s', fun fuel _ => ?_⟩
    have := guardLoop_tame w htame limit fuel hstack s'
    rw [iterations]
    omega

end XChainVM.Harness
