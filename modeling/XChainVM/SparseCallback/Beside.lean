import XChainVM.SparseCallback.Probe

/-! # Runs beside each other

Two runs from the same objects log the same, end in the same way and leave the same objects. What counts of
a log is chosen: all of it, or the effects without the charges. A probe that one of the runs put in place
is gone by the end, and the older ones are as they were.
-/

namespace XChainVM.SparseCallback

open Harness Js Machine Cut

variable {σ α β γ : Type}

abbrev Outcome (σ α : Type) := List (Note Request) × Except (Option Thrown) α × World σ

structure Alike (see : Note Request → Option γ) (s : World σ) (x x' : Outcome σ α) : Prop where
  log : x.1.filterMap see = x'.1.filterMap see
  answer : x.2.1 = x'.2.1
  heap : x.2.2.toHeap = x'.2.2.toHeap
  free : x.2.2.Free
  kept : s.probes <+: x.2.2.probes

def Simulates (see : Note Request → Option γ) (m m' : Run (World σ) α) : Prop :=
  ∀ s s', s.toHeap = s'.toHeap → s.Free → Alike see s (m s) (m' s')

variable {see : Note Request → Option γ} {s s₀ s' : World σ} {m m' : Run (World σ) α}

theorem Alike.mono {t : World σ} {x x' : Outcome σ α} (h : Alike see t x x') (hkept : s.probes <+: t.probes) :
    Alike see s x x' :=
  ⟨h.log, h.answer, h.heap, h.free, hkept.trans h.kept⟩

theorem Alike.trans {t : World σ} {x x' x'' : Outcome σ α} (h : Alike see s x x') (h' : Alike see t x' x'') :
    Alike see s x x'' :=
  ⟨h.log.trans h'.log, h.answer.trans h'.answer, h.heap.trans h'.heap, h.free, h.kept⟩

theorem Alike.append {x x' : Outcome σ α} {l l' : List (Note Request)} (hl : l.filterMap see = l'.filterMap see)
    (h : Alike see s x x') : Alike see s (l ++ x.1, x.2) (l' ++ x'.1, x'.2) :=
  ⟨by rw [List.filterMap_append, List.filterMap_append, hl, h.log], h.answer, h.heap, h.free, h.kept⟩

theorem Alike.bind {f f' : α → Run (World σ) β} (h : Alike see s (m s₀) (m' s'))
    (hf : ∀ a, Simulates see (f a) (f' a)) : Alike see s ((m >>= f) s₀) ((m' >>= f') s') := by
  obtain ⟨hlog, hanswer, hheap, hfree, hkept⟩ := h
  rcases hm : m s₀ with ⟨l, e | a, t⟩ <;> rcases hm' : m' s' with ⟨l', e' | a', t'⟩ <;>
    rw [hm, hm'] at hlog hanswer hheap <;> rw [hm] at hfree hkept
  case error.error =>
    rw [Eff.bind_error hm, Eff.bind_error hm']
    cases hanswer
    exact ⟨hlog, rfl, hheap, hfree, hkept⟩
  case error.ok => cases hanswer
  case ok.error => cases hanswer
  case ok.ok =>
    cases hanswer
    rw [Eff.bind_ok hm, Eff.bind_ok hm']
    exact .append hlog ((hf a t t' hheap hfree).mono hkept)

theorem Alike.resume {k k' : Except Thrown α → Run (World σ) β} (h : Alike see s (m s₀) (m' s'))
    (hk : ∀ a t t', t.toHeap = t'.toHeap → t.Free → s.probes <+: t.probes → Alike see s (k a t) (k' a t')) :
    Alike see s (resume m k s₀) (resume m' k' s') := by
  obtain ⟨hlog, hanswer, hheap, hfree, hkept⟩ := h
  rcases hm : m s₀ with ⟨l, x, t⟩
  rcases hm' : m' s' with ⟨l', x', t'⟩
  rw [hm, hm'] at hlog hanswer hheap
  rw [hm] at hfree hkept
  dsimp only at hanswer
  subst hanswer
  obtain rfl | ⟨a, rfl⟩ := cut_or_answered x
  · rw [resume_cut hm, resume_cut hm']
    exact ⟨hlog, rfl, hheap, hfree, hkept⟩
  · rw [resume_of hm, resume_of hm']
    exact .append hlog (hk a t t' hheap hfree hkept)

namespace Simulates

theorem bind {f f' : α → Run (World σ) β} (h : Simulates see m m') (hf : ∀ a, Simulates see (f a) (f' a)) :
    Simulates see (m >>= f) (m' >>= f') :=
  fun s s' hheap hfree => (h s s' hheap hfree).bind hf

theorem resume {k k' : Except Thrown α → Run (World σ) β} (h : Simulates see m m')
    (hk : ∀ a, Simulates see (k a) (k' a)) : Simulates see (Cut.resume m k) (Cut.resume m' k') :=
  fun s s' hheap hfree => (h s s' hheap hfree).resume fun a t t' hheap' hfree' hkept =>
    (hk a t t' hheap' hfree').mono hkept

/-- A run that the world has no part in. -/
theorem of_stateless {l : List (Note Request)} {a : Except (Option Thrown) α} (h : ∀ s, m s = (l, a, s)) :
    Simulates see m m := by
  intro s s' hheap hfree
  rw [h s, h s']
  exact ⟨rfl, rfl, hheap, hfree, List.prefix_rfl⟩

/-- A run that nothing is seen of. -/
theorem of_unseen {m : Run (World σ) Unit} {l : List (Note Request)} (h : ∀ s, m s = (l, .ok (), s))
    (hl : l.filterMap see = []) : Simulates see m (Pure.pure ()) := by
  intro s s' hheap hfree
  rw [h s]
  exact ⟨hl, rfl, hheap, hfree, List.prefix_rfl⟩

theorem pure (a : α) : Simulates see (Pure.pure a : Run (World σ) α) (Pure.pure a) := of_stateless fun _ => rfl

theorem raise (e : Thrown) : Simulates see (Cut.raise e : Run (World σ) α) (Cut.raise e) := of_stateless fun _ => rfl

theorem answer (a : Except Thrown α) : Simulates see (Cut.answer a : Run (World σ) α) (Cut.answer a) :=
  of_stateless fun _ => rfl

theorem ending {n n' : Run (World σ) Unit} (h : Simulates see m m') (hn : Simulates see n n') :
    Simulates see (Cut.ending m n) (Cut.ending m' n') :=
  h.resume fun a => hn.bind fun _ => answer a

theorem perform (m : Act σ) : Simulates see m.perform m.perform := by
  intro s s' hheap hfree
  unfold Act.perform
  rw [hheap] at hfree ⊢
  exact ⟨rfl, rfl, rfl, m.free _ hfree, List.prefix_rfl⟩

end Simulates

namespace Program

variable (p : Program σ) {enter enter' : Request → Run (World σ) Val}

theorem simulates_primToNumber (v : Prim) :
    Simulates see (p.primToNumber v : Run (World σ) Number) (p.primToNumber v) := by
  unfold primToNumber
  split
  · exact .pure _
  · exact .raise _

theorem simulates_boxed (v : Prim) : Simulates see (p.boxed v) (p.boxed v) := by
  intro s s' hheap hfree
  unfold boxed
  rw [hheap] at hfree ⊢
  exact ⟨rfl, rfl, rfl, p.box_free _ v hfree, List.prefix_rfl⟩

theorem simulates_toObject (v : Val) : Simulates see (p.toObject v) (p.toObject v) := by
  cases v with
  | object o => exact .pure o
  | prim v =>
    cases v with
    | undefined => exact .raise _
    | null => exact .raise _
    | _ => exact p.simulates_boxed _

section Entered

variable (henter : ∀ r, Simulates see (enter r) (enter' r))

include henter

theorem simulates_visit (r : Request) : Simulates see (visit enter r) (visit enter' r) :=
  (Simulates.of_stateless fun _ => rfl).bind fun _ => henter r

theorem simulates_toNumber (v : Val) : Simulates see (p.toNumber enter v) (p.toNumber enter' v) := by
  cases v with
  | prim v => exact p.simulates_primToNumber v
  | object o =>
    refine (simulates_visit henter _).bind fun v => ?_
    cases v with
    | prim v => exact p.simulates_primToNumber v
    | object o => exact .raise _

end Entered

omit p in
theorem find_isContract {h : Heap σ} (hfree : h.Free) {o : ℕ} {key : String} {d : Desc Handle}
    (hfind : h.objects.find o key = some d) : d.IsContract := by
  obtain ⟨o', -, hown⟩ := List.exists_of_findSome?_eq_some hfind
  obtain ⟨front, back, hsplit, -⟩ := List.lookup_eq_some_iff.mp hown
  exact hfree o' (key, d) (hsplit ▸ List.mem_append_right front List.mem_cons_self)

theorem invoke_contract (older f : ℕ) (this : Val) (args : List Val) :
    p.invoke enter older (.contract f) this args = visit enter (.call f this args) := by
  cases older <;> rfl

/-- Where no probe is in place, a read calls code of the contract at most. -/
theorem simulates_get (henter : ∀ r, Simulates see (enter r) (enter' r)) (o : ℕ) (key : String) :
    Simulates see (p.get enter o key) (p.get enter' o key) := by
  intro s s' hheap hfree
  unfold get
  rw [Eff.state_bind_apply, Eff.state_bind_apply, ← hheap]
  cases hfind : s.objects.find o key with
  | none => exact Simulates.pure _ s s' hheap hfree
  | some d =>
    cases d with
    | data v w e c => exact Simulates.pure _ s s' hheap hfree
    | accessor get set e c =>
      rcases get with _ | f
      · exact Simulates.pure _ s s' hheap hfree
      · obtain ⟨hget, -⟩ := find_isContract hfree hfind
        cases f with
        | contract f =>
          dsimp only
          rw [invoke_contract, invoke_contract]
          exact simulates_visit henter _ s s' hheap hfree
        | read i => cases hget
        | write i => cases hget

end Program

end XChainVM.SparseCallback
