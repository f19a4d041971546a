import Mathlib.Data.Prod.Lex
import XChainVM.Manifest.Wrapper
import XChainVM.Stringify.Faults

/-! # The read of a manifest ends

A guard pays for every container it goes into, so that enough replies bring it to an end.
-/

namespace XChainVM.Manifest

open Harness Js Machine Stringify
open Json (Text)

namespace Depths

variable {limit : ℕ}

def left : Visit → ℕ
  | .read _ _ _ todo => todo.length + 1
  | .pop | .done _ => 0

def Nears (s s' : Depths) : Prop :=
  (∃ a, s'.visit = .done a) ∨ Prod.Lex (· < ·) (· < ·) (s'.isolate.gas, left s'.visit) (s.isolate.gas, left s.visit)

theorem nears_spend {s t : Depths} {n : ℕ} {k : Depths → Depths}
    (hk : ∀ isolate : Isolate, isolate.gas + n = t.isolate.gas → Nears s (k { t with isolate })) :
    Nears s (t.spend n k) := by
  unfold Depths.spend Isolate.spend
  by_cases hpoison : t.isolate.poison = true
  · rw [if_pos hpoison]
    exact .inl ⟨_, rfl⟩
  · rw [if_neg hpoison]
    by_cases hgas : t.isolate.gas < n
    · rw [if_pos hgas]
      exact .inl ⟨_, rfl⟩
    · rw [if_neg hgas]
      exact hk _ (Nat.sub_add_cancel (not_lt.mp hgas))

theorem push_same (s : Depths) (v : Val) (depth : ℕ) : (s.push v depth).isolate = s.isolate ∧ (s.push v depth).visit = s.visit := by
  unfold Depths.push
  split
  · exact ⟨rfl, rfl⟩
  · split <;> exact ⟨rfl, rfl⟩

theorem nears_step (s : Depths) (r : Reply) (hgoing : ∀ a, s.visit ≠ .done a) : Nears s (s.step limit r) := by
  unfold Depths.step
  split
  · split
    · exact .inl ⟨_, rfl⟩
    · refine nears_spend fun isolate hgas => ?_
      have hless {gas : ℕ} (h : gas ≤ isolate.gas) : gas < s.isolate.gas := by
        dsimp only at hgas
        omega
      dsimp only
      split
      · exact .inl ⟨_, rfl⟩
      · split
        · split
          · refine nears_spend fun isolate' hgas' => .inr (.left _ _ (hless ?_))
            exact (Nat.le_add_right _ _).trans hgas'.le
          · exact .inr (.left _ _ (hless le_rfl))
        · exact .inr (.left _ _ (hless le_rfl))
  · next id depth width hvisit =>
    dsimp only
    split
    · next hwidth =>
      refine nears_spend fun isolate hgas => .inr (.left _ _ ?_)
      exact (Nat.lt_add_of_pos_right (Nat.zero_lt_of_lt hwidth)).trans_eq hgas
    · refine .inr ?_
      rw [hvisit]
      exact .right _ (Nat.succ_pos _)
  · next id depth width key todo hvisit =>
    have hread (t : Depths) (v : Val) (hvisit' : t.visit = .read id depth width todo)
        (hgas : t.isolate.gas ≤ s.isolate.gas) : Nears s (t.push v depth) := by
      obtain ⟨hisolate, hpush⟩ := push_same t v depth
      rw [Nears, hisolate, hpush, hvisit, hvisit']
      obtain hless | heq := lt_or_eq_of_le hgas
      · exact .inr (.left _ _ hless)
      · rw [heq]
        exact .inr (.right _ (Nat.lt_succ_self _))
    dsimp only
    split
    · exact hread _ _ rfl le_rfl
    · split
      · exact .inl ⟨_, rfl⟩
      · split
        · exact .inl ⟨_, rfl⟩
        · exact hread _ _ rfl (Nat.sub_le _ _)
  · next a hvisit => exact absurd hvisit (hgoing a)

/-- Gas is spent, or a read is done. -/
theorem ends (s : Depths) (replies : ℕ → Reply) :
    ∃ n a, (run (fun s r => step s limit r) s ((List.range n).map replies)).visit = .done a := by
  by_cases hdone : ∃ a, s.visit = .done a
  · obtain ⟨a, ha⟩ := hdone
    exact ⟨0, a, ha⟩
  · have hnears : Nears s (s.step limit (replies 0)) := nears_step s (replies 0) fun a ha => hdone ⟨a, ha⟩
    obtain ⟨a, ha⟩ | hless := hnears
    · exact ⟨1, a, ha⟩
    · obtain ⟨n, a, ha⟩ := ends (s.step limit (replies 0)) fun n => replies (n + 1)
      refine ⟨n + 1, a, ?_⟩
      rw [List.range_succ_eq_map, List.map_cons, List.map_map]
      exact ha
termination_by (s.isolate.gas, left s.visit)
decreasing_by exact hless

end Depths

def KeepsPool (w : Walk) (i : Isolate) (replies : ℕ → Reply) : Prop :=
  ∀ n, Meets w.step (fun s r => r.pool = s.pool) (w.start i.heap i.gas i.poison) ((List.range n).map replies)

theorem stringify_ends (e : Engine) (root : Val) (i : Isolate) (replies : ℕ → Reply)
    (hpool : e.guarding = .hooks → KeepsPool (e.walk root) i replies) :
    ∃ n, (e.stringify root ((List.range n).map replies) i).isSome = true := by
  unfold Engine.stringify
  cases hguarding : e.guarding with
  | off => exact ⟨0, rfl⟩
  | depth =>
    have hends : ∃ n a, (run (fun s r => Depths.step s e.nativeDepthLimit r) (Depths.start i root)
        ((List.range n).map replies)).visit = .done a := Depths.ends _ replies
    obtain ⟨n, a, ha⟩ := hends
    refine ⟨n, ?_⟩
    dsimp only
    rw [ha]
    cases a <;> rfl
  | hooks =>
    have hlength : ((List.range (7 * i.gas + 7)).map replies).length = 7 * i.gas + 7 := by
      rw [List.length_map, List.length_range]
    obtain ⟨o, ho⟩ := run_done (fun _ _ h => h) (hpool hguarding (7 * i.gas + 7))
      ((weight_start (e.walk root) i.heap i.gas i.poison).trans hlength.ge)
    refine ⟨7 * i.gas + 7, ?_⟩
    dsimp only
    rw [ho]
    cases o <;> rfl

/-- However the contract's code answers, the read of the manifest comes to an end. -/
theorem readManifest_ends (e : Engine) (m : Module) (getter : Reply) (replies : ℕ → Reply) (i : Isolate)
    (hpool : e.guarding = .hooks → KeepsPool (e.walk getter.answer) (i.after getter) replies) :
    ∃ n, (readManifest e m (some ⟨getter, (List.range n).map replies⟩) i).isSome = true := by
  obtain ⟨n, hn⟩ := stringify_ends e getter.answer (i.after getter) replies hpool
  refine ⟨n, ?_⟩
  rw [readManifest, Option.isSome_map, readMeta]
  split
  · rfl
  · dsimp only
    split
    · rfl
    · split
      · rw [Option.isSome_map]
        exact hn
      · rfl

end XChainVM.Manifest
