import XChainVM.Manifest.Wrapper

/-! # The verdicts of a manifest read

Whatever is thrown while `meta` is read is caught, but a stack fault outlasts the `try`: the report
cannot be serialized behind it. Without one the other fields are those of the module without `meta`,
unless the longer report is cut.
-/

namespace XChainVM.Manifest

open Harness Js Machine Stringify
open Json (Text)

section Sticky

variable {s : State} {k : State → State}

theorem poison_spend (n : ℕ) (hs : s.poison = true) : (s.spend n k).poison = true := by
  unfold State.spend
  rw [if_pos hs]
  exact hs

theorem poison_asks (r : Reply) (hs : s.poison = true) (hk : ∀ s, s.poison = true → (k s).poison = true) :
    (s.asks r k).poison = true := by
  have hafter : (s.after r).poison = true := by
    unfold State.after
    rw [hs, Bool.true_or]
  unfold State.asks
  split
  · exact hs
  · split
    · exact hafter
    · exact hk _ hafter

theorem poison_materializeIf {k : State → Frame → State} (dirty : Bool) (r : Reply) (f : Frame) (hs : s.poison = true)
    (hk : (k s f).poison = true) : (s.materializeIf dirty r f k).poison = true := by
  unfold State.materializeIf State.materialize
  split
  · split
    · exact hk
    · exact poison_spend _ hs
  · exact hk

theorem poison_callReplacer (key : String) (v : Val) (hooked : Bool) (hs : s.poison = true) :
    (Walk.callReplacer s key v hooked).poison = true := by
  unfold Walk.callReplacer
  split
  · exact poison_spend 1 hs
  · exact hs

theorem poison_resolve (key : String) (v : Val) (hs : s.poison = true) : (Walk.resolve s key v).poison = true := by
  unfold Walk.resolve
  split
  · exact hs
  · exact poison_callReplacer _ _ _ hs

theorem poison_next (r : Reply) (hs : s.poison = true) : (Walk.next s r).poison = true := by
  unfold Walk.next
  split
  · exact hs
  · split
    · unfold Walk.popFrame
      split
      · exact hs
      · exact poison_materializeIf _ _ _ hs hs
    · dsimp only
      split
      · exact poison_resolve _ _ hs
      · unfold State.materialize
        split
        · exact hs
        · exact poison_spend _ hs

theorem poison_settle (w : Walk) (r : Reply) (key : String) (v : Val) (hooked : Bool) (hs : s.poison = true) :
    (w.settle s r key v hooked).poison = true := by
  have hpush (s : State) (id : ℕ) (isArr dirty : Bool) (hs : s.poison = true) :
      (w.pushFrame s r id isArr dirty key).poison = true := poison_spend 1 hs
  unfold Walk.settle
  dsimp only
  split
  · split
    · exact hs
    · exact hs
    · exact hpush _ _ _ _ hs
  · refine poison_materializeIf _ _ _ hs ?_
    split
    · exact hs
    · exact poison_materializeIf _ _ _ hs hs
    · exact hpush _ _ _ _ hs

theorem poison_step (w : Walk) (s : State) (r : Reply) (hs : s.poison = true) : (w.step s r).poison = true := by
  unfold Walk.step
  split
  · exact poison_resolve _ _ hs
  · split
    · exact hs
    · exact poison_asks r hs fun s hs => hs
  · exact poison_next r hs
  · exact poison_asks r hs fun s hs => poison_resolve _ _ hs
  · refine poison_asks r hs fun s hs => ?_
    split
    · exact poison_spend 1 hs
    · exact poison_callReplacer _ _ _ hs
  · exact poison_asks r hs fun s hs => poison_callReplacer _ _ _ hs
  · exact poison_asks r hs fun s hs => hs
  · exact poison_settle w r _ _ _ hs
  · exact hs

end Sticky

namespace Depths

theorem poison_step (limit : ℕ) (s : Depths) (r : Reply) (hs : s.isolate.poison = true) :
    (s.step limit r).isolate.poison = true := by
  have hspend (s : Depths) (n : ℕ) (k : Depths → Depths) (hs : s.isolate.poison = true) :
      (s.spend n k).isolate.poison = true := by
    unfold Depths.spend Isolate.spend
    rw [if_pos hs]
    exact hs
  have hpush (s : Depths) (v : Val) (depth : ℕ) (hs : s.isolate.poison = true) :
      (s.push v depth).isolate.poison = true := by
    unfold Depths.push
    split
    · exact hs
    · split <;> exact hs
  have hafter : (s.isolate.after r).poison = true := by
    unfold Isolate.after
    rw [hs, Bool.true_or]
  unfold Depths.step
  split
  · split
    · exact hs
    · exact hspend _ _ _ hs
  · dsimp only
    split
    · exact hspend _ _ _ hs
    · exact hs
  · dsimp only
    split
    · exact hpush _ _ _ hs
    · split
      · exact hs
      · split
        · exact hafter
        · exact hpush _ _ _ hafter
  · exact hs

end Depths

section Answers

variable {α β : Type} {i : Isolate}

def Stuck (a : Answer α × Isolate) : Prop := a.1 ≠ .outOfGas ∧ a.2.poison = true

theorem Stuck.andThen {a : Answer α × Isolate} {k : α → Isolate → Answer β × Isolate} (ha : Stuck a)
    (hk : ∀ b i, i.poison = true → Stuck (k b i)) : Stuck (Answer.andThen a k) := by
  obtain ⟨hgas, hpoison⟩ := ha
  rcases a with ⟨b | _ | _, i⟩
  · exact hk b i hpoison
  · exact ⟨nofun, hpoison⟩
  · exact absurd rfl hgas

theorem allocGas_stuck {n : ℕ} (hn : 1 < n) (hi : i.poison = true) : i.allocGas n = (.threw, i) := by
  unfold Isolate.allocGas Isolate.spend
  rw [if_pos hn, if_pos hi]

theorem stuck_allocGas (n : ℕ) (hi : i.poison = true) : Stuck (i.allocGas n) := by
  by_cases hn : 1 < n
  · rw [allocGas_stuck hn hi]
    exact ⟨nofun, hi⟩
  · unfold Isolate.allocGas
    rw [if_neg hn]
    exact ⟨nofun, hi⟩

theorem stuck_nativeText (e : Engine) (c : Copy) (hi : i.poison = true) : Stuck (e.nativeText c i) := by
  refine Stuck.andThen ((e.native c).sticky i hi) fun text i hi => ?_
  cases text with
  | none => exact ⟨nofun, hi⟩
  | some text => exact (stuck_allocGas _ hi).andThen fun _ i hi => ⟨nofun, hi⟩

end Answers

theorem poison_stringify (e : Engine) (root : Val) (replies : List Reply) {i : Isolate} (hi : i.poison = true)
    {a : Answer (Option Text) × Isolate} (h : e.stringify root replies i = some a) : a.2.poison = true := by
  unfold Engine.stringify at h
  split at h
  · cases h
    exact (stuck_nativeText e _ hi).2
  · have hstart : (Depths.start i root).isolate.poison = true := by
      unfold Depths.start
      split
      · exact hi
      · rw [if_pos hi]
        exact hi
    have hrun : (run (fun s r => Depths.step s e.nativeDepthLimit r) (Depths.start i root) replies).isolate.poison = true :=
      run_invariant (I := fun s : Depths => s.isolate.poison = true) (fun s r hs => Depths.poison_step _ s r hs) hstart replies
    dsimp only at h
    split at h
    · cases h
      exact (stuck_nativeText e _ hrun).2
    · cases h
      exact hrun
    · cases h
      exact hrun
    · cases h
  · have hstart : ((e.walk root).start i.heap i.gas i.poison).poison = true := by
      unfold Walk.start
      rw [hi, if_pos rfl]
      rfl
    have hrun : (run (e.walk root).step ((e.walk root).start i.heap i.gas i.poison) replies).poison = true :=
      run_invariant (I := fun s : State => s.poison = true) (poison_step _) hstart replies
    dsimp only at h
    split at h
    · cases h
      exact hrun
    · cases h
      exact (stuck_nativeText e _ hrun).2
    · cases h
      exact hrun
    · cases h
      exact hrun
    · cases h

theorem readMeta_cases {e : Engine} {x : Option Meta} {i : Isolate} {a : Answer MetaReport × Isolate}
    (h : readMeta e x i = some a) : (∃ r, a.1 = .ok r) ∨ a.1 = .outOfGas := by
  cases x with
  | none =>
    cases h
    exact .inl ⟨_, rfl⟩
  | some m =>
    rw [readMeta] at h
    split at h
    · cases h
      exact .inr rfl
    · dsimp only at h
      split at h
      · cases h
        exact .inl ⟨_, rfl⟩
      · split at h
        · obtain ⟨⟨text | _ | _, i'⟩, -, rfl⟩ := Option.map_eq_some_iff.mp h
          · exact .inl ⟨_, rfl⟩
          · exact .inl ⟨_, rfl⟩
          · exact .inr rfl
        · cases h
          exact .inl ⟨_, rfl⟩

theorem poison_readMeta {e : Engine} {x : Option Meta} {i : Isolate} {a : Answer MetaReport × Isolate}
    (hi : i.poison = true) (h : readMeta e x i = some a) : a.2.poison = true := by
  cases x with
  | none =>
    cases h
    exact hi
  | some m =>
    have hafter : (i.after m.getter).poison = true := by
      unfold Isolate.after
      rw [hi, Bool.true_or]
    rw [readMeta] at h
    split at h
    · cases h
      exact hi
    · dsimp only at h
      split at h
      · cases h
        exact hafter
      · split at h
        · obtain ⟨⟨text | _ | _, i'⟩, hrun, rfl⟩ := Option.map_eq_some_iff.mp h <;>
            exact poison_stringify e _ _ hafter hrun
        · cases h
          exact hafter

theorem reportText_long (lang : Language) (f : Fields) (permissions : Text) (m : MetaReport) :
    1 < (reportText lang f permissions m).length := by
  simp only [reportText, List.cons_append, List.length_cons, List.length_append]
  omega

/-- A charged text behind a stack fault. -/
theorem andThen_stuck {α β : Type} {a : Answer α × Isolate} {k : α → Isolate → Answer β × Isolate} (ha : Stuck a)
    (hk : ∀ b i, i.poison = true → (k b i).1 = .threw) : (Answer.andThen a k).1 = .threw := by
  obtain ⟨hgas, hpoison⟩ := ha
  rcases a with ⟨b | _ | _, i⟩
  · exact hk b i hpoison
  · rfl
  · exact absurd rfl hgas

theorem report_stuck (e : Engine) (m : Module) (r : MetaReport) {i : Isolate} (hi : i.poison = true) :
    (report e m r i).1 = .threw := by
  refine andThen_stuck (m.reads.sticky i hi) fun f i hi => ?_
  unfold writeReport
  split
  · rfl
  · refine andThen_stuck ((m.permissionsText f.permissions).sticky i hi) fun permissions i hi => ?_
    rw [allocGas_stuck (reportText_long e.lang f permissions r) hi]
    rfl

/-- Where gas does not run out, the reads neither throw nor raise a stack fault, and give these fields. -/
def Module.Steady (m : Module) (f : Fields) (permissions : Text) (i : Isolate) : Prop :=
  (m.reads.run i).1 = .outOfGas ∨ ∃ i₁, m.reads.run i = (.ok f, i₁) ∧ i₁.poison = false ∧
    (((m.permissionsText f.permissions).run i₁).1 = .outOfGas ∨
      ∃ i₂, (m.permissionsText f.permissions).run i₁ = (.ok permissions, i₂) ∧ i₂.poison = false)

theorem report_steady (e : Engine) {m : Module} (r : MetaReport) {f : Fields} {permissions : Text} {i : Isolate}
    (h : m.Steady f permissions i) : (report e m r i).1 = .outOfGas ∨
      (report e m r i).1 = .ok (parseReport e.lang f permissions r) := by
  have hgas {α β : Type} {a : Answer α × Isolate} (k : α → Isolate → Answer β × Isolate) (ha : a.1 = .outOfGas) :
      (Answer.andThen a k).1 = .outOfGas := by
    obtain ⟨_, i⟩ := a
    cases ha
    rfl
  unfold report
  obtain h | ⟨i₁, hreads, hi₁, h⟩ := h
  · exact .inl (hgas _ h)
  rw [hreads, Answer.andThen, writeReport, if_neg (by simp [hi₁])]
  obtain h | ⟨i₂, htext, hi₂⟩ := h
  · exact .inl (hgas _ h)
  rw [htext, Answer.andThen, Isolate.allocGas, if_pos (reportText_long _ _ _ _), Isolate.spend]
  rw [if_neg (by simp [hi₂])]
  split
  · exact .inl rfl
  · exact .inr rfl

/-- The fields but for those of `meta`. -/
def verdicts (manifest : Option (Fields × Text × MetaReport)) : Option (Fields × Text) :=
  manifest.map fun report => (report.1, report.2.1)

theorem verdicts_parseReport (lang : Language) (f : Fields) (permissions : Text) (r r' : MetaReport) :
    verdicts (parseReport lang f permissions r) = verdicts (parseReport lang f permissions r') ↔
      ((reportText lang f permissions r).length ≤ RETURN_VALUE_MAX_CHARS ↔
        (reportText lang f permissions r').length ≤ RETURN_VALUE_MAX_CHARS) := by
  unfold parseReport verdicts
  by_cases h : (reportText lang f permissions r).length ≤ RETURN_VALUE_MAX_CHARS <;>
    by_cases h' : (reportText lang f permissions r').length ≤ RETURN_VALUE_MAX_CHARS <;>
    simp [h, h']

/-- What is reported of a module without `meta`. -/
def noMeta : MetaReport := ⟨"undefined", none, false, false⟩

/-- The read succeeds, and the other fields are those of the module without `meta`. -/
def VerdictsKept (e : Engine) (m : Module) (x : Meta) (i : Isolate) : Prop :=
  ∃ manifest i₁ manifest₀ i₀, readManifest e m (some x) i = some (.ok manifest, i₁) ∧
    readManifest e m none i = some (.ok manifest₀, i₀) ∧ verdicts manifest = verdicts manifest₀

theorem verdictsKept_of_reports {e : Engine} {m : Module} {x : Meta} {i : Isolate}
    {a a₀ : Answer (Option (Fields × Text × MetaReport)) × Isolate} {manifest manifest₀ : Option (Fields × Text × MetaReport)}
    (hread : readManifest e m (some x) i = some a) (hread₀ : readManifest e m none i = some a₀)
    (ha : a.1 = .ok manifest) (ha₀ : a₀.1 = .ok manifest₀) :
    VerdictsKept e m x i ↔ verdicts manifest = verdicts manifest₀ := by
  obtain ⟨_, i₁⟩ := a
  obtain ⟨_, i₀⟩ := a₀
  cases ha
  cases ha₀
  constructor
  · rintro ⟨manifest', i₁', manifest₀', i₀', h, h₀, heq⟩
    rw [hread] at h
    rw [hread₀] at h₀
    cases h
    cases h₀
    exact heq
  · exact fun heq => ⟨manifest, i₁, manifest₀, i₀, hread, hread₀, heq⟩

theorem not_verdictsKept_of_threw {e : Engine} {m : Module} {x : Meta} {i : Isolate}
    {a : Answer (Option (Fields × Text × MetaReport)) × Isolate} (hread : readManifest e m (some x) i = some a)
    (ha : a.1 = .threw) : ¬VerdictsKept e m x i := by
  rintro ⟨manifest, i₁, manifest₀, i₀, h, -⟩
  rw [hread] at h
  cases h
  cases ha

/-- The read of `meta` must leave no stack fault behind, and the report must not be cut for its sake. -/
theorem verdictsKept_iff (e : Engine) (m : Module) (x : Meta) {i : Isolate} {f : Fields} {permissions : Text}
    {a a₀ : Answer (Option (Fields × Text × MetaReport)) × Isolate}
    (hread : readManifest e m (some x) i = some a) (hgas : a.1 ≠ .outOfGas)
    (hread₀ : readManifest e m none i = some a₀) (hgas₀ : a₀.1 ≠ .outOfGas)
    (hsteady₀ : i.poison = false → m.Steady f permissions i)
    (hsteady : ∀ r i₁, readMeta e (some x) i = some (.ok r, i₁) → i₁.poison = false → m.Steady f permissions i₁) :
    VerdictsKept e m x i ↔ ∃ r i₁, readMeta e (some x) i = some (.ok r, i₁) ∧ i₁.poison = false ∧
      ((reportText e.lang f permissions r).length ≤ RETURN_VALUE_MAX_CHARS ↔
        (reportText e.lang f permissions noMeta).length ≤ RETURN_VALUE_MAX_CHARS) := by
  obtain ⟨⟨answer, i₁⟩, hmeta, rfl⟩ := Option.map_eq_some_iff.mp hread
  obtain ⟨r, rfl⟩ | rfl := readMeta_cases hmeta
  case inr => exact absurd rfl hgas
  have hfound {r' : MetaReport} {i' : Isolate} (h : readMeta e (some x) i = some (.ok r', i')) : r' = r ∧ i' = i₁ := by
    rw [hmeta] at h
    cases h
    exact ⟨rfl, rfl⟩
  cases hpoison : i₁.poison with
  | true =>
    refine iff_of_false (not_verdictsKept_of_threw hread (report_stuck e m r hpoison)) ?_
    rintro ⟨r', i', hmeta', hpoison', -⟩
    rw [(hfound hmeta').2, hpoison] at hpoison'
    cases hpoison'
  | false =>
    have hclean : i.poison = false := by
      by_contra hfault
      have := poison_readMeta (Bool.not_eq_false _ ▸ hfault) hmeta
      rw [hpoison] at this
      cases this
    have hreport := (report_steady e r (hsteady r i₁ hmeta hpoison)).resolve_left hgas
    obtain rfl : report e m noMeta i = a₀ := Option.some.inj hread₀
    have hreport₀ := (report_steady e noMeta (hsteady₀ hclean)).resolve_left hgas₀
    rw [verdictsKept_of_reports hread hread₀ hreport hreport₀, verdicts_parseReport]
    constructor
    · exact fun hcut => ⟨r, i₁, hmeta, hpoison, hcut⟩
    · rintro ⟨r', i', hmeta', -, hcut⟩
      rwa [(hfound hmeta').1] at hcut

/-- An object in an object, and so on, one level more than may be serialized. -/
def nested : Heap where
  object id :=
    { callable := false, isArray := false, length := 0, keys := if id < 256 then ["a"] else []
      own := fun key => if id < 256 ∧ key = "a" then some (.data (.object (id + 1))) else none
      wrapped := none, plainProto := true, hasToJSON := false }
  bigToJSON := false

def Code.always {α : Type} (a : α) : Code α := ⟨fun i => (.ok a, i), fun _ hi => ⟨nofun, hi⟩⟩

def armed : Engine where
  lang := ⟨fun _ => "0", fun _ => none, fun _ => none⟩
  guarding := .hooks
  nativeDepthLimit := 256
  detectCycles := true
  native _ := .always (some (units "\x7b\x7d"))

def bare : Module where
  reads := .always ⟨none, "undefined", none, "undefined", false⟩
  permissionsText _ := .always (units "null")

def dataMeta (id steps : ℕ) : Meta :=
  ⟨⟨nested, 0, false, false, ⟨[], none⟩, .object id, fun _ => .undefined⟩,
    List.replicate steps ⟨nested, 0, false, false, ⟨[], none⟩, .undefined, fun _ => .undefined⟩⟩

theorem bare_steady {i : Isolate} (hi : i.poison = false) :
    bare.Steady ⟨none, "undefined", none, "undefined", false⟩ (units "null") i :=
  .inr ⟨i, rfl, hi, .inr ⟨i, rfl, hi⟩⟩

/-- A meta that holds nothing. -/
theorem verdictsKept_iff_shallow : VerdictsKept armed bare (dataMeta 256 3) ⟨nested, 200, false⟩ := by
  have hfirst : (readManifest armed bare (some (dataMeta 256 3)) ⟨nested, 200, false⟩).map Prod.fst =
      some (.ok (some (⟨none, "undefined", none, "undefined", false⟩, units "null",
        ⟨"object", some (units "\x7b\x7d"), false, false⟩))) := by decide +kernel
  have hmeta : (readMeta armed (some (dataMeta 256 3)) ⟨nested, 200, false⟩).map (fun a => (a.1, a.2.poison)) =
      some (.ok ⟨"object", some (units "\x7b\x7d"), false, false⟩, false) := by decide +kernel
  have hnone : (readManifest armed bare none ⟨nested, 200, false⟩).map Prod.fst =
      some (.ok (some (⟨none, "undefined", none, "undefined", false⟩, units "null", noMeta))) := by decide +kernel
  obtain ⟨⟨_, i⟩, hread, rfl⟩ := Option.map_eq_some_iff.mp hfirst
  obtain ⟨⟨_, i₀⟩, hread₀, rfl⟩ := Option.map_eq_some_iff.mp hnone
  obtain ⟨⟨_, i₁⟩, hmeta, heq⟩ := Option.map_eq_some_iff.mp hmeta
  obtain ⟨rfl, hpoison⟩ := Prod.mk.inj heq
  exact (verdictsKept_iff armed bare (dataMeta 256 3) hread nofun hread₀ nofun bare_steady
    fun _ _ _ hi => bare_steady hi).mpr ⟨_, i₁, hmeta, hpoison, by decide +kernel⟩

/-- One level more than may be serialized. -/
theorem verdictsKept_nested : (readManifest armed bare none ⟨nested, 10000, false⟩).isSome = true ∧
    ¬VerdictsKept armed bare (dataMeta 0 600) ⟨nested, 10000, false⟩ := by
  have hfirst : (readManifest armed bare (some (dataMeta 0 600)) ⟨nested, 10000, false⟩).map Prod.fst = some .threw := by
    decide +kernel
  obtain ⟨a, hread, hthrew⟩ := Option.map_eq_some_iff.mp hfirst
  exact ⟨rfl, not_verdictsKept_of_threw hread hthrew⟩

end XChainVM.Manifest
