import XChainVM.Harness.Wrappers

/-! # A wrapper as a probe, a charge and the builtin

Every wrapper first learns a size from its receiver or its argument, charges for
it, and only then lets the builtin read. So whether a call is paid is a question
about the builtin alone, which starts with what the probe has charged.
-/

namespace XChainVM.Harness

open Js Machine

variable {σ : Type} (w : World σ) (lang : Language) (fuel : ℕ)

/-- The units `__allocGas` charges for a size; nothing was charged where no size showed. -/
def worth : Option Number → ℕ
  | some x => if exceeds x 1 then billed x else 0
  | none => 0

def sizedProbe (v : Val) : Act σ (Option Number) := do
  if ← sizedBy w v .length then return some (← w.toNumber (← w.read v .length))
  else if ← sizedBy w v .size then return some (← w.toNumber (← w.read v .size))
  else return none

def Call.probe : Call → Act σ (Option Number)
  | .fill this _ => do
    let n ← if this.isNullish then pure (.number (.finite 0)) else w.read this .length
    return some (← w.toNumber n)
  | .arrayFrom args => sizedProbe w (arg args 0)
  | .repeatText this args => do
    let c ← w.toNumber (arg args 0)
    if exceeds c 0 then return some (times c (← w.toText lang this)) else return none
  | .pad _ args => some <$> w.toNumber (arg args 0)
  | .arrayBuffer args =>
    match arg args 0 with
    | .prim (.number n) => pure (some n)
    | _ => pure none
  | .typedArray bytesPerElement args =>
    match arg args 0 with
    | .prim (.number n) => pure (some (times n bytesPerElement))
    | a => Option.map (times · bytesPerElement) <$> sizedProbe w a
  | .collection _ args => sizedProbe w (arg args 0)

def allocSize : Option Number → Act σ Unit
  | some x => allocNumber x
  | none => pure ()

def Call.builtin (fuel : ℕ) : Call → Option Number → Act σ Unit
  | .fill this args, _ => do
    forward w args
    fillNative w this args
  | .arrayFrom args, size => do
    forward w args
    let length ← fromNative w fuel args
    if size.isNone then allocNumber (.finite length) else pure ()
  | .repeatText this args, _ => do
    forward w args
    repeatNative w lang this args
  | .pad this args, size => do
    forward w (withNumber args (size.getD .nan))
    padNative w lang this (withNumber args (size.getD .nan))
  | .arrayBuffer args, _ => do
    arrayBufferNative w (← spreadArguments w args)
  | .typedArray bytesPerElement args, size => do
    let iterable ← if size.isNone then iterableBy w (arg args 0) else pure false
    let length ← typedArrayNative w fuel bytesPerElement (← spreadArguments w args)
    if iterable then allocRealized (fun n => times (.finite n) bytesPerElement) length else pure ()
  | .collection entries args, size => do
    let iterable ← if size.isNone then iterableBy w (arg args 0) else pure false
    let size ← collectionNative w fuel entries (← spreadArguments w args)
    if iterable then allocRealized (fun n => .finite n) size else pure ()

theorem bind_ite_last {α β : Type} (m : Act σ α) (f : α → Act σ β) (g : β → Act σ Unit) (b : Bool) :
    (m >>= fun x => f x >>= fun y => if b then g y else pure ()) =
      if b then m >>= fun x => f x >>= g else m >>= fun x => (fun _ => ()) <$> f x := by
  cases b <;> simp

theorem sizedProbe_bind {α : Type} (v : Val) (f : Option Number → Act σ α) :
    sizedProbe w v >>= f = (do
      if ← sizedBy w v .length then f (some (← w.toNumber (← w.read v .length)))
      else if ← sizedBy w v .size then f (some (← w.toNumber (← w.read v .size)))
      else f none) := by
  simp only [sizedProbe, bind_assoc]
  congr 1
  funext hasLength
  split
  · simp
  · simp only [bind_assoc]
    congr 1
    funext hasSize
    split <;> simp

theorem Call.run_eq (call : Call) : call.run w lang fuel = (do
    let size ← call.probe w lang
    allocSize size
    call.builtin w lang fuel size) := by
  cases call with
  | fill this args =>
    by_cases h : this.isNullish <;>
      simp [Call.run, Call.probe, Call.builtin, Harness.fill, allocGas, allocSize, h]
  | arrayFrom args =>
    simp [Call.run, Call.probe, Call.builtin, Harness.arrayFrom, allocGas, allocSize, sizedProbe_bind]
  | repeatText this args =>
    simp only [Call.run, Call.probe, Call.builtin, Harness.repeatText, bind_assoc]
    congr 1
    funext c
    split <;> simp [allocSize]
  | pad this args => simp [Call.run, Call.probe, Call.builtin, Harness.pad, allocSize]
  | arrayBuffer args =>
    simp only [Call.run, Call.probe, Call.builtin, Harness.arrayBuffer]
    cases arg args 0 with
    | object source => simp [allocSize]
    | prim p => cases p <;> simp [allocSize]
  | typedArray bytesPerElement args =>
    simp only [Call.run, Call.probe, Call.builtin, Harness.typedArray]
    cases arg args 0 with
    | object source => simp [allocSize, sizedProbe_bind, allocBytes, bind_ite_last]
    | prim p =>
      cases p with
      | number n => simp [allocSize]
      | _ => simp [allocSize, sizedProbe_bind, allocBytes, bind_ite_last]
  | collection entries args =>
    simp [Call.run, Call.probe, Call.builtin, Harness.collection, allocGas, allocSize, sizedProbe_bind,
      bind_ite_last]

theorem quiet_allocNumber (x : Number) : Act.Quiet (allocNumber x : Act σ Unit) := by
  unfold allocNumber gas
  split
  · exact Act.quiet_charge _
  · exact Act.quiet_pure _

theorem quiet_forward (args : List Val) : Act.Quiet (forward w args) := by
  apply (quiet_ask _).bind
  intro _
  split
  · exact Act.quiet_charge _
  · exact Act.quiet_pure _

theorem allocSize_apply (size : Option Number) (s : σ) :
    ∃ t, (allocSize size : Act σ Unit) s = (t, some ((), s)) ∧ NoAlloc t ∧ charged t = worth size := by
  cases size with
  | none => exact ⟨[], rfl, noAlloc_nil, rfl⟩
  | some x =>
    unfold allocSize allocNumber worth gas
    by_cases h : exceeds x 1
    · exact ⟨[.charge (billed x)], by simp [h, Act.charge], noAlloc_charge _, by simp [h, Entry.charged]⟩
    · exact ⟨[], by simp [h, pure, Act.pure], noAlloc_nil, by simp [h]⟩

theorem quiet_sizedBy (v : Val) (key : Key) : Act.Quiet (sizedBy w v key) := by
  unfold sizedBy
  split
  · exact (w.quiet_read v key).map _
  · exact Act.quiet_pure _

theorem quiet_sizedProbe (v : Val) : Act.Quiet (sizedProbe w v) := by
  apply (quiet_sizedBy w v .length).bind
  intro hasLength
  split
  · apply (w.quiet_read v .length).bind
    intro n
    exact (w.quiet_toNumber n).bind fun _ => Act.quiet_pure _
  · apply (quiet_sizedBy w v .size).bind
    intro hasSize
    split
    · apply (w.quiet_read v .size).bind
      intro n
      exact (w.quiet_toNumber n).bind fun _ => Act.quiet_pure _
    · exact Act.quiet_pure _

theorem Call.quiet_probe (call : Call) : Act.Quiet (call.probe w lang) := by
  cases call with
  | fill this args =>
    have hlast (n : Val) : Act.Quiet (do return some (← w.toNumber n)) :=
      (w.quiet_toNumber n).bind fun _ => Act.quiet_pure _
    simp only [Call.probe]
    split
    · exact (Act.quiet_pure _).bind hlast
    · exact (w.quiet_read this .length).bind hlast
  | arrayFrom args => exact quiet_sizedProbe w _
  | repeatText this args =>
    apply (w.quiet_toNumber _).bind
    intro c
    split
    · exact (w.quiet_toText lang this).bind fun _ => Act.quiet_pure _
    · exact Act.quiet_pure _
  | pad this args => exact (w.quiet_toNumber _).map _
  | arrayBuffer args =>
    simp only [Call.probe]
    split <;> exact Act.quiet_pure _
  | typedArray bytesPerElement args =>
    simp only [Call.probe]
    split
    · exact Act.quiet_pure _
    · exact (quiet_sizedProbe w _).map _
  | collection entries args => exact quiet_sizedProbe w _

/-- A call is paid when its builtin is, from what the probe brought in. -/
theorem Call.paid_run_iff (call : Call) (s : σ) : Paid (call.run w lang fuel s).1 ↔
    ∀ size s', (call.probe w lang s).2 = some (size, s') →
      PaidFrom (charged (call.probe w lang s).1 + worth size) 0 (call.builtin w lang fuel size s').1 := by
  rw [call.run_eq, paid_iff_paidFrom, (call.quiet_probe w lang).paidFrom_bind (Nat.zero_le _)]
  refine forall_congr' fun size => forall_congr' fun s' => imp_congr_right fun _ => ?_
  obtain ⟨t, heq, hquiet, hworth⟩ := allocSize_apply size s'
  rw [Act.bind_some heq, hquiet.paidFrom_append (Nat.zero_le _), hworth, Nat.zero_add]

end XChainVM.Harness
