import XChainVM.DepthGuard.Keeps

/-! # The depth fault sticks

The counter is the number of guarded frames that are open, at every point of every run. Once the
guard has been violated, every metered point throws, so that a run can only pass what comes before
the charge of a handler: the binding of its parameter, and the closing of iterators.
-/

namespace XChainVM.DepthGuard

open Code

section

variable {functions : List Fn} {choose : ℕ → ℕ}

/-- Code that begins with a charge does not run once the guard has been violated. -/
theorem stops_charged {fuel frames : ℕ} {rest : Code} {vm : Vm} (hpoison : vm.stackPoison = true) :
    (eval functions choose fuel frames (charged rest) vm).1.stops = true := by
  cases fuel with
  | zero => rfl
  | succ fuel =>
    cases fuel with
    | zero => rfl
    | succ fuel =>
      have hgas : eval functions choose (fuel + 1) frames .gas vm =
          record .gas frames vm (some (stackError vm), vm) := by
        rw [eval, gasFunc, if_pos hpoison]
      rw [charged, eval, hgas]
      rfl

def Completion.ofExpression (c : Completion) : Prop := c = .normal ∨ c.stops = true

theorem ofExpression_andThen {r : Completion × Vm} {k : Vm → Completion × Vm}
    (h : r.1.ofExpression) (hk : ∀ vm, (k vm).1.ofExpression) : (andThen r k).1.ofExpression := by
  unfold andThen
  split
  · exact hk _
  · exact h

theorem ofExpression_record (op : Op) (frames : ℕ) (vm : Vm) (r : Option Thrown × Vm) :
    (record op frames vm r).1.ofExpression := by
  unfold record
  cases r.1 with
  | none => exact .inl rfl
  | some v => exact .inr rfl

theorem ofExpression_endCall (r : Completion × Vm) : (endCall r).1.ofExpression := by
  unfold endCall
  split
  · exact .inl rfl
  · exact .inl rfl
  · rename_i hreturned hjumped
    cases h : r.1 with
    | normal => exact .inl rfl
    | returned => exact absurd h hreturned
    | jumped => exact absurd h hjumped
    | threw v => exact .inr rfl
    | stopped => exact .inr rfl

theorem ofExpression_finish {r : Completion × Vm} {finalizer : Vm → Completion × Vm} (h : r.1.ofExpression)
    (hfinal : ∀ vm, (finalizer vm).1.ofExpression) : (finish r finalizer).1.ofExpression := by
  unfold finish
  split
  · exact h
  · simp only
    split
    · exact h
    · exact hfinal _

theorem ofExpression_closeIterator {r : Completion × Vm} {close : Vm → Completion × Vm} (h : r.1.ofExpression)
    (hclose : ∀ vm, (close vm).1.ofExpression) : (closeIterator r close).1.ofExpression := by
  unfold closeIterator
  split
  · exact ofExpression_finish h (Keeps.dropThrow_ends close)
  · exact ofExpression_finish h hclose

/-- Expressions complete normally, throw, or are cut short. -/
theorem ofExpression_eval {code : Code} (h : code.isExpression = true) (fuel frames : ℕ) (vm : Vm) :
    (eval functions choose fuel frames code vm).1.ofExpression := by
  induction fuel generalizing code vm with
  | zero => exact .inr rfl
  | succ fuel ih =>
    have hwork : ∀ vm, (eval functions choose fuel frames .work vm).1.ofExpression := ih rfl
    have hinvoke : ∀ vm, (invoke functions choose (eval functions choose fuel frames) vm).1.ofExpression := by
      intro vm
      unfold invoke
      split
      · exact ofExpression_endCall _
      · exact hwork _
    cases code with
    | skip => exact .inl rfl
    | work =>
      rw [eval]
      split
      · exact ofExpression_record _ _ _ _
      · exact ofExpression_record _ _ _ _
      · exact ofExpression_andThen (Keeps.dropThrow_ends _ _) hwork
      · exact ofExpression_andThen (ih rfl _) hwork
      · split
        · exact ofExpression_andThen (ofExpression_endCall _) hwork
        · exact .inl rfl
    | allocate size => exact ofExpression_andThen (ofExpression_record _ _ _ _) hwork
    | objectStatic size =>
      exact ofExpression_andThen (hwork _) fun vm => ofExpression_record _ _ _ _
    | replaceError | gas => exact ofExpression_record _ _ _ _
    | seq first rest =>
      simp only [isExpression, Bool.and_eq_true] at h
      exact ofExpression_andThen (ih h.1 _) (ih h.2)
    | either first second =>
      simp only [isExpression, Bool.and_eq_true] at h
      rw [eval]
      split
      · exact ih h.1 _
      · exact ih h.2 _
    | conditional test consequent alternate =>
      simp only [isExpression, Bool.and_eq_true] at h
      refine ofExpression_andThen (ih h.1.1 _) (ih ?_)
      rw [isExpression, h.1.2, h.2]
      rfl
    | call args | construct args =>
      have hargs : args.isExpression = true := h
      exact ofExpression_andThen (ih hargs _) hinvoke
    | arrayPattern elements =>
      have helements : elements.isExpression = true := h
      rw [eval]
      split
      · exact ih helements vm
      · exact ofExpression_closeIterator (ih helements vm) hwork
    | _ => cases h

theorem keeps_activate {frames : ℕ} {vm : Vm} {fn : Fn} {ev : Code → Vm → Completion × Vm}
    (hfn : Metered fn.params ∧ Metered fn.body) (hvm : Sound vm) (hdepth : vm.stackDepth = frames)
    (hev : ∀ {code vm}, Metered code → Sound vm → vm.stackDepth = frames →
      Keeps frames vm (ev code vm)) :
    Keeps frames vm (activate ev fn vm) := by
  have hparams := hev hfn.1 hvm hdepth
  refine (hparams.andThen fun hnormal => ?_).endCall
  exact hev hfn.2 hparams.sound (hparams.depth (by rw [hnormal]; simp))

theorem keeps_invoke {frames : ℕ} {vm : Vm} {ev : Code → Vm → Completion × Vm}
    (hfunctions : ∀ fn ∈ functions, Metered fn.params ∧ Metered fn.body) (hvm : Sound vm)
    (hdepth : vm.stackDepth = frames)
    (hev : ∀ {code vm}, Metered code → Sound vm → vm.stackDepth = frames →
      Keeps frames vm (ev code vm)) :
    Keeps frames vm (invoke functions choose ev vm) := by
  have hasked : Sound (ask choose vm).2 := hvm.choices _
  unfold invoke
  split
  · rename_i fn hfn
    exact (keeps_activate (hfunctions fn (List.mem_of_getElem? hfn)) hasked hdepth hev).asked
  · have hwork : Metered .work := trivial
    exact (hev hwork hasked hdepth).asked

def KeepsWithin (functions : List Fn) (choose : ℕ → ℕ) (fuel : ℕ) : Prop :=
  ∀ {frames : ℕ} {code : Code} {vm : Vm}, Metered code → Sound vm → vm.stackDepth = frames →
    Keeps frames vm (eval functions choose fuel frames code vm)

section Constructors

variable {fuel frames : ℕ} {vm : Vm} (ih : KeepsWithin functions choose fuel)

include ih

theorem KeepsWithin.next {r : Completion × Vm} {code : Code} (hr : Keeps frames vm r) (hcode : Metered code)
    (hnormal : r.1 = .normal) : Keeps frames r.2 (eval functions choose fuel frames code r.2) :=
  ih hcode hr.sound (hr.depth (by rw [hnormal]; simp))

theorem KeepsWithin.andThen {r : Completion × Vm} {code : Code} (hr : Keeps frames vm r) (hcode : Metered code) :
    Keeps frames vm (andThen r (eval functions choose fuel frames code)) :=
  hr.andThen (ih.next hr hcode)

theorem keeps_work (hfunctions : ∀ fn ∈ functions, Metered fn.params ∧ Metered fn.body) (hvm : Sound vm)
    (hdepth : vm.stackDepth = frames) : Keeps frames vm (eval functions choose (fuel + 1) frames .work vm) := by
  have hasked : Sound (ask choose vm).2 := hvm.choices _
  have hwork : Metered .work := trivial
  rw [eval]
  apply Keeps.asked
  split
  · exact .record hasked hdepth (passes_same rfl none _) hdepth
  · exact .record hasked hdepth (passes_same rfl (some .other) _) hdepth
  · exact ih.andThen (.dropThrow (ih hwork (hasked.dropping _) hdepth)) hwork
  · have hpattern : Metered (.arrayPattern .work) := trivial
    exact ih.andThen (ih hpattern hasked hdepth) hwork
  · split
    · rename_i fn hfn
      exact ih.andThen (keeps_activate (hfunctions fn (List.mem_of_getElem? hfn)) hasked hdepth ih) hwork
    · exact .of_completion hasked hdepth rfl

theorem keeps_allocate (size : ℕ) (hvm : Sound vm) (hdepth : vm.stackDepth = frames) :
    Keeps frames vm (eval functions choose (fuel + 1) frames (.allocate size) vm) :=
  ih.andThen (.record hvm hdepth (passes_allocGas size vm) ((stackDepth_allocGas size vm).trans hdepth)) trivial

theorem keeps_objectStatic (size : ℕ) (hvm : Sound vm) (hdepth : vm.stackDepth = frames) :
    Keeps frames vm (eval functions choose (fuel + 1) frames (.objectStatic size) vm) := by
  have hwork : Metered .work := trivial
  have hbuiltin := ih hwork hvm hdepth
  rw [eval]
  refine hbuiltin.andThen fun hnormal => ?_
  have hdepth' := hbuiltin.depth (by rw [hnormal]; simp)
  exact .record hbuiltin.sound hdepth' (passes_objectStatic size _) ((stackDepth_allocGas size _).trans hdepth')

theorem keeps_either {first second : Code} (hcode : Metered (.either first second)) (hvm : Sound vm)
    (hdepth : vm.stackDepth = frames) :
    Keeps frames vm (eval functions choose (fuel + 1) frames (.either first second) vm) := by
  have hpicked : Metered (if (ask choose vm).1 = 0 then first else second) := by
    split
    · exact hcode.1
    · exact hcode.2
  have hasked : Sound (ask choose vm).2 := hvm.choices _
  exact (ih hpicked hasked hdepth).asked

theorem keeps_loop {isFor : Bool} {test update body : Code} (hcode : Metered (.loop isFor test update body))
    (hvm : Sound vm) (hdepth : vm.stackDepth = frames) :
    Keeps frames vm (eval functions choose (fuel + 1) frames (.loop isFor test update body) vm) := by
  have htest := ih hcode.1 hvm hdepth
  have hagain (vm' : Vm) (hvm' : Sound vm') (hdepth' : vm'.stackDepth = frames) : Keeps frames vm'
      (andThen (eval functions choose fuel frames update vm')
        (eval functions choose fuel frames (.loop isFor test update body))) :=
    ih.andThen (ih hcode.2.1 hvm' hdepth') hcode
  rw [eval]
  refine htest.andThen fun hnormal => ?_
  have hdepth' := htest.depth (by rw [hnormal]; simp)
  have hchosen : Sound (ask choose (eval functions choose fuel frames test vm).2).2 := htest.sound.choices _
  apply Keeps.asked
  split
  · exact .of_completion hchosen hdepth' rfl
  · have hbody := ih hcode.2.2 hchosen hdepth'
    dsimp only
    split
    · rename_i hdone
      exact hbody.trans (by rw [hdone]; rfl) (hagain _ hbody.sound (hbody.depth (by rw [hdone]; simp)))
    · refine hbody.catchJump fun choice vm' hvm' hdepth'' => ?_
      split
      · exact hagain vm' hvm' hdepth''
      · exact .of_completion hvm' hdepth'' rfl
      · exact .of_completion hvm' hdepth'' rfl

theorem keeps_forOf {binding body : Code} (hcode : Metered (.forOf binding body)) (hvm : Sound vm)
    (hdepth : vm.stackDepth = frames) :
    Keeps frames vm (eval functions choose (fuel + 1) frames (.forOf binding body) vm) := by
  have hwork : Metered .work := trivial
  have hnext := ih hwork hvm hdepth
  have hclose (vm' : Vm) (hvm' : Sound vm') (hdepth' : vm'.stackDepth = frames) :
      Keeps frames vm' (eval functions choose fuel frames .work vm') := ih hwork hvm' hdepth'
  rw [eval]
  refine hnext.andThen fun hnormal => ?_
  have hdepth' := hnext.depth (by rw [hnormal]; simp)
  have hchosen : Sound (ask choose (eval functions choose fuel frames .work vm).2).2 := hnext.sound.choices _
  apply Keeps.asked
  split
  · exact .of_completion hchosen hdepth' rfl
  · have hbody := ih.andThen (ih hcode.1 hchosen hdepth') hcode.2
    dsimp only
    split
    · rename_i hdone
      exact hbody.trans (by rw [hdone]; rfl) (ih.next hbody hcode hdone)
    · refine hbody.catchJump fun choice vm' hvm' hdepth'' => ?_
      split
      · exact ih hcode hvm' hdepth''
      · exact Keeps.closeIterator (.of_completion hvm' hdepth'' rfl) hclose
      · exact Keeps.closeIterator (.of_completion hvm' hdepth'' rfl) hclose
    · exact hbody.closeIterator hclose

theorem keeps_arrayPattern {elements : Code} (hcode : Metered elements) (hvm : Sound vm)
    (hdepth : vm.stackDepth = frames) :
    Keeps frames vm (eval functions choose (fuel + 1) frames (.arrayPattern elements) vm) := by
  have hwork : Metered .work := trivial
  have helements := (ih hcode hvm hdepth).choices choose
  rw [eval]
  split
  · exact helements
  · exact helements.closeIterator fun vm' hvm' hdepth' => ih hwork hvm' hdepth'

theorem keeps_breakable {body : Code} (hcode : Metered body) (hvm : Sound vm) (hdepth : vm.stackDepth = frames) :
    Keeps frames vm (eval functions choose (fuel + 1) frames (.breakable body) vm) := by
  have hbody := ih hcode hvm hdepth
  rw [eval]
  refine hbody.catchJump fun choice vm' hvm' hdepth' => ?_
  split
  · exact .of_completion hvm' hdepth' rfl
  · exact .of_completion hvm' hdepth' rfl

theorem keeps_calling (hfunctions : ∀ fn ∈ functions, Metered fn.params ∧ Metered fn.body) {args : Code}
    (hcode : Metered args) (hvm : Sound vm) (hdepth : vm.stackDepth = frames) :
    Keeps frames vm (andThen (eval functions choose fuel frames args vm)
      (invoke functions choose (eval functions choose fuel frames))) := by
  have hargs := ih hcode hvm hdepth
  refine hargs.andThen fun hnormal => ?_
  exact keeps_invoke hfunctions hargs.sound (hargs.depth (by rw [hnormal]; simp)) ih

/-- A handler that begins with a charge stops after a violation, as the binding of its parameter ends in order
or throws. -/
theorem keeps_handled {block param rest : Code} (hasHandler : Bool) (hblock : Metered block) (hparam : Metered param)
    (hexpression : param.isExpression = true) (hhandler : Metered (charged rest)) (hvm : Sound vm)
    (hdepth : vm.stackDepth = frames) :
    Keeps frames vm (if hasHandler then
        handle (eval functions choose fuel frames block vm) fun vm =>
          andThen (eval functions choose fuel frames param vm) (eval functions choose fuel frames (charged rest))
      else eval functions choose fuel frames block vm) := by
  have hrun := ih hblock hvm hdepth
  split
  · refine hrun.handle (fun hgoes => ih.andThen (ih hparam hrun.sound (hrun.depth hgoes)) hhandler) ?_
    intro hgoes hpoison
    have hbound : (eval functions choose fuel frames param
        (eval functions choose fuel frames block vm).2).1.ofExpression :=
      ofExpression_eval hexpression fuel frames _
    obtain hnormal | hstops := hbound
    · rw [andThen, hnormal]
      exact stops_charged ((ih hparam hrun.sound (hrun.depth hgoes)).poison hpoison)
    · unfold andThen
      split
      · rename_i hnormal
        rw [hnormal] at hstops
        cases hstops
      · exact hstops
  · exact hrun

theorem keeps_tryStatement {block param handler finalizer : Code} {hasHandler hasFinalizer : Bool}
    (hcode : Metered (.tryStatement block hasHandler param handler hasFinalizer finalizer)) (hvm : Sound vm)
    (hdepth : vm.stackDepth = frames) : Keeps frames vm (eval functions choose (fuel + 1) frames
      (.tryStatement block hasHandler param handler hasFinalizer finalizer) vm) := by
  obtain ⟨hblock, ⟨hparam, hexpression⟩, ⟨hhandler, rest, rfl⟩, hfinalizer, rest', rfl⟩ := hcode
  have hhandled := keeps_handled ih hasHandler hblock hparam hexpression hhandler hvm hdepth
  rw [eval]
  split
  · exact hhandled.finish (fun hgoes => ih hfinalizer hhandled.sound (hhandled.depth hgoes))
      fun _ _ hpoison => .inr (stops_charged hpoison)
  · exact hhandled

end Constructors

/-- What every piece of metered code keeps. -/
theorem keeps_eval (hfunctions : ∀ fn ∈ functions, Metered fn.params ∧ Metered fn.body) (fuel : ℕ) :
    KeepsWithin functions choose fuel := by
  induction fuel with
  | zero =>
    intro frames code vm _ hvm _
    exact ⟨fun h => absurd rfl h, hvm, List.suffix_rfl, rfl, id, fun hclean hpoison => by simp_all,
      fun _ _ _ => rfl, nofun⟩
  | succ fuel ih =>
    intro frames code vm hcode hvm hdepth
    cases code with
    | skip | returnStatement | jump => exact .of_completion hvm hdepth rfl
    | work => exact keeps_work ih hfunctions hvm hdepth
    | allocate size => exact keeps_allocate ih size hvm hdepth
    | objectStatic size => exact keeps_objectStatic ih size hvm hdepth
    | replaceError => exact .record hvm hdepth (passes_replaceError vm) hdepth
    | throwStatement => exact .record hvm hdepth (passes_same rfl (some .other) vm) hdepth
    | gas => exact .record hvm hdepth (passes_gasFunc .gas 1 vm) ((stackDepth_gasFunc 1 vm).trans hdepth)
    | depthEnter | depthExit => exact hcode.elim
    | guarded body => exact .guarded hvm hdepth fun vm' hvm' hdepth' => ih hcode hvm' hdepth'
    | seq first rest => exact ih.andThen (ih hcode.1 hvm hdepth) hcode.2
    | either first second => exact keeps_either ih hcode hvm hdepth
    | conditional test consequent alternate => exact ih.andThen (ih hcode.1 hvm hdepth) hcode.2
    | ifStatement consequent hasAlternate alternate =>
      refine ih ⟨hcode.1, ?_⟩ hvm hdepth
      split
      · exact hcode.2
      · trivial
    | loop isFor test update body => exact keeps_loop ih hcode hvm hdepth
    | forOf binding body => exact keeps_forOf ih hcode hvm hdepth
    | arrayPattern elements => exact keeps_arrayPattern ih hcode hvm hdepth
    | breakable body => exact keeps_breakable ih hcode hvm hdepth
    | call args | construct args => exact keeps_calling ih hfunctions hcode hvm hdepth
    | tryStatement block hasHandler param handler hasFinalizer finalizer =>
      exact keeps_tryStatement ih hcode hvm hdepth

end

theorem metered_functions {c : Contract} (h : c.isSource = true) :
    ∀ fn ∈ c.functions.map meterFunction, Metered fn.params ∧ Metered fn.body := by
  intro fn hfn
  obtain ⟨source, hsource, rfl⟩ := List.mem_map.mp hfn
  rw [Contract.isSource, Bool.and_eq_true, List.all_eq_true] at h
  have hboth := (Bool.and_eq_true _ _).mp (h.2 source hsource)
  exact metered_meterFunction hboth.1 hboth.2

theorem keeps_run {c : Contract} (h : c.isSource = true) (choose : ℕ → ℕ) (fuel limit ceiling : ℕ) :
    Keeps 0 (Vm.start limit ceiling) (run c choose fuel limit ceiling) := by
  have hfunctions := metered_functions h
  rw [Contract.isSource, Bool.and_eq_true] at h
  have heval : Keeps 0 (Vm.start limit ceiling) (eval (c.functions.map meterFunction) choose fuel 0
      (charged (meter c.script)) (Vm.start limit ceiling)) :=
    keeps_eval hfunctions fuel (metered_charged (metered_meter h.1)) (sound_start limit ceiling) rfl
  have hscript := heval.endCall
  refine hscript.andThen fun hnormal => ?_
  have hrest : Metered (.seq (.construct .skip) .work) := ⟨trivial, trivial⟩
  exact keeps_eval hfunctions fuel hrest hscript.sound (hscript.depth (by rw [hnormal]; simp))

/-- At every point of every run the counter is the number of open guarded frames. Where the run
passes clean points only, every metered point after a violation throws the fault, which reaches the
contract, and so does the run, unless the host ends it. -/
theorem depth_guard_sticky (c : Contract) (hsource : c.isSource = true) (choose : ℕ → ℕ)
    (fuel limit ceiling : ℕ) :
    let r := run c choose fuel limit ceiling
    (∀ p ∈ r.2.trace, p.depth = p.frames) ∧
    (Clean r.2.trace →
      r.2.trace.Pairwise (fun later earlier => earlier.violated = true →
        (later.op.metered = true → later.threw = some .fault) ∧ later.op.swallows = false) ∧
      ((∃ p ∈ r.2.trace, p.violated = true) → r.1 = .threw .fault ∨ r.1 = .stopped)) := by
  intro r
  have hkeeps := keeps_run hsource choose fuel limit ceiling
  refine ⟨hkeeps.sound.counted, fun hclean => ⟨?_, ?_⟩⟩
  · refine hkeeps.sound.sticky.imp_of_mem ?_
    rintro later earlier hlater - hpoisoned hviolated
    have hpoison := hpoisoned hviolated
    refine ⟨fun hmetered => ?_, (hclean later hlater).charges hpoison⟩
    exact hkeeps.sound.throws later hlater hpoison hmetered ((hclean later hlater).intact (.inl hpoison))
  · rintro ⟨p, hp, hviolated⟩
    have hpoison := hkeeps.sound.raised p hp hviolated
    have hstops := hkeeps.stops rfl hpoison hclean
    cases hdone : r.1 with
    | threw v => exact .inl (by rw [hkeeps.fault hpoison hclean v hdone])
    | stopped => exact .inr rfl
    | normal | returned | jumped =>
      rw [show (run c choose fuel limit ceiling).1 = r.1 from rfl, hdone] at hstops
      cases hstops

/-- `f = () => { try { f(); } catch (<pattern>) {} }`, its pattern an operation that may throw. -/
def catchingContract : Contract where
  functions := [⟨.skip, .tryStatement (.call .skip) true .work .skip false .skip⟩]
  script := .skip

theorem depth_guard_sticky_caught :
    (run catchingContract (fun _ => 0) 40 2 1000).1 = .threw .fault := by
  have hends := ((depth_guard_sticky catchingContract (by decide) (fun _ => 0) 40 2 1000).2
    (by decide +kernel)).2 (by decide +kernel)
  exact hends.resolve_right (by decide +kernel)

/-- Binding the pattern of a catch clause throws another error in place of the fault. -/
theorem pattern_replaces_fault :
    let r := run catchingContract (fun n => if n < 3 then 0 else 1) 40 2 1000
    catchingContract.isSource = true ∧ (∃ p ∈ r.2.trace, p.violated = true) ∧ r.1 = .threw .other := by
  refine ⟨by decide, by decide +kernel, by decide +kernel⟩

/-- `for (const x of it) throw Error('boom')`, where `it.return` runs into the depth limit. -/
def closingContract : Contract where
  functions := [⟨.skip, .call .skip⟩]
  script := .forOf .skip .throwStatement

/-- The iterator yields a value, and its `return` is the function. -/
def closingChoices : ℕ → ℕ
  | 1 => 1
  | 2 => 4
  | _ => 0

/-- The fault of `return` is dropped. -/
example :
    let r := run closingContract closingChoices 8 1 1000
    (r.2.trace.any fun p => p.violated && p.dropping) = true ∧ r.1 = .threw .other := ⟨rfl, rfl⟩

end XChainVM.DepthGuard
