import XChainVM.Harness.ConfirmedSizes
import XChainVM.Harness.GuardLoop
import XChainVM.Harness.SortLoops

/-! # Wrappers pay for their own loops

The other loops, and the calls of which the loops end and are paid.
-/

namespace XChainVM.Harness

open Js Machine

variable {σ : Type} {α : Type} (w : LoopWorld σ) (lang : Language)

def AtLeast (bound : ℕ) : Number → Prop
  | .finite q => bound ≤ q
  | .infinity negative => negative = false
  | .nan => False

def CountsOne (a : Val) : Prop :=
  ∀ s, ∃ t x s', argumentLength w a s = (t, some (.number x, s')) ∧ AtLeast 1 x

theorem AtLeast.numberSum {m k : ℕ} {x y : Number} (hx : AtLeast m x) (hy : AtLeast k y) :
    AtLeast (m + k) (numberSum x y) := by
  cases x with
  | nan => exact hx.elim
  | infinity negative =>
    cases hx
    cases y with
    | nan => exact hy.elim
    | infinity negative =>
      cases hy
      rfl
    | finite q => rfl
  | finite p =>
    cases y with
    | nan => exact hy.elim
    | infinity negative =>
      cases hy
      rfl
    | finite q =>
      change ((m + k : ℕ) : ℚ) ≤ p + q
      push_cast
      exact add_le_add hx hy

theorem AtLeast.le_worth {m : ℕ} {x : Number} (h : AtLeast m x) (hm : m ≤ MAX_SAFE_INTEGER) :
    m ≤ worth (some x) + 1 := by
  cases x with
  | nan => exact h.elim
  | infinity negative =>
    cases h
    change m ≤ MAX_SAFE_INTEGER + 1
    omega
  | finite q => exact le_worth_finite h

theorem quiet_argumentLength (a : Val) : Act.Quiet (argumentLength w a) := by
  refine (quiet_sizedBy w.toWorld a .length).bind fun b => ?_
  split
  · exact w.quiet_read a .length
  · exact Act.quiet_pure _

theorem quiet_primSum (p q : Prim) : Act.Quiet (primSum w lang p q) := by
  unfold primSum
  split
  · split
    · exact Act.quiet_pure _
    · exact Act.quiet_throw
  · split
    · exact Act.quiet_pure _
    · exact (w.quiet_primToNumber _).bind fun _ => (w.quiet_primToNumber _).bind fun _ => Act.quiet_pure _

theorem quiet_toPrim (v : Val) : Act.Quiet (toPrim w v) := by
  cases v with
  | prim p => exact Act.quiet_pure _
  | object id => exact quiet_ask _

theorem quiet_plus (a b : Val) : Act.Quiet (plus w lang a b) :=
  (quiet_toPrim w a).bind fun _ => (quiet_toPrim w b).bind fun _ => (quiet_primSum w lang _ _).bind fun _ =>
    Act.quiet_pure _

theorem addLengths_rounds (n : Val) (args : List Val) : Rounds args.length (addLengths w lang n args) := by
  induction args generalizing n with
  | nil => exact rounds_of_quiet (Act.quiet_pure _) 0
  | cons a rest ih =>
    refine rounds_iterate.bind (fun _ => ?_) (Nat.add_comm _ _).le
    refine Rounds.quiet_bind (quiet_argumentLength w a) fun length => ?_
    exact Rounds.quiet_bind (quiet_plus w lang n length) ih

theorem addLengths_counts {args : List Val} (hargs : ∀ a ∈ args, CountsOne w a) {m : ℕ} {x : Number}
    (hx : AtLeast m x) (s : σ) : ∃ t x' s', addLengths w lang (.number x) args s = (t, some (.number x', s')) ∧
      AtLeast (m + args.length) x' := by
  induction args generalizing m x s with
  | nil => exact ⟨[], x, s, rfl, hx⟩
  | cons a rest ih =>
    obtain ⟨t, y, s', hlength, hy⟩ := hargs a List.mem_cons_self s
    obtain ⟨t', x', s'', hrest, hx'⟩ := ih (fun b hb => hargs b (List.mem_cons_of_mem _ hb)) (hx.numberSum hy) s'
    have hplus : plus w lang (.number x) (.number y) s' = ([], some (.number (numberSum x y), s')) := rfl
    refine ⟨.alloc 1 :: (t ++ ([] ++ t')), x', s'', ?_, ?_⟩
    · rw [addLengths, Act.bind_some (show iterate s = ([.alloc 1], some ((), s)) from rfl), Act.bind_some hlength,
        Act.bind_some hplus, hrest]
      rfl
    · rw [List.length_cons, Nat.add_comm rest.length, ← Nat.add_assoc]
      exact hx'

def Summable : Val → Prop
  | .object _ | .prim .symbol | .prim (.bigint _) => False
  | .prim _ => True

theorem primToNumber_summable {p : Prim} (h : Summable (.prim p)) (s : σ) :
    ∃ x, w.primToNumber p s = ([], some (x, s)) := by
  cases p with
  | symbol => exact h.elim
  | bigint z => exact h.elim
  | _ => exact ⟨_, rfl⟩

theorem primText_summable {p : Prim} (h : Summable (.prim p)) : ∃ text, primText lang p = some text := by
  cases p with
  | symbol => exact h.elim
  | _ => exact ⟨_, rfl⟩

theorem plus_summable {a b : Val} (ha : Summable a) (hb : Summable b) (s : σ) :
    ∃ v, plus w lang a b s = ([], some (v, s)) ∧ Summable v := by
  cases a with
  | object id => exact ha.elim
  | prim p =>
    cases b with
    | object id => exact hb.elim
    | prim q =>
      suffices hsum : ∃ r, primSum w lang p q s = ([], some (r, s)) ∧ Summable (.prim r) by
        obtain ⟨r, hr, hsummable⟩ := hsum
        refine ⟨.prim r, ?_, hsummable⟩
        have hprims : plus w lang (.prim p) (.prim q) = primSum w lang p q >>= fun r => pure (.prim r) := rfl
        rw [hprims, Act.bind_some hr]
        rfl
      obtain ⟨x, hx⟩ := primToNumber_summable w ha s
      obtain ⟨y, hy⟩ := primToNumber_summable w hb s
      obtain ⟨text, htext⟩ := primText_summable lang ha
      obtain ⟨text', htext'⟩ := primText_summable lang hb
      unfold primSum
      split
      · rw [htext, htext']
        exact ⟨_, rfl, trivial⟩
      · split
        · exact ha.elim
        · rw [Act.bind_some hx, Act.bind_some hy]
          exact ⟨_, rfl, trivial⟩

theorem allocGas_summable {v : Val} (h : Summable v) (s : σ) :
    ∃ t, allocGas w.toWorld v s = (t, some ((), s)) := by
  cases v with
  | object id => exact h.elim
  | prim p =>
    obtain ⟨x, hx⟩ := primToNumber_summable w h s
    obtain ⟨t, ht, -⟩ := allocSize_apply (some x) s
    refine ⟨t, ?_⟩
    have hunfold : allocGas w.toWorld (.prim p) = w.primToNumber p >>= allocNumber := rfl
    rw [hunfold, Act.bind_some hx, List.nil_append]
    exact ht

def Measurable (a : Val) : Prop := ∀ s, ∃ t v s', argumentLength w a s = (t, some (v, s')) ∧ Summable v

theorem addLengths_summable {args : List Val} (hargs : ∀ a ∈ args, Measurable w a) {n : Val} (hn : Summable n) (s : σ) :
    ∃ t v s', addLengths w lang n args s = (t, some (v, s')) ∧ Summable v := by
  induction args generalizing n s with
  | nil => exact ⟨[], n, s, rfl, hn⟩
  | cons a rest ih =>
    obtain ⟨t, v, s', hlength, hv⟩ := hargs a List.mem_cons_self s
    obtain ⟨sum, hplus, hsum⟩ := plus_summable w lang hn hv s'
    obtain ⟨t', v', s'', hrest, hv'⟩ := ih (fun b hb => hargs b (List.mem_cons_of_mem _ hb)) hsum s'
    refine ⟨.alloc 1 :: (t ++ ([] ++ t')), v', s'', ?_, hv'⟩
    rw [addLengths, Act.bind_some (show iterate s = ([.alloc 1], some ((), s)) from rfl), Act.bind_some hlength,
      Act.bind_some hplus, hrest]
    rfl

/-- Once the measure has been taken and charged, the arguments fit the stack. -/
def Fit (measure : Act σ Unit) (args : List Val) (s : σ) : Prop :=
  ∀ s', (measure s).2 = some ((), s') → (w.reserve s' args.length).outcome ≠ none

/-- Passing the arguments on is charged by their number. -/
theorem length_le_charged_delegate {args : List Val} {s : σ} (h : (w.reserve s args.length).outcome ≠ none) :
    args.length ≤ GROW_THRESHOLD + charged (delegate w args s).1 := by
  by_cases hlong : GROW_THRESHOLD < args.length
  · obtain ⟨⟨u, s'⟩, hreserve⟩ := Option.ne_none_iff_exists'.mp h
    have hask : ask (fun s => w.reserve s args.length) s = ([.charge (w.reserve s args.length).units], some (u, s')) := by
      rw [ask, hreserve]
    have hforward : forward w.toWorld args s =
        ([.charge (w.reserve s args.length).units, .charge args.length], some ((), s')) := by
      rw [forward, Act.bind_some hask, if_pos hlong]
      rfl
    rw [delegate, Act.bind_some hforward, charged_append]
    simp only [charged_cons, Entry.charged]
    omega
  · omega

/-- A loop over the arguments is paid where they are passed on. -/
theorem pays_of_fit {measure : Act σ Unit} {args : List Val} {s : σ} (hrounds : Rounds args.length measure)
    (hanswers : (measure s).2 ≠ none) (hfit : Fit w measure args s) :
    PaysForLoops LOOP_BOUND (fun _ => measure >>= fun _ => delegate w args) s := by
  refine ⟨⟨0, Concludes.bind (fun _ => concludes_delegate w args) s⟩, fun _ _ => ?_⟩
  have hle := hrounds s
  rcases hmeasure : measure s with ⟨t, _ | ⟨u, s'⟩⟩
  · exact absurd (by rw [hmeasure]) hanswers
  · have hcharged := length_le_charged_delegate w (hfit s' (by rw [hmeasure]))
    rw [hmeasure] at hle
    rw [Act.bind_some hmeasure, iterations, allocated_append, charged_append, (quiet_delegate w args s').allocated_eq,
      LOOP_BOUND]
    rw [GROW_THRESHOLD] at hcharged
    dsimp only at hle
    omega

/-- The concatenations of which each argument is paid: by the lengths, or where the arguments are
passed on. -/
def ConcatCovered (this : Val) (args : List Val) (s : σ) : Prop :=
  args.length ≤ 1024 ∨
  (args.length ≤ MAX_SAFE_INTEGER ∧ (∀ a ∈ args, CountsOne w a) ∧
    ∀ n s', (lengthOrZero w this s).2 = some (n, s') → ∃ x, n = .number x ∧ AtLeast 0 x) ∨
  ((∀ a ∈ args, Measurable w a) ∧ ∀ n s', (lengthOrZero w this s).2 = some (n, s') →
    Summable n ∧ Fit w (addLengths w lang n args >>= allocGas w.toWorld) args s')

theorem repays_allocGas {x : Number} {args : List Val} {debt bound : ℕ} (hdebt : debt ≤ bound + worth (some x)) :
    Repays debt bound (allocGas w.toWorld (.number x) >>= fun _ => delegate w args) := by
  have hunfold : (allocGas w.toWorld (.number x) >>= fun _ => delegate w args) =
      (allocNumber x >>= fun _ => delegate w args) := rfl
  rw [hunfold]
  exact repays_allocNumber hdebt fun debt hdebt => repays_delegate w args hdebt

theorem concat_pays {this : Val} {args : List Val} {s : σ} (h : ConcatCovered w lang this args s) :
    PaysForLoops LOOP_BOUND (fun _ => concat w lang this args) s := by
  refine .quiet_bind (quiet_lengthOrZero w this) fun n s' hn => ?_
  have hends : Concludes (addLengths w lang n args >>= fun n => allocGas w.toWorld n >>= fun _ => delegate w args) :=
    Concludes.bind fun _ => Concludes.bind fun _ => concludes_delegate w args
  rcases h with hfew | ⟨hmax, hargs, hreceiver⟩ | ⟨hargs, hreceiver⟩
  · refine .of_repays ⟨0, hends⟩ (fun _ => ?_) s'
    refine Repays.of_bounded (addLengths_rounds w lang n args) (by rw [LOOP_BOUND]; omega) ?_
    intro n debt hdebt
    exact repays_quiet_bind (quiet_allocGas w n) hdebt fun _ => repays_delegate w args hdebt
  · refine .of_repays ⟨0, hends⟩ (fun _ => ?_) s'
    obtain ⟨x, rfl, hx⟩ := hreceiver n s' hn
    refine Repays.bind (fun s hs => ?_) fun s n s' hs => ⟨args.length, ?_, ?_⟩
    · obtain ⟨t, x', s', heq, -⟩ := addLengths_counts w lang hargs hx s
      rw [heq] at hs
      cases hs
    · obtain ⟨t, x', s'', heq, hx'⟩ := addLengths_counts w lang hargs hx s
      rw [heq] at hs
      cases hs
      rw [Nat.zero_add] at hx'
      have := hx'.le_worth hmax
      exact repays_allocGas w (by rw [LOOP_BOUND]; omega)
    · have := addLengths_rounds w lang (.number x) args s
      omega
  · obtain ⟨hsummable, hfit⟩ := hreceiver n s' hn
    obtain ⟨t, v, s₁, hlengths, hv⟩ := addLengths_summable w lang hargs hsummable s'
    obtain ⟨t', hcharge⟩ := allocGas_summable w hv s₁
    have hrounds : Rounds args.length (addLengths w lang n args >>= allocGas w.toWorld) :=
      (addLengths_rounds w lang n args).bind (fun v => rounds_of_quiet (quiet_allocGas w v) 0) le_rfl
    have hanswers : ((addLengths w lang n args >>= allocGas w.toWorld) s').2 ≠ none := by
      rw [Act.bind_some hlengths, hcharge]
      simp
    simpa only [bind_assoc] using pays_of_fit w hrounds hanswers hfit

theorem addTexts_eq (n : ℕ) (args : List Val) (s : σ) :
    addTexts n args s = (args.map fun _ => .alloc 1, some (n + (args.map textArgument).sum, s)) := by
  induction args generalizing n with
  | nil => rfl
  | cons a rest ih =>
    rw [addTexts, Act.bind_some (show iterate s = ([.alloc 1], some ((), s)) from rfl), ih, List.map_cons,
      List.map_cons, List.sum_cons, Nat.add_assoc]
    rfl

/-- Each argument adds at least one, but for the empty texts. -/
theorem length_le_sum_textArgument (args : List Val) :
    args.length ≤ (args.map textArgument).sum + args.countP (textArgument · = 0) := by
  induction args with
  | nil => exact le_rfl
  | cons a rest ih =>
    rw [List.map_cons, List.sum_cons, List.length_cons, List.countP_cons]
    by_cases ha : textArgument a = 0
    · simp only [ha, decide_true, if_true]
      omega
    · simp only [ha, decide_false, Bool.false_eq_true, if_false]
      omega

def ConcatTextCovered (this : Val) (args : List Val) (s : σ) : Prop :=
  args.countP (textArgument · = 0) ≤ 1024 ∨
  ∀ n s', (w.toText lang this s).2 = some (n, s') → (w.reserve s' args.length).outcome ≠ none

theorem concatText_pays {this : Val} {args : List Val} {s : σ} (h : ConcatTextCovered w lang this args s) :
    PaysForLoops LOOP_BOUND (fun _ => concatText w lang this args) s := by
  refine .quiet_bind (w.quiet_toText lang this) fun n s' hn => ?_
  have hends : Concludes (addTexts n args >>= fun n => allocNumber (.finite n) >>= fun _ => delegate w args) :=
    Concludes.bind fun _ => Concludes.bind fun _ => concludes_delegate w args
  have hrounds (s : σ) : allocated (addTexts n args s).1 = args.length := by
    simp [addTexts_eq, allocated, Entry.allocated]
  rcases h with hfew | hroom
  · refine .of_repays ⟨0, hends⟩ (fun _ => ?_) s'
    refine Repays.bind (fun s hs => ?_) fun s total s' hs => ⟨args.length, ?_, ?_⟩
    · rw [addTexts_eq] at hs
      cases hs
    · rw [addTexts_eq] at hs
      cases hs
      refine repays_allocNumber ?_ fun debt hdebt => repays_delegate w args hdebt
      have hsum := length_le_sum_textArgument args
      have hworth := le_worth_finite (le_refl ((n + (args.map textArgument).sum : ℕ) : ℚ))
      rw [LOOP_BOUND]
      omega
    · rw [hrounds]
      omega
  · obtain ⟨t, hcharge, -⟩ := allocSize_apply (some (.finite ((n + (args.map textArgument).sum : ℕ) : ℚ))) s'
    have hmeasure : (addTexts n args >>= fun n => allocNumber (.finite n)) s' =
        ((args.map fun _ => Entry.alloc 1) ++ t, some ((), s')) := by
      rw [Act.bind_some (addTexts_eq n args s')]
      exact congrArg (fun r => ((args.map fun _ => Entry.alloc 1) ++ r.1, r.2)) hcharge
    have hfit : Fit w (addTexts n args >>= fun n => allocNumber (.finite n)) args s' := by
      intro s'' hs
      rw [hmeasure] at hs
      cases hs
      exact hroom n s' hn
    have hbounded : Rounds args.length (addTexts n args >>= fun n => (allocNumber (.finite n) : Act σ Unit)) :=
      Rounds.bind (fun s => (hrounds s).le) (fun v => rounds_of_quiet (quiet_allocNumber _) 0) le_rfl
    simpa only [bind_assoc] using pays_of_fit w hbounded (by rw [hmeasure]; simp) hfit

theorem rawSegments_rounds (literals : Val) (args : List Val) (left i length : ℕ) :
    Rounds left (rawSegments w lang literals args left i length) := by
  induction left generalizing i length with
  | zero => exact rounds_of_quiet (Act.quiet_pure _) 0
  | succ left ih =>
    refine rounds_iterate.bind (fun _ => ?_) (Nat.add_comm _ _).le
    refine Rounds.quiet_bind (quiet_ask _) fun segment => ?_
    refine Rounds.quiet_bind (w.quiet_toText lang segment) fun segmentLength => ?_
    split
    · exact rounds_of_quiet (Act.quiet_pure _) _
    · split
      · exact Rounds.quiet_bind (w.quiet_toText lang _) fun substitution => ih _ _
      · exact ih _ _

theorem concludes_done : Concludes (pure (some ()) : Act σ (Option Unit)) := fun s s' h => by cases h

theorem concludes_raw (args : List Val) : Concludes (raw w lang args) := by
  unfold raw
  split
  · exact concludes_delegate w args
  · refine Concludes.bind fun literals => ?_
    split
    · exact concludes_delegate w args
    · refine Concludes.bind fun count => ?_
      split
      · exact concludes_done
      · exact Concludes.bind fun _ => Concludes.bind fun _ => Concludes.bind fun _ => concludes_done

/-- The count is charged before the segments are walked. -/
theorem repays_raw (args : List Val) : Repays 0 LOOP_BOUND (raw w lang args) := by
  have hdone (bound : ℕ) : Repays 0 bound (pure (some ()) : Act σ (Option Unit)) :=
    repays_of_quiet (Act.quiet_pure _) (Nat.zero_le _)
  unfold raw
  split
  · exact repays_delegate w args (Nat.zero_le _)
  · refine repays_quiet_bind (quiet_ask _) (Nat.zero_le _) fun literals => ?_
    split
    · exact repays_delegate w args (Nat.zero_le _)
    · refine repays_quiet_bind (w.quiet_lengthOf literals) (Nat.zero_le _) fun count => ?_
      split
      · exact hdone _
      · have hcharged (s : σ) (a : Unit) (s' : σ) (_ : (allocNumber (.finite count) s).2 = some (a, s')) :
            worth (some (.finite count)) ≤ charged (allocNumber (.finite count) s).1 := by
          obtain ⟨t, heq, -, hworth⟩ := allocSize_apply (some (.finite count)) s
          rw [allocSize] at heq
          rw [heq]
          exact hworth.ge
        refine Repays.credit (fun s => (quiet_allocNumber _ s).allocated_eq) hcharged (Nat.zero_le _) fun _ => ?_
        have hworth := le_worth_finite (le_refl (count : ℚ))
        refine Repays.of_bounded (rawSegments_rounds w lang literals args count 0 0) (by rw [LOOP_BOUND]; omega) ?_
        intro length debt hdebt
        exact repays_quiet_bind (quiet_allocNumber _) hdebt fun _ => repays_of_quiet (Act.quiet_pure _) hdebt

theorem copyElements_rounds (a : Val) (left i : ℕ) : Rounds left (copyElements w a left i) := by
  induction left generalizing i with
  | zero => exact rounds_of_quiet (Act.quiet_pure _) 0
  | succ left ih =>
    exact rounds_iterate.bind (fun _ => Rounds.quiet_bind (quiet_ask _) fun _ => ih (i + 1)) (Nat.add_comm _ _).le

theorem quiet_nativeApply : Act.Quiet (nativeApply w) := (quiet_ask _).bind fun _ => Act.quiet_pure _

theorem quiet_reserveArguments (n : ℕ) : Act.Quiet (reserveArguments w n) := by
  refine (quiet_ask _).bind fun _ => ?_
  split
  · exact Act.quiet_charge n
  · exact Act.quiet_pure _

/-- A long list is charged. -/
theorem charged_reserveArguments {n : ℕ} {s s' : σ} {a : Unit} (h : (reserveArguments w n s).2 = some (a, s')) :
    n - GROW_THRESHOLD ≤ charged (reserveArguments w n s).1 := by
  by_cases hn : GROW_THRESHOLD < n
  · rcases hreserve : (w.reserve s n).outcome with _ | ⟨u, s''⟩
    · have hask : ask (fun s => w.reserve s n) s = ([.charge (w.reserve s n).units], none) := by rw [ask, hreserve]
      rw [reserveArguments, Act.bind_none hask] at h
      cases h
    · have hask : ask (fun s => w.reserve s n) s = ([.charge (w.reserve s n).units], some (u, s'')) := by
        rw [ask, hreserve]
      rw [reserveArguments, Act.bind_some hask, if_pos hn, charged_append]
      change _ ≤ _ + (n + 0)
      omega
  · omega

theorem concludes_nativeApply : Concludes (nativeApply w) := Concludes.bind fun _ => concludes_done

theorem concludes_apply (this args : Val) : Concludes (apply w this args) := by
  refine Concludes.bind fun isFunction => ?_
  split
  · cases args with
    | prim p =>
      dsimp only
      split
      · exact Concludes.bind fun _ => concludes_nativeApply w
      · exact concludes_nativeApply w
    | object id =>
      refine Concludes.bind fun isArray => ?_
      split
      · exact Concludes.bind fun _ => Concludes.bind fun _ => concludes_nativeApply w
      · exact Concludes.bind fun _ => Concludes.bind fun _ => Concludes.bind fun _ => concludes_nativeApply w
  · exact concludes_nativeApply w

theorem repays_apply (this args : Val) : Repays 0 LOOP_BOUND (apply w this args) := by
  have hNative (bound debt : ℕ) (h : debt ≤ bound) : Repays debt bound (nativeApply w) :=
    repays_of_quiet (quiet_nativeApply w) h
  refine repays_quiet_bind (quiet_callable w this) (Nat.zero_le _) fun isFunction => ?_
  split
  · cases args with
    | prim p =>
      dsimp only
      split
      · exact repays_quiet_bind (quiet_reserveArguments w 0) (Nat.zero_le _) fun _ => hNative _ _ (Nat.zero_le _)
      · exact hNative _ _ (Nat.zero_le _)
    | object id =>
      refine repays_quiet_bind (quiet_look _) (Nat.zero_le _) fun isArray => ?_
      split
      · refine repays_quiet_bind (quiet_look _) (Nat.zero_le _) fun n => ?_
        exact repays_quiet_bind (quiet_reserveArguments w n) (Nat.zero_le _) fun _ => hNative _ _ (Nat.zero_le _)
      · refine repays_quiet_bind (w.quiet_lengthOf _) (Nat.zero_le _) fun n => ?_
        refine Repays.credit (fun s => (quiet_reserveArguments w n s).allocated_eq)
          (fun s a s' hs => charged_reserveArguments w hs) (Nat.zero_le _) fun _ => ?_
        refine Repays.of_bounded (copyElements_rounds w (.object id) n 0) ?_ fun _ debt hdebt => hNative _ _ hdebt
        simp only [LOOP_BOUND, GROW_THRESHOLD]
        omega
  · exact hNative _ _ (Nat.zero_le _)

/-- What a wrapper measures is what its loops walk: a sort with the default comparison has a
length that converts to one number, counted exactly and, when it is long, of readable
elements; a concatenation has few arguments, or such as count, or such as can be measured and
passed on; the depth guard meets own keys that can be read. -/
def LoopCall.Covered (s : σ) : LoopCall → Prop
  | .sort this args => SortCovered w this args s
  | .concat this args => ConcatCovered w lang this args s
  | .concatText this args => ConcatTextCovered w lang this args s
  | .guardNativeDepth root => Tame w root
  | .typedSort _ _ | .raw _ | .apply _ _ => True

def lengthWorld (length : Number) : LoopWorld Unit where
  toWorld := { plainWorld with get := fun s _ key => ⟨0, some (if key = .length then .number length else .undefined, s)⟩ }
  element s _ _ := ⟨0, some (.undefined, s)⟩
  rawStrings s _ := ⟨0, some (.undefined, s)⟩
  toDefault s _ := ⟨0, some (.undefined, s)⟩
  isArray _ _ := false
  arrayLength _ _ := 0
  keys _ _ := []
  isPresent _ _ _ := false
  hasOwn _ _ _ := false
  property s _ _ := ⟨0, some (.undefined, s)⟩
  native s := ⟨0, some ((), s)⟩

/-- No round of the scan is the last when the length is infinite. -/
theorem scan_infinite (fuel i bytes : ℕ) (s : Unit) :
    (scan (lengthWorld (.infinity false)) (.object 0) (.number (.infinity false)) fuel i bytes s).2 = some (none, ()) := by
  induction fuel generalizing i bytes with
  | zero => rfl
  | succ fuel ih => exact ih _ _

end XChainVM.Harness
