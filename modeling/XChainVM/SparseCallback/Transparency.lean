import XChainVM.SparseCallback.Beside

/-! # The probe does not show

From every world a metered method runs as the builtin does and is charged for the length the builtin
read. The probe is gone before any code of the contract runs.
-/

namespace XChainVM.SparseCallback

open Harness Js Machine Cut

variable {σ τ α β γ : Type}

def allocNotes (n : ℕ) : List (Note Request) := if 1 < n then [.charge n] else []

def forwardNotes (args : List Val) : List (Note Request) :=
  if GROW_THRESHOLD < args.length then [.charge args.length] else []

theorem forward_apply (args : List Val) (s : τ) : forward args s = (forwardNotes args, .ok (), s) := by
  rw [forward, forwardNotes]
  split <;> rfl

theorem chargeLength_apply (n : ℕ) (s : τ) : Program.chargeLength n s = (allocNotes n, .ok (), s) := by
  rw [Program.chargeLength, allocNotes]
  split <;> rfl

theorem toLength_le (x : Number) : toLength x ≤ MAX_SAFE_INTEGER := by
  rw [toLength]
  split
  · exact min_le_right _ _
  · split
    · exact Nat.zero_le _
    · exact le_rfl

theorem toLength_natCast {n : ℕ} (h : n ≤ MAX_SAFE_INTEGER) : toLength (.finite n) = n := by
  have hfloor : (n : ℚ).floor = n := by rw [← Int.cast_natCast, Rat.floor_intCast]
  rw [toLength, toIntegerOrInfinity, if_pos (Nat.cast_nonneg n), hfloor]
  simpa using h

namespace Program

variable (p : Program σ) (enter : Request → Run (World σ) Val)

theorem allocGas_apply (n : ℕ) (s : World σ) :
    p.allocGas enter (.number (.finite n)) s = (allocNotes n, .ok (), s) := by
  have hexceeds : exceeds (.finite (n : ℚ)) 1 = decide (1 < n) := by
    unfold exceeds
    exact decide_eq_decide.mpr Nat.one_lt_cast
  rw [allocGas, Eff.bind_ok (rfl : p.toNumber enter (.number (.finite n)) s = ([], .ok (.finite n), s)), hexceeds,
    allocNotes]
  simp only [decide_eq_true_eq, List.nil_append]
  split
  · next hmany =>
    rw [billed, if_pos (by exact_mod_cast hmany.le), ← Int.cast_natCast, Rat.floor_intCast, Int.toNat_natCast]
    rfl
  · rfl

/-- The contract put no other function in place of `call` and `floor`. -/
structure KeepsBuiltins : Prop where
  call : ∀ f this args, p.callMember f this args = .call f this args
  floor : ∀ n, p.floorMember n = none

def lengthNumber (o : ℕ) : Run (World σ) Number := do
  let v ← p.get enter o "length"
  p.toNumber enter v

theorem priced_object (m : Method) (o : ℕ) (args : List Val) :
    p.priced enter m (.object o) args = (do
      forward args
      let x ← p.lengthNumber enter o
      ending (visit enter (.scan m o (toLength x) args)) (chargeLength (toLength x))) := by
  simp [priced, toObject, lengthNumber]

theorem builtin_object (m : Method) (o : ℕ) (args : List Val) :
    p.builtin enter m (.object o) args = (do
      let x ← p.lengthNumber enter o
      visit enter (.scan m o (toLength x) args)) := by
  simp [builtin, toObject, lengthNumber]

variable {p}

theorem toSparseLength_eq (hkeeps : p.KeepsBuiltins) (v : Val) : p.toSparseLength enter v = (do
    let x ← p.toNumber enter v
    pure (.number (.finite (toLength x)))) := by
  rw [toSparseLength]
  refine bind_congr fun x => ?_
  cases x with
  | nan => rfl
  | infinity negative => cases negative <;> rfl
  | finite q =>
    dsimp only
    rw [floor, hkeeps.floor, toLength, toIntegerOrInfinity]
    dsimp only
    split
    · next hpos =>
      have hfloor : 0 ≤ q.floor := Rat.le_floor_iff.mpr (by exact_mod_cast hpos.le)
      rw [if_pos hpos.le]
      split
      · next hlt =>
        have hbelow : q.floor < (MAX_SAFE_INTEGER : ℤ) := Rat.floor_lt_iff.mpr (by exact_mod_cast hlt)
        rw [min_eq_left (by omega), ← Int.cast_natCast, Int.toNat_of_nonneg hfloor]
      · next hge =>
        have habove : (MAX_SAFE_INTEGER : ℤ) ≤ q.floor := Rat.le_floor_iff.mpr (by exact_mod_cast not_lt.mp hge)
        rw [min_eq_right (by omega)]
        rfl
    · next hnonpos =>
      have hnone : (if 0 ≤ q then q.floor else -(-q).floor).toNat = 0 := by
        split
        · next hzero =>
          obtain rfl : q = 0 := le_antisymm (not_lt.mp hnonpos) hzero
          rfl
        · next hneg =>
          have hfloor : 0 ≤ (-q).floor := Rat.le_floor_iff.mpr (by push_cast; linarith)
          omega
      rw [hnone]
      rfl

variable (p) {s : World σ} {r : ℕ}

theorem get_data {key : String} {v : Val} {w e c : Bool} (h : s.objects.find r key = some (.data v w e c)) :
    p.get enter r key s = ([], .ok v, s) := by
  rw [get, Eff.state_bind_apply, h]
  rfl

theorem get_unreadable {key : String} {set : Option Handle} {e c : Bool}
    (h : s.objects.find r key = some (.accessor none set e c)) :
    p.get enter r key s = ([], .ok .undefined, s) := by
  rw [get, Eff.state_bind_apply, h]
  rfl

variable {p}

theorem lengthNumber_plain {x : Number} (h : p.plainLength s.objects r = some x) :
    p.lengthNumber enter r s = ([], .ok x, s) := by
  rw [plainLength] at h
  rw [lengthNumber]
  split at h
  · next hfind =>
    rw [Eff.bind_ok (p.get_data enter hfind)]
    simp [toNumber, primToNumber, h, Eff.pure_apply]
  · next hfind =>
    cases h
    rw [Eff.bind_ok (p.get_unreadable enter hfind)]
    rfl
  · cases h

/-- A simple value converts to a number or throws, and no code runs. -/
theorem lengthNumber_simple (h : (s.objects.find r "length").any Desc.isSimple = true) :
    p.lengthNumber enter r s =
      ([], (p.plainLength s.objects r).elim (.error (some .typeError)) .ok, s) := by
  rcases hfind : s.objects.find r "length" with _ | d <;> rw [hfind] at h
  · cases h
  cases d with
  | accessor get set e c => cases h
  | data v w e c =>
    cases v with
    | object o => cases h
    | prim v =>
      rw [plainLength, hfind, lengthNumber, Eff.bind_ok (p.get_data enter hfind), List.nil_append]
      simp only [toNumber, primToNumber]
      cases p.number? v <;> rfl

def shown (x : Option Number) : Val := x.elim maxLength fun x => .number (.finite (toLength x))

theorem readPlain_simple (hkeeps : p.KeepsBuiltins) (h : (s.objects.find r "length").any Desc.isSimple = true) :
    p.readPlain enter r s = ([], .ok (shown (p.plainLength s.objects r)), s) := by
  have hread : p.readPlain enter r =
      attempt (p.lengthNumber enter r >>= fun x => pure (.number (.finite (toLength x)))) (pure maxLength) := by
    simp only [readPlain, lengthNumber, toSparseLength_eq enter hkeeps, bind_assoc]
  have hlength := lengthNumber_simple (p := p) enter h
  rw [hread, attempt]
  rcases hx : p.plainLength s.objects r with _ | x <;> rw [hx] at hlength
  · rw [resume_of (a := .error .typeError) (Eff.bind_error hlength)]
    rfl
  · rw [resume_of (a := .ok (.number (.finite (toLength x)))) (Eff.bind_ok hlength)]
    rfl

theorem plainLength_of_lacksGetter (h : (s.objects.find r "length").any Desc.lacksGetter = true) :
    p.plainLength s.objects r = some .nan := by
  rcases hfind : s.objects.find r "length" with _ | d <;> rw [hfind] at h
  · cases h
  · cases d with
    | data v w e c => cases h
    | accessor get set e c =>
      cases get with
      | none => rw [plainLength, hfind]
      | some f => cases h

theorem plainLength_eq_none (hsimple : (s.objects.find r "length").any Desc.isSimple = false)
    (hgetter : (s.objects.find r "length").any Desc.lacksGetter = false) :
    p.plainLength s.objects r = none := by
  rcases hfind : s.objects.find r "length" with _ | d <;> rw [hfind] at hsimple hgetter
  · rw [plainLength, hfind]
  · cases d with
    | data v w e c =>
      cases v with
      | prim v => simp [Desc.isSimple, Val.isObject] at hsimple
      | object o => rw [plainLength, hfind]
    | accessor get set e c =>
      cases get with
      | none => simp [Desc.lacksGetter] at hgetter
      | some f => rw [plainLength, hfind]

theorem fixedLength_of_own (hown : (s.objects.getOwn r "length").isSome = true)
    (hfixed : (s.objects.find r "length").any (!·.configurable) = true) :
    fixedLength s.objects r = true := by
  obtain ⟨d, hd⟩ := Option.isSome_iff_exists.mp hown
  rw [Objects.find_of_own hd] at hfixed
  rw [fixedLength, hd]
  exact hfixed

theorem define_probe (objects : Objects Handle) (o i : ℕ) (desc : Option (Desc Handle)) (ownsLength : Bool) :
    objects.define o "length" (probeDesc i desc ownsLength) =
      if fixedLength objects o then none
      else some (objects.putOwn o "length" (probeDesc i desc ownsLength)) := by
  have hprobe : (probeDesc i desc ownsLength).configurable = true := rfl
  rw [Objects.define, fixedLength]
  rcases objects.getOwn o "length" with _ | d
  · cases h : (objects o).extensible <;> simp
  · cases h : d.configurable <;> simp [Desc.admits_configurable hprobe, h]

end Program

namespace World

def nextProbe (s : World σ) (r : ℕ) : Probe :=
  ⟨r, s.objects.find r "length", (s.objects.getOwn r "length").isSome, .number (.finite 0), true⟩

def probed (s : World σ) (r : ℕ) : World σ where
  objects := s.objects.putOwn r "length"
    (Program.probeDesc s.probes.length (s.nextProbe r).desc (s.nextProbe r).ownsLength)
  rest := s.rest
  probes := s.probes ++ [s.nextProbe r]

def restored (s : World σ) (r : ℕ) : World σ :=
  { s with probes := s.probes ++ [{ s.nextProbe r with installed := false }] }

end World

theorem modify_last {α : Type} (l l' : List α) (a : α) (f : α → α) :
    (l ++ a :: l').modify l.length f = l ++ f a :: l' := by
  induction l with
  | nil => rfl
  | cons b l ih => exact congrArg (b :: ·) ih

theorem restore_probed (s : World σ) (r : ℕ) :
    restore s.probes.length (s.probed r) = ([], .ok (), s.restored r) := by
  have hprobe : (Program.probeDesc s.probes.length (s.nextProbe r).desc
    (s.nextProbe r).ownsLength).configurable = true := rfl
  have hentry : (s.probed r).probes[s.probes.length]? = some (s.nextProbe r) := List.getElem?_concat_length
  have hset : setProbe s.probes.length ({ · with installed := false }) (s.probed r) =
      ([], .ok (), { s.probed r with probes := (s.restored r).probes }) := by
    unfold setProbe World.probed World.restored
    dsimp only
    rw [modify_last]
  rw [restore, Eff.state_bind_apply, hentry]
  dsimp only
  rw [if_neg (Bool.not_eq_true _ ▸ rfl), Eff.bind_ok hset, List.nil_append]
  rcases hown : s.objects.getOwn r "length" with _ | d
  · have howns : (s.nextProbe r).ownsLength = false := by rw [World.nextProbe, hown, Option.isSome_none]
    have hdelete : (s.probed r).objects.delete (s.nextProbe r).receiver "length" = s.objects :=
      Objects.delete_putOwn hprobe hown
    rw [howns, if_neg Bool.false_ne_true, hdelete]
    rfl
  · have howns : (s.nextProbe r).ownsLength = true := by rw [World.nextProbe, hown, Option.isSome_some]
    have hdesc : (s.nextProbe r).desc = some d := Objects.find_of_own hown
    have hdefine : (s.probed r).objects.define (s.nextProbe r).receiver "length" d = some s.objects :=
      Objects.define_putOwn hprobe hown
    rw [howns, if_pos rfl, hdesc, Option.bind_some, hdefine]
    rfl

namespace Program

variable {p : Program σ} (enter : Request → Run (World σ) Val) {s : World σ} {r : ℕ}

/-- The value that the probe stands for is the length that the contract would find. -/
theorem valueOf_eq_get (hkeeps : p.KeepsBuiltins) (hfree : s.Free)
    (hgetter : (s.objects.find r "length").any Desc.lacksGetter = false)
    (beneath : Handle → Val → List Val → Run (World σ) Val) :
    p.valueOf enter beneath { s.nextProbe r with installed := false } (s.restored r) =
      p.get enter r "length" (s.restored r) := by
  have hfind : (s.restored r).objects.find r "length" = s.objects.find r "length" := rfl
  rw [get, Eff.state_bind_apply, hfind, valueOf, World.nextProbe]
  dsimp only
  cases hdesc : s.objects.find r "length" with
  | none => rfl
  | some d =>
    rw [hdesc] at hgetter
    cases d with
    | data v w e c => rfl
    | accessor get set e c =>
      rcases get with _ | f
      · cases hgetter
      · obtain ⟨hcontract, -⟩ := find_isContract hfree hdesc
        cases f with
        | contract f =>
          dsimp only
          rw [invoke_contract, callOn, hkeeps.call]
        | read i => cases hcontract
        | write i => cases hcontract

def setAmount (i n : ℕ) : Run (World σ) Unit := setProbe i ({ · with n := .number (.finite n) })

/-- The getter of the probe takes the probe away and reads the length the contract has. -/
theorem read_probed (hkeeps : p.KeepsBuiltins) (hfree : s.Free)
    (hgetter : (s.objects.find r "length").any Desc.lacksGetter = false)
    (beneath : Handle → Val → List Val → Run (World σ) Val) :
    p.read enter beneath s.probes.length (s.probed r) = (do
      let x ← p.lengthNumber enter r
      setAmount s.probes.length (toLength x)
      pure (Val.number (.finite (toLength x)))) (s.restored r) := by
  have hentry : (s.restored r).probes[s.probes.length]? = some { s.nextProbe r with installed := false } :=
    List.getElem?_concat_length
  rw [read, Eff.bind_ok (restore_probed s r), List.nil_append, Eff.state_bind_apply, hentry]
  dsimp only
  have hvalue := valueOf_eq_get enter hkeeps hfree hgetter beneath
  rcases hget : p.get enter r "length" (s.restored r) with ⟨l, e | v, t⟩
  · rw [lengthNumber, bind_assoc, Eff.bind_error hget]
    exact Eff.bind_error (hvalue.trans hget)
  · rw [lengthNumber, bind_assoc, Eff.bind_ok hget]
    refine (Eff.bind_ok (hvalue.trans hget)).trans ?_
    rw [toSparseLength_eq enter hkeeps, bind_assoc]
    rfl

theorem get_probed : p.get enter r "length" (s.probed r) =
    p.read enter (p.invoke enter s.probes.length) s.probes.length (s.probed r) := by
  have hfind : (s.probed r).objects.find r "length" =
      some (probeDesc s.probes.length (s.nextProbe r).desc (s.nextProbe r).ownsLength) := Objects.find_putOwn
  have hlength : (s.probed r).probes.length = s.probes.length + 1 := by
    rw [World.probed, List.length_append, List.length_singleton]
  rw [get, Eff.state_bind_apply, hfind, hlength]
  rfl

theorem builtin_probed (hkeeps : p.KeepsBuiltins) (hfree : s.Free)
    (hgetter : (s.objects.find r "length").any Desc.lacksGetter = false) (m : Method) (args : List Val) :
    p.builtin enter m (.object r) args (s.probed r) = (do
      let x ← p.lengthNumber enter r
      setAmount s.probes.length (toLength x)
      visit enter (.scan m r (toLength x) args)) (s.restored r) := by
  have hread : p.get enter r "length" (s.probed r) = _ :=
    (get_probed enter).trans (read_probed enter hkeeps hfree hgetter (p.invoke enter s.probes.length))
  have hbuiltin : p.builtin enter m (.object r) args = (do
      let v ← p.get enter r "length"
      let x ← p.toNumber enter v
      visit enter (.scan m r (toLength x) args)) := by
    simp [builtin, toObject]
  rw [hbuiltin]
  rcases hlength : p.lengthNumber enter r (s.restored r) with ⟨l, e | x, t⟩
  · rw [Eff.bind_error hlength] at hread ⊢
    rw [Eff.bind_error hread]
  · rw [Eff.bind_ok hlength, Eff.bind_ok (rfl : setAmount s.probes.length (toLength x) t = _)] at hread
    rw [Eff.bind_ok hlength, Eff.bind_ok (rfl : setAmount s.probes.length (toLength x) t = _), Eff.bind_ok hread]
    have hnumber : p.toNumber enter (.number (.finite (toLength x))) = pure (.finite (toLength x)) := rfl
    rw [hnumber, pure_bind, toLength_natCast (toLength_le x)]
    simp only [Eff.pure_apply, List.nil_append, List.append_nil]

theorem restore_gone {i : ℕ} {q : Probe} (hentry : s.probes[i]? = some q) (hgone : q.installed = false) :
    restore i s = ([], .ok (), s) := by
  rw [restore, Eff.state_bind_apply, hentry]
  dsimp only
  rw [hgone]
  rfl

/-- A probe that is gone charges the amount it read. -/
theorem settle_gone {i n : ℕ} {q : Probe} (hentry : s.probes[i]? = some q) (hgone : q.installed = false)
    (hn : q.n = .number (.finite n)) : p.settle enter (.installed i) s = (allocNotes n, .ok (), s) := by
  rw [settle, Eff.state_bind_apply, hentry]
  dsimp only
  rw [hgone, if_neg Bool.false_ne_true, ending, resume_ok (restore_gone hentry hgone), hn,
    Eff.bind_ok (p.allocGas_apply enter n s)]
  simp [Eff.pure_apply]

variable {enter} {enter' : Request → Run (World σ) Val} {see : Note Request → Option γ} {s' : World σ}

theorem simulates_lengthNumber (henter : ∀ r, Simulates see (enter r) (enter' r)) (o : ℕ) :
    Simulates see (p.lengthNumber enter o) (p.lengthNumber enter' o) :=
  (p.simulates_get henter o _).bind fun v => p.simulates_toNumber henter v

/-- What is charged in the end is the amount that was read. -/
theorem alike_settled (p : Program σ) (enter : Request → Run (World σ) Val) {m m' : Run (World σ) α} {i n : ℕ}
    {q : Probe} (h : Alike see s (m s) (m' s')) (hentry : s.probes[i]? = some q) (hgone : q.installed = false) (hn : q.n = .number (.finite n)) :
    Alike see s (ending m (p.settle enter (.installed i)) s) (ending m' (chargeLength n) s') := by
  refine h.resume fun a t t' hheap hfree hkept => ?_
  have hlater : t.probes[i]? = some q := by
    obtain ⟨more, hmore⟩ := hkept
    rw [← hmore, List.getElem?_append_left (List.getElem?_eq_some_iff.mp hentry).1, hentry]
  rw [Eff.bind_ok (settle_gone enter hlater hgone hn), Eff.bind_ok (chargeLength_apply n t')]
  exact ⟨rfl, rfl, hheap, hfree, hkept⟩

/-- The call under way, from where the probe is in place. -/
theorem alike_probed (henter : ∀ r, Simulates see (enter r) (enter' r)) (hkeeps : p.KeepsBuiltins)
    (hheap : s.toHeap = s'.toHeap) (hfree : s.Free)
    (hgetter : (s.objects.find r "length").any Desc.lacksGetter = false) (m : Method) (args : List Val) :
    Alike see s (ending (p.builtin enter m (.object r) args) (p.settle enter (.installed s.probes.length)) (s.probed r))
      ((do
        let x ← p.lengthNumber enter' r
        ending (visit enter' (.scan m r (toLength x) args)) (chargeLength (toLength x))) s') := by
  have hstart (n : Run (World σ) Unit) : ending (p.builtin enter m (.object r) args) n (s.probed r) = ending (do
      let x ← p.lengthNumber enter r
      setAmount s.probes.length (toLength x)
      visit enter (.scan m r (toLength x) args)) n (s.restored r) := by
    simp only [ending, resume, builtin_probed enter hkeeps hfree hgetter]
  have hlength := simulates_lengthNumber (p := p) henter r (s.restored r) s' hheap hfree
  have hprefix : s.probes <+: (s.restored r).probes := List.prefix_append _ _
  rw [hstart]
  rcases hx : p.lengthNumber enter r (s.restored r) with ⟨l, e | x, t⟩ <;>
    rcases hx' : p.lengthNumber enter' r s' with ⟨l', e' | x', t'⟩ <;> rw [hx, hx'] at hlength
  case error.ok => cases hlength.answer
  case ok.error => cases hlength.answer
  all_goals
    obtain ⟨more, hmore⟩ := hlength.kept
    have hprobes : t.probes = s.probes ++ { s.nextProbe r with installed := false } :: more := by
      rw [← hmore, World.restored, List.append_assoc, List.singleton_append]
  case error.error =>
    have hentry : t.probes[s.probes.length]? = some { s.nextProbe r with installed := false } := by
      rw [hprobes, List.getElem?_append_right le_rfl, Nat.sub_self]
      rfl
    rw [ending_idle (Eff.bind_error hx) (settle_gone enter hentry rfl (n := 0) rfl), Eff.bind_error hx,
      Eff.bind_error hx']
    obtain ⟨hlog, hanswer, hheap', hfree', hkept⟩ := hlength
    cases hanswer
    exact ⟨hlog, rfl, hheap', hfree', hprefix.trans hkept⟩
  case ok.ok =>
    obtain ⟨hlog, hanswer, hheap', hfree', -⟩ := hlength
    cases hanswer
    let amount : Probe := { s.nextProbe r with n := .number (.finite (toLength x)), installed := false }
    let read : World σ := { t with probes := s.probes ++ amount :: more }
    have hset : setAmount s.probes.length (toLength x) t = ([], .ok (), read) := by
      rw [setAmount, setProbe, hprobes, modify_last]
    have hentry : read.probes[s.probes.length]? = some amount := by
      rw [List.getElem?_append_right le_rfl, Nat.sub_self]
      rfl
    have hvisit := simulates_visit henter (.scan m r (toLength x) args) read t' hheap' hfree'
    have hsettled := (alike_settled p enter hvisit hentry rfl rfl).mono (List.prefix_append s.probes _)
    rw [ending_bind hx, Eff.bind_ok hx, ending_bind hset, Eff.bind_ok hset, Eff.bind_ok hx', List.nil_append]
    exact .append hlog hsettled

/-- What the probe comes to. It runs no code of the contract. -/
theorem probe_apply (hkeeps : p.KeepsBuiltins) (s : World σ) (r : ℕ) : p.sparseLengthProbe enter r s =
    if fixedLength s.objects r || (s.objects.find r "length").any Desc.lacksGetter then
      ([], .ok (.fixed (shown (p.plainLength s.objects r))), s)
    else ([], .ok (.installed s.probes.length), s.probed r) := by
  rw [sparseLengthProbe, Eff.state_bind_apply]
  simp only [define_probe]
  split
  · next hown =>
    simp only [Bool.and_eq_true] at hown
    rw [Eff.bind_ok (readPlain_simple enter hkeeps hown.1.1), fixedLength_of_own hown.1.2 hown.2]
    rfl
  · split
    · next hgetter =>
      rw [hgetter, plainLength_of_lacksGetter hgetter, Bool.or_true]
      rfl
    · next hgetter =>
      simp only [Bool.not_eq_true] at hgetter
      rw [hgetter, Bool.or_false]
      cases hfixed : fixedLength s.objects r
      · rfl
      · simp only [if_true]
        split
        · next hsimple =>
          rw [Eff.bind_ok (readPlain_simple enter hkeeps hsimple)]
          rfl
        · next hsimple =>
          rw [plainLength_eq_none (Bool.not_eq_true _ ▸ hsimple) hgetter]
          rfl

theorem sloppyThis_eq {this : Val} (h : this.isNullish = false) : p.sloppyThis this = p.toObject this := by
  cases this with
  | object o => rfl
  | prim v => cases v <;> first | rfl | cases h

theorem simulates_builtin (henter : ∀ r, Simulates see (enter r) (enter' r)) (m : Method) (o : ℕ) (args : List Val) :
    Simulates see (p.builtin enter m (.object o) args) (p.builtin enter' m (.object o) args) := by
  rw [builtin_object, builtin_object]
  exact (simulates_lengthNumber henter o).bind fun x => simulates_visit henter _

theorem simulates_forward (args : List Val) : Simulates see (forward args : Run (World σ) Unit) (forward args) :=
  .of_stateless (forward_apply args)

theorem simulates_allocGas (n : ℕ) : Simulates see (p.allocGas enter (.number (.finite n))) (chargeLength n) := by
  intro s s' hheap hfree
  rw [p.allocGas_apply enter, chargeLength_apply]
  exact ⟨rfl, rfl, hheap, hfree, List.prefix_rfl⟩

/-- A call that puts no probe in place. -/
theorem simulates_fixed (henter : ∀ r, Simulates see (enter r) (enter' r)) (m : Method) (o n : ℕ) (args : List Val) :
    Simulates see (ending (do
        forward args
        p.builtin enter m (.object o) args) (p.settle enter (.fixed (.number (.finite n)))))
      (ending (do
        forward args
        p.builtin enter' m (.object o) args) (chargeLength n)) :=
  ((simulates_forward args).bind fun _ => simulates_builtin henter m o args).ending (simulates_allocGas n)

/-- A length that shows without running code is the length the builtin reads. -/
theorem ending_plain {x : Number} (h : p.plainLength s.objects r = some x) (m : Method) (args : List Val) :
    ending (do
      forward args
      p.builtin enter m (.object r) args)
      (chargeLength (toLength x)) s = p.priced enter m (.object r) args s := by
  have hlength := lengthNumber_plain enter h
  rw [builtin_object, priced_object, ending_bind (forward_apply args s), Eff.bind_ok (forward_apply args s),
    Eff.bind_ok (forward_apply args s), ending_bind hlength, Eff.bind_ok hlength, Eff.bind_ok hlength]

/-- A metered call is the call of the builtin, charged for the length it read unless that is out of sight. -/
theorem simulates_metered (henter : ∀ r, Simulates see (enter r) (enter' r)) (hkeeps : p.KeepsBuiltins) (m : Method)
    {this : Val} (hthis : this.isNullish = false) (args : List Val) :
    Simulates see (p.metered enter m this args) (p.closing enter' m this args) := by
  rw [metered, closing, sloppyThis_eq hthis]
  refine (p.simulates_toObject this).bind fun r s s' hheap hfree => ?_
  have hprobe : p.sparseLengthProbe enter r s = _ := probe_apply hkeeps s r
  have hplain {x : Number} (hx : p.plainLength s.objects r = some x)
      (hprobe : p.sparseLengthProbe enter r s = ([], .ok (.fixed (shown (p.plainLength s.objects r))), s)) :
      Alike see s ((p.sparseLengthProbe enter r >>= fun probe => ending (do
        forward args
        p.builtin enter m (.object r) args) (p.settle enter probe)) s) (p.priced enter' m (.object r) args s') := by
    have hx' : p.plainLength s'.objects r = some x := by rw [← hheap, hx]
    rw [Eff.bind_ok hprobe, List.nil_append, ← ending_plain hx', hx]
    exact simulates_fixed henter m r (toLength x) args s s' hheap hfree
  rw [Eff.state_bind_apply, ← hheap, failsClosed]
  rcases hfixed : fixedLength s.objects r with _ | _ <;> rw [hfixed] at hprobe
  · rw [Bool.false_and, if_neg Bool.false_ne_true]
    rcases hgetter : (s.objects.find r "length").any Desc.lacksGetter with _ | _ <;> rw [hgetter] at hprobe
    · have hinstalled := alike_probed henter hkeeps hheap hfree hgetter m args
      rw [Eff.bind_ok hprobe, List.nil_append, priced_object, ending_bind (forward_apply args _),
        Eff.bind_ok (forward_apply args _), Eff.bind_ok (forward_apply args s')]
      exact .append rfl hinstalled
    · exact hplain (plainLength_of_lacksGetter hgetter) hprobe
  · rcases hshown : p.plainLength s.objects r with _ | x
    · rw [Eff.bind_ok hprobe, List.nil_append, hshown]
      exact simulates_fixed henter m r MAX_SAFE_INTEGER args s s' hheap hfree
    · exact hplain hshown hprobe

end Program

end XChainVM.SparseCallback
