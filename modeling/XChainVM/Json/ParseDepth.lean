import XChainVM.Json.Recognition

/-! # The scan in front of the parser

The one pass over the text stands at the depth the parser stands at, for as long as the parser finds
no error. Then the scan can no longer fall behind, as the parser goes no deeper.
-/

namespace XChainVM.Json

variable {limit depth : ℕ} {t rest : Text} {b : Bracket}

theorem scan_takes (h : Takes t rest) : scan limit depth .outside t = scan limit depth .outside rest := by
  obtain ⟨used, rfl, hplain⟩ := h
  exact scan_plain hplain rest

theorem scan_skip (t : Text) : scan limit depth .outside (skip t) = scan limit depth .outside t :=
  (scan_takes (takes_skip t)).symm

theorem scan_pieces (pieces : List Piece) (rest : Text) :
    scan limit depth .literal (literal pieces ++ rest) = scan limit depth .literal rest := by
  induction pieces with
  | nil => rfl
  | cons piece pieces ih =>
    cases piece with
    | unit ch plain =>
      show scan limit depth .literal (ch :: (literal pieces ++ rest)) = _
      rw [scan, if_neg plain.2, if_neg plain.1, ih]
    | escaped ch =>
      show scan limit depth .literal (92 :: ch :: (literal pieces ++ rest)) = _
      rw [scan, if_pos rfl, scan, ih]

theorem scan_quote (t : Text) : scan limit depth .outside (34 :: t) = scan limit depth .literal t := by
  rw [scan, if_pos rfl]

theorem scan_string (pieces : List Piece) (rest : Text) :
    scan limit depth .outside (34 :: (literal pieces ++ 34 :: rest)) = scan limit depth .outside rest := by
  rw [scan_quote, scan_pieces, scan, if_neg (by decide), if_pos rfl]

theorem scan_stringBody (h : stringBody t = some rest) :
    scan limit depth .outside (34 :: t) = scan limit depth .outside rest := by
  obtain ⟨pieces, rfl⟩ := stringBody_pieces h
  exact scan_string pieces rest

theorem scan_scalar (h : scalar t = some rest) : scan limit depth .outside t = scan limit depth .outside rest := by
  cases t with
  | nil => cases h
  | cons ch t =>
    by_cases hch : ch = 34
    · rw [scalar, if_pos hch] at h
      rw [hch]
      exact scan_stringBody h
    · exact scan_takes (takes_scalar hch h).1

theorem scan_pass {ch : ℕ} (hch : ch ∉ [34, 91, 93, 123, 125]) (t : Text) :
    scan limit depth .outside (ch :: t) = scan limit depth .outside t :=
  scan_takes ((Takes.refl t).cons hch)

theorem scan_label {t' : Text} (h : b.label t = some t') :
    scan limit depth .outside t = scan limit depth .outside t' := by
  cases b with
  | square =>
    cases h
    rfl
  | curly =>
    obtain ⟨t₁, t₂, hquote, hbody, hcolon⟩ := key_eq_some h
    rw [← scan_skip, hquote, scan_stringBody hbody, ← scan_skip t₂, hcolon, scan_pass (by decide)]

theorem scan_opening (b : Bracket) (t : Text) : scan limit depth .outside (b.opening :: t) =
    if depth + 1 > limit then none else scan limit (depth + 1) .outside t := by
  cases b <;> rw [scan, if_neg (by decide), if_pos (by decide)]

theorem scan_closing (b : Bracket) (t : Text) :
    scan limit (depth + 1) .outside (b.closing :: t) = scan limit depth .outside t := by
  cases b <;> rw [scan, if_neg (by decide), if_neg (by decide), if_pos (by decide)] <;> rfl

/-- The scan faults where the reading is too deep, and else goes on where the reading ends. -/
structure Covers (limit depth after : ℕ) (t : Text) (r : Reading) : Prop where
  faults : limit < r.deepest → scan limit depth .outside t = none
  passes : ∀ rest, r.rest = some rest → r.deepest ≤ limit →
    scan limit depth .outside t = scan limit after .outside rest

namespace Covers

variable {mid after deepest : ℕ}

/-- An error within the limit. -/
theorem stop (h : deepest ≤ limit) : Covers limit depth after t ⟨deepest, none⟩ :=
  ⟨fun hlimit => absurd h (not_le.mpr hlimit), fun _ hrest => by cases hrest⟩

theorem of_scan_eq {t' : Text} {r : Reading} (h : Covers limit mid after t' r)
    (hscan : scan limit depth .outside t = scan limit mid .outside t') : Covers limit depth after t r :=
  ⟨fun hlimit => hscan.trans (h.faults hlimit), fun rest hrest hlimit => hscan.trans (h.passes rest hrest hlimit)⟩

theorem andThen {r : Reading} {k : Text → Reading} (h : Covers limit depth mid t r)
    (hk : ∀ t', r.rest = some t' → Covers limit mid after t' (k t')) : Covers limit depth after t (r.andThen k) := by
  rcases r with ⟨deepest, - | t'⟩
  · exact ⟨h.faults, fun _ hrest => by cases hrest⟩
  · have hk := hk t' rfl
    constructor
    · intro hlimit
      by_cases hfirst : limit < deepest
      · exact h.faults hfirst
      · rw [h.passes t' rfl (not_lt.mp hfirst)]
        exact hk.faults ((lt_max_iff.mp hlimit).resolve_left hfirst)
    · intro rest hrest hlimit
      obtain ⟨hfirst, hsecond⟩ := max_le_iff.mp hlimit
      rw [h.passes t' rfl hfirst]
      exact hk.passes rest hrest hsecond

theorem separated {more : Text → Reading} (hdepth : depth + 1 ≤ limit)
    (hmore : ∀ t, Covers limit (depth + 1) depth t (more t)) (t : Text) :
    Covers limit (depth + 1) depth t (separated b.closing (depth + 1) more t) := by
  cases t with
  | nil => exact stop hdepth
  | cons ch t =>
    rw [Json.separated]
    split
    · next hcomma =>
      rw [hcomma]
      exact (hmore t).of_scan_eq (scan_pass (by decide) t)
    · split
      · next hclose =>
        rw [hclose]
        refine ⟨fun hlimit => absurd hdepth (not_le.mpr hlimit), fun rest hrest _ => ?_⟩
        cases hrest
        exact scan_closing b t
      · exact stop hdepth

end Covers

theorem scan_tail {t' : Text} (hclose : (skip t').head? = some b.closing) :
    scan limit (depth + 1) .outside t' = scan limit depth .outside (skip t').tail := by
  rw [← scan_skip t', List.eq_cons_of_mem_head? hclose, scan_closing]
  rfl

/-- An opening bracket: where it is one too many the scan faults, and every reading is too deep. -/
theorem covers_opening {fuel : ℕ} {t' : Text}
    (hitems : depth + 1 ≤ limit → Covers limit (depth + 1) depth t' (readItems fuel b (depth + 1) t')) :
    Covers limit depth depth (b.opening :: t')
      (if (skip t').head? = some b.closing then ⟨depth + 1, some (skip t').tail⟩
      else readItems fuel b (depth + 1) t') := by
  have hscan : scan limit depth .outside (b.opening :: t') = _ := scan_opening b t'
  by_cases hdepth : depth + 1 ≤ limit
  · rw [if_neg (not_lt.mpr hdepth)] at hscan
    split
    · next hclose =>
      refine ⟨fun hlimit => absurd hdepth (not_le.mpr hlimit), fun rest hrest _ => ?_⟩
      cases hrest
      exact hscan.trans (scan_tail hclose)
    · exact (hitems hdepth).of_scan_eq hscan
  · rw [if_pos (not_le.mp hdepth)] at hscan
    refine ⟨fun _ => hscan, fun rest hrest hlimit => absurd hlimit ?_⟩
    by_cases hclose : (skip t').head? = some b.closing
    · rw [if_pos hclose]
      exact hdepth
    · rw [if_neg hclose] at hrest ⊢
      obtain ⟨d, hdeepest, -⟩ := (read_sound fuel).2 b (depth + 1) t' _ rest (congrArg (Reading.mk _) hrest)
      omega

theorem covers_read (limit fuel : ℕ) :
    (∀ depth t, depth ≤ limit → Covers limit depth depth t (readValue fuel depth t)) ∧
    (∀ b depth t, depth + 1 ≤ limit → Covers limit (depth + 1) depth t (readItems fuel b (depth + 1) t)) := by
  induction fuel with
  | zero => exact ⟨fun _ _ h => .stop h, fun _ _ _ h => .stop h⟩
  | succ fuel ih =>
    obtain ⟨ihValue, ihItems⟩ := ih
    constructor
    · intro depth t hdepth
      refine Covers.of_scan_eq ?_ (scan_skip t).symm
      rw [readValue]
      split
      · exact .stop hdepth
      · next ch t' hskip =>
        rw [hskip]
        split
        · refine ⟨fun hlimit => absurd hdepth (not_le.mpr hlimit), fun rest hrest _ => scan_scalar hrest⟩
        · next b hopened =>
          rw [Bracket.opened_eq_some.mp hopened]
          exact covers_opening fun h => ihItems b depth t' h
    · intro b depth t hdepth
      rw [readItems]
      split
      · exact .stop hdepth
      · next t₁ hlabel =>
        refine Covers.of_scan_eq ?_ (scan_label hlabel)
        refine (ihValue (depth + 1) t₁ hdepth).andThen fun t₂ _ => ?_
        exact (Covers.separated hdepth (fun t => ihItems b depth t hdepth) _).of_scan_eq (scan_skip t₂).symm

theorem covers_readText (limit : ℕ) (text : Text) : Covers limit 0 0 text (readText text) := by
  refine ((covers_read limit _).1 0 text (Nat.zero_le _)).andThen fun t _ => ?_
  split
  · next hend =>
    refine ⟨fun hlimit => absurd hlimit (Nat.not_lt_zero _), fun rest hrest _ => ?_⟩
    cases hrest
    rw [← scan_skip t, hend]
  · exact .stop (Nat.zero_le _)

theorem guardParseDepth_eq_false {stackPoison : Bool} {text : Text} :
    guardParseDepth limit stackPoison text = false ↔ stackPoison = true ∨ scan limit 0 .outside text = none := by
  rw [guardParseDepth, Bool.and_eq_false_iff, Bool.not_eq_false', Option.isSome_eq_false_iff, Option.isNone_iff_eq_none]

/-- Where it is on, the guard faults on well-formed text exactly where it is nested too deep, and on any text
that the parser would go too deep in. What stands in a string is not counted, whether the string ends, the
text, or the text behind a backslash. -/
theorem guardParseDepth_nesting (limit : ℕ) (stackPoison : Bool) (text : Text) :
    (∀ d, WellFormed d text → (guardParseDepth limit stackPoison text = false ↔ stackPoison = true ∨ limit < d)) ∧
    (limit < (readText text).deepest → guardParseDepth limit stackPoison text = false) ∧
    (∀ depth pieces rest,
      scan limit depth .outside (34 :: (literal pieces ++ 34 :: rest)) = scan limit depth .outside rest ∧
      scan limit depth .outside (34 :: literal pieces) = some depth ∧
      scan limit depth .outside (34 :: (literal pieces ++ [92])) = some depth) := by
  obtain ⟨faults, passes⟩ := covers_readText limit text
  refine ⟨fun d hd => ?_, fun hlimit => guardParseDepth_eq_false.mpr (.inr (faults hlimit)),
    fun depth pieces rest => ⟨scan_string pieces rest, ?_, ?_⟩⟩
  · rw [(readText_accepts d text).mpr hd] at faults passes
    rw [guardParseDepth_eq_false]
    refine or_congr_right ⟨fun hnone => ?_, faults⟩
    by_contra hlimit
    rw [passes [] rfl (not_lt.mp hlimit)] at hnone
    cases hnone
  · rw [scan_quote, ← List.append_nil (literal pieces), scan_pieces]
    rfl
  · rw [scan_quote, scan_pieces]
    rfl

/-- A closer too many lowers the count, and then the parser has stopped. -/
example : (readText [91, 93, 93, 91, 91]).deepest = 1 ∧ guardParseDepth 1 false [91, 93, 93, 91, 91] = false := by decide

end XChainVM.Json
