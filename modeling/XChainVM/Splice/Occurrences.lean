import Mathlib.Data.List.Basic

/-! # Occurrences of a text, and lines

A text is a list over an arbitrary alphabet. A split at a pattern cuts away its occurrences from
the left, each after the end of the one before, so a single cut says that every occurrence of the
pattern overlaps the first one. Lines are the pieces of a split at one symbol.
-/

namespace XChainVM.Splice

variable {α : Type*} [DecidableEq α]

/-- The pattern stands in the text from the offset `i` on. -/
def OccursAt (pattern text : List α) (i : ℕ) : Prop := pattern <+: text.drop i

instance (pattern text : List α) (i : ℕ) : Decidable (OccursAt pattern text i) :=
  inferInstanceAs (Decidable (pattern <+: text.drop i))

def indexOf (pattern : List α) : List α → Option ℕ
  | [] => if pattern = [] then some 0 else none
  | c :: text =>
    if pattern <+: c :: text then some 0 else (indexOf pattern text).map (· + 1)

/-- The occurrences that a split at a nonempty pattern cuts away, the next `skip` symbols being
part of the one before. -/
def cuts (pattern : List α) : ℕ → List α → ℕ
  | _, [] => 0
  | skip + 1, _ :: text => cuts pattern skip text
  | 0, c :: text =>
    if pattern <+: c :: text then cuts pattern (pattern.length - 1) text + 1
    else cuts pattern 0 text

/-- The number of pieces of `text.split(pattern)`. An empty pattern splits between all symbols. -/
def splitLength (pattern text : List α) : ℕ :=
  if pattern = [] then text.length else cuts pattern 0 text + 1

variable {pattern text : List α}

omit [DecidableEq α] in
@[simp] theorem occursAt_cons_succ {c : α} {i : ℕ} :
    OccursAt pattern (c :: text) (i + 1) ↔ OccursAt pattern text i := Iff.rfl

omit [DecidableEq α] in
@[simp] theorem occursAt_zero : OccursAt pattern text 0 ↔ pattern <+: text := Iff.rfl

omit [DecidableEq α] in
theorem not_occursAt_nil (hne : pattern ≠ []) {i : ℕ} : ¬OccursAt pattern ([] : List α) i := by
  rw [OccursAt, List.drop_nil, List.prefix_nil]
  exact hne

omit [DecidableEq α] in
theorem OccursAt.stop_le {i : ℕ} (h : OccursAt pattern text i) (hne : pattern ≠ []) :
    i + pattern.length ≤ text.length := by
  have hlen := h.length_le
  have hpos : 0 < pattern.length := List.length_pos_iff.mpr hne
  rw [List.length_drop] at hlen
  omega

theorem cuts_skip (skip : ℕ) : cuts pattern skip text = cuts pattern 0 (text.drop skip) := by
  induction text generalizing skip with
  | nil => cases skip <;> rfl
  | cons c text ih =>
    cases skip with
    | zero => rfl
    | succ skip => exact ih skip

theorem cuts_of_starts {c : α} (hne : pattern ≠ []) (h : pattern <+: c :: text) :
    cuts pattern 0 (c :: text) = cuts pattern 0 ((c :: text).drop pattern.length) + 1 := by
  obtain ⟨n, hn⟩ : ∃ n, pattern.length = n + 1 := ⟨pattern.length - 1, by
    have := List.length_pos_iff.mpr hne
    omega⟩
  rw [cuts, if_pos h, cuts_skip, hn]
  rfl

theorem cuts_of_not_starts {c : α} (h : ¬pattern <+: c :: text) :
    cuts pattern 0 (c :: text) = cuts pattern 0 text := by
  rw [cuts, if_neg h]

/-- A text from which nothing is cut holds no occurrence. -/
theorem not_occursAt_of_cuts_eq_zero (hne : pattern ≠ []) (h : cuts pattern 0 text = 0) (i : ℕ) :
    ¬OccursAt pattern text i := by
  induction text generalizing i with
  | nil => exact not_occursAt_nil hne
  | cons c text ih =>
    have hc : ¬pattern <+: c :: text := by
      intro hc
      rw [cuts_of_starts hne hc] at h
      omega
    rw [cuts_of_not_starts hc] at h
    cases i with
    | zero => exact hc
    | succ i => exact ih h i

/-- A text with one cut holds the pattern at its first index, and there only, up to overlaps. -/
theorem unique_of_cuts_eq_one (hne : pattern ≠ []) (h : cuts pattern 0 text = 1) :
    ∃ i, indexOf pattern text = some i ∧ OccursAt pattern text i ∧
      ∀ j, OccursAt pattern text j → i ≤ j ∧ j < i + pattern.length := by
  induction text with
  | nil => simp [cuts] at h
  | cons c text ih =>
    by_cases hc : pattern <+: c :: text
    · refine ⟨0, by rw [indexOf, if_pos hc], hc, ?_⟩
      intro j hj
      refine ⟨Nat.zero_le j, ?_⟩
      by_contra hfar
      rw [cuts_of_starts hne hc] at h
      have hrest : cuts pattern 0 ((c :: text).drop pattern.length) = 0 := by omega
      apply not_occursAt_of_cuts_eq_zero hne hrest (j - pattern.length)
      rw [OccursAt, List.drop_drop, show pattern.length + (j - pattern.length) = j by omega]
      exact hj
    · rw [cuts_of_not_starts hc] at h
      obtain ⟨i, hindex, hocc, honly⟩ := ih h
      refine ⟨i + 1, by rw [indexOf, if_neg hc, hindex]; rfl, hocc, ?_⟩
      intro j hj
      cases j with
      | zero => exact absurd hj hc
      | succ j =>
        have := honly j hj
        omega

theorem ne_nil_of_splitLength_eq_two (h : splitLength pattern text = 2) (hlong : 2 < text.length) :
    pattern ≠ [] := by
  rintro rfl
  rw [splitLength, if_pos rfl] at h
  omega

theorem cuts_of_splitLength_eq_two (hne : pattern ≠ []) (h : splitLength pattern text = 2) :
    cuts pattern 0 text = 1 := by
  rw [splitLength, if_neg hne] at h
  omega

variable {nl : α}

theorem cuts_singleton : cuts [nl] 0 text = text.count nl := by
  induction text with
  | nil => rfl
  | cons c text ih =>
    by_cases hc : c = nl
    · subst hc
      rw [cuts, if_pos (by simp), List.count_cons_self, List.length_singleton, ih]
    · rw [cuts, if_neg (by simpa [List.cons_prefix_cons, eq_comm] using hc), ih,
        List.count_cons_of_ne hc]

/-- The line with the number `k`, from zero. -/
def line (nl : α) (text : List α) (k : ℕ) : Option (List α) := (text.splitOn nl)[k]?

theorem line_cons_self_succ (k : ℕ) : line nl (nl :: text) (k + 1) = line nl text k := by
  simp [line, List.splitOn, List.splitOnP_cons_eq_if_modifyHead]

theorem line_cons_self_zero : line nl (nl :: text) 0 = some [] := by
  simp [line, List.splitOn, List.splitOnP_cons_eq_if_modifyHead]

theorem line_cons_succ {c : α} (hc : c ≠ nl) (k : ℕ) :
    line nl (c :: text) (k + 1) = line nl text (k + 1) := by
  simp only [line, List.splitOn, List.splitOnP_cons_eq_if_modifyHead, beq_iff_eq, if_neg hc,
    List.getElem?_modifyHead]
  rfl

theorem line_cons_zero {c : α} (hc : c ≠ nl) :
    line nl (c :: text) 0 = (line nl text 0).map (c :: ·) := by
  simp only [line, List.splitOn, List.splitOnP_cons_eq_if_modifyHead, beq_iff_eq, if_neg hc,
    List.getElem?_modifyHead]
  rfl

/-- The lines that end within the front do not see the rest. -/
theorem line_append_of_lt {front : List α} {k : ℕ} (h : k < front.count nl) (x y : List α) :
    line nl (front ++ x) k = line nl (front ++ y) k := by
  induction front generalizing k with
  | nil => simp at h
  | cons c front ih =>
    by_cases hc : c = nl
    · subst hc
      cases k with
      | zero => rw [List.cons_append, List.cons_append, line_cons_self_zero, line_cons_self_zero]
      | succ k =>
        rw [List.count_cons_self] at h
        rw [List.cons_append, List.cons_append, line_cons_self_succ, line_cons_self_succ]
        exact ih (by omega)
    · rw [List.count_cons_of_ne hc] at h
      rw [List.cons_append, List.cons_append]
      cases k with
      | zero => rw [line_cons_zero hc, line_cons_zero hc, ih h]
      | succ k => rw [line_cons_succ hc, line_cons_succ hc, ih h]

/-- The lines that begin after the front are the lines of the rest. -/
theorem line_append_of_gt {front : List α} {k : ℕ} (h : front.count nl < k) (x : List α) :
    line nl (front ++ x) k = line nl x (k - front.count nl) := by
  induction front generalizing k with
  | nil => simp
  | cons c front ih =>
    obtain ⟨k, rfl⟩ : ∃ k', k = k' + 1 := ⟨k - 1, by omega⟩
    by_cases hc : c = nl
    · subst hc
      rw [List.count_cons_self] at h ⊢
      rw [List.cons_append, line_cons_self_succ, ih (by omega), Nat.add_sub_add_right]
    · rw [List.count_cons_of_ne hc] at h ⊢
      rw [List.cons_append, line_cons_succ hc, ih h]

/-- After a front that ends a line, this holds of the line right behind it as well. -/
theorem line_append_of_ge {front : List α} {k : ℕ} (hend : [nl] <:+ front)
    (h : front.count nl ≤ k) (x : List α) :
    line nl (front ++ x) k = line nl x (k - front.count nl) := by
  obtain ⟨front, rfl⟩ := hend
  rw [List.count_append, List.count_singleton_self] at h ⊢
  obtain ⟨k, rfl⟩ : ∃ k', k = k' + 1 := ⟨k - 1, by omega⟩
  rw [List.append_assoc, line_append_of_gt (by omega), List.singleton_append,
    show k + 1 - front.count nl = (k - front.count nl) + 1 by omega, line_cons_self_succ,
    Nat.add_sub_add_right]

end XChainVM.Splice
