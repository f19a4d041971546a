import Mathlib.Data.List.Sort
import XChainVM.Splice.Occurrences

/-! # Replacing spans of a text

A span is a stretch of a text with the text that takes its place. Disjoint spans in ascending
order are replaced from the last to the first, so that no replacement moves a span that is still
to come. Where every replacement keeps the number of line breaks, the lines that no span covers
keep their text and their number.
-/

namespace XChainVM.Splice

variable {α : Type*}

structure Span (α : Type*) where
  start : ℕ
  stop : ℕ
  text : List α

/-- `out.slice(0, start) + text + out.slice(stop)`. -/
def Span.replace (out : List α) (e : Span α) : List α :=
  out.take e.start ++ e.text ++ out.drop e.stop

def Ascending : ℕ → List (Span α) → ℕ → Prop
  | n, [], limit => n ≤ limit
  | n, e :: es, limit => n ≤ e.start ∧ e.start ≤ e.stop ∧ Ascending e.stop es limit

/-- The text from the offset `n` on with every span replaced, in order, and all between them
copied. -/
def splice : ℕ → List (Span α) → List α → List α
  | n, [], source => source.drop n
  | n, e :: es, source => (source.take e.start).drop n ++ e.text ++ splice e.stop es source

variable {n limit : ℕ} {e : Span α} {es : List (Span α)} {source : List α}

theorem Ascending.le : ∀ {n : ℕ} {es : List (Span α)}, Ascending n es limit → n ≤ limit
  | _, [], h => h
  | _, _ :: _, ⟨hstart, hstop, hrest⟩ => hstart.trans (hstop.trans hrest.le)

theorem Ascending.bounds : ∀ {n : ℕ} {es : List (Span α)}, Ascending n es limit →
    ∀ e ∈ es, n ≤ e.start ∧ e.start ≤ e.stop ∧ e.stop ≤ limit
  | _, _ :: _, ⟨hstart, hstop, hrest⟩, _, .head _ => ⟨hstart, hstop, hrest.le⟩
  | _, _ :: _, ⟨hstart, hstop, hrest⟩, e, .tail _ he =>
    have h := hrest.bounds e he
    ⟨(hstart.trans hstop).trans h.1, h.2⟩

/-- Spans sorted by their starts, no two of which meet, are ascending. -/
theorem ascending_of_pairwise (hn : n ≤ limit) (hbounds : ∀ e ∈ es, n ≤ e.start ∧ e.start ≤ e.stop ∧ e.stop ≤ limit)
    (hpairs : es.Pairwise fun a b => a.stop ≤ b.start) : Ascending n es limit := by
  induction es generalizing n with
  | nil => exact hn
  | cons e es ih =>
    obtain ⟨hstart, hstop, hlimit⟩ := hbounds e List.mem_cons_self
    rw [List.pairwise_cons] at hpairs
    refine ⟨hstart, hstop, ih hlimit ?_ hpairs.2⟩
    intro b hb
    exact ⟨hpairs.1 b hb, (hbounds b (List.mem_cons_of_mem _ hb)).2⟩

theorem drop_append_splice (hes : Ascending n es limit) (hlimit : limit ≤ source.length) {k : ℕ}
    (hk : k ≤ n) : (source.take n).drop k ++ splice n es source = splice k es source := by
  cases es with
  | nil =>
    rw [splice, splice, ← List.drop_append_of_le_length, List.take_append_drop]
    rw [List.length_take, Nat.min_eq_left (hes.le.trans hlimit)]
    exact hk
  | cons e es =>
    have hstart : n ≤ e.start := hes.1
    rw [splice, splice, ← List.append_assoc, ← List.append_assoc]
    congr 2
    have hsplit : source.take e.start = source.take n ++ (source.take e.start).drop n := by
      conv_lhs => rw [← List.take_append_drop n (source.take e.start)]
      rw [List.take_take, Nat.min_eq_left hstart]
    conv_rhs => rw [hsplit]
    rw [List.drop_append_of_le_length]
    rw [List.length_take, Nat.min_eq_left (hes.le.trans hlimit)]
    exact hk

/-- Replacing from the last span to the first splices all of them in. -/
theorem foldr_replace (hes : Ascending n es limit) (hlimit : limit ≤ source.length) :
    es.foldr (fun e out => e.replace out) source = splice 0 es source := by
  induction es generalizing n with
  | nil => rfl
  | cons e es ih =>
    obtain ⟨hstart, hstop, hrest⟩ := hes
    have hlen : (source.take e.stop).length = e.stop := by
      rw [List.length_take, Nat.min_eq_left (hrest.le.trans hlimit)]
    rw [List.foldr_cons, ih hrest, Span.replace, splice, List.drop_zero,
      ← drop_append_splice hrest hlimit (Nat.zero_le _), List.drop_zero]
    rw [List.take_append_of_le_length (by rw [hlen]; exact hstop), List.take_take,
      Nat.min_eq_left hstop, List.drop_append_of_le_length (by rw [hlen]),
      List.drop_eq_nil_of_le (by rw [hlen]), List.nil_append]

/-- Spans that end before the tail leave it as it is. -/
theorem splice_append (hes : Ascending n es source.length) (tail : List α) :
    splice n es (source ++ tail) = splice n es source ++ tail := by
  induction es generalizing n with
  | nil => exact List.drop_append_of_le_length hes
  | cons e es ih =>
    obtain ⟨hstart, hstop, hrest⟩ := hes
    rw [splice, splice, ih hrest, List.take_append_of_le_length (hstop.trans hrest.le),
      List.append_assoc, List.append_assoc, List.append_assoc]

def Span.old (source : List α) (e : Span α) : List α := (source.take e.stop).drop e.start

/-- A stretch between two offsets of the source. -/
theorem take_eq_append_old (hstop : e.start ≤ e.stop) :
    source.take e.stop = source.take e.start ++ e.old source := by
  rw [Span.old]
  conv_lhs => rw [← List.take_append_drop e.start (source.take e.stop)]
  rw [List.take_take, Nat.min_eq_left hstop]

section Lines

variable [DecidableEq α] {nl : α}

def lineOf (nl : α) (source : List α) (offset : ℕ) : ℕ := (source.take offset).count nl

def withoutLastBreak (nl : α) (text : List α) : List α :=
  if [nl] <:+ text then text.dropLast else text

def Span.covers (nl : α) (source : List α) (e : Span α) (k : ℕ) : Prop :=
  lineOf nl source e.start ≤ k ∧
    k ≤ lineOf nl source e.start + (withoutLastBreak nl (e.old source)).count nl

/-- The replacement has as many line breaks as what it replaces, and ends a line where that ends
one. -/
def Span.KeepsBreaks (nl : α) (source : List α) (e : Span α) : Prop :=
  (e.old source).count nl = e.text.count nl ∧ ([nl] <:+ e.old source → [nl] <:+ e.text)

theorem count_withoutLastBreak_of_suffix {text : List α} (h : [nl] <:+ text) :
    (withoutLastBreak nl text).count nl + 1 = text.count nl := by
  rw [withoutLastBreak, if_pos h]
  obtain ⟨front, rfl⟩ := h
  rw [List.dropLast_concat, List.count_append, List.count_singleton_self]

theorem line_replace_middle {front old new back : List α} {k : ℕ}
    (hcount : old.count nl = new.count nl) (hend : [nl] <:+ old → [nl] <:+ new)
    (hk : k < front.count nl ∨ front.count nl + (withoutLastBreak nl old).count nl < k) :
    line nl (front ++ new ++ back) k = line nl (front ++ old ++ back) k := by
  obtain hbefore | hafter := hk
  · rw [List.append_assoc, List.append_assoc]
    exact line_append_of_lt hbefore _ _
  · by_cases hold : [nl] <:+ old
    · have hnew := hend hold
      have hlast := count_withoutLastBreak_of_suffix hold
      have hfront : ∀ {mid : List α}, mid.count nl = old.count nl → [nl] <:+ mid →
          line nl (front ++ mid ++ back) k = line nl back (k - (front.count nl + old.count nl)) := by
        intro mid hmid hsuf
        rw [line_append_of_ge (hsuf.trans (List.suffix_append _ _)), List.count_append, hmid]
        rw [List.count_append]
        omega
      rw [hfront hcount.symm hnew, hfront rfl hold]
    · rw [withoutLastBreak, if_neg hold] at hafter
      rw [line_append_of_gt, line_append_of_gt, List.count_append, List.count_append, hcount]
      · rw [List.count_append]
        exact hafter
      · rw [List.count_append, ← hcount]
        exact hafter

/-- Spliced texts agree with the source on every line that no span covers. -/
theorem line_splice (hes : Ascending n es limit) (hlimit : limit ≤ source.length)
    (hkeeps : ∀ e ∈ es, e.KeepsBreaks nl source) {k : ℕ}
    (hk : ∀ e ∈ es, ¬e.covers nl source k) :
    line nl (splice 0 es source) k = line nl source k := by
  induction es generalizing n with
  | nil => rfl
  | cons e es ih =>
    obtain ⟨hstart, hstop, hrest⟩ := hes
    rw [← ih hrest (fun b hb => hkeeps b (List.mem_cons_of_mem _ hb))
      fun b hb => hk b (List.mem_cons_of_mem _ hb)]
    obtain ⟨hcount, hend⟩ := hkeeps e List.mem_cons_self
    have hcover := hk e List.mem_cons_self
    rw [Span.covers, lineOf] at hcover
    rw [splice, List.drop_zero, ← drop_append_splice hrest hlimit (Nat.zero_le _), List.drop_zero,
      take_eq_append_old hstop]
    exact line_replace_middle hcount hend (by omega)

theorem count_splice (hes : Ascending n es limit) (hlimit : limit ≤ source.length)
    (hkeeps : ∀ e ∈ es, e.KeepsBreaks nl source) :
    (splice 0 es source).count nl = source.count nl := by
  induction es generalizing n with
  | nil => rfl
  | cons e es ih =>
    obtain ⟨hstart, hstop, hrest⟩ := hes
    rw [← ih hrest fun b hb => hkeeps b (List.mem_cons_of_mem _ hb),
      ← drop_append_splice hrest hlimit (Nat.zero_le _), splice, List.drop_zero, List.drop_zero,
      take_eq_append_old hstop]
    simp only [List.count_append, (hkeeps e List.mem_cons_self).1]

end Lines

end XChainVM.Splice
