import XChainVM.Harness.Derivation

/-! # What an armed harness keeps of its base

A derivation that is not refused replaces the region of every edit once and keeps all lines in
between at their numbers, in whichever order its rules are listed. Behind the replaced text stand
the helpers, in the order of the rules, and the closing line.
-/

namespace XChainVM.Harness

open XChainVM.Splice

/-- The text of the edit stands in the source at its region, and nowhere clear of it. -/
structure Matched (source : Script) (edit : Edit) : Prop where
  nonempty : edit.fromText ≠ []
  occurs : OccursAt edit.fromText source (region source edit).start
  only : ∀ i, OccursAt edit.fromText source i →
    (region source edit).start ≤ i ∧ i < (region source edit).stop
  breaks : edit.fromText.count '\n' = edit.toText.count '\n'

def Apart (a b : Span Char) : Prop := a.stop ≤ b.start ∨ b.stop ≤ a.start

variable {source : Script} {edit : Edit} {rules rules' : List HarnessRule} {derived : Script}

theorem region_stop (source : Script) (edit : Edit) :
    (region source edit).stop = (region source edit).start + edit.fromText.length := rfl

theorem Locatable.matched (hsource : closing <:+ source) (h : Locatable source edit) :
    Matched source edit := by
  obtain ⟨htwo, hmoves⟩ := h
  have hlong : 6 ≤ source.length := hsource.length_le
  have hne := ne_nil_of_splitLength_eq_two htwo (by omega)
  obtain ⟨i, hindex, hocc, honly⟩ :=
    unique_of_cuts_eq_one hne (cuts_of_splitLength_eq_two hne htwo)
  have hstart : (region source edit).start = i := by
    rw [region, hindex]
    rfl
  rw [lineBreaks_eq_count, lineBreaks_eq_count] at hmoves
  refine ⟨hne, ?_, ?_, hmoves⟩
  · rw [hstart]
    exact hocc
  · rw [region_stop, hstart]
    exact honly

namespace Matched

variable (h : Matched source edit)

include h

theorem start_lt_stop : (region source edit).start < (region source edit).stop := by
  have := List.length_pos_iff.mpr h.nonempty
  rw [region_stop]
  omega

theorem stop_le : (region source edit).stop ≤ source.length := h.occurs.stop_le h.nonempty

theorem old_region : (region source edit).old source = edit.fromText := by
  have hprefix := List.prefix_iff_eq_take.mp h.occurs
  rw [Span.old, region_stop, List.drop_take, Nat.add_sub_cancel_left]
  exact hprefix.symm

theorem mem_coveredLines {k : ℕ} :
    k ∈ coveredLines source edit ↔ (region source edit).covers '\n' source k := by
  rw [coveredLines, List.mem_range'_1, Span.covers, h.old_region, lineAt, lineBreaks_eq_count,
    lineBreaks_eq_count, lineOf, dropFinalBreak]
  omega

omit h in
theorem count_le_withoutLastBreak {text front : Script} (hfront : front <+: text)
    (hlen : front.length < text.length) :
    front.count '\n' ≤ (withoutLastBreak '\n' text).count '\n' := by
  have hlast : front <+: text.dropLast := by
    rw [List.dropLast_eq_take]
    exact List.prefix_take_iff.mpr ⟨hfront, by omega⟩
  rw [withoutLastBreak]
  split
  · exact hlast.sublist.count_le _
  · exact hfront.sublist.count_le _

/-- The line of every offset of the region is owned. -/
theorem lineAt_mem {offset : ℕ} (hstart : (region source edit).start ≤ offset)
    (hstop : offset < (region source edit).stop) :
    lineAt source offset ∈ coveredLines source edit := by
  rw [h.mem_coveredLines, Span.covers, h.old_region, lineAt, lineBreaks_eq_count, lineOf]
  have hsplit : source.take offset = source.take (region source edit).start ++
      (source.drop (region source edit).start).take (offset - (region source edit).start) := by
    rw [← List.take_add, Nat.add_sub_cancel' hstart]
  have hfront : (source.drop (region source edit).start).take
      (offset - (region source edit).start) <+: edit.fromText := by
    rw [List.prefix_iff_eq_take.mp h.occurs]
    apply List.take_prefix_take_left
    rw [region_stop] at hstop
    omega
  have hcount := count_le_withoutLastBreak hfront (by
    rw [region_stop] at hstop
    have := h.stop_le
    rw [List.length_take, List.length_drop]
    rw [region_stop] at this
    omega)
  rw [hsplit, List.count_append]
  omega

end Matched

/-- Edits that own different lines replace spans that share no offset. -/
theorem apart_of_disjoint {a b : Edit} (ha : Matched source a) (hb : Matched source b)
    (h : List.Disjoint (coveredLines source a) (coveredLines source b)) :
    Apart (region source a) (region source b) := by
  by_contra hmeet
  rw [Apart, not_or] at hmeet
  have hastop := ha.start_lt_stop
  have hbstop := hb.start_lt_stop
  obtain ⟨offset, hoffset⟩ : ∃ offset,
      offset = max (region source a).start (region source b).start := ⟨_, rfl⟩
  have ha' : lineAt source offset ∈ coveredLines source a := ha.lineAt_mem (by omega) (by omega)
  exact h ha' (hb.lineAt_mem (by omega) (by omega))

structure Accepted (source : Script) (rules : List HarnessRule) : Prop where
  ends : closing <:+ source
  locatable : ∀ edit ∈ edits rules, Locatable source edit
  owned : ((edits rules).flatMap (coveredLines source)).Nodup

theorem edits_perm (h : rules'.Perm rules) : (edits rules').Perm (edits rules) :=
  h.flatMap_right _

namespace Accepted

theorem perm (hperm : rules'.Perm rules) (h : Accepted source rules) : Accepted source rules' where
  ends := h.ends
  locatable edit hedit := h.locatable edit ((edits_perm hperm).mem_iff.mp hedit)
  owned := ((edits_perm hperm).flatMap_right _).nodup_iff.mpr h.owned

variable (h : Accepted source rules)

include h

theorem matched (hedit : edit ∈ edits rules) : Matched source edit :=
  (h.locatable edit hedit).matched h.ends

theorem pairwise : (edits rules).Pairwise fun a b =>
    List.Disjoint (coveredLines source a) (coveredLines source b) ∧
      Apart (region source a) (region source b) := by
  have hlines := (List.nodup_flatMap.mp h.owned).2
  exact hlines.imp_of_mem fun {a b} ha hb hdis =>
    ⟨hdis, apart_of_disjoint (h.matched ha) (h.matched hb) hdis⟩

/-- Sorted by their starts, the regions lie one behind the other. -/
theorem ordered {spans : List (Span Char)}
    (hperm : spans.Perm ((edits rules).map (region source)))
    (hsorted : spans.Pairwise fun a b => a.start ≤ b.start) :
    spans.Pairwise fun a b => a.stop ≤ b.start := by
  have hapart : spans.Pairwise Apart := by
    have hsymm : ∀ {a b : Span Char}, Apart a b → Apart b a := Or.symm
    rw [hperm.pairwise_iff hsymm, List.pairwise_map]
    exact h.pairwise.imp fun hab => hab.2
  refine (hsorted.and hapart).imp_of_mem ?_
  rintro a b - hb ⟨hstart, hstop | hstop⟩
  · exact hstop
  · obtain ⟨edit, hedit, rfl⟩ := List.mem_map.mp (hperm.mem_iff.mp hb)
    have := (h.matched hedit).start_lt_stop
    omega

theorem bounds {spans : List (Span Char)}
    (hperm : spans.Perm ((edits rules).map (region source))) :
    ∀ e ∈ spans, e.start < e.stop ∧ e.stop ≤ source.length := by
  intro e he
  obtain ⟨edit, hedit, rfl⟩ := List.mem_map.mp (hperm.mem_iff.mp he)
  exact ⟨(h.matched hedit).start_lt_stop, (h.matched hedit).stop_le⟩

end Accepted

def spans (source : Script) (rules : List HarnessRule) : List (Span Char) :=
  ((edits rules).map (region source)).insertionSort fun a b => a.start ≤ b.start

theorem spans_perm (source : Script) (rules : List HarnessRule) :
    (spans source rules).Perm ((edits rules).map (region source)) := List.perm_insertionSort _ _

theorem spans_sorted (source : Script) (rules : List HarnessRule) :
    (spans source rules).Pairwise fun a b => a.start ≤ b.start := by
  have : Std.Total fun a b : Span Char => a.start ≤ b.start := ⟨fun a b => Nat.le_total _ _⟩
  have : IsTrans (Span Char) fun a b => a.start ≤ b.start := ⟨fun a b c => Nat.le_trans⟩
  exact List.pairwise_insertionSort _ _

namespace Accepted

variable (h : Accepted source rules)

include h

/-- The order of the regions is the only one. -/
theorem eq_spans {es : List (Span Char)} (hperm : es.Perm ((edits rules).map (region source)))
    (hsorted : es.Pairwise fun a b => a.start ≤ b.start) : es = spans source rules := by
  have hspans := spans_perm source rules
  refine List.Perm.eq_of_pairwise ?_ (h.ordered hperm hsorted)
    (h.ordered hspans (spans_sorted source rules)) (hperm.trans hspans.symm)
  intro a b ha hb hab hba
  have := h.bounds hperm a ha
  have := h.bounds hspans b hb
  omega

theorem spans_perm_eq (hperm : rules'.Perm rules) : spans source rules' = spans source rules :=
  h.eq_spans ((spans_perm source rules').trans ((edits_perm hperm).map _))
    (spans_sorted source rules')

theorem ascending {limit : ℕ} (hlimit : ∀ edit ∈ edits rules, (region source edit).stop ≤ limit) :
    Ascending 0 (spans source rules) limit := by
  have hperm := spans_perm source rules
  refine ascending_of_pairwise (Nat.zero_le _) ?_
    (h.ordered hperm (spans_sorted source rules))
  intro e he
  have := h.bounds hperm e he
  obtain ⟨edit, hedit, rfl⟩ := List.mem_map.mp (hperm.mem_iff.mp he)
  exact ⟨Nat.zero_le _, by omega, hlimit edit hedit⟩

end Accepted

theorem locatedAll_span (source : Script) (rules : List HarnessRule) :
    (locatedAll source rules).map Located.span = (edits rules).map (region source) := by
  rw [locatedAll, List.map_flatMap, edits, List.map_flatMap]
  simp only [List.map_map]
  rfl

/-- The edits made from the last to the first splice in all regions. -/
theorem Accepted.foldl_replace (h : Accepted source rules) :
    ((locatedAll source rules).insertionSort fun a b => b.start ≤ a.start).foldl
      (fun out edit => edit.span.replace out) source = splice 0 (spans source rules) source := by
  obtain ⟨ds, hds⟩ : ∃ ds, ds =
    (locatedAll source rules).insertionSort fun a b => b.start ≤ a.start := ⟨_, rfl⟩
  have hperm : (ds.map Located.span).reverse.Perm ((edits rules).map (region source)) := by
    rw [hds, ← locatedAll_span]
    exact (List.reverse_perm _).trans ((List.perm_insertionSort _ _).map _)
  have hsorted : ds.Pairwise fun a b => b.start ≤ a.start := by
    have : Std.Total fun a b : Located => b.start ≤ a.start := ⟨fun a b => Nat.le_total _ _⟩
    have : IsTrans Located fun a b => b.start ≤ a.start := ⟨fun a b c hab hbc => hbc.trans hab⟩
    rw [hds]
    exact List.pairwise_insertionSort _ _
  have hspans : (ds.map Located.span).reverse = spans source rules := by
    refine h.eq_spans hperm ?_
    rw [List.pairwise_reverse, List.pairwise_map]
    exact hsorted
  rw [← hds, ← foldr_replace (h.ascending fun edit hedit => (h.matched hedit).stop_le) le_rfl,
    ← hspans, List.foldr_reverse, List.foldl_map]

def helpers (rules : List HarnessRule) : Script := rules.flatMap HarnessRule.helpers

/-- The base harness with all edits made, without its last six characters. -/
def body (source : Script) (rules : List HarnessRule) : Script :=
  let out := splice 0 (spans source rules) source
  sliceTo out (out.length - closing.length)

/-- A derivation ends in a text exactly where its rules are accepted. -/
theorem deriveHarness_eq_ok_iff : deriveHarness source rules = .ok derived ↔
    Accepted source rules ∧ derived = body source rules ++ helpers rules ++ closing := by
  rw [deriveHarness]
  split
  · rename_i hends
    rw [Machine.bind_eq_ok_iff]
    simp only [placeRules_eq_ok_iff, List.nil_append]
    constructor
    · rintro ⟨_, ⟨hloc, hown, -, rfl⟩, heq⟩
      have h : Accepted source rules := ⟨hends, hloc, hown⟩
      rw [h.foldl_replace] at heq
      exact ⟨h, (Except.ok.inj heq).symm⟩
    · rintro ⟨h, rfl⟩
      refine ⟨_, ⟨h.locatable, h.owned, by simp, rfl⟩, ?_⟩
      rw [h.foldl_replace]
      rfl
  · rename_i hends
    constructor
    · rintro ⟨⟩
    · rintro ⟨h, -⟩
      exact absurd h.ends hends

def Refused (source : Script) (rules : List HarnessRule) : Prop :=
  ∃ message, deriveHarness source rules = .error message

theorem refused_or_accepted (source : Script) (rules : List HarnessRule) :
    Refused source rules ∨ Accepted source rules := by
  cases h : deriveHarness source rules with
  | error message => exact .inl ⟨message, h⟩
  | ok derived => exact .inr (deriveHarness_eq_ok_iff.mp h).1

/-- The edit ends before the closing line, and its replacement ends a line where its text does. -/
structure Clean (source : Script) (edit : Edit) : Prop where
  clear : (region source edit).stop + closing.length ≤ source.length
  endsLine : ['\n'] <:+ edit.fromText → ['\n'] <:+ edit.toText

namespace Accepted

variable (h : Accepted source rules) {base : Script} (hbase : source = base ++ closing)
  (hclean : ∀ edit ∈ edits rules, Clean source edit)

include h hbase hclean

theorem ascending_base : Ascending 0 (spans source rules) base.length := by
  apply h.ascending
  intro edit hedit
  have hclear := (hclean edit hedit).clear
  have hlen : source.length = base.length + closing.length := by rw [hbase, List.length_append]
  omega

theorem splice_source : splice 0 (spans source rules) source =
    splice 0 (spans source rules) base ++ closing := by
  have happend := splice_append (h.ascending_base hbase hclean) closing
  rw [← hbase] at happend
  exact happend

theorem body_eq : body source rules = splice 0 (spans source rules) base := by
  rw [body, h.splice_source hbase hclean]
  simp only [List.length_append, Nat.cast_add, add_sub_cancel_right]
  rw [sliceTo, if_neg (by omega), Int.toNat_natCast, List.take_left]

omit hbase in
theorem keepsBreaks : ∀ e ∈ spans source rules, e.KeepsBreaks '\n' source := by
  intro e he
  obtain ⟨edit, hedit, rfl⟩ := List.mem_map.mp ((spans_perm source rules).mem_iff.mp he)
  rw [Span.KeepsBreaks, (h.matched hedit).old_region]
  exact ⟨(h.matched hedit).breaks, (hclean edit hedit).endsLine⟩

omit hbase hclean in
theorem not_covers {k : ℕ} (hk : ∀ edit ∈ edits rules, k ∉ coveredLines source edit) :
    ∀ e ∈ spans source rules, ¬e.covers '\n' source k := by
  intro e he
  obtain ⟨edit, hedit, rfl⟩ := List.mem_map.mp ((spans_perm source rules).mem_iff.mp he)
  rw [← (h.matched hedit).mem_coveredLines]
  exact hk edit hedit

theorem line_derived {k : ℕ} (hk : k < lineBreaks base ∨ helpers rules = [])
    (hcover : ∀ edit ∈ edits rules, k ∉ coveredLines source edit) :
    line '\n' (body source rules ++ helpers rules ++ closing) k = line '\n' source k := by
  have hlen : base.length ≤ source.length := by
    rw [hbase, List.length_append]
    omega
  have hasc := h.ascending_base hbase hclean
  have hcount := count_splice hasc hlen (h.keepsBreaks hclean)
  have hsource : source.count '\n' = base.count '\n' + closing.count '\n' := by
    rw [hbase, List.count_append]
  rw [h.splice_source hbase hclean, hsource, List.count_append, Nat.add_right_cancel_iff] at hcount
  rw [← line_splice hasc hlen (h.keepsBreaks hclean) (h.not_covers hcover),
    h.splice_source hbase hclean, h.body_eq hbase hclean]
  obtain hk | hk := hk
  · rw [lineBreaks_eq_count, ← hcount] at hk
    rw [List.append_assoc]
    exact line_append_of_lt hk _ _
  · rw [hk, List.append_nil]

end Accepted

/-- Rules are refused, or their edits each match once and apart. Then the derived text is the base
with every region replaced once, its helpers and the closing line; every line before the closing
one that no edit owns stays as it is; and the order of the rules decides the order of the helpers
only. -/
theorem deriveHarness_faithful (source : Script) (rules : List HarnessRule) :
    (Refused source rules ∨
      (∀ edit ∈ edits rules, Matched source edit) ∧
      (edits rules).Pairwise fun a b =>
        List.Disjoint (coveredLines source a) (coveredLines source b) ∧
          Apart (region source a) (region source b)) ∧
    (∀ derived, deriveHarness source rules = .ok derived →
      (∀ edit ∈ edits rules, Clean source edit) →
      ∃ base spans, source = base ++ closing ∧
        spans.Perm ((edits rules).map (region source)) ∧ Ascending 0 spans base.length ∧
        derived = splice 0 spans base ++ helpers rules ++ closing ∧
        ∀ k, k < lineBreaks base ∨ helpers rules = [] →
          (∀ edit ∈ edits rules, k ∉ coveredLines source edit) →
          line '\n' derived k = line '\n' source k) ∧
    ∀ rules', rules'.Perm rules →
      (Refused source rules ∧ Refused source rules') ∨
      ∃ body, deriveHarness source rules = .ok (body ++ helpers rules ++ closing) ∧
        deriveHarness source rules' = .ok (body ++ helpers rules' ++ closing) := by
  refine ⟨?_, ?_, ?_⟩
  · obtain hrefused | h := refused_or_accepted source rules
    · exact .inl hrefused
    · exact .inr ⟨fun edit hedit => h.matched hedit, h.pairwise⟩
  · intro derived hderived hclean
    obtain ⟨h, rfl⟩ := deriveHarness_eq_ok_iff.mp hderived
    obtain ⟨base, hbase⟩ := h.ends
    refine ⟨base, spans source rules, hbase.symm, spans_perm source rules,
      h.ascending_base hbase.symm hclean, ?_, ?_⟩
    · rw [h.body_eq hbase.symm hclean]
    · intro k hk hcover
      exact h.line_derived hbase.symm hclean hk hcover
  · intro rules' hperm
    obtain hrefused | h := refused_or_accepted source rules
    · obtain hrefused' | h' := refused_or_accepted source rules'
      · exact .inl ⟨hrefused, hrefused'⟩
      · obtain ⟨message, hmessage⟩ := hrefused
        have := deriveHarness_eq_ok_iff.mpr ⟨h'.perm hperm.symm, rfl⟩
        rw [hmessage] at this
        cases this
    · refine .inr ⟨body source rules, deriveHarness_eq_ok_iff.mpr ⟨h, rfl⟩,
        deriveHarness_eq_ok_iff.mpr ⟨h.perm hperm, ?_⟩⟩
      rw [body, body, h.spans_perm_eq hperm]

theorem deriveHarness_faithful_touching :
    let source := "ab\ncd\nef\n\x7d)();\n".toList
    let rules : List HarnessRule :=
      [⟨"late", [⟨"cd".toList, "x".toList⟩], "h\n".toList⟩,
        ⟨"early", [⟨"b\n".toList, "yy\n".toList⟩], []⟩]
    let derived := "ayy\nx\nef\nh\n\x7d)();\n".toList
    deriveHarness source rules = .ok derived ∧ line '\n' derived 2 = line '\n' source 2 := by
  intro source rules derived
  have hderived : deriveHarness source rules = .ok derived := by decide +kernel
  have hclean : ∀ edit ∈ edits rules, Clean source edit := by
    intro edit hedit
    obtain rfl | rfl : edit = ⟨"cd".toList, "x".toList⟩ ∨
        edit = ⟨"b\n".toList, "yy\n".toList⟩ := by
      simpa [edits, rules] using hedit
    · exact ⟨by decide, by decide⟩
    · exact ⟨by decide, by decide⟩
  obtain ⟨base, -, hbase, -, -, -, hlines⟩ :=
    (deriveHarness_faithful source rules).2.1 derived hderived hclean
  obtain rfl : base = "ab\ncd\nef\n".toList := List.append_cancel_right hbase.symm
  exact ⟨hderived, hlines 2 (.inl (by decide)) (by decide)⟩

/-- A helper before the closing line moves that line, which no edit touches. -/
theorem helpers_move_closing_line :
    let source := "\x7d)();\n".toList
    let rule : HarnessRule := { label := "r", edits := [], helpers := "x\n".toList }
    deriveHarness source [rule] = .ok "x\n\x7d)();\n".toList ∧
      line '\n' source 0 = some "\x7d)();".toList ∧
      line '\n' "x\n\x7d)();\n".toList 0 = some "x".toList := by
  refine ⟨?_, ?_, ?_⟩
  · decide +kernel
  · decide
  · decide

end XChainVM.Harness
