import Mathlib.Data.List.Induction
import Mathlib.Logic.Function.Iterate
import XChainVM.Metering.MeterCode

/-! # Charges in chains of binary operators

A chain is a run of binary operators each of which is the left operand of the next. The phase
meets a chain from its innermost operator outwards and charges while it rewrites; each operator
beyond the tenth charges one further operand, so that the charges of a chain end up in front of
its innermost operators, one for each operator beyond ten.
-/

namespace XChainVM.Metering

open Node

/-- The operator of one link of a chain, with what stands to its right. -/
abbrev Link := BinaryOperator × List Node

/-- The chain over the operand `x`, its links from the innermost outwards. -/
def spine (x : Node) : List Link → Node
  | [] => x
  | (op, right) :: links => spine (node (.binaryExpression op) (x :: right)) links

/-- The chain with a charge in front of the left operand of each of its `n` innermost links. -/
def chargedSpine : ℕ → Node → List Link → Node
  | n + 1, x, (op, right) :: links =>
    chargedSpine n (node (.binaryExpression op) (wrapWithGas x :: right)) links
  | _, x, links => spine x links

theorem spine_concat (x : Node) (links : List Link) (op : BinaryOperator) (right : List Node) :
    spine x (links ++ [(op, right)]) = node (.binaryExpression op) (spine x links :: right) := by
  induction links generalizing x with
  | nil => rfl
  | cons link links ih => exact ih _

theorem spine_append (x : Node) (inner outer : List Link) :
    spine x (inner ++ outer) = spine (spine x inner) outer := by
  induction inner generalizing x with
  | nil => rfl
  | cons link inner ih => exact ih _

theorem chargedSpine_zero (x : Node) (links : List Link) : chargedSpine 0 x links = spine x links := by
  rw [chargedSpine]
  rintro n op right rest ⟨⟩

theorem chargedSpine_append {n : ℕ} {inner : List Link} (h : n ≤ inner.length) (x : Node)
    (outer : List Link) :
    chargedSpine n x (inner ++ outer) = spine (chargedSpine n x inner) outer := by
  induction inner generalizing n x with
  | nil =>
    obtain rfl : n = 0 := Nat.le_zero.mp h
    rw [chargedSpine_zero, chargedSpine_zero, spine_append]
  | cons link inner ih =>
    cases n with
    | zero => rw [chargedSpine_zero, chargedSpine_zero, spine_append]
    | succ n => exact ih (Nat.le_of_succ_le_succ h) _

theorem chargedSpine_concat (x : Node) (inner : List Link) (op : BinaryOperator)
    (right : List Node) :
    chargedSpine (inner.length + 1) x (inner ++ [(op, right)]) =
      node (.binaryExpression op) (wrapWithGas (chargedSpine inner.length x inner) :: right) := by
  induction inner generalizing x with
  | nil => rfl
  | cons link inner ih => exact ih _

theorem binaryDepth_spine (x : Node) (links : List Link) :
    binaryDepth (spine x links) = binaryDepth x + links.length := by
  induction links generalizing x with
  | nil => rfl
  | cons link links ih =>
    rw [spine, ih, binaryDepth, List.length_cons]
    omega

/-- A node that is not a link of a chain. -/
theorem binaryDepth_eq_zero {n : Node} : binaryDepth n = 0 ↔
    ∀ op left right, n ≠ node (.binaryExpression op) (left :: right) := by
  constructor
  · rintro h op left right rfl
    rw [binaryDepth] at h
    omega
  · intro h
    unfold binaryDepth
    split
    · exact absurd rfl (h _ _ _)
    · rfl

/-- Trees are built from nodes that are not links, and from chains over such nodes. -/
theorem spine_induct {P : Node → Prop}
    (other : ∀ kind fields, binaryDepth (node kind fields) = 0 → (∀ n ∈ fields, P n) →
      P (node kind fields))
    (chain : ∀ x links, binaryDepth x = 0 → P x → (∀ link ∈ links, ∀ n ∈ link.2, P n) →
      P (spine x links)) (n : Node) : P n := by
  have hspine : ∃ x links, n = spine x links ∧ binaryDepth x = 0 ∧ P x ∧
      ∀ link ∈ links, ∀ n ∈ link.2, P n := by
    induction n using Node.induct with
    | step kind fields ih =>
      have hfields : ∀ n ∈ fields, P n := by
        intro n hn
        obtain ⟨x, links, rfl, hx, hP, hlinks⟩ := ih n hn
        exact chain x links hx hP hlinks
      by_cases hlink : ∃ op left right,
          node kind fields = node (.binaryExpression op) (left :: right)
      · obtain ⟨op, left, right, heq⟩ := hlink
        cases heq
        obtain ⟨x, links, rfl, hx, hP, hlinks⟩ := ih left List.mem_cons_self
        refine ⟨x, links ++ [(op, right)], (spine_concat x links op right).symm, hx, hP, ?_⟩
        rw [List.forall_mem_append, List.forall_mem_singleton]
        exact ⟨hlinks, fun n hn => hfields n (List.mem_cons_of_mem _ hn)⟩
      · have hzero : binaryDepth (node kind fields) = 0 := by
          rw [binaryDepth_eq_zero]
          rintro op left right heq
          exact hlink ⟨op, left, right, heq⟩
        exact ⟨node kind fields, [], rfl, hzero, other kind fields hzero hfields, by simp⟩
  obtain ⟨x, links, rfl, hx, hP, hlinks⟩ := hspine
  exact chain x links hx hP hlinks

/-- The charge goes in front of the left operand of the innermost link. -/
theorem chargeLeft_spine (op : BinaryOperator) (x : Node) (right : List Node) (links : List Link) :
    chargeLeft links.length (spine (node (.binaryExpression op) (x :: right)) links) =
      spine (node (.binaryExpression op) (wrapWithGas x :: right)) links := by
  induction links using List.reverseRecOn with
  | nil => rfl
  | append_singleton links link ih =>
    obtain ⟨op', right'⟩ := link
    rw [spine_concat, spine_concat, List.length_append, List.length_singleton, ← ih]
    obtain ⟨op'', left, rest, heq⟩ : ∃ op'' left rest,
        spine (node (.binaryExpression op) (x :: right)) links =
          node (.binaryExpression op'') (left :: rest) := by
      have hdepth := binaryDepth_spine (node (.binaryExpression op) (x :: right)) links
      by_contra hnone
      rw [binaryDepth_eq_zero.mpr, binaryDepth] at hdepth
      · omega
      · rintro op'' left rest heq
        exact hnone ⟨op'', left, rest, heq⟩
    rw [heq, chargeLeft]

/-- What the phase makes of a chain when it comes to the next operator outwards. -/
theorem chargeBinary_chargedSpine {x : Node} (hx : binaryDepth x = 0) (links : List Link)
    (op : BinaryOperator) (right : List Node) :
    chargeBinary (node (.binaryExpression op)
      (chargedSpine (links.length - 10) x links :: right)) =
    chargedSpine (links.length + 1 - 10) x (links ++ [(op, right)]) := by
  rw [chargeBinary]
  by_cases hshort : links.length < 10
  · rw [Nat.sub_eq_zero_of_le (by omega), Nat.sub_eq_zero_of_le (by omega), chargedSpine_zero,
      chargedSpine_zero, ← spine_concat, binaryDepth_spine, if_neg]
    rw [List.length_append, List.length_singleton]
    omega
  · obtain ⟨inner, ⟨op', right'⟩, outer, rfl, hinner⟩ : ∃ inner link outer,
        links = inner ++ link :: outer ∧ outer.length = 9 := by
      have hdrop : (links.drop (links.length - 10)).length = 10 := by
        rw [List.length_drop]
        omega
      obtain ⟨link, outer, hcons⟩ := List.exists_cons_of_length_pos (by rw [hdrop]; omega)
      refine ⟨links.take (links.length - 10), link, outer, ?_, ?_⟩
      · rw [← hcons, List.take_append_drop]
      · rw [hcons, List.length_cons] at hdrop
        omega
    have hten : (outer ++ [(op, right)]).length = 10 := by
      rw [List.length_append, List.length_singleton, hinner]
    have hlen : (inner ++ (op', right') :: outer).length = inner.length + 10 := by
      rw [List.length_append, List.length_cons, hinner]
    have hsplit : inner ++ (op', right') :: outer ++ [(op, right)] =
        inner ++ [(op', right')] ++ (outer ++ [(op, right)]) := by simp
    rw [hlen, hsplit, Nat.add_sub_cancel, show inner.length + 10 + 1 - 10 = inner.length + 1 by omega,
      chargedSpine_append (Nat.le_refl _), spine, ← spine_concat, if_pos, ← hten, chargeLeft_spine,
      chargedSpine_append, chargedSpine_concat]
    · exact Nat.le_of_eq (by rw [List.length_append, List.length_singleton])
    · rw [binaryDepth_spine, hten]
      rw [binaryDepth]
      omega

theorem binaryDepth_map_eq_zero (f : Node → Node) {kind : Kind} {fields : List Node}
    (h : binaryDepth (node kind fields) = 0) : binaryDepth (node kind (fields.map f)) = 0 := by
  rw [binaryDepth_eq_zero] at h ⊢
  rintro op left right heq
  cases fields with
  | nil => cases heq
  | cons n fields =>
    cases heq
    exact h op n fields rfl

theorem injectBinaryDepthGas_other {kind : Kind} {fields : List Node}
    (h : binaryDepth (node kind fields) = 0) :
    injectBinaryDepthGas (node kind fields) = node kind (fields.map injectBinaryDepthGas) := by
  have hzero := binaryDepth_map_eq_zero injectBinaryDepthGas h
  rw [injectBinaryDepthGas, mapUp, mapUpList_eq, chargeBinary, if_neg]
  · rfl
  · change ¬10 < binaryDepth (node kind (fields.map injectBinaryDepthGas))
    omega

def injectLink (link : Link) : Link := (link.1, link.2.map injectBinaryDepthGas)

/-- A chain of `n` operators has `n - 10` charges, in front of its innermost operators, and its
operands in their order. -/
theorem injectBinaryDepthGas_spine {x : Node} (hx : binaryDepth x = 0) (links : List Link) :
    injectBinaryDepthGas (spine x links) =
      chargedSpine (links.length - 10) (injectBinaryDepthGas x) (links.map injectLink) := by
  have hzero : binaryDepth (injectBinaryDepthGas x) = 0 := by
    obtain ⟨kind, fields⟩ := x
    rw [injectBinaryDepthGas_other hx]
    exact binaryDepth_map_eq_zero _ hx
  induction links using List.reverseRecOn with
  | nil => rw [List.map_nil, List.length_nil, chargedSpine_zero, spine, spine]
  | append_singleton links link ih =>
    obtain ⟨op, right⟩ := link
    have hnode : injectBinaryDepthGas (spine x (links ++ [(op, right)])) = chargeBinary
        (node (.binaryExpression op)
          (injectBinaryDepthGas (spine x links) :: right.map injectBinaryDepthGas)) := by
      rw [spine_concat, injectBinaryDepthGas, mapUp, mapUpList_eq]
      rfl
    have hlen : links.length = (links.map injectLink).length := (List.length_map _).symm
    rw [hnode, ih, hlen, chargeBinary_chargedSpine hzero, List.map_append, List.length_append,
      List.length_singleton, ← hlen]
    rfl

def isGasCall : Node → Bool
  | node (.callExpression _) (callee :: _) => callee.kind = .identifier "__gas"
  | _ => false

mutual

/-- The calls of `__gas` in a tree. -/
def gasCalls : Node → ℕ
  | node kind fields => gasCallsList fields + if isGasCall (node kind fields) then 1 else 0

def gasCallsList : List Node → ℕ
  | [] => 0
  | n :: rest => gasCalls n + gasCallsList rest

end

mutual

/-- The lengths of the chains that begin in a tree, where `link` says that the tree is the left
operand of a link. -/
def chainsAt (link : Bool) : Node → List ℕ
  | node (.binaryExpression op) (left :: right) =>
    (if link then [] else [binaryDepth (node (.binaryExpression op) (left :: right))]) ++
      (chainsAt true left ++ chainsList right)
  | node _ fields => chainsList fields

def chainsList : List Node → List ℕ
  | [] => []
  | n :: rest => chainsAt false n ++ chainsList rest

end

theorem gasCalls_link (op : BinaryOperator) (fields : List Node) :
    gasCalls (node (.binaryExpression op) fields) = gasCallsList fields := by
  rw [gasCalls, isGasCall]
  · rfl
  · rintro _ _ _ ⟨⟩

theorem gasCalls_wrapWithGas (n : Node) : gasCalls (wrapWithGas n) = gasCalls n + 1 := by
  simp [wrapWithGas, gasCallExpr, astCall, astIdent, astLiteral, gasCalls, gasCallsList, isGasCall,
    Node.kind]
  omega

def linkCalls (links : List Link) : ℕ := (links.map fun link => gasCallsList link.2).sum

theorem gasCalls_spine (x : Node) (links : List Link) :
    gasCalls (spine x links) = gasCalls x + linkCalls links := by
  induction links generalizing x with
  | nil => rfl
  | cons link links ih =>
    obtain ⟨op, right⟩ := link
    rw [spine, ih, gasCalls_link, gasCallsList, linkCalls, linkCalls, List.map_cons, List.sum_cons,
      Nat.add_assoc]

theorem gasCalls_chargedSpine {n : ℕ} {links : List Link} (h : n ≤ links.length) (x : Node) :
    gasCalls (chargedSpine n x links) = gasCalls x + linkCalls links + n := by
  induction links generalizing n x with
  | nil =>
    obtain rfl : n = 0 := Nat.le_zero.mp h
    rw [chargedSpine_zero, gasCalls_spine, Nat.add_zero]
  | cons link links ih =>
    cases n with
    | zero => rw [chargedSpine_zero, gasCalls_spine, Nat.add_zero]
    | succ n =>
      obtain ⟨op, right⟩ := link
      rw [chargedSpine, ih (Nat.le_of_succ_le_succ h), gasCalls_link, gasCallsList,
        gasCalls_wrapWithGas, linkCalls, linkCalls, List.map_cons, List.sum_cons]
      dsimp only
      omega

def chains (n : Node) : List ℕ := chainsAt false n

/-- What the phase inserts: for each maximal chain of `n` operators, `n - 10` charges. -/
def chainCharges (n : Node) : ℕ := ((chains n).map (· - 10)).sum

theorem chainsAt_other {n : Node} (h : binaryDepth n = 0) (link : Bool) :
    chainsAt link n = chainsList n.fields := by
  obtain ⟨kind, fields⟩ := n
  rw [chainsAt]
  · rfl
  · rintro op left right rfl rfl
    exact binaryDepth_eq_zero.mp h op left right rfl

theorem chainsAt_true_spine {x : Node} (hx : binaryDepth x = 0) (links : List Link) :
    chainsAt true (spine x links) = chains x ++ links.flatMap fun link => chainsList link.2 := by
  induction links using List.reverseRecOn with
  | nil => simp [spine, chains, chainsAt_other hx]
  | append_singleton links link ih =>
    obtain ⟨op, right⟩ := link
    rw [spine_concat, chainsAt, if_pos rfl, ih]
    simp

theorem chains_spine {x : Node} (hx : binaryDepth x = 0) (links : List Link) (link : Link) :
    chains (spine x (links ++ [link])) = (links.length + 1) ::
      (chains x ++ (links ++ [link]).flatMap fun link => chainsList link.2) := by
  obtain ⟨op, right⟩ := link
  rw [spine_concat, chains, chainsAt, if_neg (by simp), chainsAt_true_spine hx, binaryDepth,
    binaryDepth_spine, hx]
  simp

theorem kind_chargeLeft (depth : ℕ) (n : Node) : (chargeLeft depth n).kind = n.kind := by
  unfold chargeLeft
  split <;> rfl

theorem kind_injectBinaryDepthGas (n : Node) : (injectBinaryDepthGas n).kind = n.kind := by
  obtain ⟨kind, fields⟩ := n
  rw [injectBinaryDepthGas, mapUp, chargeBinary]
  split
  · exact kind_chargeLeft 10 _
  · rfl

theorem isGasCall_map (kind : Kind) (fields : List Node) :
    isGasCall (node kind (fields.map injectBinaryDepthGas)) = isGasCall (node kind fields) := by
  unfold isGasCall
  cases fields with
  | nil => cases kind <;> rfl
  | cons callee args =>
    cases kind with
    | callExpression optional =>
      simp only [List.map_cons, kind_injectBinaryDepthGas]
    | _ => rfl

theorem gasCallsList_map {fields : List Node}
    (ih : ∀ n ∈ fields, gasCalls (injectBinaryDepthGas n) = gasCalls n + chainCharges n) :
    gasCallsList (fields.map injectBinaryDepthGas) =
      gasCallsList fields + ((chainsList fields).map (· - 10)).sum := by
  induction fields with
  | nil => rfl
  | cons n fields ihFields =>
    obtain ⟨hn, hfields⟩ := List.forall_mem_cons.mp ih
    rw [List.map_cons, gasCallsList, gasCallsList, chainsList, hn, ihFields hfields, chainCharges,
      chains, List.map_append, List.sum_append]
    omega

theorem linkCalls_map {links : List Link}
    (ih : ∀ link ∈ links, ∀ n ∈ link.2,
      gasCalls (injectBinaryDepthGas n) = gasCalls n + chainCharges n) :
    linkCalls (links.map injectLink) =
      linkCalls links + ((links.flatMap fun link => chainsList link.2).map (· - 10)).sum := by
  induction links with
  | nil => rfl
  | cons link links ihLinks =>
    obtain ⟨hlink, hlinks⟩ := List.forall_mem_cons.mp ih
    have hrest := ihLinks hlinks
    rw [linkCalls] at hrest ⊢
    rw [linkCalls] at hrest ⊢
    simp only [List.map_cons, List.sum_cons, List.flatMap_cons, List.map_append, List.sum_append,
      injectLink, gasCallsList_map hlink] at hrest ⊢
    omega

/-- The phase inserts the charges of the chains, and no others. -/
theorem gasCalls_injectBinaryDepthGas (n : Node) :
    gasCalls (injectBinaryDepthGas n) = gasCalls n + chainCharges n := by
  induction n using spine_induct with
  | other kind fields h ih =>
    rw [injectBinaryDepthGas_other h, gasCalls, gasCalls, isGasCall_map, gasCallsList_map ih,
      chainCharges, chains, chainsAt_other h]
    simp only [Node.fields]
    omega
  | chain x links hx ihx ihlinks =>
    have hlinks := linkCalls_map ihlinks
    rw [injectBinaryDepthGas_spine hx, gasCalls_chargedSpine (by
      rw [List.length_map]
      omega), gasCalls_spine, ihx, hlinks, chainCharges, chainCharges]
    obtain rfl | ⟨inner, link, rfl⟩ := List.eq_nil_or_concat links
    · simp [spine, linkCalls]
    · rw [List.concat_eq_append, chains_spine hx, List.length_append, List.length_singleton]
      simp only [List.map_cons, List.sum_cons, List.map_append, List.sum_append]
      omega

section Meaning

variable {D : Type} (interp : Kind → List D → D) (tick : D → D)

mutual

/-- The meaning of a tree, put together from the meanings of its parts. -/
def denote : Node → D
  | node kind fields => interp kind (denoteList fields)

def denoteList : List Node → List D
  | [] => []
  | n :: rest => denote n :: denoteList rest

end

mutual

/-- The meaning of a tree of which every maximal chain of `n` operators first pays `n - 10`
charges. Where `link` holds the tree is inside a chain. -/
def denotePaid (link : Bool) : Node → D
  | node (.binaryExpression op) (left :: right) =>
    let meaning := interp (.binaryExpression op) (denotePaid true left :: denotePaidList right)
    if link then meaning
    else tick^[binaryDepth (node (.binaryExpression op) (left :: right)) - 10] meaning
  | node kind fields => interp kind (denotePaidList fields)

def denotePaidList : List Node → List D
  | [] => []
  | n :: rest => denotePaid false n :: denotePaidList rest

end

/-- A sequence that begins with a charge pays it and goes on, and a binary operator evaluates its
left operand first. -/
structure ChargesFirst : Prop where
  sequence : ∀ e, denote interp (wrapWithGas e) = tick (denote interp e)
  left : ∀ op d right, interp (.binaryExpression op) (tick d :: right) =
    tick (interp (.binaryExpression op) (d :: right))

theorem denoteList_eq (ns : List Node) : denoteList interp ns = ns.map (denote interp) := by
  induction ns with
  | nil => rfl
  | cons n ns ih => rw [denoteList, ih, List.map_cons]

theorem denotePaidList_eq (ns : List Node) :
    denotePaidList interp tick ns = ns.map (denotePaid interp tick false) := by
  induction ns with
  | nil => rfl
  | cons n ns ih => rw [denotePaidList, ih, List.map_cons]

def spineMeaning : D → List (BinaryOperator × List D) → D
  | d, [] => d
  | d, (op, right) :: links => spineMeaning (interp (.binaryExpression op) (d :: right)) links

theorem spineMeaning_concat (d : D) (links : List (BinaryOperator × List D)) (op : BinaryOperator)
    (right : List D) : spineMeaning interp d (links ++ [(op, right)]) =
      interp (.binaryExpression op) (spineMeaning interp d links :: right) := by
  induction links generalizing d with
  | nil => rfl
  | cons link links ih => exact ih _

theorem denote_spine (x : Node) (links : List Link) :
    denote interp (spine x links) = spineMeaning interp (denote interp x)
      (links.map fun link => (link.1, link.2.map (denote interp))) := by
  induction links generalizing x with
  | nil => rfl
  | cons link links ih =>
    rw [spine, ih, denote, denoteList, denoteList_eq]
    rfl

variable {interp tick}

theorem ChargesFirst.spineMeaning_tick (h : ChargesFirst interp tick) (d : D)
    (links : List (BinaryOperator × List D)) :
    spineMeaning interp (tick d) links = tick (spineMeaning interp d links) := by
  induction links generalizing d with
  | nil => rfl
  | cons link links ih => rw [spineMeaning, h.left, ih, spineMeaning]

/-- The charges of a chain are paid one after the other before its first operand. -/
theorem ChargesFirst.denote_chargedSpine (h : ChargesFirst interp tick) {n : ℕ} {links : List Link}
    (hn : n ≤ links.length) (x : Node) :
    denote interp (chargedSpine n x links) = tick^[n] (denote interp (spine x links)) := by
  induction links generalizing n x with
  | nil =>
    obtain rfl : n = 0 := Nat.le_zero.mp hn
    rw [chargedSpine_zero, Function.iterate_zero_apply]
  | cons link links ih =>
    obtain ⟨op, right⟩ := link
    cases n with
    | zero => rw [chargedSpine_zero, Function.iterate_zero_apply]
    | succ n =>
      have hstep : denote interp (spine (node (.binaryExpression op) (wrapWithGas x :: right)) links) =
          tick (denote interp (spine (node (.binaryExpression op) (x :: right)) links)) := by
        rw [denote_spine, denote_spine, denote, denoteList, h.sequence, h.left,
          h.spineMeaning_tick, denote, denoteList]
      rw [chargedSpine, ih (Nat.le_of_succ_le_succ hn), hstep, spine, Function.iterate_succ_apply]

theorem denotePaid_other {n : Node} (h : binaryDepth n = 0) (link : Bool) :
    denotePaid interp tick link n = interp n.kind (n.fields.map (denotePaid interp tick false)) := by
  obtain ⟨kind, fields⟩ := n
  rw [denotePaid, denotePaidList_eq]
  · rfl
  · rintro op left right rfl rfl
    exact binaryDepth_eq_zero.mp h op left right rfl

theorem denotePaid_true_spine {x : Node} (hx : binaryDepth x = 0) (links : List Link) :
    denotePaid interp tick true (spine x links) = spineMeaning interp (denotePaid interp tick false x)
      (links.map fun link => (link.1, link.2.map (denotePaid interp tick false))) := by
  induction links using List.reverseRecOn with
  | nil => rw [spine, List.map_nil, spineMeaning, denotePaid_other hx, denotePaid_other hx]
  | append_singleton links link ih =>
    obtain ⟨op, right⟩ := link
    rw [spine_concat, denotePaid, ih, denotePaidList_eq, List.map_append, List.map_singleton,
      spineMeaning_concat]
    rfl

theorem denotePaid_spine {x : Node} (hx : binaryDepth x = 0) (links : List Link) :
    denotePaid interp tick false (spine x links) = tick^[links.length - 10]
      (spineMeaning interp (denotePaid interp tick false x)
        (links.map fun link => (link.1, link.2.map (denotePaid interp tick false)))) := by
  obtain rfl | ⟨inner, ⟨op, right⟩, rfl⟩ := List.eq_nil_or_concat links
  · rfl
  · rw [List.concat_eq_append, spine_concat, denotePaid, if_neg (by simp),
      denotePaid_true_spine hx, denotePaidList_eq, List.map_append, List.map_singleton,
      spineMeaning_concat, binaryDepth, binaryDepth_spine, hx, Nat.zero_add, List.length_append,
      List.length_singleton]

/-- The instrumented tree means what the tree means, each chain paying for its length first. -/
theorem ChargesFirst.denote_injectBinaryDepthGas (h : ChargesFirst interp tick) (n : Node) :
    denote interp (injectBinaryDepthGas n) = denotePaid interp tick false n := by
  induction n using spine_induct with
  | other kind fields hzero ih =>
    rw [injectBinaryDepthGas_other hzero, denotePaid_other hzero, denote, denoteList_eq, List.map_map]
    congr 1
    exact List.map_congr_left ih
  | chain x links hx ihx ihlinks =>
    rw [injectBinaryDepthGas_spine hx, h.denote_chargedSpine (by
      rw [List.length_map]
      omega), denote_spine, ihx, denotePaid_spine hx, List.map_map]
    congr 2
    apply List.map_congr_left
    intro link hlink
    simp only [Function.comp_apply, injectLink, List.map_map, Prod.mk.injEq, true_and]
    exact List.map_congr_left (ihlinks link hlink)

/-- Where charges are left out of account, both trees mean the same. -/
theorem denotePaid_id (link : Bool) (n : Node) : denotePaid interp id link n = denote interp n := by
  induction n using Node.induct generalizing link with
  | step kind fields ih =>
    have hlist : fields.map (denotePaid interp id false) = fields.map (denote interp) :=
      List.map_congr_left fun n hn => ih n hn false
    by_cases hlink : binaryDepth (node kind fields) = 0
    · rw [denotePaid_other hlink, denote, denoteList_eq, ← hlist]
      rfl
    · obtain ⟨op, left, right, heq⟩ : ∃ op left right,
          node kind fields = node (.binaryExpression op) (left :: right) := by
        by_contra hnone
        rw [binaryDepth_eq_zero] at hlink
        apply hlink
        rintro op left right heq
        exact hnone ⟨op, left, right, heq⟩
      cases heq
      rw [List.map_cons, List.map_cons] at hlist
      rw [denotePaid, denote, denoteList, denotePaidList_eq, ih left List.mem_cons_self true,
        denoteList_eq, (List.cons.inj hlist).2, Function.iterate_id, id, ite_self]

end Meaning

/-- For every tree: a chain of `n` operators receives `n - 10` charges, one before the left
operand of each of its innermost operators, and keeps its operands in their order; other nodes are
kept; all in all the charges of the maximal chains are inserted; and the tree means what it meant,
each chain paying its charges first. -/
theorem injectBinaryDepthGas_exact :
    (∀ x links, binaryDepth x = 0 → injectBinaryDepthGas (spine x links) =
      chargedSpine (links.length - 10) (injectBinaryDepthGas x) (links.map injectLink)) ∧
    (∀ kind fields, binaryDepth (node kind fields) = 0 →
      injectBinaryDepthGas (node kind fields) = node kind (fields.map injectBinaryDepthGas)) ∧
    (∀ n, gasCalls (injectBinaryDepthGas n) = gasCalls n + ((chains n).map (· - 10)).sum) ∧
    ∀ (D : Type) (interp : Kind → List D → D) (tick : D → D), ChargesFirst interp tick → ∀ n,
      denote interp (injectBinaryDepthGas n) = denotePaid interp tick false n ∧
      (tick = id → denote interp (injectBinaryDepthGas n) = denote interp n) := by
  refine ⟨fun x links hx => injectBinaryDepthGas_spine hx links,
    fun kind fields h => injectBinaryDepthGas_other h, gasCalls_injectBinaryDepthGas, ?_⟩
  intro D interp tick h n
  refine ⟨h.denote_injectBinaryDepthGas n, ?_⟩
  rintro rfl
  rw [h.denote_injectBinaryDepthGas, denotePaid_id]

def readOrder : Kind → List (List String) → List String
  | .identifier x, _ => [x]
  | _, parts => parts.flatten

theorem injectBinaryDepthGas_exact_reads :
    denote readOrder (injectBinaryDepthGas
      (spine (astIdent "a") (List.replicate 12 (.sub, [astIdent "b"])))) =
    "__gas" :: "__gas" :: "a" :: List.replicate 12 "b" := by
  have hfirst : ChargesFirst readOrder ("__gas" :: ·) := {
    sequence := fun e => by
      simp [wrapWithGas, gasCallExpr, astCall, astIdent, astLiteral, denote, denoteList, readOrder]
    left := fun op d right => rfl }
  rw [(injectBinaryDepthGas_exact.2.2.2 _ readOrder _ hfirst _).1]
  decide +kernel

end XChainVM.Metering
