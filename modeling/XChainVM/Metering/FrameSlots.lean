import Mathlib.Algebra.Order.BigOperators.Group.List
import Mathlib.Algebra.Order.Group.Nat
import XChainVM.Metering.FrameWeight
import XChainVM.Metering.Grammar
import XChainVM.Metering.Scope

/-! # The slots a frame needs

Evaluation from left to right: a frame has one slot for every name its function binds, and
beside them the temporaries held at a point of the evaluation. The weight of a function covers
its body. It covers the parameters only where they hold little.
-/

namespace XChainVM.Metering

open Node

namespace Kind

/-- Statements, clauses and bodies: nothing is held from one part to the next, except for what
the statement itself holds. -/
def isStatement (kind : Kind) : Bool :=
  kind = .program || match kind.role with
    | .statement | .functionBody | .switchCase | .catchClause => true
    | _ => false

def isCall : Kind → Bool
  | callExpression _ | newExpression => true
  | _ => false

def hasTarget : Kind → Bool
  | variableDeclarator | assignmentExpression _ | assignmentPattern => true
  | _ => false

theorem not_sequential {kind : Kind} (h : kind.isStatement = false) :
    SEQUENTIAL kind = false ∧ STATEMENT_HOLD kind = none := by
  cases kind <;> first | exact ⟨rfl, rfl⟩ | cases h

/-- A class declaration is weighed as an expression. -/
theorem sequential_or_class {kind : Kind} (h : kind.isStatement = true) :
    (SEQUENTIAL kind || (STATEMENT_HOLD kind).isSome) = true ∨ kind = .classDeclaration := by
  cases kind <;> first | exact .inl rfl | exact .inr rfl | cases h

theorem isFunction_eq_false_of_isStatement {kind : Kind} (h : kind.isStatement = true) :
    kind.isFunction = false := by
  cases kind <;> first | rfl | cases h

theorem plain_of_isCall {kind : Kind} (h : kind.isCall = true) :
    kind.isStatement = false ∧ kind.isFunction = false := by
  cases kind <;> first | exact ⟨rfl, rfl⟩ | cases h

theorem plain_of_hasTarget {kind : Kind} (h : kind.hasTarget = true) :
    kind.isStatement = false ∧ kind.isFunction = false := by
  cases kind <;> first | exact ⟨rfl, rfl⟩ | cases h

end Kind

namespace Node

def children : List Node → List Node
  | [] => []
  | node .absent _ :: rest => children rest
  | node .list elements :: rest => children elements ++ children rest
  | n :: rest => n :: children rest

end Node

/-- At some point of the evaluation of a node, `n` temporaries are held. -/
inductive Live : Node → ℕ → Prop
  | closure {kind fields} : kind.isFunction = true → Live (node kind fields) 1
  | value {kind fields} : kind.isStatement = false → kind.isFunction = false → Live (node kind fields) 1
  | part {kind fields c n} : kind.isStatement = true → c ∈ children fields → Live c n →
      Live (node kind fields) ((STATEMENT_HOLD kind).getD 0 + n)
  | operand {kind fields before c after n} : kind.isStatement = false → kind.isFunction = false →
      children fields = before ++ c :: after → Live c n →
      Live (node kind fields) (before.length + n)
  | target {kind left right n} : kind.hasTarget = true → children [left, right] = [left, right] →
      Live left n → Live (node kind [left, right]) (1 + n)
  /-- The receiver is held beside the callee. -/
  | argument {kind fields callee before c after n} : kind.isCall = true →
      children fields = callee :: before ++ c :: after → Live c n →
      Live (node kind fields) (2 + before.length + n)
  | call {kind callee args} : kind.isCall = true → Live (node kind [callee, list args]) (2 + args.length)
  /-- A tagged template is a call whose first argument holds the texts. -/
  | substitution {tag expressions quasis before c after n} :
      children [tag] = [tag] → children expressions = before ++ c :: after → Live c n →
      Live (node .taggedTemplateExpression [tag, node .templateLiteral [list expressions, list quasis]])
        (3 + before.length + n)
  | template {tag expressions cooked raw quasis} : children [tag] = [tag] →
      Live (node .taggedTemplateExpression
          [tag, node .templateLiteral [list expressions, list (node (.templateElement cooked raw) [] :: quasis)]])
        (3 + (children expressions).length)

namespace Node

theorem children_cons (n : Node) (rest : List Node) : children (n :: rest) = children [n] ++ children rest := by
  obtain ⟨kind, fields⟩ := n
  cases kind <;> simp [children]

theorem demandHolding_snd (fields : List Node) (i : ℕ) :
    (demandHolding fields i).2 = i + (children fields).length := by
  fun_induction children fields generalizing i with
  | case1 => rfl
  | case2 _ rest ih => rw [demandHolding, ih]
  | case3 elements rest ihe ih =>
    simp only [demandHolding, ihe, ih, List.length_append]
    omega
  | case4 n rest habsent hlist ih =>
    rw [demandHolding, ih, List.length_cons]
    · omega
    · exact habsent
    · exact hlist

/-- A child is weighed above every child before it. -/
theorem le_demandHolding {fields before after : List Node} {c : Node} (i : ℕ)
    (h : children fields = before ++ c :: after) :
    i + before.length + demand c ≤ (demandHolding fields i).1 := by
  fun_induction children fields generalizing i before after with
  | case1 => cases before <;> cases h
  | case2 _ rest ih =>
    rw [demandHolding]
    exact ih i h
  | case3 elements rest ihe ih =>
    simp only [demandHolding, demandHolding_snd]
    rcases List.append_eq_append_iff.mp h with ⟨between, rfl, hrest⟩ | ⟨between, helements, hrest⟩
    · have := ih (i + (children elements).length) hrest
      simp only [List.length_append]
      omega
    · cases between with
      | nil =>
        have := @ih [] after (i + (children elements).length) hrest.symm
        rw [helements, List.append_nil] at this
        rw [helements, List.append_nil]
        simp only [List.length_nil, Nat.add_zero] at this
        omega
      | cons b between =>
        obtain ⟨rfl, rfl⟩ := List.cons.inj hrest
        have := ihe i helements
        omega
  | case4 n rest habsent hlist ih =>
    rw [demandHolding]
    · cases before with
      | nil =>
        obtain ⟨rfl, _⟩ := List.cons.inj h
        exact le_max_left (i + demand n) _
      | cons b before =>
        obtain ⟨rfl, hrest⟩ := List.cons.inj h
        have := ih (i + 1) hrest
        simp only [List.length_cons]
        omega
    · exact habsent
    · exact hlist

theorem le_demandAfter {fields : List Node} {c : Node} (h : c ∈ children fields) :
    demand c ≤ demandAfter fields := by
  fun_induction children fields with
  | case1 => cases h
  | case2 _ rest ih =>
    rw [demandAfter]
    exact ih h
  | case3 elements rest ihe ih =>
    rw [demandAfter]
    rcases List.mem_append.mp h with h | h
    · exact (ihe h).trans (le_max_left _ _)
    · exact (ih h).trans (le_max_right _ _)
  | case4 n rest habsent hlist ih =>
    rw [demandAfter]
    · rcases List.mem_cons.mp h with rfl | h
      · exact le_max_left _ _
      · exact (ih h).trans (le_max_right _ _)
    · exact habsent
    · exact hlist

end Node

theorem demand_closure {kind : Kind} (fields : List Node) (h : kind.isFunction = true) :
    demand (node kind fields) = 1 := by
  rw [demand, if_pos h]

/-- An expression holds the children before the one it evaluates, and its own value. -/
theorem lt_demand {kind : Kind} {fields before after : List Node} {c : Node} (hs : kind.isStatement = false)
    (hf : kind.isFunction = false) (h : children fields = before ++ c :: after) :
    before.length + demand c < demand (node kind fields) := by
  have hle := le_demandHolding 0 h
  obtain ⟨hseq, hhold⟩ := Kind.not_sequential hs
  rw [demand, hf, hseq, hhold]
  cases kind <;> simp <;> omega

theorem demand_pos {kind : Kind} (fields : List Node) (hs : kind.isStatement = false) :
    1 ≤ demand (node kind fields) := by
  obtain ⟨hseq, hhold⟩ := Kind.not_sequential hs
  cases hf : kind.isFunction with
  | true => exact (demand_closure fields hf).ge
  | false =>
    rw [demand, hf, hseq, hhold]
    cases kind <;> simp

theorem demand_part {kind : Kind} {fields : List Node} {c : Node} (hs : kind.isStatement = true)
    (h : c ∈ children fields) : (STATEMENT_HOLD kind).getD 0 + demand c ≤ demand (node kind fields) := by
  have hafter := le_demandAfter h
  obtain ⟨before, after, hsplit⟩ := List.append_of_mem h
  have hholding := le_demandHolding 0 hsplit
  rw [demand, Kind.isFunction_eq_false_of_isStatement hs, if_neg Bool.false_ne_true]
  rcases Kind.sequential_or_class hs with hseq | rfl
  · rw [if_pos hseq]
    omega
  · simp only [SEQUENTIAL, STATEMENT_HOLD, Option.isSome_none, Option.getD_none, Bool.or_false,
      Bool.false_eq_true, if_false]
    omega

theorem demand_call {kind : Kind} (callee : Node) (args : List Node) (h : kind.isCall = true) :
    2 + args.length < demand (node kind [callee, list args]) := by
  cases kind with
  | callExpression optional =>
    simp only [demand, Kind.isFunction, SEQUENTIAL, STATEMENT_HOLD, argumentCount, Option.isSome_none,
      Bool.or_false, Bool.false_eq_true, if_false]
    omega
  | newExpression =>
    simp only [demand, Kind.isFunction, SEQUENTIAL, STATEMENT_HOLD, argumentCount, Option.isSome_none,
      Bool.or_false, Bool.false_eq_true, if_false]
    omega
  | _ => cases h

theorem demand_tagged {tag : Node} (fields : List Node) (htag : children [tag] = [tag]) :
    1 + demand (node .templateLiteral fields) <
      demand (node .taggedTemplateExpression [tag, node .templateLiteral fields]) := by
  have hsplit : children [tag, node .templateLiteral fields] = [tag] ++ node .templateLiteral fields :: [] := by
    rw [children_cons, htag]
    simp [children]
  exact lt_demand rfl rfl hsplit

/-- No point of an evaluation holds more than was weighed. -/
theorem Live.le_demand {e : Node} {n : ℕ} (h : Live e n) : n ≤ demand e := by
  induction h with
  | closure hf => exact (demand_closure _ hf).ge
  | value hs _ => exact demand_pos _ hs
  | part hs hc _ ih =>
    have := demand_part hs hc
    omega
  | operand hs hf hsplit _ ih =>
    have := lt_demand hs hf hsplit
    omega
  | @target kind left right n ht hsplit _ ih =>
    obtain ⟨hs, hf⟩ := Kind.plain_of_hasTarget ht
    have hleft : children [left, right] = [] ++ left :: [right] := hsplit
    have := lt_demand hs hf hleft
    simp only [List.length_nil] at this
    omega
  | @argument kind fields callee before c after n hcall hsplit _ ih =>
    obtain ⟨hs, hf⟩ := Kind.plain_of_isCall hcall
    have := lt_demand hs hf hsplit
    simp only [List.length_cons] at this
    omega
  | @call kind callee args hcall =>
    have := demand_call callee args hcall
    omega
  | @substitution tag expressions quasis before c after n htag hsplit _ ih =>
    have hheld : children [list expressions, list quasis] = before ++ c :: (after ++ children quasis) := by
      simp [children, hsplit]
    have hinner : before.length + demand c < demand (node .templateLiteral [list expressions, list quasis]) :=
      lt_demand rfl rfl hheld
    have houter := demand_tagged [list expressions, list quasis] htag
    omega
  | @template tag expressions cooked raw quasis htag =>
    have hheld : children [list expressions, list (node (.templateElement cooked raw) [] :: quasis)] =
        children expressions ++ node (.templateElement cooked raw) [] :: children quasis := by
      simp [children]
    have hinner : (children expressions).length + demand (node (.templateElement cooked raw) []) <
        demand (node .templateLiteral [list expressions, list (node (.templateElement cooked raw) [] :: quasis)]) :=
      lt_demand rfl rfl hheld
    have houter := demand_tagged [list expressions, list (node (.templateElement cooked raw) [] :: quasis)] htag
    have htext : demand (node (.templateElement cooked raw) []) = 1 := rfl
    omega

def declaredNames : Node → List String
  | node .variableDeclarator (id :: _) => id.names.bound
  | node .catchClause (param :: _) => param.names.bound
  | node .functionDeclaration (node (.identifier x) _ :: _)
  | node .classDeclaration (node (.identifier x) _ :: _) => [x]
  | _ => []

mutual

/-- The names declared by the statements at and below a node, at any block depth. The name of a
function or class expression is bound in a scope of that expression. -/
def localNames : Node → List String
  | node kind fields =>
    declaredNames (node kind fields) ++
      if kind.isStatement || kind = .list then localNamesList fields else []

def localNamesList : List Node → List String
  | [] => []
  | n :: rest => localNames n ++ localNamesList rest

end

theorem length_flatMap_bound_le {patterns : List Node}
    (ih : ∀ p ∈ patterns, p.names.bound.length ≤ patternNames p) :
    ((patterns.map names).flatMap Names.bound).length ≤ patternNamesList patterns := by
  induction patterns with
  | nil => exact le_rfl
  | cons p rest ihrest =>
    obtain ⟨hp, hrest⟩ := List.forall_mem_cons.mp ih
    rw [List.map_cons, List.flatMap_cons, List.length_append, patternNamesList]
    exact Nat.add_le_add hp (ihrest hrest)

theorem length_bound_le (pattern : Node) : pattern.names.bound.length ≤ patternNames pattern := by
  induction pattern using Node.induct with
  | step kind fields ih =>
    rw [names_node]
    cases kind with
    | identifier x => exact le_rfl
    | list => exact length_flatMap_bound_le ih
    | arrayPattern | objectPattern =>
      rcases fields with _ | ⟨elements, _ | ⟨_, _⟩⟩
      · exact Nat.zero_le _
      · exact ih elements (List.mem_singleton_self elements)
      · exact Nat.zero_le _
    | patternProperty shorthand computed =>
      rcases fields with _ | ⟨key, _ | ⟨value, _ | ⟨_, _⟩⟩⟩
      · exact Nat.zero_le _
      · exact Nat.zero_le _
      · exact ih value (by simp)
      · exact Nat.zero_le _
    | restElement | assignmentPattern =>
      rcases fields with _ | ⟨left, rest⟩
      · exact Nat.zero_le _
      · exact ih left List.mem_cons_self
    | literal value =>
      cases value <;> cases fields <;> exact Nat.zero_le _
    | variableDeclaration kind =>
      cases kind <;> rcases fields with _ | ⟨_, _ | ⟨_, _⟩⟩ <;> exact Nat.zero_le _
    | _ => rcases fields with _ | ⟨_, _ | ⟨_, _ | ⟨_, _⟩⟩⟩ <;> exact Nat.zero_le _

theorem length_declaredNames_le (n : Node) : (declaredNames n).length ≤ declaredCount n := by
  unfold declaredNames
  split
  · exact length_bound_le _
  · exact length_bound_le _
  · exact le_rfl
  · exact le_rfl
  · exact Nat.zero_le _

mutual

theorem length_localNames_le : ∀ n : Node, (localNames n).length ≤ declaredBelow n
  | node kind fields => by
    rw [localNames, declaredBelow, List.length_append]
    refine Nat.add_le_add (length_declaredNames_le _) ?_
    split
    · next h =>
      have hf : kind.isFunction = false := by
        rcases Bool.or_eq_true_iff.mp h with hs | hl
        · exact Kind.isFunction_eq_false_of_isStatement hs
        · rw [of_decide_eq_true hl]
          rfl
      rw [hf]
      exact length_localNamesList_le fields
    · exact Nat.zero_le _

theorem length_localNamesList_le : ∀ ns : List Node, (localNamesList ns).length ≤ declaredBelowList ns
  | [] => le_rfl
  | n :: rest => by
    rw [localNamesList, declaredBelowList, List.length_append]
    exact Nat.add_le_add (length_localNames_le n) (length_localNamesList_le rest)

end

structure FunctionNode where
  kind : Kind
  isFunction : kind.isFunction = true
  id : Node
  params : List Node
  body : Node

namespace FunctionNode

variable (fn : FunctionNode)

def toNode : Node := node fn.kind [fn.id, list fn.params, fn.body]

def bodyNames : List String :=
  match fn.body with
  | node .functionBody fields => localNamesList fields
  | _ => []

/-- One slot for each. A name that is declared again is listed again, as the weight counts it. -/
def boundNames : List String := (fn.params.flatMap fun p => p.names.bound) ++ fn.bodyNames

/-- At some point of the whole function `n` temporaries are held. -/
inductive Live : ℕ → Prop
  | parameter {p n} : p ∈ fn.params → Metering.Live p n → Live n
  | body {n} : Metering.Live fn.body n → Live n

/-- Names that the weight counts and the function does not bind: those of a function that is
itself the body of an arrow. -/
def overcount : ℕ := (fn.params.map patternNames).sum + localCount fn.body - fn.boundNames.length

def counted : ℕ :=
  FIXED_SLOTS + (fn.params.map fun p => patternNames p + 1).sum + localCount fn.body + demand fn.body

/-- The slots of the weight that no name takes: the fixed ones, one for each parameter, what the
body holds, the names counted in excess, and the rest of the last unit. -/
def spareSlots : ℕ :=
  FIXED_SLOTS + fn.params.length + demand fn.body + fn.overcount +
    (SLOTS_PER_UNIT - fn.counted % SLOTS_PER_UNIT)

theorem frameWeight_eq : frameWeight fn.toNode = 1 + fn.counted / SLOTS_PER_UNIT := by
  obtain ⟨kind, hf, id, params, body⟩ := fn
  cases kind <;> first | rfl | cases hf

theorem length_bodyNames_le : fn.bodyNames.length ≤ localCount fn.body := by
  unfold bodyNames
  split
  · next fields hbody =>
    rw [hbody]
    exact length_localNamesList_le fields
  · exact Nat.zero_le _

theorem length_boundNames_le :
    fn.boundNames.length ≤ (fn.params.map patternNames).sum + localCount fn.body := by
  rw [boundNames, List.length_append, List.length_flatMap]
  exact Nat.add_le_add (List.sum_le_sum fun p _ => length_bound_le p) fn.length_bodyNames_le

/-- The slots of the weight, taken apart. -/
theorem slots_eq : SLOTS_PER_UNIT * frameWeight fn.toNode = fn.boundNames.length + fn.spareSlots := by
  have hnames := fn.length_boundNames_le
  have hparams : (fn.params.map fun p => patternNames p + 1).sum =
      (fn.params.map patternNames).sum + fn.params.length := by
    rw [List.sum_map_add]
    simp
  have hcounted : fn.counted =
      FIXED_SLOTS + (fn.params.map fun p => patternNames p + 1).sum + localCount fn.body + demand fn.body := rfl
  rw [frameWeight_eq, spareSlots, overcount]
  unfold SLOTS_PER_UNIT
  omega

theorem frameWeight_covers_iff :
    (∀ n, fn.Live n → fn.boundNames.length + n ≤ SLOTS_PER_UNIT * frameWeight fn.toNode) ↔
      ∀ p ∈ fn.params, ∀ n, Metering.Live p n → n ≤ fn.spareSlots := by
  rw [slots_eq]
  constructor
  · intro h p hp n hn
    exact Nat.le_of_add_le_add_left (h n (.parameter hp hn))
  · rintro h n (⟨hp, hn⟩ | hn)
    · exact Nat.add_le_add_left (h _ hp n hn) _
    · have hbody := hn.le_demand
      unfold spareSlots
      omega

/-- Plain parameters and small defaults are covered. -/
theorem frameWeight_covers
    (h : ∀ p ∈ fn.params, demand p ≤ FIXED_SLOTS + fn.params.length + demand fn.body) {n : ℕ} (hn : fn.Live n) :
    fn.boundNames.length + n ≤ SLOTS_PER_UNIT * frameWeight fn.toNode := by
  refine fn.frameWeight_covers_iff.mpr ?_ n hn
  intro p hp m hm
  have hdemand := hm.le_demand
  have hparam := h p hp
  unfold spareSlots
  omega

/-- A default that is a call with sixty arguments: `function (x = g(0, …, 0)) {}`. -/
def callInDefault : FunctionNode where
  kind := .functionExpression
  isFunction := rfl
  id := absent
  params := [node .assignmentPattern
    [astIdent "x", astCall "g" (List.replicate 60 (astLiteral (.number 0)))]]
  body := node .functionBody [list []]

theorem call_in_default_outgrows_weight :
    ¬ ∀ (fn : FunctionNode) (n : ℕ), fn.Live n →
      fn.boundNames.length + n ≤ SLOTS_PER_UNIT * frameWeight fn.toNode := by
  intro h
  have hcall : Metering.Live (astCall "g" (List.replicate 60 (astLiteral (.number 0)))) 62 := .call rfl
  have hheld : children [astIdent "x", astCall "g" (List.replicate 60 (astLiteral (.number 0)))] =
      [astIdent "x"] ++ astCall "g" (List.replicate 60 (astLiteral (.number 0))) :: [] := by
    simp [Node.children, astIdent, astCall]
  have hdefault : Metering.Live (node .assignmentPattern
      [astIdent "x", astCall "g" (List.replicate 60 (astLiteral (.number 0)))]) 63 :=
    .operand rfl rfl hheld hcall
  exact absurd (h callInDefault 63 (.parameter List.mem_cons_self hdefault)) (by decide)

end FunctionNode

/-- The script has no parameters, and its weight covers it. -/
theorem frameWeight_covers_program {fields : List Node} {n : ℕ} (h : Live (node .program fields) n) :
    (localNamesList fields).length + n ≤ SLOTS_PER_UNIT * frameWeight (node .program fields) := by
  have hnames : (localNamesList fields).length ≤ localCount (node .program fields) := length_localNamesList_le fields
  have hlive := h.le_demand
  rw [frameWeight]
  unfold SLOTS_PER_UNIT
  omega

end XChainVM.Metering
