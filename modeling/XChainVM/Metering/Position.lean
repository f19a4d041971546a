import XChainVM.Metering.Ast

/-! # Where a node stands in a syntax tree

The ancestors of a node, innermost first, each with the place of the child below it. An array
field is a frame of its own.
-/

namespace XChainVM.Metering

open Node

structure Frame where
  node : Node
  index : ℕ

abbrev Ancestors := List Frame

namespace Kind

def isLeaf : Kind → Bool
  | absent | name _ | identifier _ | literal _ | templateElement _ _ => true
  | _ => false

def isPattern : Kind → Bool
  | arrayPattern | objectPattern => true
  | _ => false

end Kind

namespace Node

/-- The fields that the parser gives to a node, where a walk relies on them. -/
def shape : Node → Prop
  | node .list elements => ∀ e ∈ elements, e.kind ≠ .list
  | node .arrayPattern fields => ∃ elements, fields = [list elements]
  | node .objectPattern fields => ∃ elements, fields = [list elements]
  | node .variableDeclarator fields | node (.assignmentExpression _) fields =>
    ∃ left right, fields = [left, right] ∧ left.kind ≠ .list ∧ right.kind ≠ .list
  | node .chainExpression fields => ∃ e, fields = [e]
  | node .templateLiteral fields => ∃ expressions quasis, fields = [list expressions, list quasis] ∧
      quasis.length = expressions.length + 1 ∧
      ∀ q ∈ quasis, ∃ cooked raw, q = node (.templateElement cooked raw) []
  | node .taggedTemplateExpression fields => ∃ tag quasi, fields = [tag, quasi] ∧ tag.kind.isPattern = false
  | node kind fields => kind.isLeaf = true → fields = []

mutual

/-- `x` is a node of the tree. -/
def Within (x : Node) : Node → Prop
  | node kind fields => x = node kind fields ∨ (kind.isLeaf = false ∧ WithinList x fields)

def WithinList (x : Node) : List Node → Prop
  | [] => False
  | n :: rest => Within x n ∨ WithinList x rest

end

mutual

def positions (ancestors : Ancestors) : Node → List (Ancestors × Node)
  | node kind fields => (ancestors, node kind fields) :: positionsOf ancestors (node kind fields) 0 fields

def positionsOf (ancestors : Ancestors) (parent : Node) (i : ℕ) : List Node → List (Ancestors × Node)
  | [] => []
  | n :: rest => positions (⟨parent, i⟩ :: ancestors) n ++ positionsOf ancestors parent (i + 1) rest

end

theorem getElem?_singleton {α : Type} {a b : α} {i : ℕ} (h : [a][i]? = some b) : i = 0 ∧ a = b := by
  cases i with
  | zero => exact ⟨rfl, by simpa using h⟩
  | succ i => simp at h

theorem eq_list {n : Node} (h : n.kind = .list) : ∃ elements, n = list elements := by
  obtain ⟨kind, fields⟩ := n
  obtain rfl : kind = .list := h
  exact ⟨fields, rfl⟩

theorem withinList_iff {x : Node} {ns : List Node} : WithinList x ns ↔ ∃ n ∈ ns, Within x n := by
  induction ns with
  | nil => simp [WithinList]
  | cons n rest ih => simp [WithinList, ih]

theorem Within.refl (x : Node) : Within x x := by
  cases x
  exact .inl rfl

theorem Within.field {x n : Node} {kind : Kind} {fields : List Node} (hkind : kind.isLeaf = false)
    (hn : n ∈ fields) (h : Within x n) : Within x (node kind fields) :=
  .inr ⟨hkind, withinList_iff.mpr ⟨n, hn, h⟩⟩

theorem Within.trans {x y z : Node} (hxy : Within x y) (hyz : Within y z) : Within x z := by
  induction z using Node.induct with
  | step kind fields ih =>
    obtain rfl | ⟨hkind, hyz⟩ := hyz
    · exact hxy
    · obtain ⟨n, hn, hyn⟩ := withinList_iff.mp hyz
      exact .field hkind hn (ih n hn hyn)

/-- An array stands in no array. -/
theorem not_list_of_child_list {n child : Node} {i : ℕ} (hshape : n.shape) (hchild : n.fields[i]? = some child)
    (hlist : child.kind = .list) : n.kind ≠ .list := by
  obtain ⟨kind, fields⟩ := n
  rintro rfl
  exact hshape child (List.mem_of_getElem? hchild) hlist

/-- A node that has a child is no leaf. -/
theorem not_isLeaf_of_shape {kind : Kind} {fields : List Node} (h : (node kind fields).shape)
    (hfields : fields ≠ []) : kind.isLeaf = false := by
  cases hkind : kind.isLeaf with
  | false => rfl
  | true =>
    exfalso
    cases kind
    case absent => exact hfields (h hkind)
    case name x => exact hfields (h hkind)
    case identifier x => exact hfields (h hkind)
    case literal v => exact hfields (h hkind)
    case templateElement cooked raw => exact hfields (h hkind)
    all_goals cases hkind

end Node

structure SyntaxTree where
  root : Node
  shaped : ∀ n, Within n root → n.shape

def Chain (root : Node) : Ancestors → Node → Prop
  | [], n => n = root
  | f :: above, n => f.node.fields[f.index]? = some n ∧ Chain root above f.node

namespace Chain

variable {root n : Node} {above : Ancestors}

theorem within (hshaped : ∀ n, Within n root → n.shape) (h : Chain root above n) : Within n root := by
  induction above generalizing n with
  | nil =>
    obtain rfl : n = root := h
    exact .refl n
  | cons f above ih =>
    obtain ⟨hchild, habove⟩ := h
    refine Within.trans ?_ (ih habove)
    have hshape : f.node.shape := hshaped f.node (ih habove)
    obtain ⟨⟨kind, fields⟩, index⟩ := f
    have hmem : n ∈ fields := List.mem_of_getElem? hchild
    exact .field (not_isLeaf_of_shape hshape (List.ne_nil_of_mem hmem)) hmem (.refl n)

end Chain

theorem chain_positions {root : Node} (n : Node) {ancestors : Ancestors} (h : Chain root ancestors n)
    {position : Ancestors × Node} (hmem : position ∈ n.positions ancestors) :
    Chain root position.1 position.2 := by
  induction n using Node.induct generalizing ancestors with
  | step kind fields ih =>
    have hfields : ∀ (done rest : List Node), fields = done ++ rest →
        position ∈ positionsOf ancestors (node kind fields) done.length rest →
          Chain root position.1 position.2 := by
      intro done rest
      induction rest generalizing done with
      | nil => intro _ hmem; cases hmem
      | cons m rest ihrest =>
        intro heq hmem
        rw [positionsOf, List.mem_append] at hmem
        obtain hmem | hmem := hmem
        · have hchain : Chain root (⟨node kind fields, done.length⟩ :: ancestors) m :=
            ⟨by simp [Node.fields, heq], h⟩
          exact ih m (by simp [heq]) hchain hmem
        · refine ihrest (done ++ [m]) (by simp [heq]) ?_
          simpa using hmem
    rw [positions, List.mem_cons] at hmem
    obtain rfl | hmem := hmem
    · exact h
    · exact hfields [] fields rfl hmem

end XChainVM.Metering
