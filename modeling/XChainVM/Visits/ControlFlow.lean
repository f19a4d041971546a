import XChainVM.Metering.BinaryChains
import XChainVM.Metering.Position

/-! # What a run of a script visits

The nodes a run visits, whatever its values are: a branch may be taken or not, a loop goes
round as often as it likes, a statement may leave the list it stands in, and any function of
the script may be called at any node, as getters, coercions and callbacks do. A run is bounded
by the calls of the meter once every loop body and every function body opens with one.
-/

namespace XChainVM.Metering

open Node

namespace Kind

def isControl : Kind → Bool
  | program | functionBody | blockStatement | sequenceExpression | expressionStatement | returnStatement
  | tryStatement | whileStatement | doWhileStatement | forStatement | forInStatement | forOfStatement
  | functionDeclaration | functionExpression | arrowFunctionExpression => true
  | _ => false

end Kind

namespace Node

def ordered : Node → Option (List Node)
  | node .program [node .list body] => some body
  | node .functionBody [node .list body] => some body
  | node .blockStatement [node .list body] => some body
  | node .sequenceExpression [node .list expressions] => some expressions
  | node .expressionStatement [expression] => some [expression]
  | node .returnStatement [argument] => some [argument]
  | _ => none

def loop : Node → Option (List Node × Node)
  | node .whileStatement [test, body] => some ([test], body)
  | node .doWhileStatement [body, test] => some ([test], body)
  | node .forStatement [init, test, update, body] => some ([init, test, update], body)
  | node .forInStatement [left, right, body] => some ([left, right], body)
  | node .forOfStatement [left, right, body] => some ([left, right], body)
  | _ => none

def function : Node → Option (Node × Node)
  | node .functionDeclaration [_, params, node .functionBody body] => some (params, node .functionBody body)
  | node .functionExpression [_, params, node .functionBody body] => some (params, node .functionBody body)
  | node .arrowFunctionExpression [_, params, body] => some (params, body)
  | _ => none

def isDepthEnterCall : Node → Bool
  | node (.callExpression _) (node (.identifier x) _ :: _) => x = "__depth_enter"
  | _ => false

def isDepthEnter : Node → Bool
  | node .expressionStatement [call] => isDepthEnterCall call
  | node (.variableDeclaration _) [node .list [node .variableDeclarator [_, call]]] => isDepthEnterCall call
  | _ => false

mutual

def size : Node → ℕ
  | node _ fields => sizeList fields + 1

def sizeList : List Node → ℕ
  | [] => 0
  | n :: rest => size n + sizeList rest

end

@[simp] theorem size_node (kind : Kind) (fields : List Node) : (node kind fields).size = sizeList fields + 1 := by
  rw [size]

@[simp] theorem sizeList_nil : sizeList [] = 0 := by
  rw [sizeList]

@[simp] theorem sizeList_cons (n : Node) (rest : List Node) : sizeList (n :: rest) = n.size + sizeList rest := by
  rw [sizeList]

theorem size_le_sizeList {n : Node} {ns : List Node} (h : n ∈ ns) : n.size ≤ sizeList ns := by
  induction ns with
  | nil => cases h
  | cons m rest ih =>
    rw [sizeList_cons]
    obtain rfl | h := List.mem_cons.mp h
    · omega
    · have := ih h
      omega

theorem size_le_of_within {n root : Node} (h : Within n root) : n.size ≤ root.size := by
  induction root using Node.induct with
  | step kind fields ih =>
    obtain rfl | ⟨-, h⟩ := h
    · exact Nat.le_refl _
    · obtain ⟨m, hm, hn⟩ := withinList_iff.mp h
      have hle := ih m hm hn
      have hsize := size_le_sizeList hm
      rw [size_node]
      omega

/-- `P` holds of every node of the tree. -/
inductive Every (P : Node → Prop) : Node → Prop
  | node {kind : Kind} {fields : List Node} (h : P (.node kind fields)) (hfields : ∀ n ∈ fields, Every P n) :
      Every P (.node kind fields)

namespace Every

variable {P : Node → Prop} {n : Node}

theorem here (h : Every P n) : P n := by
  cases h
  assumption

theorem field {kind : Kind} {fields : List Node} (h : Every P (.node kind fields)) (hn : n ∈ fields) :
    Every P n := by
  cases h with
  | node _ hfields => exact hfields n hn

theorem within {root : Node} (h : Every P root) (hn : Within n root) : Every P n := by
  induction root using Node.induct with
  | step kind fields ih =>
    obtain rfl | ⟨-, hn⟩ := hn
    · exact h
    · obtain ⟨m, hm, hn⟩ := withinList_iff.mp hn
      exact ih m hm (h.field hm) hn

end Every

end Node

/-- What a run has done: the nodes it visited, the calls of the meter among them, and the
calls of functions that ended in their parameters or at their depth guard. -/
structure Work where
  visits : ℕ
  charges : ℕ
  refusals : ℕ

namespace Work

def none : Work := ⟨0, 0, 0⟩

def visit (n : Node) : Work := ⟨1, if isGasCall n then 1 else 0, 0⟩

def refusal : Work := ⟨0, 0, 1⟩

def leave (n : Node) : Work := if n.isDepthEnter then refusal else none

def plus (w w' : Work) : Work := ⟨w.visits + w'.visits, w.charges + w'.charges, w.refusals + w'.refusals⟩

/-- What the calls of the meter and the refusals of a run pay for, at `k` nodes each. -/
def credit (k : ℕ) (w : Work) : ℕ := k * (w.charges + w.refusals)

@[simp] theorem visits_none : none.visits = 0 := rfl

@[simp] theorem credit_none (k : ℕ) : none.credit k = 0 := rfl

@[simp] theorem visits_visit (n : Node) : (visit n).visits = 1 := rfl

@[simp] theorem credit_visit (k : ℕ) (n : Node) : (visit n).credit k = if isGasCall n then k else 0 := by
  cases h : isGasCall n <;> simp [credit, visit, h]

@[simp] theorem visits_refusal : refusal.visits = 0 := rfl

@[simp] theorem credit_refusal (k : ℕ) : refusal.credit k = k := by
  simp [credit, refusal]

@[simp] theorem visits_leave (n : Node) : (leave n).visits = 0 := by
  cases h : n.isDepthEnter <;> simp [leave, h]

@[simp] theorem credit_leave (k : ℕ) (n : Node) : (leave n).credit k = if n.isDepthEnter then k else 0 := by
  cases h : n.isDepthEnter <;> simp [leave, h]

@[simp] theorem visits_plus (w w' : Work) : (w.plus w').visits = w.visits + w'.visits := rfl

@[simp] theorem credit_plus (k : ℕ) (w w' : Work) : (w.plus w').credit k = w.credit k + w'.credit k := by
  simp only [credit, Work.plus, Nat.mul_add]
  omega

end Work

/-- What is evaluated: a node, some nodes of a list in any order, the nodes of a list one
after the other, the rounds of a loop, or a call of a function. -/
inductive Task where
  | node (n : Node)
  | selection (ns : List Node)
  | sequence (ns : List Node)
  | rounds (head : List Node) (body : Node)
  | call (f : Node)

namespace Task

def nodes : Task → List Node
  | node n | call n => [n]
  | selection ns | sequence ns => ns
  | rounds head body => body :: head

/-- The nodes a task visits when it goes round no loop and calls no function. -/
def size : Task → ℕ
  | node n => n.size
  | selection ns | sequence ns => sizeList ns
  | rounds head _ => sizeList head
  | call _ => 0

end Task

/-- The runs of a task within the script `root`. -/
inductive Evaluates (root : Node) : Task → Work → Prop
  | plain {kind : Kind} {fields : List Node} {w : Work} (hkind : kind.isControl = false)
      (h : Evaluates root (.selection fields) w) :
      Evaluates root (.node (node kind fields)) ((Work.visit (node kind fields)).plus w)
  | ordered {n : Node} {ns : List Node} {w : Work} (hparts : n.ordered = some ns)
      (h : Evaluates root (.sequence ns) w) : Evaluates root (.node n) ((Work.visit n).plus w)
  | attempt {body handler finalizer : Node} {w w' : Work} (hbody : Evaluates root (.node body) w)
      (hrest : Evaluates root (.selection [handler, finalizer]) w') :
      Evaluates root (.node (node .tryStatement [body, handler, finalizer]))
        ((Work.visit (node .tryStatement [body, handler, finalizer])).plus (w.plus w'))
  | loop {n : Node} {head : List Node} {body : Node} {w : Work} (hparts : n.loop = some (head, body))
      (h : Evaluates root (.rounds head body) w) : Evaluates root (.node n) ((Work.visit n).plus w)
  -- A function is a value. Its parameters and its body wait for a call.
  | closure {n : Node} (hkind : n.kind.isFunction) : Evaluates root (.node n) (.visit n)
  | invoke {n f : Node} {w w' : Work} (h : Evaluates root (.node n) w) (hf : Within f root)
      (hcall : Evaluates root (.call f) w') : Evaluates root (.node n) (w.plus w')
  | done : Evaluates root (.selection []) .none
  | skip {n : Node} {ns : List Node} {w : Work} (h : Evaluates root (.selection ns) w) :
      Evaluates root (.selection (n :: ns)) w
  | take {n : Node} {ns : List Node} {w w' : Work} (hn : Evaluates root (.node n) w)
      (h : Evaluates root (.selection ns) w') : Evaluates root (.selection (n :: ns)) (w.plus w')
  | finish : Evaluates root (.sequence []) .none
  -- A directive does nothing, so nothing leaves a list there.
  | leave {n : Node} {ns : List Node} {w : Work} (hdirective : isDirective n = false)
      (hn : Evaluates root (.node n) w) : Evaluates root (.sequence (n :: ns)) (w.plus (.leave n))
  | next {n : Node} {ns : List Node} {w w' : Work} (hn : Evaluates root (.node n) w)
      (h : Evaluates root (.sequence ns) w') : Evaluates root (.sequence (n :: ns)) (w.plus w')
  | last {head : List Node} {body : Node} {w : Work} (h : Evaluates root (.selection head) w) :
      Evaluates root (.rounds head body) w
  | round {head : List Node} {body : Node} {w w' w'' : Work} (hhead : Evaluates root (.selection head) w)
      (hbody : Evaluates root (.node body) w') (h : Evaluates root (.rounds head body) w'') :
      Evaluates root (.rounds head body) (w.plus (w'.plus w''))
  | refuse {f params body : Node} {w : Work} (hparts : f.function = some (params, body))
      (h : Evaluates root (.node params) w) : Evaluates root (.call f) (w.plus .refusal)
  | enter {f params body : Node} {w w' : Work} (hparts : f.function = some (params, body))
      (hparams : Evaluates root (.node params) w) (hbody : Evaluates root (.node body) w') :
      Evaluates root (.call f) (w.plus w')

/-- No run of the task does anything before a call of the meter, unless a depth guard refuses
it. A block or a body that holds no list of statements does not run. -/
inductive Opens : Task → Prop
  | charge {n : Node} (h : isGasCall n) : Opens (.node n)
  | ordered {n : Node} {ns : List Node} (hparts : n.ordered = some ns) (h : Opens (.sequence ns)) : Opens (.node n)
  | attempt {body handler finalizer : Node} (h : Opens (.node body)) :
      Opens (.node (node .tryStatement [body, handler, finalizer]))
  | malformed {n : Node} (hkind : n.kind = .blockStatement ∨ n.kind = .functionBody) (h : n.ordered = none) :
      Opens (.node n)
  | first {n : Node} {ns : List Node} (h : Opens (.node n)) : Opens (.sequence (n :: ns))
  | directive {n : Node} {ns : List Node} (hn : isDirective n) (h : Opens (.sequence ns)) :
      Opens (.sequence (n :: ns))
  | guard {n : Node} {ns : List Node} (hn : n.isDepthEnter) (h : Opens (.sequence ns)) :
      Opens (.sequence (n :: ns))

/-- The body of a loop and of a function opens with a call of the meter. -/
structure Charged (n : Node) : Prop where
  loop : ∀ head body, n.loop = some (head, body) → Opens (.node body)
  function : ∀ params body, n.function = some (params, body) → Opens (.node body)

theorem Opens.of_sequence {n : Node} {ns : List Node} (hparts : n.ordered = some ns) (h : Opens (.node n)) :
    isGasCall n ∨ Opens (.sequence ns) := by
  cases h with
  | charge h => exact .inl h
  | ordered hparts' h =>
    rw [hparts] at hparts'
    cases hparts'
    exact .inr h
  | attempt => cases hparts
  | malformed _ h =>
    rw [hparts] at h
    cases h

section

variable {P : Node → Prop} {n : Node}

theorem every_ordered {ns : List Node} (hparts : n.ordered = some ns) (h : Every P n) : ∀ m ∈ ns, Every P m := by
  unfold ordered at hparts
  split at hparts <;> cases hparts
  case h_5 e => simpa using h.field (List.mem_singleton_self e)
  case h_6 e => simpa using h.field (List.mem_singleton_self e)
  all_goals
    intro m hm
    exact (h.field (List.mem_singleton_self _)).field hm

theorem size_ordered {ns : List Node} (hparts : n.ordered = some ns) : sizeList ns + 1 ≤ n.size := by
  unfold ordered at hparts
  split at hparts <;> cases hparts
  all_goals simp

theorem every_loop {head : List Node} {body : Node} (hparts : n.loop = some (head, body)) (h : Every P n) :
    ∀ m ∈ body :: head, Every P m := by
  unfold loop at hparts
  split at hparts <;> cases hparts
  all_goals
    intro m hm
    refine h.field ?_
    simp only [List.mem_cons, List.not_mem_nil, or_false] at hm ⊢
    grind

theorem size_loop {head : List Node} {body : Node} (hparts : n.loop = some (head, body)) :
    sizeList (body :: head) + 1 ≤ n.size := by
  unfold loop at hparts
  split at hparts <;> cases hparts
  all_goals
    simp only [size_node, sizeList_cons, sizeList_nil]
    omega

theorem every_function {params body : Node} (hparts : n.function = some (params, body)) (h : Every P n) :
    Every P params ∧ Every P body := by
  unfold function at hparts
  split at hparts <;> cases hparts
  all_goals exact ⟨h.field (by simp), h.field (by simp)⟩

theorem size_function {params body : Node} (hparts : n.function = some (params, body)) :
    params.size + body.size + 1 ≤ n.size := by
  unfold function at hparts
  split at hparts <;> cases hparts
  all_goals
    simp only [size_node, sizeList_cons, sizeList_nil]
    omega

end

/-- The nodes belong to a charged script of at most `k` nodes. -/
structure Inside (k : ℕ) (ns : List Node) : Prop where
  charged : ∀ n ∈ ns, Every Charged n
  size_le : sizeList ns ≤ k

namespace Inside

variable {k : ℕ}

theorem singleton {n : Node} : Inside k [n] ↔ Every Charged n ∧ n.size ≤ k := by
  constructor
  · intro h
    exact ⟨h.charged n (List.mem_singleton_self n), by simpa using h.size_le⟩
  · rintro ⟨hcharged, hsize⟩
    exact ⟨by simpa using hcharged, by simpa using hsize⟩

theorem cons {n : Node} {ns : List Node} (h : Inside k (n :: ns)) : Inside k [n] ∧ Inside k ns := by
  have hsize := h.size_le
  rw [sizeList_cons] at hsize
  constructor
  · rw [singleton]
    exact ⟨h.charged n List.mem_cons_self, by omega⟩
  · exact ⟨fun m hm => h.charged m (List.mem_cons_of_mem n hm), by omega⟩

theorem fields {kind : Kind} {fields : List Node} (h : Inside k [node kind fields]) : Inside k fields := by
  obtain ⟨hcharged, hsize⟩ := singleton.mp h
  rw [size_node] at hsize
  exact ⟨fun n hn => hcharged.field hn, by omega⟩

theorem ordered {n : Node} {ns : List Node} (h : Inside k [n]) (hparts : n.ordered = some ns) : Inside k ns := by
  obtain ⟨hcharged, hsize⟩ := singleton.mp h
  have hle := size_ordered hparts
  exact ⟨every_ordered hparts hcharged, by omega⟩

theorem loop {n body : Node} {head : List Node} (h : Inside k [n]) (hparts : n.loop = some (head, body)) :
    Inside k (body :: head) := by
  obtain ⟨hcharged, hsize⟩ := singleton.mp h
  have hle := size_loop hparts
  exact ⟨every_loop hparts hcharged, by omega⟩

end Inside

/-- The nodes a run has visited beyond those of the task itself are paid for. -/
structure Paid (k : ℕ) (t : Task) (w : Work) : Prop where
  visits : w.visits ≤ t.size + w.credit k
  opening : Opens t → w.visits + k ≤ t.size + w.credit k

/-- The task stands in the script, and goes round a body that opens with a charge. -/
def Task.Ready (k : ℕ) : Task → Prop
  | .rounds head body => Inside k (body :: head) ∧ Opens (.node body)
  | t => Inside k t.nodes

theorem isControl_of_ordered {n : Node} {ns : List Node} (hparts : n.ordered = some ns) : n.kind.isControl := by
  unfold ordered at hparts
  split at hparts <;> first | rfl | cases hparts

theorem isControl_of_malformed {kind : Kind} (h : kind = .blockStatement ∨ kind = .functionBody) :
    kind.isControl := by
  obtain rfl | rfl := h <;> rfl

theorem loop_kind {n : Node} {parts : List Node × Node} (hparts : n.loop = some parts) :
    isGasCall n = false ∧ n.ordered = none ∧ n.kind ≠ .tryStatement ∧ n.kind ≠ .blockStatement ∧
      n.kind ≠ .functionBody := by
  unfold loop at hparts
  split at hparts <;> cases hparts
  all_goals exact ⟨rfl, rfl, by rintro ⟨⟩, by rintro ⟨⟩, by rintro ⟨⟩⟩

theorem not_opens_loop {n : Node} {parts : List Node × Node} (hparts : n.loop = some parts) : ¬ Opens (.node n) := by
  obtain ⟨hgas, hordered, htry, hblock, hbody⟩ := loop_kind hparts
  intro h
  cases h with
  | charge h =>
    rw [hgas] at h
    cases h
  | ordered hparts _ =>
    rw [hordered] at hparts
    cases hparts
  | attempt => exact htry rfl
  | malformed h _ => exact h.elim hblock hbody

theorem not_opens_closure {n : Node} (hkind : n.kind.isFunction) : ¬ Opens (.node n) := by
  obtain ⟨kind, fields⟩ := n
  intro h
  cases kind <;> cases hkind
  all_goals
    cases h with
    | charge h => cases h
    | ordered hparts _ => cases hparts
    | malformed h _ => obtain h | h := h <;> cases h

theorem Opens.of_plain {kind : Kind} {fields : List Node} (hkind : kind.isControl = false)
    (h : Opens (.node (node kind fields))) : isGasCall (node kind fields) := by
  cases h with
  | charge h => exact h
  | ordered hparts _ =>
    have := isControl_of_ordered hparts
    simp [Node.kind, hkind] at this
  | attempt => cases hkind
  | malformed h _ =>
    have := isControl_of_malformed h
    simp [Node.kind, hkind] at this

theorem Opens.of_attempt {body handler finalizer : Node}
    (h : Opens (.node (node .tryStatement [body, handler, finalizer]))) : Opens (.node body) := by
  cases h with
  | charge h => cases h
  | ordered hparts _ => cases hparts
  | attempt h => exact h
  | malformed h _ => obtain h | h := h <;> cases h

theorem Opens.of_cons {n : Node} {ns : List Node} (h : Opens (.sequence (n :: ns))) :
    Opens (.node n) ∨ Opens (.sequence ns) ∧ (isDirective n ∨ n.isDepthEnter) := by
  cases h with
  | first h => exact .inl h
  | directive hn h => exact .inr ⟨h, .inl hn⟩
  | guard hn h => exact .inr ⟨h, .inr hn⟩

section

variable {k : ℕ}

/-- A node is visited before its parts. -/
theorem Paid.visit {n : Node} {w : Work} (h : w.visits + 1 ≤ n.size + w.credit k)
    (hopens : Opens (.node n) → isGasCall n ∨ w.visits + 1 + k ≤ n.size + w.credit k) :
    Paid k (.node n) ((Work.visit n).plus w) where
  visits := by
    simp only [Task.size, Work.visits_plus, Work.credit_plus, Work.visits_visit]
    omega
  opening := by
    intro h
    simp only [Task.size, Work.visits_plus, Work.credit_plus, Work.visits_visit, Work.credit_visit]
    obtain h | h := hopens h
    · simp only [h, if_true]
      omega
    · omega

theorem Paid.leave {n : Node} {ns : List Node} {w : Work} (h : Paid k (.node n) w) (hdirective : isDirective n = false) :
    Paid k (.sequence (n :: ns)) (w.plus (.leave n)) where
  visits := by
    have hv : w.visits ≤ n.size + w.credit k := h.visits
    simp only [Task.size, sizeList_cons, Work.visits_plus, Work.credit_plus, Work.visits_leave]
    omega
  opening := by
    intro hopens
    have hv : w.visits ≤ n.size + w.credit k := h.visits
    simp only [Task.size, sizeList_cons, Work.visits_plus, Work.credit_plus, Work.visits_leave, Work.credit_leave]
    obtain hn | ⟨-, hn | hn⟩ := hopens.of_cons
    · have hv : w.visits + k ≤ n.size + w.credit k := h.opening hn
      omega
    · rw [hdirective] at hn
      cases hn
    · simp only [hn, if_true]
      omega

theorem Paid.next {n : Node} {ns : List Node} {w w' : Work} (hn : Paid k (.node n) w) (h : Paid k (.sequence ns) w') :
    Paid k (.sequence (n :: ns)) (w.plus w') where
  visits := by
    have hv : w.visits ≤ n.size + w.credit k := hn.visits
    have hv' : w'.visits ≤ sizeList ns + w'.credit k := h.visits
    simp only [Task.size, sizeList_cons, Work.visits_plus, Work.credit_plus]
    omega
  opening := by
    intro hopens
    have hv : w.visits ≤ n.size + w.credit k := hn.visits
    have hv' : w'.visits ≤ sizeList ns + w'.credit k := h.visits
    simp only [Task.size, sizeList_cons, Work.visits_plus, Work.credit_plus]
    obtain hopens | ⟨hopens, -⟩ := hopens.of_cons
    · have : w.visits + k ≤ n.size + w.credit k := hn.opening hopens
      omega
    · have : w'.visits + k ≤ sizeList ns + w'.credit k := h.opening hopens
      omega

theorem Paid.plain {kind : Kind} {fields : List Node} {w : Work} (hkind : kind.isControl = false)
    (h : Paid k (.selection fields) w) : Paid k (.node (node kind fields)) ((Work.visit (node kind fields)).plus w) := by
  have hv : w.visits ≤ sizeList fields + w.credit k := h.visits
  apply Paid.visit
  · rw [size_node]
    omega
  · intro hopens
    exact .inl (hopens.of_plain hkind)

theorem Paid.ordered {n : Node} {ns : List Node} {w : Work} (hparts : n.ordered = some ns)
    (h : Paid k (.sequence ns) w) : Paid k (.node n) ((Work.visit n).plus w) := by
  have hv : w.visits ≤ sizeList ns + w.credit k := h.visits
  have hsize := size_ordered hparts
  apply Paid.visit
  · omega
  · intro hopens
    obtain hgas | hopens := hopens.of_sequence hparts
    · exact .inl hgas
    · have hv : w.visits + k ≤ sizeList ns + w.credit k := h.opening hopens
      exact .inr (by omega)

theorem Paid.attempt {body handler finalizer : Node} {w w' : Work} (hbody : Paid k (.node body) w)
    (hrest : Paid k (.selection [handler, finalizer]) w') :
    Paid k (.node (node .tryStatement [body, handler, finalizer]))
      ((Work.visit (node .tryStatement [body, handler, finalizer])).plus (w.plus w')) := by
  have hv : w.visits ≤ body.size + w.credit k := hbody.visits
  have hv' : w'.visits ≤ sizeList [handler, finalizer] + w'.credit k := hrest.visits
  apply Paid.visit
  · rw [size_node, sizeList_cons, Work.visits_plus, Work.credit_plus]
    omega
  · intro hopens
    have hv : w.visits + k ≤ body.size + w.credit k := hbody.opening hopens.of_attempt
    refine .inr ?_
    rw [size_node, sizeList_cons, Work.visits_plus, Work.credit_plus]
    omega

theorem Paid.loop {n body : Node} {head : List Node} {w : Work} (hparts : n.loop = some (head, body))
    (h : Paid k (.rounds head body) w) : Paid k (.node n) ((Work.visit n).plus w) := by
  have hv : w.visits ≤ sizeList head + w.credit k := h.visits
  have hsize := size_loop hparts
  rw [sizeList_cons] at hsize
  apply Paid.visit
  · omega
  · intro hopens
    exact absurd hopens (not_opens_loop hparts)

/-- Where nothing opens with a charge, the visits are all there is to pay for. -/
theorem Paid.unopened {t : Task} {w : Work} (hopens : ¬ Opens t) (h : w.visits ≤ t.size + w.credit k) : Paid k t w :=
  ⟨h, fun h => absurd h hopens⟩

theorem Paid.closure {n : Node} (hkind : n.kind.isFunction) : Paid k (.node n) (.visit n) := by
  apply Paid.unopened (not_opens_closure hkind)
  obtain ⟨kind, fields⟩ := n
  rw [Task.size, size_node, Work.visits_visit]
  omega

theorem Paid.invoke {n f : Node} {w w' : Work} (h : Paid k (.node n) w) (hcall : Paid k (.call f) w') :
    Paid k (.node n) (w.plus w') := by
  have hv' : w'.visits ≤ 0 + w'.credit k := hcall.visits
  constructor
  · have hv : w.visits ≤ n.size + w.credit k := h.visits
    simp only [Task.size, Work.visits_plus, Work.credit_plus]
    omega
  · intro hopens
    have hv : w.visits + k ≤ n.size + w.credit k := h.opening hopens
    simp only [Task.size, Work.visits_plus, Work.credit_plus]
    omega

theorem not_opens_selection {ns : List Node} : ¬ Opens (.selection ns) := by
  rintro ⟨⟩

theorem not_opens_rounds {head : List Node} {body : Node} : ¬ Opens (.rounds head body) := by
  rintro ⟨⟩

theorem not_opens_call {f : Node} : ¬ Opens (.call f) := by
  rintro ⟨⟩

theorem Paid.skip {n : Node} {ns : List Node} {w : Work} (h : Paid k (.selection ns) w) :
    Paid k (.selection (n :: ns)) w := by
  have hv : w.visits ≤ sizeList ns + w.credit k := h.visits
  apply Paid.unopened not_opens_selection
  rw [Task.size, sizeList_cons]
  omega

theorem Paid.take {n : Node} {ns : List Node} {w w' : Work} (hn : Paid k (.node n) w) (h : Paid k (.selection ns) w') :
    Paid k (.selection (n :: ns)) (w.plus w') := by
  have hv : w.visits ≤ n.size + w.credit k := hn.visits
  have hv' : w'.visits ≤ sizeList ns + w'.credit k := h.visits
  apply Paid.unopened not_opens_selection
  simp only [Task.size, sizeList_cons, Work.visits_plus, Work.credit_plus]
  omega

/-- The charge that opens the body of a loop pays for a further round of its head. -/
theorem Paid.round {head : List Node} {body : Node} {w w' w'' : Work} (hopens : Opens (.node body))
    (hsize : sizeList (body :: head) ≤ k) (hhead : Paid k (.selection head) w) (hbody : Paid k (.node body) w')
    (h : Paid k (.rounds head body) w'') : Paid k (.rounds head body) (w.plus (w'.plus w'')) := by
  have hv : w.visits ≤ sizeList head + w.credit k := hhead.visits
  have hv' : w'.visits + k ≤ body.size + w'.credit k := hbody.opening hopens
  have hv'' : w''.visits ≤ sizeList head + w''.credit k := h.visits
  rw [sizeList_cons] at hsize
  apply Paid.unopened not_opens_rounds
  simp only [Task.size, Work.visits_plus, Work.credit_plus]
  omega

theorem Paid.refuse {f params : Node} {w : Work} (hsize : params.size ≤ k) (h : Paid k (.node params) w) :
    Paid k (.call f) (w.plus .refusal) := by
  have hv : w.visits ≤ params.size + w.credit k := h.visits
  apply Paid.unopened not_opens_call
  simp only [Task.size, Work.visits_plus, Work.credit_plus, Work.visits_refusal, Work.credit_refusal]
  omega

/-- The charge that opens the body of a function pays for the whole function. -/
theorem Paid.enter {f params body : Node} {w w' : Work} (hopens : Opens (.node body))
    (hsize : params.size + body.size ≤ k) (hparams : Paid k (.node params) w) (hbody : Paid k (.node body) w') :
    Paid k (.call f) (w.plus w') := by
  have hv : w.visits ≤ params.size + w.credit k := hparams.visits
  have hv' : w'.visits + k ≤ body.size + w'.credit k := hbody.opening hopens
  apply Paid.unopened not_opens_call
  simp only [Task.size, Work.visits_plus, Work.credit_plus]
  omega

end

theorem Inside.function {k : ℕ} {f params body : Node} (h : Inside k [f]) (hparts : f.function = some (params, body)) :
    Inside k [params] ∧ Inside k [body] ∧ params.size + body.size ≤ k ∧ Opens (.node body) := by
  obtain ⟨hcharged, hle⟩ := Inside.singleton.mp h
  obtain ⟨hparams, hbody⟩ := every_function hparts hcharged
  have hsize := size_function hparts
  refine ⟨Inside.singleton.mpr ⟨hparams, by omega⟩, Inside.singleton.mpr ⟨hbody, by omega⟩, by omega, ?_⟩
  exact hcharged.here.function _ _ hparts

theorem Evaluates.paid {root : Node} (hroot : Every Charged root) {t : Task} {w : Work} (h : Evaluates root t w)
    (ht : t.Ready root.size) : Paid root.size t w := by
  induction h with
  | plain hkind h ih => exact (ih (Inside.fields ht)).plain hkind
  | ordered hparts h ih => exact (ih (Inside.ordered ht hparts)).ordered hparts
  | attempt hbody hrest ihbody ihrest =>
    obtain ⟨hb, hr⟩ := Inside.cons (Inside.fields ht)
    exact (ihbody hb).attempt (ihrest hr)
  | loop hparts h ih =>
    have hopens := (Inside.singleton.mp ht).1.here.loop _ _ hparts
    exact (ih ⟨Inside.loop ht hparts, hopens⟩).loop hparts
  | closure hkind => exact .closure hkind
  | invoke h hf hcall ih ihcall =>
    exact (ih ht).invoke (ihcall (Inside.singleton.mpr ⟨hroot.within hf, size_le_of_within hf⟩))
  | done => exact .unopened not_opens_selection (by simp)
  | skip h ih => exact (ih (Inside.cons ht).2).skip
  | take hn h ihn ih =>
    obtain ⟨hleft, hright⟩ := Inside.cons ht
    exact (ihn hleft).take (ih hright)
  | finish => exact .unopened (by rintro ⟨⟩) (by simp)
  | leave hdirective hn ihn => exact (ihn (Inside.cons ht).1).leave hdirective
  | next hn h ihn ih =>
    obtain ⟨hleft, hright⟩ := Inside.cons ht
    exact (ihn hleft).next (ih hright)
  | last h ih => exact .unopened not_opens_rounds (ih (Inside.cons ht.1).2).visits
  | round hhead hbody h ihhead ihbody ih =>
    obtain ⟨hb, hh⟩ := Inside.cons ht.1
    exact .round ht.2 ht.1.size_le (ihhead hh) (ihbody hb) (ih ht)
  | refuse hparts h ih =>
    obtain ⟨hparams, -, hsize, -⟩ := Inside.function ht hparts
    exact .refuse (Nat.le_of_add_right_le hsize) (ih hparams)
  | enter hparts hparams hbody ihparams ihbody =>
    obtain ⟨hp, hb, hsize, hopens⟩ := Inside.function ht hparts
    exact .enter hopens hsize (ihparams hp) (ihbody hb)

/-- A run of a charged script visits at most as many nodes as the script has, for each call of
the meter and each refused call, and once more. -/
theorem Evaluates.visits_le {root : Node} (hroot : Every Charged root) {w : Work}
    (h : Evaluates root (.node root) w) : w.visits ≤ root.size * (w.charges + w.refusals + 1) := by
  have hv := (h.paid hroot (Inside.singleton.mpr ⟨hroot, Nat.le_refl _⟩)).visits
  calc w.visits ≤ root.size + root.size * (w.charges + w.refusals) := hv
    _ = root.size * (w.charges + w.refusals + 1) := by rw [Nat.mul_succ, Nat.add_comm]

end XChainVM.Metering
