import XChainVM.Metering.Position

/-! # Rest elements the deploy check reports

A rest is reported unless it stands at the top of a pattern whose source is the initializer of a
declarator or the right side of an assignment.
-/

namespace XChainVM.Metering

open Node

inductive RestKind where
  | nestedRest | restParameter | catchClauseRest | forLoopHeadRest
  deriving DecidableEq, Repr

def stackOf (ancestors : Ancestors) : Ancestors := ancestors.filter fun f => f.node.kind ≠ .list

def PATTERN_NODE_TYPES : Kind → Bool
  | .arrayPattern | .objectPattern | .property _ _ _ _ | .patternProperty _ _ | .assignmentPattern
  | .restElement => true
  | _ => false

def hasSource : Node → Bool
  | node .variableDeclarator fields => fields[1]?.any fun init => init.kind ≠ .absent
  | node (.assignmentExpression .assign) _ => true
  | _ => false

/-- The rest stands at the top of a pattern that is the first field of a node with a source. -/
def isMeteredRest : Ancestors → Bool
  | parent :: gp :: _ => parent.node.kind.isPattern && gp.index = 0 && hasSource gp.node
  | _ => false

def ownerRestKind : Option Frame → RestKind
  | none => .nestedRest
  | some owner =>
    match owner.node with
    | node .functionDeclaration _ | node .functionExpression _ | node .arrowFunctionExpression _ =>
      .restParameter
    | node .catchClause _ => .catchClauseRest
    | node .forOfStatement _ | node .forInStatement _ => .forLoopHeadRest
    | node .variableDeclarator fields =>
      if fields[1]?.any fun init => init.kind ≠ .absent then .nestedRest else .forLoopHeadRest
    | _ => .nestedRest

def bannedRestKind (stack : Ancestors) : Option RestKind :=
  if isMeteredRest stack then none
  else some (ownerRestKind (stack.dropWhile fun f => PATTERN_NODE_TYPES f.node.kind).head?)

structure RestHit where
  kind : RestKind
  ancestors : Ancestors

def restHit (ancestors : Ancestors) (n : Node) : Option RestHit :=
  if n.kind = .restElement then (bannedRestKind (stackOf ancestors)).map fun kind => ⟨kind, ancestors⟩
  else none

mutual

def collectBannedRest (ancestors : Ancestors) : Node → List RestHit
  | node kind fields =>
    (restHit ancestors (node kind fields)).toList ++ collectBannedRestOf ancestors (node kind fields) 0 fields

def collectBannedRestOf (ancestors : Ancestors) (parent : Node) (i : ℕ) : List Node → List RestHit
  | [] => []
  | n :: rest =>
    collectBannedRest (⟨parent, i⟩ :: ancestors) n ++ collectBannedRestOf ancestors parent (i + 1) rest

end

def findBannedRest (ast : Node) : List RestHit := collectBannedRest [] ast

mutual

theorem collectBannedRest_eq (ancestors : Ancestors) (n : Node) :
    collectBannedRest ancestors n = (n.positions ancestors).filterMap fun o => restHit o.1 o.2 := by
  cases n with
  | node kind fields =>
    rw [collectBannedRest, positions, collectBannedRestOf_eq, List.filterMap_cons]
    cases restHit ancestors (node kind fields) <;> rfl

theorem collectBannedRestOf_eq (ancestors : Ancestors) (parent : Node) (i : ℕ) (ns : List Node) :
    collectBannedRestOf ancestors parent i ns =
      (positionsOf ancestors parent i ns).filterMap fun o => restHit o.1 o.2 := by
  cases ns with
  | nil => rfl
  | cons n rest =>
    rw [collectBannedRestOf, positionsOf, List.filterMap_append, collectBannedRest_eq, collectBannedRestOf_eq]

end

/-- A rest is reported exactly when it is not one of the metered forms. -/
theorem reported_iff {ast r : Node} {ancestors : Ancestors} (hmem : (ancestors, r) ∈ ast.positions [])
    (hr : r.kind = .restElement) :
    (∃ kind, ⟨kind, ancestors⟩ ∈ findBannedRest ast) ↔ isMeteredRest (stackOf ancestors) = false := by
  have hhit : ∀ kind, (⟨kind, ancestors⟩ : RestHit) ∈ findBannedRest ast →
      bannedRestKind (stackOf ancestors) = some kind := by
    intro kind hkind
    rw [findBannedRest, collectBannedRest_eq] at hkind
    obtain ⟨⟨ancestors', r'⟩, -, hhit⟩ := List.mem_filterMap.mp hkind
    simp only [restHit] at hhit
    split at hhit
    · obtain ⟨kind', hbanned, heq⟩ := Option.map_eq_some_iff.mp hhit
      cases heq
      exact hbanned
    · cases hhit
  constructor
  · rintro ⟨kind, hkind⟩
    have hbanned := hhit kind hkind
    rw [bannedRestKind] at hbanned
    split at hbanned
    · cases hbanned
    · next h => exact Bool.not_eq_true _ ▸ h
  · intro h
    refine ⟨ownerRestKind ((stackOf ancestors).dropWhile fun f => PATTERN_NODE_TYPES f.node.kind).head?, ?_⟩
    rw [findBannedRest, collectBannedRest_eq]
    refine List.mem_filterMap.mpr ⟨(ancestors, r), hmem, ?_⟩
    simp [restHit, hr, bannedRestKind, h]

end XChainVM.Metering
