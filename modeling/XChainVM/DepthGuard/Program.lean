import Mathlib.Data.List.Basic

/-! # Metered contract code

The control flow of a contract, and what the meter makes of it: a charge at the entry of functions,
loops, branches and the parts of a `try`, a charge before calls, and a guard around the body of
every function.
-/

namespace XChainVM.DepthGuard

inductive Code where
  | skip
  /-- An operation that the meter leaves alone. It may throw, and may run functions of the contract,
  as getters, conversions and callbacks do. -/
  | work
  /-- A call of a builtin that charges by the size of what it makes. -/
  | allocate (size : ℕ)
  /-- `Object.keys` and its kin, which charge by the size of what they made. -/
  | objectStatic (size : ℕ)
  /-- An assignment to the global `Error`. -/
  | replaceError
  | throwStatement
  | returnStatement
  | jump
  | gas
  | depthEnter
  | depthExit
  /-- `__depth_enter(); try { body } finally { __depth_exit(); }`. -/
  | guarded (body : Code)
  | seq (first rest : Code)
  /-- One of two operands, as of a logical operator. -/
  | either (first second : Code)
  | conditional (test consequent alternate : Code)
  | ifStatement (consequent : Code) (hasAlternate : Bool) (alternate : Code)
  | loop (isFor : Bool) (test update body : Code)
  /-- `for (binding of ...) body`, from where the iterator is there. -/
  | forOf (binding body : Code)
  /-- The elements of an array pattern, which come from an iterator. -/
  | arrayPattern (elements : Code)
  /-- A statement that a jump can leave, as a switch or a labelled block. -/
  | breakable (body : Code)
  | call (args : Code)
  /-- A `new` expression. -/
  | construct (args : Code)
  | tryStatement (block : Code) (hasHandler : Bool) (param handler : Code) (hasFinalizer : Bool)
    (finalizer : Code)
  deriving DecidableEq

namespace Code

def isExpression : Code → Bool
  | skip | work | allocate _ | objectStatic _ | replaceError | gas => true
  | seq first rest => first.isExpression && rest.isExpression
  | either first second => first.isExpression && second.isExpression
  | conditional test consequent alternate =>
    test.isExpression && consequent.isExpression && alternate.isExpression
  | call args | construct args | arrayPattern args => args.isExpression
  | _ => false

/-- Code that a contract can be written in: it does not call the depth hooks, and what a catch
clause binds with is an expression. -/
def isSource : Code → Bool
  | depthEnter | depthExit | guarded _ => false
  | seq first rest => first.isSource && rest.isSource
  | either first second => first.isSource && second.isSource
  | conditional test consequent alternate =>
    test.isSource && consequent.isSource && alternate.isSource
  | ifStatement consequent _ alternate => consequent.isSource && alternate.isSource
  | loop _ test update body => test.isSource && update.isSource && body.isSource
  | forOf binding body => binding.isSource && body.isSource
  | breakable body => body.isSource
  | call args | construct args | arrayPattern args => args.isSource
  | tryStatement block _ param handler _ finalizer =>
    block.isSource && param.isSource && param.isExpression && handler.isSource &&
      finalizer.isSource
  | _ => true

end Code

open Code

/-- `{ __gas(1); code }`, and `(__gas(1), code)`. -/
def charged (code : Code) : Code := seq gas code

def chargeAlternate : Code → Code → Code
  | ifStatement _ _ _, metered => metered
  | _, metered => charged metered

def meter : Code → Code
  | seq first rest => seq (meter first) (meter rest)
  | either first second => either (meter first) (meter second)
  | conditional test consequent alternate =>
    conditional (charged (meter test)) (meter consequent) (meter alternate)
  | ifStatement consequent hasAlternate alternate =>
    ifStatement (charged (meter consequent)) hasAlternate (chargeAlternate alternate (meter alternate))
  | loop isFor test update body =>
    loop isFor (meter test) (if isFor then charged (meter update) else meter update)
      (charged (meter body))
  | forOf binding body => forOf (meter binding) (charged (meter body))
  | arrayPattern elements => arrayPattern (meter elements)
  | breakable body => breakable (meter body)
  | call args => charged (call (meter args))
  | construct args => construct (meter args)
  | tryStatement block hasHandler param handler hasFinalizer finalizer =>
    tryStatement (charged (meter block)) hasHandler (meter param) (charged (meter handler))
      hasFinalizer (charged (meter finalizer))
  | code => code

/-- A function, with the code that binds its parameters. -/
structure Fn where
  params : Code
  body : Code

def wrapDepthGuard (body : Code) : Code := guarded body

/-- The guard stands around the body, and the parameters are bound outside it. -/
def meterFunction (fn : Fn) : Fn where
  params := meter fn.params
  body := wrapDepthGuard (charged (meter fn.body))

structure Contract where
  functions : List Fn
  script : Code

def Contract.isSource (c : Contract) : Bool :=
  c.script.isSource && c.functions.all fun fn => fn.params.isSource && fn.body.isSource

/-- Handlers and finalizers begin with a charge, and the depth hooks are called by guards only. -/
def Metered : Code → Prop
  | depthEnter | depthExit => False
  | guarded body => Metered body
  | seq first rest => Metered first ∧ Metered rest
  | either first second => Metered first ∧ Metered second
  | conditional test consequent alternate => Metered test ∧ Metered consequent ∧ Metered alternate
  | ifStatement consequent _ alternate => Metered consequent ∧ Metered alternate
  | loop _ test update body => Metered test ∧ Metered update ∧ Metered body
  | forOf binding body => Metered binding ∧ Metered body
  | breakable body => Metered body
  | call args | construct args | arrayPattern args => Metered args
  | tryStatement block _ param handler _ finalizer =>
    Metered block ∧ (Metered param ∧ param.isExpression = true) ∧
      (Metered handler ∧ ∃ rest, handler = charged rest) ∧
      Metered finalizer ∧ ∃ rest, finalizer = charged rest
  | _ => True

theorem metered_charged {code : Code} (h : Metered code) : Metered (charged code) := ⟨trivial, h⟩

theorem metered_chargeAlternate {code metered : Code} (h : Metered metered) :
    Metered (chargeAlternate code metered) := by
  unfold chargeAlternate
  split
  · exact h
  · exact metered_charged h

theorem isExpression_meter {code : Code} (h : code.isExpression = true) :
    (meter code).isExpression = true := by
  induction code with
  | seq first rest ihFirst ihRest =>
    simp only [isExpression, Bool.and_eq_true] at h
    simp only [meter, isExpression, ihFirst h.1, ihRest h.2, Bool.and_self]
  | either first second ihFirst ihSecond =>
    simp only [isExpression, Bool.and_eq_true] at h
    simp only [meter, isExpression, ihFirst h.1, ihSecond h.2, Bool.and_self]
  | conditional test consequent alternate ihTest ihConsequent ihAlternate =>
    simp only [isExpression, Bool.and_eq_true] at h
    simp only [meter, charged, isExpression, ihTest h.1.1, ihConsequent h.1.2, ihAlternate h.2,
      Bool.and_self]
  | call args ih => simp only [meter, charged, isExpression, ih h, Bool.and_self]
  | construct args ih | arrayPattern args ih => exact ih h
  | skip | work | allocate size | objectStatic size | replaceError | gas => rfl
  | _ => cases h

theorem metered_meter {code : Code} (h : code.isSource = true) : Metered (meter code) := by
  induction code with
  | seq first rest ihFirst ihRest =>
    simp only [isSource, Bool.and_eq_true] at h
    exact ⟨ihFirst h.1, ihRest h.2⟩
  | either first second ihFirst ihSecond =>
    simp only [isSource, Bool.and_eq_true] at h
    exact ⟨ihFirst h.1, ihSecond h.2⟩
  | conditional test consequent alternate ihTest ihConsequent ihAlternate =>
    simp only [isSource, Bool.and_eq_true] at h
    exact ⟨metered_charged (ihTest h.1.1), ihConsequent h.1.2, ihAlternate h.2⟩
  | ifStatement consequent hasAlternate alternate ihConsequent ihAlternate =>
    simp only [isSource, Bool.and_eq_true] at h
    exact ⟨metered_charged (ihConsequent h.1), metered_chargeAlternate (ihAlternate h.2)⟩
  | loop isFor test update body ihTest ihUpdate ihBody =>
    simp only [isSource, Bool.and_eq_true] at h
    refine ⟨ihTest h.1.1, ?_, metered_charged (ihBody h.2)⟩
    split
    · exact metered_charged (ihUpdate h.1.2)
    · exact ihUpdate h.1.2
  | forOf binding body ihBinding ihBody =>
    simp only [isSource, Bool.and_eq_true] at h
    exact ⟨ihBinding h.1, metered_charged (ihBody h.2)⟩
  | breakable body ih => exact ih h
  | call args ih => exact metered_charged (ih h)
  | construct args ih | arrayPattern args ih => exact ih h
  | tryStatement block hasHandler param handler hasFinalizer finalizer ihBlock ihParam ihHandler
      ihFinalizer =>
    simp only [isSource, Bool.and_eq_true] at h
    exact ⟨metered_charged (ihBlock h.1.1.1.1), ⟨ihParam h.1.1.1.2, isExpression_meter h.1.1.2⟩,
      ⟨metered_charged (ihHandler h.1.2), _, rfl⟩, metered_charged (ihFinalizer h.2), _, rfl⟩
  | depthEnter | depthExit | guarded body _ => cases h
  | _ => trivial

theorem metered_meterFunction {fn : Fn} (hparams : fn.params.isSource = true)
    (hbody : fn.body.isSource = true) :
    Metered (meterFunction fn).params ∧ Metered (meterFunction fn).body :=
  ⟨metered_meter hparams, metered_charged (metered_meter hbody)⟩

end XChainVM.DepthGuard
