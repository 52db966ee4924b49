import TypedLambda.Eval.Fault

/-!
# Traced computations

A computation that records the terms it visits. The record survives a fault.
-/

namespace TypedLambda

/-- A computation that extends a record of visited terms, the latest first. -/
def Traced (α : Type) := List Term → Except Fault α × List Term

namespace Traced

variable {α β : Type}

@[always_inline, inline]
instance : Monad Traced where
  pure a := fun visited => (.ok a, visited)
  bind x f := fun visited =>
    match x visited with
    | (.ok a, visited') => f a visited'
    | (.error e, visited') => (.error e, visited')

@[inline] def fail (e : Fault) : Traced α := fun visited => (.error e, visited)

@[inline] def ofExcept (r : Except Fault α) : Traced α := fun visited => (r, visited)

end Traced

/-- The result of a computation and the terms it visited, in order. -/
structure Outcome (ε α : Type) where
  trace : List Term
  result : Except ε α

def Traced.run {α : Type} (x : Traced α) : Outcome Fault α :=
  let r := x []
  ⟨r.2.reverse, r.1⟩

/-- Number of nested calls that share one thread; they use only part of its stack. -/
def levelsPerThread : Nat := 4096

/-- The value of `f`, computed on a thread of its own at every `levelsPerThread`-th level. A
recursion that passes its level here is limited by memory and not by one stack. -/
@[inline] def onFreshStack {α : Type} (level : Nat) (f : Unit → α) : α :=
  if level % levelsPerThread = 0 then (Task.spawn f .dedicated).get else f ()

@[simp] theorem onFreshStack_eq {α : Type} (level : Nat) (f : Unit → α) :
    onFreshStack level f = f () := by
  unfold onFreshStack
  split <;> rfl

end TypedLambda
