import Lockstep.Pieces
import Lockstep.State.Stack

/-!
# Loops and branches over lanes

The batched forms keep all lanes in step: a batched loop runs its body on every lane in each round
and keeps the new value only where the lane's condition held, and a batched switch takes both
branches on every lane before it chooses. Conditions and bodies may be run in any monad. Loops take
the greatest count of rounds; `none` says that it was not enough.
-/

namespace Lockstep

section

variable {m : Type → Type} [Monad m] {α : Type}

/-- The body as long as the condition holds. -/
def whileLoop (cond : α → m Bool) (body : α → m α) : (rounds : Nat) → α → m (Option α)
  | 0, _ => return none
  | rounds + 1, x => do
    if ← cond x then whileLoop cond body rounds (← body x) else return some x

/-- Lane by lane the first value where the mask holds, else the second one. -/
def selectLanes (mask : List Bool) (onTrue onFalse : List α) : Outcome (List α) :=
  if onTrue.length = mask.length && onFalse.length = mask.length then
    .ok (Mask.choose mask onTrue onFalse)
  else shapeMismatch "lane selection" [mask.length] [onTrue.length, onFalse.length]

/-- The body on all lanes as long as the condition holds on one; a lane on which it does not hold
stays as it is. -/
def batchedWhileLoop (cond : α → m Bool) (body : α → m α) :
    (rounds : Nat) → List α → m (Option (List α))
  | 0, _ => return none
  | rounds + 1, lanes => do
    let mask ← lanes.mapM cond
    if mask.any id then
      let advanced ← lanes.mapM body
      batchedWhileLoop cond body rounds (Mask.choose mask advanced lanes)
    else return some lanes

/-- One of two branches. -/
def switch (pred : Bool) (onTrue onFalse : α → m α) (x : α) : m α :=
  if pred then onTrue x else onFalse x

/-- Both branches on every lane, of which each lane keeps one. There must be one predicate for each
lane. -/
def batchedSwitch [MonadExcept Error m] (preds : List Bool) (onTrue onFalse : α → m α)
    (lanes : List α) : m (List α) :=
  if preds.length = lanes.length then do
    let taken ← lanes.mapM onTrue
    let notTaken ← lanes.mapM onFalse
    return Mask.choose preds taken notTaken
  else throw (.structural (.shapeMismatch "switch predicates" [lanes.length] [preds.length]))

end

namespace State

/-- Lane by lane from one of two states with the same batch axes. -/
def select (mask : List Bool) (onTrue onFalse : State) : Outcome State :=
  if onTrue.batchDims ≠ onFalse.batchDims then
    .error (.structural (.stackMismatch (.selection onTrue.batchDims onFalse.batchDims)))
  else do
    let taken ← onTrue.flatten
    let notTaken ← onFalse.flatten
    unflatten onTrue.batchDims (← selectLanes mask taken notTaken)

end State

end Lockstep
