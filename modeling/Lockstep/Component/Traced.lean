import Lockstep.Decimal.Layout
import Lockstep.Error

/-!
# Hooks, events and traced computations

The points of a step at which monitors may run, sets of them, and what monitors report while a
workflow runs.

A traced computation keeps its notes in order also when it fails: the events of monitors, with the
lane that each is about, and lines that components write down.
-/

namespace Lockstep

/-! ## Hooks -/

/-- A point at which monitors may run. -/
inductive Hook where
  | setup
  | preAsk
  | postAsk
  | preEval
  | postEval
  | preTell
  | postTell
deriving DecidableEq

namespace Hook

/-- All hooks, in the order of a run. -/
def all : List Hook := [.setup, .preAsk, .postAsk, .preEval, .postEval, .preTell, .postTell]

def name : Hook → String
  | .setup => "setup"
  | .preAsk => "pre_ask"
  | .postAsk => "post_ask"
  | .preEval => "pre_eval"
  | .postEval => "post_eval"
  | .preTell => "pre_tell"
  | .postTell => "post_tell"

end Hook

/-- A set of hooks, as its members in the order of a run. -/
structure HookSet where
  members : List Hook
deriving DecidableEq

namespace HookSet

def empty : HookSet := ⟨[]⟩

/-- The hook is in the set. -/
def contains (s : HookSet) (h : Hook) : Bool := s.members.contains h

/-- The set with one more hook. -/
def insert (s : HookSet) (h : Hook) : HookSet :=
  ⟨Hook.all.filter fun x => x = h || s.contains x⟩

/-- The set of the given hooks. -/
def ofList (hs : List Hook) : HookSet := ⟨Hook.all.filter (hs.contains ·)⟩

/-- The set of all hooks. -/
def all : HookSet := ofList Hook.all

def isEmpty (s : HookSet) : Bool := s.members.isEmpty

end HookSet

/-! ## Events -/

/-- How much an event matters. -/
inductive EventLevel where
  /-- progress -/
  | info
  /-- something to look at -/
  | warning
deriving DecidableEq

def EventLevel.name : EventLevel → String
  | .info => "Info"
  | .warning => "Warning"

/-- What happened. -/
inductive EventKind where
  /-- the best fitness improved; there is no previous one before the first finite best -/
  | newBest (fitness : Float) (previous : Option Float)
  /-- `count` of `total` candidates have a fitness that is not finite -/
  | nonFinite (count total : Nat)
  /-- no improvement for a count of generations -/
  | stagnation (generations : UInt64)
deriving DecidableEq

def EventKind.message : EventKind → String
  | .newBest fitness (some previous) =>
    s!"best fitness improved from {Decimal.scientific 6 previous} to {Decimal.scientific 6 fitness}"
  | .newBest fitness none => s!"first finite best fitness {Decimal.scientific 6 fitness}"
  | .nonFinite count total => s!"{count} of {total} fitness values are not finite"
  | .stagnation generations => s!"no improvement for {generations} generations"

/-- A report of a monitor. -/
structure Event where
  level : EventLevel
  kind : EventKind
  /-- the path of the monitor -/
  monitor : String
  generation : UInt64
  lane : Nat
deriving DecidableEq

def Event.message (e : Event) : String := e.kind.message


/-! ## Computations with reports -/

/-- Something noted during a computation. -/
inductive Note where
  | event (e : Event)
  | line (text : String)
deriving DecidableEq

/-- The outcome of a computation with what was noted on the way. -/
structure Traced (α : Type) where
  notes : List Note
  outcome : Outcome α

namespace Traced

variable {α β : Type}

/-- A computation that notes nothing. -/
def ofOutcome (o : Outcome α) : Traced α := ⟨[], o⟩

/-- Success, with nothing noted. -/
protected def pure (x : α) : Traced α := ofOutcome (.ok x)

/-- One computation after another, which runs only if the first one succeeds. -/
protected def bind (t : Traced α) (f : α → Traced β) : Traced β :=
  match t.outcome with
  | .ok x => ⟨t.notes ++ (f x).notes, (f x).outcome⟩
  | .error e => ⟨t.notes, .error e⟩

instance : Monad Traced where
  pure := Traced.pure
  bind := Traced.bind

protected theorem map_id (t : Traced α) : id <$> t = t := by
  obtain ⟨notes, e | x⟩ := t
  · rfl
  · exact congrArg (Traced.mk · _) (List.append_nil notes)

protected theorem bind_assoc {γ : Type} (t : Traced α) (f : α → Traced β) (g : β → Traced γ) :
    t >>= f >>= g = t >>= fun x => f x >>= g := by
  obtain ⟨notes, e | x⟩ := t
  · rfl
  · -- only the notes of the first computation stand in front
    show Traced.bind (Traced.mk _ _) _ =
      Traced.mk (_ ++ (Traced.bind _ _).notes) (Traced.bind _ _).outcome
    rcases h : (f x).outcome with e | y
    · simp only [Traced.bind, h]
    · simp only [Traced.bind, h, List.append_assoc]

instance : LawfulMonad Traced := .mk' Traced Traced.map_id (fun _ _ => rfl) Traced.bind_assoc

instance : MonadLift (Except Error) Traced := ⟨ofOutcome⟩

/-- Failure. -/
def fail (e : Error) : Traced α := ofOutcome (.error e)

/-- One note. -/
def note (n : Note) : Traced Unit := ⟨[n], .ok ()⟩

/-- All computations, one after another and also after a failure; the first failure counts. -/
def all : List (Traced α) → Traced (List α)
  | [] => .pure []
  | t :: rest =>
    let others := all rest
    ⟨t.notes ++ others.notes, do
      let x ← t.outcome
      let xs ← others.outcome
      return x :: xs⟩

@[simp] theorem outcome_ofOutcome (o : Outcome α) : (ofOutcome o).outcome = o := rfl

@[simp] theorem outcome_pure (x : α) : (pure x : Traced α).outcome = .ok x := rfl

@[simp] theorem outcome_fail (e : Error) : (fail e : Traced α).outcome = .error e := rfl

@[simp] theorem outcome_note (n : Note) : (note n).outcome = .ok () := rfl

@[simp] theorem outcome_liftM (o : Outcome α) : (liftM o : Traced α).outcome = o := rfl

@[simp] theorem outcome_bind (t : Traced α) (f : α → Traced β) :
    (t >>= f).outcome = t.outcome >>= fun x => (f x).outcome := by
  show (Traced.bind t f).outcome = _
  cases h : t.outcome with
  | ok x => simp only [Traced.bind, h]; rfl
  | error e => simp only [Traced.bind, h]; rfl

theorem ok_bind (x : α) (f : α → Traced β) :
    ((liftM (Except.ok x : Outcome α) : Traced α) >>= f) = f x := rfl

/-- What comes after a computation matters for its result only. -/
theorem bind_congr_of_outcome {t : Traced α} {f g : α → Traced β}
    (h : ∀ x, t.outcome = .ok x → f x = g x) : t >>= f = t >>= g := by
  show Traced.bind t f = Traced.bind t g
  unfold Traced.bind
  cases hx : t.outcome with
  | ok x => simp only [h x hx]
  | error e => rfl

theorem outcome_all (ts : List (Traced α)) : (all ts).outcome = ts.mapM outcome := by
  induction ts with
  | nil => rfl
  | cons t rest ih => rw [List.mapM_cons, ← ih]; rfl

end Traced

end Lockstep
