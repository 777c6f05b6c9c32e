import CodeAtlas.Task.Steps

/-!
# Taking turns

Calls that work on one project take turns: one call at a time is inside, the others queue up and
enter in the order in which they came. An impatient call does not queue up behind a call that is
inside but is refused. `Turns.step` lets one call go on by one step, so that a list of calls to go
on is an interleaving of their steps.

* `Turns.run` is the state after an interleaving;
* `Turns.inOrder` runs calls one after the other.
-/

namespace CodeAtlas

/-- A call that waits for its turn. -/
structure Turn (σ α : Type) where
  /-- Whether the call is refused while another one is inside. -/
  impatient : Bool
  body : Steps σ α

/-- Where a call stands. -/
inductive Turn.Phase (σ α : Type)
  | ready
  | queued
  | inside (rest : Steps σ α)
  | refused
  | finished (a : α)

structure Turns (σ α : Type) where
  state : σ
  tasks : List (Turn σ α × Turn.Phase σ α)
  /-- The call that is inside. -/
  holder : Option Nat
  queue : List Nat
  /-- The calls that have entered so far, in order. -/
  entered : List Nat

namespace Turns

variable {σ α : Type}

/-- Calls that have not begun. -/
def start (s : σ) (calls : List (Turn σ α)) : Turns σ α :=
  ⟨s, calls.map (·, .ready), none, [], []⟩

def phase? (t : Turns σ α) (i : Nat) : Option (Turn.Phase σ α) := (t.tasks[i]?).map (·.2)

def setPhase (t : Turns σ α) (i : Nat) (p : Turn.Phase σ α) : Turns σ α :=
  { t with tasks := t.tasks.modify i fun task => (task.1, p) }

/-- Lets a call in. -/
def enter (t : Turns σ α) (i : Nat) (call : Turn σ α) : Turns σ α :=
  { t.setPhase i (.inside call.body) with holder := some i, entered := t.entered ++ [i] }

/-- The first step of a call: it enters, queues up or is refused. -/
def arrive (t : Turns σ α) (i : Nat) (call : Turn σ α) : Turns σ α :=
  if call.impatient && t.holder.isSome then t.setPhase i .refused
  else if t.holder.isNone && t.queue.isEmpty then t.enter i call
  else { t.setPhase i .queued with queue := t.queue ++ [i] }

/-- Lets call `i` go on by one step. -/
def step (t : Turns σ α) (i : Nat) : Turns σ α :=
  match t.tasks[i]? with
  | none => t
  | some (call, .ready) => t.arrive i call
  | some (call, .queued) =>
    if t.holder.isNone && t.queue.head? == some i then
      { t.enter i call with queue := t.queue.tail }
    else t
  | some (_, .inside (.done a)) => { t.setPhase i (.finished a) with holder := none }
  | some (_, .inside (.step _ act)) =>
    let (rest, s) := act t.state
    { t.setPhase i (.inside rest) with state := s }
  | some (_, .refused) => t
  | some (_, .finished _) => t

/-- The state after calls went on in the given order. -/
def run (t : Turns σ α) (schedule : List Nat) : Turns σ α := schedule.foldl step t

/-- The results of calls that run one after the other, and the state afterwards. -/
def inOrder (s : σ) : List (Turn σ α) → List α × σ
  | [] => ([], s)
  | call :: rest =>
    let (a, s) := call.body.run s
    let (as, s) := inOrder s rest
    (a :: as, s)

end Turns

end CodeAtlas
