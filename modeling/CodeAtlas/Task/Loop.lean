import CodeAtlas.Text.Basic
import CodeAtlas.Task.Turns

/-!
# Locks of an event loop

Calls that run on one event loop find their locks by name. A call begins with what needs no lock:
it ends there, or asks for the lock of a name. Those that ask for one name take turns (`Turns`); a
lock that nobody has asked for yet is free.

* `Loop.step` is what happens from one await to the next: a call begins, or one goes on;
* `Loop.run` is the loop after a list of such events.
-/

namespace CodeAtlas

/-- How a call begins. -/
inductive Opening (σ α : Type)
  /-- It ends without asking for a lock. -/
  | ends (a : α)
  | asks (lock : Text) (turn : Turn σ α)

structure Lock where
  /-- The call that has the lock. -/
  holder : Option Nat
  queue : List Nat

def Lock.free : Lock := ⟨none, []⟩

structure Loop (κ σ α : Type) where
  state : σ
  /-- The calls that asked for a lock, each with its name. -/
  calls : List (κ × Text)
  /-- Where each of these calls stands. -/
  tasks : List (Turn σ α × Turn.Phase σ α)
  /-- The calls that ended without asking for a lock. -/
  ended : List (κ × α)
  locks : Text → Lock
  /-- The calls that have got their lock so far, in order. -/
  entered : List Nat

/-- What happens on a loop: a call begins, or call `i` goes on. -/
inductive Loop.Event (κ : Type)
  | call (c : κ)
  | go (i : Nat)

namespace Loop

variable {κ σ α : Type}

def start (s : σ) : Loop κ σ α := ⟨s, [], [], [], fun _ => .free, []⟩

def phase? (l : Loop κ σ α) (i : Nat) : Option (Turn.Phase σ α) := (l.tasks[i]?).map (·.2)

/-- The turns at one lock. -/
def turns (l : Loop κ σ α) (name : Text) : Turns σ α :=
  ⟨l.state, l.tasks, (l.locks name).holder, (l.locks name).queue, l.entered⟩

/-- Takes over what has happened at one lock. -/
def update (l : Loop κ σ α) (name : Text) (t : Turns σ α) : Loop κ σ α :=
  { l with
    state := t.state
    tasks := t.tasks
    locks := fun other => if other = name then ⟨t.holder, t.queue⟩ else l.locks other
    entered := t.entered }

/-- Lets call `i` go on at its lock. -/
def go (l : Loop κ σ α) (i : Nat) : Loop κ σ α :=
  match l.calls[i]? with
  | none => l
  | some (_, name) => l.update name ((l.turns name).step i)

/-- Notes a call that asks for a lock. -/
def add (l : Loop κ σ α) (c : κ) (name : Text) (turn : Turn σ α) : Loop κ σ α :=
  { l with calls := l.calls ++ [(c, name)], tasks := l.tasks ++ [(turn, .ready)] }

/-- One event. A call that asks for a lock does so at once. -/
def step (opening : κ → σ → Opening σ α) (l : Loop κ σ α) : Event κ → Loop κ σ α
  | .call c =>
    match opening c l.state with
    | .ends a => { l with ended := l.ended ++ [(c, a)] }
    | .asks name turn => (l.add c name turn).go l.tasks.length
  | .go i => l.go i

def run (opening : κ → σ → Opening σ α) (l : Loop κ σ α) (events : List (Event κ)) :
    Loop κ σ α :=
  events.foldl (step opening) l

end Loop

end CodeAtlas
