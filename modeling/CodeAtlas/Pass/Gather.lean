import CodeAtlas.Pass.Basic

/-!
# Embedding several files at a time

The embedding calls of a pass, one for each file, may overlap up to a limit. Each file has a slot;
a call starts in a waiting slot while fewer than the limit are under way, and puts its answer into
the slot when it ends. Whatever the order of these events, the items are read off the slots in the
order of the files. The first call that ends badly fails the pass, which does not wait for the
others.
-/

namespace CodeAtlas

/-- What became of the call for one file. -/
inductive Slot
  | waiting
  | underWay
  | answered (answer : Except EmbedFailure (List Embedding))

structure Gather where
  /-- How many calls may be under way. -/
  limit : Nat
  slots : List (List CodeUnit × Slot)

namespace Gather

/-- What happens to the call for a file. -/
inductive Event
  | start (file : Nat)
  | finish (file : Nat) (answer : Except EmbedFailure (List Embedding))

/-- The calls of a pass before any has started. -/
def ofFiles {σ : Type} (ix : Indexer σ) (files : List (List CodeUnit)) : Gather :=
  ⟨ix.maxConcurrency, files.map (·, .waiting)⟩

def isUnderWay : Slot → Bool
  | .underWay => true
  | _ => false

/-- How many calls are under way. -/
def inFlight (g : Gather) : Nat := g.slots.countP fun slot => isUnderWay slot.2

def setSlot (g : Gather) (file : Nat) (slot : Slot) : Gather :=
  { g with slots := g.slots.modify file fun s => (s.1, slot) }

/-- An event, if it can happen. -/
def step? (g : Gather) : Event → Option Gather
  | .start file =>
    match g.slots[file]? with
    | some (_, .waiting) => if g.inFlight < g.limit then some (g.setSlot file .underWay) else none
    | _ => none
  | .finish file answer =>
    match g.slots[file]? with
    | some (_, .underWay) => some (g.setSlot file (.answered answer))
    | _ => none

/-- Events in turn, if each can happen. -/
def run? (g : Gather) : List Event → Option Gather
  | [] => some g
  | e :: rest => (g.step? e).bind (·.run? rest)

/-- The items of one slot, once its call has ended well. -/
def itemsOfSlot? (project now : Text) : List CodeUnit × Slot → Option (List IndexItem)
  | (units, .answered answer) => (Pass.itemsOfAnswer project now units answer).toOption
  | _ => none

/-- The items of all files in their order, once every call has ended well. -/
def items? (project now : Text) (g : Gather) : Option (List IndexItem) :=
  (g.slots.mapM (itemsOfSlot? project now)).map List.flatten

/-- The failure of a call that ends badly. -/
def failure? (project now : Text) (files : List (List CodeUnit)) : Event → Option PassFailure
  | .start _ => none
  | .finish file answer => do
    let units ← files[file]?
    match Pass.itemsOfAnswer project now units answer with
    | .error f => some f
    | .ok _ => none

/-- What the pass has of its calls after these events: the failure of the first that ended badly, or
the items once all have ended well. -/
def outcome? {σ : Type} (ix : Indexer σ) (now : Text) (files : List (List CodeUnit))
    (events : List Event) : Option (Except PassFailure (List IndexItem)) := do
  let g ← (ofFiles ix files).run? events
  match events.findSome? (failure? ix.project now files) with
  | some f => return .error f
  | none => return .ok (← g.items? ix.project now)

end Gather

end CodeAtlas
