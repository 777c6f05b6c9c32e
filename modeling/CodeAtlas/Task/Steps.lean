/-!
# Work in steps

A program that shares a state with others runs from one await to the next; in between nobody else
touches the state. `Steps σ α` is such a program over a state `σ` with result `α`: it is done, or it
waits at an await and goes on from there.

* `run` lets a program run to its end without interruption;
* `runUntil` lets it run up to an await at which it has to stop.
-/

namespace CodeAtlas

/-- What a program waits for. -/
inductive Await
  /-- The listing of a project's files. -/
  | scan
  /-- The units of one file. -/
  | extract
  /-- The vectors of one file. -/
  | embed
  /-- A call of the vector index. -/
  | store
  /-- Nothing but its turn. -/
  | turn
deriving DecidableEq, Repr

inductive Steps (σ α : Type)
  | done (a : α)
  | step (await : Await) (act : σ → Steps σ α × σ)

namespace Steps

variable {σ α β γ : Type}

/-- A single step that waits for `await` and then does `m`. -/
def wait (await : Await) (m : StateM σ α) : Steps σ α :=
  .step await fun s =>
    let (a, s') := m s
    (.done a, s')

mutual

def bind (p : Steps σ α) (f : α → Steps σ β) : Steps σ β :=
  match p with
  | .done a => f a
  | .step await act => .step await fun s => bindNext (act s) f

def bindNext (p : Steps σ α × σ) (f : α → Steps σ β) : Steps σ β × σ :=
  match p with
  | (q, s) => (bind q f, s)

end

instance : Monad (Steps σ) where
  pure := .done
  bind := bind

/-! ## Running -/

mutual

/-- Runs to the end. -/
def run : Steps σ α → σ → α × σ
  | .done a, s => (a, s)
  | .step _ act, s => runNext (act s)

def runNext : Steps σ α × σ → α × σ
  | (p, s) => run p s

end

mutual

/-- Runs until the program is done or waits for something that stops it. -/
def runUntil (stops : Await → Bool) : Steps σ α → σ → Steps σ α × σ
  | .done a, s => (.done a, s)
  | .step await act, s => if stops await then (.step await act, s) else runUntilNext stops (act s)

def runUntilNext (stops : Await → Bool) : Steps σ α × σ → Steps σ α × σ
  | (p, s) => runUntil stops p s

end

/-! ## Laws -/

@[simp] theorem runNext_eq (p : Steps σ α × σ) : runNext p = run p.1 p.2 := by
  obtain ⟨q, s⟩ := p
  rfl

@[simp] theorem bindNext_eq (p : Steps σ α × σ) (f : α → Steps σ β) :
    bindNext p f = (bind p.1 f, p.2) := by
  obtain ⟨q, s⟩ := p
  rfl

@[simp] theorem runUntilNext_eq (stops : Await → Bool) (p : Steps σ α × σ) :
    runUntilNext stops p = runUntil stops p.1 p.2 := by
  obtain ⟨q, s⟩ := p
  rfl

/-- Induction over a program: what holds after each step holds before it. -/
theorem inductionOn {motive : Steps σ α → Prop} (p : Steps σ α)
    (done : ∀ a, motive (.done a))
    (step : ∀ await act, (∀ s, motive (act s).1) → motive (.step await act)) : motive p :=
  @Steps.rec σ α motive (fun q => motive q.1) done step (fun _ _ h => h) p

theorem bind_done (p : Steps σ α) : bind p .done = p := by
  induction p using inductionOn with
  | done a => rfl
  | step await act ih => simp [bind, ih]

theorem bind_assoc (p : Steps σ α) (f : α → Steps σ β) (g : β → Steps σ γ) :
    bind (bind p f) g = bind p fun a => bind (f a) g := by
  induction p using inductionOn with
  | done a => rfl
  | step await act ih => simp [bind, ih]

instance : LawfulMonad (Steps σ) :=
  LawfulMonad.mk' (Steps σ) (fun p => bind_done p) (fun _ _ => rfl) (fun p f g => bind_assoc p f g)

@[simp] theorem run_done (a : α) (s : σ) : run (.done a) s = (a, s) := rfl

@[simp] theorem run_pure (a : α) (s : σ) : run (pure a : Steps σ α) s = (a, s) := rfl

@[simp] theorem run_step (await : Await) (act : σ → Steps σ α × σ) (s : σ) :
    run (.step await act) s = run (act s).1 (act s).2 := by
  simp [run]

@[simp] theorem run_wait (await : Await) (m : StateM σ α) (s : σ) :
    run (wait await m) s = m s := rfl

/-- Running a sequence is running its parts one after the other. -/
@[simp] theorem run_bind (p : Steps σ α) (f : α → Steps σ β) (s : σ) :
    run (p >>= f) s = run (f (run p s).1) (run p s).2 := by
  change run (bind p f) s = _
  induction p using inductionOn generalizing s with
  | done a => simp [bind]
  | step await act ih => simp [bind, ih]

end Steps

end CodeAtlas
