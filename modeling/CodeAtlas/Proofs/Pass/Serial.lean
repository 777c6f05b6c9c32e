import CodeAtlas.Proofs.Pass.Leaves
import CodeAtlas.Proofs.Pass.Stored
import CodeAtlas.Task.Loop

/-!
# Passes one after the other

Calls of the indexers of one project share a lock, which is found by the path of the project. A full
pass that finds it taken is refused; all others do their work in turn. Whatever the interleaving,
at most one call is inside, a refused call has done nothing, and what the others do is what they do
one after the other in the order in which they got the lock (`passes_serialised`).

The order in which a call looks at the disk and asks for the lock does not matter, since no pass
changes the disk: `Request.Stands` says what a call is that has been opened on some disk, and
`Loop.Serial` is the invariant of the loop.
-/

namespace CodeAtlas

variable {σ α : Type}

/-- What is left of a program after its first step. -/
def Steps.next : Steps σ α → σ → Steps σ α
  | .done a, _ => .done a
  | .step _ act, s => (act s).1

namespace Loop

variable {κ : Type}

/-- A call that has got its lock and has not left it. -/
def Inside (l : Loop κ σ α) (i : Nat) : Prop := ∃ turn rest, l.tasks[i]? = some (turn, .inside rest)

/-- The call that an event is about. -/
def target (l : Loop κ σ α) : Event κ → Nat
  | .call _ => l.tasks.length
  | .go i => i

theorem turns_update (l : Loop κ σ α) (name : Text) (t : Turns σ α) :
    (l.update name t).turns name = t := by
  simp [turns, update]

end Loop

namespace Pass

/-- A call of an indexer. -/
structure Request (σ : Type) where
  indexer : Indexer σ
  job : Job

/-- A way to cut the work of passes into steps. Whatever the cut, a pass does the same as a whole,
and leaves the disk alone. -/
structure Cut (σ : Type) where
  steps : Steps (Workspace σ) (Except Escape Report) → Steps (Workspace σ) (Except Escape Report)
  run : ∀ p w, (steps p).run w = p.run w
  disk : ∀ p, p.Preserves Workspace.disk → (steps p).Preserves Workspace.disk

/-- The steps that passes are written in. -/
def Cut.asWritten : Cut σ := ⟨id, fun _ _ => rfl, fun _ h => h⟩

namespace Request

/-- The name of the lock: the path of the project without links. -/
def lock (q : Request σ) (w : Workspace σ) : Except Escape Text :=
  (withoutLinks w.disk q.indexer.root).map (·.text)

def ask (q : Request σ) (w : Workspace σ) (turn : Turn (Workspace σ) (Except Escape Report)) :
    Opening (Workspace σ) (Except Escape Report) :=
  match q.lock w with
  | .error e => .ends (.error e)
  | .ok name => .asks name turn

/-- How a call begins. A pass over one file finds the path of the file, which is its first step,
before it asks for the lock. -/
def opening (cut : Cut σ) (q : Request σ) (w : Workspace σ) :
    Opening (Workspace σ) (Except Escape Report) :=
  match q.job with
  | .full => q.ask w ⟨true, cut.steps (q.job.pass q.indexer)⟩
  | .file _ | .remove _ =>
    match (q.job.pass q.indexer).next w with
    | .done result => .ends result
    | rest => q.ask w ⟨false, cut.steps rest⟩

/-- The whole call as one that waits for its turn. -/
def whole (q : Request σ) : Turn (Workspace σ) (Except Escape Report) :=
  ⟨false, q.job.pass q.indexer⟩

end Request

/-! ## Openings -/

/-- A path that cannot be told ends a call before it asks for the lock. -/
def Request.Unplaced (q : Request σ) (w : Workspace σ) (e : Escape) : Prop :=
  q.lock w = .error e ∨ ∃ path, (q.job = .file path ∨ q.job = .remove path) ∧
    q.indexer.relative w.disk (q.indexer.absolute path) = .error e

/-- What waits for its turn once a call was opened on a disk. -/
structure Request.Stands (q : Request σ) (disk : Disk)
    (turn : Turn (Workspace σ) (Except Escape Report)) : Prop where
  impatient : turn.impatient = true → q.job = .full
  keeps : turn.body.Preserves Workspace.disk
  run : ∀ w, w.disk = disk → turn.body.run w = q.job.run q.indexer w

inductive Request.Opened (q : Request σ) (w : Workspace σ) :
    Opening (Workspace σ) (Except Escape Report) → Prop
  | ends {e : Escape} (h : q.Unplaced w e) : Opened q w (.ends (.error e))
  | asks {name : Text} {turn : Turn (Workspace σ) (Except Escape Report)}
    (hname : q.lock w = .ok name) (h : q.Stands w.disk turn) : Opened q w (.asks name turn)

theorem Request.opened_ask {q : Request σ} {w : Workspace σ}
    {turn : Turn (Workspace σ) (Except Escape Report)} (h : q.Stands w.disk turn) :
    q.Opened w (q.ask w turn) := by
  unfold ask
  split
  · next e he => exact .ends (Or.inl he)
  · next name hname => exact .asks hname h

/-- Work that begins with the path of a file. -/
theorem outcome_locate (ix : Indexer σ) (path : SourcePath) (first : Report)
    (onError : StateM (Workspace σ) Unit) (m : Text → PassM σ Unit) :
    outcome first onError (locate ix path >>= m) = .step .turn fun w =>
      (match ix.relative w.disk (ix.absolute path) with
        | .error e => .done (.error e)
        | .ok file => outcome first onError (m file), w) := by
  change Steps.step Await.turn _ = _
  congr 1
  funext w
  simp only [Steps.bindNext_eq]
  cases ix.relative w.disk (ix.absolute path) with
  | error e => rfl
  | ok file => rfl

/-- A pass over one file first finds the path of the file; there is more to do if it can be told. -/
theorem single_eq {job : Job} {path : SourcePath} (hj : job = .file path ∨ job = .remove path)
    (ix : Indexer σ) : ∃ rest : Text → Steps (Workspace σ) (Except Escape Report),
      (job.pass ix = .step .turn fun w =>
        (match ix.relative w.disk (ix.absolute path) with
          | .error e => .done (.error e)
          | .ok file => rest file, w)) ∧
      ∀ file, ∃ await act, rest file = .step await act := by
  rcases hj with rfl | rfl
  · exact ⟨_, outcome_locate ix path _ _ _, fun file => ⟨_, _, rfl⟩⟩
  · exact ⟨_, outcome_locate ix path _ _ _, fun file => ⟨_, _, rfl⟩⟩

theorem Request.opened_single (cut : Cut σ) {q : Request σ} {path : SourcePath}
    (hj : q.job = .file path ∨ q.job = .remove path) (w : Workspace σ) :
    q.Opened w (match (q.job.pass q.indexer).next w with
      | .done result => .ends result
      | rest => q.ask w ⟨false, cut.steps rest⟩) := by
  obtain ⟨rest, hpass, hmore⟩ := single_eq hj q.indexer
  have hkeeps := preserves_disk q.indexer q.job
  rw [hpass] at hkeeps ⊢
  cases hkeeps with
  | step _ hrest =>
    simp only [Steps.next] at hrest ⊢
    cases hrel : q.indexer.relative w.disk (q.indexer.absolute path) with
    | error e => exact .ends (Or.inr ⟨path, hj, hrel⟩)
    | ok file =>
      obtain ⟨await, act, hact⟩ := hmore file
      have hstands : q.Stands w.disk ⟨false, cut.steps (rest file)⟩ := by
        refine ⟨nofun, cut.disk _ ?_, fun w' hw => ?_⟩
        · have := hrest w
          rwa [hrel] at this
        · rw [cut.run, Job.run, hpass, Steps.run_step, hw, hrel]
      simp only [hact] at hstands ⊢
      exact opened_ask hstands

theorem Request.opened (cut : Cut σ) (q : Request σ) (w : Workspace σ) :
    q.Opened w (q.opening cut w) := by
  unfold opening
  cases hj : q.job with
  | full =>
    refine opened_ask ⟨fun _ => hj, cut.disk _ (preserves_disk _ _), fun w' _ => ?_⟩
    rw [cut.run, hj]
    rfl
  | file path =>
    have h := opened_single cut (Or.inl hj) w
    rwa [hj] at h
  | remove path =>
    have h := opened_single cut (Or.inr hj) w
    rwa [hj] at h

/-! ## The loop -/

/-- Elements that go with those of two lists at a time. -/
theorem exists_forall₂ {ι κ τ : Type} {R : ι → κ → Prop} {S : ι → τ → Prop} {T : κ → τ → Prop}
    {is : List ι} {ks : List κ} (h : List.Forall₂ R is ks)
    (hR : ∀ i k, R i k → ∃ t, S i t ∧ T k t) :
    ∃ ts, List.Forall₂ S is ts ∧ List.Forall₂ T ks ts := by
  induction h with
  | nil => exact ⟨[], .nil, .nil⟩
  | cons hik _ ih =>
    obtain ⟨t, hS, hT⟩ := hR _ _ hik
    obtain ⟨ts, hSs, hTs⟩ := ih
    exact ⟨t :: ts, .cons hS hSs, .cons hT hTs⟩

/-- What stands for requests does what the requests do, one after the other. -/
theorem inOrder_stands {disk : Disk}
    {runs : List (Turn (Workspace σ) (Except Escape Report) × Except Escape Report)}
    {requests : List (Request σ)}
    (h : List.Forall₂ (fun run q => Request.Stands q disk run.1) runs requests)
    {w : Workspace σ} (hw : w.disk = disk) :
    Turns.inOrder w (runs.map (·.1)) = Turns.inOrder w (requests.map Request.whole) := by
  induction h generalizing w with
  | nil => rfl
  | @cons run q _ _ hq _ ih =>
    have hrun : run.1.body.run w = q.whole.body.run w := hq.run w hw
    have hdisk : (q.whole.body.run w).2.disk = disk := hrun ▸ (hq.keeps.run w).trans hw
    simp only [List.map_cons, Turns.inOrder, hrun, ih hdisk]

/-- What holds on a loop of calls that all ask for the lock `name`, begun in workspace `w`. -/
structure Serial (name : Text) (w : Workspace σ)
    (l : Loop (Request σ) (Workspace σ) (Except Escape Report)) : Prop where
  disk : l.state.disk = w.disk
  names : ∀ c ∈ l.calls, c.2 = name
  ordered : (l.turns name).Ordered w
  keeps : (l.turns name).Keeps Workspace.disk
  stands : List.Forall₂ (fun c turn => c.1.Stands w.disk turn) l.calls (l.tasks.map (·.1))
  ended : ∀ c ∈ l.ended, ∃ e, c.2 = .error e ∧ c.1.Unplaced w e

theorem serial_start (name : Text) (w : Workspace σ) : Serial name w (Loop.start w) where
  disk := rfl
  names := by simp [Loop.start]
  ordered := Turns.ordered_start w
  keeps := by simp [Turns.Keeps, Loop.turns, Loop.start]
  stands := .nil
  ended := by simp [Loop.start]

namespace Serial

variable {name : Text} {w : Workspace σ}
  {l : Loop (Request σ) (Workspace σ) (Except Escape Report)}

theorem go (h : Serial name w l) (i : Nat) : Serial name w (l.go i) := by
  unfold Loop.go
  split
  · exact h
  · next c n hc =>
    obtain rfl : n = name := h.names _ (List.mem_of_getElem? hc)
    have hmoves := (l.turns n).step_moves i
    obtain ⟨hkeeps, hdisk⟩ := h.keeps.step hmoves
    refine ⟨hdisk.trans h.disk, h.names, ?_, ?_, ?_, h.ended⟩
    · rw [l.turns_update]
      exact h.ordered.step hmoves
    · rw [l.turns_update]
      exact hkeeps
    · have := hmoves.turns ▸ h.stands
      exact this

theorem add (h : Serial name w l) {q : Request σ}
    {turn : Turn (Workspace σ) (Except Escape Report)} (hq : q.Stands w.disk turn) :
    Serial name w (l.add q name turn) where
  disk := h.disk
  names c hc := by
    rcases List.mem_append.1 hc with hc | hc
    · exact h.names c hc
    · rw [List.mem_singleton.1 hc]
  ordered := h.ordered.add turn
  keeps := h.keeps.add hq.keeps
  stands := by
    rw [Loop.add, List.map_append]
    exact List.rel_append h.stands (.cons hq .nil)
  ended := h.ended

theorem lock_eq (h : Serial name w l) (q : Request σ) : q.lock l.state = q.lock w := by
  rw [Request.lock, Request.lock, h.disk]

theorem step (cut : Cut σ) (h : Serial name w l) (e : Loop.Event (Request σ))
    (he : ∀ q, e = .call q → ∀ n, q.lock w = .ok n → n = name) :
    Serial name w (l.step (Request.opening cut) e) := by
  cases e with
  | go i => exact h.go i
  | call q =>
    have hopened := q.opened cut l.state
    unfold Loop.step
    dsimp only
    cases ho : q.opening cut l.state with
    | ends result =>
      rw [ho] at hopened
      cases hopened with
      | ends hu =>
        refine ⟨h.disk, h.names, h.ordered, h.keeps, h.stands, fun c hc => ?_⟩
        rcases List.mem_append.1 hc with hc | hc
        · exact h.ended c hc
        · rw [List.mem_singleton.1 hc]
          refine ⟨_, rfl, ?_⟩
          rwa [Request.Unplaced, h.lock_eq, h.disk] at hu
    | asks n turn =>
      rw [ho] at hopened
      cases hopened with
      | asks hname hstands =>
        rw [h.lock_eq] at hname
        obtain rfl := he q rfl n hname
        rw [h.disk] at hstands
        exact (h.add hstands).go _

theorem run (cut : Cut σ) (h : Serial name w l) (events : List (Loop.Event (Request σ)))
    (he : ∀ q, .call q ∈ events → ∀ n, q.lock w = .ok n → n = name) :
    Serial name w (l.run (Request.opening cut) events) := by
  induction events generalizing l with
  | nil => exact h
  | cons e events ih =>
    refine ih (h.step cut e fun q hq => he q (hq ▸ List.mem_cons_self)) fun q hq => ?_
    exact he q (List.mem_cons_of_mem e hq)

/-- Every call that asked for the lock stands for its request. -/
theorem request_of_task (h : Serial name w l) {i : Nat}
    {turn : Turn (Workspace σ) (Except Escape Report)}
    {p : Turn.Phase (Workspace σ) (Except Escape Report)} (hi : l.tasks[i]? = some (turn, p)) :
    ∃ q, (l.calls[i]?).map (·.1) = some q ∧ q.Stands w.disk turn := by
  have hturn : (l.tasks.map (·.1))[i]? = some turn := by rw [List.getElem?_map, hi]; rfl
  obtain ⟨hlength, hall⟩ := List.forall₂_iff_get.1 h.stands
  obtain ⟨hi', rfl⟩ := List.getElem?_eq_some_iff.1 hturn
  have hcall : i < l.calls.length := by omega
  refine ⟨l.calls[i].1, ?_, hall i hcall hi'⟩
  rw [List.getElem?_eq_getElem hcall]
  rfl

theorem go_eq (h : Serial name w l) {i : Nat} {c : Request σ × Text} (hc : l.calls[i]? = some c) :
    l.go i = l.update name ((l.turns name).step i) := by
  obtain ⟨q, n⟩ := c
  obtain rfl : n = name := h.names _ (List.mem_of_getElem? hc)
  rw [Loop.go, hc]

/-- A call that begins and is refused is a full pass that finds the lock taken, and has done
nothing. -/
theorem refused_call (cut : Cut σ) (h : Serial name w l) {q : Request σ}
    (hq : ∀ n, q.lock w = .ok n → n = name)
    (hr : (l.step (Request.opening cut) (.call q)).phase? l.tasks.length = some .refused) :
    (l.step (Request.opening cut) (.call q)).state = l.state ∧ q.job = .full ∧
      ∃ j, l.Inside j := by
  have hopened := q.opened cut l.state
  unfold Loop.step at hr ⊢
  dsimp only at hr ⊢
  cases ho : q.opening cut l.state with
  | ends result =>
    rw [ho] at hr
    simp [Loop.phase?] at hr
  | asks n turn =>
    rw [ho] at hr hopened
    cases hopened with
    | asks hname hstands =>
      rw [h.lock_eq] at hname
      obtain rfl := hq n hname
      rw [h.disk] at hstands
      have hnew : (l.add q n turn).tasks[l.tasks.length]? = some (turn, .ready) :=
        List.getElem?_concat_length
      have hcall : (l.add q n turn).calls[l.tasks.length]? = some (q, n) := by
        have hlength := h.stands.length_eq
        rw [List.length_map] at hlength
        rw [← hlength]
        exact List.getElem?_concat_length
      dsimp only at hr ⊢
      rw [(h.add hstands).go_eq hcall] at hr ⊢
      obtain ⟨hstate, hsame | ⟨call, j, hcall, himpatient, hheld⟩⟩ :=
        (((l.add q n turn).turns n).step_moves l.tasks.length).of_refused hr
      · -- a call that has just begun is not refused yet
        rw [hsame] at hr
        change ((l.add q n turn).tasks[l.tasks.length]?).map (·.2) = some .refused at hr
        rw [hnew] at hr
        cases hr
      · cases hnew.symm.trans hcall
        exact ⟨hstate, hstands.impatient himpatient, j, (h.ordered.holder j).2 hheld⟩

/-- An event that leaves its call refused has done nothing. -/
theorem refused_state (cut : Cut σ) (h : Serial name w l) {e : Loop.Event (Request σ)}
    (he : ∀ q, e = .call q → ∀ n, q.lock w = .ok n → n = name)
    (hr : (l.step (Request.opening cut) e).phase? (l.target e) = some .refused) :
    (l.step (Request.opening cut) e).state = l.state := by
  cases e with
  | call q => exact (h.refused_call cut (he q rfl) hr).1
  | go i =>
    change (l.go i).phase? i = some .refused at hr
    change (l.go i).state = l.state
    cases hc : l.calls[i]? with
    | none => rw [Loop.go, hc]
    | some c =>
      rw [h.go_eq hc] at hr ⊢
      exact (((l.turns name).step_moves i).of_refused hr).1

/-- While nobody is inside, the calls that got the lock are finished, and have done what they do
one after the other. -/
theorem quiet (h : Serial name w l) (hquiet : ∀ i, ¬ l.Inside i) :
    ∃ (requests : List (Request σ)) (results : List (Except Escape Report)),
      List.Forall₂ (fun i q => (l.calls[i]?).map (·.1) = some q) l.entered requests ∧
      List.Forall₂ (fun i result => l.phase? i = some (.finished result)) l.entered results ∧
      Turns.inOrder w (requests.map Request.whole) = (results, l.state) := by
  obtain ⟨runs, hruns, horder⟩ := h.ordered.quiet hquiet
  obtain ⟨requests, hrequests, hstands⟩ := exists_forall₂ hruns
    fun i run hi => h.request_of_task hi
  refine ⟨requests, runs.map (·.2), hrequests, ?_, ?_⟩
  · rw [List.forall₂_map_right_iff]
    refine hruns.imp fun i run hi => ?_
    change ((l.turns name).tasks[i]?).map (·.2) = _
    rw [hi]
    rfl
  · rw [← inOrder_stands hstands rfl]
    exact horder

end Serial

/-- **Passes on one project are serialised.** Calls of indexers of one root begin and go on in any
order, however their work is cut into steps.

* At most one call at a time has the lock.
* An event that leaves its call refused has changed nothing at all; such a call is a full pass that
  found someone inside.
* While nobody is inside, the workspace and the results are those of running the calls that got the
  lock one after the other, in the order in which they got it.
* A call that never asked for the lock has a path that cannot be told, and no report. -/
theorem passes_serialised (cut : Cut σ) {root : SourcePath} (w : Workspace σ)
    (events : List (Loop.Event (Request σ)))
    (hroot : ∀ q, .call q ∈ events → q.indexer.root = root) :
    let l := (Loop.start w).run (Request.opening cut) events
    (∀ i j, l.Inside i → l.Inside j → i = j) ∧
    (∀ e, (∀ q, e = .call q → q.indexer.root = root) →
      (l.step (Request.opening cut) e).phase? (l.target e) = some .refused →
      (l.step (Request.opening cut) e).state = l.state ∧
        ∀ q, e = .call q → q.job = .full ∧ ∃ j, l.Inside j) ∧
    (l.entered.Nodup ∧ ∀ i, i ∈ l.entered ↔
      l.Inside i ∨ ∃ result, l.phase? i = some (.finished result)) ∧
    ((∀ i, ¬ l.Inside i) →
      ∃ (requests : List (Request σ)) (results : List (Except Escape Report)),
        List.Forall₂ (fun i q => (l.calls[i]?).map (·.1) = some q) l.entered requests ∧
        List.Forall₂ (fun i result => l.phase? i = some (.finished result)) l.entered results ∧
        Turns.inOrder w (requests.map Request.whole) = (results, l.state)) ∧
    ∀ c ∈ l.ended, ∃ e, c.2 = .error e ∧ c.1.Unplaced w e := by
  intro l
  -- all calls ask for the lock of one name, since they see one disk
  obtain ⟨name, hname⟩ : ∃ name, ∀ q : Request σ, q.indexer.root = root →
      ∀ n, q.lock w = .ok n → n = name := by
    cases hlock : (withoutLinks w.disk root).map (·.text) with
    | error e =>
      refine ⟨"", fun q hq n hn => ?_⟩
      rw [Request.lock, hq, hlock] at hn
      cases hn
    | ok name =>
      refine ⟨name, fun q hq n hn => ?_⟩
      rw [Request.lock, hq, hlock] at hn
      exact (Except.ok.inj hn).symm
  have h : Serial name w l :=
    (serial_start name w).run cut events fun q hq => hname q (hroot q hq)
  refine ⟨fun i j hi hj => h.ordered.inside_unique hi hj, fun e he hr => ?_,
    ⟨h.ordered.nodup, h.ordered.entered_iff⟩, h.quiet, h.ended⟩
  refine ⟨h.refused_state cut (fun q hq => hname q (he q hq)) hr, ?_⟩
  rintro q rfl
  exact (h.refused_call cut (hname q (he q rfl)) hr).2

namespace Sample

/-- A full pass over the project `a` begins and goes on for two steps; meanwhile the file is to be
indexed again, which waits, and a second full pass begins, which is refused. -/
def contention : List (Loop.Event (Request Unit)) :=
  let full := .call ⟨indexer "a", .full⟩
  let file := .call ⟨indexer "a", .file (path "m.py")⟩
  [full, .go 0, .go 0, file, .go 1, full] ++ List.replicate 8 (.go 0) ++ List.replicate 8 (.go 1)

/-- The loop on which this happens, with an empty store. -/
def contended : Loop (Request Unit) (Workspace Unit) (Except Escape Report) :=
  (Loop.start (workspace (.fresh (.text "code")))).run (Request.opening .asWritten) contention

def isInside : Turn.Phase (Workspace Unit) (Except Escape Report) → Bool
  | .inside _ => true
  | _ => false

def isRefused : Turn.Phase (Workspace Unit) (Except Escape Report) → Bool
  | .refused => true
  | _ => false

end Sample

/-- The two calls that got the lock have done what they do one after the other. -/
theorem contended_serialised :
    Sample.contended.entered = [0, 1] ∧
      (Sample.contended.phase? 2).map Sample.isRefused = some true ∧
      ∃ (requests : List (Request Unit)) (results : List (Except Escape Report)),
        List.Forall₂ (fun i q => (Sample.contended.calls[i]?).map (·.1) = some q) [0, 1] requests ∧
        List.Forall₂ (fun i result => Sample.contended.phase? i = some (.finished result)) [0, 1]
          results ∧
        Turns.inOrder (Sample.workspace (.fresh (.text "code"))) (requests.map Request.whole) =
          (results, Sample.contended.state) := by
  have hroot : ∀ q, .call q ∈ Sample.contention → q.indexer.root = (Sample.indexer "a").root := by
    intro q hq
    simp [Sample.contention] at hq
    rcases hq with rfl | rfl | rfl <;> rfl
  obtain ⟨hentered, hrefused, houtside⟩ : Sample.contended.entered = [0, 1] ∧
      (Sample.contended.phase? 2).map Sample.isRefused = some true ∧
      ∀ task ∈ Sample.contended.tasks, Sample.isInside task.2 = false := by decide +kernel
  refine ⟨hentered, hrefused, hentered ▸ ?_⟩
  obtain ⟨-, -, -, hquiet, -⟩ := passes_serialised .asWritten
    (Sample.workspace (.fresh (.text "code"))) Sample.contention hroot
  refine hquiet ?_
  rintro i ⟨turn, rest, hi⟩
  cases houtside _ (List.mem_of_getElem? hi)

end Pass

end CodeAtlas
