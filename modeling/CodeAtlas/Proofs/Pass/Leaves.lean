import CodeAtlas.Proofs.Pass.Effect
import CodeAtlas.Proofs.Task.Turns

/-!
# What passes leave alone

A pass works on the embedder and the client, and a full pass tells of its progress. What is read off
the rest of the workspace stays as it is, also between two awaits (`Leaves`): the disk through every
pass, and the progress through a pass over one file.
-/

namespace CodeAtlas.Pass

variable {σ α β γ : Type}

/-- What depends neither on the embedder nor on the client. -/
structure Aside (f : Workspace σ → γ) : Prop where
  embedding : ∀ w s, f { w with embedding := s } = f w
  client : ∀ w c, f { w with client := c } = f w

theorem aside_disk : Aside (Workspace.disk : Workspace σ → Disk) :=
  ⟨fun _ _ => rfl, fun _ _ => rfl⟩

theorem aside_events : Aside (Workspace.events : Workspace σ → List Progress) :=
  ⟨fun _ _ => rfl, fun _ _ => rfl⟩

/-- No step of this work changes what `f` reads off the workspace. -/
def Leaves (f : Workspace σ → γ) (m : PassM σ α) : Prop := ∀ r, (m.run.run r).Preserves f

section

variable {f : Workspace σ → γ}

theorem leaves_pure (a : α) : Leaves f (pure a) := fun _ => .done _

theorem leaves_lift (answer : Except PassFailure α) :
    Leaves f (ExceptT.mk (pure answer) : PassM σ α) := fun _ => .done _

theorem leaves_note (g : Report → Report) : Leaves f (note g) := fun _ => .done _

theorem leaves_report : Leaves f (getThe Report) := fun _ => .done _

theorem leaves_step {await : Await} {m : StateM (Workspace σ) (Except PassFailure α)}
    (h : ∀ w, f (m.run w).run.2 = f w) : Leaves f (step await m) :=
  fun _ => .step h fun _ => .done _

/-- A step that only reads. -/
theorem leaves_reading {await : Await} (answer : Workspace σ → Except PassFailure α) :
    Leaves f (step await fun w => (answer w, w)) := leaves_step fun _ => rfl

theorem leaves_bind {m : PassM σ α} {g : α → PassM σ β} (hm : Leaves f m)
    (hg : ∀ a, Leaves f (g a)) : Leaves f (m >>= g) := by
  intro r
  rw [ExceptT.run_bind, StateT.run_bind]
  refine (hm r).bind ?_
  rintro ⟨answer, r'⟩
  cases answer with
  | ok a => exact hg a r'
  | error e => exact .done _

theorem leaves_mapM {g : α → PassM σ β} (hg : ∀ a, Leaves f (g a)) (as : List α) :
    Leaves f (as.mapM g) := by
  induction as with
  | nil => exact leaves_pure _
  | cons a as ih =>
    rw [List.mapM_cons]
    exact leaves_bind (hg a) fun _ => leaves_bind ih fun _ => leaves_pure _

/-- Work that leaves `f` alone leaves it as it was. -/
theorem Leaves.exec_eq {m : PassM σ α} (hm : Leaves f m) {r r' : Report} {w w' : Workspace σ}
    {answer : Except PassFailure α} (h : exec m r w = ((answer, r'), w')) : f w' = f w := by
  have := (hm r).run w
  unfold exec at h
  rwa [h] at this

theorem preserves_outcome {first : Report} {onError : StateM (Workspace σ) Unit} {m : PassM σ Unit}
    (hm : Leaves f m) (he : ∀ w, f (onError.run w).run.2 = f w) :
    (outcome first onError m).Preserves f := by
  unfold outcome
  refine (hm first).bind ?_
  rintro ⟨answer, r⟩
  cases answer with
  | ok _ => exact .done _
  | error failure =>
    cases failure with
    | escaped e => exact .done _
    | reported e => exact (Steps.preserves_wait he).bind fun _ => .done _

end

/-! ## Embedder and index -/

section

variable {f : Workspace σ → γ} (hf : Aside f) (ix : Indexer σ)

include hf

theorem leaves_callIndex (name : Text) (m : IndexM α) : Leaves f (callIndex name m) :=
  leaves_step fun _ => hf.client _ _

theorem leaves_embedFiles (files : List (List CodeUnit)) : Leaves f (embedFiles ix files) :=
  leaves_bind (leaves_mapM (fun _ => leaves_step fun _ => hf.embedding _ _) files) fun _ =>
    leaves_pure _

theorem leaves_upsert (items : List IndexItem) : Leaves f (upsert ix items) := by
  unfold upsert
  split
  · exact leaves_pure _
  · exact leaves_callIndex hf _ _

theorem leaves_keys (file project : Option Text) : Leaves f (keys ix file project) :=
  leaves_callIndex hf _ _

theorem leaves_delete (keys : List Value) : Leaves f (delete ix keys) := by
  unfold delete
  split
  · exact leaves_lift _
  · dsimp only
    split
    · exact leaves_bind (leaves_callIndex hf _ _) fun _ => leaves_pure _
    · exact leaves_pure _

theorem leaves_pruneFile (file : Text) (items : List IndexItem) :
    Leaves f (pruneFile ix file items) :=
  leaves_bind (leaves_keys hf ix _ _) fun _ =>
    leaves_bind (leaves_delete hf ix _) fun _ => leaves_note _

theorem leaves_pruneProject (items : List IndexItem) : Leaves f (pruneProject ix items) :=
  leaves_bind (leaves_keys hf ix _ _) fun _ => leaves_bind leaves_report fun _ =>
    leaves_bind (leaves_lift _) fun _ => leaves_bind (leaves_delete hf ix _) fun _ => leaves_note _

/-! ## Passes over one file -/

theorem leaves_store (file : Text) (units : List CodeUnit) : Leaves f (store ix file units) := by
  refine leaves_bind (leaves_embedFiles hf ix _) fun items => ?_
  refine leaves_bind (leaves_upsert hf ix _) fun _ => ?_
  refine leaves_bind (leaves_note _) fun _ => ?_
  split
  · exact leaves_pruneFile hf ix _ _
  · exact leaves_pure _

theorem leaves_fileSteps (path : SourcePath) : Leaves f (fileSteps ix path) := by
  refine leaves_bind (leaves_reading _) fun file => ?_
  refine leaves_bind (leaves_reading _) fun source => ?_
  split
  · refine leaves_bind (leaves_note _) fun _ => ?_
    refine leaves_bind (leaves_reading _) fun found => ?_
    split
    · exact leaves_note _
    · exact leaves_store hf ix _ _
  · exact leaves_note _

theorem leaves_removeSteps (path : SourcePath) : Leaves f (removeSteps ix path) :=
  leaves_bind (leaves_reading _) fun _ => leaves_bind (leaves_keys hf ix _ _) fun _ =>
    leaves_bind (leaves_delete hf ix _) fun _ => leaves_note _

/-- A pass over one file works on the embedder and the client only. -/
theorem preserves_single {job : Job} (hj : job ≠ .full) : (job.pass ix).Preserves f := by
  cases job with
  | full => exact absurd rfl hj
  | file path => exact preserves_outcome (leaves_fileSteps hf ix path) fun _ => rfl
  | remove path => exact preserves_outcome (leaves_removeSteps hf ix path) fun _ => rfl

end

/-! ## The disk -/

theorem leaves_extractNext (ix : Indexer σ) (done total : Nat) (path : SourcePath) :
    Leaves Workspace.disk (extractNext ix done total path) := by
  refine leaves_step fun w => ?_
  cases h : ix.relative w.disk path with
  | error e => simp [h]
  | ok file => simp [h, tell]

theorem leaves_extractAll (ix : Indexer σ) (done total : Nat) (paths : List SourcePath) :
    Leaves Workspace.disk (extractAll ix done total paths) := by
  induction paths generalizing done with
  | nil => exact leaves_pure _
  | cons path rest ih =>
    refine leaves_bind (leaves_extractNext ix done total path) fun found => ?_
    split
    · exact leaves_bind (leaves_note _) fun _ => ih _
    · exact leaves_bind (leaves_note _) fun _ => leaves_bind (ih _) fun _ => leaves_pure _

theorem leaves_fullSteps (ix : Indexer σ) : Leaves Workspace.disk (fullSteps ix) := by
  refine leaves_bind (leaves_reading _) fun files => ?_
  refine leaves_bind (leaves_note _) fun _ => ?_
  refine leaves_bind (leaves_extractAll _ _ _ _) fun found => ?_
  refine leaves_bind (leaves_embedFiles aside_disk ix _) fun items => ?_
  refine leaves_bind (leaves_upsert aside_disk ix _) fun _ => ?_
  refine leaves_bind (leaves_note _) fun _ => ?_
  dsimp only
  split
  · exact leaves_bind (leaves_pruneProject aside_disk ix _) fun _ => leaves_step fun _ => rfl
  · exact leaves_step fun _ => rfl

/-- No pass changes the disk, not even between two awaits. -/
theorem preserves_disk (ix : Indexer σ) (job : Job) :
    (job.pass ix).Preserves Workspace.disk := by
  cases job with
  | full => exact preserves_outcome (leaves_fullSteps ix) fun _ => rfl
  | file path => exact preserves_single aside_disk ix nofun
  | remove path => exact preserves_single aside_disk ix nofun

end CodeAtlas.Pass
