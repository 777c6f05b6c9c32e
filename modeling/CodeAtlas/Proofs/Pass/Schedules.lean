import CodeAtlas.Pass.Gather
import CodeAtlas.Proofs.Pass.Runs
import CodeAtlas.Proofs.Work

/-!
# Embedding in any order

The calls for the files of a pass may start and end in any order that the limit admits. The slots
then hold what the events say (`Kept`): the answer that a call has ended with, and no other. Nothing
can stand in the way of a call for good (`exists_step?`), so events come to an end, and then the
items are those of the files in their order:

    g.items? project now = some (inFileOrder project now files vectors)      (items?_of_answers)

A pass that embeds file after file gets the same items from the same answers
(`embedFiles_of_answers`). For the limit that a configuration sets, this is
`gathered_in_file_order`.
-/

namespace CodeAtlas

/-- Changing one element counts it anew. -/
theorem countP_modify {α : Type} (p : α → Bool) (f : α → α) {as : List α} {i : Nat} {a : α}
    (h : as[i]? = some a) :
    (as.modify i f).countP p + (p a).toNat = as.countP p + (p (f a)).toNat := by
  induction as generalizing i with
  | nil => cases h
  | cons b as ih =>
    cases i with
    | zero =>
      cases h
      rw [List.modify_zero_cons, List.countP_cons, List.countP_cons]
      cases p a <;> cases p (f a) <;> simp
    | succ i =>
      rw [List.modify_succ_cons, List.countP_cons, List.countP_cons]
      have hrest := ih h
      omega

namespace Gather

variable {g g' : Gather} {e : Event} {past events : List Event} {files : List (List CodeUnit)}
  {units : List CodeUnit} {slot : Slot} {i : Nat} {answer : Except EmbedFailure (List Embedding)}

/-! ## Events -/

def Event.isStart : Event → Bool
  | .start _ => true
  | .finish .. => false

def Event.isFinish : Event → Bool
  | .start _ => false
  | .finish .. => true

/-- How many calls have started. -/
def started (events : List Event) : Nat := events.countP Event.isStart

/-- How many calls have ended. -/
def ended (events : List Event) : Nat := events.countP Event.isFinish

theorem started_concat (past : List Event) (e : Event) :
    started (past ++ [e]) = started past + e.isStart.toNat := by
  rw [started, List.countP_append, List.countP_singleton]
  cases e <;> rfl

theorem ended_concat (past : List Event) (e : Event) :
    ended (past ++ [e]) = ended past + e.isFinish.toNat := by
  rw [ended, List.countP_append, List.countP_singleton]
  cases e <;> rfl

theorem length_eq_started_add_ended (events : List Event) :
    events.length = started events + ended events := by
  induction events with
  | nil => rfl
  | cons e events ih =>
    unfold started ended at ih ⊢
    rw [List.length_cons, List.countP_cons, List.countP_cons]
    cases e <;> simp [Event.isStart, Event.isFinish] <;> omega

/-- At no time are more than `limit` calls under way. -/
def Within (limit : Int) (events : List Event) : Prop :=
  ∀ before, before <+: events → (started before : Int) ≤ ended before + limit

/-- What an event can do. -/
inductive Happens (g : Gather) : Event → Gather → Prop
  | start {i : Nat} {units : List CodeUnit} (h : g.slots[i]? = some (units, .waiting))
    (hroom : g.inFlight < g.limit) : Happens g (.start i) (g.setSlot i .underWay)
  | finish {i : Nat} {units : List CodeUnit} (h : g.slots[i]? = some (units, .underWay))
    (answer : Except EmbedFailure (List Embedding)) :
    Happens g (.finish i answer) (g.setSlot i (.answered answer))

theorem step?_eq_some_iff : g.step? e = some g' ↔ Happens g e g' := by
  constructor
  · intro h
    cases e with
    | start i =>
      unfold step? at h
      dsimp only at h
      split at h
      · next hslot =>
        split at h
        · next hroom =>
          cases h
          exact .start hslot hroom
        · cases h
      · cases h
    | finish i answer =>
      unfold step? at h
      dsimp only at h
      split at h
      · next hslot =>
        cases h
        exact .finish hslot answer
      · cases h
  · rintro (⟨hslot, hroom⟩ | ⟨hslot, answer⟩)
    · simp only [step?, hslot, if_pos hroom]
    · simp only [step?, hslot]

theorem run?_cons (g : Gather) (e : Event) (events : List Event) :
    g.run? (e :: events) = (g.step? e).bind (·.run? events) := rfl

theorem exists_run?_of_prefix {before : List Event} (h : g.run? events = some g')
    (hle : before <+: events) : ∃ g₁, g.run? before = some g₁ := by
  induction before generalizing g events with
  | nil => exact ⟨g, rfl⟩
  | cons e before ih =>
    obtain ⟨rest, rfl⟩ := hle
    rw [List.cons_append, run?_cons] at h
    obtain ⟨g₁, hstep, hrest⟩ := Option.bind_eq_some_iff.1 h
    obtain ⟨g₂, hbefore⟩ := ih hrest (List.prefix_append ..)
    exact ⟨g₂, by rw [run?_cons, hstep]; exact hbefore⟩

/-! ## Slots -/

@[simp] theorem limit_setSlot (g : Gather) (i : Nat) (slot : Slot) :
    (g.setSlot i slot).limit = g.limit := rfl

theorem files_setSlot (g : Gather) (i : Nat) (slot : Slot) :
    (g.setSlot i slot).slots.map (·.1) = g.slots.map (·.1) := by
  refine List.ext_getElem? fun j => ?_
  simp only [setSlot, List.getElem?_map, List.getElem?_modify]
  cases g.slots[j]? <;> simp [apply_ite]

theorem getElem?_setSlot_self (h : g.slots[i]? = some (units, slot)) (new : Slot) :
    (g.setSlot i new).slots[i]? = some (units, new) := by
  simp [setSlot, h]

theorem getElem?_setSlot_ne (g : Gather) {i j : Nat} (h : j ≠ i) (new : Slot) :
    (g.setSlot i new).slots[j]? = g.slots[j]? := by
  simp [setSlot, h.symm]

theorem inFlight_setSlot (h : g.slots[i]? = some (units, slot)) (new : Slot) :
    (g.setSlot i new).inFlight + (isUnderWay slot).toNat = g.inFlight + (isUnderWay new).toNat :=
  countP_modify (fun s : List CodeUnit × Slot => isUnderWay s.2) (fun s => (s.1, new)) h

def isWaiting : Slot → Bool
  | .waiting => true
  | _ => false

/-- How many calls have not started. -/
def waiting (g : Gather) : Nat := g.slots.countP fun s => isWaiting s.2

theorem waiting_setSlot (h : g.slots[i]? = some (units, slot)) (new : Slot) :
    (g.setSlot i new).waiting + (isWaiting slot).toNat = g.waiting + (isWaiting new).toNat :=
  countP_modify (fun s : List CodeUnit × Slot => isWaiting s.2) (fun s => (s.1, new)) h

/-! ## What events keep -/

/-- The slots hold what the events say. -/
structure Kept (limit : Nat) (files : List (List CodeUnit)) (past : List Event) (g : Gather) :
    Prop where
  limit_eq : g.limit = limit
  files_eq : g.slots.map (·.1) = files
  answered_iff : ∀ i answer,
    .finish i answer ∈ past ↔ ∃ units, g.slots[i]? = some (units, .answered answer)
  begun : started past + g.waiting = files.length
  flight : started past = ended past + g.inFlight
  room : g.inFlight ≤ limit

variable {limit : Nat}

theorem kept_start (limit : Nat) (files : List (List CodeUnit)) :
    Kept limit files [] ⟨limit, files.map (·, .waiting)⟩ where
  limit_eq := rfl
  files_eq := by simp [Function.comp_def]
  answered_iff := by simp
  begun := by simp [started, waiting, isWaiting, List.countP_map, Function.comp_def]
  flight := by simp [started, ended, inFlight, isUnderWay, List.countP_map, Function.comp_def]
  room := by simp [inFlight, isUnderWay, List.countP_map, Function.comp_def]

/-- An event that changes a slot without an answer tells of the answer it puts there, if any. -/
theorem Kept.answered_setSlot (h : Kept limit files past g)
    (hslot : g.slots[i]? = some (units, slot)) (hopen : ∀ answer, slot ≠ .answered answer)
    {new : Slot} (he : ∀ j answer, .finish j answer = e ↔ j = i ∧ new = .answered answer) (j : Nat)
    (answer : Except EmbedFailure (List Embedding)) :
    .finish j answer ∈ past ++ [e] ↔
      ∃ units, (g.setSlot i new).slots[j]? = some (units, .answered answer) := by
  rw [List.mem_append, h.answered_iff, List.mem_singleton, he]
  by_cases hj : j = i
  · subst hj
    simp [hslot, hopen, getElem?_setSlot_self hslot]
  · simp [getElem?_setSlot_ne g hj, hj]

theorem Kept.happens (h : Kept limit files past g) (hstep : Happens g e g') :
    Kept limit files (past ++ [e]) g' := by
  have hbegun := h.begun
  have hflight := h.flight
  have hroom := h.room
  have hstarted := started_concat past e
  have hended := ended_concat past e
  cases hstep with
  | start hslot hfree =>
    have hwaiting' := waiting_setSlot hslot .underWay
    have hflight' := inFlight_setSlot hslot .underWay
    simp only [isWaiting, isUnderWay, Event.isStart, Event.isFinish, Bool.toNat_true,
      Bool.toNat_false] at hwaiting' hflight' hstarted hended
    rw [h.limit_eq] at hfree
    exact ⟨h.limit_eq, (files_setSlot ..).trans h.files_eq,
      h.answered_setSlot hslot nofun (by simp), by omega, by omega, by omega⟩
  | finish hslot answer =>
    have hwaiting' := waiting_setSlot hslot (.answered answer)
    have hflight' := inFlight_setSlot hslot (.answered answer)
    simp only [isWaiting, isUnderWay, Event.isStart, Event.isFinish, Bool.toNat_true,
      Bool.toNat_false] at hwaiting' hflight' hstarted hended
    exact ⟨h.limit_eq, (files_setSlot ..).trans h.files_eq,
      h.answered_setSlot hslot nofun (by simp [eq_comm]), by omega, by omega, by omega⟩

theorem Kept.run (h : Kept limit files past g) (hrun : g.run? events = some g') :
    Kept limit files (past ++ events) g' := by
  induction events generalizing past g with
  | nil =>
    cases hrun
    rwa [List.append_nil]
  | cons e events ih =>
    rw [run?_cons] at hrun
    obtain ⟨g₁, hstep, hrest⟩ := Option.bind_eq_some_iff.1 hrun
    rw [List.append_cons]
    exact ih (h.happens (step?_eq_some_iff.1 hstep)) hrest

theorem kept_of_run {σ : Type} {ix : Indexer σ} (hrun : (ofFiles ix files).run? events = some g) :
    Kept ix.maxConcurrency files events g :=
  (kept_start ix.maxConcurrency files).run hrun

/-- As long as a call has not ended, something can happen. -/
theorem exists_step? (hlimit : 0 < g.limit) (hslot : g.slots[i]? = some (units, slot))
    (hopen : ∀ answer, slot ≠ .answered answer) : ∃ e, g.step? e ≠ none := by
  by_cases hroom : g.inFlight < g.limit
  · cases slot with
    | waiting => exact ⟨.start i, by simp [step?, hslot, hroom]⟩
    | underWay => exact ⟨.finish i (.ok []), by simp [step?, hslot]⟩
    | answered answer => exact absurd rfl (hopen answer)
  · -- no room, so that some call is under way and can end
    have hpos : 0 < g.inFlight := by omega
    obtain ⟨⟨units', slot'⟩, hmem, hway⟩ := List.countP_pos_iff.1 hpos
    obtain ⟨j, hj⟩ := List.mem_iff_getElem?.1 hmem
    cases slot' with
    | waiting | answered => cases hway
    | underWay => exact ⟨.finish j (.ok []), by simp [step?, hj]⟩

/-! ## Items -/

/-- The items of files in their order: each unit with its own vector. -/
def inFileOrder (project now : Text) (files : List (List CodeUnit))
    (vectors : List (List Embedding)) : List IndexItem :=
  (List.zipWith (List.zipWith fun u v => ⟨u.key, v, u.payload project now⟩) files vectors).flatten

/-- A vector for each unit of each file. -/
def OnePerUnit (files : List (List CodeUnit)) (vectors : List (List Embedding)) : Prop :=
  List.Forall₂ (fun units vs => vs.length = units.length) files vectors

/-- The calls have ended with these vectors, file by file. -/
def EndedWith (past : List Event) (vectors : List (List Embedding)) : Prop :=
  ∀ i answer, .finish i answer ∈ past ↔ (vectors.map .ok)[i]? = some answer

variable {vectors : List (List Embedding)} {project now : Text}

theorem itemsOfAnswer_of_length {vs : List Embedding} (h : vs.length = units.length) :
    Pass.itemsOfAnswer project now units (.ok vs) =
      .ok (List.zipWith (fun u v => ⟨u.key, v, u.payload project now⟩) units vs) := by
  unfold Pass.itemsOfAnswer Pass.itemsOf
  dsimp only
  rw [if_pos h, List.map_zip_eq_zipWith]
  rfl

/-- Once every call has ended, the slots hold the answers file by file. -/
theorem Kept.slots_eq (h : Kept limit files past g)
    {answers : List (Except EmbedFailure (List Embedding))}
    (hlength : answers.length = files.length)
    (hended : ∀ i answer, answers[i]? = some answer → .finish i answer ∈ past) :
    g.slots = (files.zip answers).map fun call => (call.1, .answered call.2) := by
  refine List.ext_getElem? fun i => ?_
  have hfile : (g.slots[i]?).map (·.1) = files[i]? := by rw [← h.files_eq, List.getElem?_map]
  rw [List.getElem?_map, List.zip, List.getElem?_zipWith]
  cases ha : answers[i]? with
  | none =>
    have hnone : files[i]? = none := by
      rw [List.getElem?_eq_none_iff] at ha ⊢
      rwa [← hlength]
    rw [hnone] at hfile ⊢
    exact Option.map_eq_none_iff.1 hfile
  | some answer =>
    obtain ⟨units, hslot⟩ := (h.answered_iff i answer).1 (hended i answer ha)
    rw [hslot] at hfile
    rw [← hfile, hslot]
    rfl

/-- The items of calls that have ended are those of their answers. -/
theorem mapM_itemsOfSlot? (calls : List (List CodeUnit × Except EmbedFailure (List Embedding))) :
    (calls.map fun call => (call.1, Slot.answered call.2)).mapM (itemsOfSlot? project now) =
      (calls.mapM fun call => Pass.itemsOfAnswer project now call.1 call.2).toOption := by
  induction calls with
  | nil => rfl
  | cons call calls ih =>
    rw [List.map_cons, List.mapM_cons, List.mapM_cons, ih, itemsOfSlot?]
    cases Pass.itemsOfAnswer project now call.1 call.2 with
    | error f => rfl
    | ok items =>
      cases calls.mapM fun call => Pass.itemsOfAnswer project now call.1 call.2 <;> rfl

/-- Once every call has ended, the items are those of the answers, unless one of them has none. -/
theorem Kept.items?_eq (h : Kept limit files past g)
    {answers : List (Except EmbedFailure (List Embedding))}
    (hlength : answers.length = files.length)
    (hended : ∀ i answer, answers[i]? = some answer → .finish i answer ∈ past) :
    g.items? project now = (((files.zip answers).mapM fun call =>
      Pass.itemsOfAnswer project now call.1 call.2).toOption).map List.flatten := by
  rw [items?, h.slots_eq hlength hended, mapM_itemsOfSlot?]

/-- Answers of a vector for each unit come to the items in the order of the files. -/
theorem mapM_itemsOfAnswer (h : OnePerUnit files vectors) :
    ((files.zip (vectors.map .ok)).mapM fun call => Pass.itemsOfAnswer project now call.1 call.2) =
      .ok (List.zipWith (List.zipWith fun u v => ⟨u.key, v, u.payload project now⟩)
        files vectors) := by
  induction h with
  | nil => rfl
  | cons hlength _ ih =>
    rw [List.map_cons, List.zip_cons_cons, List.mapM_cons, ih, itemsOfAnswer_of_length hlength]
    rfl

theorem Kept.items?_of_answers (h : Kept limit files past g) (hone : OnePerUnit files vectors)
    (hended : EndedWith past vectors) :
    g.items? project now = some (inFileOrder project now files vectors) := by
  have hlength : (vectors.map (Except.ok : _ → Except EmbedFailure _)).length = files.length := by
    rw [List.length_map, hone.length_eq]
  rw [h.items?_eq hlength fun i answer => (hended i answer).2, mapM_itemsOfAnswer hone]
  rfl

/-- When nothing can happen any more, every call has ended. -/
theorem Kept.exists_answer (h : Kept limit files past g) (hlimit : 0 < limit)
    (hstuck : ∀ e, g.step? e = none) (hi : i < files.length) :
    ∃ answer, .finish i answer ∈ past := by
  rw [← h.files_eq, List.length_map] at hi
  have hslot := List.getElem?_eq_getElem hi
  have hanswered : ∃ answer, g.slots[i].2 = .answered answer := by
    refine Classical.byContradiction fun hopen => ?_
    obtain ⟨e, he⟩ := exists_step? (h.limit_eq ▸ hlimit) hslot fun answer heq => hopen ⟨answer, heq⟩
    exact he (hstuck e)
  obtain ⟨answer, hanswer⟩ := hanswered
  exact ⟨answer, (h.answered_iff i answer).2 ⟨g.slots[i].1, by rw [hslot, ← hanswer]⟩⟩

/-- The vectors in a slot. -/
def vectorsIn : Slot → List Embedding
  | .answered (.ok vs) => vs
  | _ => []

/-- Every call that has ended has given a vector for each unit of its file. -/
def AllWell (files : List (List CodeUnit)) (past : List Event) : Prop :=
  ∀ i answer, .finish i answer ∈ past →
    ∃ units vs, files[i]? = some units ∧ answer = .ok vs ∧ vs.length = units.length

/-- If all calls have ended, and all of them well, each file has its vectors. -/
theorem Kept.exists_vectors (h : Kept limit files past g)
    (hended : ∀ i, i < files.length → ∃ answer, .finish i answer ∈ past)
    (hwell : AllWell files past) :
    ∃ vectors, OnePerUnit files vectors ∧ EndedWith past vectors := by
  have hslots : ∀ i s, g.slots[i]? = some s →
      (vectorsIn s.2).length = s.1.length ∧ .finish i (.ok (vectorsIn s.2)) ∈ past := by
    rintro i ⟨units, slot⟩ hs
    have hunits : files[i]? = some units := by
      rw [← h.files_eq, List.getElem?_map, hs]
      rfl
    obtain ⟨answer, hmem⟩ := hended i (List.getElem?_eq_some_iff.1 hunits).1
    obtain ⟨units', hslot⟩ := (h.answered_iff i answer).1 hmem
    obtain ⟨units', vs, hunits', rfl, hlength⟩ := hwell i answer hmem
    cases hs.symm.trans hslot
    cases hunits.symm.trans hunits'
    exact ⟨hlength, hmem⟩
  refine ⟨g.slots.map fun s => vectorsIn s.2, ?_, fun i answer => ?_⟩
  · unfold OnePerUnit
    rw [← h.files_eq, List.forall₂_map_left_iff, List.forall₂_map_right_iff, List.forall₂_same]
    intro s hs
    obtain ⟨i, hi⟩ := List.mem_iff_getElem?.1 hs
    exact (hslots i s hi).1
  · rw [List.map_map, List.getElem?_map, Option.map_eq_some_iff]
    constructor
    · intro hmem
      obtain ⟨units, hslot⟩ := (h.answered_iff i answer).1 hmem
      obtain ⟨-, vs, -, rfl, -⟩ := hwell i answer hmem
      exact ⟨_, hslot, rfl⟩
    · rintro ⟨s, hs, rfl⟩
      exact (hslots i s hs).2

end Gather

namespace Embedder

variable {σ : Type}

/-- The answers to the units of file after file. -/
def answers (e : Embedder σ) :
    List (List CodeUnit) → σ → List (Except EmbedFailure (List Embedding))
  | [], _ => []
  | units :: rest, s => (e.ask units s).1 :: e.answers rest (e.ask units s).2

end Embedder

namespace Pass

open Gather (OnePerUnit inFileOrder)

/-- A pass that embeds file after file has the items of the answers, or the failure of the first file
that has none. -/
theorem exec_embedFiles_eq {σ : Type} (ix : Indexer σ) (files : List (List CodeUnit)) (r : Report)
    (w : Workspace σ) :
    (exec (embedFiles ix files) r w).1.1 = ((files.zip (ix.embedder.answers files w.embedding)).mapM
      fun call => itemsOfAnswer ix.project w.now call.1 call.2).map List.flatten := by
  induction files generalizing w with
  | nil => rfl
  | cons units files ih =>
    rw [Embedder.answers, List.zip_cons_cons, List.mapM_cons, embedFiles_cons, exec_bind,
      exec_embedFile]
    cases itemsOfAnswer ix.project w.now units (ix.embedder.ask units w.embedding).1 with
    | error f => rfl
    | ok items =>
      have hrest := ih { w with embedding := (ix.embedder.ask units w.embedding).2 }
      dsimp only at hrest ⊢
      rw [exec_bind]
      generalize exec (embedFiles ix files) r
        { w with embedding := (ix.embedder.ask units w.embedding).2 } = outcome at hrest ⊢
      obtain ⟨⟨answer, r'⟩, w'⟩ := outcome
      obtain rfl : answer = _ := hrest
      cases (files.zip (ix.embedder.answers files (ix.embedder.ask units w.embedding).2)).mapM
        fun call => itemsOfAnswer ix.project w.now call.1 call.2 <;> rfl

/-- A pass that gets a vector for each unit has the items of its files in their order. -/
theorem embedFiles_of_answers {σ : Type} {ix : Indexer σ} {files : List (List CodeUnit)}
    {vectors : List (List Embedding)} (hone : OnePerUnit files vectors) (r : Report)
    {w : Workspace σ} (h : ix.embedder.answers files w.embedding = vectors.map .ok) :
    (exec (embedFiles ix files) r w).1.1 = .ok (inFileOrder ix.project w.now files vectors) := by
  rw [exec_embedFiles_eq, h, Gather.mapM_itemsOfAnswer hone]
  rfl

end Pass

namespace Indexer

variable {σ : Type}

/-- How many calls of the embedder a configuration lets overlap. -/
def overlap (config : Value) : Except SettingError Int := do
  let part ← config.field "embedding" (.dict [])
  let limit ← part.field "max_concurrency" (.int 1)
  limit.integer

theorem of_ofConfig {root : SourcePath} {config : Value} {embedder : Embedder σ}
    {index : VectorIndex} {ix : Indexer σ} (h : ofConfig root config embedder index = .ok ix) :
    ix.embedder = embedder ∧ ∃ limit, overlap config = .ok limit ∧
      ix.maxConcurrency = concurrency embedder.reentrant limit := by
  unfold ofConfig at h
  obtain ⟨part, -, h⟩ := ok_of_bind h
  obtain ⟨scheme, -, h⟩ := ok_of_bind h
  obtain ⟨strict, -, h⟩ := ok_of_bind h
  obtain ⟨idScheme, -, h⟩ := ok_of_bind h
  obtain ⟨prune, -, h⟩ := ok_of_bind h
  obtain ⟨embedding, hembedding, h⟩ := ok_of_bind h
  obtain ⟨value, hvalue, h⟩ := ok_of_bind h
  obtain ⟨limit, hlimit, h⟩ := ok_of_bind h
  cases h
  refine ⟨rfl, limit, ?_, rfl⟩
  unfold overlap
  rw [hembedding]
  simp only [bind, Except.bind]
  rw [hvalue]
  exact hlimit

theorem maxConcurrency_of_ofConfig {root : SourcePath} {config : Value} {embedder : Embedder σ}
    {index : VectorIndex} {ix : Indexer σ} (h : ofConfig root config embedder index = .ok ix) :
    0 < ix.maxConcurrency ∧ (embedder.reentrant = false → ix.maxConcurrency = 1) ∧
      ∃ limit, overlap config = .ok limit ∧ (ix.maxConcurrency : Int) ≤ max 1 limit := by
  obtain ⟨-, limit, hlimit, hmax⟩ := of_ofConfig h
  rw [hmax]
  unfold concurrency
  cases embedder.reentrant with
  | true => exact ⟨by simp, nofun, limit, hlimit, by simp⟩
  | false => exact ⟨by simp, fun _ => by simp, limit, hlimit, by simp⟩

end Indexer

namespace Gather

variable {g : Gather} {events : List Event} {files : List (List CodeUnit)}

theorem within_of_run {σ : Type} {ix : Indexer σ} (hrun : (ofFiles ix files).run? events = some g) :
    Within ix.maxConcurrency events := by
  intro before hbefore
  obtain ⟨g₁, hrun₁⟩ := exists_run?_of_prefix hrun hbefore
  have hkept := kept_of_run hrun₁
  have hflight := hkept.flight
  have hroom := hkept.room
  omega

/-- **Embedding in any order.** The calls for the files of a pass start and end in any order. Then at
no time are more under way than the configuration lets overlap, and no two if the embedder is not
reentrant. No order goes on for ever, and none gets stuck before every call has ended. If all calls
end well, each unit gets its own vector of the call for its file, in the order of the files and of
their units; and so does a pass that embeds file after file. -/
theorem gathered_in_file_order {σ : Type} {root : SourcePath} {config : Value}
    {embedder : Embedder σ} {index : VectorIndex} {ix : Indexer σ}
    (hix : Indexer.ofConfig root config embedder index = .ok ix)
    (hrun : (ofFiles ix files).run? events = some g) :
    (∃ limit, Indexer.overlap config = .ok limit ∧ Within (max 1 limit) events) ∧
    (embedder.reentrant = false → Within 1 events) ∧
    events.length ≤ 2 * files.length ∧
    ((∀ e, g.step? e = none) → ∀ i, i < files.length → ∃ answer, .finish i answer ∈ events) ∧
    ((∀ i, i < files.length → ∃ answer, .finish i answer ∈ events) → AllWell files events →
      ∃ vectors, OnePerUnit files vectors ∧ EndedWith events vectors ∧
        ∀ now, g.items? ix.project now = some (inFileOrder ix.project now files vectors) ∧
          ∀ r w, w.now = now → embedder.answers files w.embedding = vectors.map .ok →
            (Pass.exec (Pass.embedFiles ix files) r w).1.1 =
              .ok (inFileOrder ix.project now files vectors)) := by
  have hkept := kept_of_run hrun
  have hwithin := within_of_run hrun
  obtain ⟨hembedder, -⟩ := Indexer.of_ofConfig hix
  obtain ⟨hpos, hsingle, limit, hlimit, hmax⟩ := Indexer.maxConcurrency_of_ofConfig hix
  refine ⟨⟨limit, hlimit, fun before hbefore => ?_⟩, fun hreentrant => ?_, ?_,
    fun hstuck i hi => hkept.exists_answer hpos hstuck hi, fun hended hwell => ?_⟩
  · have := hwithin before hbefore
    omega
  · rw [hsingle hreentrant] at hwithin
    exact hwithin
  · rw [length_eq_started_add_ended]
    have hbegun := hkept.begun
    have hflight := hkept.flight
    omega
  · obtain ⟨vectors, hone, hvectors⟩ := hkept.exists_vectors hended hwell
    refine ⟨vectors, hone, hvectors, fun now => ⟨hkept.items?_of_answers hone hvectors, ?_⟩⟩
    rintro r w rfl hanswers
    exact Pass.embedFiles_of_answers hone r (hembedder ▸ hanswers)

namespace Sample

def unit (filePath name : Text) (ordinal : Nat) : CodeUnit where
  id := name
  filePath := filePath
  filename := filePath
  language := "python"
  token := name
  symbolPath := name
  codeText := name
  ordinal := ordinal
  span := ⟨0, 0, 0, 0⟩

/-- Three files, the first of two units. -/
def threeFiles : List (List CodeUnit) :=
  [[unit "a.py" "f" 0, unit "a.py" "g" 1], [unit "b.py" "h" 0], [unit "c.py" "k" 0]]

def config : Value := .dict [("embedding", .dict [("max_concurrency", .int 2)])]

/-- An embedder whose calls may overlap. -/
def embedder : Embedder Unit :=
  ⟨true, fun texts => pure (.ok (texts.map fun text => [(text.length : Rat)]))⟩

def indexer : Except SettingError (Indexer Unit) :=
  Indexer.ofConfig ⟨.single, ["a"]⟩ config embedder ⟨.text "code", 64⟩

/-- The second file is done first and makes room for the third, and the first is done last. -/
def crossed : List Event :=
  [.start 0, .start 1, .finish 1 (.ok [[3]]), .start 2, .finish 2 (.ok [[4]]),
    .finish 0 (.ok [[1], [2]])]

end Sample

open Sample in
theorem crossed_in_file_order :
    ∃ ix g, indexer = .ok ix ∧ (ofFiles ix threeFiles).run? crossed = some g ∧ Within 2 crossed ∧
      g.items? ix.project "today" =
        some (inFileOrder ix.project "today" threeFiles [[[1], [2]], [[3]], [[4]]]) := by
  obtain ⟨ix, hix⟩ : ∃ ix, indexer = .ok ix := ⟨_, rfl⟩
  obtain ⟨g, hrun⟩ : ∃ g, (ofFiles ix threeFiles).run? crossed = some g := by
    cases hix
    exact ⟨_, rfl⟩
  obtain ⟨⟨limit, hlimit, hwithin⟩, -, -, -, hitems⟩ := gathered_in_file_order hix hrun
  cases hlimit
  have hended : ∀ i, i < threeFiles.length → ∃ answer, .finish i answer ∈ crossed := by
    intro i hi
    match i, hi with
    | 0, _ | 1, _ | 2, _ => simp [crossed]
  have hwell : AllWell threeFiles crossed := by
    intro i answer hmem
    simp only [crossed, List.mem_cons, List.not_mem_nil, reduceCtorEq, Event.finish.injEq,
      false_or, or_false] at hmem
    obtain ⟨rfl, rfl⟩ | ⟨rfl, rfl⟩ | ⟨rfl, rfl⟩ := hmem <;> exact ⟨_, _, rfl, rfl, rfl⟩
  obtain ⟨vectors, hone, hvectors, hread⟩ := hitems hended hwell
  obtain rfl : vectors = [[[1], [2]], [[3]], [[4]]] := by
    match vectors, hone with
    | [a, b, c], _ =>
      have ha := (hvectors 0 (.ok [[1], [2]])).1 (by simp [crossed])
      have hb := (hvectors 1 (.ok [[3]])).1 (by simp [crossed])
      have hc := (hvectors 2 (.ok [[4]])).1 (by simp [crossed])
      cases ha
      cases hb
      cases hc
      rfl
  exact ⟨ix, g, hix, hrun, hwithin, (hread "today").1⟩

end Gather

end CodeAtlas
