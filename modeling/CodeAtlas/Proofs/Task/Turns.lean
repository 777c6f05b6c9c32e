import CodeAtlas.Task.Turns
import Mathlib.Data.List.Forall2
import Mathlib.Data.List.Nodup

/-!
# Turns one after the other

Whatever the interleaving, calls that take turns do what they do one after the other in the order
in which they enter. The invariant is `Turns.Ordered`: the call that is inside is the holder, and if
it went on to its end now, the results of the calls that have entered and the state would be those
of `Turns.inOrder`.

    t.Ordered s → (t.step i).Ordered s                                        (Ordered.step)

`Turns.Moves` says once what a step can do.
-/

namespace CodeAtlas

variable {σ α : Type}

/-! ## What programs leave alone -/

namespace Steps

variable {β γ : Type}

/-- No step of a program changes what `f` reads off the state. -/
inductive Preserves (f : σ → γ) : Steps σ α → Prop
  | done (a : α) : Preserves f (.done a)
  | step {await : Await} {act : σ → Steps σ α × σ} (hstate : ∀ s, f (act s).2 = f s)
    (hrest : ∀ s, Preserves f (act s).1) : Preserves f (.step await act)

theorem Preserves.bind {f : σ → γ} {p : Steps σ α} {g : α → Steps σ β} (hp : p.Preserves f)
    (hg : ∀ a, (g a).Preserves f) : (p >>= g).Preserves f := by
  induction hp with
  | done a => exact hg a
  | step hstate _ ih =>
    refine .step (fun s => ?_) fun s => ?_
    · rw [bindNext_eq]
      exact hstate s
    · rw [bindNext_eq]
      exact ih s

theorem preserves_wait {f : σ → γ} {await : Await} {m : StateM σ α}
    (h : ∀ s, f (m.run s).run.2 = f s) : (wait await m).Preserves f :=
  .step h fun _ => .done _

theorem Preserves.run {f : σ → γ} {p : Steps σ α} (hp : p.Preserves f) (s : σ) :
    f (p.run s).2 = f s := by
  induction hp generalizing s with
  | done a => rfl
  | step hstate _ ih => rw [run_step, ih, hstate]

end Steps

/-! ## Promises -/

/-- The result that a call has, or would have if it went on to its end in state `s`. -/
def Turn.Phase.promise (s : σ) : Turn.Phase σ α → Option α
  | .inside rest => some (rest.run s).1
  | .finished a => some a
  | .ready | .queued | .refused => none

namespace Turns

def Inside (t : Turns σ α) (i : Nat) : Prop := ∃ call rest, t.tasks[i]? = some (call, .inside rest)

/-- A call that has entered, with its result. -/
def promised (t : Turns σ α) (i : Nat) : Option (Turn σ α × α) :=
  (t.tasks[i]?).bind fun task => (task.2.promise t.state).map (task.1, ·)

/-- The state after the call that is inside has gone on to its end. -/
def settled (t : Turns σ α) : σ :=
  match t.holder.bind t.phase? with
  | some (.inside rest) => (rest.run t.state).2
  | _ => t.state

/-! ## Steps -/

/-- What a step of call `i` can do. -/
inductive Moves (t : Turns σ α) (i : Nat) : Turns σ α → Prop
  /-- The call has ended, or it is not its turn. -/
  | stays : Moves t i t
  | refused {call : Turn σ α} {j : Nat} (h : t.tasks[i]? = some (call, .ready))
    (himpatient : call.impatient = true) (hheld : t.holder = some j) :
    Moves t i (t.setPhase i .refused)
  | queues {call : Turn σ α} (h : t.tasks[i]? = some (call, .ready)) :
    Moves t i { t.setPhase i .queued with queue := t.queue ++ [i] }
  | enters {call : Turn σ α} {p : Turn.Phase σ α} (queue : List Nat)
    (h : t.tasks[i]? = some (call, p)) (hp : p = .ready ∨ p = .queued) (hfree : t.holder = none) :
    Moves t i { t.enter i call with queue := queue }
  | acts {call : Turn σ α} {await : Await} {act : σ → Steps σ α × σ}
    (h : t.tasks[i]? = some (call, .inside (.step await act))) :
    Moves t i { t.setPhase i (.inside (act t.state).1) with state := (act t.state).2 }
  | leaves {call : Turn σ α} {a : α} (h : t.tasks[i]? = some (call, .inside (.done a))) :
    Moves t i { t.setPhase i (.finished a) with holder := none }

theorem moves_arrive {t : Turns σ α} {i : Nat} {call : Turn σ α}
    (h : t.tasks[i]? = some (call, .ready)) : t.Moves i (t.arrive i call) := by
  unfold arrive
  split
  · next hb =>
    rw [Bool.and_eq_true, Option.isSome_iff_exists] at hb
    obtain ⟨himpatient, j, hj⟩ := hb
    exact .refused h himpatient hj
  · split
    · next hb =>
      rw [Bool.and_eq_true, Option.isNone_iff_eq_none] at hb
      exact .enters t.queue h (Or.inl rfl) hb.1
    · exact .queues h

theorem step_moves (t : Turns σ α) (i : Nat) : t.Moves i (t.step i) := by
  unfold step
  split
  · exact .stays
  · next h => exact moves_arrive h
  · next h =>
    split
    · next hb =>
      rw [Bool.and_eq_true, Option.isNone_iff_eq_none] at hb
      exact .enters _ h (Or.inr rfl) hb.1
    · exact .stays
  · next h => exact .leaves h
  · next h => exact .acts h
  · exact .stays
  · exact .stays

theorem getElem?_setPhase_self {t : Turns σ α} {i : Nat} {call : Turn σ α} {p : Turn.Phase σ α}
    (h : t.tasks[i]? = some (call, p)) (q : Turn.Phase σ α) :
    (t.setPhase i q).tasks[i]? = some (call, q) := by
  simp [setPhase, h]

theorem getElem?_setPhase_ne (t : Turns σ α) {i j : Nat} (h : j ≠ i) (q : Turn.Phase σ α) :
    (t.setPhase i q).tasks[j]? = t.tasks[j]? := by
  simp [setPhase, h.symm]

theorem turns_setPhase (t : Turns σ α) (i : Nat) (q : Turn.Phase σ α) :
    (t.setPhase i q).tasks.map (·.1) = t.tasks.map (·.1) := by
  refine List.ext_getElem? fun j => ?_
  rw [List.getElem?_map, List.getElem?_map]
  by_cases h : j = i
  · subst h
    cases hj : t.tasks[j]? with
    | none => simp [setPhase, hj]
    | some task => rw [getElem?_setPhase_self hj]; rfl
  · rw [t.getElem?_setPhase_ne h]

/-- A step leaves the calls what they are. -/
theorem Moves.turns {t t' : Turns σ α} {i : Nat} (h : t.Moves i t') :
    t'.tasks.map (·.1) = t.tasks.map (·.1) := by
  cases h with
  | stays => rfl
  | refused | queues | enters | acts | leaves => exact t.turns_setPhase i _

/-- A call that a step leaves refused has not changed the state: it was refused before, or it is
impatient and someone is inside. -/
theorem Moves.of_refused {t t' : Turns σ α} {i : Nat} (h : t.Moves i t')
    (hr : t'.phase? i = some .refused) :
    t'.state = t.state ∧ (t' = t ∨ ∃ call j, t.tasks[i]? = some (call, .ready) ∧
      call.impatient = true ∧ t.holder = some j) := by
  have hset : ∀ {call p q}, t.tasks[i]? = some (call, p) → t'.tasks = (t.setPhase i q).tasks →
      q = .refused := by
    intro call p q htask htasks
    rw [phase?, htasks, getElem?_setPhase_self htask q] at hr
    exact Option.some.inj hr
  cases h with
  | stays => exact ⟨rfl, Or.inl rfl⟩
  | refused h himpatient hheld => exact ⟨rfl, Or.inr ⟨_, _, h, himpatient, hheld⟩⟩
  | queues h => cases hset h rfl
  | enters queue h => cases hset h rfl
  | acts h => cases hset h rfl
  | leaves h => cases hset h rfl

/-- No step that is still to come changes what `f` reads off the state. -/
def Keeps {γ : Type} (f : σ → γ) (t : Turns σ α) : Prop :=
  ∀ (i : Nat) (call : Turn σ α) (p : Turn.Phase σ α), t.tasks[i]? = some (call, p) →
    call.body.Preserves f ∧ ∀ rest, p = .inside rest → rest.Preserves f

theorem Keeps.change {γ : Type} {f : σ → γ} {t t' : Turns σ α} (ht : t.Keeps f) {i : Nat}
    {call : Turn σ α} {p q : Turn.Phase σ α} (h : t.tasks[i]? = some (call, p))
    (htasks : t'.tasks = (t.setPhase i q).tasks)
    (hq : ∀ rest, q = .inside rest → rest.Preserves f) : t'.Keeps f := by
  intro j c r hj
  rw [htasks] at hj
  by_cases hji : j = i
  · subst hji
    cases (getElem?_setPhase_self h q).symm.trans hj
    exact ⟨(ht j _ _ h).1, hq⟩
  · exact ht j c r ((t.getElem?_setPhase_ne hji q).symm.trans hj)

theorem Keeps.step {γ : Type} {f : σ → γ} {t t' : Turns σ α} {i : Nat} (ht : t.Keeps f)
    (h : t.Moves i t') : t'.Keeps f ∧ f t'.state = f t.state := by
  cases h with
  | stays => exact ⟨ht, rfl⟩
  | refused h => exact ⟨ht.change h rfl nofun, rfl⟩
  | queues h => exact ⟨ht.change h rfl nofun, rfl⟩
  | enters queue h =>
    refine ⟨ht.change h rfl ?_, rfl⟩
    rintro _ ⟨⟩
    exact (ht i _ _ h).1
  | acts h =>
    cases (ht i _ _ h).2 _ rfl with
    | step hstate hrest =>
      refine ⟨ht.change h rfl ?_, hstate _⟩
      rintro _ ⟨⟩
      exact hrest _
  | leaves h => exact ⟨ht.change h rfl nofun, rfl⟩

theorem Keeps.add {γ : Type} {f : σ → γ} {t : Turns σ α} (ht : t.Keeps f) {call : Turn σ α}
    (hc : call.body.Preserves f) : Keeps f { t with tasks := t.tasks ++ [(call, .ready)] } := by
  intro i c p hi
  rcases List.mem_append.1 (List.mem_of_getElem? hi) with hm | hm
  · obtain ⟨j, hj⟩ := List.getElem?_of_mem hm
    exact ht j c p hj
  · cases List.mem_singleton.1 hm
    exact ⟨hc, nofun⟩

/-! ## The invariant -/

/-- What holds of calls that began in state `s`: the one that is inside is the holder, and the
results of those that have entered are those of running them in order. -/
structure Ordered (s : σ) (t : Turns σ α) : Prop where
  holder : ∀ i, t.Inside i ↔ t.holder = some i
  entered : ∀ i, i ∈ t.entered ↔ (t.promised i).isSome = true
  nodup : t.entered.Nodup
  history : ∃ runs : List (Turn σ α × α), t.entered.map t.promised = runs.map some ∧
    inOrder s (runs.map (·.1)) = (runs.map (·.2), t.settled)

theorem promised_eq {t : Turns σ α} {i : Nat} {call : Turn σ α} {p : Turn.Phase σ α}
    (h : t.tasks[i]? = some (call, p)) : t.promised i = (p.promise t.state).map (call, ·) := by
  rw [promised, h]
  rfl

theorem settled_eq_state {t : Turns σ α} (h : t.holder = none) : t.settled = t.state := by
  rw [settled, h]
  rfl

theorem settled_eq {t : Turns σ α} {i : Nat} {call : Turn σ α} {rest : Steps σ α}
    (hh : t.holder = some i) (h : t.tasks[i]? = some (call, .inside rest)) :
    t.settled = (rest.run t.state).2 := by
  rw [settled, hh]
  simp [phase?, h]

theorem inOrder_append (s : σ) (calls : List (Turn σ α)) (call : Turn σ α) :
    inOrder s (calls ++ [call]) =
      ((inOrder s calls).1 ++ [(call.body.run (inOrder s calls).2).1],
        (call.body.run (inOrder s calls).2).2) := by
  induction calls generalizing s with
  | nil => rfl
  | cons c calls ih => simp [inOrder, ih]

theorem ordered_start (s : σ) : (⟨s, [], none, [], []⟩ : Turns σ α).Ordered s where
  holder := by simp [Inside]
  entered := by simp [promised]
  nodup := List.nodup_nil
  history := ⟨[], rfl, rfl⟩

namespace Ordered

variable {s : σ} {t t' : Turns σ α} {i : Nat} {call : Turn σ α} {p q : Turn.Phase σ α}

/-- A step that no call enters by: what is promised stays. -/
theorem of_kept (ht : t.Ordered s) (hinside : ∀ j, t'.Inside j ↔ t'.holder = some j)
    (hentered : t'.entered = t.entered) (hpromised : ∀ j, t'.promised j = t.promised j)
    (hsettled : t'.settled = t.settled) : t'.Ordered s where
  holder := hinside
  entered j := by rw [hentered, hpromised, ht.entered]
  nodup := hentered ▸ ht.nodup
  history := by
    obtain ⟨runs, hruns, horder⟩ := ht.history
    refine ⟨runs, ?_, hsettled ▸ horder⟩
    rw [hentered, ← hruns]
    exact List.map_congr_left fun j _ => hpromised j

/-- At most one call is inside. -/
theorem inside_unique (ht : t.Ordered s) {j : Nat} (hi : t.Inside i) (hj : t.Inside j) : i = j := by
  rw [ht.holder] at hi hj
  exact Option.some.inj (hi.symm.trans hj)

/-- If the state changes, it is by the call that is inside, and no other promise depends on it. -/
theorem promised_change (ht : t.Ordered s) (h : t.tasks[i]? = some (call, p))
    (htasks : t'.tasks = (t.setPhase i q).tasks) (hq : q.promise t'.state = p.promise t.state)
    (hstate : t'.state = t.state ∨ t.Inside i) (j : Nat) : t'.promised j = t.promised j := by
  by_cases hj : j = i
  · subst hj
    rw [promised_eq (htasks ▸ getElem?_setPhase_self h q), promised_eq h, hq]
  · have hsame : t'.tasks[j]? = t.tasks[j]? := htasks ▸ t.getElem?_setPhase_ne hj q
    unfold promised
    rw [hsame]
    rcases hstate with hstate | hi
    · rw [hstate]
    · cases hp : t.tasks[j]? with
      | none => rfl
      | some task =>
        obtain ⟨c, r⟩ := task
        cases r with
        | inside rest => exact absurd (ht.inside_unique ⟨c, rest, hp⟩ hi) hj
        | ready | queued | refused | finished => rfl

/-- A call that has not entered and is not let in. -/
theorem wait (ht : t.Ordered s) (h : t.tasks[i]? = some (call, p)) (hp : ∀ s, p.promise s = none)
    (hq : ∀ s, q.promise s = none) (htasks : t'.tasks = (t.setPhase i q).tasks)
    (hstate : t'.state = t.state) (hholder : t'.holder = t.holder)
    (hentered : t'.entered = t.entered) : t'.Ordered s := by
  have hout : ¬ t.Inside i := by
    rintro ⟨c, rest, hi⟩
    cases h.symm.trans hi
    cases hp t.state
  have hself : t'.tasks[i]? = some (call, q) := htasks ▸ getElem?_setPhase_self h q
  have hother : ∀ j, j ≠ i → t'.tasks[j]? = t.tasks[j]? := fun j hj =>
    htasks ▸ t.getElem?_setPhase_ne hj q
  refine ht.of_kept (fun j => ?_) hentered
    (ht.promised_change h htasks ((hq _).trans (hp _).symm) (Or.inl hstate)) ?_
  · rw [hholder, ← ht.holder]
    by_cases hj : j = i
    · subst hj
      refine iff_of_false ?_ hout
      rintro ⟨c, rest, hi⟩
      cases hself.symm.trans hi
      cases hq t.state
    · unfold Inside
      rw [hother j hj]
  · cases hh : t.holder with
    | none => rw [settled_eq_state hh, settled_eq_state (hholder.trans hh), hstate]
    | some k =>
      obtain ⟨c, rest, hk⟩ := (ht.holder k).2 hh
      have hki : k ≠ i := by
        rintro rfl
        exact hout ⟨c, rest, hk⟩
      rw [settled_eq hh hk, settled_eq (hholder.trans hh) ((hother k hki).trans hk), hstate]

/-- The call that is inside goes on. -/
theorem act (ht : t.Ordered s) {await : Await} {act : σ → Steps σ α × σ}
    (h : t.tasks[i]? = some (call, .inside (.step await act))) :
    Ordered s { t.setPhase i (.inside (act t.state).1) with state := (act t.state).2 } := by
  have hi : t.Inside i := ⟨call, _, h⟩
  have hh : t.holder = some i := (ht.holder i).1 hi
  have hself := getElem?_setPhase_self h (.inside (act t.state).1)
  refine ht.of_kept (fun j => ?_) rfl (ht.promised_change h rfl ?_ (Or.inr hi)) ?_
  · by_cases hj : j = i
    · subst hj
      exact iff_of_true ⟨call, _, hself⟩ hh
    · unfold Inside
      dsimp only
      rw [t.getElem?_setPhase_ne hj]
      exact ht.holder j
  · simp [Turn.Phase.promise]
  · rw [settled_eq hh h, Steps.run_step]
    exact settled_eq hh hself

/-- The call that is inside leaves. -/
theorem leave (ht : t.Ordered s) {a : α} (h : t.tasks[i]? = some (call, .inside (.done a))) :
    Ordered s { t.setPhase i (.finished a) with holder := none } := by
  have hi : t.Inside i := ⟨call, _, h⟩
  have hself := getElem?_setPhase_self h (.finished a)
  refine ht.of_kept (fun j => iff_of_false ?_ nofun) rfl
    (ht.promised_change h rfl rfl (Or.inr hi)) ?_
  · rintro ⟨c, rest, hj⟩
    by_cases hji : j = i
    · subst hji
      cases hself.symm.trans hj
    · exact hji (ht.inside_unique ⟨c, rest, (t.getElem?_setPhase_ne hji _).symm.trans hj⟩ hi)
  · rw [settled_eq ((ht.holder i).1 hi) h]
    exact settled_eq_state rfl

/-- A call is let in while nobody is inside: it will see the state that the calls before it have
left. -/
theorem enter (ht : t.Ordered s) (h : t.tasks[i]? = some (call, p)) (hp : ∀ s, p.promise s = none)
    (hfree : t.holder = none) (htasks : t'.tasks = (t.setPhase i (.inside call.body)).tasks)
    (hstate : t'.state = t.state) (hholder : t'.holder = some i)
    (hentered : t'.entered = t.entered ++ [i]) : t'.Ordered s := by
  have hself : t'.tasks[i]? = some (call, .inside call.body) :=
    htasks ▸ getElem?_setPhase_self h _
  have hother : ∀ j, j ≠ i → t'.tasks[j]? = t.tasks[j]? := fun j hj =>
    htasks ▸ t.getElem?_setPhase_ne hj _
  have hnew : i ∉ t.entered := by
    rw [ht.entered, promised_eq h, hp]
    nofun
  have hold : ∀ j, j ≠ i → t'.promised j = t.promised j := by
    intro j hj
    unfold promised
    rw [hother j hj, hstate]
  have hpromised : t'.promised i = some (call, (call.body.run t.state).1) := by
    rw [promised_eq hself, hstate]
    rfl
  refine ⟨fun j => ?_, fun j => ?_, ?_, ?_⟩
  · rw [hholder]
    by_cases hj : j = i
    · subst hj
      exact iff_of_true ⟨call, _, hself⟩ rfl
    · refine iff_of_false ?_ fun h => hj (Option.some.inj h).symm
      rintro ⟨c, rest, hin⟩
      have hholds := (ht.holder j).1 ⟨c, rest, (hother j hj).symm.trans hin⟩
      rw [hfree] at hholds
      cases hholds
  · rw [hentered, List.mem_append, List.mem_singleton]
    by_cases hj : j = i
    · subst hj
      rw [hpromised]
      exact iff_of_true (Or.inr rfl) rfl
    · rw [hold j hj, ← ht.entered]
      exact or_iff_left hj
  · rw [hentered]
    exact ht.nodup.append (List.nodup_singleton i) (by simpa using hnew)
  · obtain ⟨runs, hruns, horder⟩ := ht.history
    refine ⟨runs ++ [(call, (call.body.run t.state).1)], ?_, ?_⟩
    · rw [hentered, List.map_append, List.map_append, ← hruns, List.map_singleton,
        List.map_singleton, hpromised]
      congr 1
      exact List.map_congr_left fun j hj => hold j fun hji => hnew (hji ▸ hj)
    · rw [settled_eq_state hfree] at horder
      rw [settled_eq hholder hself, hstate, List.map_append, List.map_append, List.map_singleton,
        List.map_singleton, inOrder_append, horder]

theorem step (ht : t.Ordered s) (h : t.Moves i t') : t'.Ordered s := by
  cases h with
  | stays => exact ht
  | refused h => exact ht.wait h (fun _ => rfl) (fun _ => rfl) rfl rfl rfl rfl
  | queues h => exact ht.wait h (fun _ => rfl) (fun _ => rfl) rfl rfl rfl rfl
  | enters queue h hp hfree =>
    refine ht.enter h ?_ hfree rfl rfl rfl rfl
    rcases hp with rfl | rfl <;> exact fun _ => rfl
  | acts h => exact ht.act h
  | leaves h => exact ht.leave h

/-- One call more, which has not begun. -/
theorem add (ht : t.Ordered s) (call : Turn σ α) :
    Ordered s { t with tasks := t.tasks ++ [(call, .ready)] } := by
  have hlast : (t.tasks ++ [(call, Turn.Phase.ready)])[t.tasks.length]? = some (call, .ready) :=
    List.getElem?_concat_length
  have hbeyond : t.tasks[t.tasks.length]? = none := List.getElem?_eq_none (Nat.le_refl _)
  have hother : ∀ j, j ≠ t.tasks.length →
      (t.tasks ++ [(call, Turn.Phase.ready)])[j]? = t.tasks[j]? := by
    intro j hj
    rw [List.getElem?_append]
    split
    · rfl
    · rw [List.getElem?_eq_none (by simp; omega), List.getElem?_eq_none (by omega)]
  refine ht.of_kept (fun j => ?_) rfl (fun j => ?_) ?_
  · rw [← ht.holder]
    unfold Inside
    by_cases hj : j = t.tasks.length
    · subst hj
      simp
    · rw [hother j hj]
  · unfold promised
    by_cases hj : j = t.tasks.length
    · subst hj
      rw [hlast, hbeyond]
      rfl
    · rw [hother j hj]
  · cases hh : t.holder with
    | none =>
      rw [settled_eq_state hh]
      exact settled_eq_state rfl
    | some k =>
      obtain ⟨c, rest, hk⟩ := (ht.holder k).2 hh
      have hlength : k ≠ t.tasks.length := by
        rintro rfl
        rw [hbeyond] at hk
        cases hk
      rw [settled_eq hh hk]
      exact settled_eq rfl ((hother k hlength).trans hk)

theorem entered_iff (ht : t.Ordered s) (i : Nat) :
    i ∈ t.entered ↔ t.Inside i ∨ ∃ a, t.phase? i = some (.finished a) := by
  rw [ht.entered]
  unfold promised Inside phase?
  cases t.tasks[i]? with
  | none => simp
  | some task =>
    obtain ⟨call, p⟩ := task
    cases p <;> simp [Turn.Phase.promise]

/-- While nobody is inside, the calls that have entered are finished, with the results of running
them in order. -/
theorem quiet (ht : t.Ordered s) (h : ∀ i, ¬ t.Inside i) :
    ∃ runs : List (Turn σ α × α),
      List.Forall₂ (fun i run => t.tasks[i]? = some (run.1, .finished run.2)) t.entered runs ∧
      inOrder s (runs.map (·.1)) = (runs.map (·.2), t.state) := by
  have hfree : t.holder = none := by
    rw [Option.eq_none_iff_forall_ne_some]
    exact fun i hi => h i ((ht.holder i).2 hi)
  obtain ⟨runs, hruns, horder⟩ := ht.history
  rw [settled_eq_state hfree] at horder
  refine ⟨runs, ?_, horder⟩
  have hall : List.Forall₂ Eq (t.entered.map t.promised) (runs.map some) := by
    rw [hruns]
    exact List.forall₂_refl _
  rw [List.forall₂_map_left_iff, List.forall₂_map_right_iff] at hall
  refine hall.imp fun i run hi => ?_
  obtain ⟨⟨call, p⟩, htask, hp⟩ := Option.bind_eq_some_iff.1 hi
  obtain ⟨a, ha, rfl⟩ := Option.map_eq_some_iff.1 hp
  cases p with
  | inside rest => exact absurd ⟨call, rest, htask⟩ (h i)
  | finished b =>
    cases ha
    exact htask
  | ready | queued | refused => cases ha

end Ordered

end Turns

end CodeAtlas
