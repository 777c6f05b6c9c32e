import CodeAtlas.Proofs.Pass.Schedules

/-!
# Calls that end badly

A pass whose calls overlap fails as the first call does that ends badly, a pass that embeds file
after file as the first file does whose call ends badly (`FirstFailsAt`). With the same answers both
succeed, with the same items, or both fail, each with the failure of one of the files
(`outcome_as_in_turn`). They fail alike if only one call ends badly, but not always
(`overtaking_fails_otherwise`), and they are one and the same if each call ends before the next one
starts (`outcome?_inTurn`).
-/

namespace CodeAtlas

namespace Gather

open Pass (exec embedFiles itemsOfAnswer)

variable {σ : Type} {ix : Indexer σ} {files : List (List CodeUnit)} {events : List Event}
  {g : Gather} {w : Workspace σ} {f : PassFailure} {i : Nat} {project now : Text}

/-! ## Failures of calls -/

theorem failure?_finish_iff {answer : Except EmbedFailure (List Embedding)} :
    failure? project now files (.finish i answer) = some f ↔
      ∃ units, files[i]? = some units ∧ itemsOfAnswer project now units answer = .error f := by
  refine Option.bind_eq_some_iff.trans (exists_congr fun units => and_congr_right fun _ => ?_)
  cases itemsOfAnswer project now units answer <;> simp

/-- The calls end with the answers that the embedder gives file after file. -/
def AnsweredInTurn (e : Embedder σ) (files : List (List CodeUnit)) (s : σ) (events : List Event) :
    Prop :=
  ∀ i answer, .finish i answer ∈ events → (e.answers files s)[i]? = some answer

/-- The answer for a file, given file after file, has no items. -/
def FailsAt (ix : Indexer σ) (w : Workspace σ) (files : List (List CodeUnit)) (i : Nat)
    (f : PassFailure) : Prop :=
  ∃ units answer, files[i]? = some units ∧
    (ix.embedder.answers files w.embedding)[i]? = some answer ∧
    itemsOfAnswer ix.project w.now units answer = .error f

/-- The first file is at `i` whose answer has no items. -/
structure FirstFailsAt (ix : Indexer σ) (w : Workspace σ) (files : List (List CodeUnit)) (i : Nat)
    (f : PassFailure) : Prop where
  fails : FailsAt ix w files i f
  first : ∀ j f', FailsAt ix w files j f' → i ≤ j

theorem length_answers (e : Embedder σ) (files : List (List CodeUnit)) (s : σ) :
    (e.answers files s).length = files.length := by
  induction files generalizing s with
  | nil => rfl
  | cons units files ih => rw [Embedder.answers, List.length_cons, ih, List.length_cons]

theorem failsAt_iff : FailsAt ix w files i f ↔
    ∃ call, (files.zip (ix.embedder.answers files w.embedding))[i]? = some call ∧
      itemsOfAnswer ix.project w.now call.1 call.2 = .error f := by
  simp only [FailsAt, List.getElem?_zip_eq_some, Prod.exists, and_assoc]

theorem FailsAt.unique {f' : PassFailure} (h : FailsAt ix w files i f)
    (h' : FailsAt ix w files i f') : f = f' := by
  obtain ⟨call, hcall, hf⟩ := failsAt_iff.1 h
  obtain ⟨call', hcall', hf'⟩ := failsAt_iff.1 h'
  cases hcall.symm.trans hcall'
  exact Except.error.inj (hf.symm.trans hf')

/-- A pass that embeds file after file fails as the first file does whose answer has no items. -/
theorem firstFailsAt_of_embedFiles {r : Report}
    (h : (exec (embedFiles ix files) r w).1.1 = .error f) : ∃ i, FirstFailsAt ix w files i f := by
  rw [Pass.exec_embedFiles_eq] at h
  cases hcalls : (files.zip (ix.embedder.answers files w.embedding)).mapM
    fun call => itemsOfAnswer ix.project w.now call.1 call.2 with
  | ok lists =>
    rw [hcalls] at h
    cases h
  | error f' =>
    rw [hcalls] at h
    cases h
    obtain ⟨before, call, after, hsplit, hbefore, hcall⟩ := mapM_error_iff.1 hcalls
    refine ⟨before.length, failsAt_iff.2 ⟨call, by simp [hsplit], hcall⟩, fun j f' hj => ?_⟩
    obtain ⟨other, hother, hfails⟩ := failsAt_iff.1 hj
    by_contra hlt
    rw [hsplit, List.getElem?_append_left (by omega)] at hother
    obtain ⟨items, hitems⟩ := hbefore other (List.mem_of_getElem? hother)
    cases hitems.symm.trans hfails

/-- If some answer has no items, the pass that embeds file after file fails. -/
theorem FailsAt.embedFiles_ne (h : FailsAt ix w files i f) (r : Report) (items : List IndexItem) :
    (exec (embedFiles ix files) r w).1.1 ≠ .ok items := by
  intro hok
  rw [Pass.exec_embedFiles_eq] at hok
  obtain ⟨call, hcall, hfails⟩ := failsAt_iff.1 h
  cases hcalls : (files.zip (ix.embedder.answers files w.embedding)).mapM
    fun call => itemsOfAnswer ix.project w.now call.1 call.2 with
  | ok lists =>
    obtain ⟨items, -, hitems⟩ := (of_mapM_ok hcalls).1 call (List.mem_of_getElem? hcall)
    cases hitems.symm.trans hfails
  | error f' =>
    rw [hcalls] at hok
    cases hok

theorem FailsAt.exists_firstFailsAt (h : FailsAt ix w files i f) (r : Report) :
    ∃ j f', (exec (embedFiles ix files) r w).1.1 = .error f' ∧ FirstFailsAt ix w files j f' := by
  cases hx : (exec (embedFiles ix files) r w).1.1 with
  | ok items => exact absurd hx (h.embedFiles_ne r items)
  | error f' =>
    obtain ⟨j, hj⟩ := firstFailsAt_of_embedFiles hx
    exact ⟨j, f', rfl, hj⟩

/-! ## What the calls come to -/

/-- Once calls have ended with the answers given in turn, their items are those of the pass that
embeds file after file, and there are none if it fails. -/
theorem Kept.items?_in_turn {limit : Nat} {past : List Event} (h : Kept limit files past g)
    (hended : ∀ i, i < files.length → ∃ answer, .finish i answer ∈ past)
    (hanswers : AnsweredInTurn ix.embedder files w.embedding past) (r : Report) :
    g.items? ix.project w.now = (exec (embedFiles ix files) r w).1.1.toOption := by
  have hall : ∀ i answer, (ix.embedder.answers files w.embedding)[i]? = some answer →
      .finish i answer ∈ past := by
    intro i answer ha
    have hi := (List.getElem?_eq_some_iff.1 ha).1
    rw [length_answers] at hi
    obtain ⟨answer', hmem⟩ := hended i hi
    cases ha.symm.trans (hanswers i answer' hmem)
    exact hmem
  rw [h.items?_eq (length_answers ..) hall, Pass.exec_embedFiles_eq]
  cases (files.zip (ix.embedder.answers files w.embedding)).mapM
    fun call => itemsOfAnswer ix.project w.now call.1 call.2 <;> rfl

theorem outcome?_of_run (hrun : (ofFiles ix files).run? events = some g) :
    outcome? ix now files events =
      match events.findSome? (failure? ix.project now files) with
      | some f => some (.error f)
      | none => (g.items? ix.project now).map .ok := by
  unfold outcome?
  rw [hrun]
  simp only [bind, Option.bind_some]
  cases events.findSome? (failure? ix.project now files) with
  | some f => rfl
  | none => cases g.items? ix.project now <;> rfl

/-- Items are there only once every call has ended. -/
theorem Kept.ended_of_items? {limit : Nat} {past : List Event} (h : Kept limit files past g)
    {items : List IndexItem} (hitems : g.items? project now = some items) (hi : i < files.length) :
    ∃ answer, .finish i answer ∈ past := by
  rw [← h.files_eq, List.length_map] at hi
  obtain ⟨lists, hlists, -⟩ := Option.map_eq_some_iff.1 hitems
  obtain ⟨⟨units, slot⟩, hslot⟩ : ∃ s, g.slots[i]? = some s := ⟨_, List.getElem?_eq_getElem hi⟩
  have hone : itemsOfSlot? project now (units, slot) ≠ none := fun hnone =>
    Option.some_ne_none lists
      (hlists.symm.trans (mapM_none_iff.2 ⟨_, List.mem_of_getElem? hslot, hnone⟩))
  cases slot with
  | waiting => exact absurd rfl hone
  | underWay => exact absurd rfl hone
  | answered answer => exact ⟨answer, (h.answered_iff i answer).2 ⟨units, hslot⟩⟩

/-- The failure that counts is that of a file. -/
theorem AnsweredInTurn.failsAt (h : AnsweredInTurn ix.embedder files w.embedding events)
    (hf : events.findSome? (failure? ix.project w.now files) = some f) :
    ∃ i, FailsAt ix w files i f := by
  obtain ⟨e, he, hfails⟩ := List.exists_of_findSome?_eq_some hf
  cases e with
  | start i => cases hfails
  | finish i answer =>
    obtain ⟨units, hunits, hitems⟩ := failure?_finish_iff.1 hfails
    exact ⟨i, units, answer, hunits, h i answer he, hitems⟩

/-- Once the call for a file that fails has ended, some failure counts. -/
theorem FailsAt.findSome?_ne_none (hi : FailsAt ix w files i f)
    (h : AnsweredInTurn ix.embedder files w.embedding events)
    (hended : ∀ i, i < files.length → ∃ answer, .finish i answer ∈ events) :
    events.findSome? (failure? ix.project w.now files) ≠ none := by
  intro hnone
  obtain ⟨units, answer, hunits, hanswer, hitems⟩ := hi
  obtain ⟨answer', hmem⟩ := hended i (List.getElem?_eq_some_iff.1 hunits).1
  cases hanswer.symm.trans (h i answer' hmem)
  have hno := List.findSome?_eq_none_iff.1 hnone _ hmem
  rw [failure?_finish_iff.2 ⟨units, hunits, hitems⟩] at hno
  cases hno

/-- **Calls in any order come to what they come to in turn.** The calls for the files of a pass end
in any order, with the answers that the embedder gives file after file. Once all have ended, they
have come to something. They come to items only if the pass that embeds file after file has the
same ones. If they come to a failure it is that of a file, and that pass fails too, as the first
file does that fails: with the same failure if no other file fails. -/
theorem outcome_as_in_turn (hrun : (ofFiles ix files).run? events = some g)
    (hanswers : AnsweredInTurn ix.embedder files w.embedding events) (r : Report) :
    ((∀ i, i < files.length → ∃ answer, .finish i answer ∈ events) →
      ∃ x, outcome? ix w.now files events = some x) ∧
    (∀ items, outcome? ix w.now files events = some (.ok items) →
      (exec (embedFiles ix files) r w).1.1 = .ok items) ∧
    ∀ f, outcome? ix w.now files events = some (.error f) → ∃ i, FailsAt ix w files i f ∧
      (∃ j f', (exec (embedFiles ix files) r w).1.1 = .error f' ∧ FirstFailsAt ix w files j f') ∧
      ((∀ j f', FailsAt ix w files j f' → j = i) →
        (exec (embedFiles ix files) r w).1.1 = .error f) := by
  have hkept := kept_of_run hrun
  rw [outcome?_of_run hrun]
  cases hfirst : events.findSome? (failure? ix.project w.now files) with
  | some f =>
    refine ⟨fun _ => ⟨_, rfl⟩, nofun, fun f' hf => ?_⟩
    cases hf
    obtain ⟨i, hi⟩ := hanswers.failsAt hfirst
    obtain ⟨j, f', hexec, hj⟩ := hi.exists_firstFailsAt r
    refine ⟨i, hi, ⟨j, f', hexec, hj⟩, fun honly => ?_⟩
    obtain rfl := honly j f' hj.fails
    rw [hexec, hi.unique hj.fails]
  | none =>
    refine ⟨fun hended => ?_, fun items h => ?_, fun f h => ?_⟩
    · rw [hkept.items?_in_turn hended hanswers r]
      cases hexec : (exec (embedFiles ix files) r w).1.1 with
      | ok items => exact ⟨_, rfl⟩
      | error f =>
        obtain ⟨i, hi⟩ := firstFailsAt_of_embedFiles hexec
        exact absurd hfirst (hi.fails.findSome?_ne_none hanswers hended)
    · obtain ⟨items', hitems, heq⟩ := Option.map_eq_some_iff.1 h
      cases heq
      rw [hkept.items?_in_turn (fun i hi => hkept.ended_of_items? hitems hi) hanswers r] at hitems
      cases hexec : (exec (embedFiles ix files) r w).1.1 with
      | ok items' =>
        rw [hexec] at hitems
        cases hitems
        rfl
      | error f =>
        rw [hexec] at hitems
        cases hitems
    · obtain ⟨items, -, heq⟩ := Option.map_eq_some_iff.1 h
      cases heq

namespace Sample

/-- An embedder that gives no vectors. -/
def mute : Embedder Unit := ⟨true, fun _ => pure (.ok [])⟩

/-- The second file overtakes the first. -/
def overtaking : List Event := [.start 0, .start 1, .finish 1 (.ok []), .finish 0 (.ok [])]

end Sample

open Sample in
/-- If the calls for two files end badly, the failures can differ. -/
theorem overtaking_fails_otherwise (r : Report) (w : Workspace Unit) : ∃ ix f f',
    Indexer.ofConfig ⟨.single, ["a"]⟩ config mute ⟨.text "code", 64⟩ = .ok ix ∧
      AnsweredInTurn ix.embedder threeFiles w.embedding overtaking ∧
      outcome? ix w.now threeFiles overtaking = some (.error f) ∧
      (exec (embedFiles ix threeFiles) r w).1.1 = .error f' ∧ f ≠ f' := by
  refine ⟨_, _, _, rfl, fun i answer h => ?_, rfl, rfl, nofun⟩
  simp only [overtaking, List.mem_cons, reduceCtorEq, Event.finish.injEq, false_or,
    List.not_mem_nil, or_false] at h
  obtain ⟨rfl, rfl⟩ | ⟨rfl, rfl⟩ := h <;> rfl

/-! ## One call after the other -/

/-- Each call ends before the next one starts. -/
def inTurn (i : Nat) : List (Except EmbedFailure (List Embedding)) → List Event
  | [] => []
  | answer :: answers => .start i :: .finish i answer :: inTurn (i + 1) answers

theorem finish_mem_inTurn {k : Nat} {answers : List (Except EmbedFailure (List Embedding))}
    {answer : Except EmbedFailure (List Embedding)} : .finish i answer ∈ inTurn k answers ↔
      ∃ j, i = k + j ∧ answers[j]? = some answer := by
  induction answers generalizing k with
  | nil => simp [inTurn]
  | cons a answers ih =>
    simp only [inTurn, List.mem_cons, reduceCtorEq, false_or, Event.finish.injEq, ih]
    constructor
    · rintro (⟨rfl, rfl⟩ | ⟨j, rfl, hj⟩)
      · exact ⟨0, rfl, rfl⟩
      · exact ⟨j + 1, by omega, hj⟩
    · rintro ⟨_ | j, rfl, hj⟩
      · cases hj
        exact .inl ⟨rfl, rfl⟩
      · exact .inr ⟨j, by omega, hj⟩

theorem setSlot_append_cons (limit : Nat) (before after : List (List CodeUnit × Slot))
    (units : List CodeUnit) (slot new : Slot) :
    setSlot ⟨limit, before ++ (units, slot) :: after⟩ before.length new =
      ⟨limit, before ++ (units, new) :: after⟩ := by
  unfold setSlot
  congr 1
  induction before with
  | nil => rfl
  | cons s before ih => exact congrArg (s :: ·) ih

/-- While no call is under way, one that waits can start and end. -/
theorem run?_start_finish {limit : Nat} (hpos : 0 < limit)
    {before after : List (List CodeUnit × Slot)} {units : List CodeUnit}
    (hidle : inFlight ⟨limit, before ++ (units, .waiting) :: after⟩ = 0)
    (answer : Except EmbedFailure (List Embedding)) (events : List Event) :
    run? ⟨limit, before ++ (units, .waiting) :: after⟩
        (.start before.length :: .finish before.length answer :: events) =
      run? ⟨limit, before ++ (units, .answered answer) :: after⟩ events := by
  have hat : ∀ slot : Slot,
      (before ++ (units, slot) :: after)[before.length]? = some (units, slot) := fun slot => by simp
  have hstart := Happens.start (hat .waiting) (lt_of_eq_of_lt hidle hpos)
  rw [setSlot_append_cons] at hstart
  have hfinish := @Happens.finish ⟨limit, _⟩ _ _ (hat .underWay) answer
  rw [setSlot_append_cons] at hfinish
  rw [run?_cons, step?_eq_some_iff.2 hstart, Option.bind_some, run?_cons,
    step?_eq_some_iff.2 hfinish, Option.bind_some]

/-- Calls in turn can happen. -/
theorem exists_run?_inTurn {limit : Nat} (hpos : 0 < limit)
    {answers : List (Except EmbedFailure (List Embedding))}
    (hlength : answers.length = files.length)
    {done : List (List CodeUnit × Slot)} (hdone : ∀ s ∈ done, isUnderWay s.2 = false) :
    ∃ g, run? ⟨limit, done ++ files.map (·, .waiting)⟩ (inTurn done.length answers) = some g := by
  induction answers generalizing files done with
  | nil => exact ⟨_, rfl⟩
  | cons answer answers ih =>
    cases files with
    | nil => cases hlength
    | cons units files =>
      have hidle : inFlight ⟨limit, done ++ (units, .waiting) :: files.map (·, .waiting)⟩ = 0 := by
        refine List.countP_eq_zero.2 fun s hs => Bool.not_eq_true _ ▸ ?_
        rcases List.mem_append.1 hs with hs | hs
        · exact hdone s hs
        · have hs : s ∈ (units :: files).map (·, Slot.waiting) := hs
          obtain ⟨_, -, rfl⟩ := List.mem_map.1 hs
          rfl
      have hdone' : ∀ s ∈ done ++ [(units, .answered answer)], isUnderWay s.2 = false := by
        rw [List.forall_mem_append, List.forall_mem_singleton]
        exact ⟨hdone, rfl⟩
      obtain ⟨g, hg⟩ := ih (Nat.succ.inj hlength) hdone'
      refine ⟨g, ?_⟩
      rw [List.length_append, List.append_assoc] at hg
      rw [inTurn, List.map_cons, run?_start_finish hpos hidle]
      exact hg

/-- Calls in turn meet the failures in the order of the files. -/
theorem findSome?_inTurn {answers : List (Except EmbedFailure (List Embedding))} {k : Nat}
    (hlength : answers.length = (files.drop k).length) :
    (inTurn k answers).findSome? (failure? project now files) = some f ↔
      (((files.drop k).zip answers).mapM fun call => itemsOfAnswer project now call.1 call.2) =
        .error f := by
  induction answers generalizing k with
  | nil => exact ⟨nofun, by rw [List.zip_nil_right]; nofun⟩
  | cons answer answers ih =>
    cases hrest : files.drop k with
    | nil =>
      rw [hrest] at hlength
      cases hlength
    | cons units rest =>
      have hunits : files[k]? = some units := by
        rw [← List.head?_drop, hrest]
        rfl
      have hmore : files.drop (k + 1) = rest := by rw [← List.tail_drop, hrest, List.tail_cons]
      rw [hrest] at hlength
      have ih := @ih (k + 1) (by rw [hmore]; exact Nat.succ.inj hlength)
      rw [hmore] at ih
      rw [inTurn, List.findSome?_cons, List.findSome?_cons, List.zip_cons_cons, List.mapM_cons]
      cases hitems : itemsOfAnswer project now units answer with
      | error f' =>
        rw [failure?_finish_iff.2 ⟨units, hunits, hitems⟩]
        exact ⟨fun h => congrArg _ (Option.some.inj h), fun h => congrArg _ (Except.error.inj h)⟩
      | ok items =>
        have hone : failure? project now files (.finish k answer) = none := by
          refine Option.eq_none_iff_forall_ne_some.2 fun f' hf' => ?_
          obtain ⟨units', hunits', hfails⟩ := failure?_finish_iff.1 hf'
          cases hunits.symm.trans hunits'
          cases hitems.symm.trans hfails
        rw [hone]
        refine ih.trans ?_
        cases (rest.zip answers).mapM fun call => itemsOfAnswer project now call.1 call.2 with
        | error f' => exact Iff.rfl
        | ok lists => exact ⟨nofun, nofun⟩

/-- A pass that embeds file after file is one of the schedules. -/
theorem outcome?_inTurn (hpos : 0 < ix.maxConcurrency) (r : Report) :
    outcome? ix w.now files (inTurn 0 (ix.embedder.answers files w.embedding)) =
      some (exec (embedFiles ix files) r w).1.1 := by
  have hlength := length_answers ix.embedder files w.embedding
  obtain ⟨g, hrun⟩ := @exists_run?_inTurn files _ hpos _ hlength [] nofun
  have hrun : (ofFiles ix files).run? (inTurn 0 (ix.embedder.answers files w.embedding)) = some g :=
    hrun
  have hanswers : AnsweredInTurn ix.embedder files w.embedding
      (inTurn 0 (ix.embedder.answers files w.embedding)) := by
    intro i answer hmem
    obtain ⟨j, rfl, hj⟩ := finish_mem_inTurn.1 hmem
    rwa [Nat.zero_add]
  have hended : ∀ i, i < files.length →
      ∃ answer, .finish i answer ∈ inTurn 0 (ix.embedder.answers files w.embedding) := by
    intro i hi
    rw [← hlength] at hi
    exact ⟨_, finish_mem_inTurn.2 ⟨i, (Nat.zero_add i).symm, List.getElem?_eq_getElem hi⟩⟩
  obtain ⟨hsome, hok, -⟩ := outcome_as_in_turn hrun hanswers r
  obtain ⟨x, hx⟩ := hsome hended
  rw [hx]
  cases x with
  | ok items => rw [hok items hx]
  | error f =>
    have hfirst : (inTurn 0 (ix.embedder.answers files w.embedding)).findSome?
        (failure? ix.project w.now files) = some f := by
      rw [outcome?_of_run hrun] at hx
      split at hx
      · next hfirst =>
        cases hx
        exact hfirst
      · obtain ⟨_, -, h⟩ := Option.map_eq_some_iff.1 hx
        cases h
    have hcalls := (findSome?_inTurn (k := 0) hlength).1 hfirst
    rw [List.drop_zero] at hcalls
    rw [Pass.exec_embedFiles_eq, hcalls]
    rfl

end Gather

end CodeAtlas
