import CodeAtlas.Proofs.Store.Table

/-!
# Failures of the client come up as failures of the index

An operation names every failure of the client as one of the index (`Surfaces`), except where a
write asks an existing collection for its dimension: that call is refused as it is, and vectors with
names have none. Apart from it an operation ends otherwise at an item whose file can group nothing,
and at an id that gives no point id (`PassesBy`):

    (op.run ix c).1 = .failed f ∧ (∀ e, f ≠ .service e) ↔ PassesBy ix c op f   (failed_otherwise_iff)

What a call does depends on how many calls of its method still pass (`Client.refusal?`); `Followed`
says what one that passes leaves of them, and work `Spares` the methods that it does not call.
-/

namespace CodeAtlas

namespace Client

/-! ## Refusals -/

/-- The text of the fault on a method, if it lets no more than `passed` calls pass. -/
def refusalIn? (m : Method) (passed : Nat) (faults : List (Method × Fault)) : Option Text :=
  (faults.find? (·.1 = m)).bind fun kf => if kf.2.after ≤ passed then some kf.2.message else none

/-- What a method's call is refused with after `passed` more that pass. -/
def refusal? (c : Client) (m : Method) (passed : Nat) : Option Text :=
  refusalIn? m passed c.faults

theorem passFaults_of_refusal {m : Method} {faults : List (Method × Fault)} {message : Text}
    (h : refusalIn? m 0 faults = some message) : passFaults m faults = .error message := by
  induction faults with
  | nil => cases h
  | cons kf rest ih =>
    obtain ⟨k, fault⟩ := kf
    by_cases hk : k = m
    · have hafter : fault.after = 0 := by
        by_contra hne
        simp [refusalIn?, hk, hne] at h
      have hmessage : fault.message = message := by simpa [refusalIn?, hk, hafter] using h
      simp [passFaults, hk, hafter, hmessage]
    · have hrest : refusalIn? m 0 rest = some message := by simpa [refusalIn?, hk] using h
      rw [passFaults, if_neg hk, ih hrest]
      rfl

/-- A call that passes is one less for its method, and nothing to the others. -/
theorem passFaults_of_pass {m : Method} {faults : List (Method × Fault)}
    (h : refusalIn? m 0 faults = none) :
    ∃ left, passFaults m faults = .ok left ∧
      (∀ n, refusalIn? m n left = refusalIn? m (n + 1) faults) ∧
      ∀ k ≠ m, ∀ n, refusalIn? k n left = refusalIn? k n faults := by
  induction faults with
  | nil => exact ⟨[], rfl, fun _ => rfl, fun _ _ _ => rfl⟩
  | cons kf rest ih =>
    obtain ⟨k, fault⟩ := kf
    by_cases hk : k = m
    · subst hk
      cases hafter : fault.after with
      | zero => simp [refusalIn?, hafter] at h
      | succ left =>
        refine ⟨(k, { fault with after := left }) :: rest, by simp [passFaults, hafter], fun n => ?_,
          fun l hl n => ?_⟩
        · simp [refusalIn?, hafter]
        · simp [refusalIn?, Ne.symm hl]
    · have hrest : refusalIn? m 0 rest = none := by simpa [refusalIn?, hk] using h
      obtain ⟨left, hpass, hown, hothers⟩ := ih hrest
      refine ⟨(k, fault) :: left, by rw [passFaults, if_neg hk, hpass]; rfl, fun n => ?_,
        fun l hl n => ?_⟩
      · simpa [refusalIn?, hk] using hown n
      · by_cases hkl : k = l
        · simp [refusalIn?, hkl]
        · simpa [refusalIn?, hkl] using hothers l hl n

/-- What a call of `m` that passes leaves, as far as later calls depend on it. -/
structure Followed (m : Method) (c c' : Client) : Prop where
  name : c'.name = c.name
  own : ∀ n, c'.refusal? m n = c.refusal? m (n + 1)
  others : ∀ k ≠ m, ∀ n, c'.refusal? k n = c.refusal? k n

theorem run_perform_refused (call : Call) {c : Client} {message : Text}
    (h : c.refusal? call.method 0 = some message) :
    ∃ c', run (perform call) c = (.error (.refused message), c') ∧
      ∀ k n, c'.refusal? k n = c.refusal? k n := by
  refine ⟨{ c with calls := c.calls ++ [call] }, ?_, fun _ _ => rfl⟩
  unfold perform
  rw [run_bind_of_ok (run_modify _ _), run_bind_of_ok (run_get _)]
  dsimp only
  rw [passFaults_of_refusal h]
  rfl

theorem run_perform_passed (call : Call) {c : Client} (h : c.refusal? call.method 0 = none) :
    ∃ c', run (perform call) c = (.ok ⟨⟩, c') ∧ Followed call.method c c' ∧
      c'.collection = c.collection := by
  obtain ⟨left, hpass, hown, hothers⟩ := passFaults_of_pass h
  refine ⟨{ c with calls := c.calls ++ [call], faults := left }, ?_, ⟨rfl, hown, hothers⟩, rfl⟩
  unfold perform
  rw [run_bind_of_ok (run_modify _ _), run_bind_of_ok (run_get _)]
  dsimp only
  rw [hpass]
  rfl

/-! ## Asking for the collection -/

/-- The collection can be looked for, and the call for it passes. -/
structure Reachable (c : Client) : Prop where
  name : canBeLookedFor c.name = true
  passes : c.refusal? .collectionExists 0 = none

theorem run_collectionExists_of_reachable {c : Client} (h : c.Reachable) :
    ∃ c', run collectionExists c = (.ok c.collection.isSome, c') ∧
      Followed .collectionExists c c' ∧ c'.collection = c.collection := by
  obtain ⟨c', hrun, hleft, hcol⟩ := run_perform_passed .collectionExists h.passes
  refine ⟨c', ?_, hleft, hcol⟩
  unfold collectionExists
  rw [run_bind_of_ok hrun, run_bind_of_ok (run_get _), hleft.name, if_pos h.name, hcol, run_pure]

theorem run_collectionExists_of_not_reachable {c : Client} (h : ¬ c.Reachable) :
    ∃ e c', run collectionExists c = (.error e, c') := by
  unfold collectionExists
  cases hm : c.refusal? .collectionExists 0 with
  | some message =>
    obtain ⟨c', hrun, -⟩ := run_perform_refused .collectionExists hm
    exact ⟨_, c', run_bind_of_error hrun⟩
  | none =>
    obtain ⟨c', hrun, hleft, -⟩ := run_perform_passed .collectionExists hm
    have hname : ¬ canBeLookedFor c'.name = true := fun hc => h ⟨hleft.name ▸ hc, hm⟩
    refine ⟨.badName c'.name.plain, c', ?_⟩
    rw [run_bind_of_ok hrun, run_bind_of_ok (run_get _), if_neg hname, run_throw]

theorem run_existing_of_some {c : Client} {col : Collection} (hcol : c.collection = some col) :
    run existing c = (.ok col, c) := by
  unfold existing
  rw [run_bind_of_ok (run_get _), hcol, run_pure]

theorem run_getDimension_of_passes {c : Client} {col : Collection} (hcol : c.collection = some col)
    (h : c.refusal? .getCollection 0 = none) :
    ∃ c', run getDimension c = (match col.dimension with
      | some dimension => .ok dimension
      | none => .error .namedVectors, c') := by
  obtain ⟨c', hrun, -, hsame⟩ := run_perform_passed .getCollection h
  refine ⟨c', ?_⟩
  unfold getDimension
  rw [run_bind_of_ok hrun, run_bind_of_ok (run_existing_of_some (hsame.trans hcol))]
  cases col.dimension <;> rfl

theorem run_getDimension_of_refused {c : Client} {message : Text}
    (h : c.refusal? .getCollection 0 = some message) :
    ∃ c', run getDimension c = (.error (.refused message), c') := by
  obtain ⟨c', hrun, -⟩ := run_perform_refused .getCollection h
  exact ⟨c', run_bind_of_error hrun⟩

/-! ## Making the collection -/

/-- A collection of the client's name can be made, and the call for it passes. -/
structure Makeable (c : Client) : Prop where
  name : isCollectionName c.name = true
  passes : c.refusal? .createCollection 0 = none

theorem run_createCollection_of_makeable {c : Client} (h : c.Makeable) (dimension : Nat) :
    ∃ c', run (createCollection dimension) c = (.ok ⟨⟩, c') ∧ Followed .createCollection c c' := by
  obtain ⟨c1, hrun, hleft, -⟩ :=
    run_perform_passed (.createCollection dimension) h.passes
  refine ⟨{ c1 with collection := some ⟨some dimension, []⟩ }, ?_,
    ⟨hleft.name, hleft.own, hleft.others⟩⟩
  unfold createCollection
  rw [run_bind_of_ok hrun, run_bind_of_ok (run_get _)]
  dsimp only
  rw [if_pos (hleft.name ▸ h.name)]
  rfl

theorem run_createCollection_of_not_makeable {c : Client} (h : ¬ c.Makeable) (dimension : Nat) :
    ∃ e c', run (createCollection dimension) c = (.error e, c') := by
  unfold createCollection
  cases hm : c.refusal? .createCollection 0 with
  | some message =>
    obtain ⟨c', hrun, -⟩ := run_perform_refused (.createCollection dimension) hm
    exact ⟨_, c', run_bind_of_error hrun⟩
  | none =>
    obtain ⟨c', hrun, hleft, -⟩ := run_perform_passed (.createCollection dimension) hm
    have hname : ¬ isCollectionName c'.name = true := fun hc => h ⟨hleft.name ▸ hc, hm⟩
    refine ⟨.badName c'.name.plain, c', ?_⟩
    rw [run_bind_of_ok hrun, run_bind_of_ok (run_get _)]
    dsimp only
    rw [if_neg hname, run_throw]

theorem run_createPayloadIndexes_of_passes {c : Client} {fields : List Text}
    (h : ∀ n < fields.length, c.refusal? .createPayloadIndex n = none) :
    ∃ c', run (fields.forM createPayloadIndex) c = (.ok ⟨⟩, c') := by
  induction fields generalizing c with
  | nil => exact ⟨c, rfl⟩
  | cons field rest ih =>
    obtain ⟨c1, hrun, hleft, -⟩ :=
      run_perform_passed (.createPayloadIndex field) (h 0 (Nat.succ_pos _))
    obtain ⟨c', hrest⟩ := ih fun n hn => (hleft.own n).trans (h (n + 1) (Nat.succ_lt_succ hn))
    exact ⟨c', (run_bind_of_ok hrun).trans hrest⟩

theorem run_createPayloadIndexes_of_refused {c : Client} {fields : List Text} {n : Nat}
    (hn : n < fields.length) (h : c.refusal? .createPayloadIndex n ≠ none) :
    ∃ e c', run (fields.forM createPayloadIndex) c = (.error e, c') := by
  induction fields generalizing c n with
  | nil => cases hn
  | cons field rest ih =>
    cases hm : c.refusal? .createPayloadIndex 0 with
    | some message =>
      obtain ⟨c', hrun, -⟩ := run_perform_refused (.createPayloadIndex field) hm
      exact ⟨_, c', run_bind_of_error hrun⟩
    | none =>
      obtain ⟨c1, hrun, hleft, -⟩ := run_perform_passed (.createPayloadIndex field) hm
      cases n with
      | zero => exact absurd hm h
      | succ n =>
        obtain ⟨e, c', hrest⟩ := ih (Nat.lt_of_succ_lt_succ hn) (hleft.own n ▸ h)
        exact ⟨e, c', (run_bind_of_ok hrun).trans hrest⟩

/-! ## Calls of other methods -/

/-- Makes no call of the method, however it ends. -/
def Spares {ε α : Type} (k : Method) (m : ExceptT ε (StateM Client) α) : Prop :=
  ∀ c n, (run m c).2.refusal? k n = c.refusal? k n

section
variable {ε ε' α β : Type} {k : Method}

theorem Spares.eq {m : ExceptT ε (StateM Client) α} (hm : Spares k m) {c c' : Client}
    {answer : Except ε α} (h : run m c = (answer, c')) (n : Nat) :
    c'.refusal? k n = c.refusal? k n := by
  have := hm c n
  rwa [h] at this

theorem spares_pure (a : α) : Spares k (pure a : ExceptT ε (StateM Client) α) := fun _ _ => rfl

theorem spares_throw (e : ε) : Spares k (throw e : ExceptT ε (StateM Client) α) := fun _ _ => rfl

theorem spares_get : Spares k (get : ExceptT ε (StateM Client) Client) := fun _ _ => rfl

theorem spares_setCollection (col : Option Collection) : Spares k (setCollection col) :=
  fun _ _ => rfl

theorem spares_bind {m : ExceptT ε (StateM Client) α} {f : α → ExceptT ε (StateM Client) β}
    (hm : Spares k m) (hf : ∀ a, Spares k (f a)) : Spares k (m >>= f) := by
  intro c n
  rw [run_bind]
  split
  · next a c' h => rw [hf a c' n, hm.eq h]
  · next e c' h => exact hm.eq h n

theorem spares_adapt {m : ExceptT ε (StateM Client) α} (hm : Spares k m) (f : ε → ε') :
    Spares k (m.adapt f) := by
  intro c n
  rw [run_adapt]
  exact hm c n

theorem spares_perform (call : Call) (h : k ≠ call.method) : Spares k (perform call) := by
  intro c n
  cases hm : c.refusal? call.method 0 with
  | some message =>
    obtain ⟨c', hrun, hleft⟩ := run_perform_refused call hm
    rw [hrun]
    exact hleft k n
  | none =>
    obtain ⟨c', hrun, hleft, -⟩ := run_perform_passed call hm
    rw [hrun]
    exact hleft.others k h n

theorem spares_existing : Spares k existing := by
  refine spares_bind spares_get fun c => ?_
  split
  · exact spares_pure _
  · exact spares_bind spares_get fun _ => spares_throw _

theorem spares_forM {γ : Type} {f : γ → ExceptT ε (StateM Client) PUnit} (hf : ∀ x, Spares k (f x))
    (xs : List γ) : Spares k (xs.forM f) := by
  induction xs with
  | nil => exact spares_pure _
  | cons x xs ih => exact spares_bind (hf x) fun _ => ih

end

/-- A write that passes, into a collection that is there. -/
theorem run_upsert_of_passes {c : Client} {col : Collection} (hcol : c.collection = some col)
    (h : c.refusal? .upsert 0 = none) (points : List Point) :
    ∃ c', run (upsert points) c = (.ok ⟨⟩, c') ∧ c'.collection = some (col.upsert points) ∧
      ∀ n, c'.refusal? .upsert n = c.refusal? .upsert (n + 1) := by
  obtain ⟨c1, hrun, hleft, hsame⟩ := run_perform_passed (.upsert (points.map (·.id))) h
  refine ⟨{ c1 with collection := some (col.upsert points) }, ?_, rfl, hleft.own⟩
  unfold upsert
  rw [run_bind_of_ok hrun, run_bind_of_ok (run_existing_of_some (hsame.trans hcol))]
  rfl

end Client

namespace VectorIndex

open Client

/-! ## Making the collection ready -/

/-- The index can write vectors of dimension `n`: their collection is there, or can be made. -/
inductive Ready (c : Client) (n : Nat) : Prop
  | found {col : Collection} (hr : c.Reachable) (hcol : c.collection = some col)
    (hn : col.dimension = some n) (hpass : c.refusal? .getCollection 0 = none)
  | made (hr : c.Reachable) (hcol : c.collection = none) (hmake : c.Makeable)
    (hindex : ∀ i < filterFields.length, c.refusal? .createPayloadIndex i = none)

/-- The collection is there, but its dimension cannot be told: the call for it is refused, or its
vectors have names. -/
inductive Unsized (c : Client) : ClientError → Prop
  | refused {message : Text} (hr : c.Reachable) (hcol : c.collection.isSome = true)
    (h : c.refusal? .getCollection 0 = some message) : Unsized c (.refused message)
  | named {col : Collection} (hr : c.Reachable) (hcol : c.collection = some col)
    (hn : col.dimension = none) (h : c.refusal? .getCollection 0 = none) : Unsized c .namedVectors

theorem Unsized.not_ready {c : Client} {e : ClientError} (h : Unsized c e) {n : Nat} :
    ¬ Ready c n := by
  rintro (⟨-, hfound, hn, hpass⟩ | ⟨-, hnone, -, -⟩)
  · cases h with
    | refused _ _ hrefused => cases hrefused.symm.trans hpass
    | named _ hcol hnamed _ =>
      cases hfound.symm.trans hcol
      cases hn.symm.trans hnamed
  · cases h with
    | refused _ hcol _ => simp [hnone] at hcol
    | named _ hcol _ _ => cases hnone.symm.trans hcol

theorem guarded_of_ok {α : Type} {f : ClientError → StoreError} {m : ClientM α} {c c' : Client}
    {a : α} (h : run m c = (.ok a, c')) : run (guarded f m) c = (.ok a, c') := by
  unfold guarded
  rw [run_adapt, h]
  rfl

theorem guarded_of_error {α : Type} {f : ClientError → StoreError} {m : ClientM α} {c c' : Client}
    {e : ClientError} (h : run m c = (.error e, c')) :
    run (guarded f m) c = (.error (.service (f e)), c') := by
  unfold guarded
  rw [run_adapt, h]
  rfl

theorem run_exists?_of_reachable (ix : VectorIndex) {c : Client} (h : c.Reachable) :
    ∃ c', run ix.exists? c = (.ok c.collection.isSome, c') ∧ Followed .collectionExists c c' ∧
      c'.collection = c.collection := by
  obtain ⟨c', hrun, hleft, hsame⟩ := run_collectionExists_of_reachable h
  exact ⟨c', guarded_of_ok hrun, hleft, hsame⟩

theorem run_dimension?_of_found (ix : VectorIndex) {c : Client} {col : Collection} {n : Nat}
    (hr : c.Reachable) (hcol : c.collection = some col) (hn : col.dimension = some n)
    (h : c.refusal? .getCollection 0 = none) : ∃ c', run ix.dimension? c = (.ok (some n), c') := by
  obtain ⟨c1, hexists, hleft, hsame⟩ := ix.run_exists?_of_reachable hr
  obtain ⟨c', hget⟩ := run_getDimension_of_passes (hsame.trans hcol)
    ((hleft.others .getCollection nofun 0).trans h)
  rw [hn] at hget
  refine ⟨c', ?_⟩
  unfold dimension?
  rw [run_bind_of_ok hexists, hcol]
  exact run_bind_of_ok (by rw [run_adapt, hget]; rfl)

theorem run_dimension?_of_absent (ix : VectorIndex) {c : Client} (hr : c.Reachable)
    (hcol : c.collection = none) :
    ∃ c', run ix.dimension? c = (.ok none, c') ∧ Followed .collectionExists c c' := by
  obtain ⟨c', hexists, hleft, -⟩ := ix.run_exists?_of_reachable hr
  refine ⟨c', ?_, hleft⟩
  unfold dimension?
  rw [run_bind_of_ok hexists, hcol]
  rfl

theorem run_dimension?_of_unsized (ix : VectorIndex) {c : Client} {e : ClientError}
    (h : Unsized c e) : ∃ c', run ix.dimension? c = (.error (.client e), c') := by
  have hreachable : c.Reachable := by cases h <;> assumption
  obtain ⟨c1, hexists, hleft, hsame⟩ := ix.run_exists?_of_reachable hreachable
  have hpassed : c1.refusal? .getCollection 0 = c.refusal? .getCollection 0 :=
    hleft.others .getCollection nofun 0
  obtain ⟨hpresent, c', hget⟩ :
      c.collection.isSome = true ∧ ∃ c', run getDimension c1 = (.error e, c') := by
    cases h with
    | refused _ hcol hrefused => exact ⟨hcol, run_getDimension_of_refused (hpassed.trans hrefused)⟩
    | named _ hcol hn hpass =>
      obtain ⟨c', hget⟩ := run_getDimension_of_passes (hsame.trans hcol) (hpassed.trans hpass)
      rw [hn] at hget
      exact ⟨by rw [hcol]; rfl, c', hget⟩
  refine ⟨c', ?_⟩
  unfold dimension?
  rw [run_bind_of_ok hexists, if_pos hpresent]
  exact run_bind_of_error (by rw [run_adapt, hget]; rfl)

theorem run_dimension?_of_unreachable (ix : VectorIndex) {c : Client} (h : ¬ c.Reachable) :
    ∃ e c', run ix.dimension? c = (.error (.service e), c') := by
  obtain ⟨e, c', hexists⟩ := run_collectionExists_of_not_reachable h
  exact ⟨_, c', run_bind_of_error (guarded_of_error hexists)⟩

/-- Making the collection ready where there is none succeeds if and only if it can be made. -/
theorem ensureCollection_of_absent (ix : VectorIndex) {c : Client} (hr : c.Reachable)
    (hcol : c.collection = none) (n : Nat) :
    (Ready c n ∧ ∃ c', run (ix.ensureCollection n) c = (.ok ⟨⟩, c')) ∨
    ¬ Ready c n ∧ ∃ e c', run (ix.ensureCollection n) c = (.error (.service e), c') := by
  obtain ⟨c1, hdim, hleft⟩ := ix.run_dimension?_of_absent hr hcol
  have hname : c1.name = c.name := hleft.name
  have hmade : c1.Makeable ↔ c.Makeable := by
    constructor
    · exact fun h => ⟨hname ▸ h.name, (hleft.others .createCollection nofun 0).symm.trans h.passes⟩
    · exact fun h => ⟨hname ▸ h.name, (hleft.others .createCollection nofun 0).trans h.passes⟩
  unfold ensureCollection
  rw [run_bind_of_ok hdim]
  by_cases hmake : c.Makeable
  · obtain ⟨c2, hcreate, hleft'⟩ := run_createCollection_of_makeable (hmade.2 hmake) n
    have hindex : ∀ i, c2.refusal? .createPayloadIndex i = c.refusal? .createPayloadIndex i :=
      fun i => (hleft'.others .createPayloadIndex nofun i).trans
        (hleft.others .createPayloadIndex nofun i)
    by_cases hpass : ∀ i < filterFields.length, c.refusal? .createPayloadIndex i = none
    · obtain ⟨c', hrun⟩ := run_createPayloadIndexes_of_passes fun i hi =>
        (hindex i).trans (hpass i hi)
      exact Or.inl ⟨.made hr hcol hmake hpass, c',
        guarded_of_ok ((run_bind_of_ok hcreate).trans hrun)⟩
    · have hready : ¬ Ready c n := by
        rintro (⟨-, hfound, -, -⟩ | ⟨-, -, -, h⟩)
        · cases hcol.symm.trans hfound
        · exact hpass h
      push Not at hpass
      obtain ⟨i, hi, hrefused⟩ := hpass
      obtain ⟨e, c', hrun⟩ := run_createPayloadIndexes_of_refused hi (hindex i ▸ hrefused)
      exact Or.inr ⟨hready, _, c', guarded_of_error ((run_bind_of_ok hcreate).trans hrun)⟩
  · have hready : ¬ Ready c n := by
      rintro (⟨-, hfound, -, -⟩ | ⟨-, -, h, -⟩)
      · cases hcol.symm.trans hfound
      · exact hmake h
    obtain ⟨e, c', hcreate⟩ := run_createCollection_of_not_makeable (hmake ∘ hmade.1) n
    exact Or.inr ⟨hready, _, c', guarded_of_error (run_bind_of_error hcreate)⟩

/-- Making the collection ready has three ends, and what the client holds decides between them. -/
theorem ensureCollection_cases (ix : VectorIndex) (c : Client) (n : Nat) :
    (Ready c n ∧ ∃ c', run (ix.ensureCollection n) c = (.ok ⟨⟩, c')) ∨
    (∃ e c', Unsized c e ∧ run (ix.ensureCollection n) c = (.error (.client e), c')) ∨
    ¬ Ready c n ∧ ∃ e c', run (ix.ensureCollection n) c = (.error (.service e), c') := by
  have hunsized : ∀ e, Unsized c e → ∃ e c', Unsized c e ∧
      run (ix.ensureCollection n) c = (.error (.client e), c') := by
    intro e hu
    obtain ⟨c', hdim⟩ := ix.run_dimension?_of_unsized hu
    exact ⟨e, c', hu, run_bind_of_error hdim⟩
  by_cases hr : c.Reachable
  · cases hcol : c.collection with
    | none =>
      rcases ix.ensureCollection_of_absent hr hcol n with h | h
      · exact Or.inl h
      · exact Or.inr (Or.inr h)
    | some col =>
      cases hpass : c.refusal? .getCollection 0 with
      | some message => exact Or.inr (Or.inl (hunsized _ (.refused hr (by simp [hcol]) hpass)))
      | none =>
        cases hd : col.dimension with
        | none => exact Or.inr (Or.inl (hunsized _ (.named hr hcol hd hpass)))
        | some d =>
          obtain ⟨c', hdim⟩ := ix.run_dimension?_of_found hr hcol hd hpass
          unfold ensureCollection
          rw [run_bind_of_ok hdim]
          by_cases hn : d = n
          · exact Or.inl ⟨.found hr hcol (hn ▸ hd) hpass, c', by simp [hn]⟩
          · refine Or.inr (Or.inr ⟨?_, _, c', by simp only [ne_eq, hn, not_false_eq_true, if_true]; rfl⟩)
            rintro (⟨-, hfound, h, -⟩ | ⟨-, hnone, -, -⟩)
            · cases hcol.symm.trans hfound
              exact hn (Option.some.inj (hd.symm.trans h))
            · cases hcol.symm.trans hnone
  · obtain ⟨e, c', hdim⟩ := ix.run_dimension?_of_unreachable hr
    refine Or.inr (Or.inr ⟨?_, e, c', run_bind_of_error hdim⟩)
    rintro (⟨h, -, -, -⟩ | ⟨h, -, -, -⟩) <;> exact hr h

/-! ## Operations whose failures come up -/

/-- However the work fails, the failure is one of the index. -/
def Surfaces {α : Type} (m : IndexM α) : Prop :=
  ∀ ⦃c c' : Client⦄ ⦃f : IndexFailure⦄, run m c = (.error f, c') → ∃ e, f = .service e

section
variable {α β : Type}

theorem surfaces_pure (a : α) : Surfaces (pure a : IndexM α) := fun _ _ _ h => nomatch h

theorem surfaces_bind {m : IndexM α} {f : α → IndexM β} (hm : Surfaces m)
    (hf : ∀ a, Surfaces (f a)) : Surfaces (m >>= f) := by
  intro c c' e h
  rcases run_bind_error h with hfirst | ⟨a, c1, -, hthen⟩
  · exact hm hfirst
  · exact hf a hthen

theorem surfaces_guarded (f : ClientError → StoreError) (m : ClientM α) :
    Surfaces (guarded f m) := by
  intro c c' e h
  obtain ⟨cause, -, rfl⟩ := guarded_error h
  exact ⟨_, rfl⟩

/-- Work that is done only if there is a collection. -/
theorem surfaces_existing (ix : VectorIndex) {found absent : IndexM α} (hfound : Surfaces found)
    (habsent : Surfaces absent) : Surfaces (do if ← ix.exists? then found else absent) := by
  refine surfaces_bind (surfaces_guarded _ _) fun b => ?_
  split
  · exact hfound
  · exact habsent

end

/-- A deletion of texts fails otherwise at the first that has no point id, before any call. -/
theorem delete_eq (ix : VectorIndex) (keys : List Text) :
    (∃ e, keys.findSome? Text.encodeError? = some e ∧
      ix.delete (keys.map .text) = throw (.key (.encode e))) ∨
    keys.findSome? Text.encodeError? = none ∧ Surfaces (ix.delete (keys.map .text)) := by
  have hids : (keys.map Value.text).mapM pointId? = (keys.findSome? Text.encodeError?).elim
      (.ok (keys.map PointId.ofKey)) fun e => .error (.encode e) := by
    induction keys with
    | nil => rfl
    | cons key keys ih =>
      rw [List.map_cons, List.mapM_cons, ih, List.findSome?_cons, pointId?, PointId.ofKey?]
      cases key.encodeError? with
      | some e => rfl
      | none => cases keys.findSome? Text.encodeError? <;> rfl
  unfold delete
  rw [hids]
  cases keys.findSome? Text.encodeError? with
  | some e => exact Or.inl ⟨e, rfl, rfl⟩
  | none =>
    refine Or.inr ⟨rfl, ?_⟩
    rw [Option.elim_none]
    dsimp only
    split
    · exact surfaces_pure _
    · exact ix.surfaces_existing (surfaces_guarded _ _) (surfaces_pure _)

theorem surfaces_clear (ix : VectorIndex) : Surfaces ix.clear :=
  ix.surfaces_existing (surfaces_guarded _ _) (surfaces_pure _)

theorem surfaces_keys (ix : VectorIndex) (file project : Option Sought) :
    Surfaces (ix.keys file project) := by
  refine ix.surfaces_existing ?_ (surfaces_pure _)
  refine surfaces_bind (fun _ _ _ h => nomatch h) fun _ => ?_
  exact surfaces_bind (surfaces_guarded _ _) fun _ => surfaces_pure _

theorem surfaces_count (ix : VectorIndex) : Surfaces ix.count :=
  ix.surfaces_existing (surfaces_guarded _ _) (surfaces_pure _)

theorem surfaces_query (ix : VectorIndex) (v : Embedding) (topK : Int) (withMetadata : Bool) :
    Surfaces (ix.query v topK withMetadata) := by
  unfold query
  split
  · exact surfaces_pure _
  · exact ix.surfaces_existing (surfaces_bind (surfaces_guarded _ _) fun _ => surfaces_pure _)
      (surfaces_pure _)

/-! ## Writes -/

/-- The vectors of the items have `n` places, at least one. -/
structure HaveDimension (items : List IndexItem) (n : Nat) : Prop where
  nonempty : items ≠ []
  positive : n ≠ 0
  all : ∀ item ∈ items, item.vector.length = n

theorem prepare_of_haveDimension (ix : VectorIndex) {items : List IndexItem} {n : Nat}
    (h : HaveDimension items n) : ix.prepare items = ix.ensureCollection n := by
  obtain ⟨first, rest, rfl⟩ := List.exists_cons_of_ne_nil h.nonempty
  have hfirst : first.vector.length = n := h.all first List.mem_cons_self
  rw [prepare_eq]
  dsimp only [List.head?_cons, Option.map_some, Option.getD_some]
  rw [hfirst, dimensionError?_eq_none_iff.2 ⟨h.positive, h.all⟩]

theorem prepare_of_not_haveDimension (ix : VectorIndex) {items : List IndexItem} (hne : items ≠ [])
    (h : ∀ n, ¬ HaveDimension items n) : ∃ e, ix.prepare items = throw (.service e) := by
  obtain ⟨first, rest, rfl⟩ := List.exists_cons_of_ne_nil hne
  rw [prepare_eq]
  dsimp only [List.head?_cons, Option.map_some, Option.getD_some]
  cases hd : dimensionError? first.vector.length (first :: rest) with
  | none =>
    obtain ⟨hpos, hall⟩ := dimensionError?_eq_none_iff.1 hd
    exact absurd ⟨hne, hpos, hall⟩ (h _)
  | some e => exact ⟨e, rfl⟩

/-- Writing items, if there are some. -/
theorem upsert_of_ne_nil (ix : VectorIndex) {items : List IndexItem} (hne : items ≠ []) :
    ix.upsert items = (do
      ix.prepare items
      match Batch.batches? ix.batchSize items with
      | none => throw .ungrouped
      | some batches => writeBatches batches.length 0 batches) := by
  rw [upsert_eq]
  exact if_neg (by simpa using hne)

theorem spares_ensureCollection (ix : VectorIndex) (n : Nat) :
    Spares .upsert (ix.ensureCollection n) := by
  have hexists : Spares .upsert ix.exists? := by
    refine spares_adapt ?_ _
    refine spares_bind (spares_perform .collectionExists nofun) fun _ => ?_
    refine spares_bind spares_get fun c => ?_
    split
    · exact spares_pure _
    · exact spares_throw _
  have hget : Spares .upsert getDimension := by
    refine spares_bind (spares_perform .getCollection nofun) fun _ => ?_
    refine spares_bind spares_existing fun col => ?_
    split
    · exact spares_pure _
    · exact spares_throw _
  have hcreate : Spares .upsert (createCollection n) := by
    refine spares_bind (spares_perform (.createCollection n) nofun) fun _ => ?_
    refine spares_bind spares_get fun c => ?_
    dsimp only
    split
    · exact spares_setCollection _
    · exact spares_throw _
  refine spares_bind (spares_bind hexists fun b => ?_) fun d => ?_
  · split
    · exact spares_bind (spares_adapt hget _) fun _ => spares_pure _
    · exact spares_pure _
  · cases d with
    | some d =>
      dsimp only
      split
      · exact spares_throw _
      · exact spares_pure _
    | none =>
      refine spares_adapt (spares_bind hcreate fun _ => spares_forM (fun field => ?_) _) _
      exact spares_perform (.createPayloadIndex field) nofun

/-- Batches are written up to one with an item whose id gives no point id. -/
structure MeetsKey (c : Client) (batches : List (List IndexItem)) (e : KeyError) : Prop where
  split : ∃ before batch after, batches = before ++ batch :: after ∧
    (∀ b ∈ before, idError? b = none) ∧ (∀ n < before.length, c.refusal? .upsert n = none) ∧
    idError? batch = some e

theorem meetsKey_of_idError {c : Client} {batch : List IndexItem} {rest : List (List IndexItem)}
    {e e' : KeyError} (he : idError? batch = some e') :
    MeetsKey c (batch :: rest) e ↔ e' = e := by
  constructor
  · rintro ⟨before, batch', after, hsplit, hbefore, -, hb⟩
    cases before with
    | nil =>
      cases hsplit
      exact Option.some.inj (he.symm.trans hb)
    | cons first before =>
      cases hsplit
      cases he.symm.trans (hbefore batch List.mem_cons_self)
  · rintro rfl
    exact ⟨[], batch, rest, rfl, nofun, nofun, he⟩

/-- After a batch that can be written, it depends on the rest. -/
theorem meetsKey_cons {c c' : Client} {batch : List IndexItem} {rest : List (List IndexItem)}
    {e : KeyError} (hbatch : idError? batch = none) (hpass : c.refusal? .upsert 0 = none)
    (hnext : ∀ n, c'.refusal? .upsert n = c.refusal? .upsert (n + 1)) :
    MeetsKey c (batch :: rest) e ↔ MeetsKey c' rest e := by
  constructor
  · rintro ⟨before, batch', after, hsplit, hbefore, hpasses, hb⟩
    cases before with
    | nil =>
      cases hsplit
      cases hbatch.symm.trans hb
    | cons first before =>
      cases hsplit
      refine ⟨before, batch', after, rfl, fun b hin => hbefore b (List.mem_cons_of_mem _ hin),
        fun n hn => ?_, hb⟩
      rw [hnext]
      exact hpasses (n + 1) (Nat.succ_lt_succ hn)
  · rintro ⟨before, batch', after, rfl, hbefore, hpasses, hb⟩
    refine ⟨batch :: before, batch', after, rfl, ?_, fun n hn => ?_, hb⟩
    · rintro b hin
      rcases List.mem_cons.1 hin with rfl | hin
      · exact hbatch
      · exact hbefore b hin
    · cases n with
      | zero => exact hpass
      | succ n =>
        rw [← hnext]
        exact hpasses n (Nat.lt_of_succ_lt_succ hn)

theorem not_meetsKey_of_refused {c : Client} {batch : List IndexItem}
    {rest : List (List IndexItem)} {e : KeyError} {message : Text} (hbatch : idError? batch = none)
    (h : c.refusal? .upsert 0 = some message) : ¬ MeetsKey c (batch :: rest) e := by
  rintro ⟨before, batch', after, hsplit, -, hpasses, hb⟩
  cases before with
  | nil =>
    cases hsplit
    cases hbatch.symm.trans hb
  | cons first before => cases h.symm.trans (hpasses 0 (Nat.succ_pos _))

/-- Into a collection that is there, writing fails otherwise than by an error of the index at such an
item only. -/
theorem writeBatches_otherwise_iff {c : Client} {col : Collection} (hcol : c.collection = some col)
    (total done : Nat) (batches : List (List IndexItem)) (f : IndexFailure) :
    ((∃ c', run (writeBatches total done batches) c = (.error f, c')) ∧ ∀ e, f ≠ .service e) ↔
      ∃ e, f = .key e ∧ MeetsKey c batches e := by
  induction batches generalizing c col done with
  | nil =>
    constructor
    · rintro ⟨⟨c', h⟩, -⟩
      cases h
    · rintro ⟨e, -, before, batch, after, h, -⟩
      simp at h
  | cons batch rest ih =>
    rw [writeBatches_cons]
    cases hbatch : idError? batch with
    | some e =>
      simp only [meetsKey_of_idError hbatch]
      constructor
      · rintro ⟨⟨c', h⟩, -⟩
        cases h
        exact ⟨e, rfl, rfl⟩
      · rintro ⟨_, rfl, rfl⟩
        exact ⟨⟨c, rfl⟩, nofun⟩
    | none =>
      dsimp only
      cases hpass : c.refusal? .upsert 0 with
      | some message =>
        obtain ⟨c1, hrefused, -⟩ :=
          run_perform_refused (.upsert ((batch.map pointOf).map (·.id))) hpass
        have hwrite : run (Client.upsert (batch.map pointOf)) c = (.error (.refused message), c1) :=
          run_bind_of_error hrefused
        rw [run_bind_of_error (guarded_of_error hwrite)]
        constructor
        · rintro ⟨⟨c', h⟩, hf⟩
          cases h
          exact absurd rfl (hf _)
        · rintro ⟨e, -, he⟩
          exact absurd he (not_meetsKey_of_refused hbatch hpass)
      | none =>
        obtain ⟨c1, hwrite, hcol1, hnext⟩ := run_upsert_of_passes hcol hpass (batch.map pointOf)
        simp only [meetsKey_cons hbatch hpass hnext]
        rw [run_bind_of_ok (guarded_of_ok hwrite)]
        exact ih hcol1 (done + 1)

end VectorIndex

namespace Operation

open VectorIndex Client

/-- How an operation fails otherwise than by an error of the index. -/
inductive PassesBy (ix : VectorIndex) (c : Client) : Operation → IndexFailure → Prop
  /-- The dimension of the collection cannot be told. -/
  | unsized {items : List IndexItem} {n : Nat} {e : ClientError} (hitems : HaveDimension items n)
    (h : Unsized c e) : PassesBy ix c (.upsert items) (.client e)
  /-- The collection is ready, but the file of an item is a list or a dictionary. -/
  | ungrouped {items : List IndexItem} {n : Nat} {item : IndexItem} (hitems : HaveDimension items n)
    (h : Ready c n) (hmem : item ∈ items) (hfile : Batch.groupKey? item = none) :
    PassesBy ix c (.upsert items) .ungrouped
  /-- The collection is ready, but writing comes to an id that gives no point id. -/
  | itemKey {items : List IndexItem} {n : Nat} {batches : List (List IndexItem)} {e : KeyError}
    (hitems : HaveDimension items n) (h : Ready c n)
    (hb : Batch.batches? ix.batchSize items = some batches) (hkey : MeetsKey c batches e) :
    PassesBy ix c (.upsert items) (.key e)
  /-- An id to be deleted gives no point id. -/
  | deletedKey {ids : List Text} {e : EncodeError} (h : ids.findSome? Text.encodeError? = some e) :
    PassesBy ix c (.delete ids) (.key (.encode e))

variable {ix : VectorIndex} {c c' : Client} {f : IndexFailure}

/-- Once the collection is ready, writing goes by the batches. -/
theorem run_upsert_of_ready (ix : VectorIndex) {items : List IndexItem} {n : Nat}
    (hitems : HaveDimension items n) (h : Ready c n) : ∃ c1 col, c1.collection = some col ∧
      (∀ i, c1.refusal? .upsert i = c.refusal? .upsert i) ∧
      Client.run (ix.upsert items) c =
        Client.run (match Batch.batches? ix.batchSize items with
          | none => throw .ungrouped
          | some batches => writeBatches batches.length 0 batches) c1 := by
  rcases ix.ensureCollection_cases c n with ⟨-, c1, hrun⟩ | ⟨_, _, hu, -⟩ | ⟨hnot, -⟩
  · obtain ⟨col, hcol⟩ := (run_ensureCollection hrun).2 rfl
    refine ⟨c1, col, hcol, (ix.spares_ensureCollection n).eq hrun, ?_⟩
    rw [ix.upsert_of_ne_nil hitems.nonempty, ix.prepare_of_haveDimension hitems,
      run_bind_of_ok hrun]
  · exact absurd h hu.not_ready
  · exact absurd h hnot

theorem meetsKey_congr {c1 : Client} (h : ∀ i, c1.refusal? .upsert i = c.refusal? .upsert i)
    {batches : List (List IndexItem)} {e : KeyError} :
    MeetsKey c1 batches e ↔ MeetsKey c batches e := by
  constructor <;>
  · rintro ⟨before, batch, after, hsplit, hbefore, hpasses, hb⟩
    exact ⟨before, batch, after, hsplit, hbefore, by simpa only [h] using hpasses, hb⟩

/-- A write fails by an error of the index, or in one of the other ways. -/
theorem passesBy_of_upsert {items : List IndexItem}
    (h : Client.run (ix.upsert items) c = (.error f, c')) (hf : ∀ e, f ≠ .service e) :
    PassesBy ix c (.upsert items) f := by
  by_cases hne : items = []
  · subst hne
    cases h
  by_cases hdim : ∃ n, HaveDimension items n
  · obtain ⟨n, hitems⟩ := hdim
    by_cases hready : Ready c n
    · obtain ⟨c1, col, hcol, hleft, hrun⟩ := run_upsert_of_ready ix hitems hready
      rw [hrun] at h
      cases hb : Batch.batches? ix.batchSize items with
      | some batches =>
        rw [hb] at h
        obtain ⟨e, rfl, he⟩ := (writeBatches_otherwise_iff hcol _ _ _ _).1 ⟨⟨c', h⟩, hf⟩
        exact .itemKey hitems hready hb ((meetsKey_congr hleft).1 he)
      | none =>
        rw [hb] at h
        cases h
        by_contra hpasses
        have hfiles : ∀ item ∈ items, (Batch.groupKey? item).isSome := fun item hi =>
          Option.isSome_iff_ne_none.2 fun hfile => hpasses (.ungrouped hitems hready hi hfile)
        obtain ⟨batches, hbatches⟩ := Batch.exists_batches ix.batchSize hfiles
        cases hb.symm.trans hbatches
    · rw [ix.upsert_of_ne_nil hne, ix.prepare_of_haveDimension hitems] at h
      rcases ix.ensureCollection_cases c n with ⟨hr, -⟩ | ⟨e, c1, hu, hrun⟩ | ⟨-, e, c1, hrun⟩
      · exact absurd hr hready
      · rw [run_bind_of_error hrun] at h
        cases h
        exact .unsized hitems hu
      · rw [run_bind_of_error hrun] at h
        cases h
        exact absurd rfl (hf e)
  · obtain ⟨e, hrefused⟩ := ix.prepare_of_not_haveDimension hne (not_exists.1 hdim)
    rw [ix.upsert_of_ne_nil hne, hrefused, run_bind_of_error (run_throw _ _)] at h
    cases h
    exact absurd rfl (hf e)

theorem upsert_of_passesBy {items : List IndexItem} (h : PassesBy ix c (.upsert items) f) :
    (∃ c', Client.run (ix.upsert items) c = (.error f, c')) ∧ ∀ e, f ≠ .service e := by
  cases h with
  | unsized hitems hu =>
    refine ⟨?_, nofun⟩
    rw [ix.upsert_of_ne_nil hitems.nonempty, ix.prepare_of_haveDimension hitems]
    obtain ⟨c', hdim⟩ := ix.run_dimension?_of_unsized hu
    exact ⟨c', run_bind_of_error (run_bind_of_error hdim)⟩
  | ungrouped hitems hready hmem hfile =>
    have hbatches : Batch.batches? ix.batchSize items = none := by
      by_contra hsome
      obtain ⟨batches, hb⟩ := Option.ne_none_iff_exists'.1 hsome
      obtain ⟨_, -, -, -, hall, -⟩ := Batch.batches?_eq_some hb
      obtain ⟨key, -, hkey⟩ := hall _ hmem
      cases hfile.symm.trans hkey
    obtain ⟨c1, -, -, -, hrun⟩ := run_upsert_of_ready ix hitems hready
    rw [hrun, hbatches]
    exact ⟨⟨c1, rfl⟩, nofun⟩
  | itemKey hitems hready hb hkey =>
    obtain ⟨c1, col, hcol, hleft, hrun⟩ := run_upsert_of_ready ix hitems hready
    rw [hrun, hb]
    exact (writeBatches_otherwise_iff hcol _ _ _ _).2 ⟨_, rfl, (meetsKey_congr hleft).2 hkey⟩

/-- Only writes and deletions fail otherwise than by an error of the index. -/
theorem surfaces_work (ix : VectorIndex) {op : Operation} (hupsert : ∀ items, op ≠ .upsert items)
    (hdelete : ∀ ids, op ≠ .delete ids) : Surfaces (op.work ix) := by
  cases op with
  | upsert items => exact absurd rfl (hupsert items)
  | delete ids => exact absurd rfl (hdelete ids)
  | clear => exact surfaces_bind ix.surfaces_clear fun _ => surfaces_pure _
  | keys file project => exact surfaces_bind (ix.surfaces_keys file project) fun _ => surfaces_pure _
  | count => exact surfaces_bind ix.surfaces_count fun _ => surfaces_pure _
  | nonempty =>
    exact surfaces_bind (surfaces_bind ix.surfaces_count fun _ => surfaces_pure _) fun _ =>
      surfaces_pure _
  | query v topK withMetadata =>
    exact surfaces_bind (ix.surfaces_query v topK withMetadata) fun _ => surfaces_pure _

theorem work_ne_failed {op : Operation} {answer : Answer}
    (h : Client.run (op.work ix) c = (.ok answer, c')) : answer ≠ .failed f := by
  cases op <;>
  · obtain ⟨_, _, _, h⟩ := run_bind_ok h
    cases h
    nofun

theorem run_failed_iff {op : Operation} :
    (op.run ix c).1 = .failed f ↔ ∃ c', Client.run (op.work ix) c = (.error f, c') := by
  unfold Operation.run
  cases hrun : Client.run (op.work ix) c with
  | mk result c' =>
    cases result with
    | ok answer => simpa using work_ne_failed hrun
    | error e => simp

/-- Work that is done before the operation answers fails as it does. -/
theorem run_done_failed_iff {m : IndexM PUnit} :
    (∃ c', Client.run (do m; return Answer.done) c = (.error f, c')) ↔
      ∃ c', Client.run m c = (.error f, c') := by
  constructor
  · rintro ⟨c', h⟩
    rcases run_bind_error h with hm | ⟨_, _, _, hdone⟩
    · exact ⟨c', hm⟩
    · cases hdone
  · rintro ⟨c', h⟩
    exact ⟨c', run_bind_of_error h⟩

/-- Every failure of an operation is one of the index, except for a collection whose dimension cannot
be told to a write, for items that a list or a dictionary would have to group, and for ids that give
no point id. -/
theorem failed_otherwise_iff (ix : VectorIndex) (op : Operation) (c : Client) (f : IndexFailure) :
    (op.run ix c).1 = .failed f ∧ (∀ e, f ≠ .service e) ↔ PassesBy ix c op f := by
  rw [run_failed_iff]
  by_cases hupsert : ∃ items, op = .upsert items
  · obtain ⟨items, rfl⟩ := hupsert
    rw [work, run_done_failed_iff]
    exact ⟨fun ⟨⟨_, h⟩, hf⟩ => passesBy_of_upsert h hf, upsert_of_passesBy⟩
  by_cases hdelete : ∃ ids, op = .delete ids
  · obtain ⟨ids, rfl⟩ := hdelete
    rw [work, run_done_failed_iff]
    constructor
    · rintro ⟨⟨c', h⟩, hf⟩
      rcases ix.delete_eq ids with ⟨e, he, heq⟩ | ⟨-, hsurfaces⟩
      · rw [heq] at h
        cases h
        exact .deletedKey he
      · obtain ⟨e, rfl⟩ := hsurfaces h
        exact absurd rfl (hf e)
    · rintro ⟨⟩
      rename_i e he
      rcases ix.delete_eq ids with ⟨e', he', heq⟩ | ⟨hnone, -⟩
      · cases he.symm.trans he'
        exact ⟨⟨c, by rw [heq]; rfl⟩, nofun⟩
      · cases he.symm.trans hnone
  · push Not at hupsert hdelete
    constructor
    · rintro ⟨⟨c', h⟩, hf⟩
      obtain ⟨e, rfl⟩ := surfaces_work ix hupsert hdelete h
      exact absurd rfl (hf e)
    · rintro (_ | _ | _ | _)
      · exact absurd rfl (hupsert _)
      · exact absurd rfl (hupsert _)
      · exact absurd rfl (hupsert _)
      · exact absurd rfl (hdelete _)

/-- A collection of plane vectors whose dimension cannot be asked for. -/
def Sample.shut : Client :=
  ⟨.text "units", some ⟨some 2, []⟩, [(.getCollection, ⟨"boom", 0⟩)], []⟩

/-- Not every failure of an operation is one of the index: writing to `Sample.shut` ends with the
refusal itself. -/
theorem dimension_refusal_escapes : ¬ ∀ (ix : VectorIndex) (op : Operation) (c : Client)
    (f : IndexFailure), (op.run ix c).1 = .failed f → ∃ e, f = .service e := by
  intro h
  have hrun : (run (.make (.text "units") 128) (.upsert [⟨"k", [1, 0], []⟩]) Sample.shut).1 =
      .failed (.client (.refused "boom")) := rfl
  obtain ⟨e, he⟩ := h _ _ _ _ hrun
  cases he

end Operation

end CodeAtlas
