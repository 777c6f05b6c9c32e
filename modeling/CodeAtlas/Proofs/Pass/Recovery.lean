import CodeAtlas.Proofs.File.Reach
import CodeAtlas.Proofs.Pass.Effect
import CodeAtlas.Proofs.Unit.Nameable

/-!
# Failures that are told

A pass tells of its failures in its report. Whatever the embedder and the store do, this holds of
every failure but those of `Job.Untold`:

    (∃ report, (job.run ix w).1 = .ok report) ↔ ¬ job.Untold ix w rules          (job_reports_iff)

Work that tells of all its failures is `Guarded`: calls of the index, and embedding files that have
units. What is left are questions to the disk, structural ids of paths that have no UTF-8, the
embedding of a file without units, and stored keys that are no texts, once they are put in order or
asked for their start.
-/

namespace CodeAtlas

/-! ## Files that have units -/

/-- Whether a unit can be made of what was found, if its file can be named. -/
def Found.IsSound (source : List UInt8) (f : Found) : Prop :=
  (∃ code, Utf8.decode (byteSlice source f.node.span.startByte f.node.span.endByte) = .ok code) ∧
    f.symbolPath.encodeError? = none

namespace Extract

/-- In a text, every node covers whole characters. -/
def OnBoundaries (grammars : Grammars) : Prop :=
  ∀ name parse, grammars name = .ok parse → ∀ source text, Utf8.decode source = .ok text →
    ∀ t ∈ (parse source).root.preorder,
      ∃ code, Utf8.decode (byteSlice source t.span.startByte t.span.endByte) = .ok code

/-- A source has an error of its own, or what is found in it is numbered. Neither depends on the id
scheme or on the path of the file. -/
theorem extractBytes_cases {languages : List Language} {grammars : Grammars}
    (hg : OnBoundaries grammars) (hl : ∀ l ∈ languages, l.fallbackToken.encodeError? = none)
    (strict : Bool) (source : List UInt8) (tag : Text) :
    (∀ scheme filePath, ∃ e, extractBytes languages grammars ⟨scheme, strict⟩ source tag filePath =
      .error e ∧ (∀ x, e ≠ .span x) ∧ ∀ x, e ≠ .encode x) ∨
    ∃ found : List Found, (∀ f ∈ found, f.IsSound source) ∧ ∀ scheme filePath,
      extractBytes languages grammars ⟨scheme, strict⟩ source tag filePath =
        number ⟨scheme, filePath, tag, source⟩ 0 [] found := by
  unfold extractBytes extractText
  cases htag : Language.ofTag? languages tag with
  | none => exact .inl fun _ _ => ⟨_, rfl, nofun, nofun⟩
  | some language =>
    cases hdecode : Utf8.decode source with
    | error e => exact .inl fun _ _ => ⟨_, rfl, nofun, nofun⟩
    | ok text =>
      dsimp only
      by_cases hempty : source.isEmpty = true
      · simp only [if_pos hempty]
        exact .inr ⟨[], nofun, fun _ _ => rfl⟩
      · simp only [if_neg hempty]
        cases hparse : grammars language.grammar with
        | error message => exact .inl fun _ _ => ⟨_, rfl, nofun, nofun⟩
        | ok parse =>
          dsimp only
          by_cases hbroken : ((parse source).hasError && strict) = true
          · simp only [if_pos hbroken]
            exact .inl fun _ _ => ⟨_, rfl, nofun, nofun⟩
          · simp only [if_neg hbroken]
            refine .inr ⟨_, fun f hf => ?_, fun _ _ => rfl⟩
            rw [walk_eq_unitPlaces] at hf
            obtain ⟨p, hp, rfl⟩ := List.mem_map.1 hf
            exact ⟨hg _ _ hparse _ _ hdecode _ (ParseTree.node_mem_of_mem_unitPlaces hp),
              p.encodeError?_symbolPath (hl language (List.mem_of_find?_eq_some htag)) source⟩

/-- Sound units are numbered to the end, unless ids are structural and the path of their file has no
UTF-8. -/
theorem number_of_isSound {o : Origin} {found : List Found}
    (h : ∀ f ∈ found, f.IsSound o.source) :
    (¬ (o.scheme = .structural ∧ o.filePath.encodeError? ≠ none ∧ found ≠ []) ∧
      ∃ units, number o 0 [] found = .ok units) ∨
    (o.scheme = .structural ∧ o.filePath.encodeError? ≠ none ∧ found ≠ []) ∧
      ∃ e, number o 0 [] found = .error (.encode e) := by
  have hnames : (∀ f ∈ found, o.Names f) ↔
      ¬ (o.scheme = .structural ∧ o.filePath.encodeError? ≠ none ∧ found ≠ []) := by
    constructor
    · rintro hall ⟨hscheme, hpath, hne⟩
      obtain ⟨f, hf⟩ := List.exists_mem_of_ne_nil found hne
      exact hpath (hall f hf hscheme).1
    · intro hno f hf hscheme
      refine ⟨?_, (h f hf).2⟩
      by_contra hpath
      exact hno ⟨hscheme, hpath, List.ne_nil_of_mem hf⟩
  rcases number_of_decode 0 [] fun f hf => (h f hf).1 with
    ⟨hall, hunits⟩ | ⟨hall, herror⟩
  · exact .inl ⟨hnames.1 hall, hunits⟩
  · rw [hnames, not_not] at hall
    exact .inr ⟨hall, herror⟩

/-- There are as many units as were found. -/
theorem exists_cons_number_iff {o : Origin} {found : List Found} {units : List CodeUnit}
    (h : number o 0 [] found = .ok units) :
    (∃ u us, number o 0 [] found = .ok (u :: us)) ↔ found ≠ [] := by
  have hlength := (forall₂_number h).1.length_eq
  rw [h]
  cases units with
  | nil => simp [List.length_eq_zero_iff.1 hlength]
  | cons u us => simp [List.ne_nil_of_length_eq_add_one hlength]

end Extract

/-- The same indexer with ordinal ids. -/
def Indexer.ordinal {σ : Type} (ix : Indexer σ) : Indexer σ :=
  { ix with extraction := { ix.extraction with scheme := .ordinal } }

/-! ## Work that escapes -/

namespace Pass

variable {σ α β : Type}

/-- Work that ends without a report. -/
def Escapes (m : PassM σ α) (r : Report) (w : Workspace σ) : Prop :=
  ∃ e, (exec m r w).1.1 = .error (.escaped e)

/-- Work that tells of all its failures. -/
def Guarded (m : PassM σ α) : Prop := ∀ r w, ¬ Escapes m r w

/-- What comes second can escape after the first has succeeded. -/
theorem escapes_bind_iff {m : PassM σ α} {f : α → PassM σ β} {r : Report} {w : Workspace σ} :
    Escapes (m >>= f) r w ↔ Escapes m r w ∨
      ∃ a r' w', exec m r w = ((.ok a, r'), w') ∧ Escapes (f a) r' w' := by
  unfold Escapes
  rw [exec_bind]
  rcases exec m r w with ⟨⟨answer, r'⟩, w'⟩
  cases answer with
  | error e => simp
  | ok a => simp

theorem escapes_bind_ok {m : PassM σ α} {f : α → PassM σ β} {a : α} {r r' : Report}
    {w w' : Workspace σ} (h : exec m r w = ((.ok a, r'), w')) :
    Escapes (m >>= f) r w ↔ Escapes (f a) r' w' := by
  unfold Escapes
  rw [exec_bind, h]

theorem escapes_bind_error {m : PassM σ α} {f : α → PassM σ β} {x : PassFailure} {r r' : Report}
    {w w' : Workspace σ} (h : exec m r w = ((.error x, r'), w')) :
    Escapes (m >>= f) r w ↔ ∃ e, x = .escaped e := by
  unfold Escapes
  rw [exec_bind, h]
  simp

theorem Guarded.bind {m : PassM σ α} {f : α → PassM σ β} (hm : Guarded m)
    (hf : ∀ a, Guarded (f a)) : Guarded (m >>= f) := by
  intro r w h
  rcases escapes_bind_iff.1 h with h | ⟨a, r', w', -, h⟩
  · exact hm r w h
  · exact hf a r' w' h

theorem escapes_bind_guarded {m : PassM σ α} {f : α → PassM σ β} (hf : ∀ a, Guarded (f a))
    {r : Report} {w : Workspace σ} : Escapes (m >>= f) r w ↔ Escapes m r w := by
  rw [escapes_bind_iff]
  exact or_iff_left fun ⟨a, r', w', _, h⟩ => hf a r' w' h

theorem guarded_pure (a : α) : Guarded (pure a : PassM σ α) := by
  rintro r w ⟨e, h⟩
  rw [exec_pure] at h
  cases h

theorem guarded_note (f : Report → Report) : Guarded (note f : PassM σ Unit) := by
  rintro r w ⟨e, h⟩
  rw [exec_note] at h
  cases h

theorem escapes_note_bind {f : Report → Report} {g : Unit → PassM σ α} {r : Report}
    {w : Workspace σ} : Escapes (note f >>= g) r w ↔ Escapes (g ()) (f r) w := Iff.rfl

/-- Every failure of the index is told. -/
theorem guarded_callIndex (name : Text) (m : IndexM α) :
    Guarded (callIndex name m : PassM σ α) := by
  rintro r w ⟨e, h⟩
  rw [exec_callIndex] at h
  cases hm : (Client.run m w.client).1 with
  | ok a =>
    rw [hm] at h
    cases h
  | error f =>
    rw [hm] at h
    cases f <;> cases h

/-- What comes after a call of the index can escape, if the call succeeds. -/
theorem escapes_callIndex_bind_iff {name : Text} {m : IndexM α} {f : α → PassM σ β} {r : Report}
    {w : Workspace σ} : Escapes (callIndex name m >>= f) r w ↔
      ∃ a c, Client.run m w.client = (.ok a, c) ∧ Escapes (f a) r { w with client := c } := by
  rw [escapes_bind_iff, or_iff_right (guarded_callIndex name m r w), exec_callIndex]
  rcases Client.run m w.client with ⟨answer, c⟩
  constructor
  · rintro ⟨a, r', w', h, he⟩
    cases answer with
    | error f => cases h
    | ok a' =>
      cases h
      exact ⟨a, c, rfl, he⟩
  · rintro ⟨a, c', h, he⟩
    cases h
    exact ⟨a, r, _, rfl, he⟩

/-- The index is not asked to write nothing, which would change nothing. -/
theorem exec_upsert_eq (ix : Indexer σ) (items : List IndexItem) :
    exec (upsert ix items) = exec (callIndex "upsert" (ix.index.upsert items) : PassM σ Unit) := by
  unfold upsert
  cases items with
  | nil => rfl
  | cons item items => rfl

theorem escapes_upsert_bind_iff {ix : Indexer σ} {items : List IndexItem} {f : Unit → PassM σ β}
    {r : Report} {w : Workspace σ} : Escapes (upsert ix items >>= f) r w ↔
      ∃ c, Client.run (ix.index.upsert items) w.client = (.ok (), c) ∧
        Escapes (f ()) r { w with client := c } := by
  have hsame : Escapes (upsert ix items >>= f) r w ↔
      Escapes (callIndex "upsert" (ix.index.upsert items) >>= f) r w := by
    unfold Escapes
    rw [exec_bind, exec_bind, exec_upsert_eq]
  rw [hsame, escapes_callIndex_bind_iff]
  exact ⟨fun ⟨_, c, h⟩ => ⟨c, h⟩, fun ⟨c, h⟩ => ⟨(), c, h⟩⟩

/-! ## Pruning -/

/-- Keys are put in order before they are deleted. -/
theorem escapes_delete_iff {ix : Indexer σ} {keys : List Value} {r : Report} {w : Workspace σ} :
    Escapes (delete ix keys) r w ↔ ¬ Comparable keys := by
  rw [← sortedKeys?_none_iff]
  unfold delete
  cases VectorIndex.sortedKeys? keys with
  | none => exact ⟨fun _ => rfl, fun _ => ⟨_, rfl⟩⟩
  | some sorted =>
    refine ⟨fun h => ?_, nofun⟩
    have hguarded : Guarded (do
        if !sorted.isEmpty then callIndex "delete" (ix.index.delete sorted)
        return keys.length : PassM σ Nat) := by
      dsimp only
      split
      · exact (guarded_callIndex _ _).bind fun _ => guarded_pure _
      · exact guarded_pure _
    exact absurd h (hguarded r w)

theorem escapes_prune_iff {ix : Indexer σ} {file project : Option Text}
    {pick : List Value → Except Escape (List Value)} {r : Report} {w : Workspace σ} :
    Escapes (prune ix file project pick) r w ↔ ∃ stored c,
      Client.run (ix.index.keys (file.map .text) (project.map .text)) w.client = (.ok stored, c) ∧
        ∀ gone, pick stored = .ok gone → ¬ Comparable gone := by
  unfold prune keys
  rw [escapes_callIndex_bind_iff]
  refine exists_congr fun stored => exists_congr fun c => and_congr_right fun _ => ?_
  cases hgone : pick stored with
  | error e =>
    refine ⟨fun _ => nofun, fun _ => ?_⟩
    rw [escapes_bind_error (x := .escaped e) (by rw [exec_lift]; rfl)]
    exact ⟨e, rfl⟩
  | ok gone =>
    rw [escapes_bind_ok (by rw [exec_lift]; rfl),
      escapes_bind_guarded fun _ => guarded_note _, escapes_delete_iff]
    exact ⟨fun h _ heq => Except.ok.inj heq ▸ h, fun h => h gone rfl⟩

/-- Keys that cannot be deleted: there are files that they could belong to and one of them is no
text, or they do not compare. -/
def Refused (files : List Text) (keys : List Value) : Prop :=
  (files ≠ [] ∧ ∃ key ∈ keys, ∀ text, key ≠ .text text) ∨ ¬ Comparable keys

theorem refused_iff {files : List Text} {keys : List Value} : Refused files keys ↔
    ∀ gone, outside files keys = .ok gone → ¬ Comparable gone := by
  unfold Refused
  by_cases hodd : ∃ key ∈ keys, ∀ text, key ≠ .text text
  · by_cases hfiles : files = []
    · have hall : outside files keys = .ok keys := by
        rw [outside_eq, hfiles, List.isEmpty_nil, Bool.true_or, if_pos rfl, Except.ok.injEq,
          List.filter_eq_self]
        intro key _
        cases key <;> rfl
      rw [hall]
      simp [hfiles]
    · have herror : outside files keys = .error .keyWithoutStart :=
        outside_error_iff.2 ⟨rfl, hfiles, hodd⟩
      simp [herror, hfiles, hodd]
  · -- texts have a start, and they compare
    have htexts : ∀ key ∈ keys, ∃ text, key = .text text := by
      intro key hkey
      by_contra hno
      exact hodd ⟨key, hkey, fun text heq => hno ⟨text, heq⟩⟩
    have hcompare : Comparable keys := .inl htexts
    have hstarts : (files.isEmpty || keys.all (·.text?.isSome)) = true := by
      rw [Bool.or_eq_true, List.all_eq_true]
      right
      intro key hkey
      obtain ⟨text, rfl⟩ := htexts key hkey
      rfl
    have hrest : Comparable (keys.filter (isOutside files)) :=
      .inl fun key hkey => htexts key (List.mem_filter.1 hkey).1
    rw [outside_eq, if_pos hstarts]
    simp [hodd, hcompare, hrest]

theorem refused_congr {files files' : List Text} (h : ∀ file, file ∈ files ↔ file ∈ files')
    (keys : List Value) : Refused files keys ↔ Refused files' keys := by
  have hnil : files = [] ↔ files' = [] := by
    simp only [List.eq_nil_iff_forall_not_mem, h]
  unfold Refused
  rw [ne_eq, ne_eq, hnil]

/-! ## Embedding -/

/-- Only a file without units leaves a failure of the embedder untold. -/
theorem itemsOfAnswer_escapes_iff {project now : Text} {units : List CodeUnit}
    {answer : Except EmbedFailure (List Embedding)} :
    (∃ e, itemsOfAnswer project now units answer = .error (.escaped e)) ↔
      units = [] ∧ answer ≠ .ok [] ∧ ∀ e, answer ≠ .error (.service e) := by
  cases units with
  | nil =>
    simp only [true_and]
    cases answer with
    | ok vectors => cases vectors <;> simp [itemsOfAnswer, itemsOf]
    | error f => cases f <;> simp [itemsOfAnswer]
  | cons u units =>
    simp only [reduceCtorEq, false_and, iff_false]
    rintro ⟨e, h⟩
    unfold itemsOfAnswer at h
    split at h
    · cases h
    · cases h
    · split at h
      · cases h
      · cases h

theorem escapes_embedFile_iff {ix : Indexer σ} {units : List CodeUnit} {r : Report}
    {w : Workspace σ} :
    Escapes (embedFile ix units) r w ↔ units = [] ∧ (ix.embedder.ask units w.embedding).1 ≠ .ok [] ∧
      ∀ e, (ix.embedder.ask units w.embedding).1 ≠ .error (.service e) :=
  itemsOfAnswer_escapes_iff

/-- Files with units are embedded, or it is told why not. -/
theorem guarded_embedFiles {ix : Indexer σ} {lists : List (List CodeUnit)}
    (h : ∀ units ∈ lists, units ≠ []) : Guarded (embedFiles ix lists) := by
  induction lists with
  | nil => exact guarded_pure _
  | cons units rest ih =>
    rw [embedFiles_cons]
    refine Guarded.bind ?_ fun _ => (ih fun u hu => h u (List.mem_cons_of_mem _ hu)).bind fun _ =>
      guarded_pure _
    exact fun r w he => h units List.mem_cons_self (escapes_embedFile_iff.1 he).1

theorem escapes_embedFiles_one {ix : Indexer σ} {units : List CodeUnit} {r : Report}
    {w : Workspace σ} : Escapes (embedFiles ix [units]) r w ↔ Escapes (embedFile ix units) r w := by
  rw [embedFiles_cons]
  exact escapes_bind_guarded fun _ =>
    (guarded_embedFiles (List.forall_mem_nil _)).bind fun _ => guarded_pure _

/-! ## Finding units -/

theorem unitsOf_skipped {e : Extract.Error} (hspan : ∀ x, e ≠ .span x)
    (hencode : ∀ x, e ≠ .encode x) : unitsOf (.error e) = .ok (.error e.message) := by
  cases e with
  | span x => exact absurd rfl (hspan x)
  | encode x => exact absurd rfl (hencode x)
  | _ => rfl

theorem extractFile_of_read {ix : Indexer σ} {w : Workspace σ} {path : SourcePath} {file : Text}
    {source : List UInt8} (h : w.disk.read? path.parts = some source) :
    extractFile ix w path file = (unitsOf (Extract.extractBytes Language.catalog w.grammars
      ix.extraction source ((Language.ofFile? path.name).getD "") file)).map (⟨file, ·⟩) := by
  unfold extractFile
  rw [h]
  dsimp only
  cases unitsOf (Extract.extractBytes Language.catalog w.grammars ix.extraction source
    ((Language.ofFile? path.name).getD "") file) <;> rfl

/-- A file with units of which no id can be made: ids are structural, and its path has no UTF-8. -/
structure Unnamed (ix : Indexer σ) (x : Extracted) : Prop where
  scheme : ix.extraction.scheme = .structural
  path : x.file.encodeError? ≠ none
  units : ∃ u units, x.units = .ok (u :: units)

/-- What is found in a file can be seen by ordinal ids, which can always be made. -/
theorem extractFile_escapes_iff {ix : Indexer σ} {w : Workspace σ}
    (hg : Extract.OnBoundaries w.grammars) {path : SourcePath} {file : Text} :
    (∃ e, extractFile ix w path file = .error (.escaped e)) ↔
      ∃ x, extractFile ix.ordinal w path file = .ok x ∧ Unnamed ix x := by
  cases hread : w.disk.read? path.parts with
  | none =>
    unfold extractFile
    rw [hread]
    exact ⟨nofun, nofun⟩
  | some source =>
    rw [extractFile_of_read hread, extractFile_of_read hread]
    rcases Extract.extractBytes_cases hg (fun _ => Language.encodeError?_fallbackToken)
      ix.extraction.strict source ((Language.ofFile? path.name).getD "") with
      hskip | ⟨found, hsound, hnumber⟩
    · obtain ⟨e, he, hspan, hencode⟩ := hskip ix.extraction.scheme file
      obtain ⟨e', he', hspan', hencode'⟩ := hskip .ordinal file
      rw [he, unitsOf_skipped hspan hencode, Indexer.ordinal, he',
        unitsOf_skipped hspan' hencode']
      refine ⟨nofun, ?_⟩
      rintro ⟨x, hx, hno⟩
      cases hx
      obtain ⟨_, _, hunits⟩ := hno.units
      cases hunits
    · obtain ⟨-, units, hunits⟩ | ⟨⟨hordinal, -⟩, -⟩ := Extract.number_of_isSound
        (o := ⟨.ordinal, file, (Language.ofFile? path.name).getD "", source⟩) hsound
      · have hunnamed : (∃ x, (unitsOf (Extract.extractBytes Language.catalog w.grammars
            ix.ordinal.extraction source ((Language.ofFile? path.name).getD "") file)).map
              (Extracted.mk file) = .ok x ∧ Unnamed ix x) ↔
            ix.extraction.scheme = .structural ∧ file.encodeError? ≠ none ∧ found ≠ [] := by
          rw [← Extract.exists_cons_number_iff hunits, hunits, Indexer.ordinal, hnumber, hunits]
          constructor
          · rintro ⟨x, hx, hscheme, hpath, u, us, hcons⟩
            cases hx
            cases hcons
            exact ⟨hscheme, hpath, u, us, rfl⟩
          · rintro ⟨hscheme, hpath, u, us, hcons⟩
            cases hcons
            exact ⟨_, rfl, hscheme, hpath, u, us, rfl⟩
        rw [hunnamed]
        have hresult := hnumber ix.extraction.scheme file
        rcases Extract.number_of_isSound (o := ⟨ix.extraction.scheme, file,
          (Language.ofFile? path.name).getD "", source⟩) hsound with
          ⟨hno, us, hus⟩ | ⟨hyes, e, he⟩
        · rw [hresult.trans hus]
          exact ⟨nofun, fun h => absurd h hno⟩
        · rw [hresult.trans he]
          exact ⟨fun _ => hyes, fun _ => ⟨_, rfl⟩⟩
      · cases hordinal

theorem relative_error_iff (ix : Indexer σ) {disk : Disk} {path : SourcePath} :
    (∃ e, ix.relative disk path = .error e) ↔ ∃ e, disk.resolve path = .error e := by
  unfold Indexer.relative withoutLinks
  cases disk.resolve path with
  | ok p => exact ⟨nofun, nofun⟩
  | error e => exact ⟨fun _ => ⟨e, rfl⟩, fun _ => ⟨_, rfl⟩⟩

theorem inspect_escapes_iff {ix : Indexer σ} {w : Workspace σ}
    (hg : Extract.OnBoundaries w.grammars) {path : SourcePath} :
    (∃ e, inspect ix w path = .error (.escaped e)) ↔ (∃ e, w.disk.resolve path = .error e) ∨
      ∃ x, inspect ix.ordinal w path = .ok x ∧ Unnamed ix x := by
  rw [← relative_error_iff ix]
  have hsame : ix.ordinal.relative w.disk path = ix.relative w.disk path := rfl
  unfold inspect
  rw [hsame]
  cases ix.relative w.disk path with
  | error e => simp
  | ok file => simp [extractFile_escapes_iff hg]

theorem escapes_scan_iff {ix : Indexer σ} {globs : List Text} {limit : Int}
    (hc : Scan.WellTyped ix.config globs limit) {r : Report} {w : Workspace σ} :
    Escapes (scan ix) r w ↔ w.disk.stat ix.root.parts = .error .tooLong ∨
      ∃ path k e, Scan.Meets w.disk (Scan.sourceRules globs limit) ix.root path k ∧
        Scan.Blocked w.disk (ix.root.parts ++ path) k e := by
  rw [← Scan.files_lookup_iff (Scan.total_sourceRules globs limit)]
  unfold Escapes
  rw [exec_scan, sourcePaths, Scan.sources_eq hc]
  have hends := Scan.files_ends (d := w.disk) (Scan.total_sourceRules globs limit) ix.root
  cases hf : Scan.files w.disk ix.root (.ok (Scan.sourceRules globs limit)) with
  | ok rels => exact ⟨nofun, nofun⟩
  | error f =>
    rw [hf] at hends
    cases f with
    | source e => exact ⟨nofun, nofun⟩
    | setting e => cases hends
    | lookup e => exact ⟨fun _ => ⟨e, rfl⟩, fun _ => ⟨.lookup e, rfl⟩⟩

/-- Below a direct root on a plain disk, a source file has a path without links. -/
theorem exists_resolve_source {ix : Indexer σ} {globs : List Text} {limit : Int}
    (hc : Scan.WellTyped ix.config globs limit) {w : Workspace σ} (hd : w.disk.IsPlain)
    (hroot : w.disk.Direct ix.root.parts) {paths : List SourcePath}
    (hs : sourcePaths ix w = .ok paths) {path : SourcePath} (hp : path ∈ paths) :
    ∃ p, w.disk.resolve path = .ok p := by
  unfold sourcePaths at hs
  rw [Scan.sources_eq hc] at hs
  have hends := Scan.files_ends (d := w.disk) (Scan.total_sourceRules globs limit) ix.root
  cases hf : Scan.files w.disk ix.root (.ok (Scan.sourceRules globs limit)) with
  | error f =>
    rw [hf] at hs
    cases hs
  | ok rels =>
    rw [hf] at hs hends
    cases hs
    obtain ⟨rel, hrel, rfl⟩ := List.mem_map.1 hp
    cases hends with
    | listed hall =>
      obtain ⟨k, size, hm, hsize⟩ := hall rel hrel
      exact Scan.resolve_of_meets hd hroot hm hsize ix.root.root

/-! ## What is not told -/

/-- The path of a job that covers one file. -/
def Job.path? : Job → Option SourcePath
  | .full => none
  | .file path | .remove path => some path

/-- The keys in the scope of a job, as the index lists them. -/
def Job.listing (ix : Indexer σ) (w : Workspace σ) : Job → Option (IndexM (List Value))
  | .full => some (ix.index.keys none (some (.text ix.project)))
  | .file path | .remove path =>
    (ix.relative w.disk (ix.absolute path)).toOption.map fun file =>
      ix.index.keys (some (.text file)) none

/-- A job comes to prune: what it found is written, and then the stored keys are listed. -/
structure Job.Prunes (job : Job) (ix : Indexer σ) (w : Workspace σ) (xs : List Extracted)
    (items : List IndexItem) (stored : List Value) : Prop where
  prunes : job.prunes ix xs = true
  inspected : job.inspected ix w = .ok xs
  embedded : (ix.embedder.pairs (job.lists xs) w.embedding).map
    (·.map (itemOf ix.project w.now)) = some items
  listed : ∃ m written after, job.listing ix w = some m ∧
    Client.run (ix.index.upsert items) w.client = (.ok (), written) ∧
    Client.run m written = (.ok stored, after)

/-- What a job does not tell of:

* the path of the project is too long to be looked up;
* the scan meets a link that turns in a circle, goes through a file or is too long;
* a source file has no path without links, which takes a disk that is not plain or a root that is
  not direct;
* a file has units of which no structural id can be made;
* the file of the job has no path without links, or its path is too long to be looked up;
* the embedder fails in a way of its own on a file without units, or gives it vectors;
* files were skipped, and a stored key that was not found again is no text;
* the stored keys that were not found again do not compare. -/
inductive Job.Untold (ix : Indexer σ) (w : Workspace σ) (rules : Scan.Rules) : Job → Prop
  | longRoot (h : w.disk.stat ix.root.parts = .error .tooLong) : Untold ix w rules .full
  | link {path : List Text} {k : FileNode} {e : LookupError}
    (hm : Scan.Meets w.disk rules ix.root path k)
    (hb : Scan.Blocked w.disk (ix.root.parts ++ path) k e) : Untold ix w rules .full
  | source {before after : List SourcePath} {path : SourcePath} {e : Disk.ResolveError}
    (hodd : ¬ (w.disk.IsPlain ∧ w.disk.Direct ix.root.parts))
    (hs : sourcePaths ix w = .ok (before ++ path :: after))
    (hbefore : ∀ p ∈ before, ∃ x, inspect ix w p = .ok x)
    (he : w.disk.resolve path = .error e) : Untold ix w rules .full
  | unnamedSource {before after : List SourcePath} {path : SourcePath} {x : Extracted}
    (hs : sourcePaths ix w = .ok (before ++ path :: after))
    (hbefore : ∀ p ∈ before, ∃ x, inspect ix w p = .ok x)
    (hx : inspect ix.ordinal w path = .ok x) (hno : Unnamed ix x) : Untold ix w rules .full
  | path {job : Job} {path : SourcePath} {e : Disk.ResolveError} (hj : job.path? = some path)
    (he : w.disk.resolve (ix.absolute path) = .error e) : Untold ix w rules job
  | longPath {path : SourcePath} {e : LookupError}
    (hl : (Language.ofFile? (ix.absolute path).name).isSome = true)
    (he : w.disk.isFile (ix.absolute path).parts = .error e) : Untold ix w rules (.file path)
  | unnamed {path : SourcePath} {x : Extracted}
    (hx : inspectOne ix.ordinal w (ix.absolute path) = .ok [x]) (hno : Unnamed ix x) :
    Untold ix w rules (.file path)
  | noUnits {path : SourcePath} {file : Text}
    (hi : inspectOne ix w (ix.absolute path) = .ok [⟨file, .ok []⟩])
    (hv : (ix.embedder.ask [] w.embedding).1 ≠ .ok [])
    (hs : ∀ e, (ix.embedder.ask [] w.embedding).1 ≠ .error (.service e)) :
    Untold ix w rules (.file path)
  | keyStart {xs : List Extracted} {items : List IndexItem} {stored : List Value} {key : Value}
    (hp : Job.full.Prunes ix w xs items stored) (hskipped : skippedOf xs ≠ [])
    (hkey : key ∈ stale stored items) (hno : ∀ text, key ≠ .text text) : Untold ix w rules .full
  | keyOrder {job : Job} {xs : List Extracted} {items : List IndexItem} {stored : List Value}
    (hp : job.Prunes ix w xs items stored) (hno : ¬ Comparable (stale stored items)) :
    Untold ix w rules job

/-! ## The full pass -/

/-- Embedding goes through if every file gets its vectors. -/
theorem exec_embedFiles_of_pairs {ix : Indexer σ} {lists : List (List CodeUnit)}
    {ps : List (CodeUnit × Embedding)} {w : Workspace σ}
    (h : ix.embedder.pairs lists w.embedding = some ps) (r : Report) :
    ∃ s, exec (embedFiles ix lists) r w =
      ((.ok (ps.map (itemOf ix.project w.now)), r), { w with embedding := s }) := by
  rcases hx : exec (embedFiles ix lists) r w with ⟨⟨answer, r'⟩, w'⟩
  obtain ⟨rfl, ⟨s, rfl⟩, ⟨ps', hps, rfl⟩ | ⟨f, -, -, hnone⟩⟩ := exec_embedFiles hx
  · rw [h] at hps
    cases hps
    exact ⟨s, rfl⟩
  · rw [h] at hnone
    cases hnone

theorem escapes_pruneProject_iff {ix : Indexer σ} {items : List IndexItem} {r : Report}
    {w : Workspace σ} : Escapes (pruneProject ix items) r w ↔ ∃ stored c,
      Client.run (ix.index.keys none (some (.text ix.project))) w.client = (.ok stored, c) ∧
        Refused (r.skippedFiles.map (·.1)) (stale stored items) := by
  have hsame : Escapes (pruneProject ix items) r w ↔ Escapes (prune ix none (some ix.project)
      fun stored => outside (r.skippedFiles.map (·.1)) (stale stored items)) r w := by
    unfold Escapes
    rw [exec_pruneProject]
  rw [hsame, escapes_prune_iff]
  simp only [refused_iff]
  rfl

/-- Once its items are made, a full pass escapes only while it prunes. -/
theorem escapes_full_rest_iff {ix : Indexer σ} {items : List IndexItem} {total : Nat} {r : Report}
    {w : Workspace σ} : Escapes (do
        upsert ix items
        note fun r => { r with unitsIndexed := items.length }
        if ix.pruneStale then pruneProject ix items
        step .turn do
          tell ⟨total, total, none, .indexed⟩
          return .ok () : PassM σ Unit) r w ↔
      ∃ written, Client.run (ix.index.upsert items) w.client = (.ok (), written) ∧
        ix.pruneStale = true ∧ ∃ stored after,
          Client.run (ix.index.keys none (some (.text ix.project))) written = (.ok stored, after) ∧
            Refused (r.skippedFiles.map (·.1)) (stale stored items) := by
  have hlast : Guarded (step .turn (do
      tell ⟨total, total, none, .indexed⟩
      return .ok ()) : PassM σ Unit) := by
    rintro r w ⟨e, he⟩
    rw [exec_step] at he
    cases he
  rw [escapes_upsert_bind_iff]
  refine exists_congr fun written => and_congr_right fun _ => ?_
  rw [escapes_note_bind]
  cases ix.pruneStale with
  | true =>
    rw [if_pos rfl, escapes_bind_guarded fun _ => hlast, escapes_pruneProject_iff]
    exact (and_iff_right rfl).symm
  | false =>
    rw [if_neg Bool.false_ne_true]
    exact iff_of_false (hlast _ _) nofun

/-- Once its units are found, a full pass escapes only if it comes to prune. -/
theorem escapes_full_found_iff {ix : Indexer σ} {w : Workspace σ} {xs : List Extracted}
    (hxs : survey ix w = .ok xs) {total : Nat} {events : List Progress} {r : Report}
    (hskipped : ∀ file, file ∈ r.skippedFiles.map (·.1) ↔ file ∈ skippedOf xs) : Escapes (do
        let items ← embedFiles ix (filled (unitLists xs))
        upsert ix items
        note fun r => { r with unitsIndexed := items.length }
        if ix.pruneStale then pruneProject ix items
        step .turn do
          tell ⟨total, total, none, .indexed⟩
          return .ok () : PassM σ Unit) r { w with events := events } ↔
      ∃ xs items stored, Job.full.Prunes ix w xs items stored ∧
        Refused (skippedOf xs) (stale stored items) := by
  constructor
  · intro h
    rcases escapes_bind_iff.1 h with h | ⟨items, r', w', hx, h⟩
    · have hfilled : ∀ units ∈ filled (unitLists xs), units ≠ [] := by
        rintro _ hu rfl
        cases (List.mem_filter.1 hu).2
      exact absurd h (guarded_embedFiles hfilled _ _)
    · obtain ⟨rfl, ⟨s, rfl⟩, ⟨ps, hps, hitems⟩ | ⟨f, hf, -⟩⟩ := exec_embedFiles hx
      · cases hitems
        obtain ⟨written, hu, hprune, stored, after, hk, hrefused⟩ := escapes_full_rest_iff.1 h
        exact ⟨xs, _, stored, ⟨hprune, hxs, Option.map_eq_some_iff.2 ⟨ps, hps, rfl⟩, _, written,
          after, rfl, hu, hk⟩, (refused_congr hskipped _).1 hrefused⟩
      · cases hf
  · rintro ⟨xs', items, stored,
      ⟨hprune, hinspected, hembedded, m, written, after, hm, hu, hk⟩, hrefused⟩
    cases hm
    obtain rfl : xs' = xs := Except.ok.inj (hinspected.symm.trans hxs)
    obtain ⟨ps, hps, rfl⟩ := Option.map_eq_some_iff.1 hembedded
    have hps : ix.embedder.pairs (filled (unitLists xs')) w.embedding = some ps := hps
    obtain ⟨s, hs⟩ := @exec_embedFiles_of_pairs _ ix _ _ { w with events := events } hps r
    rw [escapes_bind_ok hs, escapes_full_rest_iff]
    exact ⟨written, hu, hprune, stored, after, hk, (refused_congr hskipped _).2 hrefused⟩

/-- A full pass escapes while it scans, extracts or prunes. -/
theorem escapes_fullSteps_iff {ix : Indexer σ} {w : Workspace σ} :
    Escapes (fullSteps ix) (.start ix.project .full) w ↔
      Escapes (scan ix) (.start ix.project .full) w ∨
      (∃ paths e, sourcePaths ix w = .ok paths ∧ paths.mapM (inspect ix w) = .error (.escaped e)) ∨
      ∃ xs items stored, Job.full.Prunes ix w xs items stored ∧
        Refused (skippedOf xs) (stale stored items) := by
  unfold fullSteps
  cases hp : sourcePaths ix w with
  | error f =>
    have hnone : ¬ ∃ xs items stored, Job.full.Prunes ix w xs items stored ∧
        Refused (skippedOf xs) (stale stored items) := by
      rintro ⟨xs, items, stored, h, -⟩
      have hxs : survey ix w = .ok xs := h.inspected
      rw [survey, hp] at hxs
      cases hxs
    rw [escapes_bind_error (by rw [exec_scan, hp]), or_iff_left]
    · unfold Escapes
      rw [exec_scan, hp]
      simp
    · rintro (⟨paths, e, hpaths, -⟩ | h)
      · cases hpaths
      · exact hnone h
  | ok paths =>
    have hscan : ¬ Escapes (scan ix) (.start ix.project .full) w := by
      rintro ⟨e, he⟩
      rw [exec_scan, hp] at he
      cases he
    rw [escapes_bind_ok (by rw [exec_scan, hp]), or_iff_right hscan, escapes_note_bind]
    rcases hx : exec (extractAll ix 0 paths.length paths)
      { Report.start ix.project .full with filesScanned := paths.length } w with ⟨⟨answer, r'⟩, w'⟩
    obtain ⟨rfl, ⟨xs, hxs, rfl, rfl⟩ | ⟨f, hf, rfl⟩⟩ := exec_extractAll hx
    · rw [escapes_bind_ok hx, or_iff_right]
      · refine escapes_full_found_iff (by rw [survey, hp]; exact hxs) fun file => ?_
        rw [mem_skippedFiles]
        exact or_iff_right List.not_mem_nil
      · rintro ⟨paths', e, hpaths, he⟩
        cases hpaths
        rw [hxs] at he
        cases he
    · rw [escapes_bind_error hx, or_iff_left]
      · constructor
        · rintro ⟨e, rfl⟩
          exact ⟨paths, e, rfl, hf⟩
        · rintro ⟨paths', e, hpaths, he⟩
          cases hpaths
          exact ⟨e, Except.error.inj (hf.symm.trans he)⟩
      · rintro ⟨xs, items, stored, h, -⟩
        have hxs : survey ix w = .ok xs := h.inspected
        rw [survey, hp] at hxs
        cases hf.symm.trans hxs

/-- What a full pass does not tell of. -/
theorem escapes_full_iff {ix : Indexer σ} {globs : List Text} {limit : Int}
    (hc : Scan.WellTyped ix.config globs limit) {w : Workspace σ}
    (hg : Extract.OnBoundaries w.grammars) :
    Escapes (fullSteps ix) (.start ix.project .full) w ↔
      Job.full.Untold ix w (Scan.sourceRules globs limit) := by
  rw [escapes_fullSteps_iff, escapes_scan_iff hc]
  constructor
  · rintro ((h | ⟨path, k, e, hm, hb⟩) | ⟨paths, e, hp, he⟩ | ⟨xs, items, stored, hprunes, hrefused⟩)
    · exact .longRoot h
    · exact .link hm hb
    · obtain ⟨before, path, after, rfl, hbefore, hpath⟩ := mapM_error_iff.1 he
      rcases (inspect_escapes_iff hg).1 ⟨e, hpath⟩ with ⟨e, he⟩ | ⟨x, hx, hno⟩
      · refine .source ?_ hp hbefore he
        rintro ⟨hd, hroot⟩
        obtain ⟨p, hok⟩ := exists_resolve_source hc hd hroot hp (by simp : path ∈ _)
        rw [he] at hok
        cases hok
      · exact .unnamedSource hp hbefore hx hno
    · rcases hrefused with ⟨hskipped, key, hkey, hno⟩ | hno
      · exact .keyStart hprunes hskipped hkey hno
      · exact .keyOrder hprunes hno
  · rintro (h | ⟨hm, hb⟩ | ⟨-, hs, hbefore, he⟩ | ⟨hs, hbefore, hx, hno⟩ | ⟨hj, -⟩ | _ | _ | _ |
      ⟨hp, hskipped, hkey, hno⟩ | ⟨hp, hno⟩)
    · exact .inl (.inl h)
    · exact .inl (.inr ⟨_, _, _, hm, hb⟩)
    · obtain ⟨e, he⟩ := (inspect_escapes_iff hg).2 (.inl ⟨_, he⟩)
      exact .inr (.inl ⟨_, e, hs, mapM_error_iff.2 ⟨_, _, _, rfl, hbefore, he⟩⟩)
    · obtain ⟨e, he⟩ := (inspect_escapes_iff hg).2 (.inr ⟨_, hx, hno⟩)
      exact .inr (.inl ⟨_, e, hs, mapM_error_iff.2 ⟨_, _, _, rfl, hbefore, he⟩⟩)
    · cases hj
    · exact .inr (.inr ⟨_, _, _, hp, .inl ⟨hskipped, _, hkey, hno⟩⟩)
    · exact .inr (.inr ⟨_, _, _, hp, .inr hno⟩)

/-! ## The passes over one file -/

theorem escapes_pruneFile_iff {ix : Indexer σ} {file : Text} {items : List IndexItem} {r : Report}
    {w : Workspace σ} : Escapes (pruneFile ix file items) r w ↔ ∃ stored c,
      Client.run (ix.index.keys (some (.text file)) none) w.client = (.ok stored, c) ∧
        ¬ Comparable (stale stored items) := by
  have hsame : Escapes (pruneFile ix file items) r w ↔
      Escapes (prune ix (some file) none fun stored => .ok (stale stored items)) r w := by
    unfold Escapes
    rw [exec_pruneFile]
  rw [hsame, escapes_prune_iff]
  simp only [Except.ok.injEq, forall_eq']
  rfl

/-- A removal fails untold if the path cannot be told or the stored keys do not compare. -/
theorem escapes_remove_iff {ix : Indexer σ} {path : SourcePath} {rules : Scan.Rules} {r : Report}
    {w : Workspace σ} :
    Escapes (removeSteps ix path) r w ↔ (Job.remove path).Untold ix w rules := by
  have hsame : removeSteps ix path = locate ix path >>= fun file => pruneFile ix file [] := by
    simp only [removeSteps, pruneFile, stale_nil]
  rw [hsame]
  cases hrel : ix.relative w.disk (ix.absolute path) with
  | error e =>
    obtain ⟨e', he⟩ := (relative_error_iff ix).1 ⟨e, hrel⟩
    rw [escapes_bind_error (x := .escaped e) (by rw [exec_locate, hrel]; rfl)]
    exact iff_of_true ⟨e, rfl⟩ (.path rfl he)
  | ok file =>
    rw [escapes_bind_ok (by rw [exec_locate, hrel]; rfl), escapes_pruneFile_iff]
    constructor
    · rintro ⟨stored, after, hk, hno⟩
      have hp : (Job.remove path).Prunes ix w [] [] stored :=
        ⟨rfl, rfl, rfl, _, w.client, after, by rw [Job.listing, hrel]; rfl, rfl, hk⟩
      exact .keyOrder hp hno
    · rintro (_ | _ | _ | _ | ⟨hj, he⟩ | _ | _ | _ | _ | ⟨hp, hno⟩)
      · cases hj
        obtain ⟨e, he⟩ := (relative_error_iff ix).2 ⟨_, he⟩
        rw [hrel] at he
        cases he
      · obtain ⟨-, hinspected, hembedded, m, written, after, hm, hu, hk⟩ := hp
        cases hinspected
        cases hembedded
        rw [Job.listing, hrel] at hm
        cases hm
        cases hu
        exact ⟨_, after, hk, hno⟩

/-- The items of a file are written, and then the keys that are stored for the file and were not
found again do not compare. -/
def Uncompared (ix : Indexer σ) (w : Workspace σ) (file : Text) (items : List IndexItem) : Prop :=
  ∃ written, Client.run (ix.index.upsert items) w.client = (.ok (), written) ∧
    ix.pruneStale = true ∧ ∃ stored after,
      Client.run (ix.index.keys (some (.text file)) none) written = (.ok stored, after) ∧
        ¬ Comparable (stale stored items)

/-- Once the items of a file are made, storing them escapes only while it prunes. -/
theorem escapes_store_rest_iff {ix : Indexer σ} {file : Text} {items : List IndexItem} {r : Report}
    {w : Workspace σ} : Escapes (do
        upsert ix items
        note fun r => { r with filesIndexed := 1, unitsIndexed := items.length }
        if ix.pruneStale then pruneFile ix file items) r w ↔ Uncompared ix w file items := by
  rw [escapes_upsert_bind_iff]
  refine exists_congr fun written => and_congr_right fun _ => ?_
  rw [escapes_note_bind]
  cases ix.pruneStale with
  | true =>
    rw [if_pos rfl, escapes_pruneFile_iff]
    exact (and_iff_right rfl).symm
  | false =>
    rw [if_neg Bool.false_ne_true]
    exact iff_of_false (guarded_pure _ _ _) nofun

/-- Storing the units of a file fails untold in the embedder, or if the stored keys do not
compare. -/
theorem escapes_store_iff {ix : Indexer σ} {file : Text} {units : List CodeUnit} {r : Report}
    {w : Workspace σ} : Escapes (store ix file units) r w ↔ Escapes (embedFile ix units) r w ∨
      ∃ items, (ix.embedder.pairs [units] w.embedding).map
        (·.map (itemOf ix.project w.now)) = some items ∧ Uncompared ix w file items := by
  unfold store
  rw [escapes_bind_iff, escapes_embedFiles_one]
  refine or_congr_right ⟨?_, ?_⟩
  · rintro ⟨items, r', w', hx, h⟩
    obtain ⟨rfl, ⟨s, rfl⟩, ⟨ps, hps, hitems⟩ | ⟨f, hf, -⟩⟩ := exec_embedFiles hx
    · cases hitems
      have hrest := escapes_store_rest_iff.1 h
      exact ⟨_, Option.map_eq_some_iff.2 ⟨ps, hps, rfl⟩, hrest⟩
    · cases hf
  · rintro ⟨items, hembedded, h⟩
    obtain ⟨ps, hps, rfl⟩ := Option.map_eq_some_iff.1 hembedded
    obtain ⟨s, hs⟩ := exec_embedFiles_of_pairs hps r
    exact ⟨_, _, _, hs, escapes_store_rest_iff.2 h⟩

/-- The pass over one file comes to prune if it finds units in the file. -/
theorem prunes_file_iff {ix : Indexer σ} {path : SourcePath} {w : Workspace σ} :
    (∃ xs items stored, (Job.file path).Prunes ix w xs items stored ∧
      ¬ Comparable (stale stored items)) ↔
    ∃ file units, ix.relative w.disk (ix.absolute path) = .ok file ∧
      inspectOne ix w (ix.absolute path) = .ok [⟨file, .ok units⟩] ∧
      ∃ items, (ix.embedder.pairs [units] w.embedding).map
        (·.map (itemOf ix.project w.now)) = some items ∧ Uncompared ix w file items := by
  constructor
  · rintro ⟨xs, items, stored,
      ⟨hprune, hinspected, hembedded, m, written, after, hm, hu, hk⟩, hno⟩
    obtain ⟨file, hrel, rfl | ⟨x, rfl, hx⟩⟩ := inspectOne_ok hinspected
    · simp [Job.prunes] at hprune
    · obtain ⟨rfl, -⟩ := extractFile_ok hx
      rw [Job.listing, hrel] at hm
      cases hm
      rcases x with ⟨file, reason | units⟩
      · simp [Job.prunes, Except.toOption] at hprune
      · have hstale : ix.pruneStale = true := (Bool.and_eq_true_iff.1 hprune).1
        exact ⟨file, units, hrel, hinspected, items, hembedded, written, hu, hstale, stored,
          after, hk, hno⟩
  · rintro ⟨file, units, hrel, hx, items, hembedded, written, hu, hprune, stored, after, hk, hno⟩
    exact ⟨_, items, stored, ⟨Bool.and_eq_true_iff.2 ⟨hprune, rfl⟩, hx, hembedded, _, written,
      after, by rw [Job.listing, hrel]; rfl, hu, hk⟩, hno⟩

/-- The pass over one file fails untold while it inspects the file, asks the embedder or prunes. -/
theorem escapes_fileSteps_iff {ix : Indexer σ} {path : SourcePath} {r : Report} {w : Workspace σ} :
    Escapes (fileSteps ix path) r w ↔
      (∃ e, inspectOne ix w (ix.absolute path) = .error (.escaped e)) ∨
      (∃ x, inspectOne ix w (ix.absolute path) = .ok [x] ∧ x.units = .ok [] ∧
        (ix.embedder.ask [] w.embedding).1 ≠ .ok [] ∧
        ∀ e, (ix.embedder.ask [] w.embedding).1 ≠ .error (.service e)) ∨
      ∃ xs items stored, (Job.file path).Prunes ix w xs items stored ∧
        ¬ Comparable (stale stored items) := by
  have hmiss : ∀ r, ¬ Escapes (note fun r => { r with skipped := true } : PassM σ Unit) r w :=
    fun r => guarded_note _ r w
  rw [prunes_file_iff]
  unfold fileSteps inspectOne
  cases hrel : ix.relative w.disk (ix.absolute path) with
  | error e =>
    rw [escapes_bind_error (by rw [exec_locate, hrel]; rfl)]
    simp
  | ok file =>
    rw [escapes_bind_ok (by rw [exec_locate, hrel]; rfl)]
    dsimp only
    by_cases hl : (Language.ofFile? (ix.absolute path).name).isSome = true
    · rw [if_pos hl]
      cases hf : w.disk.isFile (ix.absolute path).parts with
      | error e =>
        rw [escapes_bind_error (by rw [exec_isSource, if_pos hl, hf]; rfl)]
        simp
      | ok present =>
        rw [escapes_bind_ok (by rw [exec_isSource, if_pos hl, hf]; rfl)]
        cases present with
        | false => simp [hmiss]
        | true =>
          rw [if_pos rfl, escapes_note_bind]
          cases hx : extractFile ix w (ix.absolute path) file with
          | error x =>
            rw [escapes_bind_error (by rw [exec_extractOne, hx])]
            simp [Except.map]
          | ok x =>
            obtain ⟨rfl, -⟩ := extractFile_ok hx
            rw [escapes_bind_ok (by rw [exec_extractOne, hx])]
            cases hu : x.units with
            | error reason =>
              have hskip : ¬ Escapes
                  (note fun r => { r.skipFile x.file reason with skipped := true } : PassM σ Unit)
                  { r with filesScanned := 1 } w := guarded_note _ _ _
              refine iff_of_false hskip ?_
              rintro (⟨e, he⟩ | ⟨y, hy, hempty, -⟩ | ⟨file, units, -, hy, -⟩)
              · cases he
              · cases hy
                rw [hu] at hempty
                cases hempty
              · cases hy
                cases hu
            | ok units =>
              rw [escapes_store_iff, escapes_embedFile_iff]
              constructor
              · rintro (⟨rfl, hv, hs⟩ | hrest)
                · exact .inr (.inl ⟨x, rfl, hu, hv, hs⟩)
                · obtain ⟨file, _⟩ := x
                  cases hu
                  exact .inr (.inr ⟨file, units, rfl, rfl, hrest⟩)
              · rintro (⟨e, he⟩ | ⟨y, hy, hempty, hv, hs⟩ | ⟨file, us, -, hy, hrest⟩)
                · cases he
                · cases hy
                  rw [hu] at hempty
                  cases hempty
                  exact .inl ⟨rfl, hv, hs⟩
                · cases hy
                  cases hu
                  exact .inr hrest
    · rw [if_neg hl, escapes_bind_ok (by rw [exec_isSource, if_neg hl])]
      simp [hmiss]

/-- Inspecting one file fails untold if its path cannot be told or looked up, or if it has units of
which no id can be made. -/
theorem inspectOne_escapes_iff {ix : Indexer σ} {w : Workspace σ}
    (hg : Extract.OnBoundaries w.grammars) {path : SourcePath} :
    (∃ e, inspectOne ix w path = .error (.escaped e)) ↔ (∃ e, w.disk.resolve path = .error e) ∨
      ((Language.ofFile? path.name).isSome = true ∧ ∃ e, w.disk.isFile path.parts = .error e) ∨
      ∃ x, inspectOne ix.ordinal w path = .ok [x] ∧ Unnamed ix x := by
  rw [← relative_error_iff ix]
  have hsame : ix.ordinal.relative w.disk path = ix.relative w.disk path := rfl
  unfold inspectOne
  rw [hsame]
  cases ix.relative w.disk path with
  | error e => simp
  | ok file =>
    by_cases hl : (Language.ofFile? path.name).isSome = true
    · cases w.disk.isFile path.parts with
      | error e => simp [hl]
      | ok present =>
        cases present with
        | false => simp [hl]
        | true =>
          have hleft : (∃ e, (extractFile ix w path file).map ([·]) = .error (.escaped e)) ↔
              ∃ e, extractFile ix w path file = .error (.escaped e) := by
            cases extractFile ix w path file <;> simp [Except.map]
          have hright : (∃ x, (extractFile ix.ordinal w path file).map ([·]) = .ok [x] ∧
              Unnamed ix x) ↔ ∃ x, extractFile ix.ordinal w path file = .ok x ∧ Unnamed ix x := by
            cases extractFile ix.ordinal w path file <;> simp [Except.map]
          simp [hl, hleft, hright, extractFile_escapes_iff hg]
    · simp [hl]

/-- What the pass over one file does not tell of. -/
theorem escapes_file_iff {ix : Indexer σ} {path : SourcePath} {rules : Scan.Rules} {r : Report}
    {w : Workspace σ} (hg : Extract.OnBoundaries w.grammars) :
    Escapes (fileSteps ix path) r w ↔ (Job.file path).Untold ix w rules := by
  rw [escapes_fileSteps_iff, inspectOne_escapes_iff hg]
  constructor
  · rintro ((⟨e, he⟩ | ⟨hl, e, he⟩ | ⟨x, hx, hno⟩) | ⟨⟨file, _⟩, hi, rfl, hv, hs⟩ |
      ⟨xs, items, stored, hp, hno⟩)
    · exact .path rfl he
    · exact .longPath hl he
    · exact .unnamed hx hno
    · exact .noUnits hi hv hs
    · exact .keyOrder hp hno
  · rintro (_ | _ | _ | _ | ⟨hj, he⟩ | ⟨hl, he⟩ | ⟨hx, hno⟩ | ⟨hi, hv, hs⟩ | _ | ⟨hp, hno⟩)
    · cases hj
      exact .inl (.inl ⟨_, he⟩)
    · exact .inl (.inr (.inl ⟨hl, _, he⟩))
    · exact .inl (.inr (.inr ⟨_, hx, hno⟩))
    · exact .inr (.inl ⟨_, hi, rfl, hv, hs⟩)
    · exact .inr (.inr ⟨_, _, _, hp, hno⟩)

/-! ## Reports -/

/-- A job ends with a report unless it escapes. -/
theorem reports_iff {job : Job} {ix : Indexer σ} {w : Workspace σ} :
    (∃ report, (job.run ix w).1 = .ok report) ↔
      ¬ Escapes (job.steps ix) (.start ix.project job.mode) w := by
  have hescapes : Escapes (job.steps ix) (.start ix.project job.mode) w ↔
      ∃ e, job.failure? ix w = some (.escaped e) := by
    unfold Escapes Job.failure?
    cases (exec (job.steps ix) (.start ix.project job.mode) w).1.1 with
    | ok _ => exact ⟨nofun, nofun⟩
    | error f => simp
  rw [hescapes]
  rcases hrun : job.run ix w with ⟨result, w'⟩
  obtain ⟨answer, report, -, -, ⟨-, rfl, hf⟩ | ⟨f, -, rfl, hf⟩⟩ := Job.run_cases hrun
  · simp [hf]
  · cases f with
    | reported e => simp [hf, PassFailure.result]
    | escaped e => simp [hf, PassFailure.result]

/-- A job ends with a report exactly if nothing happens that it does not tell of. The settings are
well-typed and every node of a syntax tree covers whole characters. -/
theorem job_reports_iff {job : Job} {ix : Indexer σ} {w : Workspace σ} {globs : List Text}
    {limit : Int} (hc : Scan.WellTyped ix.config globs limit)
    (hg : Extract.OnBoundaries w.grammars) :
    (∃ report, (job.run ix w).1 = .ok report) ↔
      ¬ job.Untold ix w (Scan.sourceRules globs limit) := by
  rw [reports_iff]
  cases job with
  | full => exact not_congr (escapes_full_iff hc hg)
  | file path => exact not_congr (escapes_file_iff hg)
  | remove path => exact not_congr escapes_remove_iff

namespace Sample

theorem wellTyped (name : Text) : Scan.WellTyped (indexer name).config [] 0 :=
  ⟨⟨.list [], rfl, rfl⟩, .int 0, rfl, rfl⟩

theorem onBoundaries : Extract.OnBoundaries grammars := by
  rintro name parse ⟨⟩ source text htext t ht
  simp only [ParseTree.preorder, ParseTree.preorders, List.mem_singleton] at ht
  subst ht
  refine ⟨text, ?_⟩
  have hlength : ¬ (source.length : Int) < 0 := by omega
  have hall : byteSlice source 0 source.length = source := by simp [byteSlice, bytePlace, hlength]
  exact (congrArg Utf8.decode hall).trans htext

/-- The project `a` with one file, which is a link. -/
def linked (target : Text) : Workspace Unit :=
  { workspace (.fresh (.text "code")) with
    disk := ⟨.folder [("a", .folder [("m.py", .link target)])], [], [], []⟩ }

/-- The project `a` with one file, which is empty. -/
def blank : Workspace Unit :=
  { workspace (.fresh (.text "code")) with
    disk := ⟨.folder [("a", .folder [("m.py", .file [])])], [], [], []⟩ }

/-- An indexer whose embedder always fails. -/
def failing : Indexer Unit :=
  { indexer "a" with embedder := ⟨false, fun _ => pure (.error (.stray "out of memory"))⟩ }

end Sample

/-- A link that leads nowhere is passed over, one that leads to itself ends the scan. -/
theorem links_told_or_untold :
    ¬ Job.full.Untold (Sample.indexer "a") (Sample.linked "n.py") (Scan.sourceRules [] 0) ∧
      Job.full.Untold (Sample.indexer "a") (Sample.linked "m.py") (Scan.sourceRules [] 0) := by
  constructor
  · have hs : succeeded (Job.full.run (Sample.indexer "a") (Sample.linked "n.py")).1 = true := by
      decide +kernel
    obtain ⟨report, hrun, -⟩ := Job.exists_report hs
    exact (job_reports_iff (Sample.wellTyped "a") Sample.onBoundaries).1 ⟨report, by rw [hrun]⟩
  · by_contra h
    obtain ⟨report, hrun⟩ := (job_reports_iff (Sample.wellTyped "a") Sample.onBoundaries).2 h
    have he : (Job.full.run (Sample.indexer "a") (Sample.linked "m.py")).1 =
      .error (.lookup .loop) := by decide +kernel
    rw [he] at hrun
    cases hrun

/-- A link to itself ends a full pass and a pass over it without a report, and so does a failure of
the embedder on a file without units. -/
theorem failures_escape :
    (Job.full.run (Sample.indexer "a") (Sample.linked "m.py")).1 = .error (.lookup .loop) ∧
      ((Job.file (Sample.path "m.py")).run (Sample.indexer "a") (Sample.linked "m.py")).1 =
        .error (.circularPath "/a/m.py") ∧
      ((Job.file (Sample.path "m.py")).run Sample.failing Sample.blank).1 = .error .noUnits := by
  decide +kernel

end Pass

end CodeAtlas
