import EtlPlatform.Proofs.ServedTick

/-!
# The batch size does not matter

An undisturbed run reads the rows it has before it in pages of the batch size.
When the transforms treat rows one by one, nothing of what the run leaves shows
how the rows were cut: a platform with other batch sizes comes to the same
tables, the same history and the same statuses.
-/

namespace EtlPlatform

open Library

/-! ## Transforms that treat rows one by one -/

section RowByRow

/-- What the function returns for a list is what it returns for its parts. -/
structure TransformFn.RowByRow (fn : TransformFn) : Prop where
  nil : (fn []).rows = []
  append : ∀ rows rows', (fn (rows ++ rows')).rows = (fn rows).rows ++ (fn rows').rows

theorem NoOpTransformer_rowByRow :
    TransformFn.RowByRow NoOpTransformer :=
  ⟨rfl, fun _ _ => rfl⟩

/-- The tasks runners stop at an empty list, which row by row they would only pass on. -/
theorem rowByRow_applyTransforms
    {fns : List TransformFn} (h : ∀ fn ∈ fns, TransformFn.RowByRow fn) :
    TransformFn.RowByRow (applyTransforms fns) := by
  induction fns with
  | nil =>
      exact ⟨rfl, fun _ _ => rfl⟩
  | cons fn fns ih =>
      have hfn := h fn List.mem_cons_self
      have hrest := ih fun f hf => h f (List.mem_cons_of_mem _ hf)
      have heq : ∀ rows, (applyTransforms (fn :: fns) rows).rows =
          (applyTransforms fns (fn rows).rows).rows := by
        intro rows
        simp only [applyTransforms]
        split_ifs with hnil
        · rw [hnil, hrest.nil]
        · rfl
      refine ⟨by rw [heq, hfn.nil, hrest.nil], fun rows rows' => ?_⟩
      rw [heq, heq, heq, hfn.append, hrest.append]

end RowByRow

/-! ## Loops that treat rows one by one -/

section Loops

variable {P : Type} [DecidableEq P] {w : World} {p : P} {pl : PipelineSnapshot}
variable {bl : BatchLoop P}

/-- What a runner transforms with: its transformer, or the functions of its tasks. -/
def TransformsWith (w : World) (transform : List Row → Except Exc Transformed) : Prop :=
  (∃ tr : Transformer, transform = tr.transform w.modules) ∨
    ∃ fns, (∀ fn ∈ fns, ∃ path, w.modules path = .ok fn) ∧
      transform = fun rows => .ok (applyTransforms fns rows)

/-- What the loop of a runner transforms and writes with. -/
structure BatchLoop.Parts (bl : BatchLoop P) (w : World) : Prop where
  transform : TransformsWith w bl.transform
  write : ∃ (wr : Writer) (target : String), bl.write = wr.write w.storeRow target

omit [DecidableEq P] in
theorem parts_of_fullPlan
    {plan : FullRuns.FullPlan} {next : ℕ → List Row → ℕ} (h : TransformsWith w plan.transform) :
    (plan.loop w next : BatchLoop P).Parts w :=
  ⟨h, plan.writer, plan.target, rfl⟩

omit [DecidableEq P] in
theorem parts_of_incrementalPlan
    {plan : IncrementalPlan} (h : TransformsWith w plan.transform) :
    (plan.loop w p).Parts w :=
  ⟨h, plan.writer, plan.target, rfl⟩

theorem parts_of_run_body
    (h : _run_body w p pl = .ok bl) :
    bl.Parts w := by
  have hloaded : ∀ {q : PipelineSnapshot} {fns : List TransformFn}, loadTransforms w q = .ok fns →
      ∀ fn ∈ fns, ∃ path, w.modules path = .ok fn := by
    intro q fns hfns fn hfn
    obtain ⟨t, -, ht⟩ := mem_of_mapM hfns hfn
    exact ⟨t.body, ht⟩
  unfold _run_body at h
  split_ifs at h with htasks
  · obtain ⟨snap, -, h⟩ := bind_eq_ok_iff.mp h
    split at h
    · obtain ⟨reader, rest, fns, -, hfns, rfl⟩ := FullRuns.run_tasks_full_eq_ok h
      exact parts_of_fullPlan (Or.inr ⟨fns, hloaded hfns, rfl⟩)
    · obtain ⟨reader, rest, fns, -, hfns, rfl⟩ := run_tasks_incremental_eq_ok h
      exact parts_of_incrementalPlan (Or.inr ⟨fns, hloaded hfns, rfl⟩)
  · split at h
    · obtain ⟨tr, -, rfl⟩ := FullRuns.run_sql_full_pipeline_eq_ok h
      exact parts_of_fullPlan (Or.inl ⟨tr, rfl⟩)
    · obtain ⟨tr, -, rfl⟩ := run_sql_incremental_pipeline_eq_ok h
      exact parts_of_incrementalPlan (Or.inl ⟨tr, rfl⟩)

omit [DecidableEq P] in
/-- **A loop treats rows one by one if the modules do.** -/
theorem BatchLoop.Parts.elementwise
    (h : bl.Parts w) (hmodules : ∀ path fn, w.modules path = .ok fn → TransformFn.RowByRow fn)
    (hruns : ∃ items, bl.items [] = .ok items) :
    Elementwise bl.items := by
  -- the transform is one function that raises nothing
  obtain ⟨fn, hfn, htransform⟩ : ∃ fn : TransformFn, TransformFn.RowByRow fn ∧
      ∀ rows, bl.transform rows = .ok (fn rows) := by
    rcases h.transform with ⟨tr, htr⟩ | ⟨fns, hloaded, hfns⟩
    · cases tr with
      | noOp =>
          exact ⟨NoOpTransformer, NoOpTransformer_rowByRow, fun rows => by rw [htr]; rfl⟩
      | pythonCallable path =>
          obtain ⟨items, hitems⟩ := hruns
          obtain ⟨res, hres, -⟩ := bind_eq_ok_iff.mp hitems
          rw [htr] at hres
          obtain ⟨fn, hmod, -⟩ := bind_eq_ok_iff.mp hres
          refine ⟨fn, hmodules path fn hmod, fun rows => ?_⟩
          rw [htr, Transformer.transform, hmod]
          rfl
    · refine ⟨applyTransforms fns, rowByRow_applyTransforms fun fn hfn => ?_,
        fun rows => by rw [hfns]⟩
      obtain ⟨path, hmod⟩ := hloaded fn hfn
      exact hmodules path fn hmod
  obtain ⟨wr, target, hwrite⟩ := h.write
  have hitems : ∀ rows items, bl.items rows = .ok items ↔
      (fn rows).rows.mapM (wr.item w.storeRow target) = .ok items := by
    intro rows items
    rw [BatchLoop.items, htransform, ← Writer.write_eq_ok_iff, ← hwrite]
    change bl.itemsOf (fn rows).rows = _ ↔ _
    unfold BatchLoop.itemsOf
    split_ifs with hnil
    · rw [hnil, hwrite, Writer.write_nil]
    · rfl
  have hmap := elementwise_mapM (wr.item w.storeRow target)
  refine ⟨?_, fun {l l' bs bs'} h h' => ?_⟩
  · rw [hitems, hfn.nil]
    exact hmap.nil
  · rw [hitems] at h h' ⊢
    rw [hfn.append]
    exact hmap.append h h'

/-! ## Another batch size -/

/-- The configurations differ in their batch sizes only, as far as the runners look at them. -/
structure SameButSize (pl pl' : PipelineSnapshot) : Prop where
  mode : pl'.mode = pl.mode
  tasks : pl'.tasks = pl.tasks
  source_query : pl'.source_query = pl.source_query
  target_table : pl'.target_table = pl.target_table
  incremental_key : pl'.incremental_key = pl.incremental_key
  incremental_id_key : pl'.incremental_id_key = pl.incremental_id_key
  transformer : resolve_transformer pl' = resolve_transformer pl

/-- What remains of the loop of a runner when its batch size is changed. -/
def SameParts (bl : BatchLoop P) (body : Except Exc (BatchLoop P)) : Prop :=
  ∃ bl', body = .ok bl' ∧ bl'.transform = bl.transform ∧ bl'.write = bl.write

variable {pl' : PipelineSnapshot}

omit [DecidableEq P] in
theorem SameButSize.run_sql_full_pipeline
    (hsame : SameButSize pl pl')
    (h : (EtlPlatform.run_sql_full_pipeline w pl : Except Exc (BatchLoop P)) = .ok bl) :
    SameParts bl (EtlPlatform.run_sql_full_pipeline w pl') := by
  simp only [EtlPlatform.run_sql_full_pipeline, check_eq_ok_iff, bind_eq_ok_iff,
    pure_eq_ok_iff] at h
  obtain ⟨hmode, hquery, tr, htr, rfl⟩ := h
  simp only [SameParts, EtlPlatform.run_sql_full_pipeline, hsame.mode, hsame.source_query,
    hsame.transformer, hsame.target_table, check_eq_ok_iff, bind_eq_ok_iff, pure_eq_ok_iff]
  exact ⟨_, ⟨hmode, hquery, tr, htr, rfl⟩, rfl, rfl⟩

theorem SameButSize.run_sql_incremental_pipeline
    (hsame : SameButSize pl pl')
    (h : EtlPlatform.run_sql_incremental_pipeline w p pl = .ok bl) :
    SameParts bl (EtlPlatform.run_sql_incremental_pipeline w p pl') := by
  simp only [EtlPlatform.run_sql_incremental_pipeline, check_eq_ok_iff, bind_eq_ok_iff,
    pure_eq_ok_iff] at h
  obtain ⟨hmode, hquery, hkey, inc_key, hinc, id_key, hid, tr, htr, rfl⟩ := h
  simp only [SameParts, EtlPlatform.run_sql_incremental_pipeline, hsame.mode, hsame.source_query,
    hsame.incremental_key, hsame.incremental_id_key, hsame.transformer, hsame.target_table,
    check_eq_ok_iff, bind_eq_ok_iff, pure_eq_ok_iff]
  exact ⟨_, ⟨hmode, hquery, hkey, inc_key, hinc, id_key, hid, tr, htr, rfl⟩, rfl, rfl⟩

theorem SameButSize.finalTarget_eq
    (hsame : SameButSize pl pl') :
    finalTarget pl' = finalTarget pl := by
  rw [finalTarget, finalTarget, hsame.tasks, hsame.target_table]

theorem SameButSize.loadTransforms_eq
    (hsame : SameButSize pl pl') (w : World) :
    loadTransforms w pl' = loadTransforms w pl := by
  rw [loadTransforms, loadTransforms, hsame.tasks]

omit [DecidableEq P] in
theorem SameButSize.run_tasks_full
    (hsame : SameButSize pl pl')
    (h : (EtlPlatform.run_tasks_full w pl : Except Exc (BatchLoop P)) = .ok bl) :
    SameParts bl (EtlPlatform.run_tasks_full w pl') := by
  unfold EtlPlatform.run_tasks_full at h ⊢
  rw [hsame.tasks]
  split at h
  · cases h
  · simp only [check_eq_ok_iff, bind_eq_ok_iff, pure_eq_ok_iff] at h
    obtain ⟨hallowed, fns, hfns, rfl⟩ := h
    rw [hsame.finalTarget_eq, hsame.loadTransforms_eq]
    generalize finalTarget pl = target at hallowed ⊢
    simp only [SameParts, check_eq_ok_iff, bind_eq_ok_iff, pure_eq_ok_iff]
    exact ⟨_, ⟨hallowed, fns, hfns, rfl⟩, rfl, rfl⟩

theorem SameButSize.run_tasks_incremental
    (hsame : SameButSize pl pl')
    (h : EtlPlatform.run_tasks_incremental w p pl = .ok bl) :
    SameParts bl (EtlPlatform.run_tasks_incremental w p pl') := by
  unfold EtlPlatform.run_tasks_incremental at h ⊢
  rw [hsame.tasks]
  split at h
  · cases h
  · simp only [check_eq_ok_iff, bind_eq_ok_iff, pure_eq_ok_iff] at h
    obtain ⟨hmode, hkey, inc_key, hinc, id_key, hid, hallowed, fns, hfns, rfl⟩ := h
    rw [hsame.finalTarget_eq, hsame.loadTransforms_eq]
    generalize finalTarget pl = target at hallowed ⊢
    simp only [SameParts, hsame.mode, hsame.incremental_key, hsame.incremental_id_key,
      check_eq_ok_iff, bind_eq_ok_iff, pure_eq_ok_iff]
    exact ⟨_, ⟨hmode, hkey, inc_key, hinc, id_key, hid, hallowed, fns, hfns, rfl⟩, rfl, rfl⟩

/-- The plan check does not look at the batch size. -/
theorem SameButSize.validate_tasks_v1
    (hsame : SameButSize pl pl') (hne : pl.tasks ≠ []) {snap : PipelineSnapshot}
    (h : EtlPlatform.validate_tasks_v1 pl = .ok snap) :
    ∃ snap', EtlPlatform.validate_tasks_v1 pl' = .ok snap' ∧ SameButSize snap snap' := by
  obtain ⟨hplan, rfl⟩ := (validate_tasks_v1_eq_ok_iff hne).mp h
  have hsorted : tasksSorted pl' = tasksSorted pl := by
    rw [tasksSorted, tasksSorted, hsame.tasks]
  have hplan' : V1Plan pl' := by
    constructor
    · exact hsame.tasks ▸ hplan.distinct
    · exact hsame.tasks ▸ hplan.bodies
    · exact hsame.tasks ▸ hplan.reader
    · exact hsame.tasks ▸ hplan.transforms
    · exact hsame.tasks ▸ hplan.overrides
    · rw [hsame.tasks, hsame.target_table]
      exact hplan.allowed
  refine ⟨_, (validate_tasks_v1_eq_ok_iff (hsame.tasks ▸ hne)).mpr ⟨hplan', rfl⟩, ?_⟩
  exact ⟨hsame.mode, hsorted, hsame.source_query, hsame.target_table, hsame.incremental_key,
    hsame.incremental_id_key, hsame.transformer⟩

/-- **Another batch size changes nothing but the pages.** -/
theorem SameButSize.run_body
    (hsame : SameButSize pl pl') (h : _run_body w p pl = .ok bl) :
    SameParts bl (_run_body w p pl') := by
  unfold _run_body at h ⊢
  rw [hsame.tasks]
  split_ifs at h ⊢ with htasks
  · obtain ⟨snap, hvalid, h⟩ := bind_eq_ok_iff.mp h
    obtain ⟨snap', hvalid', hsnap⟩ := hsame.validate_tasks_v1 htasks hvalid
    rw [hvalid']
    dsimp only [bind, Except.bind]
    rw [hsnap.mode]
    cases hmode : snap.mode with
    | full =>
        rw [hmode] at h
        exact hsnap.run_tasks_full h
    | incremental =>
        rw [hmode] at h
        exact hsnap.run_tasks_incremental h
  · rw [hsame.mode]
    cases hmode : pl.mode with
    | full =>
        rw [hmode] at h
        exact hsame.run_sql_full_pipeline h
    | incremental =>
        rw [hmode] at h
        exact hsame.run_sql_incremental_pipeline h

end Loops

/-! ## Platforms with other batch sizes -/

section Platforms

variable {ι P : Type} [DecidableEq ι] [DecidableEq P]

/-- The same database, but for the batch sizes of the pipelines. -/
def Db.resized (size : P → ℕ) (db : Db P) : Db P :=
  { db with pipelines := fun p => { db.pipelines p with batch_size := size p } }

/-- The same platform, but for the batch sizes of the pipelines. -/
def Sys.resized (size : P → ℕ) (s : Sys ι P) : Sys ι P :=
  { s with db := s.db.resized size }

variable {w : World} {db : Db P} {p : P} {bl : BatchLoop P} {size : P → ℕ}

omit [DecidableEq P] in
theorem sameButSize_resized
    (size : P → ℕ) (db : Db P) (p : P) :
    SameButSize (db.config p) ((db.resized size).config p) :=
  ⟨rfl, rfl, rfl, rfl, rfl, rfl, rfl⟩

omit [DecidableEq P] in
theorem due_resized
    (size : P → ℕ) (w : World) (db : Db P) (p : P) :
    (db.resized size).due w p = db.due w p :=
  rfl

omit [DecidableEq P] in
theorem BatchLoop.items_congr
    {bl' : BatchLoop P} (htransform : bl'.transform = bl.transform)
    (hwrite : bl'.write = bl.write) :
    bl'.items = bl.items := by
  funext rows
  simp only [BatchLoop.items, BatchLoop.itemsOf, htransform, hwrite]

/-- A pipeline that can run can run with other pages. -/
theorem Runnable.resized
    (h : Runnable w db p bl) (size : P → ℕ) :
    ∃ bl', Runnable w (db.resized size) p bl' ∧ bl'.items = bl.items := by
  obtain ⟨bl', hbody, htransform, hwrite⟩ := (sameButSize_resized size db p).run_body h.body
  have hitems := BatchLoop.items_congr htransform hwrite
  refine ⟨bl', ⟨hbody, h.source, fun rows hrows => ?_, fun hmode => ?_⟩, hitems⟩
  · rw [hitems]
    exact h.accepts rows hrows
  · obtain ⟨htable, hstate, hpure⟩ := h.incremental hmode
    refine ⟨htable, hstate, fun rows res hres => ?_⟩
    rw [htransform] at hres
    exact hpure rows res hres

omit [DecidableEq P] in
/-- **The pages are not seen** in what a run writes. -/
theorem Writes.flatten_eq
    {written : List (List Item)} (h : Writes w db p bl written)
    (helementwise : Elementwise bl.items) :
    bl.items (db.due w p) = .ok written.flatten :=
  helementwise.of_pages (batchSizeOr_pos _) h

/-- Every run writes the same, whatever the batch sizes. -/
theorem Servable.resized
    {items : P → List Item} {todo : List (P × PipelineStatus)}
    (h : Servable w db items todo) (size : P → ℕ)
    (hmodules : ∀ path fn, w.modules path = .ok fn → TransformFn.RowByRow fn) :
    Servable w (db.resized size) items todo where
  once := h.once
  listed := h.listed
  runnable := by
    intro x hx hrun
    obtain ⟨bl, written, hbl, hwrites, hflat⟩ := h.runnable x hx hrun
    obtain ⟨bl', hbl', hitems⟩ := hbl.resized size
    obtain ⟨v, written', v', -, hruns, -, -⟩ := hbl'.exhausts
    have hwrites' : Writes w (db.resized size) x.1 bl' written' := hruns.items_eq
    have helementwise : Elementwise bl.items :=
      (parts_of_run_body hbl.body).elementwise hmodules (hbl.accepts [] (List.nil_subset _))
    have hwhole := hwrites'.flatten_eq (hitems ▸ helementwise)
    rw [hitems, due_resized, hwrites.flatten_eq helementwise] at hwhole
    exact ⟨bl', written', hbl', hwrites', (Except.ok.inj hwhole).symm.trans hflat⟩

/-- A turn does the same to both databases. -/
theorem turn_resized
    (items : P → List Item) (db : Db P) (x : P × PipelineStatus) :
    (db.resized size).turn w items x = (db.turn w items x).resized size := by
  have hset : ∀ (p : P) (status : PipelineStatus),
      (db.resized size).setStatus p status = (db.setStatus p status).resized size := by
    intro p status
    simp only [Db.setStatus, Db.setPipeline, Db.resized, Db.mk.injEq, true_and, and_true]
    funext q
    by_cases hq : q = p
    · subst hq
      simp
    · simp [hq]
  obtain ⟨p, status⟩ := x
  cases status with
  | RUN_REQUESTED =>
      change (db.resized size).served w p (items p) = (db.served w p (items p)).resized size
      rw [Db.served, Db.served, Db.completed, hset]
      rfl
  | PAUSE_REQUESTED =>
      change (db.resized size).apply_pause_requested p = (db.apply_pause_requested p).resized size
      rw [Db.apply_pause_requested, Db.apply_pause_requested, Db.updateStatus, Db.updateStatus,
        hset]
      exact (apply_ite (Db.resized size) _ _ _).symm
  | _ =>
      rfl

/--
**The batch size is invisible.**  If the transforms treat rows one by one, two
platforms that differ in the batch sizes of their pipelines, and in which the
requested pipelines can run, come out of an undisturbed tick with the same
tables, the same checkpoints, the same history with the same counters, and the
same statuses.
-/
theorem batch_size_is_invisible
    {w : World} {s : Sys ι P} {i : ι} (size : P → ℕ)
    (hmax : 1 ≤ w.max_attempts)
    (hpc : (s.procs i).pc = .started ∨ (s.procs i).pc = .polling)
    (hmodules : ∀ path fn, w.modules path = .ok fn → TransformFn.RowByRow fn)
    (hrunnable : ∀ p, (s.db.pipelines p).enabled = true → s.db.status p = .RUN_REQUESTED →
      ∃ bl, Runnable w s.db p bl) :
    ∃ (n m : ℕ) (t : Sys ι P),
      exec (Sys.step w) s (List.replicate n (.runner i .ok)) = some t ∧
      exec (Sys.step w) (s.resized size) (List.replicate m (.runner i .ok)) =
        some (t.resized size) ∧
      (t.procs i).pc = .polling := by
  obtain ⟨written, hwritten⟩ := exists_written hrunnable
  have hservable := servable_get_active hwritten
  have htick : ∀ db : Db P,
      procStep w db (s.procs i) .ok = some (db, ⟨.tick db.get_active, []⟩) := by
    intro db
    rcases hpc with hpc | hpc <;> simp [procStep, hpc]
  have hleads := (Leads.step (htick s.db)).trans (Leads.turns hservable hmax)
  have hleads' := (Leads.step (htick (s.db.resized size))).trans
    (Leads.turns (hservable.resized size hmodules) hmax)
  have hturns : s.db.get_active.foldl (Db.turn w fun p => (written p).flatten) (s.db.resized size) =
      (s.db.get_active.foldl (Db.turn w fun p => (written p).flatten) s.db).resized size :=
    List.foldl_hom (Db.resized size) (fun db x => turn_resized _ db x)
  rw [show (s.db.resized size).get_active = s.db.get_active from rfl, hturns] at hleads'
  obtain ⟨n, hexec⟩ := hleads.exec_eq (s := s) rfl rfl
  obtain ⟨m, hexec'⟩ := hleads'.exec_eq (s := s.resized size) rfl rfl
  exact ⟨n, m, _, hexec, hexec', by simp⟩

/-- Three films, two a page and one a page. -/
theorem batch_size_is_invisible_three_films :
    ∃ (n m : ℕ) (t : Sys Unit Unit),
      exec (Sys.step World.plain) threeFilmsRequested (List.replicate n (.runner () .ok)) = some t ∧
      exec (Sys.step World.plain) (threeFilmsRequested.resized fun _ => 1)
        (List.replicate m (.runner () .ok)) = some (t.resized fun _ => 1) ∧
      (t.procs ()).pc = .polling :=
  batch_size_is_invisible (fun _ => 1) (by decide) (Or.inr rfl) (by rintro path fn ⟨⟩)
    (fun _ _ _ => runnable_threeFilms)

end Platforms

end EtlPlatform
