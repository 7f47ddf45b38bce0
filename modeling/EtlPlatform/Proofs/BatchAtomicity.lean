import EtlPlatform.Model.Deployment
import EtlPlatform.Proofs.BatchRule
import EtlPlatform.Proofs.IncrementalPlan

/-!
# A batch and its checkpoint are committed together

An incremental run in front of a PostgreSQL target puts the upserts of a batch
and the checkpoint of its last row into one session.  Whatever raises between
the first of these statements and the commit, and however often the run is
attempted, paused or killed, the committed sink and the committed checkpoints
are those of whole batches: each was read where the checkpoint before it
stands, its items are all in the sink, and its own checkpoint is stored.
-/

namespace EtlPlatform

open Library
open IncrementalPlan

section BatchAtomicity

variable {P : Type} [DecidableEq P]

/-- A batch of `p`, read after `c` from one of the sources in `V`. -/
def BatchOf (w : World) (cfg : P → PipelineSnapshot) (V : Source → Prop) (p : P)
    (c : Option Cursor) (items : List Item) (c' : Cursor) : Prop :=
  ∃ (plan : IncrementalPlan) (src : Source),
    _run_body w p (cfg p) = .ok (plan.loop w p) ∧ V src ∧ plan.Batch w src c items c'

/--
Checkpoints and sink after whole batches, in order: each batch continues from
the stored checkpoint of its pipeline, upserts all of its items, and stores the
checkpoint of its last row.
-/
inductive Delivered
    (batch : P → Option Cursor → List Item → Cursor → Prop)
    (e₀ : P → Option EtlState) (k₀ : Sink) : (P → Option EtlState) → Sink → Prop
  | start : Delivered batch e₀ k₀ e₀ k₀
  | batch {e : P → Option EtlState} {k : Sink} {p : P} {c : Option Cursor}
      {items : List Item} {c' : Cursor} :
      Delivered batch e₀ k₀ e k →
      StandsAt (e p) c →
      batch p c items c' →
      Delivered batch e₀ k₀ (Function.update e p (some (encodeState c'))) (applyItems k items)

/-- The rows a loop holds between its batch query and the commit. -/
structure Fetched (w : World) (cfg : P → PipelineSnapshot) (V : Source → Prop) (p : P)
    (plan : IncrementalPlan) (c : Option Cursor) (rows : List Row) : Prop where
  runs : _run_body w p (cfg p) = .ok (plan.loop w p)
  read : ∃ src, V src ∧ incrementalBatch w.collation src plan.base plan.inc_key plan.id_key c
    plan.limit = .ok rows
  nonempty : rows ≠ []

/-- What the loop of `p` has in hand at each of its await points. -/
def InFlight (w : World) (cfg : P → PipelineSnapshot) (V : Source → Prop) (p : P)
    (st : Store P) (ws : List (Write P)) : LoopPc → Prop
  | .fetch v => StandsAt (st.etl_state p) v.cursor
  | .transform v rows =>
      StandsAt (st.etl_state p) v.cursor ∧ ∃ plan, Fetched w cfg V p plan v.cursor rows
  | .write v rows res =>
      StandsAt (st.etl_state p) v.cursor ∧
        ∃ plan, Fetched w cfg V p plan v.cursor rows ∧ plan.transform rows = .ok res
  | .advance v rows left _ =>
      StandsAt (st.etl_state p) v.cursor ∧ left = rows ∧
        ∃ plan res items, Fetched w cfg V p plan v.cursor rows ∧ plan.transform rows = .ok res ∧
          plan.writer.write w.storeRow plan.target res.rows = .ok items ∧
          ws = items.map .upsert
  | .commit v =>
      ∃ c items c', StandsAt (st.etl_state p) c ∧ BatchOf w cfg V p c items c' ∧
        ws = items.map .upsert ++ [.state p (encodeState c')] ∧ v.cursor = some c'
  | _ => False

/-- Committing a batch with its checkpoint. -/
theorem commit_batch
    (st : Store P) (items : List Item) (p : P) (e : EtlState) :
    st.commit (items.map .upsert ++ [.state p e]) =
      { source := st.source
        etl_state := Function.update st.etl_state p (some e)
        sink := applyItems st.sink items } := by
  rw [Store.commit_append, Store.commit_upserts, Store.commit_state]

/-- Two descriptions of the loop that runs for `p` agree. -/
theorem plan_loop_eq
    {w : World} {pl : PipelineSnapshot} {p : P} {bl : BatchLoop P} {plan : IncrementalPlan}
    (hruns : _run_body w p pl = .ok bl) (hplan : _run_body w p pl = .ok (plan.loop w p)) :
    bl = plan.loop w p :=
  Except.ok.inj (hruns.symm.trans hplan)

variable {w : World} {cfg : P → PipelineSnapshot}

/-- Every loop of an incremental pipeline is the loop of a plan. -/
theorem exists_runs_plan
    (hmode : ∀ p, (cfg p).mode = .incremental) {p : P} {bl : BatchLoop P}
    (hruns : _run_body w p (cfg p) = .ok bl) :
    ∃ plan : IncrementalPlan, bl = plan.loop w p ∧
      _run_body w p (cfg p) = .ok (plan.loop w p) := by
  obtain ⟨plan, rfl, -⟩ := exists_plan hruns (hmode p)
  exact ⟨plan, rfl, hruns⟩

/-- **Batches are atomic, statement by statement.** -/
def atomicity (V : Source → Prop) (e₀ : P → Option EtlState) (k₀ : Sink)
    (hmode : ∀ p, (cfg p).mode = .incremental)
    (hpostgres : ∀ p bl, _run_body w p (cfg p) = .ok bl → bl.transactional = true)
    (hpure : ∀ p bl, _run_body w p (cfg p) = .ok bl → bl.Pure) :
    BatchInvariant (fun p bl => _run_body w p (cfg p) = .ok bl) (fun _ src => V src) where
  idle st := Delivered (BatchOf w cfg V) e₀ k₀ st.etl_state st.sink ∧ V st.source
  holds p st ws pc :=
    (Delivered (BatchOf w cfg V) e₀ k₀ st.etl_state st.sink ∧ V st.source) ∧
      InFlight w cfg V p st ws pc
  idle_of_holds _ _ _ _ h := h.1
  idle_source _ _ h hsrc := ⟨h.1, hsrc⟩
  holds_source := by
    rintro p st ws pc src ⟨⟨hdel, -⟩, hflight⟩ hsrc
    refine ⟨⟨hdel, hsrc⟩, ?_⟩
    cases pc <;> exact hflight
  setup := by
    rintro p bl st v hruns hidle hsetup
    obtain ⟨plan, rfl, -⟩ := exists_runs_plan hmode hruns
    exact ⟨hidle, Or.inl (setup_eq_ok hsetup)⟩
  query := by
    rintro p bl st v rows hruns ⟨hidle, hstands⟩ hquery hne
    obtain ⟨plan, rfl, hplan⟩ := exists_runs_plan hmode hruns
    exact ⟨hidle, hstands, plan, hplan, ⟨st.source, hidle.2, hquery⟩, hne⟩
  transform := by
    rintro p bl st v rows res hruns ⟨hidle, hstands, plan, hfetched⟩ hres
    obtain rfl := plan_loop_eq hruns hfetched.runs
    exact ⟨hidle, hstands, plan, hfetched, hres⟩
  skip := by
    rintro p st v rows res ⟨hidle, hstands, plan, hfetched, hres⟩ hnil
    refine ⟨hidle, hstands, hpure p _ hfetched.runs rows res hres,
      plan, res, [], hfetched, hres, ?_, rfl⟩
    rw [hnil, Writer.write_nil]
  session := by
    rintro p bl st v rows res items hruns ⟨hidle, hstands, plan, hfetched, hres⟩ - hwrite -
    obtain rfl := plan_loop_eq hruns hfetched.runs
    exact ⟨hidle, hstands, hpure p _ hfetched.runs rows res hres,
      plan, res, items, hfetched, hres, hwrite, rfl⟩
  direct := by
    rintro p bl st v rows res items hruns - - - hdirect
    rw [hpostgres p bl hruns] at hdirect
    cases hdirect
  interrupted := by
    rintro p bl st v rows res items part hruns - - - hdirect
    rw [hpostgres p bl hruns] at hdirect
    cases hdirect
  advance := by
    rintro p bl st ws v v' rows left n ws' hruns
      ⟨hidle, hstands, rfl, plan, res, items, hfetched, hres, hwrite, rfl⟩ hadv
    obtain rfl := plan_loop_eq hruns hfetched.runs
    obtain ⟨c', htail, hcursor, rfl⟩ := advanceIncremental_eq_ok hadv
    obtain ⟨hplan, ⟨src, hsrc, hread⟩, hne⟩ := hfetched
    exact ⟨hidle, v.cursor, items, c', hstands,
      ⟨plan, src, hplan, hsrc, .mk hread hne hres hwrite htail⟩, rfl, hcursor⟩
  commit := by
    rintro p st ws v ⟨⟨hdel, hV⟩, c, items, c', hstands, hbatch, rfl, hcursor⟩
    rw [commit_batch]
    refine ⟨⟨.batch hdel hstands hbatch, hV⟩, ?_⟩
    rw [InFlight, hcursor]
    simp only [Function.update_self]
    exact standsAt_encodeState c'

/--
**Batch atomicity.**  A single runner works on incremental pipelines in front of
PostgreSQL targets, with pure transforms.  Whichever statements raise or lose
the connection, the committed checkpoints and the committed sink are those of
whole batches of sources in `V`, as long as the source stays in `V` and no
pipeline is reconfigured.
-/
theorem batches_committed_with_checkpoint
    {w : World} {s₀ s : Sys Unit P} {V : Source → Prop}
    (hmode : ∀ p, (s₀.db.pipelines p).mode = .incremental)
    (hpostgres : ∀ p bl, _run_body w p (s₀.db.config p) = .ok bl → bl.transactional = true)
    (hpure : ∀ p bl, _run_body w p (s₀.db.config p) = .ok bl → bl.Pure)
    (hrest : s₀.Resting)
    (hV : V s₀.db.store.source)
    (h : Reach (Sys.step w) (fun s => s = s₀) (fun s e => e.keepsConfig (fun _ src => V src) s) s) :
    Delivered (BatchOf w s₀.db.config V) s₀.db.store.etl_state s₀.db.store.sink
      s.db.store.etl_state s.db.store.sink :=
  ((atomicity V s₀.db.store.etl_state s₀.db.store.sink hmode hpostgres hpure).inv_of_reach
    (fun _ _ hruns => hruns) hrest ⟨.start, hV⟩ h).idle.1

/-- The commit of the only batch fails once, and succeeds in the second attempt. -/
theorem batches_committed_with_checkpoint_second_attempt :
    ∃ s : Sys Unit Unit, s.db.store.sink filmCell ≠ none ∧ s.db.store.etl_state () ≠ none ∧
      s.db.runs.length = 2 ∧
      Delivered (BatchOf World.plain
          (Db.single (filmPipeline .incremental 2 .RUN_REQUESTED) [filmExample]).config
          (fun _ => True))
        (fun _ => none) (fun _ => none) s.db.store.etl_state s.db.store.sink := by
  have hrun : ∃ s : Sys Unit Unit,
      Reach (Sys.step World.plain)
        (fun s => s = Sys.polling
          (Db.single (filmPipeline .incremental 2 .RUN_REQUESTED) [filmExample]))
        (fun s e => e.keepsConfig (fun _ _ => True) s) s ∧
      s.db.store.sink filmCell ≠ none ∧ s.db.store.etl_state () ≠ none ∧
      s.db.runs.length = 2 :=
    Reach.exists_of_replay
      (Sys.polling (Db.single (filmPipeline .incremental 2 .RUN_REQUESTED) [filmExample]))
      (List.replicate 10 (.runner () .ok) ++
        [.runner () (.raise (statementError "SerializationError" "could not serialize access"))] ++
        List.replicate 12 (.runner () .ok))
      rfl (by decide +kernel)
  obtain ⟨s, hreach, hsink, hstate, hruns⟩ := hrun
  have hpostgres : ∀ p bl, _run_body World.plain p ((Sys.polling
      (Db.single (filmPipeline .incremental 2 .RUN_REQUESTED) [filmExample]) :
        Sys Unit Unit).db.config p) = .ok bl → bl.transactional = true := by
    intro p bl hbody
    exact transactional_of_no_tasks hbody rfl rfl filmTarget_postgres
  have hpure : ∀ p bl, _run_body World.plain p ((Sys.polling
      (Db.single (filmPipeline .incremental 2 .RUN_REQUESTED) [filmExample]) :
        Sys Unit Unit).db.config p) = .ok bl → bl.Pure := by
    intro p bl hbody
    obtain ⟨-, -, hpure⟩ := exists_plan hbody rfl
    exact hpure (fun path fn hfn => by cases hfn)
  have hdelivered := batches_committed_with_checkpoint (V := fun _ => True) (fun _ => rfl)
    hpostgres hpure (Sys.resting_polling _) trivial hreach
  exact ⟨s, hsink, hstate, hruns, hdelivered⟩

end BatchAtomicity

end EtlPlatform
