import EtlPlatform.Proofs.CreationRules
import EtlPlatform.Proofs.SoundCheckpoints

/-!
# A successful run is complete

A pipeline keeps one checkpoint, under its id alone.  As long as the columns
that decide what is read and where it goes change only before the first
checkpoint and outside an incremental run, the checkpoint speaks about the
current configuration: every row up to it has been written to the current
target, and a run that ends because no row is left has written them all.

A `PATCH` of one of these columns after a checkpoint is accepted as well, and
the next run goes on from the checkpoint of the old configuration.
-/

namespace EtlPlatform

open Library

section Histories

variable {P : Type} [DecidableEq P]
variable {w : World} {p : P} {D : List (P × Item)} {db : Db P} {pr : Proc P}

/-- The source stays, and an update of `p` keeps it an SQL or ES pipeline whose query
returns distinct key pairs. -/
def Event.overPairs (w : World) (p : P) (s : Sys Unit P) : Event Unit P → Prop
  | .source _ => False
  | .patch q row => q = p →
      row.type ≠ .PYTHON ∧
        HasPairs w.collation s.db.store.source ((s.db.patchConfig p row).feed p)
  | _ => True

/-- The feed of `p` changes only before the first checkpoint and outside an incremental run. -/
def Event.keepsFeed (p : P) (s : Sys Unit P) : Event Unit P → Prop
  | .patch q row => q = p →
      (s.db.patchConfig p row).feed p = s.db.feed p ∨
        (s.db.store.etl_state p = none ∧ ¬ (s.procs ()).pc.incremental p)
  | _ => True

instance (p : P) (s : Sys Unit P) : DecidablePred (Event.keepsFeed p s)
  | .patch _ _ => inferInstanceAs (Decidable (_ → _))
  | .source _ | .run _ | .pause _ | .kill _ | .spawn _ | .runner _ _ => .isTrue trivial

/-- A pipeline without tasks that has not run yet. -/
structure StartsFresh (w : World) (p : P) (s : Sys Unit P) : Prop where
  resting : s.Resting
  no_checkpoint : s.db.store.etl_state p = none
  no_tasks : s.db.tasks p = []
  passes : (s.db.pipelines p).type ≠ .PYTHON
  pairs : HasPairs w.collation s.db.store.source (s.db.feed p)

theorem Sound.of_startsFresh
    {s : Sys Unit P} (h : StartsFresh w p s) :
    Sound w p [] s.db (s.procs ()) where
  no_tasks := by
    rw [Db.config, h.no_tasks]
    rfl
  passes := h.passes
  promised := ⟨h.pairs, h.no_checkpoint ▸ .of_fresh _⟩
  proc := by
    obtain ⟨hpc, hnil⟩ := h.resting ()
    exact (procAt_iff_clean (Pc.not_inDispatch_of_resting hpc)).mpr (clean_of_resting hpc hnil)

/-- An update of the configuration that keeps the feed, or comes before the first checkpoint. -/
theorem Sound.patch
    {s : Sys Unit P} {q : P} {row : EtlPipeline}
    (h : Sound w p D s.db (s.procs ()))
    (hpairs : (Event.patch q row).overPairs w p s) (hkeeps : (Event.patch q row).keepsFeed p s) :
    Sound w p D (s.db.patchConfig q row) (s.procs ()) := by
  by_cases hq : q = p
  · obtain rfl := hq
    obtain ⟨htype, hpairs⟩ := hpairs rfl
    have hrow : (s.db.patchConfig q row).config q =
        snapshot_pipeline_with_tasks (snapshot_pipeline
          { row with id := (s.db.pipelines q).id, status := s.db.status q }) (s.db.tasks q) := by
      simp [Db.config, Db.patchConfig, Db.setPipeline]
    refine ⟨h.no_tasks, ?_, ⟨hpairs, ?_⟩, ?_⟩
    · rw [hrow]
      exact htype
    · rcases hkeeps rfl with hfeed | ⟨hfresh, -⟩
      · rw [hfeed]
        exact h.promised.upto
      · change DeliveredUpTo w _ q D _ (s.db.store.etl_state q)
        rw [hfresh]
        exact .of_fresh _
    · refine h.proc.congr rfl (fun hexec => ?_)
      exact (hkeeps rfl).resolve_right (fun hnot => hnot.2 hexec)
  · have hconfig : (s.db.patchConfig q row).config p = s.db.config p := by
      simp [Db.config, Db.patchConfig, Db.setPipeline, Ne.symm hq]
    have hfeed : (s.db.patchConfig q row).feed p = s.db.feed p := congrArg feedOf hconfig
    constructor
    · rw [hconfig]
      exact h.no_tasks
    · rw [hconfig]
      exact h.passes
    · rw [hfeed]
      exact h.promised
    · exact h.proc.congr rfl (fun _ => hfeed)

/-- **One event keeps the checkpoint sound.** -/
theorem Sound.step
    {s s' : Sys Unit P} {e : Event Unit P}
    (h : Sound w p D s.db (s.procs ()))
    (hpairs : e.overPairs w p s) (hkeeps : e.keepsFeed p s) (hstep : s.step w e = some s') :
    Sound w p (deliver D s e) s'.db (s'.procs ()) := by
  cases e with
  | run q =>
      obtain rfl := Option.some.inj hstep
      exact h.of_same (sameConfig_run_pipeline s.db q) (Db.store_run_pipeline s.db q)
  | pause q =>
      obtain rfl := Option.some.inj hstep
      exact h.of_same (sameConfig_pause_pipeline s.db q) (Db.store_pause_pipeline s.db q)
  | patch q row =>
      obtain rfl := Option.some.inj hstep
      exact h.patch hpairs hkeeps
  | source src =>
      exact hpairs.elim
  | kill i =>
      obtain rfl := Option.some.inj hstep
      refine ⟨h.no_tasks, h.passes, h.promised, ?_⟩
      simp [Sys.setProc, ProcAt]
  | spawn i =>
      obtain ⟨-, rfl⟩ := Sys.step_spawn_iff.mp hstep
      refine ⟨h.no_tasks, h.passes, h.promised, ?_⟩
      simp [Sys.setProc, ProcAt]
  | runner i c =>
      obtain ⟨db', pr', hproc, rfl⟩ := Sys.step_runner_iff.mp hstep
      simpa [deliver] using h.procStep hproc

/-- **The checkpoint is sound in every history.** -/
theorem sound_of_reach
    {s₀ : Sys Unit P} {x : Sys Unit P × List (P × Item)}
    (hstart : StartsFresh w p s₀)
    (h : Reach (tracked (Sys.step w) deliver) (fun x => x = (s₀, []))
      (fun x e => e.overPairs w p x.1 ∧ e.keepsFeed p x.1) x) :
    Sound w p x.2 x.1.db (x.1.procs ()) := by
  refine h.invariant (I := fun x : Sys Unit P × List (P × Item) =>
    Sound w p x.2 x.1.db (x.1.procs ())) ?_ ?_
  · rintro x rfl
    exact .of_startsFresh hstart
  · rintro x e y hsound ⟨hpairs, hkeeps⟩ hstep
    obtain ⟨hsys, hD⟩ := tracked_eq_some_iff.mp hstep
    rw [hD]
    exact hsound.step hpairs hkeeps hsys

/-- The run of `p` is about to be recorded as successful: it is incremental, and it has left
its loop because a batch was empty. -/
def Pc.succeeds (p : P) : Pc P → Bool
  | .dispatch q snap (.finishSuccess _ _ .exhausted _) _ => q = p && snap.mode = .incremental
  | _ => false

/-- The event finishes an incremental run of `p` with `SUCCESS`, without a pause. -/
def FinishesSuccess (p : P) (s : Sys Unit P) (e : Event Unit P) : Prop :=
  (e = .runner () .ok ∨ e = .runner () .lost) ∧ (s.procs ()).pc.succeeds p = true

/--
In every history from `s₀` over a static source in which every update keeps the
key pairs distinct and is allowed, a run that finishes with `SUCCESS` leaves no
row of the current query unwritten to the current target.
-/
def SuccessIsComplete (w : World) (p : P) (s₀ : Sys Unit P)
    (allow : Sys Unit P → Event Unit P → Prop) : Prop :=
  ∀ (x y : Sys Unit P × List (P × Item)) (e : Event Unit P),
    Reach (tracked (Sys.step w) deliver) (fun x => x = (s₀, []))
      (fun x e => e.overPairs w p x.1 ∧ allow x.1 e) x →
    tracked (Sys.step w) deliver x e = some y → FinishesSuccess p x.1 e →
    Complete w (y.1.db.feed p) p y.2 y.1.db.store.source

theorem Pc.succeeds_iff
    {pc : Pc P} :
    pc.succeeds p = true ↔ ∃ snap k r v todo,
      pc = .dispatch p snap (.finishSuccess k r .exhausted v) todo ∧ snap.mode = .incremental := by
  constructor
  · intro h
    unfold Pc.succeeds at h
    split at h
    · simp only [Bool.and_eq_true, decide_eq_true_eq] at h
      obtain ⟨rfl, hmode⟩ := h
      exact ⟨_, _, _, _, _, rfl, hmode⟩
    · cases h
  · rintro ⟨snap, k, r, v, todo, rfl, hmode⟩
    simp [Pc.succeeds, hmode]

/-- Where a run is about to succeed, everything has been written. -/
theorem Sound.complete
    (h : Sound w p D db pr) (hpc : pr.pc.succeeds p = true) :
    pr.Clean ∧ ¬ (∃ q, pr.pc.delivers q) ∧ Complete w (db.feed p) p D db.store.source := by
  obtain ⟨snap, k, r, v, todo, hdispatch, hmode⟩ := Pc.succeeds_iff.mp hpc
  obtain ⟨pc, ws⟩ := pr
  obtain rfl : pc = _ := hdispatch
  obtain ⟨-, hours, -⟩ := h.proc
  obtain ⟨hfeed, hall, rfl⟩ := hours ⟨rfl, hmode⟩
  refine ⟨Or.inr rfl, ?_, hfeed ▸ hall rfl⟩
  rintro ⟨q, -, hdel⟩
  exact hdel

/--
**A successful incremental run is complete under the current configuration**,
whatever is requested, patched, paused, lost or killed meanwhile, as long as
the query, the keys and the target change only before the first checkpoint and
outside an incremental run.
-/
theorem successful_run_complete
    {w : World} {p : P} {s₀ : Sys Unit P} (hstart : StartsFresh w p s₀) :
    SuccessIsComplete w p s₀ (Event.keepsFeed p) := by
  rintro x y e hreach hstep ⟨he, hpc⟩
  obtain ⟨hclean, hdel, hall⟩ := (sound_of_reach hstart hreach).complete hpc
  obtain ⟨hsys, hD⟩ := tracked_eq_some_iff.mp hstep
  obtain ⟨c, rfl⟩ : ∃ c, e = .runner () c := by
    rcases he with rfl | rfl <;> exact ⟨_, rfl⟩
  obtain ⟨db, pr, hproc, hy⟩ := Sys.step_runner_iff.mp hsys
  have hstore : y.1.db.store = x.1.db.store := by
    rw [hy]
    exact (procStep_session hproc hclean).2.resolve_left hdel
  have hfeed : y.1.db.feed p = x.1.db.feed p := by
    rw [hy]
    exact (procStep_sameConfig hproc).feed_eq p
  rw [hfeed, hD, hstore]
  exact hall.mono (List.subset_append_left _ _)

end Histories

/-! ## A film pipeline that is moved to Elasticsearch -/

section Films

/-- The API has created the pipeline. -/
def CreatedByApi (s : Sys Unit Unit) : Prop :=
  ∃ id body, create_pipeline_endpoint [] id body = [s.db.pipelines ()]

/-- Updates are what the endpoint makes of the row it finds. -/
def Event.byApi (s : Sys Unit Unit) : Event Unit Unit → Prop
  | .patch _ row =>
      ∃ body, update_pipeline_endpoint [s.db.pipelines ()] (s.db.pipelines ()).id body = [row]
  | _ => True

/-- The film pipeline, created and then run incrementally by a polling runner. -/
def filmCreated : Sys Unit Unit :=
  Sys.polling (Db.single (createdRow "film" filmBody) [filmExample])

/-- Updates move the film pipeline to Elasticsearch while it is not `RUNNING`. -/
def Event.toElasticsearch (s : Sys Unit Unit) : Event Unit Unit → Prop
  | .source _ => False
  | .patch _ row =>
      s.db.status () ≠ .RUNNING ∧
        (s.db.store.source filmQuery).toOption = some [filmExample] ∧
        s.db.pipelines () = { createdRow "film" filmBody with status := s.db.status () } ∧
        row = { s.db.pipelines () with target_table := "es:film_dim" }
  | _ => True

instance (s : Sys Unit Unit) : DecidablePred (Event.toElasticsearch s)
  | .patch _ _ => inferInstanceAs (Decidable (_ ∧ _))
  | .source _ => .isFalse id
  | .run _ | .pause _ | .kill _ | .spawn _ | .runner _ _ => .isTrue trivial

/-- The feed of the film pipeline with the given target. -/
def filmFeed (target : String) : Feed where
  base := filmQuery
  inc_key := "updated_at"
  id_key := "film_id"
  target := target

theorem feedOf_film
    (id : String) (s : PipelineStatus) (target : String) :
    feedOf (snapshot_pipeline { createdRow "film" filmBody with
      id := id, status := s, target_table := target }) = filmFeed (PyText.strip target) := by
  have hbase : baseQuery filmQuery = filmQuery := by decide +kernel
  have hinc : PyText.strip "updated_at" = "updated_at" := by decide +kernel
  have hid : PyText.strip "film_id" = "film_id" := by decide +kernel
  simp [feedOf, filmFeed, snapshot_pipeline, createdRow, filmBody, incKey, idKey, targetOr, hbase,
    hinc, hid]

/-- The film table has distinct key pairs. -/
theorem hasPairs_film
    {src : Source} (hsrc : (src filmQuery).toOption = some [filmExample]) (target : String) :
    HasPairs World.plain.collation src (filmFeed target) := by
  intro table htable
  have hrows : src filmQuery = .ok table := htable
  rw [hrows] at hsrc
  obtain rfl : table = [filmExample] := Option.some.inj hsrc
  have hkeys := (keyed_filmRow "f1" "Alien" (january 1 (by decide)) (by decide)).toHasKeys
  refine ⟨?_, Or.inl ⟨.text, ?_⟩, List.nodup_singleton _, ?_, ?_⟩
  · obtain ⟨t, ht⟩ := hkeys.ts
    exact List.forall_mem_singleton.mpr (fun hnull => Value.noConfusion (ht.symm.trans hnull))
  · exact List.forall_mem_singleton.mpr (hkeys.id.imp (fun _ h => h.2))
  · exact List.forall_mem_singleton.mpr hkeys.inc_named
  · exact List.forall_mem_singleton.mpr hkeys.id_named

theorem startsFresh_filmCreated :
    StartsFresh World.plain () filmCreated where
  resting := Sys.resting_polling _
  no_checkpoint := rfl
  no_tasks := rfl
  passes := by decide
  pairs := by
    rw [feed_eq_feedOf_snapshot]
    exact (feedOf_film "film" .IDLE "analytics.film_dim") ▸ hasPairs_film rfl _

theorem createdByApi_filmCreated :
    CreatedByApi filmCreated :=
  ⟨"film", filmBody, by decide +kernel⟩

theorem Event.toElasticsearch.overPairs
    {s : Sys Unit Unit} {e : Event Unit Unit} (h : e.toElasticsearch s) :
    e.overPairs World.plain () s := by
  cases e with
  | patch q row =>
      obtain ⟨-, hsrc, hrow, rfl⟩ := h
      refine fun _ => ⟨?_, ?_⟩
      · simp [hrow, createdRow, filmBody]
      · have hfeed : (s.db.patchConfig () { s.db.pipelines () with
            target_table := "es:film_dim" }).feed () = filmFeed (PyText.strip "es:film_dim") := by
          rw [feed_eq_feedOf_snapshot, ← feedOf_film (s.db.pipelines ()).id (s.db.status ())]
          simp only [Db.patchConfig, Db.setPipeline, Function.update_self]
          rw [hrow]
        rw [hfeed]
        exact hasPairs_film hsrc _
  | _ =>
      exact h

theorem Event.toElasticsearch.byApi
    {s : Sys Unit Unit} {e : Event Unit Unit} (h : e.toElasticsearch s) :
    e.byApi s := by
  cases e with
  | patch q row =>
      obtain ⟨hstatus, -, hrow, rfl⟩ := h
      refine ⟨{ target_table := some (some "es:film_dim") }, ?_⟩
      rw [hrow]
      generalize s.db.status () = status at hstatus
      cases status with
      | RUNNING =>
          exact absurd rfl hstatus
      | _ =>
          decide +kernel
  | _ =>
      trivial

/-- The pipeline is moved before its first run. -/
theorem successful_run_complete_moved_before_first_run :
    ∃ y : Sys Unit Unit × List (Unit × Item),
      y.1.db.feed () = filmFeed "es:film_dim" ∧
      (y.1.db.store.source filmQuery).toOption = some [filmExample] ∧
      Complete World.plain (y.1.db.feed ()) () y.2 y.1.db.store.source := by
  have hrun : ∃ x, Reach (tracked (Sys.step World.plain) deliver)
      (fun x => x = (filmCreated, []))
      (fun x e => e.toElasticsearch x.1 ∧ e.keepsFeed () x.1) x ∧
      (x.1.procs ()).pc.succeeds () = true ∧
      (tracked (Sys.step World.plain) deliver x (.runner () .ok)).any (fun y =>
        decide (y.1.db.feed () = filmFeed "es:film_dim" ∧
          (y.1.db.store.source filmQuery).toOption = some [filmExample])) = true :=
    Reach.exists_of_replay (filmCreated, [])
      (.patch () { createdRow "film" filmBody with target_table := "es:film_dim" } ::
        .run () :: List.replicate 14 (.runner () .ok))
      rfl (by decide +kernel)
  obtain ⟨x, hreach, hsucceeds, hany⟩ := hrun
  obtain ⟨y, hstep, hy⟩ := (Option.any_eq_true _ _).mp hany
  obtain ⟨hfeed, hsrc⟩ := of_decide_eq_true hy
  exact ⟨y, hfeed, hsrc, successful_run_complete startsFresh_filmCreated x y _
    (hreach.mono (fun x e h => ⟨h.1.overPairs, h.2⟩)) hstep ⟨Or.inl rfl, hsucceeds⟩⟩

/-- The pipeline was moved after its first run; the second one has nothing to read. -/
def movedAfterRun : List (Event Unit Unit) :=
  .run () :: List.replicate 19 (.runner () .ok) ++
    .patch () { createdRow "film" filmBody with target_table := "es:film_dim" } ::
      .run () :: List.replicate 8 (.runner () .ok)

/-- The pipeline was moved while its first run was asked to pause and then to go on. -/
def movedDuringRun : List (Event Unit Unit) :=
  .run () :: List.replicate 2 (.runner () .ok) ++
    .pause () ::
      .patch () { createdRow "film" filmBody with
        status := .PAUSE_REQUESTED, target_table := "es:film_dim" } ::
        .run () :: List.replicate 12 (.runner () .ok)

/-- The film has gone to the table, the pipeline is configured for the index, and the next
step records a success. -/
def FilmLeftBehind (x : Sys Unit Unit × List (Unit × Item)) : Prop :=
  (x.1.procs ()).pc.succeeds () = true ∧
    (tracked (Sys.step World.plain) deliver x (.runner () .ok)).any (fun y =>
      decide (y.1.db.feed () = filmFeed "es:film_dim" ∧
        (y.1.db.store.source filmQuery).toOption = some [filmExample] ∧
        y.2 = [((), [(filmCell, .columns [("title", .text "Alien"), ("rating", .null)])])])) = true

instance : DecidablePred FilmLeftBehind :=
  fun _ => inferInstanceAs (Decidable (_ ∧ _))

/-- A history that leaves the film behind ends in a success that is not complete. -/
theorem not_successIsComplete_of_filmLeftBehind
    {allow : Sys Unit Unit → Event Unit Unit → Prop}
    (h : ∃ x, Reach (tracked (Sys.step World.plain) deliver) (fun x => x = (filmCreated, []))
      (fun x e => e.overPairs World.plain () x.1 ∧ allow x.1 e) x ∧ FilmLeftBehind x) :
    ¬ SuccessIsComplete World.plain () filmCreated allow := by
  intro hall
  obtain ⟨x, hreach, hsucceeds, hany⟩ := h
  obtain ⟨y, hstep, hy⟩ := (Option.any_eq_true _ _).mp hany
  obtain ⟨hfeed, hsrc, hD⟩ := of_decide_eq_true hy
  have hcomplete := hall x y _ hreach hstep ⟨Or.inl rfl, hsucceeds⟩
  rw [hfeed, hD] at hcomplete
  cases hrows : y.1.db.store.source filmQuery with
  | error exc =>
      rw [hrows] at hsrc
      cases hsrc
  | ok table =>
      rw [hrows] at hsrc
      obtain rfl : table = [filmExample] := Option.some.inj hsrc
      obtain ⟨item, hitem, hmem⟩ := hcomplete _ hrows _ (List.mem_singleton.mpr rfl)
      obtain ⟨-, rfl⟩ := Prod.mk.inj (List.mem_singleton.mp hmem)
      have hother : ((filmFeed "es:film_dim").item World.plain filmExample).toOption ≠
          some [(filmCell, .columns [("title", .text "Alien"), ("rating", .null)])] := by
        decide +kernel
      exact hother (by rw [hitem]; rfl)

/--
A `PATCH` of the target is accepted after a run, and while a run is asked to
pause; either way a later success leaves the new target without the film.
-/
theorem moved_pipeline_incomplete :
    (¬ ∀ s₀, CreatedByApi s₀ → StartsFresh World.plain () s₀ →
      SuccessIsComplete World.plain () s₀ Event.byApi) ∧
    ¬ ∀ s₀, CreatedByApi s₀ → StartsFresh World.plain () s₀ →
      SuccessIsComplete World.plain () s₀ (fun s e =>
        e.byApi s ∧ (e.reconfigures → s.db.store.etl_state () = none)) := by
  constructor
  · intro hall
    have hrun : ∃ x, Reach (tracked (Sys.step World.plain) deliver)
        (fun x => x = (filmCreated, [])) (fun x e => e.toElasticsearch x.1) x ∧
        FilmLeftBehind x :=
      Reach.exists_of_replay (filmCreated, []) movedAfterRun rfl (by decide +kernel)
    obtain ⟨x, hreach, hleft⟩ := hrun
    exact not_successIsComplete_of_filmLeftBehind
      ⟨x, hreach.mono (fun x e h => ⟨h.overPairs, h.byApi⟩), hleft⟩
      (hall _ createdByApi_filmCreated startsFresh_filmCreated)
  · intro hall
    have hrun : ∃ x, Reach (tracked (Sys.step World.plain) deliver)
        (fun x => x = (filmCreated, []))
        (fun x e => e.toElasticsearch x.1 ∧
          (e.reconfigures → x.1.db.store.etl_state () = none)) x ∧
        FilmLeftBehind x :=
      Reach.exists_of_replay (filmCreated, []) movedDuringRun rfl (by decide +kernel)
    obtain ⟨x, hreach, hleft⟩ := hrun
    exact not_successIsComplete_of_filmLeftBehind
      ⟨x, hreach.mono (fun x e h => ⟨h.1.overPairs, h.1.byApi, h.2⟩), hleft⟩
      (hall _ createdByApi_filmCreated startsFresh_filmCreated)

end Films

end EtlPlatform
