import EtlPlatform.Proofs.DispatchProjection

/-!
# Pipelines do not interfere

All pipelines share the runners, the sessions and the tables.  Seen from one of
them, a run of the platform is nevertheless a run of the platform that has no
other pipeline: the requests for it are the same, its dispatches take the same
steps and get the same answers, and what the others do shows as nothing, or as a
tick that has lost its connection.
-/

namespace EtlPlatform

open Library

/-! ## Processes -/

section Processes

variable {P : Type} [DecidableEq P]

/-- The await point of a process in the platform of `p`.  While it works for another
pipeline, its tick stands still. -/
def Pc.only (p : P) (index : ℕ → ℕ) : Pc P → Pc Unit
  | .down => .down
  | .recovery => .recovery
  | .recovering ids => if p ∈ ids then .recovering (idsOnly p ids) else .started
  | .started => .started
  | .polling => .polling
  | .tick todo => .tick (todoOnly p todo)
  | .dispatch q snap st todo =>
      if q = p then .dispatch () snap (st.only p index) (todoOnly p todo)
      else .tick (todoOnly p todo)

/-- The process, with the statements in its session if it works on `p`. -/
def Proc.only (p : P) (index : ℕ → ℕ) (pr : Proc P) : Proc Unit where
  pc := pr.pc.only p index
  pending := if pr.pc.executing p then pr.pending.map Write.only else []

/-- The platform as far as it belongs to `p`, over some sink. -/
def Sys.only {ι : Type} (p : P) (sink : Sink) (s : Sys ι P) : Sys ι Unit where
  db := s.db.only p sink
  procs i := (s.procs i).only p (s.db.runIndex p)

/-- Only pipelines with a request have been listed. -/
def Listed (todo : List (P × PipelineStatus)) : Prop :=
  ∀ x ∈ todo, x.2 = .RUN_REQUESTED ∨ x.2 = .PAUSE_REQUESTED

/-- What a process holds: requests it has listed, and a dispatch that works for its pipeline. -/
def Proc.InOrder (owners : List P) (pr : Proc P) : Prop :=
  match pr.pc with
  | .tick todo => Listed todo
  | .dispatch q _ st todo => st.WorksFor q owners ∧ SessionOf q pr.pending ∧ Listed todo
  | _ => True

omit [DecidableEq P] in
theorem listed_get_active
    (db : Db P) :
    Listed db.get_active := by
  intro x hx
  obtain ⟨⟨-, hreq⟩, hstatus⟩ := mem_get_active_iff.mp hx
  rw [hstatus]
  exact hreq

omit [DecidableEq P] in
theorem Listed.tail
    {x : P × PipelineStatus} {todo : List (P × PipelineStatus)} (h : Listed (x :: todo)) :
    Listed todo :=
  fun y hy => h y (List.mem_cons_of_mem _ hy)

theorem Listed.only
    {todo : List (P × PipelineStatus)} (h : Listed todo) (p : P) :
    Listed (todoOnly p todo) := by
  intro x hx
  obtain ⟨y, hy, hxy⟩ := List.mem_filterMap.mp hx
  by_cases hq : y.1 = p
  · rw [if_pos hq] at hxy
    rw [← Option.some.inj hxy]
    exact h y hy
  · rw [if_neg hq] at hxy
    cases hxy

theorem Proc.InOrder.of_grown
    {owners owners' : List P} {pr : Proc P} (h : pr.InOrder owners)
    (hgrown : owners <+: owners') :
    pr.InOrder owners' := by
  obtain ⟨pc, ws⟩ := pr
  cases pc with
  | dispatch q snap st todo =>
      exact ⟨h.1.of_grown hgrown, h.2⟩
  | _ =>
      exact h

/-- New run rows of others do not change what a process is seen to do. -/
theorem Proc.only_of_grown
    {p : P} {db db' : Db P} {pr : Proc P} (h : pr.InOrder db.runOwners)
    (hgrown : db.runOwners <+: db'.runOwners) :
    pr.only p (db'.runIndex p) = pr.only p (db.runIndex p) := by
  obtain ⟨pc, ws⟩ := pr
  cases pc with
  | dispatch q snap st todo =>
      have hst : st.only p (db'.runIndex p) = st.only p (db.runIndex p) :=
        Stage.only_congr (fun r hr => runIndex_of_grown hgrown
          (List.getElem?_eq_some_iff.mp (h.1.owns r hr)).1.le)
      simp only [Proc.only, Pc.only, hst]
  | _ =>
      rfl

theorem procStep_owners_grow
    {w : World} {db db' : Db P} {pr pr' : Proc P} {c : Choice}
    (h : procStep w db pr c = some (db', pr')) :
    db.runOwners <+: db'.runOwners := by
  cases procStep_effect h with
  | recovered hpc =>
      rw [runOwners_recovered]
  | offered hdb hpr =>
      rcases hdb with rfl | rfl
      · exact List.prefix_rfl
      · rw [Db.apply_pause_requested, runOwners_updateStatus]
  | unclaimed hdb hpr =>
      rcases hdb with rfl | rfl
      · exact List.prefix_rfl
      · rw [Db.claim_run_requested, runOwners_updateStatus]
  | claimed hreq =>
      rw [Db.claim_run_requested, runOwners_updateStatus]
  | stepped hst =>
      exact stageStep_owners_grow hst
  | _ =>
      exact List.prefix_rfl

/-- **What a process holds is in order**, step by step. -/
theorem procStep_inOrder
    {w : World} {db db' : Db P} {pr pr' : Proc P} {c : Choice}
    (h : procStep w db pr c = some (db', pr')) (hin : pr.InOrder db.runOwners) :
    pr'.InOrder db'.runOwners := by
  cases procStep_effect h with
  | listed =>
      by_cases hnil : db.list_stuck_running_ids = [] <;> simp [hnil, Proc.InOrder]
  | recovered hpc =>
      rcases hpc with ⟨-, rfl⟩ | ⟨-, rfl⟩ <;> trivial
  | began hpc =>
      exact listed_get_active db
  | skipped hpause hrun =>
      exact Listed.tail hin
  | offered hdb hpr =>
      rcases hpr with rfl | rfl
      · trivial
      · exact Listed.tail hin
  | unclaimed hdb hpr =>
      rcases hpr with rfl | rfl
      · trivial
      · exact Listed.tail hin
  | claimed hreq =>
      refine ⟨⟨fun r hr => ?_, fun k r bl pc heq => ?_⟩, sessionOf_nil _, Listed.tail hin⟩
      · cases hr
      · cases heq
  | returned hpr =>
      rcases hpr with rfl | rfl
      · trivial
      · exact hin.2.2
  | stepped hst =>
      exact ⟨stageStep_worksFor hst hin.1, stageStep_sessionOf hst hin.1 hin.2.1, hin.2.2⟩
  | _ =>
      trivial

/-! ## One step, seen from one pipeline -/

variable {ι : Type} [DecidableEq ι]

/-- What a step of process `i` is in the platform of `p`: the same step, if it is about `p` or
about no pipeline; nothing, if it is about another one and the tick goes on; and a lost
connection, if another pipeline ends the tick. -/
def Pc.concerning (p : P) (i : ι) (c : Choice) (pc pc' : Pc P) : List (Event ι Unit) :=
  match pc with
  | .recovering ids =>
      if p ∈ ids then [.runner i c] else if c = .ok then [] else [.kill i]
  | .tick ((q, _) :: _) | .dispatch q _ _ _ =>
      if q = p then [.runner i c]
      else if pc'.inTick then []
      else [.runner i (.raise connectionLost)]
  | _ => [.runner i c]

/-- The event in the platform of `p`. -/
def Sys.concerning (p : P) (s : Sys ι P) (e : Event ι P) (s' : Sys ι P) :
    List (Event ι Unit) :=
  match e with
  | .run q => if q = p then [.run ()] else []
  | .pause q => if q = p then [.pause ()] else []
  | .patch q row => if q = p then [.patch () row] else []
  | .source src => [.source src]
  | .kill i => [.kill i]
  | .spawn i => [.spawn i]
  | .runner i c => (s.procs i).pc.concerning p i c (s'.procs i).pc

section Steps

variable {w : World} {p : P} {i : ι} {t : Sys ι Unit} {sink : Sink}

theorem exec_runner
    {c : Choice} {d : Db Unit} {pr : Proc Unit}
    (h : procStep w t.db (t.procs i) c = some (d, pr)) :
    exec (Sys.step w) t [.runner i c] =
      some { db := d, procs := Function.update t.procs i pr } := by
  simp [exec, Sys.step, h]

theorem exec_kill :
    exec (Sys.step w) t [.kill i] = some (t.setProc i ⟨.down, []⟩) := by
  rfl

/-- Nothing has happened to a process and its tables. -/
theorem exec_nil_update
    {d : Db Unit} {pr : Proc Unit} (hdb : t.db = d) (hproc : t.procs i = pr) :
    exec (Sys.step w) t [] = some { db := d, procs := Function.update t.procs i pr } := by
  subst hdb hproc
  simp [exec]

/-- A tick with listed requests ends when the connection is lost. -/
theorem procStep_cut
    {d : Db Unit} {todo : List (Unit × PipelineStatus)} {ws : List (Write Unit)}
    (h : Listed todo) :
    procStep w d ⟨.tick todo, ws⟩ (.raise connectionLost) = some (d, ⟨.polling, []⟩) := by
  rcases todo with _ | ⟨⟨u, st⟩, todo⟩
  · rfl
  · have hend : afterDispatch todo (.error connectionLost) = .polling := by
      simp [afterDispatch, is_db_disconnect_connectionLost]
    rcases h _ List.mem_cons_self with hst | hst
    · obtain rfl : st = .RUN_REQUESTED := hst
      simp only [procStep, dispatchClaim, hend]
    · obtain rfl : st = .PAUSE_REQUESTED := hst
      simp only [procStep, dispatchPause, hend]

/-- A turn of another pipeline leaves the tick where it is, or ends it. -/
theorem exec_foreign
    {todo : List (P × PipelineStatus)} {pr' : Proc P} {index : ℕ → ℕ} {d : Db Unit}
    (hdb : t.db = d) (hproc : t.procs i = ⟨.tick (todoOnly p todo), []⟩) (hlisted : Listed todo)
    (hpr : pr' = ⟨.polling, []⟩ ∨
      (pr'.pc.inTick ∧ pr'.only p index = ⟨.tick (todoOnly p todo), []⟩)) :
    exec (Sys.step w) t (if pr'.pc.inTick then [] else [.runner i (.raise connectionLost)]) =
      some { db := d, procs := Function.update t.procs i (pr'.only p index) } := by
  rcases hpr with rfl | ⟨hin, heq⟩
  · rw [if_neg (show ¬ (Pc.polling : Pc P).inTick from id)]
    refine exec_runner ?_
    rw [hdb, hproc, procStep_cut (hlisted.only p)]
    rfl
  · rw [if_pos hin, heq]
    exact exec_nil_update hdb hproc

omit [DecidableEq ι] in
theorem todoOnly_cons_self
    (st : PipelineStatus) (todo : List (P × PipelineStatus)) :
    todoOnly p ((p, st) :: todo) = ((), st) :: todoOnly p todo := by
  simp [todoOnly]

theorem todoOnly_cons_of_ne
    {q : P} (hq : q ≠ p) (st : PipelineStatus) (todo : List (P × PipelineStatus)) :
    todoOnly p ((q, st) :: todo) = todoOnly p todo := by
  simp [todoOnly, hq]

/-- The step of a dispatch as the step of its process. -/
theorem procStep_of_stageStep
    {Q : Type} [DecidableEq Q] {db : Db Q} {q : Q} {ws : List (Write Q)}
    {snap : PipelineSnapshot} {st : Stage Q} {c : Choice} {a : After Q}
    (h : stageStep w (db, ws) q snap st c = some a) (todo : List (Q × PipelineStatus)) :
    procStep w db ⟨.dispatch q snap st todo, ws⟩ c =
      some (a.db, ⟨.dispatch q (nextSnapshot db q snap st c) a.stage todo, a.pending⟩) := by
  have hstep : procStep w db ⟨.dispatch q snap st todo, ws⟩ c =
      (stageStep w (db, ws) q snap st c).map (fun a =>
        (a.db, ⟨.dispatch q (nextSnapshot db q snap st c) a.stage todo, a.pending⟩)) := by
    cases st with
    | returning res =>
        cases h
    | _ =>
        rfl
  rw [hstep, h]
  rfl

/-- The run a stage is going to close keeps its position over the step that led there. -/
theorem stage_only_after
    {kept : Db P × List (Write P)} {snap : PipelineSnapshot} {st : Stage P} {c : Choice}
    {a : After P} (h : stageStep w kept p snap st c = some a)
    (hst : st.WorksFor p kept.1.runOwners) :
    a.stage.only p (kept.1.runIndex p) = a.stage.only p (a.db.runIndex p) := by
  refine Stage.only_congr (fun r hr => (runIndex_of_grown (stageStep_owners_grow h) ?_).symm)
  have hlt : r < a.db.runOwners.length :=
    (List.getElem?_eq_some_iff.mp ((stageStep_worksFor h hst).owns r hr)).1
  rcases stageStep_owners h with howners | ⟨-, howners⟩
  · exact (howners ▸ hlt).le
  · rw [howners, List.length_append, List.length_singleton] at hlt
    omega

theorem afterDispatch_only
    (p : P) (index : ℕ → ℕ) (todo : List (P × PipelineStatus)) (res : Except Exc Unit) :
    Proc.only p index ⟨afterDispatch todo res, []⟩ =
      ⟨afterDispatch (todoOnly p todo) res, []⟩ := by
  cases res with
  | ok _ =>
      rfl
  | error exc =>
      simp only [afterDispatch]
      split_ifs <;> rfl

/-- **A turn of the pipeline**: a pause, or a claim. -/
theorem procStep_only_of_candidate
    {db db' : Db P} {st : PipelineStatus} {todo : List (P × PipelineStatus)}
    {ws : List (Write P)} {pr' : Proc P} {c : Choice}
    (h : procStep w db ⟨.tick ((p, st) :: todo), ws⟩ c = some (db', pr'))
    (hlisted : Listed ((p, st) :: todo)) :
    procStep w (db.only p sink) ⟨.tick (((), st) :: todoOnly p todo), []⟩ c =
      some (db'.only p sink, pr'.only p (db'.runIndex p)) := by
  rcases hlisted _ List.mem_cons_self with hst | hst
  · obtain rfl : st = .RUN_REQUESTED := hst
    cases c with
    | ok =>
        by_cases hreq : db.status p = .RUN_REQUESTED
        · simp only [procStep, dispatchClaim, if_pos hreq] at h
          obtain ⟨rfl, rfl⟩ := Prod.mk.inj (Option.some.inj h)
          simp only [procStep, dispatchClaim, status_only, if_pos hreq, Db.claim_run_requested,
            updateStatus_only]
          simp [Proc.only, Pc.only, Pc.executing, Stage.only]
        · simp only [procStep, dispatchClaim, if_neg hreq] at h
          obtain ⟨rfl, rfl⟩ := Prod.mk.inj (Option.some.inj h)
          simp only [procStep, dispatchClaim, status_only, if_neg hreq]
          rfl
    | raise exc =>
        obtain ⟨rfl, rfl⟩ := Prod.mk.inj (Option.some.inj h)
        simp only [procStep, dispatchClaim, afterDispatch_only]
    | lost =>
        obtain ⟨rfl, rfl⟩ := Prod.mk.inj (Option.some.inj h)
        simp only [procStep, dispatchClaim, afterDispatch_only, Db.claim_run_requested,
          updateStatus_only]
    | partialBulk applied exc =>
        cases h
  · obtain rfl : st = .PAUSE_REQUESTED := hst
    cases c with
    | ok =>
        obtain ⟨rfl, rfl⟩ := Prod.mk.inj (Option.some.inj h)
        simp only [procStep, dispatchPause, Db.apply_pause_requested, updateStatus_only]
        rfl
    | raise exc =>
        obtain ⟨rfl, rfl⟩ := Prod.mk.inj (Option.some.inj h)
        simp only [procStep, dispatchPause, afterDispatch_only]
    | lost =>
        obtain ⟨rfl, rfl⟩ := Prod.mk.inj (Option.some.inj h)
        simp only [procStep, dispatchPause, afterDispatch_only, Db.apply_pause_requested,
          updateStatus_only]
    | partialBulk applied exc =>
        cases h

/-- A turn of another pipeline. -/
theorem procStep_only_of_other_candidate
    (sink : Sink) {db db' : Db P} {q : P} {st : PipelineStatus} {todo : List (P × PipelineStatus)}
    {ws : List (Write P)} {pr' : Proc P} {c : Choice}
    (h : procStep w db ⟨.tick ((q, st) :: todo), ws⟩ c = some (db', pr')) (hq : q ≠ p) :
    db'.only p sink = db.only p sink ∧
      (pr' = ⟨.polling, []⟩ ∨
        (pr'.pc.inTick ∧ pr'.only p (db'.runIndex p) = ⟨.tick (todoOnly p todo), []⟩)) := by
  have hgoes : ∀ index, pr' = ⟨.polling, []⟩ ∨ pr' = ⟨.tick todo, []⟩ →
      (pr' = ⟨.polling, []⟩ ∨
        (pr'.pc.inTick ∧ pr'.only p index = ⟨.tick (todoOnly p todo), []⟩)) := by
    rintro index (rfl | rfl)
    · exact Or.inl rfl
    · exact Or.inr ⟨trivial, rfl⟩
  cases procStep_effect h with
  | waits hpc =>
      simp at hpc
  | began hpc =>
      simp at hpc
  | died hpc =>
      simp at hpc
  | skipped hpause hrun =>
      exact ⟨rfl, Or.inr ⟨trivial, rfl⟩⟩
  | offered hdb hpr =>
      refine ⟨?_, hgoes _ hpr⟩
      rcases hdb with rfl | rfl
      · rfl
      · exact updateStatus_only_of_ne _ _ hq sink db
  | unclaimed hdb hpr =>
      refine ⟨?_, hgoes _ hpr⟩
      rcases hdb with rfl | rfl
      · rfl
      · exact updateStatus_only_of_ne _ _ hq sink db
  | claimed hreq =>
      refine ⟨updateStatus_only_of_ne _ _ hq sink db, Or.inr ⟨trivial, ?_⟩⟩
      simp [Proc.only, Pc.only, Pc.executing, hq]

/-- **A step of a dispatch of the pipeline.** -/
theorem procStep_only_of_dispatch
    {db db' : Db P} {K : Set Cell} {snap : PipelineSnapshot} {st : Stage P}
    {todo : List (P × PipelineStatus)} {ws : List (Write P)} {pr' : Proc P} {c : Choice}
    (h : procStep w db ⟨.dispatch p snap st todo, ws⟩ c = some (db', pr'))
    (hin : Proc.InOrder db.runOwners ⟨.dispatch p snap st todo, ws⟩)
    (hK : AgreeOn K sink db.store.sink) :
    ∃ sink', AgreeOn K sink' db'.store.sink ∧
      procStep w (db.only p sink)
          (Proc.only p (db.runIndex p) ⟨.dispatch p snap st todo, ws⟩) c =
        some (db'.only p sink', pr'.only p (db'.runIndex p)) := by
  have hproc : Proc.only p (db.runIndex p) ⟨.dispatch p snap st todo, ws⟩ =
      ⟨.dispatch () snap (st.only p (db.runIndex p)) (todoOnly p todo), ws.map Write.only⟩ := by
    simp [Proc.only, Pc.only, Pc.executing]
  rw [hproc]
  obtain ⟨hst, hws, -⟩ := hin
  rcases procStep_dispatch h with ⟨res, rfl, rfl, rfl⟩ | ⟨a, ha, rfl, rfl⟩
  · refine ⟨sink, hK, ?_⟩
    rw [afterDispatch_only]
    rfl
  · obtain ⟨a', ha', hshows, hstage⟩ :=
      stageStep_only (K := K) ha hst hws
        (⟨⟨sink, rfl, hK⟩, rfl⟩ : Shows p K (db, ws) (db.only p sink, ws.map Write.only))
    obtain ⟨sink', hdb', hK'⟩ := hshows.db
    have hdb : a'.db = a.db.only p sink' := hdb'
    have hsession : a'.pending = a.pending.map Write.only := hshows.session
    have hsnap : ∀ index, nextSnapshot (db.only p sink) () snap (st.only p index) c =
        nextSnapshot db p snap st c := by
      intro index
      cases st <;> cases c <;> rfl
    refine ⟨sink', hK', ?_⟩
    rw [procStep_of_stageStep ha', hdb, hsnap, hstage, stage_only_after ha hst, hsession]
    simp [Proc.only, Pc.only, Pc.executing]

/-- What process `i` has done, done in the platform of `p`. -/
def Matched (w : World) (p : P) (K : Set Cell) (i : ι) (t : Sys ι Unit) (db' : Db P)
    (pr' : Proc P) (es : List (Event ι Unit)) : Prop :=
  ∃ sink', exec (Sys.step w) t es =
      some { db := db'.only p sink',
             procs := Function.update t.procs i (pr'.only p (db'.runIndex p)) } ∧
    AgreeOn K sink' db'.store.sink

/-- A step of a dispatch of `p`. -/
theorem matched_of_executing
    {db db' : Db P} {K : Set Cell} {pr pr' : Proc P} {c : Choice}
    (h : procStep w db pr c = some (db', pr')) (hin : pr.InOrder db.runOwners)
    (hpc : pr.pc.executing p) (hdb : t.db = db.only p sink)
    (hproc : t.procs i = pr.only p (db.runIndex p)) (hK : AgreeOn K sink db.store.sink) :
    Matched w p K i t db' pr' (pr.pc.concerning p i c pr'.pc) := by
  obtain ⟨pc, ws⟩ := pr
  cases pc with
  | dispatch q snap st todo =>
      obtain rfl : q = p := hpc
      obtain ⟨sink', hK', hstep⟩ := procStep_only_of_dispatch h hin hK
      refine ⟨sink', ?_, hK'⟩
      simp only [Pc.concerning, if_true]
      refine exec_runner ?_
      rw [hdb, hproc]
      exact hstep
  | _ =>
      exact hpc.elim

/-- **The first step of the recovery**: the stuck pipelines are listed. -/
theorem procStep_only_of_recovery
    {db db' : Db P} {ws : List (Write P)} {pr' : Proc P} {c : Choice}
    (h : procStep w db ⟨.recovery, ws⟩ c = some (db', pr')) :
    procStep w (db.only p sink) ⟨.recovery, []⟩ c =
      some (db'.only p sink, pr'.only p (db'.runIndex p)) := by
  cases c with
  | ok =>
      obtain ⟨rfl, rfl⟩ := Prod.mk.inj (Option.some.inj h)
      have hmem : idsOnly p db.list_stuck_running_ids = [] ↔
          p ∉ db.list_stuck_running_ids := by
        simp [List.eq_nil_iff_forall_not_mem]
      simp only [procStep, list_stuck_only, hmem]
      by_cases hstuck : p ∈ db.list_stuck_running_ids
      · have hne : db.list_stuck_running_ids ≠ [] := List.ne_nil_of_mem hstuck
        simp [Proc.only, Pc.only, Pc.executing, hstuck, hne]
      · by_cases hnil : db.list_stuck_running_ids = []
        · simp [Proc.only, Pc.only, Pc.executing, hnil]
        · simp [Proc.only, Pc.only, Pc.executing, hstuck, hnil]
  | _ =>
      obtain ⟨rfl, rfl⟩ := Prod.mk.inj (Option.some.inj h)
      rfl

/-- **The second step of the recovery**: they are requested again, `p` or others. -/
theorem exec_of_recovering
    {db db' : Db P} {ids : List P} {ws : List (Write P)} {pr' : Proc P} {c : Choice}
    (h : procStep w db ⟨.recovering ids, ws⟩ c = some (db', pr'))
    (hdb : t.db = db.only p sink)
    (hproc : t.procs i = ⟨(Pc.recovering ids).only p (db.runIndex p), []⟩) :
    exec (Sys.step w) t ((Pc.recovering ids).concerning p i c pr'.pc) =
      some { db := db'.only p sink,
             procs := Function.update t.procs i (pr'.only p (db'.runIndex p)) } := by
  by_cases hp : p ∈ ids
  · simp only [Pc.concerning, if_pos hp]
    rw [Pc.only, if_pos hp] at hproc
    refine exec_runner ?_
    rw [hdb, hproc]
    cases c <;> obtain ⟨rfl, rfl⟩ := Prod.mk.inj (Option.some.inj h)
    · rw [recovered_only hp]
      rfl
    · rfl
    · rw [recovered_only hp]
      rfl
    · rfl
  · simp only [Pc.concerning, if_neg hp]
    rw [Pc.only, if_neg hp] at hproc
    cases c <;> obtain ⟨rfl, rfl⟩ := Prod.mk.inj (Option.some.inj h)
    · rw [recovered_only_of_not_mem hp]
      exact exec_nil_update hdb hproc
    · rw [← hdb]
      exact exec_kill
    · rw [recovered_only_of_not_mem hp, ← hdb]
      exact exec_kill
    · rw [← hdb]
      exact exec_kill

/-- A step at an await point outside the dispatches of `p`. -/
theorem matched_of_not_executing
    {db db' : Db P} {K : Set Cell} {pc : Pc P} {ws : List (Write P)} {pr' : Proc P} {c : Choice}
    (h : procStep w db ⟨pc, ws⟩ c = some (db', pr'))
    (hin : Proc.InOrder db.runOwners ⟨pc, ws⟩) (hpc : ¬ pc.executing p)
    (hdb : t.db = db.only p sink) (hproc : t.procs i = Proc.only p (db.runIndex p) ⟨pc, ws⟩)
    (hK : AgreeOn K sink db'.store.sink) :
    Matched w p K i t db' pr' (pc.concerning p i c pr'.pc) := by
  refine ⟨sink, ?_, hK⟩
  rw [Proc.only, if_neg hpc] at hproc
  cases pc with
  | down =>
      cases h
  | recovery =>
      refine exec_runner ?_
      rw [hdb, hproc]
      exact procStep_only_of_recovery h
  | recovering ids =>
      exact exec_of_recovering h hdb hproc
  | started =>
      refine exec_runner ?_
      rw [hdb, hproc]
      cases c <;> obtain ⟨rfl, rfl⟩ := Prod.mk.inj (Option.some.inj h)
      · simp only [procStep, Pc.only, get_active_only]
        rfl
      all_goals rfl
  | polling =>
      refine exec_runner ?_
      rw [hdb, hproc]
      cases c <;> obtain ⟨rfl, rfl⟩ := Prod.mk.inj (Option.some.inj h)
      · simp only [procStep, Pc.only, get_active_only]
        rfl
      all_goals rfl
  | tick todo =>
      rcases todo with _ | ⟨⟨q, st⟩, todo⟩
      · obtain ⟨rfl, rfl⟩ := Prod.mk.inj (Option.some.inj h)
        refine exec_runner ?_
        rw [hdb, hproc]
        rfl
      · by_cases hq : q = p
        · subst hq
          simp only [Pc.concerning, if_true]
          rw [Pc.only, todoOnly_cons_self] at hproc
          refine exec_runner ?_
          rw [hdb, hproc]
          exact procStep_only_of_candidate h hin
        · simp only [Pc.concerning, if_neg hq]
          rw [Pc.only, todoOnly_cons_of_ne hq] at hproc
          obtain ⟨hsame, hpr⟩ := procStep_only_of_other_candidate sink h hq
          rw [hsame]
          exact exec_foreign hdb hproc (Listed.tail hin) hpr
  | dispatch q snap st todo =>
      have hq : q ≠ p := hpc
      obtain ⟨hst, hws, hlisted⟩ := hin
      rw [Pc.only, if_neg hq] at hproc
      simp only [Pc.concerning, if_neg hq]
      rcases procStep_dispatch h with ⟨res, rfl, rfl, rfl⟩ | ⟨a, ha, rfl, rfl⟩
      · refine exec_foreign hdb hproc hlisted ?_
        rcases afterDispatch_cases todo res with heq | heq <;> rw [heq]
        · exact Or.inl rfl
        · exact Or.inr ⟨trivial, rfl⟩
      · rw [stageStep_only_of_ne ha hq hst hws]
        refine exec_foreign hdb hproc hlisted (Or.inr ⟨trivial, ?_⟩)
        simp [Proc.only, Pc.only, Pc.executing, hq]

end Steps

end Processes

/-! ## Runs -/

section Runs

variable {ι P : Type} [DecidableEq ι] [DecidableEq P]

/-- Nothing is delivered into `K` for another pipeline. -/
def OthersSpare (p : P) (K : Set Cell) (s : Sys ι P) : Event ι P → Prop
  | .runner i c => ∀ x ∈ (s.procs i).sends c, x.1 = p ∨ ∀ a ∈ x.2, a.1 ∉ K
  | _ => True

instance (p : P) (K : Set Cell) [DecidablePred (· ∈ K)] (s : Sys ι P) :
    DecidablePred (OthersSpare p K s)
  | .runner i c =>
      inferInstanceAs (Decidable (∀ x ∈ (s.procs i).sends c, x.1 = p ∨ ∀ a ∈ x.2, a.1 ∉ K))
  | .run _ | .pause _ | .patch _ _ | .source _ | .kill _ | .spawn _ => .isTrue trivial

/-- Every process is in order, and its session clean. -/
structure Sys.InOrder (s : Sys ι P) : Prop where
  held : ∀ i, (s.procs i).InOrder s.db.runOwners
  clean : ∀ i, (s.procs i).Clean

omit [DecidableEq ι] in
theorem inOrder_of_resting
    {s : Sys ι P} (h : s.Resting) :
    s.InOrder := by
  refine ⟨fun i => ?_, fun i => clean_of_resting (h i).1 (h i).2⟩
  have hpc := (h i).1
  cases hcase : (s.procs i).pc with
  | tick todo =>
      rw [hcase] at hpc
      exact hpc.elim
  | dispatch q snap st todo =>
      rw [hcase] at hpc
      exact hpc.elim
  | _ =>
      simp [Proc.InOrder, hcase]

theorem runOwners_step
    {w : World} {s s' : Sys ι P} {e : Event ι P} (h : s.step w e = some s') :
    s.db.runOwners <+: s'.db.runOwners := by
  by_cases he : ∃ i c, e = .runner i c
  · obtain ⟨i, c, rfl⟩ := he
    obtain ⟨db, pr, hproc, rfl⟩ := Sys.step_runner_iff.mp h
    exact procStep_owners_grow hproc
  · obtain ⟨hruns, -⟩ := step_runs_of_request h (fun i c heq => he ⟨i, c, heq⟩)
    rw [Db.runOwners, Db.runOwners, hruns]

theorem inOrder_step
    {w : World} {s s' : Sys ι P} {e : Event ι P}
    (h : s.step w e = some s') (hin : s.InOrder) :
    s'.InOrder := by
  have hgrown := runOwners_step h
  refine ⟨fun j => ?_, clean_step h hin.clean⟩
  have hkeep : (s.procs j).InOrder s'.db.runOwners := (hin.held j).of_grown hgrown
  cases e with
  | runner i c =>
      obtain ⟨db, pr, hproc, rfl⟩ := Sys.step_runner_iff.mp h
      by_cases hj : j = i
      · subst hj
        simpa using procStep_inOrder hproc (hin.held j)
      · simpa [hj] using hkeep
  | kill i =>
      obtain rfl := Option.some.inj h
      by_cases hj : j = i
      · subst hj
        simp [Sys.setProc, Proc.InOrder]
      · simpa [Sys.setProc, hj] using hkeep
  | spawn i =>
      obtain ⟨-, rfl⟩ := Sys.step_spawn_iff.mp h
      by_cases hj : j = i
      · subst hj
        simp [Sys.setProc, Proc.InOrder]
      · simpa [Sys.setProc, hj] using hkeep
  | _ =>
      obtain rfl := Option.some.inj h
      exact hkeep

omit [DecidableEq ι] in
/-- What a process does for other pipelines leaves the cells of `K` alone. -/
theorem agreeOn_of_spared
    {w : World} {p : P} {K : Set Cell} {s : Sys ι P} {i : ι} {c : Choice} {db : Db P}
    {pr : Proc P} {sink : Sink} (hproc : procStep w s.db (s.procs i) c = some (db, pr))
    (hin : s.InOrder) (hspare : OthersSpare p K s (.runner i c))
    (hpc : ¬ (s.procs i).pc.executing p) (hK : AgreeOn K sink s.db.store.sink) :
    AgreeOn K sink db.store.sink := by
  have hothers : ∀ x ∈ (s.procs i).sends c, x.1 ≠ p := by
    intro x hx heq
    apply hpc
    unfold Proc.sends at hx
    cases hcase : (s.procs i).pc with
    | dispatch q snap st todo =>
        rw [hcase] at hx
        obtain ⟨item, -, rfl⟩ := List.mem_map.mp hx
        exact heq
    | _ =>
        rw [hcase] at hx
        cases hx
  intro cell hcell
  rw [hK cell hcell, procStep_sink hproc (hin.clean i)]
  refine (assignAll_of_not_mem _ _ (fun hmem => ?_)).symm
  obtain ⟨a, ha, rfl⟩ := List.mem_map.mp hmem
  obtain ⟨item, hitem, ha⟩ := List.mem_flatten.mp ha
  obtain ⟨x, hx, rfl⟩ := List.mem_map.mp hitem
  exact ((hspare x hx).resolve_left (hothers x hx)) a ha hcell

omit [DecidableEq ι] in
theorem setProc_only
    [DecidableEq ι] (p : P) (sink : Sink) (s : Sys ι P) (i : ι) {pr : Proc P} {pr' : Proc Unit}
    (hpr : pr.only p (s.db.runIndex p) = pr') :
    (s.only p sink).setProc i pr' = (s.setProc i pr).only p sink := by
  have hprocs : Function.update (s.only p sink).procs i pr' =
      fun j => (Function.update s.procs i pr j).only p (s.db.runIndex p) := by
    funext j
    by_cases hj : j = i
    · subst hj
      simp [hpr]
    · simp [hj, Sys.only]
  exact congrArg (fun procs => (⟨s.db.only p sink, procs⟩ : Sys ι Unit)) hprocs

/-- A request for `q` is the request, or nothing. -/
theorem exec_request
    {w : World} {p q : P} {s : Sys ι P} {sink : Sink} {db : Db P} (f : Db Unit → Db Unit)
    {e' : Event ι Unit} (hin : s.InOrder)
    (hdb : db.only p sink = if q = p then f (s.db.only p sink) else s.db.only p sink)
    (howners : db.runOwners = s.db.runOwners)
    (hstep : (s.only p sink).step w e' =
      some { s.only p sink with db := f (s.db.only p sink) }) :
    exec (Sys.step w) (s.only p sink) (if q = p then [e'] else []) =
      some (({ s with db := db } : Sys ι P).only p sink) := by
  have hprocs : (fun j => (s.procs j).only p (db.runIndex p)) = (s.only p sink).procs := by
    funext j
    exact Proc.only_of_grown (hin.held j) (howners ▸ List.prefix_rfl)
  have hsys : ({ s with db := db } : Sys ι P).only p sink =
      ⟨db.only p sink, (s.only p sink).procs⟩ :=
    congrArg (fun procs => (⟨db.only p sink, procs⟩ : Sys ι Unit)) hprocs
  rw [hsys, hdb]
  by_cases hq : q = p
  · simp only [if_pos hq, exec, hstep, Option.bind_some]
  · simp only [if_neg hq, exec]
    rfl

/-- **One event, seen from one pipeline.** -/
theorem step_only
    {w : World} {p : P} {K : Set Cell} {s s' : Sys ι P} {e : Event ι P} {sink : Sink}
    (h : s.step w e = some s') (hin : s.InOrder) (hspare : OthersSpare p K s e)
    (hK : AgreeOn K sink s.db.store.sink) :
    ∃ sink', exec (Sys.step w) (s.only p sink) (s.concerning p e s') = some (s'.only p sink') ∧
      AgreeOn K sink' s'.db.store.sink := by
  cases e with
  | run q =>
      obtain rfl := Option.some.inj h
      refine ⟨sink, exec_request (Db.run_pipeline · ()) hin
        (run_pipeline_only p q sink s.db) ?_ rfl, ?_⟩
      · rw [Db.run_pipeline_eq]
        exact runOwners_updateStatus _ _ s.db q
      · rw [Db.store_run_pipeline]
        exact hK
  | pause q =>
      obtain rfl := Option.some.inj h
      refine ⟨sink, exec_request (Db.pause_pipeline · ()) hin
        (pause_pipeline_only p q sink s.db) ?_ rfl, ?_⟩
      · rw [Db.pause_pipeline_eq]
        exact runOwners_updateStatus _ _ s.db q
      · rw [Db.store_pause_pipeline]
        exact hK
  | patch q row =>
      obtain rfl := Option.some.inj h
      exact ⟨sink, exec_request (Db.patchConfig · () row) hin
        (patchConfig_only p q sink s.db row) rfl rfl, hK⟩
  | source src =>
      obtain rfl := Option.some.inj h
      exact ⟨sink, rfl, hK⟩
  | kill i =>
      obtain rfl := Option.some.inj h
      refine ⟨sink, ?_, hK⟩
      rw [← setProc_only p sink s i rfl]
      rfl
  | spawn i =>
      obtain ⟨hdown, rfl⟩ := Sys.step_spawn_iff.mp h
      refine ⟨sink, ?_, hK⟩
      have hdown' : ((s.only p sink).procs i).pc = .down := by
        simp [Sys.only, Proc.only, hdown, Pc.only]
      have hstep : (s.only p sink).step w (.spawn i) =
          some ((s.only p sink).setProc i ⟨.recovery, []⟩) :=
        Sys.step_spawn_iff.mpr ⟨hdown', rfl⟩
      rw [← setProc_only p sink s i rfl]
      simp only [Sys.concerning, exec, hstep, Option.bind_some]
      rfl
  | runner i c =>
      obtain ⟨db, pr, hproc, rfl⟩ := Sys.step_runner_iff.mp h
      have hprocs : Function.update (s.only p sink).procs i (pr.only p (db.runIndex p)) =
          fun j => (Function.update s.procs i pr j).only p (db.runIndex p) := by
        funext j
        by_cases hj : j = i
        · subst hj
          simp
        · simpa [hj, Sys.only] using
            (Proc.only_of_grown (hin.held j) (procStep_owners_grow hproc)).symm
      have hmatched : Matched w p K i (s.only p sink) db pr
          ((s.procs i).pc.concerning p i c pr.pc) := by
        by_cases hpc : (s.procs i).pc.executing p
        · exact matched_of_executing hproc (hin.held i) hpc rfl rfl hK
        · exact matched_of_not_executing hproc (hin.held i) hpc rfl rfl
            (agreeOn_of_spared hproc hin hspare hpc hK)
      obtain ⟨sink', hexec, hK'⟩ := hmatched
      refine ⟨sink', ?_, hK'⟩
      rw [hprocs] at hexec
      simpa [Sys.concerning, Sys.only] using hexec

/--
**Pipelines do not interfere.**  Every run of the platform is, for each of its
pipelines, a run of the platform that has this pipeline only, with the requests
for it in the same order.  At its end the row of the pipeline, its run rows, its
checkpoint and the dispatches of it are the same in both, and so is every cell
of the sink nobody has delivered into for another pipeline.
-/
theorem pipelines_do_not_interfere
    {w : World} {p : P} {K : Set Cell} {s s' : Sys ι P} {es : List (Event ι P)}
    (hrest : s.Resting)
    (hpath : Path (Sys.step w) (fun s e _ => OthersSpare p K s e) s es s') :
    ∃ sink,
      exec (Sys.step w) (s.only p s.db.store.sink)
          (trace (Sys.step w) (Sys.concerning p) s es) = some (s'.only p sink) ∧
        ∀ c ∈ K, sink c = s'.db.store.sink c := by
  obtain ⟨t, hexec, -, sink, rfl, hK⟩ := hpath.simulates
    (R := fun s t => s.InOrder ∧ ∃ sink, t = s.only p sink ∧ AgreeOn K sink s.db.store.sink)
    ⟨inOrder_of_resting hrest, s.db.store.sink, rfl, fun _ _ => rfl⟩
    (fun s e s' t hR hspare hstep => by
      obtain ⟨hin, sink, rfl, hK⟩ := hR
      obtain ⟨sink', hexec, hK'⟩ := step_only hstep hin hspare hK
      exact ⟨_, hexec, inOrder_step hstep hin, sink', rfl, hK'⟩)
  exact ⟨sink, hexec, hK⟩

/-- Two film pipelines with one target, one to be run and one to be paused. -/
def twoFilmPipelines : Sys Unit Bool :=
  Sys.polling { twoRequests with
    store := { twoRequests.store with source := filmSource [filmExample] } }

/-- A whole tick: a run, and a pause. -/
def tickOfTwo : List (Event Unit Bool) :=
  List.replicate 20 (.runner () .ok)

theorem tickOfTwo_does_not_interfere :
    ∃ (s' : Sys Unit Bool) (sink : Sink),
      exec (Sys.step World.plain) twoFilmPipelines tickOfTwo = some s' ∧
      exec (Sys.step World.plain) (twoFilmPipelines.only true (fun _ => none))
          (trace (Sys.step World.plain) (Sys.concerning true) twoFilmPipelines tickOfTwo) =
        some (s'.only true sink) ∧
      ∀ c ∈ ({filmCell} : Set Cell), sink c = s'.db.store.sink c := by
  have hrun : (exec (guarded (Sys.step World.plain) (OthersSpare true {filmCell}))
      twoFilmPipelines tickOfTwo).isSome = true := by
    decide +kernel
  obtain ⟨s', hexec⟩ := Option.isSome_iff_exists.mp hrun
  have hpath := Path.of_exec_guarded hexec
  obtain ⟨sink, honly, hK⟩ :=
    pipelines_do_not_interfere (Sys.resting_polling _) hpath
  exact ⟨s', sink, hpath.exec_eq, honly, hK⟩

end Runs

end EtlPlatform
