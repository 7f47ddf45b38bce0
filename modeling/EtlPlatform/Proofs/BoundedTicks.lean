import EtlPlatform.Library.RunAccounts
import EtlPlatform.Proofs.BatchRule
import EtlPlatform.Proofs.Claims
import EtlPlatform.Proofs.DispatchFlow
import EtlPlatform.Proofs.LoopProgress
import EtlPlatform.Proofs.ProcessFrame

/-!
# Every tick ends

A tick works through the candidates it has listed.  Over tables and
configurations that stay as they are, it is over after a number of its own steps
that is known when it begins: each attempt reads its rows in at most as many
batches as there are rows, and there are at most `max_attempts` of them.  What
the other processes and the API do meanwhile, and how the statements of the tick
are answered, makes no difference.
-/

namespace EtlPlatform

open Library

section Stages

variable {P : Type}

/-- Steps after a failed attempt `k` over `n` rows, up to the return of the dispatch. -/
def afterAttempt (w : World) (n k : ℕ) : ℕ :=
  (w.max_attempts - k) * (6 * n + 10) + 3

/-- Steps of a batch loop up to the return of its dispatch, without those of later attempts. -/
def LoopPc.steps (left : LoopVars → ℕ) (n : ℕ) : LoopPc → ℕ
  | .setup => 6 * n + 7
  | .fetch v => 6 * left v + 6
  | .transform v _ => 6 * left v + 5
  | .write v _ _ => 6 * left v + 4
  | .advance v _ _ _ => 6 * left v + 3
  | .commit v => 6 * left v + 8
  | .pauseRead v => 6 * left v + 7
  | .pauseApply _ => 5
  | .close _ _ => 4

/-- What is in hand was fetched from `src`, and transformed. -/
def LoopPc.Computed (bl : BatchLoop P) (src : Source) : LoopPc → Prop
  | .transform v rows =>
      rows ≠ [] ∧ ∃ st : Store P, st.source = src ∧ bl.query st v = .ok rows
  | .write v rows res =>
      bl.transform rows = .ok res ∧
        rows ≠ [] ∧ ∃ st : Store P, st.source = src ∧ bl.query st v = .ok rows
  | .advance v rows left _ =>
      ∃ res, left = res.left ∧ bl.transform rows = .ok res ∧
        rows ≠ [] ∧ ∃ st : Store P, st.source = src ∧ bl.query st v = .ok rows
  | _ => True

/-- A dispatch over `n` rows returns within `N` steps. -/
def Stage.EndsWithin (w : World) (src : Source) (n N : ℕ) : Stage P → Prop
  | .snapshot => w.max_attempts * (6 * n + 10) + 3 ≤ N
  | .startRun k => k ≤ w.max_attempts ∧ afterAttempt w n k + (6 * n + 9) ≤ N
  | .runBody k _ => afterAttempt w n k + (6 * n + 8) ≤ N
  | .loop k _ bl pc =>
      ∃ left, bl.Progress src left n ∧ pc.Computed bl src ∧
        afterAttempt w n k + pc.steps left n ≤ N
  | .finishSuccess k _ _ _ => afterAttempt w n k + 3 ≤ N
  | .getStatus k _ | .rollback k _ _ => afterAttempt w n k + 2 ≤ N
  | .finishIdle k _ | .finishFailed k _ _ => afterAttempt w n k + 1 ≤ N
  | .sleep k _ => k < w.max_attempts ∧ afterAttempt w n k ≤ N
  | .failIfActive _ => 2 ≤ N
  | .returning _ => 1 ≤ N

/-- A retry costs one attempt. -/
theorem afterAttempt_of_lt
    {w : World} {n k : ℕ} (h : k < w.max_attempts) :
    afterAttempt w n k = afterAttempt w n (k + 1) + (6 * n + 10) := by
  have hsucc : w.max_attempts - k = w.max_attempts - (k + 1) + 1 := by omega
  rw [afterAttempt, afterAttempt, hsucc, Nat.add_mul]
  omega

theorem three_le_afterAttempt
    (w : World) (n k : ℕ) :
    3 ≤ afterAttempt w n k := by
  rw [afterAttempt]
  omega

/-- The handler of the dispatcher leaves the later attempts. -/
theorem endsWithin_of_handles
    {w : World} {src : Source} {n N k : ℕ} {st : Stage P}
    (h : Handles w k st) (hN : afterAttempt w n k ≤ N) :
    st.EndsWithin w src n N := by
  have hthree := three_le_afterAttempt w n k
  cases h with
  | leaves res =>
      change 1 ≤ N
      omega
  | waits delay hlt =>
      exact ⟨hlt, hN⟩
  | givesUp exc =>
      change 2 ≤ N
      omega

theorem lt_of_attempt
    {w : World} {src : Source} {n N k : ℕ} {st : Stage P}
    (h : st.attempt = some k) (hN : st.EndsWithin w src n N) :
    afterAttempt w n k < N := by
  cases st with
  | startRun j =>
      obtain rfl := Option.some.inj h
      obtain ⟨-, hle⟩ := hN
      omega
  | loop j r bl pc =>
      obtain rfl := Option.some.inj h
      obtain ⟨left, -, -, hle⟩ := hN
      have hpos : 0 < pc.steps left n := by
        cases pc <;> simp [LoopPc.steps]
      omega
  | _ =>
      simp only [Stage.attempt, Option.some.injEq, reduceCtorEq] at h
      try
        subst h
        simp only [Stage.EndsWithin] at hN
        omega

theorem lt_of_tries
    {w : World} {src : Source} {n N k r : ℕ} {st : Stage P}
    (h : st.tries = some (k, r)) (hN : st.EndsWithin w src n N) :
    afterAttempt w n k + 2 < N := by
  cases st with
  | runBody j r' =>
      obtain ⟨rfl, -⟩ := Prod.mk.inj (Option.some.inj h)
      simp only [Stage.EndsWithin] at hN
      omega
  | loop j r' bl pc =>
      obtain ⟨rfl, -⟩ := Prod.mk.inj (Option.some.inj h)
      obtain ⟨left, -, -, hle⟩ := hN
      have hpos : 2 < pc.steps left n := by
        cases pc <;> simp only [LoopPc.steps] <;> omega
      omega
  | finishSuccess j r' exit v =>
      obtain ⟨rfl, -⟩ := Prod.mk.inj (Option.some.inj h)
      simp only [Stage.EndsWithin] at hN
      omega
  | _ =>
      cases h

/-- **One edge of a batch loop** is one step towards its end. -/
theorem steps_of_loopEdge
    {bl : BatchLoop P} {store : Store P} {left : LoopVars → ℕ} {n : ℕ} {pc pc' : LoopPc}
    (hprogress : bl.Progress store.source left n)
    (h : LoopEdge bl store pc pc') (hpc : pc.Computed bl store.source) :
    pc'.steps left n < pc.steps left n ∧ pc'.Computed bl store.source := by
  cases h with
  | start hsetup =>
      have hle := hprogress.starts hsetup
      refine ⟨?_, trivial⟩
      simp only [LoopPc.steps]
      omega
  | fetched hquery hne =>
      exact ⟨by simp [LoopPc.steps], hne, store, rfl, hquery⟩
  | transformed hres =>
      exact ⟨by simp [LoopPc.steps], hres, hpc⟩
  | skipped hnil =>
      exact ⟨by simp [LoopPc.steps], _, rfl, hpc⟩
  | written hne hwrite =>
      exact ⟨by simp [LoopPc.steps], _, rfl, hpc⟩
  | advanced hadvance =>
      obtain ⟨res, rfl, hres, hne, st, hsrc, hquery⟩ := hpc
      have hless := hprogress.advances hsrc hquery hne hres hadvance
      refine ⟨?_, trivial⟩
      simp only [LoopPc.steps]
      omega
  | _ =>
      refine ⟨?_, trivial⟩
      simp only [LoopPc.steps]
      omega

variable [DecidableEq P]

/-- **One edge of a dispatch** is one step towards its return. -/
theorem endsWithin_of_edge
    {w : World} {store : Store P} {p : P} {snap : PipelineSnapshot} {st st' : Stage P} {N : ℕ}
    (h : StageEdge w store p snap st st')
    (hsteady : ∀ k r, st = .runBody k r → snap.Steady w store.source)
    {n : ℕ}
    (hn : ∀ k r, st = .runBody k r → n = (rowsOf store.source snap.readerQuery).length)
    (hN : st.EndsWithin w store.source n (N + 1)) :
    st'.EndsWithin w store.source n N := by
  cases h with
  | begins hmax =>
      have hfirst := afterAttempt_of_lt (w := w) (n := n) hmax
      have hall : afterAttempt w n 0 = w.max_attempts * (6 * n + 10) + 3 := by
        rw [afterAttempt, Nat.sub_zero]
      rw [hall, Nat.zero_add] at hfirst
      simp only [Stage.EndsWithin] at hN ⊢
      exact ⟨hmax, by omega⟩
  | leaves res =>
      simp only [Stage.EndsWithin] at hN ⊢
      omega
  | opens k r =>
      simp only [Stage.EndsWithin] at hN ⊢
      omega
  | @plans k r bl hbl =>
      obtain ⟨left, hprogress⟩ := exists_progress hbl (hsteady k r rfl)
      rw [← hn k r rfl] at hprogress
      refine ⟨left, hprogress, trivial, ?_⟩
      simp only [Stage.EndsWithin, LoopPc.steps] at hN ⊢
      omega
  | loops hedge =>
      obtain ⟨left, hprogress, hpc, hle⟩ := hN
      obtain ⟨hless, hpc'⟩ := steps_of_loopEdge hprogress hedge hpc
      exact ⟨left, hprogress, hpc', by omega⟩
  | closes =>
      obtain ⟨left, -, -, hle⟩ := hN
      simp only [Stage.EndsWithin, LoopPc.steps] at hle ⊢
      omega
  | succeeds =>
      simp only [Stage.EndsWithin] at hN ⊢
      omega
  | finds =>
      simp only [Stage.EndsWithin] at hN ⊢
      omega
  | @settles k exit _ hst =>
      have hthree := three_le_afterAttempt w n k
      rcases hst with rfl | rfl <;> simp only [Stage.EndsWithin] at hN ⊢ <;> omega
  | fails exc htries =>
      have hless := lt_of_tries htries hN
      simp only [Stage.EndsWithin]
      omega
  | rolledBack =>
      simp only [Stage.EndsWithin] at hN ⊢
      omega
  | handled hattempt hhandles =>
      exact endsWithin_of_handles hhandles (Nat.le_of_lt_succ (lt_of_attempt hattempt hN))
  | retries =>
      obtain ⟨hlt, hle⟩ := hN
      rw [afterAttempt_of_lt hlt] at hle
      exact ⟨hlt, by omega⟩
  | gaveUp res =>
      simp only [Stage.EndsWithin] at hN ⊢
      omega

end Stages

/-! ## Ticks -/

section Ticks

variable {P : Type}

/-- Rows the reader of a pipeline returns. -/
def rowsRead (src : Source) (pl : PipelineSnapshot) : ℕ :=
  (rowsOf src pl.readerQuery).length

/-- Steps one candidate of a tick can take. -/
def candidateSteps (w : World) (src : Source) (cfg : P → PipelineSnapshot) :
    P × PipelineStatus → ℕ
  | (p, .RUN_REQUESTED) => w.max_attempts * (6 * rowsRead src (cfg p) + 10) + 4
  | _ => 1

/-- Steps a tick with the given candidates can take. -/
def tickSteps (w : World) (src : Source) (cfg : P → PipelineSnapshot)
    (todo : List (P × PipelineStatus)) : ℕ :=
  (todo.map (candidateSteps w src cfg)).sum + 1

theorem tickSteps_cons
    (w : World) (src : Source) (cfg : P → PipelineSnapshot) (x : P × PipelineStatus)
    (todo : List (P × PipelineStatus)) :
    tickSteps w src cfg (x :: todo) = candidateSteps w src cfg x + tickSteps w src cfg todo := by
  simp [tickSteps, Nat.add_assoc]

theorem candidateSteps_pos
    (w : World) (src : Source) (cfg : P → PipelineSnapshot) (x : P × PipelineStatus) :
    1 ≤ candidateSteps w src cfg x := by
  obtain ⟨p, s⟩ := x
  cases s <;> simp [candidateSteps]

variable [DecidableEq P]

/-- The tick the process is in, if it is in one, ends within `N` steps. -/
def Pc.EndsWithin (w : World) (src : Source) (cfg : P → PipelineSnapshot) (db : Db P) (N : ℕ) :
    Pc P → Prop
  | .tick todo =>
      (∀ x ∈ todo, (cfg x.1).Steady w src) ∧ tickSteps w src cfg todo ≤ N
  | .dispatch p snap st todo =>
      ((cfg p).Steady w src ∧ ∀ x ∈ todo, (cfg x.1).Steady w src) ∧
        BatchInvariant.AtSnapshot cfg db p snap st ∧
        ∃ m, st.EndsWithin w src (rowsRead src (cfg p)) m ∧ m + tickSteps w src cfg todo ≤ N
  | _ => True

variable {w : World} {src : Source} {cfg : P → PipelineSnapshot}

omit [DecidableEq P] in
/-- A dispatch that has not returned has a step to take. -/
theorem pos_of_endsWithin
    {n m : ℕ} {st : Stage P} (h : st.EndsWithin w src n m) :
    0 < m := by
  refine Nat.pos_of_ne_zero ?_
  rintro rfl
  cases st <;> simp_all [Stage.EndsWithin, afterAttempt, LoopPc.steps]

omit [DecidableEq P] in
/-- A candidate that claims nothing is one candidate less. -/
theorem endsWithin_of_turn
    {db : Db P} {pr : Proc P} {x : P × PipelineStatus} {todo : List (P × PipelineStatus)} {N : ℕ}
    (h : pr = ⟨.polling, []⟩ ∨ pr = ⟨.tick todo, []⟩)
    (hsteady : ∀ y ∈ x :: todo, (cfg y.1).Steady w src)
    (hN : tickSteps w src cfg (x :: todo) ≤ N) :
    ∃ N', pr.pc.EndsWithin w src cfg db N' ∧ 1 + N' ≤ N := by
  rw [tickSteps_cons] at hN
  have hpos := candidateSteps_pos w src cfg x
  refine ⟨tickSteps w src cfg todo, ?_, by omega⟩
  rcases h with rfl | rfl
  · trivial
  · exact ⟨fun y hy => hsteady y (List.mem_cons_of_mem _ hy), le_rfl⟩

/-- **One step of a dispatch** is one step towards the end of the tick. -/
theorem stageStep_endsWithin
    {db : Db P} {ws : List (Write P)} {p : P} {snap : PipelineSnapshot} {st : Stage P}
    {todo : List (P × PipelineStatus)} {c : Choice} {a : After P} {N : ℕ}
    (h : stageStep w (db, ws) p snap st c = some a) (hsrc : db.store.source = src)
    (hN : (Pc.dispatch p snap st todo).EndsWithin w src cfg db N) :
    ∃ N', (Pc.dispatch p (nextSnapshot db p snap st c) a.stage todo).EndsWithin w src cfg a.db N' ∧
      1 + N' ≤ N := by
  obtain ⟨hsteady, hsnap, m, hm, hle⟩ := hN
  obtain ⟨m, rfl⟩ := Nat.exists_eq_succ_of_ne_zero (pos_of_endsWithin hm).ne'
  subst hsrc
  have hbody : ∀ k r, st = .runBody k r → snap = cfg p := by
    rintro k r rfl
    exact hsnap
  have hm' : a.stage.EndsWithin w db.store.source (rowsRead db.store.source (cfg p)) m := by
    refine endsWithin_of_edge (stageStep_edge h) (fun k r hst => ?_) (fun k r hst => ?_) hm
    · rw [hbody k r hst]
      exact hsteady.1
    · rw [hbody k r hst, rowsRead]
  refine ⟨m + tickSteps w db.store.source cfg todo, ?_, by omega⟩
  exact ⟨hsteady, BatchInvariant.atSnapshot_step h hsnap, m, hm', le_rfl⟩

/-- **One step of a process** is one step towards the end of its tick. -/
theorem procStep_endsWithin
    {db db' : Db P} {pr pr' : Proc P} {c : Choice} {N : ℕ}
    (h : procStep w db pr c = some (db', pr'))
    (hconfig : ∀ p, db.config p = cfg p) (hsrc : db.store.source = src)
    (hin : pr.pc.inTick) (hN : pr.pc.EndsWithin w src cfg db N) :
    ∃ N', pr'.pc.EndsWithin w src cfg db' N' ∧ 1 + N' ≤ N := by
  have htasks : db'.tasks = db.tasks := (procStep_sameConfig h).1
  cases procStep_effect h with
  | waits hpc =>
      rcases hpc with rfl | rfl | rfl
      · exact hin.elim
      · exact hin.elim
      · exact ⟨0, trivial, hN.2⟩
  | skipped hpause hrun =>
      exact endsWithin_of_turn (Or.inr rfl) hN.1 hN.2
  | offered hdb hpr =>
      exact endsWithin_of_turn hpr hN.1 hN.2
  | unclaimed hdb hpr =>
      exact endsWithin_of_turn hpr hN.1 hN.2
  | @claimed p todo ws hreq =>
      obtain ⟨hsteady, hle⟩ := hN
      rw [tickSteps_cons, candidateSteps] at hle
      refine ⟨w.max_attempts * (6 * rowsRead src (cfg p) + 10) + 3 + tickSteps w src cfg todo,
        ⟨⟨hsteady _ List.mem_cons_self, fun y hy => hsteady y (List.mem_cons_of_mem _ hy)⟩, ?_,
          _, le_rfl, le_rfl⟩, by omega⟩
      change snapshot_pipeline_with_tasks _ ((db.claim_run_requested p).tasks p) = cfg p
      rw [htasks, ← hconfig p]
      rfl
  | @returned p snap res todo ws c pr' hpr =>
      obtain ⟨hsteady, -, m, hm, hle⟩ := hN
      have hpos : 1 ≤ m := hm
      refine ⟨tickSteps w src cfg todo, ?_, by omega⟩
      rcases hpr with rfl | rfl
      · trivial
      · exact ⟨hsteady.2, le_rfl⟩
  | stepped hst =>
      exact stageStep_endsWithin hst hsrc hN
  | listed =>
      exact hin.elim
  | recovered hpc =>
      exact hin.elim
  | died hpc =>
      rcases hpc with rfl | ⟨ids, rfl⟩ <;> exact hin.elim
  | began hpc =>
      rcases hpc with rfl | rfl <;> exact hin.elim

end Ticks

/-! ## The platform -/

section Platform

variable {ι P : Type} [DecidableEq ι] [DecidableEq P]

/-- The process is inside its tick, and neither dies nor meets another source or configuration. -/
def TickGoesOn (i : ι) (s : Sys ι P) : Event ι P → Prop
  | .kill j => (s.procs i).pc.inTick ∧ j ≠ i
  | .patch _ _ | .source _ => False
  | _ => (s.procs i).pc.inTick

instance (i : ι) (s : Sys ι P) : DecidablePred (TickGoesOn i s)
  | .kill j => inferInstanceAs (Decidable ((s.procs i).pc.inTick ∧ j ≠ i))
  | .patch _ _ | .source _ => .isFalse id
  | .run _ | .pause _ | .spawn _ | .runner _ _ =>
      inferInstanceAs (Decidable (s.procs i).pc.inTick)

/-- `1` at a step of the process. -/
def ownSteps (i : ι) (_ : Sys ι P) : Event ι P → ℕ
  | .runner j _ => if j = i then 1 else 0
  | _ => 0

/-- The tick of the process ends within `N` of its steps. -/
structure TickEndsWithin (w : World) (src : Source) (cfg : P → PipelineSnapshot) (i : ι)
    (s : Sys ι P) (N : ℕ) : Prop where
  config : ∀ p, s.db.config p = cfg p
  source : s.db.store.source = src
  alive : (s.procs i).pc ≠ .down
  within : (s.procs i).pc.EndsWithin w src cfg s.db N

variable {w : World} {src : Source} {cfg : P → PipelineSnapshot}

omit [DecidableEq ι] [DecidableEq P] in
/-- While others step, the database may change, but not what the tick works with. -/
theorem TickEndsWithin.elsewhere
    {i : ι} {s s' : Sys ι P} {N : ℕ}
    (hN : TickEndsWithin w src cfg i s N) (hsame : SameConfig s.db s'.db)
    (hsource : s'.db.store.source = s.db.store.source) (hproc : s'.procs i = s.procs i) :
    TickEndsWithin w src cfg i s' N := by
  refine ⟨fun p => (hsame.config_eq p).trans (hN.config p), hsource.trans hN.source,
    hproc ▸ hN.alive, ?_⟩
  have hwithin := hN.within
  rw [hproc]
  cases hpc : (s.procs i).pc with
  | dispatch p snap st todo =>
      rw [hpc] at hwithin
      obtain ⟨hsteady, hsnap, hm⟩ := hwithin
      refine ⟨hsteady, ?_, hm⟩
      cases st with
      | snapshot =>
          change snapshot_pipeline_with_tasks snap (s'.db.tasks p) = cfg p
          rw [hsame.1]
          exact hsnap
      | _ =>
          exact hsnap
  | _ =>
      rw [hpc] at hwithin
      exact hwithin

/-- **One event** brings the end of the tick one step closer, if it is one of the process. -/
theorem TickEndsWithin.step
    {i : ι} {s s' : Sys ι P} {e : Event ι P} {N : ℕ}
    (hN : TickEndsWithin w src cfg i s N) (hgoes : TickGoesOn i s e) (h : s.step w e = some s') :
    ∃ N', TickEndsWithin w src cfg i s' N' ∧ ownSteps i s e + N' ≤ N := by
  cases e with
  | run q =>
      obtain rfl := Option.some.inj h
      exact ⟨N, hN.elsewhere (sameConfig_run_pipeline s.db q) (by rw [Db.store_run_pipeline]) rfl,
        by simp [ownSteps]⟩
  | pause q =>
      obtain rfl := Option.some.inj h
      exact ⟨N, hN.elsewhere (sameConfig_pause_pipeline s.db q)
        (by rw [Db.store_pause_pipeline]) rfl, by simp [ownSteps]⟩
  | patch q row =>
      exact hgoes.elim
  | source src' =>
      exact hgoes.elim
  | kill j =>
      obtain rfl := Option.some.inj h
      have hproc : (s.setProc j ⟨.down, []⟩).procs i = s.procs i :=
        Function.update_of_ne (fun heq => hgoes.2 heq.symm) _ _
      exact ⟨N, hN.elsewhere (.refl _) rfl hproc, by simp [ownSteps]⟩
  | spawn j =>
      obtain ⟨hdown, rfl⟩ := Sys.step_spawn_iff.mp h
      have hne : i ≠ j := by
        rintro rfl
        exact hN.alive hdown
      have hproc : (s.setProc j ⟨.recovery, []⟩).procs i = s.procs i :=
        Function.update_of_ne hne _ _
      exact ⟨N, hN.elsewhere (.refl _) rfl hproc, by simp [ownSteps]⟩
  | runner j c =>
      obtain ⟨db, pr, hproc, rfl⟩ := Sys.step_runner_iff.mp h
      have hsame := procStep_sameConfig hproc
      have hsource := procStep_source hproc
      by_cases hj : j = i
      · subst hj
        obtain ⟨N', hN', hle⟩ := procStep_endsWithin hproc hN.config hN.source hgoes hN.within
        refine ⟨N', ⟨fun p => (hsame.config_eq p).trans (hN.config p), hsource.trans hN.source,
          ?_, ?_⟩, ?_⟩
        · simpa using procStep_alive hproc hgoes
        · simpa using hN'
        · simpa [ownSteps] using hle
      · have hstays : Function.update s.procs j pr i = s.procs i :=
          Function.update_of_ne (fun heq => hj heq.symm) _ _
        exact ⟨N, hN.elsewhere hsame hsource hstays, by simp [ownSteps, hj]⟩

/-- **Every tick ends.** -/
theorem tick_ends
    {s s' : Sys ι P} {es : List (Event ι P)} {i : ι} {todo : List (P × PipelineStatus)}
    (htick : (s.procs i).pc = .tick todo)
    (hsteady : ∀ x ∈ todo, (s.db.config x.1).Steady w s.db.store.source)
    (h : Path (Sys.step w) (fun s e _ => TickGoesOn i s e) s es s') :
    cost (Sys.step w) (ownSteps i) s es ≤ tickSteps w s.db.store.source s.db.config todo ∧
      (s'.step w (.runner i .ok)).isSome = true := by
  have hstart : TickEndsWithin w s.db.store.source s.db.config i s
      (tickSteps w s.db.store.source s.db.config todo) :=
    ⟨fun _ => rfl, rfl, by simp [htick], by rw [htick]; exact ⟨hsteady, le_rfl⟩⟩
  obtain ⟨N', hend, hcost⟩ := h.cost_le_of_within (c := ownSteps i) hstart
    (fun s e s' N hN hgoes hs => hN.step hgoes hs)
  refine ⟨by omega, ?_⟩
  rw [Sys.step, Option.isSome_map]
  exact procStep_isSome w s'.db hend.alive

/-- A tick that has listed the film pipeline, over two films read one by one. -/
def filmTick : Sys Unit Unit where
  db := Db.single (filmPipeline .incremental 1 .RUN_REQUESTED) twoFilms
  procs _ := ⟨.tick [((), .RUN_REQUESTED)], []⟩

/-- The first attempt fails at its commit, a pause is asked for and taken back, and the second
attempt reads everything. -/
def filmTickRun : List (Event Unit Unit) :=
  List.replicate 8 (.runner () .ok) ++
    [.runner () (.raise (statementError "SerializationError" "could not serialize access")),
      .pause (), .run ()] ++
    List.replicate 12 (.runner () .ok)

/-- The film pipeline has steady keys. -/
theorem steady_filmTick :
    (filmTick.db.config ()).Steady World.plain filmTick.db.store.source := by
  intro _
  refine ⟨fun path fn h => (by cases h), ?_⟩
  have hkeys : incKey (filmTick.db.config ()) = "updated_at" ∧
      idKey (filmTick.db.config ()) = "film_id" ∧
      rowsOf filmTick.db.store.source (filmTick.db.config ()).readerQuery = twoFilms := by
    decide +kernel
  obtain ⟨hinc, hid, hrows⟩ := hkeys
  rw [hinc, hid, hrows]
  exact .of_lower (by decide +kernel) (by decide +kernel) (by decide +kernel)

theorem tick_ends_films :
    ∃ s' : Sys Unit Unit, exec (Sys.step World.plain) filmTick filmTickRun = some s' ∧
      cost (Sys.step World.plain) (ownSteps ()) filmTick filmTickRun = 21 ∧
      cost (Sys.step World.plain) (ownSteps ()) filmTick filmTickRun ≤ 71 ∧
      (s'.step World.plain (.runner () .ok)).isSome = true := by
  have hrun : (exec (guarded (Sys.step World.plain) (TickGoesOn ())) filmTick
      filmTickRun).isSome = true := by
    decide +kernel
  obtain ⟨s', hexec⟩ := Option.isSome_iff_exists.mp hrun
  have hpath := Path.of_exec_guarded hexec
  have hbound : tickSteps World.plain filmTick.db.store.source filmTick.db.config
      [((), .RUN_REQUESTED)] = 71 := by
    decide +kernel
  have hlisted : (filmTick.procs ()).pc = .tick [((), .RUN_REQUESTED)] := rfl
  obtain ⟨hcost, hgoes⟩ := tick_ends hlisted (fun _ _ => steady_filmTick) hpath
  exact ⟨s', hpath.exec_eq, by decide +kernel, hbound ▸ hcost, hgoes⟩

end Platform

end EtlPlatform
