import EtlPlatform.Proofs.AllowedTargets
import EtlPlatform.Proofs.AttemptBudget
import EtlPlatform.Proofs.Deliveries
import EtlPlatform.Proofs.LoopProgress
import EtlPlatform.Proofs.RunHistory

/-!
# The counters of a run

A run counts the rows it fetches and the rows it writes in local variables, and
`finish_success` stores them in its row of `etl_runs`.  The counters of a row
that ends as `SUCCESS` are exact: `rows_read` is the number of rows the batch
queries of this run have returned, `rows_written` the number of rows it has
delivered to its sink, across batches, pauses and whatever the other processes
do with the same tables.  In every other row they are 0.
-/

namespace EtlPlatform

open Library

/-! ## What a run counts -/

section Counting

variable {P : Type}

/-- The rows the statement of a stage fetches. -/
def Stage.fetches (st : Stage P) (store : Store P) (c : Choice) : ℕ :=
  match st, c with
  | .loop _ _ bl (.fetch v), .ok => ((bl.query store v).toOption.getD []).length
  | _, _ => 0

/-- The loop starts counting at 0, and counts what it has fetched and written. -/
structure BatchLoop.Counts (bl : BatchLoop P) : Prop where
  setup : ∀ st v, bl.setup st = .ok v → v.total_read = 0 ∧ v.total_written = 0
  advance : ∀ v fetched left n v' ws, bl.advance v fetched left n = .ok (v', ws) →
    v'.total_read = v.total_read + fetched.length ∧
      v'.total_written = v.total_written + n ∧ upsertsOf ws = []

theorem IncrementalPlan.loop_counts
    (w : World) (p : P) (plan : IncrementalPlan) :
    (plan.loop w p).Counts where
  setup st v h := by
    obtain ⟨c, -, rfl⟩ := map_eq_ok_iff.mp h
    exact ⟨rfl, rfl⟩
  advance v fetched left n v' ws h := by
    simp only [IncrementalPlan.loop, advanceIncremental, bind_eq_ok_iff, pure_eq_ok_iff] at h
    obtain ⟨c, -, heq⟩ := h
    obtain ⟨rfl, rfl⟩ := Prod.mk.inj heq
    exact ⟨rfl, rfl, rfl⟩

theorem FullRuns.FullPlan.loop_counts
    (w : World) (plan : FullRuns.FullPlan) (next : ℕ → List Row → ℕ) :
    (plan.loop w next : BatchLoop P).Counts where
  setup st v h := by
    obtain rfl := Except.ok.inj h
    exact ⟨rfl, rfl⟩
  advance v fetched left n v' ws h := by
    obtain ⟨rfl, rfl⟩ := Prod.mk.inj (Except.ok.inj h)
    exact ⟨rfl, rfl, rfl⟩

/-- Every runner counts. -/
theorem counts_of_run_body
    [DecidableEq P] {w : World} {p : P} {pl : PipelineSnapshot} {bl : BatchLoop P}
    (h : _run_body w p pl = .ok bl) :
    bl.Counts := by
  obtain ⟨snap, h | h | h | h⟩ := runnerLoop_of_run_body h
  · obtain ⟨tr, -, rfl⟩ := FullRuns.run_sql_full_pipeline_eq_ok h
    exact FullRuns.FullPlan.loop_counts w _ _
  · obtain ⟨tr, -, rfl⟩ := run_sql_incremental_pipeline_eq_ok h
    exact IncrementalPlan.loop_counts w p _
  · obtain ⟨reader, rest, fns, -, -, rfl⟩ := FullRuns.run_tasks_full_eq_ok h
    exact FullRuns.FullPlan.loop_counts w _ _
  · obtain ⟨reader, rest, fns, -, -, rfl⟩ := run_tasks_incremental_eq_ok h
    exact IncrementalPlan.loop_counts w p _

/-- A loop has fetched `n` rows and delivered `m` of its items.  Those of an open batch wait
in the session. -/
def LoopPc.Accounts (ws : List (Write P)) (n m : ℕ) : LoopPc → Prop
  | .setup => n = 0 ∧ m = 0
  | .fetch v | .pauseRead v | .pauseApply v | .close _ v =>
      v.total_read = n ∧ v.total_written = m
  | .transform v rows | .write v rows _ =>
      v.total_read + rows.length = n ∧ v.total_written = m
  | .advance v rows _ k =>
      v.total_read + rows.length = n ∧ v.total_written + k = m + (upsertsOf ws).length
  | .commit v => v.total_read = n ∧ v.total_written = m + (upsertsOf ws).length

/-- The run of a stage has fetched `n` rows and delivered `m` items, as far as its counters
matter. -/
def Stage.Accounts (ws : List (Write P)) (n m : ℕ) : Stage P → Prop
  | .runBody _ _ => n = 0 ∧ m = 0
  | .loop _ _ bl pc => bl.Counts ∧ pc.Accounts ws n m
  | .finishSuccess _ _ _ v => v.total_read = n ∧ v.total_written = m
  | _ => True

/-- The handlers forget the counters. -/
theorem onDispatchExc_accounts
    (w : World) (k : ℕ) (exc : Exc) (ws : List (Write P)) (n m : ℕ) :
    (onDispatchExc w k exc : Stage P).Accounts ws n m := by
  unfold onDispatchExc
  split_ifs
  · trivial
  · cases backoffDelay w.backoff_seconds k <;> trivial
  · trivial

theorem onExecuteExc_accounts
    (w : World) (k r : ℕ) (exc : Exc) (ws : List (Write P)) (n m : ℕ) :
    (onExecuteExc w k r exc : Stage P).Accounts ws n m := by
  unfold onExecuteExc
  split_ifs
  · exact onDispatchExc_accounts w k exc ws n m
  · trivial

/-- A statement of an attempt: only what follows on success matters. -/
theorem answer_accounts
    {w : World} {k r : ℕ} {c : Choice} {kept done : Db P × List (Write P)} {next : Stage P}
    {a : After P} {n m : ℕ}
    (h : answer c kept done next (onExecuteExc w k r) = some a)
    (hok : c = .ok → next.Accounts done.2 n m) :
    a.stage.Accounts a.pending n m := by
  rcases answer_cases h with ⟨rfl, rfl⟩ | ⟨exc, -, rfl⟩ | ⟨-, rfl⟩
  · exact hok rfl
  · exact onExecuteExc_accounts w k r exc _ n m
  · exact onExecuteExc_accounts w k r connectionLost _ n m

theorem stageOf_accounts
    {α : Type} {w : World} {k r : ℕ} {next : α → Stage P} {res : Except Exc α}
    {ws : List (Write P)} {n m : ℕ}
    (hok : ∀ x, res = .ok x → (next x).Accounts ws n m) :
    (stageOf (onExecuteExc w k r) next res).Accounts ws n m := by
  cases res with
  | ok x =>
      exact hok x rfl
  | error exc =>
      exact onExecuteExc_accounts w k r exc ws n m

variable [DecidableEq P]

/-- **One step of a batch loop keeps its accounts.** -/
theorem loopStep_accounts
    {w : World} {db : Db P} {ws : List (Write P)} {p : P} {k r : ℕ} {bl : BatchLoop P}
    {pc : LoopPc} {c : Choice} {a : After P} {n m : ℕ}
    (h : loopStep w (db, ws) p k r bl pc c = some a)
    (hclean : (Stage.loop k r bl pc).mayHold ∨ ws = []) (hbl : bl.Counts)
    (hacc : pc.Accounts ws n m) :
    a.stage.Accounts a.pending (n + (Stage.loop k r bl pc).fetches db.store c)
      (m + ((Stage.loop k r bl pc).sends ws c).length) := by
  cases pc with
  | setup =>
      refine answer_accounts h (fun _ => stageOf_accounts (fun v hv => ?_))
      obtain ⟨rfl, rfl⟩ := hacc
      exact ⟨hbl, hbl.setup _ v hv⟩
  | fetch v =>
      refine answer_accounts h (fun hc => stageOf_accounts (fun rows hrows => ?_))
      subst hc
      have hquery : bl.query db.store v = .ok rows := hrows
      have hfetches : (Stage.loop k r bl (.fetch v)).fetches db.store .ok = rows.length := by
        simp [Stage.fetches, hquery, Except.toOption]
      obtain ⟨hread, hwritten⟩ := hacc
      rw [hfetches]
      by_cases hnil : rows = []
      · subst hnil
        exact ⟨hbl, hread, hwritten⟩
      · rw [if_neg hnil]
        exact ⟨hbl, congrArg (· + rows.length) hread, hwritten⟩
  | transform v rows =>
      exact answer_accounts h (fun _ => stageOf_accounts (fun res _ => ⟨hbl, hacc⟩))
  | write v rows res =>
      have hws : ws = [] := hclean.resolve_left id
      subst hws
      obtain ⟨hread, hwritten⟩ := hacc
      rcases loopStep_write_cases h with ⟨hnil, h⟩ | ⟨exc, hne, hwrite, h⟩ |
        ⟨items, hne, hwrite, h⟩
      · refine answer_accounts h (fun _ => ⟨hbl, hread, ?_⟩)
        simp [Stage.sends, hnil, hwritten, upsertsOf]
      · exact answer_accounts h (fun _ => onExecuteExc_accounts w k r exc _ _ _)
      · rcases writeStep_cases h with ⟨htx, hans⟩ | ⟨htx, hans | ⟨applied, exc, -, rfl⟩⟩
        · refine answer_accounts hans (fun _ => ⟨hbl, hread, ?_⟩)
          simp [Stage.sends, htx, hwritten]
        · refine answer_accounts hans (fun hc => ⟨hbl, hread, ?_⟩)
          subst hc
          simp [Stage.sends, htx, hne, hwrite, hwritten, Choice.applied, Except.toOption,
            upsertsOf]
        · exact onExecuteExc_accounts w k r exc _ _ _
  | advance v rows left j =>
      obtain ⟨hread, hwritten⟩ := hacc
      rcases loopStep_advance_cases h with ⟨exc, -, h⟩ | ⟨v', ws', hadv, h⟩
      · exact answer_accounts h (fun _ => onExecuteExc_accounts w k r exc _ _ _)
      · obtain ⟨hread', hwritten', hups⟩ := hbl.advance _ _ _ _ _ _ hadv
        refine answer_accounts h (fun _ => ⟨hbl, hread'.trans hread, ?_⟩)
        simp only [Stage.sends, List.length_nil, Nat.add_zero, upsertsOf_append, hups,
          List.append_nil]
        exact hwritten'.trans hwritten
  | commit v =>
      obtain ⟨hread, hwritten⟩ := hacc
      refine answer_accounts h (fun hc => ⟨hbl, hread, ?_⟩)
      subst hc
      exact hwritten
  | pauseRead v =>
      refine answer_accounts h (fun _ => ?_)
      split_ifs <;> exact ⟨hbl, hacc⟩
  | pauseApply v =>
      have h' : answerUpdate c (db, ws) p [.PAUSE_REQUESTED] Db.apply_pause_requested
          (.loop k r bl (.close .paused v)) (onExecuteExc w k r) = some a := h
      unfold answerUpdate at h'
      split_ifs at h'
      · exact answer_accounts h' (fun _ => ⟨hbl, hacc⟩)
      · exact answer_accounts h' (fun _ => ⟨hbl, hacc⟩)
  | close exit v =>
      exact answer_accounts h (fun _ => hacc)

/-- **One step of an attempt keeps its accounts.** -/
theorem stageStep_accounts
    {w : World} {db : Db P} {ws : List (Write P)} {p : P} {snap : PipelineSnapshot}
    {st : Stage P} {c : Choice} {a : After P} {n m r : ℕ}
    (h : stageStep w (db, ws) p snap st c = some a) (hclean : st.mayHold ∨ ws = [])
    (hr : st.openRun = some r) (hacc : st.Accounts ws n m) :
    a.stage.Accounts a.pending (n + st.fetches db.store c) (m + (st.sends ws c).length) := by
  cases st with
  | runBody k r =>
      refine answer_accounts h (fun _ => stageOf_accounts (fun bl hbl => ?_))
      exact ⟨counts_of_run_body hbl, hacc⟩
  | loop k r bl pc =>
      exact loopStep_accounts h hclean hacc.1 hacc.2
  | finishSuccess k r exit v =>
      exact answer_accounts h (fun _ => trivial)
  | rollback k r exc =>
      have hans : answer c (db, []) (db, []) (.finishFailed k r exc) (onDispatchExc w k) =
          some a := h
      rcases answer_cases hans with ⟨-, rfl⟩ | ⟨exc', -, rfl⟩ | ⟨-, rfl⟩
      · trivial
      · exact onDispatchExc_accounts w k exc' _ _ _
      · exact onDispatchExc_accounts w k connectionLost _ _ _
  | finishFailed k r exc =>
      rcases answer_cases h with ⟨-, rfl⟩ | ⟨exc', -, rfl⟩ | ⟨-, rfl⟩
      · exact onDispatchExc_accounts w k exc _ _ _
      · exact onDispatchExc_accounts w k exc' _ _ _
      · exact onDispatchExc_accounts w k connectionLost _ _ _
  | _ =>
      cases hr

/-! ## Its row -/

/-- The row says nothing of what the run has done. -/
structure EtlRun.Untold (row : EtlRun P) : Prop where
  status : row.status ≠ .SUCCESS
  rows_read : row.rows_read = 0
  rows_written : row.rows_written = 0

/-- Two states of a row with the same counters. -/
structure EtlRun.SameCounters (row row' : EtlRun P) : Prop where
  rows_read : row'.rows_read = row.rows_read
  rows_written : row'.rows_written = row.rows_written
  success : row'.status = .SUCCESS ↔ row.status = .SUCCESS

omit [DecidableEq P] in
theorem EtlRun.SameCounters.refl
    (row : EtlRun P) :
    row.SameCounters row :=
  ⟨rfl, rfl, Iff.rfl⟩

omit [DecidableEq P] in
theorem EtlRun.SameCounters.untold
    {row row' : EtlRun P} (h : row.SameCounters row') (hrow : row.Untold) :
    row'.Untold :=
  ⟨fun hs => hrow.status (h.success.mp hs), h.rows_read.trans hrow.rows_read,
    h.rows_written.trans hrow.rows_written⟩

/-- The batch loop leaves the run rows alone. -/
theorem loopStep_runs_eq
    {w : World} {kept : Db P × List (Write P)} {p : P} {k r : ℕ} {bl : BatchLoop P}
    {pc : LoopPc} {c : Choice} {a : After P}
    (h : loopStep w kept p k r bl pc c = some a) :
    a.db.runs = kept.1.runs := by
  have hanswer : ∀ {done : Db P × List (Write P)} {next : Stage P} {onExc : Exc → Stage P},
      answer c kept done next onExc = some a → done.1.runs = kept.1.runs →
        a.db.runs = kept.1.runs := by
    intro done next onExc hans hdone
    rw [answer_db hans]
    split_ifs
    · exact hdone
    · rfl
  cases pc with
  | write v rows res =>
      rcases loopStep_write_cases h with ⟨-, h⟩ | ⟨exc, -, -, h⟩ | ⟨items, -, -, h⟩
      · exact hanswer h rfl
      · exact hanswer h rfl
      · rcases writeStep_cases h with ⟨-, hans⟩ | ⟨-, hans | ⟨applied, exc, -, rfl⟩⟩
        · exact hanswer hans rfl
        · exact hanswer hans rfl
        · rfl
  | advance v rows left n =>
      rcases loopStep_advance_cases h with ⟨exc, -, h⟩ | ⟨v', ws, -, h⟩ <;>
        exact hanswer h rfl
  | pauseApply v =>
      have h' : answerUpdate c kept p [.PAUSE_REQUESTED] Db.apply_pause_requested
          (.loop k r bl (.close .paused v)) (onExecuteExc w k r) = some a := h
      unfold answerUpdate at h'
      split_ifs at h'
      · exact hanswer h' (Db.runs_updateStatus _ _ kept.1 p)
      · exact hanswer h' rfl
  | _ =>
      exact hanswer h rfl

/-- **What an attempt makes of its row**: nothing, a failure without counters, or a success
with the counters of the loop. -/
theorem stageStep_own_row
    {w : World} {kept : Db P × List (Write P)} {p : P} {snap : PipelineSnapshot}
    {st : Stage P} {c : Choice} {a : After P} {r : ℕ} {row : EtlRun P}
    (h : stageStep w kept p snap st c = some a) (hr : st.openRun = some r)
    (hrow : kept.1.runs[r]? = some row) (huntold : row.Untold) :
    ∃ row', a.db.runs[r]? = some row' ∧
      (row'.Untold ∨ (a.stage.openRun = none ∧ ∃ k exit v, st = .finishSuccess k r exit v ∧
        row'.status = .SUCCESS ∧ row'.rows_read = v.total_read ∧
        row'.rows_written = v.total_written)) := by
  have hsame : a.db.runs = kept.1.runs → ∃ row', a.db.runs[r]? = some row' ∧
      (row'.Untold ∨ (a.stage.openRun = none ∧ ∃ k exit v, st = .finishSuccess k r exit v ∧
        row'.status = .SUCCESS ∧ row'.rows_read = v.total_read ∧
        row'.rows_written = v.total_written)) :=
    fun hruns => ⟨row, hruns ▸ hrow, Or.inl huntold⟩
  cases st with
  | runBody k q =>
      refine hsame ?_
      rcases answer_cases h with ⟨-, rfl⟩ | ⟨exc, -, rfl⟩ | ⟨-, rfl⟩ <;> rfl
  | loop k q bl pc =>
      exact hsame (loopStep_runs_eq h)
  | finishSuccess k q exit v =>
      obtain rfl : q = r := Option.some.inj hr
      have hlookup : (kept.1.finish_success q v.total_read v.total_written).runs[q]? =
          some { row with
            status := .SUCCESS, rows_read := v.total_read, rows_written := v.total_written } := by
        simp [Db.finish_success, hrow]
      have hlost : (onExecuteExc w k q connectionLost : Stage P).openRun = none := by
        rw [onExecuteExc, if_pos is_db_disconnect_connectionLost]
        exact onDispatchExc_openRun w k connectionLost
      rcases answer_cases h with ⟨-, rfl⟩ | ⟨exc, -, rfl⟩ | ⟨-, rfl⟩
      · exact ⟨_, hlookup, Or.inr ⟨rfl, k, exit, v, rfl, rfl, rfl, rfl⟩⟩
      · exact hsame rfl
      · exact ⟨_, hlookup, Or.inr ⟨hlost, k, exit, v, rfl, rfl, rfl, rfl⟩⟩
  | rollback k q exc =>
      have hans : answer c (kept.1, []) (kept.1, []) (.finishFailed k q exc)
          (onDispatchExc w k) = some a := h
      refine hsame ?_
      rcases answer_cases hans with ⟨-, rfl⟩ | ⟨exc, -, rfl⟩ | ⟨-, rfl⟩ <;> rfl
  | finishFailed k q exc =>
      obtain rfl : q = r := Option.some.inj hr
      have hlookup : (kept.1.finish_failed q (errText exc)).runs[q]? =
          some { row with
            status := .FAILED
            error_message := some (PyText.take Db.MAX_ERR_LEN (errText exc)) } := by
        simp [Db.finish_failed, hrow]
      have hfailed : EtlRun.Untold { row with
          status := .FAILED
          error_message := some (PyText.take Db.MAX_ERR_LEN (errText exc)) } :=
        ⟨by simp, huntold.rows_read, huntold.rows_written⟩
      rcases answer_cases h with ⟨-, rfl⟩ | ⟨exc', -, rfl⟩ | ⟨-, rfl⟩
      · exact ⟨_, hlookup, Or.inl hfailed⟩
      · exact hsame rfl
      · exact ⟨_, hlookup, Or.inl hfailed⟩
  | _ =>
      cases hr

/-- A step of a process that closes another row, or none, or recovers. -/
theorem procStep_other_row
    {w : World} {db db' : Db P} {pr pr' : Proc P} {c : Choice} {r : ℕ}
    (h : procStep w db pr c = some (db', pr')) (hr : pr.pc.openRun ≠ some r)
    (hlen : db'.runs.length = db.runs.length) :
    pr'.pc.openRun ≠ some r ∧ ∀ row, db.runs[r]? = some row →
      ∃ row', db'.runs[r]? = some row' ∧ row.SameCounters row' := by
  have hkeep : pr'.pc.openRun = none ∨ pr'.pc.openRun = pr.pc.openRun →
      pr'.pc.openRun ≠ some r := by
    rintro (hnone | hsame)
    · simp [hnone]
    · rwa [hsame]
  rcases procStep_runs h with heffect | ⟨hruns, hnone⟩
  · cases heffect with
    | same hruns hown =>
        exact ⟨hkeep hown, fun row hrow => ⟨row, hruns ▸ hrow, .refl row⟩⟩
    | opened new hruns _ _ =>
        rw [hruns, List.length_append, List.length_singleton] at hlen
        omega
    | closed q f ho hruns _ hnone =>
        have hqr : q ≠ r := by
          rintro rfl
          exact hr ho
        refine ⟨hkeep (Or.inl hnone), fun row hrow => ⟨row, ?_, .refl row⟩⟩
        rw [hruns, List.getElem?_modify_ne _ _ hqr]
        exact hrow
  · refine ⟨hkeep (Or.inl hnone), fun row hrow => ?_⟩
    rw [hruns, Db.recover_running_failed_bulk, List.getElem?_map, hrow]
    refine ⟨_, rfl, ?_⟩
    dsimp only
    split_ifs with hrec
    · exact ⟨rfl, rfl, by simp [hrec.2]⟩
    · exact .refl row

/-- Only the start of a run adds a row. -/
theorem procStep_length
    {w : World} {db db' : Db P} {pr pr' : Proc P} {c : Choice}
    (h : procStep w db pr c = some (db', pr')) :
    db'.runs.length = db.runs.length ∨
      ∃ p snap k todo, pr.pc = .dispatch p snap (.startRun k) todo := by
  have howners : ∀ {db db' : Db P}, db'.runOwners = db.runOwners →
      db'.runs.length = db.runs.length := by
    intro db db' heq
    simpa [Db.runOwners] using congrArg List.length heq
  cases procStep_effect h with
  | recovered hpc =>
      exact Or.inl (howners (runOwners_recovered db _))
  | offered hdb hpr =>
      rcases hdb with rfl | rfl
      · exact Or.inl rfl
      · exact Or.inl (howners (runOwners_updateStatus _ _ db _))
  | unclaimed hdb hpr =>
      rcases hdb with rfl | rfl
      · exact Or.inl rfl
      · exact Or.inl (howners (runOwners_updateStatus _ _ db _))
  | claimed hreq =>
      exact Or.inl (howners (runOwners_updateStatus _ _ db _))
  | @stepped p snap st todo ws c a hst =>
      rcases stageStep_owners hst with heq | ⟨hopening, -⟩
      · exact Or.inl (howners heq)
      · cases st with
        | startRun k =>
            exact Or.inr ⟨p, snap, k, todo, rfl⟩
        | _ =>
            cases hopening
  | _ =>
      exact Or.inl rfl

end Counting

/-! ## Runs of the platform -/

section Platform

variable {ι P : Type} [DecidableEq ι] [DecidableEq P]

/-- The rows the statement of a process fetches. -/
def Proc.fetches (pr : Proc P) (store : Store P) (c : Choice) : ℕ :=
  match pr.pc with
  | .dispatch _ _ st _ => st.fetches store c
  | _ => 0

/-- Rows the batch queries of run `r` return in one event. -/
def rowsFetched (r : ℕ) (s : Sys ι P) : Event ι P → ℕ
  | .runner i c =>
      if (s.procs i).pc.openRun = some r then (s.procs i).fetches s.db.store c else 0
  | _ => 0

/-- Rows run `r` delivers to its sink in one event. -/
def rowsDelivered (r : ℕ) (s : Sys ι P) : Event ι P → ℕ
  | .runner i c =>
      if (s.procs i).pc.openRun = some r then ((s.procs i).sends c).length else 0
  | _ => 0

/-- The run of a process has fetched `n` rows and delivered `m`. -/
def Proc.Accounts (n m : ℕ) (pr : Proc P) : Prop :=
  match pr.pc with
  | .dispatch _ _ st _ => st.Accounts pr.pending n m
  | _ => True

/-- Where run `r` stands after it has fetched `n` rows and delivered `m`. -/
inductive RunAccount (r : ℕ) (s : Sys ι P) (n m : ℕ) : Prop
  /-- there is no such run yet -/
  | unopened :
      s.db.runs.length ≤ r → (∀ i, (s.procs i).pc.openRun ≠ some r) → n = 0 → m = 0 →
      RunAccount r s n m
  /-- process `i` works on it, and nobody else -/
  | working (i : ι) (row : EtlRun P) :
      (s.procs i).pc.openRun = some r → (∀ j, (s.procs j).pc.openRun = some r → j = i) →
      s.db.runs[r]? = some row → row.Untold → (s.procs i).Accounts n m →
      RunAccount r s n m
  /-- nobody works on it any more -/
  | left (row : EtlRun P) :
      (∀ i, (s.procs i).pc.openRun ≠ some r) → s.db.runs[r]? = some row →
      (row.status = .SUCCESS ∧ row.rows_read = n ∧ row.rows_written = m) ∨ row.Untold →
      RunAccount r s n m

omit [DecidableEq ι] [DecidableEq P] in
/-- What others do to run `r`. -/
theorem RunAccount.of_others
    {r : ℕ} {s s' : Sys ι P} {n m : ℕ} (h : RunAccount r s n m)
    (hlen : s.db.runs.length ≤ r → s'.db.runs.length ≤ r)
    (hrow : ∀ row, s.db.runs[r]? = some row →
      ∃ row', s'.db.runs[r]? = some row' ∧ row.SameCounters row')
    (hprocs : ∀ i, s'.procs i = s.procs i ∨ (s'.procs i).pc.openRun ≠ some r) :
    RunAccount r s' n m := by
  have hback : ∀ i, (s'.procs i).pc.openRun = some r → (s.procs i).pc.openRun = some r := by
    intro i hi
    rcases hprocs i with hsame | hne
    · exact hsame ▸ hi
    · exact absurd hi hne
  cases h with
  | unopened hnew hnobody hn hm =>
      exact .unopened (hlen hnew) (fun i hi => hnobody i (hback i hi)) hn hm
  | working i row hi hunique hlookup huntold hacc =>
      obtain ⟨row', hlookup', hsame⟩ := hrow row hlookup
      rcases hprocs i with hproc | hgone
      · refine .working i row' (hproc ▸ hi) (fun j hj => hunique j (hback j hj)) hlookup'
          (hsame.untold huntold) ?_
        rwa [hproc]
      · refine .left row' (fun j hj => ?_) hlookup' (Or.inr (hsame.untold huntold))
        obtain rfl := hunique j (hback j hj)
        exact hgone hj
  | left row hnobody hlookup hend =>
      obtain ⟨row', hlookup', hsame⟩ := hrow row hlookup
      refine .left row' (fun i hi => hnobody i (hback i hi)) hlookup' ?_
      rcases hend with ⟨hsuccess, hread, hwritten⟩ | huntold
      · exact Or.inl ⟨hsame.success.mpr hsuccess, hsame.rows_read.trans hread,
          hsame.rows_written.trans hwritten⟩
      · exact Or.inr (hsame.untold huntold)

omit [DecidableEq P] in
/-- A process takes run `r`, which is the next one, or loses the connection right away. -/
theorem RunAccount.of_opened
    {r : ℕ} {s : Sys ι P} {n m : ℕ} {i : ι} {db : Db P} {pr : Proc P} {row : EtlRun P}
    (h : RunAccount r s n m) (hruns : db.runs = s.db.runs ++ [row]) (hrow : row.Untold)
    (hi : (s.procs i).pc.openRun = none)
    (hpr : pr.pc.openRun = none ∨
      (pr.pc.openRun = some s.db.runs.length ∧ pr.Accounts 0 0)) :
    RunAccount r ({ db := db, procs := Function.update s.procs i pr } : Sys ι P) n m := by
  have hother : ∀ j, j ≠ i → Function.update s.procs i pr j = s.procs j :=
    fun j hj => Function.update_of_ne hj _ _
  by_cases hr : s.db.runs.length = r
  · subst hr
    cases h with
    | unopened _ hnobody hn hm =>
        subst hn hm
        have hlookup : db.runs[s.db.runs.length]? = some row := by
          simp [hruns]
        rcases hpr with hnone | ⟨hopen, hacc⟩
        · refine .left row (fun j => ?_) hlookup (Or.inr hrow)
          by_cases hj : j = i
          · subst hj
            simp [hnone]
          · simpa [hj] using hnobody j
        · refine .working i row ?_ (fun j hj => ?_) hlookup hrow ?_
          · simpa using hopen
          · by_contra hji
            exact hnobody j (by simpa [hji] using hj)
          · simpa using hacc
    | working j row' _ _ hlookup =>
        have hlt := (List.getElem?_eq_some_iff.mp hlookup).1
        omega
    | left row' _ hlookup =>
        have hlt := (List.getElem?_eq_some_iff.mp hlookup).1
        omega
  · refine h.of_others (fun hle => ?_) (fun row' hrow' => ⟨row', ?_, .refl row'⟩) (fun j => ?_)
    · simp only [hruns, List.length_append, List.length_singleton]
      omega
    · rw [hruns, List.getElem?_append_left (List.getElem?_eq_some_iff.mp hrow').1]
      exact hrow'
    · by_cases hj : j = i
      · subst hj
        right
        rcases hpr with hnone | ⟨hopen, -⟩
        · simp [hnone]
        · simpa [hopen] using hr
      · exact Or.inl (hother j hj)

omit [DecidableEq ι] in
/-- What a process makes of its row, and of the account of its run. -/
theorem procStep_own_row
    {w : World} {db db' : Db P} {pr pr' : Proc P} {c : Choice} {r n m : ℕ} {row : EtlRun P}
    (h : procStep w db pr c = some (db', pr')) (hclean : pr.Clean)
    (hr : pr.pc.openRun = some r) (hrow : db.runs[r]? = some row) (huntold : row.Untold)
    (hacc : pr.Accounts n m) :
    ∃ row', db'.runs[r]? = some row' ∧
      ((row'.Untold ∧
          pr'.Accounts (n + pr.fetches db.store c) (m + (pr.sends c).length)) ∨
        (pr'.pc.openRun ≠ some r ∧ row'.status = .SUCCESS ∧
          row'.rows_read = n + pr.fetches db.store c ∧
          row'.rows_written = m + (pr.sends c).length)) := by
  obtain ⟨pc, ws⟩ := pr
  cases pc with
  | dispatch p snap st todo =>
      have hst : st.openRun = some r := hr
      have hsends : (Proc.sends ⟨.dispatch p snap st todo, ws⟩ c).length =
          (st.sends ws c).length := by
        simp [Proc.sends]
      rw [hsends]
      rcases procStep_dispatch h with ⟨res, rfl, -, -⟩ | ⟨a, ha, rfl, rfl⟩
      · cases hst
      · obtain ⟨row', hlookup', huntold' | ⟨hnone, k, exit, v, rfl, hsuccess, hread, hwritten⟩⟩ :=
          stageStep_own_row ha hst hrow huntold
        · exact ⟨row', hlookup', Or.inl ⟨huntold', stageStep_accounts ha hclean hst hacc⟩⟩
        · obtain ⟨hn, hm⟩ := hacc
          have hopen : a.stage.openRun ≠ some r := by
            simp [hnone]
          exact ⟨row', hlookup', Or.inr ⟨hopen, hsuccess, hread.trans hn, hwritten.trans hm⟩⟩
  | _ =>
      cases hr

/-- The start of a run. -/
theorem RunAccount.of_start
    {w : World} {r : ℕ} {s : Sys ι P} {n m : ℕ} {i : ι} {c : Choice} {db : Db P} {pr : Proc P}
    {p : P} {snap : PipelineSnapshot} {k : ℕ} {todo : List (P × PipelineStatus)}
    (h : RunAccount r s n m) (hproc : procStep w s.db (s.procs i) c = some (db, pr))
    (hi : (s.procs i).pc = .dispatch p snap (.startRun k) todo) :
    RunAccount r ({ db := db, procs := Function.update s.procs i pr } : Sys ι P) n m := by
  have hopen : (s.procs i).pc.openRun = none := by
    rw [hi]
    rfl
  have hnew : EtlRun.Untold
      ({ pipeline_id := p, status := .RUNNING, rows_read := 0, rows_written := 0,
         error_message := none } : EtlRun P) :=
    ⟨by simp, rfl, rfl⟩
  have hlost := onDispatchExc_openRun (P := P) w k connectionLost
  cases hcase : s.procs i with
  | mk pc ws =>
      rw [hcase] at hproc hi
      obtain rfl : pc = .dispatch p snap (.startRun k) todo := hi
      rcases procStep_dispatch hproc with ⟨res, hret, -, -⟩ | ⟨a, ha, rfl, rfl⟩
      · cases hret
      · rcases answer_cases ha with ⟨-, rfl⟩ | ⟨exc, -, rfl⟩ | ⟨-, rfl⟩
        · exact h.of_opened rfl hnew hopen (Or.inr ⟨rfl, rfl, rfl⟩)
        · refine h.of_others id (fun row hrow => ⟨row, hrow, .refl row⟩) (fun j => ?_)
          by_cases hj : j = i
          · subst hj
            right
            have hnone := onDispatchExc_openRun (P := P) w k exc
            simp [Pc.openRun, hnone]
          · exact Or.inl (Function.update_of_ne hj _ _)
        · exact h.of_opened rfl hnew hopen (Or.inl hlost)

/-- A step of the process that works on run `r`. -/
theorem RunAccount.of_own
    {w : World} {r : ℕ} {s : Sys ι P} {n m : ℕ} {i : ι} {c : Choice} {db : Db P} {pr : Proc P}
    (h : RunAccount r s n m) (hproc : procStep w s.db (s.procs i) c = some (db, pr))
    (hclean : (s.procs i).Clean) (hi : (s.procs i).pc.openRun = some r) :
    RunAccount r ({ db := db, procs := Function.update s.procs i pr } : Sys ι P)
      (n + rowsFetched r s (.runner i c)) (m + rowsDelivered r s (.runner i c)) := by
  have hfetched : rowsFetched r s (.runner i c) = (s.procs i).fetches s.db.store c := if_pos hi
  have hdelivered : rowsDelivered r s (.runner i c) = ((s.procs i).sends c).length := if_pos hi
  rw [hfetched, hdelivered]
  cases h with
  | unopened _ hnobody =>
      exact absurd hi (hnobody i)
  | left _ hnobody =>
      exact absurd hi (hnobody i)
  | working j row _ hunique hlookup huntold hacc =>
      obtain rfl := hunique i hi
      have hothers : ∀ j, (Function.update s.procs i pr j).pc.openRun = some r → j = i := by
        intro j hopen
        by_contra hj
        rw [Function.update_of_ne hj] at hopen
        exact hj (hunique j hopen)
      obtain ⟨row', hlookup', hend⟩ := procStep_own_row hproc hclean hi hlookup huntold hacc
      by_cases hopen : pr.pc.openRun = some r
      · obtain ⟨huntold', haccounts⟩ := hend.resolve_right (fun h => h.1 hopen)
        exact .working i row' (by simpa using hopen) hothers hlookup' huntold'
          (by simpa using haccounts)
      · refine .left row' (fun j hj => ?_) hlookup' ?_
        · obtain rfl := hothers j hj
          exact hopen (by simpa using hj)
        · rcases hend with ⟨huntold', -⟩ | ⟨-, hsuccess⟩
          · exact Or.inr huntold'
          · exact Or.inl hsuccess

/-- **One event keeps the account of a run.** -/
theorem RunAccount.step
    {w : World} {r : ℕ} {s s' : Sys ι P} {e : Event ι P} {n m : ℕ}
    (hacc : RunAccount r s n m) (hclean : ∀ i, (s.procs i).Clean)
    (h : s.step w e = some s') :
    RunAccount r s' (n + rowsFetched r s e) (m + rowsDelivered r s e) := by
  by_cases he : ∃ i c, e = .runner i c
  · obtain ⟨i, c, rfl⟩ := he
    obtain ⟨db, pr, hproc, rfl⟩ := Sys.step_runner_iff.mp h
    by_cases hi : (s.procs i).pc.openRun = some r
    · exact hacc.of_own hproc (hclean i) hi
    · have hfetched : rowsFetched r s (.runner i c) = 0 := if_neg hi
      have hdelivered : rowsDelivered r s (.runner i c) = 0 := if_neg hi
      rw [hfetched, hdelivered]
      rcases procStep_length hproc with hlen | ⟨p, snap, k, todo, hstart⟩
      · obtain ⟨hopen, hrow⟩ := procStep_other_row hproc hi hlen
        refine hacc.of_others (fun hle => hlen ▸ hle) hrow (fun j => ?_)
        by_cases hj : j = i
        · subst hj
          exact Or.inr (by simpa using hopen)
        · exact Or.inl (Function.update_of_ne hj _ _)
      · exact hacc.of_start hproc hstart
  · obtain ⟨hruns, hprocs⟩ := step_runs_of_request h (fun i c heq => he ⟨i, c, heq⟩)
    have hzero : rowsFetched r s e = 0 ∧ rowsDelivered r s e = 0 := by
      cases e with
      | runner i c =>
          exact absurd ⟨i, c, rfl⟩ he
      | _ =>
          exact ⟨rfl, rfl⟩
    rw [hzero.1, hzero.2]
    refine hacc.of_others (fun hle => hruns ▸ hle)
      (fun row hrow => ⟨row, hruns ▸ hrow, .refl row⟩) (fun i => ?_)
    rcases hprocs i with hnone | hsame
    · exact Or.inr (by simp [hnone])
    · exact Or.inl hsame

/--
**The counters of a run are exact.**  Over every run of the platform, a row of
`etl_runs` opened in it that ends as `SUCCESS` counts the rows the batch queries
of this run have returned, and the rows it has delivered to its sink.  In a row
that does not, both counters are 0.
-/
theorem run_counters_are_exact
    {w : World} {s s' : Sys ι P} {es : List (Event ι P)} {r : ℕ} {row : EtlRun P}
    (hrest : s.Resting) (h : exec (Sys.step w) s es = some s')
    (hnew : s.db.runs.length ≤ r) (hrow : s'.db.runs[r]? = some row) :
    (row.status = .SUCCESS →
        row.rows_read = cost (Sys.step w) (rowsFetched r) s es ∧
          row.rows_written = cost (Sys.step w) (rowsDelivered r) s es) ∧
      (row.status ≠ .SUCCESS → row.rows_read = 0 ∧ row.rows_written = 0) := by
  have hnobody : ∀ i, (s.procs i).pc.openRun ≠ some r := by
    intro i hi
    obtain ⟨row₀, hrow₀, -⟩ := (runsOwned_of_resting hrest).isOpen i r hi
    have hlt := (List.getElem?_eq_some_iff.mp hrow₀).1
    omega
  have hclean : ∀ i, (s.procs i).Clean := fun i => clean_of_resting (hrest i).1 (hrest i).2
  have hpath := (Path.of_exec h).with_invariant (I := fun t => ∀ i, (t.procs i).Clean) hclean
    (fun _ _ _ hclean _ hstep => clean_step hstep hclean)
  have hacc := hpath.tallies (I := RunAccount r) (c := rowsFetched r) (d := rowsDelivered r)
    (.unopened hnew hnobody rfl rfl)
    (fun _ _ _ _ _ hacc hstay hstep => hacc.step hstay.1 hstep)
  simp only [Nat.zero_add] at hacc
  cases hacc with
  | unopened hlen =>
      have hlt := (List.getElem?_eq_some_iff.mp hrow).1
      omega
  | working i row' _ _ hlookup huntold =>
      obtain rfl := Option.some.inj (hrow.symm.trans hlookup)
      exact ⟨fun hs => absurd hs huntold.status,
        fun _ => ⟨huntold.rows_read, huntold.rows_written⟩⟩
  | left row' _ hlookup hend =>
      obtain rfl := Option.some.inj (hrow.symm.trans hlookup)
      rcases hend with ⟨hsuccess, hread, hwritten⟩ | huntold
      · exact ⟨fun _ => ⟨hread, hwritten⟩, fun hne => absurd hsuccess hne⟩
      · exact ⟨fun hs => absurd hs huntold.status,
          fun _ => ⟨huntold.rows_read, huntold.rows_written⟩⟩

/-- A polling runner in front of a source with three rows, read two at a time. -/
def threeRowsPolled : Sys Unit Unit :=
  Sys.polling (Db.single (filmPipeline .full 2 .RUN_REQUESTED) (List.replicate 3 filmExample))

/-- The first attempt fails at the commit of its first batch, the second reads everything. -/
def failedThenCounted : List (Event Unit Unit) :=
  List.replicate 10 (.runner () .ok) ++
    [.runner () (.raise (statementError "SerializationError" "could not serialize access"))] ++
    List.replicate 24 (.runner () .ok)

theorem run_counters_are_exact_after_a_failure :
    ∃ (s' : Sys Unit Unit) (row : EtlRun Unit),
      exec (Sys.step World.plain) threeRowsPolled failedThenCounted = some s' ∧
      s'.db.runs[1]? = some row ∧ row.status = .SUCCESS ∧ row.rows_read = 3 ∧
      row.rows_read = cost (Sys.step World.plain) (rowsFetched 1) threeRowsPolled
        failedThenCounted ∧
      row.rows_written = cost (Sys.step World.plain) (rowsDelivered 1) threeRowsPolled
        failedThenCounted := by
  have hrun : (exec (Sys.step World.plain) threeRowsPolled failedThenCounted).any (fun s' =>
      (s'.db.runs[1]?).any (fun row => decide (row.status = .SUCCESS ∧ row.rows_read = 3))) =
        true := by
    decide +kernel
  obtain ⟨s', hexec, hs'⟩ := (Option.any_eq_true _ _).mp hrun
  obtain ⟨row, hrow, hend⟩ := (Option.any_eq_true _ _).mp hs'
  obtain ⟨hsuccess, hread⟩ := of_decide_eq_true hend
  have hexact := run_counters_are_exact (Sys.resting_polling _) hexec (Nat.zero_le 1) hrow
  exact ⟨s', row, hexec, hrow, hsuccess, hread, (hexact.1 hsuccess).1, (hexact.1 hsuccess).2⟩

end Platform

end EtlPlatform
