import EtlPlatform.Library.RunAccounts
import EtlPlatform.Model.Deployment
import EtlPlatform.Proofs.Claims
import EtlPlatform.Proofs.DispatchFlow
import EtlPlatform.Proofs.ProcessFrame
import Mathlib.Data.String.Basic

/-!
# A tick serves every request

`PipelineManager.tick` lists the enabled pipelines with a request and dispatches
them one after the other.  An error of one dispatch is caught and counted; only
what looks like a lost database ends the tick early.  So a tick that keeps its
connection gives every listed pipeline one turn, in the order of the names, and
every dispatch ends once, whatever happens to it and to the platform meanwhile.
-/

namespace EtlPlatform

open Library

section Turns

variable {P : Type}

/-- The turn of a candidate: the statement that opens its dispatch. -/
structure Turn (P : Type) where
  pipeline : P
  /-- the status the candidate was listed with -/
  listed : PipelineStatus
  /-- the stored status after the statement -/
  after : PipelineStatus
  /-- the statement raised -/
  raised : Bool

/-- `TickResult` -/
structure TickResult where
  pipelines_found : ℕ
  pipelines_processed : ℕ
deriving DecidableEq

/-- The answer keeps the connection to the database. -/
def Choice.keepsConnection : Choice → Prop
  | .ok => True
  | .raise exc | .partialBulk _ exc => is_db_disconnect exc = false
  | .lost => False

instance : DecidablePred Choice.keepsConnection
  | .ok => .isTrue trivial
  | .raise exc | .partialBulk _ exc =>
      inferInstanceAs (Decidable (is_db_disconnect exc = false))
  | .lost => .isFalse id

/-- What the dispatch is about to raise is no lost connection. -/
def Stage.KeepsTick : Stage P → Prop
  | .failIfActive exc | .returning (.error exc) => is_db_disconnect exc = false
  | _ => True

theorem backoffDelay_eq_error
    {backoff_seconds : List ℚ} {k : ℕ} {exc : Exc}
    (h : backoffDelay backoff_seconds k = .error exc) :
    exc = indexError "tuple" := by
  unfold backoffDelay at h
  split at h
  · cases h
  · exact (Except.error.inj h).symm

theorem onDispatchExc_keepsTick
    (w : World) (k : ℕ) (exc : Exc) :
    (onDispatchExc w k exc : Stage P).KeepsTick := by
  unfold onDispatchExc
  by_cases hdis : is_db_disconnect exc = true
  · rw [if_pos hdis]
    trivial
  · rw [if_neg hdis]
    by_cases hlt : k < w.max_attempts
    · rw [if_pos hlt]
      cases hdelay : backoffDelay w.backoff_seconds k with
      | ok delay =>
          trivial
      | error exc' =>
          obtain rfl := backoffDelay_eq_error hdelay
          exact (by decide : is_db_disconnect (indexError "tuple") = false)
    · rw [if_neg hlt]
      simpa [Stage.KeepsTick] using hdis

theorem onExecuteExc_keepsTick
    (w : World) (k r : ℕ) (exc : Exc) :
    (onExecuteExc w k r exc : Stage P).KeepsTick := by
  unfold onExecuteExc
  split_ifs
  · exact onDispatchExc_keepsTick w k exc
  · trivial

variable [DecidableEq P]

theorem loopStep_keepsTick
    {w : World} {kept : Db P × List (Write P)} {p : P} {k r : ℕ} {bl : BatchLoop P}
    {pc : LoopPc} {c : Choice} {a : After P}
    (h : loopStep w kept p k r bl pc c = some a) :
    a.stage.KeepsTick := by
  have hexc : ∀ exc, (onExecuteExc w k r exc : Stage P).KeepsTick :=
    onExecuteExc_keepsTick w k r
  cases pc with
  | setup =>
      exact answer_stage h (stageOf_of (fun _ _ => trivial) hexc) hexc
  | fetch v =>
      refine answer_stage h (stageOf_of (fun rows _ => ?_) hexc) hexc
      split_ifs <;> trivial
  | transform v rows =>
      exact answer_stage h (stageOf_of (fun _ _ => trivial) hexc) hexc
  | write v rows res =>
      rcases loopStep_write_cases h with ⟨-, h⟩ | ⟨exc, -, -, h⟩ | ⟨items, -, -, h⟩
      · exact answer_stage h trivial hexc
      · exact answer_stage h (hexc exc) hexc
      · rcases writeStep_cases h with ⟨-, hans⟩ | ⟨-, hans | ⟨applied, exc, -, rfl⟩⟩
        · exact answer_stage hans trivial hexc
        · exact answer_stage hans trivial hexc
        · exact hexc exc
  | advance v rows left n =>
      rcases loopStep_advance_cases h with ⟨exc, -, h⟩ | ⟨v', ws, -, h⟩
      · exact answer_stage h (hexc exc) hexc
      · exact answer_stage h trivial hexc
  | pauseRead v =>
      refine answer_stage h ?_ hexc
      split_ifs <;> trivial
  | pauseApply v =>
      exact answerUpdate_stage h trivial hexc
  | _ =>
      exact answer_stage h trivial hexc

/-- With an answer that keeps the connection, a dispatch goes on to raise no lost one. -/
theorem stageStep_keepsTick
    {w : World} {kept : Db P × List (Write P)} {p : P} {snap : PipelineSnapshot}
    {st : Stage P} {c : Choice} {a : After P}
    (h : stageStep w kept p snap st c = some a) (hc : c.keepsConnection)
    (hst : st.KeepsTick) :
    a.stage.KeepsTick := by
  have hexc : ∀ k exc, (onDispatchExc w k exc : Stage P).KeepsTick :=
    onDispatchExc_keepsTick w
  cases st with
  | snapshot =>
      rcases answer_cases h with ⟨-, rfl⟩ | ⟨exc, rfl, rfl⟩ | ⟨rfl, -⟩
      · dsimp only
        split_ifs <;> trivial
      · exact hc
      · exact hc.elim
  | startRun k =>
      exact answer_stage h trivial (hexc k)
  | runBody k r =>
      exact answer_stage h
        (stageOf_of (fun _ _ => trivial) (onExecuteExc_keepsTick w k r))
        (onExecuteExc_keepsTick w k r)
  | loop k r bl pc =>
      exact loopStep_keepsTick h
  | finishSuccess k r exit v =>
      exact answer_stage h trivial (onExecuteExc_keepsTick w k r)
  | getStatus k exit =>
      refine answer_stage h ?_ (hexc k)
      split_ifs <;> trivial
  | finishIdle k exit =>
      exact answerUpdate_stage h trivial (hexc k)
  | rollback k r exc =>
      exact answer_stage h trivial (hexc k)
  | finishFailed k r exc =>
      exact answer_stage h (hexc k exc) (hexc k)
  | sleep k delay =>
      cases c with
      | ok =>
          obtain rfl := Option.some.inj h
          trivial
      | _ =>
          cases h
  | failIfActive exc =>
      unfold stageStep answerUpdate at h
      split_ifs at h
      all_goals
        rcases answer_cases h with ⟨-, rfl⟩ | ⟨exc', rfl, rfl⟩ | ⟨rfl, -⟩
        · exact hst
        · exact hc
        · exact hc.elim
  | returning res =>
      cases h

end Turns

/-! ## One step of a tick -/

section Steps

variable {P : Type}

/-- The dispatch of a process is about to raise no lost connection. -/
def Pc.KeepsTick : Pc P → Prop
  | .dispatch _ _ st _ => st.KeepsTick
  | _ => True

/-- The pipelines whose dispatch the tick has still to end. -/
def Pc.owed : Pc P → List P
  | .tick todo => todo.map Prod.fst
  | .dispatch p _ _ todo => p :: todo.map Prod.fst
  | _ => []

/-- What a tick lists are requests. -/
def Pc.ListsRequests (pc : Pc P) : Prop :=
  ∀ x ∈ pc.todo, x.2 = .RUN_REQUESTED ∨ x.2 = .PAUSE_REQUESTED

/-- The turn a step of a process is, if it opens a dispatch. -/
def Proc.turn (db' : Db P) (pr : Proc P) (c : Choice) : List (Turn P) :=
  match pr.pc with
  | .tick ((p, s) :: _) => [⟨p, s, db'.status p, c ≠ .ok⟩]
  | _ => []

/-- The dispatch a step of a process ends, if it ends one, and whether it returned. -/
def Proc.ended (db : Db P) (pr : Proc P) (c : Choice) : List (P × Bool) :=
  match pr.pc with
  | .tick ((p, .RUN_REQUESTED) :: _) =>
      if c = .ok ∧ db.status p = .RUN_REQUESTED then [] else [(p, c = .ok)]
  | .tick ((p, .PAUSE_REQUESTED) :: _) => [(p, c = .ok)]
  | .tick ((p, _) :: _) => [(p, true)]
  | .dispatch p _ (.returning (.ok ())) _ => [(p, true)]
  | .dispatch p _ (.returning (.error _)) _ => [(p, false)]
  | _ => []

/-- What a step of a tick that keeps its connection does to the list of its candidates. -/
structure TurnTaken (db : Db P) (pr : Proc P) (c : Choice) (db' : Db P) (pr' : Proc P) : Prop where
  turn : (pr.turn db' c).map (fun t => (t.pipeline, t.listed)) ++ pr'.pc.todo = pr.pc.todo
  ended : (pr.ended db c).map Prod.fst ++ pr'.pc.owed = pr.pc.owed
  taken : pr.pc.ListsRequests →
    ∀ t ∈ pr.turn db' c, t.raised = false → t.after ≠ t.listed
  keeps : pr'.pc.KeepsTick

theorem afterDispatch_of_keeps
    {todo : List (P × PipelineStatus)} {exc : Exc} (h : is_db_disconnect exc = false) :
    afterDispatch todo (.error exc) = .tick todo := by
  simp [afterDispatch, h]

variable [DecidableEq P]

/-- The turn of a candidate listed with a pause request. -/
theorem dispatchPause_turn
    {db db' : Db P} {p : P} {todo : List (P × PipelineStatus)} {ws : List (Write P)}
    {c : Choice} {pr' : Proc P}
    (h : dispatchPause db p todo c = some (db', pr')) (hc : c.keepsConnection) :
    TurnTaken db ⟨.tick ((p, .PAUSE_REQUESTED) :: todo), ws⟩ c db' pr' := by
  cases c with
  | ok =>
      obtain ⟨rfl, rfl⟩ := Prod.mk.inj (Option.some.inj h)
      refine ⟨rfl, rfl, fun _ t ht _ => ?_, trivial⟩
      obtain rfl := List.mem_singleton.mp ht
      simp only [Db.apply_pause_requested, Db.status_updateStatus]
      split_ifs <;> simp_all
  | raise exc =>
      obtain ⟨rfl, rfl⟩ := Prod.mk.inj (Option.some.inj h)
      rw [afterDispatch_of_keeps hc]
      refine ⟨rfl, rfl, fun _ t ht hraised => ?_, trivial⟩
      obtain rfl := List.mem_singleton.mp ht
      simp at hraised
  | lost =>
      exact hc.elim
  | partialBulk applied exc =>
      cases h

/-- The turn of a candidate listed with a run request. -/
theorem dispatchClaim_turn
    {db db' : Db P} {p : P} {todo : List (P × PipelineStatus)} {ws : List (Write P)}
    {c : Choice} {pr' : Proc P}
    (h : dispatchClaim db p todo c = some (db', pr')) (hc : c.keepsConnection) :
    TurnTaken db ⟨.tick ((p, .RUN_REQUESTED) :: todo), ws⟩ c db' pr' := by
  cases c with
  | ok =>
      simp only [dispatchClaim] at h
      split_ifs at h with hreq <;> obtain ⟨rfl, rfl⟩ := Prod.mk.inj (Option.some.inj h)
      · refine ⟨rfl, by simp [Proc.ended, hreq, Pc.owed], fun _ t ht _ => ?_, trivial⟩
        obtain rfl := List.mem_singleton.mp ht
        simp [status_claim_run_requested, hreq]
      · refine ⟨rfl, by simp [Proc.ended, hreq, Pc.owed], fun _ t ht _ => ?_, trivial⟩
        obtain rfl := List.mem_singleton.mp ht
        exact hreq
  | raise exc =>
      obtain ⟨rfl, rfl⟩ := Prod.mk.inj (Option.some.inj h)
      rw [afterDispatch_of_keeps hc]
      refine ⟨rfl, by simp [Proc.ended, Pc.owed], fun _ t ht hraised => ?_, trivial⟩
      obtain rfl := List.mem_singleton.mp ht
      simp at hraised
  | lost =>
      exact hc.elim
  | partialBulk applied exc =>
      cases h

/-- **One step of a tick**: the first candidate has its turn, or the current dispatch goes on. -/
theorem procStep_turn
    {w : World} {db db' : Db P} {pr pr' : Proc P} {c : Choice}
    (h : procStep w db pr c = some (db', pr')) (hc : c.keepsConnection)
    (hin : pr.pc.inTick) (hkeeps : pr.pc.KeepsTick) :
    TurnTaken db pr c db' pr' := by
  obtain ⟨pc, pending⟩ := pr
  cases pc with
  | tick todo =>
      rcases todo with _ | ⟨⟨p, s⟩, todo⟩
      · obtain ⟨rfl, rfl⟩ := Prod.mk.inj (Option.some.inj h)
        exact ⟨rfl, rfl, fun _ t ht => (by cases ht), trivial⟩
      · cases s with
        | PAUSE_REQUESTED =>
            exact dispatchPause_turn h hc
        | RUN_REQUESTED =>
            exact dispatchClaim_turn h hc
        | _ =>
            obtain ⟨rfl, rfl⟩ := Prod.mk.inj (Option.some.inj h)
            refine ⟨rfl, rfl, fun hlists t ht _ => ?_, trivial⟩
            simpa using hlists _ List.mem_cons_self
  | dispatch p snap st todo =>
      rcases procStep_dispatch h with ⟨res, rfl, rfl, rfl⟩ | ⟨a, hst, rfl, rfl⟩
      · have hafter : afterDispatch todo res = .tick todo := by
          cases res with
          | ok _ =>
              rfl
          | error exc =>
              exact afterDispatch_of_keeps hkeeps
        rw [hafter]
        cases res <;> exact ⟨rfl, rfl, fun _ t ht => (by cases ht), trivial⟩
      · refine ⟨rfl, ?_, fun _ t ht => (by cases ht), stageStep_keepsTick hst hc hkeeps⟩
        cases st with
        | returning res =>
            cases hst
        | _ =>
            rfl
  | _ =>
      exact hin.elim

end Steps

/-! ## The candidates -/

section Candidates

variable {P : Type}

/-- The pipeline is enabled and has a request. -/
def Db.Requested (db : Db P) (p : P) : Prop :=
  (db.pipelines p).enabled = true ∧
    (db.status p = .RUN_REQUESTED ∨ db.status p = .PAUSE_REQUESTED)

/-- `get_active` returns the requested pipelines with their statuses. -/
theorem mem_get_active_iff
    {db : Db P} {x : P × PipelineStatus} :
    x ∈ db.get_active ↔ db.Requested x.1 ∧ x.2 = db.status x.1 := by
  obtain ⟨p, st⟩ := x
  simp only [Db.get_active, List.mem_map, List.mem_insertionSort, List.mem_filter,
    Bool.and_eq_true, Bool.or_eq_true, decide_eq_true_eq, Prod.mk.injEq, Db.Requested]
  constructor
  · rintro ⟨q, ⟨-, hon, hreq⟩, rfl, rfl⟩
    exact ⟨⟨hon, hreq⟩, rfl⟩
  · rintro ⟨⟨hon, hreq⟩, rfl⟩
    exact ⟨p, ⟨db.complete p, hon, hreq⟩, rfl, rfl⟩

theorem get_active_pipelines
    (db : Db P) :
    db.get_active.map Prod.fst = (db.ids.filter (fun p =>
      (db.pipelines p).enabled &&
        (db.status p = .RUN_REQUESTED || db.status p = .PAUSE_REQUESTED))).insertionSort
          (fun p q => (db.pipelines p).name ≤ (db.pipelines q).name) := by
  simp [Db.get_active, Function.comp_def]

/-- The candidates come by name. -/
theorem get_active_sorted
    (db : Db P) :
    (db.get_active.map Prod.fst).Pairwise
      (fun p q => (db.pipelines p).name ≤ (db.pipelines q).name) := by
  have : Std.Total (fun p q => (db.pipelines p).name ≤ (db.pipelines q).name) :=
    ⟨fun p q => le_total (db.pipelines p).name (db.pipelines q).name⟩
  have : IsTrans P (fun p q => (db.pipelines p).name ≤ (db.pipelines q).name) :=
    ⟨fun _ _ _ => le_trans⟩
  rw [get_active_pipelines]
  exact List.pairwise_insertionSort _ _

/-- No candidate comes twice. -/
theorem get_active_nodup
    (db : Db P) :
    (db.get_active.map Prod.fst).Nodup := by
  rw [get_active_pipelines]
  exact (List.perm_insertionSort _ _).nodup_iff.mpr (db.nodup.filter _)

end Candidates

/-! ## Whole ticks -/

section Ticks

variable {ι P : Type} [DecidableEq ι] [DecidableEq P]

/-- The turn of a candidate an event is, if the process opens a dispatch with it. -/
def turns (i : ι) (s : Sys ι P) (e : Event ι P) (s' : Sys ι P) : List (Turn P) :=
  match e with
  | .runner j c => if j = i then (s.procs i).turn s'.db c else []
  | _ => []

/-- The dispatch an event ends, if the process ends one with it. -/
def ends (i : ι) (s : Sys ι P) (e : Event ι P) (_ : Sys ι P) : List (P × Bool) :=
  match e with
  | .runner j c => if j = i then (s.procs i).ended s.db c else []
  | _ => []

/-- The process is inside its tick, does not die, and its statements keep the connection. -/
def TickKeepsConnection (i : ι) (s : Sys ι P) : Event ι P → Prop
  | .kill j => (s.procs i).pc.inTick ∧ j ≠ i
  | .runner j c => (s.procs i).pc.inTick ∧ (j = i → c.keepsConnection)
  | _ => (s.procs i).pc.inTick

instance (i : ι) (s : Sys ι P) : DecidablePred (TickKeepsConnection i s)
  | .kill j => inferInstanceAs (Decidable ((s.procs i).pc.inTick ∧ j ≠ i))
  | .runner j c =>
      inferInstanceAs (Decidable ((s.procs i).pc.inTick ∧ (j = i → c.keepsConnection)))
  | .patch _ _ | .source _ | .run _ | .pause _ | .spawn _ =>
      inferInstanceAs (Decidable (s.procs i).pc.inTick)

/-- The counters `PipelineManager.tick` returns. -/
def tickResult (taken : List (Turn P)) (ended : List (P × Bool)) : TickResult where
  pipelines_found := taken.length
  pipelines_processed := (ended.filter Prod.snd).length

/-- What a tick that began on `db` has done. -/
structure TickServes (db : Db P) (taken : List (Turn P)) (ended : List (P × Bool)) : Prop where
  /-- exactly the enabled pipelines with a request have a turn -/
  every : ∀ p, p ∈ taken.map Turn.pipeline ↔ db.Requested p
  once : (taken.map Turn.pipeline).Nodup
  in_order : (taken.map Turn.pipeline).Pairwise
    (fun p q => (db.pipelines p).name ≤ (db.pipelines q).name)
  as_listed : ∀ t ∈ taken, t.listed = db.status t.pipeline
  /-- a turn that does not raise leaves no request standing -/
  answered : ∀ t ∈ taken, t.raised = false → t.after ≠ t.listed
  /-- and the dispatch of each of them ends once -/
  eachEnds : ended.map Prod.fst = taken.map Turn.pipeline
  /-- every pipeline found is processed, or its error is logged -/
  counted : (tickResult taken ended).pipelines_processed +
    (ended.filter (fun x => !x.2)).length = (tickResult taken ended).pipelines_found

/-- What a process knows inside a tick. -/
structure InTick (i : ι) (s : Sys ι P) : Prop where
  keeps : (s.procs i).pc.KeepsTick
  lists : (s.procs i).pc.ListsRequests

/-- An event of a tick takes its turn and its end off the lists. -/
structure TickStep (i : ι) (s : Sys ι P) (e : Event ι P) (s' : Sys ι P) : Prop where
  inTick : InTick i s'
  turn : (turns i s e s').map (fun t => (t.pipeline, t.listed)) ++ (s'.procs i).pc.todo =
    (s.procs i).pc.todo
  ended : (ends i s e s').map Prod.fst ++ (s'.procs i).pc.owed = (s.procs i).pc.owed
  answered : ∀ t ∈ turns i s e s', t.raised = false → t.after ≠ t.listed

/-- **One event of a tick.** -/
theorem step_tick
    {w : World} {i : ι} {s s' : Sys ι P} {e : Event ι P}
    (hin : InTick i s) (hstay : TickKeepsConnection i s e) (h : s.step w e = some s') :
    TickStep i s e s' := by
  have hother : s'.procs i = s.procs i → turns i s e s' = [] → ends i s e s' = [] →
      TickStep i s e s' := by
    intro hproc hturns hends
    refine ⟨⟨hproc ▸ hin.keeps, hproc ▸ hin.lists⟩, ?_, ?_, ?_⟩
    · rw [hturns, hproc]
      rfl
    · rw [hends, hproc]
      rfl
    · rw [hturns]
      intro t ht
      cases ht
  cases e with
  | kill j =>
      obtain rfl := Option.some.inj h
      exact hother (Function.update_of_ne (fun heq => hstay.2 heq.symm) _ _) rfl rfl
  | spawn j =>
      obtain ⟨hdown, rfl⟩ := Sys.step_spawn_iff.mp h
      have hne : i ≠ j := by
        rintro rfl
        have hpc : (s.procs i).pc.inTick := hstay
        rw [hdown] at hpc
        exact hpc
      exact hother (Function.update_of_ne hne _ _) rfl rfl
  | runner j c =>
      obtain ⟨db, pr, hproc, rfl⟩ := Sys.step_runner_iff.mp h
      by_cases hj : j = i
      · subst hj
        have hturn := procStep_turn hproc (hstay.2 rfl) hstay.1 hin.keeps
        refine ⟨⟨by simpa using hturn.keeps, ?_⟩, ?_, ?_, ?_⟩
        · intro x hx
          refine hin.lists x ?_
          rw [← hturn.turn]
          refine List.mem_append_right _ ?_
          simpa using hx
        · simpa [turns] using hturn.turn
        · simpa [ends] using hturn.ended
        · simpa [turns] using hturn.taken hin.lists
      · exact hother (Function.update_of_ne (fun heq => hj heq.symm) _ _)
          (by simp [turns, hj]) (by simp [ends, hj])
  | _ =>
      obtain rfl := Option.some.inj h
      exact hother rfl rfl rfl

omit [DecidableEq ι] [DecidableEq P] in
/-- Outside a tick, no candidate is left. -/
theorem nothing_left
    {pc : Pc P} (h : ¬ pc.inTick) :
    pc.todo = [] ∧ pc.owed = [] := by
  cases pc with
  | tick todo =>
      exact absurd trivial h
  | dispatch p snap st todo =>
      exact absurd trivial h
  | _ =>
      exact ⟨rfl, rfl⟩

/-- **A tick that keeps its connection serves every request.**  Of the pipelines that are
enabled and requested when it lists them, each has one turn, in the order of the names; a turn
that does not raise leaves no request standing, and the dispatch of each of them ends. -/
theorem tick_serves_every_request
    {w : World} {i : ι} {s s₁ s' : Sys ι P} {es : List (Event ι P)}
    (hpc : (s.procs i).pc = .started ∨ (s.procs i).pc = .polling)
    (hbegin : s.step w (.runner i .ok) = some s₁)
    (h : Path (Sys.step w) (fun s e _ => TickKeepsConnection i s e) s₁ es s')
    (hend : ¬ (s'.procs i).pc.inTick) :
    TickServes s.db (trace (Sys.step w) (turns i) s₁ es) (trace (Sys.step w) (ends i) s₁ es) := by
  have hlisted : (s₁.procs i).pc = .tick s.db.get_active := by
    obtain ⟨db, pr, hproc, rfl⟩ := Sys.step_runner_iff.mp hbegin
    rcases hpr : s.procs i with ⟨pc, pending⟩
    rw [hpr] at hproc hpc
    rcases hpc with rfl | rfl <;>
      obtain ⟨rfl, rfl⟩ := Prod.mk.inj (Option.some.inj hproc) <;> simp
  have hin : InTick i s₁ := by
    refine ⟨by rw [hlisted]; trivial, ?_⟩
    intro x hx
    rw [hlisted] at hx
    obtain ⟨⟨-, hreq⟩, heq⟩ := mem_get_active_iff.mp hx
    rwa [heq]
  have hkept := h.with_invariant hin (fun _ _ _ hin hstay hs => (step_tick hin hstay hs).inTick)
  have hturns : (trace (Sys.step w) (turns i) s₁ es).map (fun t => (t.pipeline, t.listed)) ++
      (s'.procs i).pc.todo = (s₁.procs i).pc.todo :=
    hkept.trace_append (fun _ _ _ hstay hs => (step_tick hstay.1 hstay.2 hs).turn)
  have hends : (trace (Sys.step w) (ends i) s₁ es).map Prod.fst ++ (s'.procs i).pc.owed =
      (s₁.procs i).pc.owed :=
    hkept.trace_append (fun _ _ _ hstay hs => (step_tick hstay.1 hstay.2 hs).ended)
  have hanswered : ∀ t ∈ trace (Sys.step w) (turns i) s₁ es,
      t.raised = false → t.after ≠ t.listed :=
    hkept.of_mem_trace (fun _ _ _ hstay hs => (step_tick hstay.1 hstay.2 hs).answered)
  obtain ⟨htodo, howed⟩ := nothing_left hend
  rw [htodo, hlisted, List.append_nil] at hturns
  rw [howed, hlisted, List.append_nil] at hends
  have hpipelines : (trace (Sys.step w) (turns i) s₁ es).map Turn.pipeline =
      s.db.get_active.map Prod.fst := by
    have hfst := congrArg (List.map Prod.fst) hturns
    rwa [List.map_map] at hfst
  have hends' : (trace (Sys.step w) (ends i) s₁ es).map Prod.fst =
      (trace (Sys.step w) (turns i) s₁ es).map Turn.pipeline :=
    hends.trans hpipelines.symm
  exact
    { every := by
        intro p
        rw [hpipelines, List.mem_map]
        constructor
        · rintro ⟨x, hx, rfl⟩
          exact (mem_get_active_iff.mp hx).1
        · intro hreq
          exact ⟨(p, s.db.status p), mem_get_active_iff.mpr ⟨hreq, rfl⟩, rfl⟩
      once := by
        rw [hpipelines]
        exact get_active_nodup s.db
      in_order := by
        rw [hpipelines]
        exact get_active_sorted s.db
      as_listed := by
        intro t ht
        have hmem : (t.pipeline, t.listed) ∈ s.db.get_active := by
          rw [← show _ = s.db.get_active from hturns]
          exact List.mem_map_of_mem ht
        exact (mem_get_active_iff.mp hmem).2
      answered := hanswered
      eachEnds := hends'
      counted := by
        have hlength := congrArg List.length hends'
        rw [List.length_map, List.length_map] at hlength
        rw [tickResult, ← hlength]
        exact (List.length_eq_length_filter_add _).symm }

/-- Two film pipelines, one to be run and one to be paused. -/
def twoRequests : Db Bool where
  ids := [false, true]
  nodup := by decide
  complete := by decide
  pipelines b := { filmPipeline .full 2 (if b then .RUN_REQUESTED else .PAUSE_REQUESTED) with
    name := if b then "films" else "more films" }
  tasks _ := []
  runs := []
  store := { source := filmSource [], etl_state := fun _ => none, sink := fun _ => none }

/-- The tasks of the first pipeline cannot be read; the tick goes on with the second. -/
def tickWithError : List (Event Unit Bool) :=
  [.runner () .ok, .runner () (.raise (statementError "QueryCanceledError" "statement timeout")),
    .runner () .ok, .runner () .ok, .runner () .ok]

theorem tick_serves_every_request_after_an_error :
    ∃ s₁ s' : Sys Unit Bool,
      (Sys.polling twoRequests).step World.plain (.runner () .ok) = some s₁ ∧
      exec (Sys.step World.plain) s₁ tickWithError = some s' ∧
      TickServes twoRequests (trace (Sys.step World.plain) (turns ()) s₁ tickWithError)
        (trace (Sys.step World.plain) (ends ()) s₁ tickWithError) ∧
      trace (Sys.step World.plain) (ends ()) s₁ tickWithError = [(true, false), (false, true)] := by
  have hrun : ((Sys.polling twoRequests : Sys Unit Bool).step World.plain (.runner () .ok)).any
      (fun s₁ => (exec (guarded (Sys.step World.plain) (TickKeepsConnection ())) s₁
          tickWithError).any (fun s' => decide (¬ (s'.procs ()).pc.inTick)) &&
        decide (trace (Sys.step World.plain) (ends ()) s₁ tickWithError =
          [(true, false), (false, true)])) = true := by
    decide +kernel
  obtain ⟨s₁, hbegin, hs₁⟩ := (Option.any_eq_true _ _).mp hrun
  obtain ⟨hexec, hends⟩ := Bool.and_eq_true_iff.mp hs₁
  obtain ⟨s', hexec, hend⟩ := (Option.any_eq_true _ _).mp hexec
  have hpath := Path.of_exec_guarded hexec
  exact ⟨s₁, s', hbegin, hpath.exec_eq,
    tick_serves_every_request (Or.inr rfl) hbegin hpath (of_decide_eq_true hend),
    of_decide_eq_true hends⟩

end Ticks

end EtlPlatform
