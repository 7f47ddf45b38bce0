import EtlPlatform.Proofs.RetryLaw

/-!
# What can follow a successful execution

When `execute` has returned, `dispatch` only has to finalize the status.  The
statements that do it stand in the same `try` as the execution, so an error of
theirs that is no disconnect is handled as if the execution had failed: the
pipeline is executed once more, or is marked `FAILED` if no attempt is left.

`success_stands_iff` says when a success stands.  A dispatch with an attempt
left starts it as soon as a finalizing statement fails (`loud_run`); one without
runs `fail_if_active`, which still misses a pipeline that is no longer active
(`spent_run`).
-/

namespace EtlPlatform

open Library

/-- No further call of `execute`, and the pipeline is not marked `FAILED`. -/
def SuccessStands (acts : List DispatchAct) : Prop :=
  (∀ k, .attempt (.call k) ∉ acts) ∧
    ∀ before, .finalWrite before .FAILED ∈ acts → before = .FAILED

theorem successStands_nil : SuccessStands [] := by
  simp [SuccessStands]

theorem successStands_finalWrite_iff
    {before after : PipelineStatus} :
    SuccessStands [.finalWrite before after] ↔ (after = .FAILED → before = .FAILED) := by
  simp [SuccessStands, eq_comm]

theorem successStands_append_iff
    {acts acts' : List DispatchAct} :
    SuccessStands (acts ++ acts') ↔ SuccessStands acts ∧ SuccessStands acts' := by
  constructor
  · rintro ⟨hcall, hfinal⟩
    constructor
    · exact ⟨fun k hk => hcall k (List.mem_append_left _ hk),
        fun b hb => hfinal b (List.mem_append_left _ hb)⟩
    · exact ⟨fun k hk => hcall k (List.mem_append_right _ hk),
        fun b hb => hfinal b (List.mem_append_right _ hb)⟩
  · rintro ⟨⟨hcall, hfinal⟩, ⟨hcall', hfinal'⟩⟩
    refine ⟨fun k hk => ?_, fun b hb => ?_⟩
    · exact (List.mem_append.mp hk).elim (hcall k) (hcall' k)
    · exact (List.mem_append.mp hb).elim (hfinal b) (hfinal' b)

section Stages

variable {P : Type}

/-- The attempt has succeeded and its status is being finalized, or is. -/
def Stage.Finalizing (k : ℕ) : Stage P → Prop
  | .getStatus j _ | .finishIdle j _ => j = k
  | .returning _ => True
  | _ => False

/-- The statements that finalize a success. -/
def Stage.finalizes : Stage P → Bool
  | .getStatus _ _ | .finishIdle _ _ => true
  | _ => false

/-- The statement raises an error that is no disconnect. -/
def Choice.fails : Choice → Bool
  | .raise exc => !is_db_disconnect exc
  | _ => false

/-- There is no further attempt: the last one is made, or the delay before the next one
is not found. -/
def World.Spent (w : World) (k : ℕ) : Prop :=
  w.max_attempts ≤ k ∨ w.backoff_seconds = []

/-- The attempt is over and none follows. -/
def Stage.Spent (k : ℕ) : Stage P → Prop
  | .failIfActive _ => True
  | st => st.Finalizing k

/-- `fail_if_active` is executed, and the pipeline is active. -/
def Stage.strikes (status : PipelineStatus) (c : Choice) : Stage P → Bool
  | .failIfActive _ => status ∈ [.RUNNING, .PAUSE_REQUESTED] && (c = .ok || c = .lost)
  | _ => false

/-- Another attempt comes next. -/
def Stage.Retrying : Stage P → Prop
  | .sleep _ _ | .startRun _ => True
  | _ => False

theorem Stage.Finalizing.spent
    {k : ℕ} {st : Stage P} (h : st.Finalizing k) :
    st.Spent k := by
  cases st with
  | failIfActive exc =>
      trivial
  | _ =>
      exact h

theorem onDispatchExc_of_disconnect
    {w : World} {k : ℕ} {exc : Exc} (hdis : is_db_disconnect exc = true) :
    (onDispatchExc w k exc : Stage P).Finalizing k := by
  rw [onDispatchExc_disconnect hdis]
  trivial

theorem onDispatchExc_of_spent
    {w : World} {k : ℕ} {exc : Exc} (hspent : w.Spent k) :
    (onDispatchExc w k exc : Stage P).Spent k := by
  unfold onDispatchExc
  by_cases hdis : is_db_disconnect exc = true
  · rw [if_pos hdis]
    trivial
  · rw [if_neg hdis]
    by_cases hlt : k < w.max_attempts
    · have hnil : w.backoff_seconds = [] := hspent.resolve_left (Nat.not_le.mpr hlt)
      simp only [if_pos hlt, backoffDelay, hnil, List.getElem?_nil]
      trivial
    · rw [if_neg hlt]
      trivial

theorem onDispatchExc_of_not_spent
    {w : World} {k : ℕ} {exc : Exc} (hspent : ¬ w.Spent k)
    (hdis : is_db_disconnect exc = false) :
    (onDispatchExc w k exc : Stage P).Retrying := by
  obtain ⟨hlt, hne⟩ := not_or.mp hspent
  unfold onDispatchExc
  rw [if_neg (by simp [hdis]), if_pos (Nat.not_le.mp hlt), backoffDelay_eq hne]
  trivial

end Stages

section Steps

variable {P : Type} [DecidableEq P]
variable {w : World} {db : Db P} {pending : List (Write P)} {p : P} {snap : PipelineSnapshot}
variable {k : ℕ} {c : Choice} {a : After P}

/-- A step of the finalization: it goes on, or the dispatcher's handler takes over. -/
theorem finalizing_step
    {st : Stage P} (h : stageStep w (db, pending) p snap st c = some a)
    (hst : st.Finalizing k) :
    st.finalizes = true ∧ SuccessStands (st.acts w db p snap c a.db) ∧
      ((c.fails = false ∧ a.stage.Finalizing k) ∨
        ∃ exc, c = .raise exc ∧ a.stage = onDispatchExc w k exc) := by
  cases st with
  | getStatus j exit =>
      obtain rfl : j = k := hst
      refine ⟨rfl, by simp [SuccessStands, Stage.acts], ?_⟩
      rcases answer_cases h with ⟨rfl, rfl⟩ | ⟨exc, rfl, rfl⟩ | ⟨rfl, rfl⟩
      · refine Or.inl ⟨rfl, ?_⟩
        by_cases hpaused : db.status p = .PAUSED
        · simp only [hpaused, if_true]
          trivial
        · simp only [hpaused, if_false]
          rfl
      · exact Or.inr ⟨exc, rfl, rfl⟩
      · exact Or.inl ⟨rfl, onDispatchExc_of_disconnect (w := w) is_db_disconnect_connectionLost⟩
  | finishIdle j exit =>
      obtain rfl : j = k := hst
      have hidle : moveStatus [.RUNNING] .IDLE (db.status p) = .FAILED →
          db.status p = .FAILED := by
        cases db.status p <;> simp [moveStatus]
      refine ⟨rfl, ?_⟩
      rcases update_cases h with ⟨rfl, hstage, hb⟩ | ⟨exc, rfl, hstage, hb⟩ | ⟨rfl, hstage, hb⟩
      · refine ⟨successStands_finalWrite_iff.mpr (hb ▸ hidle), Or.inl ⟨rfl, ?_⟩⟩
        rw [hstage]
        trivial
      · exact ⟨successStands_finalWrite_iff.mpr (fun hafter => hb ▸ hafter),
          Or.inr ⟨exc, rfl, hstage⟩⟩
      · refine ⟨successStands_finalWrite_iff.mpr (hb ▸ hidle), Or.inl ⟨rfl, ?_⟩⟩
        rw [hstage]
        exact onDispatchExc_of_disconnect (w := w) is_db_disconnect_connectionLost
  | returning res =>
      cases h
  | _ =>
      exact hst.elim

/-- A step of a dispatch that has no attempt left. -/
theorem spent_step
    {st : Stage P} (h : stageStep w (db, pending) p snap st c = some a)
    (hspent : w.Spent k) (hst : st.Spent k) :
    a.stage.Spent k ∧
      (SuccessStands (st.acts w db p snap c a.db) ↔ st.strikes (db.status p) c = false) := by
  by_cases hfail : ∃ exc, st = .failIfActive exc
  · obtain ⟨exc, rfl⟩ := hfail
    have hactive : (moveStatus [.RUNNING, .PAUSE_REQUESTED] .FAILED (db.status p) = .FAILED →
          db.status p = .FAILED) ↔ db.status p ∉ [PipelineStatus.RUNNING, .PAUSE_REQUESTED] := by
      cases db.status p <;> simp [moveStatus]
    simp only [Stage.acts, successStands_finalWrite_iff]
    rcases update_cases h with ⟨rfl, hstage, hb⟩ | ⟨exc', rfl, hstage, hb⟩ | ⟨rfl, hstage, hb⟩
    · exact ⟨hstage ▸ trivial, by rw [hb, hactive]; simp [Stage.strikes]⟩
    · exact ⟨hstage ▸ trivial, by rw [hb]; simp [Stage.strikes]⟩
    · exact ⟨hstage ▸ trivial, by rw [hb, hactive]; simp [Stage.strikes]⟩
  · have hfin : st.Finalizing k := by
      cases st with
      | failIfActive exc =>
          exact absurd ⟨exc, rfl⟩ hfail
      | _ =>
          exact hst
    have hquiet : st.strikes (db.status p) c = false := by
      cases st with
      | failIfActive exc =>
          exact absurd ⟨exc, rfl⟩ hfail
      | _ =>
          rfl
    obtain ⟨-, hstands, hnext⟩ := finalizing_step h hfin
    refine ⟨?_, by simp [hstands, hquiet]⟩
    rcases hnext with ⟨-, hgo⟩ | ⟨exc, -, hexc⟩
    · exact hgo.spent
    · rw [hexc]
      exact onDispatchExc_of_spent hspent

end Steps

section Dispatch

variable {ι P : Type} [DecidableEq ι] [DecidableEq P]

def Pc.finalizes : Pc P → Bool
  | .dispatch _ _ st _ => st.finalizes
  | _ => false

def Pc.strikes (status : PipelineStatus) (c : Choice) : Pc P → Bool
  | .dispatch _ _ st _ => st.strikes status c
  | _ => false

/-- A finalizing statement of process `i` raises an error that is no disconnect. -/
def FinalizerFails (i : ι) (s : Sys ι P) : Event ι P → Prop
  | .runner j c => j = i ∧ (s.procs i).pc.finalizes = true ∧ c.fails = true
  | _ => False

/-- Process `i` executes `fail_if_active` while `p` is `RUNNING` or `PAUSE_REQUESTED`. -/
def FailsActive (i : ι) (p : P) (s : Sys ι P) : Event ι P → Prop
  | .runner j c => j = i ∧ (s.procs i).pc.strikes (s.db.status p) c = true
  | _ => False

instance (i : ι) (s : Sys ι P) : DecidablePred (FinalizerFails i s)
  | .runner j c =>
      inferInstanceAs (Decidable (j = i ∧ (s.procs i).pc.finalizes = true ∧ c.fails = true))
  | .run _ | .pause _ | .patch _ _ | .source _ | .kill _ | .spawn _ => .isFalse id

omit [DecidableEq ι] [DecidableEq P] in
theorem not_finalizerFails_of_other
    {i : ι} {s : Sys ι P} {e : Event ι P} (hother : ∀ c, e ≠ .runner i c) :
    ¬ FinalizerFails i s e := by
  cases e with
  | runner j c =>
      rintro ⟨rfl, -⟩
      exact hother c rfl
  | _ =>
      exact id

omit [DecidableEq ι] [DecidableEq P] in
theorem not_failsActive_of_other
    {i : ι} {p : P} {s : Sys ι P} {e : Event ι P} (hother : ∀ c, e ≠ .runner i c) :
    ¬ FailsActive i p s e := by
  cases e with
  | runner j c =>
      rintro ⟨rfl, -⟩
      exact hother c rfl
  | _ =>
      exact id

section Run

variable {w : World} {i : ι} {p : P} {k : ℕ}
variable {s s' : Sys ι P} {es : List (Event ι P)} {snap : PipelineSnapshot} {st : Stage P}
variable {todo : List (P × PipelineStatus)}

/-- While no finalizing statement fails, the success stands. -/
theorem quiet_run
    (hpath : Path (Sys.step w) (fun s e _ => StillDispatching i s e) s es s')
    (hpc : (s.procs i).pc = .dispatch p snap st todo) (hst : st.Finalizing k)
    (hquiet : Path (Sys.step w) (fun s e _ => ¬ FinalizerFails i s e) s es s') :
    SuccessStands (trace (Sys.step w) (dispatchActs w i) s es) := by
  induction hpath generalizing snap st with
  | nil s =>
      exact successStands_nil
  | @cons s t s' e es hstep hgo _ ih =>
      obtain ⟨hnot, hrest⟩ := (Path.cons_iff hstep).mp hquiet
      rw [trace_cons es hstep, successStands_append_iff]
      rcases dispatch_event_cases hstep hpc hgo with
        ⟨c, pending, snap', a, rfl, ha, hpc', hacts⟩ | ⟨-, hpc', hacts⟩
      · rw [hacts]
        obtain ⟨hfinalizes, hstands, hnext⟩ := finalizing_step ha hst
        refine ⟨hstands, ih hpc' ?_ hrest⟩
        rcases hnext with ⟨-, hgoes⟩ | ⟨exc, rfl, hexc⟩
        · exact hgoes
        · have hdis : is_db_disconnect exc = true := by
            by_contra hother
            exact hnot ⟨rfl, by simp [hpc, Pc.finalizes, hfinalizes],
              by simp [Choice.fails, hother]⟩
          rw [hexc]
          exact onDispatchExc_of_disconnect hdis
      · rw [hacts]
        exact ⟨successStands_nil, ih hpc' hst hrest⟩

/-- A dispatch about to make another attempt makes it before it returns. -/
theorem retried_run
    (hpath : Path (Sys.step w) (fun s e _ => StillDispatching i s e) s es s')
    (hpc : (s.procs i).pc = .dispatch p snap st todo) (hst : st.Retrying)
    (hret : (s'.procs i).pc.returned = true) :
    ¬ SuccessStands (trace (Sys.step w) (dispatchActs w i) s es) := by
  induction hpath generalizing snap st with
  | nil s =>
      rw [hpc] at hret
      cases st with
      | returning res =>
          exact hst.elim
      | _ =>
          cases hret
  | @cons s t s' e es hstep hgo _ ih =>
      rw [trace_cons es hstep, successStands_append_iff]
      rintro ⟨hstands, hrest⟩
      rcases dispatch_event_cases hstep hpc hgo with
        ⟨c, pending, snap', a, rfl, ha, hpc', hacts⟩ | ⟨-, hpc', -⟩
      · cases st with
        | startRun j =>
            rw [hacts] at hstands
            exact hstands.1 j (List.mem_cons_self)
        | sleep j delay =>
            have hnext : a.stage.Retrying := by
              cases c with
              | ok =>
                  obtain rfl := Option.some.inj ha
                  trivial
              | _ =>
                  cases ha
            exact ih hpc' hnext hret hrest
        | _ =>
            exact hst.elim
      · exact ih hpc' hst hret hrest

/-- With an attempt left, a success stands only if no finalizing statement fails. -/
theorem loud_run
    (hspent : ¬ w.Spent k)
    (hpath : Path (Sys.step w) (fun s e _ => StillDispatching i s e) s es s')
    (hpc : (s.procs i).pc = .dispatch p snap st todo) (hst : st.Finalizing k)
    (hret : (s'.procs i).pc.returned = true)
    (hstands : SuccessStands (trace (Sys.step w) (dispatchActs w i) s es)) :
    Path (Sys.step w) (fun s e _ => ¬ FinalizerFails i s e) s es s' := by
  induction hpath generalizing snap st with
  | nil s =>
      exact .nil s
  | @cons s t s' e es hstep hgo hrest ih =>
      rw [trace_cons es hstep, successStands_append_iff] at hstands
      rcases dispatch_event_cases hstep hpc hgo with
        ⟨c, pending, snap', a, rfl, ha, hpc', -⟩ | ⟨hother, hpc', -⟩
      · obtain ⟨-, -, hnext⟩ := finalizing_step ha hst
        by_cases hfails : c.fails = true
        · obtain ⟨exc, rfl, hexc⟩ : ∃ exc, c = .raise exc ∧ a.stage = onDispatchExc w k exc :=
            hnext.resolve_left (fun h => by simp [hfails] at h)
          have hretry : a.stage.Retrying := by
            rw [hexc]
            exact onDispatchExc_of_not_spent hspent (by simpa [Choice.fails] using hfails)
          exact absurd hstands.2 (retried_run hrest hpc' hretry hret)
        · have hgoes : a.stage.Finalizing k := by
            rcases hnext with ⟨-, hgoes⟩ | ⟨exc, rfl, hexc⟩
            · exact hgoes
            · rw [hexc]
              exact onDispatchExc_of_disconnect (by simpa [Choice.fails] using hfails)
          exact .cons hstep (fun hbad => hfails hbad.2.2) (ih hpc' hgoes hret hstands.2)
      · exact .cons hstep (not_finalizerFails_of_other hother) (ih hpc' hst hret hstands.2)

/-- Without an attempt left, a success stands unless `fail_if_active` finds the pipeline
active. -/
theorem spent_run
    (hspent : w.Spent k)
    (hpath : Path (Sys.step w) (fun s e _ => StillDispatching i s e) s es s')
    (hpc : (s.procs i).pc = .dispatch p snap st todo) (hst : st.Spent k) :
    SuccessStands (trace (Sys.step w) (dispatchActs w i) s es) ↔
      Path (Sys.step w) (fun s e _ => ¬ FailsActive i p s e) s es s' := by
  induction hpath generalizing snap st with
  | nil s =>
      exact iff_of_true successStands_nil (.nil s)
  | @cons s t s' e es hstep hgo _ ih =>
      rw [trace_cons es hstep, successStands_append_iff, Path.cons_iff hstep]
      rcases dispatch_event_cases hstep hpc hgo with
        ⟨c, pending, snap', a, rfl, ha, hpc', hacts⟩ | ⟨hother, hpc', hacts⟩
      · obtain ⟨hnext, hstands⟩ := spent_step ha hspent hst
        rw [hacts, hstands, ih hpc' hnext]
        simp [FailsActive, hpc, Pc.strikes]
      · rw [hacts, ih hpc' hst]
        simp [successStands_nil, not_failsActive_of_other hother]

end Run

/--
**When a success stands.**  Let `execute` have returned in the `k`-th attempt.
While neither `get_status` nor `finish_running_to_idle` raises an error that is
no disconnect, or if no attempt is left and `fail_if_active` does not find the
pipeline active, it is neither executed again nor marked `FAILED` by the
dispatch.  A dispatch that returns does so only then.
-/
theorem success_stands_iff
    {w : World} {i : ι} {p : P} {k : ℕ} {exit : Exit} {s s' : Sys ι P}
    {es : List (Event ι P)} {snap : PipelineSnapshot} {todo : List (P × PipelineStatus)}
    (hdone : (s.procs i).pc = .dispatch p snap (.getStatus k exit) todo)
    (hpath : Path (Sys.step w) (fun s e _ => StillDispatching i s e) s es s') :
    (Path (Sys.step w) (fun s e _ => ¬ FinalizerFails i s e) s es s' ∨
        (w.Spent k ∧ Path (Sys.step w) (fun s e _ => ¬ FailsActive i p s e) s es s') →
      SuccessStands (trace (Sys.step w) (dispatchActs w i) s es)) ∧
    ((s'.procs i).pc.returned = true →
      SuccessStands (trace (Sys.step w) (dispatchActs w i) s es) →
        Path (Sys.step w) (fun s e _ => ¬ FinalizerFails i s e) s es s' ∨
          (w.Spent k ∧ Path (Sys.step w) (fun s e _ => ¬ FailsActive i p s e) s es s')) := by
  constructor
  · rintro (hquiet | ⟨hspent, hmissed⟩)
    · exact quiet_run hpath hdone rfl hquiet
    · exact (spent_run hspent hpath hdone rfl).mpr hmissed
  · intro hret hstands
    by_cases hspent : w.Spent k
    · exact Or.inr ⟨hspent, (spent_run hspent hpath hdone rfl).mp hstands⟩
    · exact Or.inl (loud_run hspent hpath hdone rfl hret hstands)

/-- The execution has returned, and its status is read next. -/
def Pc.succeeded : Pc P → Bool
  | .dispatch _ _ (.getStatus _ _) _ => true
  | _ => false

omit [DecidableEq P] in
theorem exists_of_succeeded
    {pc : Pc P} (h : pc.succeeded = true) :
    ∃ p snap k exit todo, pc = .dispatch p snap (.getStatus k exit) todo := by
  unfold Pc.succeeded at h
  split at h
  · exact ⟨_, _, _, _, _, rfl⟩
  · cases h

/-- A pause request while the status is being read: the dispatch leaves it alone. -/
theorem success_stands_under_pause_request :
    ∃ (s s' : Sys Unit Unit) (es : List (Event Unit Unit)), s'.db.status () = .PAUSE_REQUESTED ∧
      SuccessStands (trace (Sys.step World.plain) (dispatchActs World.plain ()) s es) := by
  set es : List (Event Unit Unit) := [.runner () .ok, .pause (), .runner () .ok] with hes
  have hrun : ∃ s : Sys Unit Unit,
      Reach (Sys.step World.plain) Sys.Resting (fun _ e => e.undisturbed) s ∧
      (s.procs ()).pc.succeeded = true ∧
      (exec (guarded (Sys.step World.plain)
        (fun s e => StillDispatching () s e ∧ ¬ FinalizerFails () s e)) s es).any (fun t =>
          decide (t.db.status () = .PAUSE_REQUESTED)) = true :=
    Reach.exists_of_replay
      (Sys.polling (Db.single (filmPipeline .full 2 .RUN_REQUESTED) [filmExample]))
      (List.replicate 15 (.runner () .ok)) (fun _ => ⟨trivial, rfl⟩) (by decide +kernel)
  obtain ⟨s, -, hdone, hany⟩ := hrun
  obtain ⟨s', hexec, hend⟩ := (Option.any_eq_true _ _).mp hany
  obtain ⟨⟨⟩, snap, k, exit, todo, hpc⟩ := exists_of_succeeded hdone
  have hpath := Path.of_exec_guarded hexec
  exact ⟨s, s', es, of_decide_eq_true hend,
    (success_stands_iff hpc (hpath.mono (fun _ _ _ h => h.1))).1
      (Or.inl (hpath.mono (fun _ _ _ h => h.2)))⟩

/-- No connection of the pool is free.  The session has sent nothing, so the next statement
may well succeed. -/
def poolTimeout : Exc :=
  { cls := .other, name := "TimeoutError", msg := "QueuePool limit of size 5 overflow 10 reached" }

/-- The status cannot be read after a success: the pipeline is executed once more. -/
theorem executed_again_after_success :
    ¬ ∀ (s s' : Sys Unit Unit) (es : List (Event Unit Unit)),
        Reach (Sys.step World.plain) Sys.Resting (fun _ e => e.undisturbed) s →
        (s.procs ()).pc.succeeded = true →
        Path (Sys.step World.plain) (fun s e _ => StillDispatching () s e) s es s' →
        SuccessStands (trace (Sys.step World.plain) (dispatchActs World.plain ()) s es) := by
  intro hall
  set es : List (Event Unit Unit) :=
    [.runner () (.raise poolTimeout), .runner () .ok, .runner () .ok] with hes
  have hrun : ∃ s : Sys Unit Unit,
      Reach (Sys.step World.plain) Sys.Resting (fun _ e => e.undisturbed) s ∧
      (s.procs ()).pc.succeeded = true ∧
      (exec (guarded (Sys.step World.plain) (StillDispatching ())) s es).isSome = true ∧
      .attempt (.call 2) ∈ trace (Sys.step World.plain) (dispatchActs World.plain ()) s es :=
    Reach.exists_of_replay
      (Sys.polling (Db.single (filmPipeline .full 2 .RUN_REQUESTED) [filmExample]))
      (List.replicate 15 (.runner () .ok)) (fun _ => ⟨trivial, rfl⟩) (by decide +kernel)
  obtain ⟨s, hreach, hdone, hsome, hcall⟩ := hrun
  obtain ⟨s', hexec⟩ := Option.isSome_iff_exists.mp hsome
  exact (hall s s' es hreach hdone (Path.of_exec_guarded hexec)).1 2 hcall

end Dispatch

end EtlPlatform
