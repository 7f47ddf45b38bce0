import EtlPlatform.Library.Retry
import EtlPlatform.Proofs.DispatchOutcome

/-!
# The retry law of a dispatch

`dispatch` calls `execute` in a loop of at most `max_attempts` turns and then
finalizes the status.  What it does is read off the steps of the process, as a
list of acts: a call of `execute`, how the call ended, a sleep, the status it
read, the last status it wrote.

From `execute_step`, `Stage.Remaining` tells for every await point what a
dispatch that stands there still has to do, and `dispatch_law` what it does in
all: a retry loop on the ends of the calls, then the finale that belongs to the
last of them.  Requests of the API may land between any two steps.
-/

namespace EtlPlatform

open Library

/-- What a dispatch does, as far as the retry loop and the status are concerned. -/
inductive DispatchAct where
  | attempt (act : RetryAct ExecuteEnd ℚ)
  /-- `get_status` -/
  | readStatus (status : PipelineStatus)
  /-- `finish_running_to_idle` or `fail_if_active`, with the status before and after it -/
  | finalWrite (before after : PipelineStatus)
deriving DecidableEq

/-- `backoff[min(i - 1, len - 1)]`, which is never out of range. -/
def delayAfter (backoff_seconds : List ℚ) (hne : backoff_seconds ≠ []) (attempt : ℕ) : ℚ :=
  backoff_seconds.get ⟨min (attempt - 1) (backoff_seconds.length - 1), by
    have hpos := List.length_pos_iff.mpr hne
    omega⟩

section Observed

variable {ι P : Type} [DecidableEq P]

/-- The acts of one step. -/
def Stage.acts (w : World) (db : Db P) (p : P) (snap : PipelineSnapshot)
    (st : Stage P) (c : Choice) (db' : Db P) : List DispatchAct :=
  let ended := (st.executeEnd w db p snap c).toList.map (fun res => .attempt (.ended res))
  match st with
  | .startRun k => .attempt (.call k) :: ended
  | .sleep _ delay => [.attempt (.wait delay)]
  | .getStatus _ _ => [.readStatus (db.status p)]
  | .finishIdle _ _ | .failIfActive _ => [.finalWrite (db.status p) (db'.status p)]
  | _ => ended

variable [DecidableEq ι]

/-- The acts of process `i` in one event. -/
def dispatchActs (w : World) (i : ι) (s : Sys ι P) (e : Event ι P) (s' : Sys ι P) :
    List DispatchAct :=
  match e, (s.procs i).pc with
  | .runner j c, .dispatch p snap st _ => if j = i then st.acts w s.db p snap c s'.db else []
  | _, _ => []

end Observed

/--
What follows the last call of `execute`: the status is finalized after a
success, and after a failure with no attempt left; a disconnect ends it all.
-/
inductive Finale : ExecuteEnd → List DispatchAct → Except Exc Unit → Prop
  | paused : Finale .returned [.readStatus .PAUSED] (.ok ())
  | finished {status : PipelineStatus} (before : PipelineStatus) :
      status ≠ .PAUSED →
      Finale .returned
        [.readStatus status, .finalWrite before (moveStatus [.RUNNING] .IDLE before)] (.ok ())
  | failed {exc : Exc} (before : PipelineStatus) :
      is_db_disconnect exc = false →
      Finale (.raised exc)
        [.finalWrite before (moveStatus [.RUNNING, .PAUSE_REQUESTED] .FAILED before)] (.error exc)
  | disconnected {exc : Exc} :
      is_db_disconnect exc = true → Finale (.raised exc) [] (.ok ())

/-- What the dispatch does from its `k`-th call of `execute` on. -/
def FromCall (w : World) (hbackoff : w.backoff_seconds ≠ []) (k : ℕ)
    (acts : List DispatchAct) (res : Except Exc Unit) : Prop :=
  ∃ ends last final, Retries ExecuteEnd.Failed w.max_attempts k ends ∧
    ends.getLast? = some last ∧
    acts = (retryScript ExecuteEnd.Failed w.max_attempts
      (delayAfter w.backoff_seconds hbackoff) k ends).map .attempt ++ final ∧
    Finale last final res

section Remaining

variable {P : Type} {w : World} {hbackoff : w.backoff_seconds ≠ []} {k : ℕ}

/-- The statements on the status after the last call of `execute`. -/
def Stage.onStatus : Stage P → Bool
  | .getStatus _ _ | .finishIdle _ _ | .failIfActive _ => true
  | _ => false

/-- What a dispatch that stands at a stage still has to do, once it has read the tasks. -/
def Stage.Remaining (w : World) (hbackoff : w.backoff_seconds ≠ [])
    (acts : List DispatchAct) (res : Except Exc Unit) : Stage P → Prop
  | .snapshot => True
  | .startRun k => FromCall w hbackoff k acts res
  | .runBody k _ | .loop k _ _ _ | .finishSuccess k _ _ _ =>
      FromCall w hbackoff k (.attempt (.call k) :: acts) res
  | .rollback k _ exc | .finishFailed k _ exc =>
      is_db_disconnect exc = false → FromCall w hbackoff k (.attempt (.call k) :: acts) res
  | .getStatus _ _ => Finale .returned acts res
  | .finishIdle _ _ =>
      ∃ before, acts = [.finalWrite before (moveStatus [.RUNNING] .IDLE before)] ∧ res = .ok ()
  | .sleep k delay =>
      ∃ rest, acts = .attempt (.wait delay) :: rest ∧ FromCall w hbackoff (k + 1) rest res
  | .failIfActive exc =>
      ∃ before, acts =
          [.finalWrite before (moveStatus [.RUNNING, .PAUSE_REQUESTED] .FAILED before)] ∧
        res = .error exc
  | .returning res' => acts = [] ∧ res = res'

/-- Inside a call, the rest of the call is left. -/
theorem fromCall_of_inExecute
    {st : Stage P} {acts : List DispatchAct} {res : Except Exc Unit} (hst : st.InExecute k)
    (h : st.Remaining w hbackoff acts res) :
    FromCall w hbackoff k (.attempt (.call k) :: acts) res := by
  cases st with
  | runBody j r =>
      obtain rfl : j = k := hst
      exact h
  | loop j r bl pc =>
      obtain rfl : j = k := hst
      exact h
  | finishSuccess j r exit v =>
      obtain rfl : j = k := hst
      exact h
  | rollback j r exc =>
      obtain ⟨rfl, hexc⟩ := hst
      exact h hexc
  | finishFailed j r exc =>
      obtain ⟨rfl, hexc⟩ := hst
      exact h hexc
  | _ =>
      exact hst.elim

/-- The call has ended, and nothing is tried again. -/
theorem fromCall_of_last
    {last : ExecuteEnd} {final : List DispatchAct} {res : Except Exc Unit}
    (hlast : ¬ (last.Failed ∧ k < w.max_attempts)) (hfinal : Finale last final res) :
    FromCall w hbackoff k
      (.attempt (.call k) :: .attempt (.ended last) :: final) res := by
  refine ⟨[last], last, final, ?_, rfl, ?_, hfinal⟩
  · by_cases hfailed : last.Failed
    · exact .spent hfailed (fun hlt => hlast ⟨hfailed, hlt⟩)
    · exact .last hfailed
  · simp [retryScript, hlast]

/-- The call has failed, and is tried again after the delay. -/
theorem fromCall_of_retried
    {exc : Exc} {rest : List DispatchAct} {res : Except Exc Unit}
    (hexc : is_db_disconnect exc = false) (hlt : k < w.max_attempts)
    (hrest : FromCall w hbackoff (k + 1) rest res) :
    FromCall w hbackoff k
      (.attempt (.call k) :: .attempt (.ended (.raised exc)) ::
        .attempt (.wait (delayAfter w.backoff_seconds hbackoff k)) :: rest) res := by
  obtain ⟨ends, last, final, hends, hlast, rfl, hfinal⟩ := hrest
  have hfailed : (ExecuteEnd.raised exc).Failed := hexc
  refine ⟨.raised exc :: ends, last, final, .retried hfailed hlt hends, ?_, ?_, hfinal⟩
  · simp [List.getLast?_cons, hlast]
  · simp [retryScript, hfailed, hlt]

theorem backoffDelay_eq (hbackoff : w.backoff_seconds ≠ []) (k : ℕ) :
    backoffDelay w.backoff_seconds k = .ok (delayAfter w.backoff_seconds hbackoff k) := by
  have hlt : min (k - 1) (w.backoff_seconds.length - 1) < w.backoff_seconds.length := by
    have := List.length_pos_iff.mpr hbackoff
    omega
  rw [backoffDelay, List.getElem?_eq_getElem hlt]
  rfl

/-- `except Exception` of the dispatcher, after a call that has raised. -/
theorem fromCall_of_exc
    {exc : Exc} {acts : List DispatchAct} {res : Except Exc Unit}
    (h : (onDispatchExc w k exc : Stage P).Remaining w hbackoff acts res) :
    FromCall w hbackoff k
      (.attempt (.call k) :: .attempt (.ended (.raised exc)) :: acts) res := by
  unfold onDispatchExc at h
  by_cases hdis : is_db_disconnect exc = true
  · rw [if_pos hdis] at h
    obtain ⟨rfl, rfl⟩ := h
    exact fromCall_of_last (fun hfailed => by simp [ExecuteEnd.Failed, hdis] at hfailed)
      (.disconnected hdis)
  · have hother : is_db_disconnect exc = false := by simpa using hdis
    rw [if_neg hdis] at h
    by_cases hlt : k < w.max_attempts
    · rw [if_pos hlt, backoffDelay_eq hbackoff] at h
      obtain ⟨rest, rfl, hrest⟩ := h
      exact fromCall_of_retried hother hlt hrest
    · rw [if_neg hlt] at h
      obtain ⟨before, rfl, rfl⟩ := h
      exact fromCall_of_last (fun hfailed => hlt hfailed.2) (.failed before hother)

/-- A step of `execute`, and what is left after it. -/
theorem fromCall_of_executeStep
    {ended : Option ExecuteEnd} {st' : Stage P} {acts : List DispatchAct}
    {res : Except Exc Unit} (hstep : ExecuteStep w k ended st')
    (h : st'.Remaining w hbackoff acts res) :
    FromCall w hbackoff k (.attempt (.call k) ::
      (ended.toList.map (fun res => DispatchAct.attempt (.ended res)) ++ acts)) res := by
  cases hstep with
  | goesOn hin =>
      exact fromCall_of_inExecute hin h
  | returned exit =>
      exact fromCall_of_last (fun hfailed => hfailed.1) h
  | raised exc =>
      exact fromCall_of_exc h

variable [DecidableEq P]
variable {db : Db P} {pending : List (Write P)} {p : P} {snap : PipelineSnapshot}

/-- A conditional update of the status, by the answer it gets. -/
theorem update_cases
    {c : Choice} {kept : Db P × List (Write P)} {allowed : List PipelineStatus}
    {new : PipelineStatus} {next : Stage P} {onExc : Exc → Stage P} {a : After P}
    (h : answerUpdate c kept p allowed (fun db p => db.updateStatus allowed new p) next onExc =
      some a) :
    (c = .ok ∧ a.stage = next ∧
        a.db.status p = moveStatus allowed new (kept.1.status p)) ∨
      (∃ exc, c = .raise exc ∧ a.stage = onExc exc ∧ a.db.status p = kept.1.status p) ∨
      (c = .lost ∧ a.stage = onExc connectionLost ∧
        a.db.status p = moveStatus allowed new (kept.1.status p)) := by
  unfold answerUpdate at h
  split_ifs at h with hmem
  · have hnew : ((kept.1.updateStatus allowed new p).commit kept.2).status p =
        moveStatus allowed new (kept.1.status p) := by
      simp [moveStatus, hmem, Db.status_updateStatus]
    rcases answer_cases h with ⟨rfl, rfl⟩ | ⟨exc, rfl, rfl⟩ | ⟨rfl, rfl⟩
    · exact Or.inl ⟨rfl, rfl, hnew⟩
    · exact Or.inr (Or.inl ⟨exc, rfl, rfl, rfl⟩)
    · exact Or.inr (Or.inr ⟨rfl, rfl, hnew⟩)
  · have hold : moveStatus allowed new (kept.1.status p) = kept.1.status p := by
      simp [moveStatus, hmem]
    rcases answer_cases h with ⟨rfl, rfl⟩ | ⟨exc, rfl, rfl⟩ | ⟨rfl, rfl⟩
    · exact Or.inl ⟨rfl, rfl, hold.symm⟩
    · exact Or.inr (Or.inl ⟨exc, rfl, rfl, rfl⟩)
    · exact Or.inr (Or.inr ⟨rfl, rfl, hold.symm⟩)

/-- A conditional update that succeeds. -/
theorem update_ok
    {kept : Db P × List (Write P)} {allowed : List PipelineStatus} {new : PipelineStatus}
    {next : Stage P} {onExc : Exc → Stage P} {a : After P}
    (h : answerUpdate .ok kept p allowed (fun db p => db.updateStatus allowed new p) next onExc =
      some a) :
    a.stage = next ∧ a.db.status p = moveStatus allowed new (kept.1.status p) := by
  rcases update_cases h with ⟨-, hok⟩ | ⟨exc, hc, -⟩ | ⟨hc, -⟩
  · exact hok
  · cases hc
  · cases hc

/-- **Step.**  What was left before a step is what the step does and what is left after it. -/
theorem remaining_of_step
    {st : Stage P} {c : Choice} {a : After P} {acts : List DispatchAct} {res : Except Exc Unit}
    (h : stageStep w (db, pending) p snap st c = some a)
    (hok : st.onStatus = true → c = .ok)
    (hrest : a.stage.Remaining w hbackoff acts res) :
    st.Remaining w hbackoff (st.acts w db p snap c a.db ++ acts) res := by
  cases st with
  | snapshot =>
      trivial
  | startRun k =>
      exact fromCall_of_executeStep (execute_step h (Or.inl rfl)) hrest
  | runBody k r =>
      exact fromCall_of_executeStep (execute_step h (Or.inr rfl)) hrest
  | loop k r bl pc =>
      exact fromCall_of_executeStep (execute_step h (Or.inr rfl)) hrest
  | finishSuccess k r exit v =>
      exact fromCall_of_executeStep (execute_step h (Or.inr rfl)) hrest
  | rollback k r exc =>
      exact fun hexc => fromCall_of_executeStep (execute_step h (Or.inr ⟨rfl, hexc⟩)) hrest
  | finishFailed k r exc =>
      exact fun hexc => fromCall_of_executeStep (execute_step h (Or.inr ⟨rfl, hexc⟩)) hrest
  | getStatus k exit =>
      obtain rfl := hok rfl
      obtain rfl := Option.some.inj h
      by_cases hpaused : db.status p = .PAUSED
      · simp only [hpaused, if_true] at hrest
        obtain ⟨rfl, rfl⟩ := hrest
        simpa [Stage.acts, Stage.Remaining, hpaused] using Finale.paused
      · simp only [hpaused, if_false] at hrest
        obtain ⟨before, rfl, rfl⟩ := hrest
        exact .finished before hpaused
  | finishIdle k exit =>
      obtain rfl := hok rfl
      obtain ⟨hstage, hstatus⟩ := update_ok h
      rw [hstage] at hrest
      obtain ⟨rfl, rfl⟩ := hrest
      exact ⟨db.status p, by simp [Stage.acts, hstatus], rfl⟩
  | failIfActive exc =>
      obtain rfl := hok rfl
      obtain ⟨hstage, hstatus⟩ := update_ok h
      rw [hstage] at hrest
      obtain ⟨rfl, rfl⟩ := hrest
      exact ⟨db.status p, by simp [Stage.acts, hstatus], rfl⟩
  | sleep k delay =>
      cases c with
      | ok =>
          obtain rfl := Option.some.inj h
          exact ⟨acts, rfl, hrest⟩
      | _ =>
          cases h
  | returning res' =>
      cases h

end Remaining

section Dispatch

variable {ι P : Type} [DecidableEq ι] [DecidableEq P]

/-- The dispatch of the process is over. -/
def Pc.returned : Pc P → Bool
  | .dispatch _ _ (.returning _) _ => true
  | _ => false

def Pc.onStatus : Pc P → Bool
  | .dispatch _ _ st _ => st.onStatus
  | _ => false

/-- The dispatch of process `i` is not over before the event, and does not die in it. -/
def StillDispatching (i : ι) (s : Sys ι P) : Event ι P → Prop
  | .kill j => j ≠ i
  | .runner j _ => j = i → (s.procs i).pc.returned = false
  | _ => True

/-- The statements of process `i` on the status after its last call succeed. -/
def StatusAnswered (i : ι) (s : Sys ι P) : Event ι P → Prop
  | .runner j c => j = i → (s.procs i).pc.onStatus = true → c = .ok
  | _ => True

instance (i : ι) (s : Sys ι P) : DecidablePred (StillDispatching i s)
  | .kill j => inferInstanceAs (Decidable (j ≠ i))
  | .runner j _ => inferInstanceAs (Decidable (j = i → (s.procs i).pc.returned = false))
  | .run _ | .pause _ | .patch _ _ | .source _ | .spawn _ => .isTrue trivial

instance (i : ι) (s : Sys ι P) : DecidablePred (StatusAnswered i s)
  | .runner j c =>
      inferInstanceAs (Decidable (j = i → (s.procs i).pc.onStatus = true → c = .ok))
  | .run _ | .pause _ | .patch _ _ | .source _ | .kill _ | .spawn _ => .isTrue trivial

/--
What a dispatch with at most `n` calls of `execute` owes, when the calls ended
in `ends`, its acts were `acts` and its result was `res`.
-/
structure DispatchLaw (n : ℕ) (backoff_seconds : List ℚ) (hne : backoff_seconds ≠ [])
    (ends : List ExecuteEnd) (acts : List DispatchAct) (res : Except Exc Unit) : Prop where
  /-- as many calls as the first end that is no failure is far, and at most `n` -/
  calls : ∀ tape : ℕ → ExecuteEnd, StartsWith tape ends →
    (∀ m, FirstStop ExecuteEnd.Failed tape m → ends.length = min n (m + 1)) ∧
      ((∀ m, (tape m).Failed) → ends.length = n)
  /-- the calls with the sleeps between them, then the finale of the last call -/
  script : ∃ last final, ends.getLast? = some last ∧ Finale last final res ∧
    acts = (retryScript ExecuteEnd.Failed n (delayAfter backoff_seconds hne) 1 ends).map
      .attempt ++ final
  /-- it raises exactly after `n` failures -/
  raises : (∃ exc, res = .error exc) ↔ ends.length = n ∧ ∀ e ∈ ends, e.Failed
  /-- a status that was requested or reached meanwhile is not overwritten -/
  keeps : ∀ before after, .finalWrite before after ∈ acts →
    (before = .PAUSED ∨ before = .RUN_REQUESTED ∨
      (before = .PAUSE_REQUESTED ∧ .returned ∈ ends)) → after = before

omit [DecidableEq ι] [DecidableEq P] in
theorem StillDispatching.ne_kill
    {i : ι} {s : Sys ι P} {e : Event ι P} (h : StillDispatching i s e) :
    e ≠ .kill i := by
  rintro rfl
  exact h rfl

/-- An event is a step of the dispatch, or no act of it. -/
theorem dispatch_event_cases
    {w : World} {s t : Sys ι P} {i : ι} {p : P} {snap : PipelineSnapshot} {st : Stage P}
    {todo : List (P × PipelineStatus)} {e : Event ι P}
    (h : s.step w e = some t) (hpc : (s.procs i).pc = .dispatch p snap st todo)
    (hgo : StillDispatching i s e) :
    (∃ c pending snap' a, e = .runner i c ∧
        stageStep w (s.db, pending) p snap st c = some a ∧
        (t.procs i).pc = .dispatch p snap' a.stage todo ∧
        dispatchActs w i s e t = st.acts w s.db p snap c a.db) ∨
      ((∀ c, e ≠ .runner i c) ∧ (t.procs i).pc = .dispatch p snap st todo ∧
        dispatchActs w i s e t = []) := by
  by_cases hown : ∃ c, e = .runner i c
  · obtain ⟨c, rfl⟩ := hown
    obtain ⟨db, pr, hproc, rfl⟩ := Sys.step_runner_iff.mp h
    have hgoing : (s.procs i).pc.returned = false := hgo rfl
    generalize hpr : s.procs i = proc at hproc hpc hgoing
    obtain ⟨pc, pending⟩ := proc
    simp only at hpc
    subst hpc
    rcases procStep_dispatch hproc with ⟨res, rfl, -, -⟩ | ⟨a, hst, rfl, rfl⟩
    · cases hgoing
    · exact Or.inl ⟨c, pending, nextSnapshot s.db p snap st c, a, rfl, hst, by simp,
        by simp [dispatchActs, hpr]⟩
  · have hother : ∀ c, e ≠ .runner i c := fun c he => hown ⟨c, he⟩
    refine Or.inr ⟨hother, ?_, ?_⟩
    · rw [procs_eq_of_other h hpc hgo.ne_kill hother, hpc]
    · cases e with
      | runner j c =>
          have hji : j ≠ i := by
            rintro rfl
            exact hother c rfl
          simp [dispatchActs, hpc, hji]
      | _ =>
          rfl

/-- **Run.**  A dispatch does, up to its return, what remained at the stage it started from. -/
theorem remaining_of_path
    {w : World} (hbackoff : w.backoff_seconds ≠ []) {i : ι} {p : P}
    {s s' : Sys ι P} {es : List (Event ι P)} {snap snap' : PipelineSnapshot} {st : Stage P}
    {todo todo' : List (P × PipelineStatus)} {res : Except Exc Unit}
    (hpath : Path (Sys.step w) (fun s e _ => StillDispatching i s e ∧ StatusAnswered i s e)
      s es s')
    (hpc : (s.procs i).pc = .dispatch p snap st todo)
    (hret : (s'.procs i).pc = .dispatch p snap' (.returning res) todo') :
    st.Remaining w hbackoff (trace (Sys.step w) (dispatchActs w i) s es) res := by
  induction hpath generalizing snap st with
  | nil s =>
      obtain ⟨rfl, rfl, rfl, rfl⟩ := by simpa using hpc.symm.trans hret
      exact ⟨rfl, rfl⟩
  | @cons s t s' e es hstep hgo _ ih =>
      rw [trace_cons es hstep]
      rcases dispatch_event_cases hstep hpc hgo.1 with
        ⟨c, pending, snap₁, a, rfl, ha, hpc', hacts⟩ | ⟨-, hpc', hacts⟩
      · rw [hacts]
        exact remaining_of_step ha (fun hon => hgo.2 rfl (by rw [hpc]; exact hon)) (ih hpc' hret)
      · rw [hacts, List.nil_append]
        exact ih hpc' hret

/-- The finale raises exactly after a failure. -/
theorem Finale.raises_iff
    {last : ExecuteEnd} {final : List DispatchAct} {res : Except Exc Unit}
    (h : Finale last final res) :
    (∃ exc, res = .error exc) ↔ last.Failed := by
  cases h with
  | failed before hexc =>
      simpa [ExecuteEnd.Failed] using hexc
  | disconnected hexc =>
      simp [ExecuteEnd.Failed, hexc]
  | _ =>
      simp [ExecuteEnd.Failed]

/-- What the finale writes over is what the dispatch itself has set, or a pause request
after a failure. -/
theorem Finale.keeps
    {last : ExecuteEnd} {final : List DispatchAct} {res : Except Exc Unit}
    {before after : PipelineStatus} (h : Finale last final res)
    (hmem : .finalWrite before after ∈ final)
    (hbefore : before = .PAUSED ∨ before = .RUN_REQUESTED ∨
      (before = .PAUSE_REQUESTED ∧ ¬ last.Failed)) :
    after = before := by
  cases h with
  | paused =>
      simp at hmem
  | finished status hstatus =>
      obtain ⟨rfl, rfl⟩ : before = status ∧ after = moveStatus [.RUNNING] .IDLE status := by
        simpa using hmem
      rcases hbefore with rfl | rfl | ⟨rfl, -⟩ <;> rfl
  | failed status hexc =>
      obtain ⟨rfl, rfl⟩ : before = status ∧
          after = moveStatus [.RUNNING, .PAUSE_REQUESTED] .FAILED status := by
        simpa using hmem
      rcases hbefore with rfl | rfl | ⟨-, hlast⟩
      · rfl
      · rfl
      · exact absurd hexc hlast
  | disconnected hexc =>
      simp at hmem

/-- From the first call on, a dispatch obeys the law. -/
theorem FromCall.law
    {w : World} {hbackoff : w.backoff_seconds ≠ []} {acts : List DispatchAct}
    {res : Except Exc Unit} (h : FromCall w hbackoff 1 acts res) (hmax : 1 ≤ w.max_attempts) :
    ∃ ends, DispatchLaw w.max_attempts w.backoff_seconds hbackoff ends acts res := by
  obtain ⟨ends, last, final, hends, hlast, hacts, hfinal⟩ := h
  have hfailed : last.Failed ↔ ∀ e ∈ ends, e.Failed := hends.again_getLast_iff hlast
  have hcount : (∀ e ∈ ends, e.Failed) → ends.length = w.max_attempts := fun hall => by
    simpa using hends.length_eq_of_again hmax hall
  refine ⟨ends, ?_, ⟨last, final, hlast, hfinal, hacts⟩, ?_, ?_⟩
  · intro tape htape
    refine ⟨fun m hm => by simpa using hends.length_eq_min hmax htape hm, fun hall => ?_⟩
    refine hcount (fun e he => ?_)
    obtain ⟨j, hj, rfl⟩ := List.getElem_of_mem he
    exact htape j hj ▸ hall j
  · rw [hfinal.raises_iff, hfailed]
    exact ⟨fun hall => ⟨hcount hall, hall⟩, fun hall => hall.2⟩
  · intro before after hmem hbefore
    have hin : .finalWrite before after ∈ final := by
      rw [hacts, List.mem_append] at hmem
      exact hmem.resolve_left (by simp)
    refine hfinal.keeps hin (hbefore.imp_right (Or.imp_right (And.imp_right ?_)))
    intro hreturned hall
    exact hfailed.mp hall _ hreturned

/--
**Retries and finalization.**  Let a dispatch have claimed its pipeline and read
the tasks, and let it run to its return while requests, other processes and
changes of the source land anywhere between its steps.  If its statements on the
status after the last call succeed, it obeys `DispatchLaw`.
-/
theorem dispatch_law
    {w : World} {i : ι} {p : P} (hmax : 1 ≤ w.max_attempts) (hbackoff : w.backoff_seconds ≠ [])
    {s s' : Sys ι P} {es : List (Event ι P)} {snap snap' : PipelineSnapshot}
    {todo todo' : List (P × PipelineStatus)} {res : Except Exc Unit}
    (hready : (s.procs i).pc = .dispatch p snap (.startRun 1) todo)
    (hpath : Path (Sys.step w) (fun s e _ => StillDispatching i s e ∧ StatusAnswered i s e)
      s es s')
    (hret : (s'.procs i).pc = .dispatch p snap' (.returning res) todo') :
    ∃ ends, DispatchLaw w.max_attempts w.backoff_seconds hbackoff ends
      (trace (Sys.step w) (dispatchActs w i) s es) res := by
  have hleft : FromCall w hbackoff 1 (trace (Sys.step w) (dispatchActs w i) s es) res :=
    remaining_of_path hbackoff hpath hready hret
  exact hleft.law hmax

/-- The first call of `execute` comes next. -/
def Pc.ready : Pc P → Bool
  | .dispatch _ _ (.startRun 1) _ => true
  | _ => false

omit [DecidableEq P] in
theorem exists_of_ready
    {pc : Pc P} (h : pc.ready = true) :
    ∃ p snap todo, pc = .dispatch p snap (.startRun 1) todo := by
  unfold Pc.ready at h
  split at h
  · exact ⟨_, _, _, rfl⟩
  · cases h

omit [DecidableEq P] in
theorem exists_of_returned
    {pc : Pc P} (h : pc.returned = true) :
    ∃ p snap res todo, pc = .dispatch p snap (.returning res) todo := by
  unfold Pc.returned at h
  split at h
  · exact ⟨_, _, _, _, rfl⟩
  · cases h

/-- Three attempts that time out, a pause request before the last sleep. -/
theorem dispatch_law_three_timeouts :
    ∃ (s s' : Sys Unit Unit) (es : List (Event Unit Unit)) (res : Except Exc Unit),
      s'.db.status () = .FAILED ∧
        ∃ ends, DispatchLaw 3 [1, 2, 4] (by decide) ends
          (trace (Sys.step World.plain) (dispatchActs World.plain ()) s es) res := by
  set es : List (Event Unit Unit) := timedOutAttempt ++ [.runner () .ok] ++ timedOutAttempt ++
    [.pause (), .runner () .ok] ++ timedOutAttempt ++ [.runner () .ok] with hes
  have hrun : ∃ s : Sys Unit Unit,
      Reach (Sys.step World.plain) Sys.Resting (fun _ e => e.undisturbed) s ∧
      (s.procs ()).pc.ready = true ∧
      (exec (guarded (Sys.step World.plain)
        (fun s e => StillDispatching () s e ∧ StatusAnswered () s e)) s es).any (fun t =>
          decide ((t.procs ()).pc.returned = true ∧ t.db.status () = .FAILED)) = true :=
    Reach.exists_of_replay
      (Sys.polling (Db.single (filmPipeline .full 2 .RUN_REQUESTED) [filmExample]))
      (List.replicate 3 (.runner () .ok)) (fun _ => ⟨trivial, rfl⟩) (by decide +kernel)
  obtain ⟨s, -, hready, hany⟩ := hrun
  obtain ⟨s', hexec, hend⟩ := (Option.any_eq_true _ _).mp hany
  obtain ⟨hreturned, hfailed⟩ := of_decide_eq_true hend
  obtain ⟨⟨⟩, snap, todo, hpc⟩ := exists_of_ready hready
  obtain ⟨⟨⟩, snap', res, todo', hpc'⟩ := exists_of_returned hreturned
  exact ⟨s, s', es, res, hfailed, dispatch_law (by decide) (by decide) hpc
    (Path.of_exec_guarded hexec) hpc'⟩

end Dispatch

end EtlPlatform
