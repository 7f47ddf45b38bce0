import EtlPlatform.Model.Deployment
import EtlPlatform.Proofs.ExecuteSteps
import EtlPlatform.Proofs.StatusView

/-!
# How a claimed dispatch ends

From the claim to the return, `dispatch` owes the pipeline a final status.  Two
kinds of exception make it forget the debt.  One is raised while the tasks are
read, before the `try` begins.  The other is any exception `is_db_disconnect`
takes for a lost database: the dispatch returns at once and leaves the pipeline
to a recovery that runs at the next start of the process only.

`dispatch_leaves_running_iff` says that these are the only ways to stay
`RUNNING`, and what happens otherwise.
-/

namespace EtlPlatform

open Library

section Outcome

variable {P : Type}

/-- The step raises while the tasks are read, or raises what `is_db_disconnect` takes for
a lost database. -/
def Stage.Abandons [DecidableEq P] (w : World) (db : Db P) (p : P) (snap : PipelineSnapshot)
    (st : Stage P) (c : Choice) : Prop :=
  ∃ exc, st.raised w db p snap c = some exc ∧
    (is_db_disconnect exc = true ∨ st.activity = .claimed)

/-- `1` where an attempt begins. -/
def Stage.starts : Stage P → ℕ
  | .startRun _ => 1
  | _ => 0

/-- Attempts begun so far. -/
def Stage.begun (w : World) : Stage P → ℕ
  | .snapshot => 0
  | .startRun k => k - 1
  | .runBody k _ | .loop k _ _ _ | .finishSuccess k _ _ _ | .getStatus k _ | .finishIdle k _
  | .rollback k _ _ | .finishFailed k _ _ | .sleep k _ => k
  | .failIfActive _ | .returning _ => w.max_attempts

/-- The attempt is numbered, and what is being handled is no disconnect. -/
def Stage.Sound (w : World) : Stage P → Prop
  | .snapshot | .failIfActive _ => True
  | .startRun k | .runBody k _ | .loop k _ _ _ | .finishSuccess k _ _ _ | .getStatus k _
  | .finishIdle k _ => 1 ≤ k ∧ k ≤ w.max_attempts
  | .sleep k _ => 1 ≤ k ∧ k < w.max_attempts
  | .rollback k _ exc | .finishFailed k _ exc =>
      (1 ≤ k ∧ k ≤ w.max_attempts) ∧ is_db_disconnect exc = false
  | .returning _ => False

/-- How a step of a dispatch can end, when the status was `RUNNING` before it. -/
inductive Outcome (w : World) (st : Stage P) (abandons : Prop) :
    PipelineStatus → Stage P → Prop
  | abandoned (res : Except Exc Unit) :
      abandons → Outcome w st abandons .RUNNING (.returning res)
  | goesOn (st' : Stage P) :
      ¬ abandons → st'.Sound w → st'.begun w = st.begun w + st.starts →
      Outcome w st abandons .RUNNING st'
  | finished :
      ¬ abandons → Outcome w st abandons .IDLE (.returning (.ok ()))
  | failed (exc : Exc) :
      ¬ abandons → st.begun w = w.max_attempts → st.starts = 0 →
      Outcome w st abandons .FAILED (.returning (.error exc))

theorem backoffDelay_ok
    {backoff_seconds : List ℚ} (hne : backoff_seconds ≠ []) (k : ℕ) :
    ∃ delay, backoffDelay backoff_seconds k = .ok delay := by
  have hlt : min (k - 1) (backoff_seconds.length - 1) < backoff_seconds.length := by
    have := List.length_pos_iff.mpr hne
    omega
  exact ⟨_, by rw [backoffDelay, List.getElem?_eq_getElem hlt]⟩

/-- An error that is no disconnect leads to the next attempt, or to `fail_if_active`. -/
theorem onDispatchExc_sound
    {w : World} (hbackoff : w.backoff_seconds ≠ []) {k : ℕ} {exc : Exc}
    (hk : 1 ≤ k ∧ k ≤ w.max_attempts) (hexc : is_db_disconnect exc = false) :
    (onDispatchExc w k exc : Stage P).Sound w ∧
      (onDispatchExc w k exc : Stage P).begun w = k := by
  unfold onDispatchExc
  rw [if_neg (by simp [hexc])]
  by_cases hlt : k < w.max_attempts
  · obtain ⟨delay, hdelay⟩ := backoffDelay_ok hbackoff k
    simp only [if_pos hlt, hdelay]
    exact ⟨⟨hk.1, hlt⟩, rfl⟩
  · rw [if_neg hlt]
    exact ⟨trivial, by simp only [Stage.begun]; omega⟩

theorem onDispatchExc_disconnect
    {w : World} {k : ℕ} {exc : Exc} (hexc : is_db_disconnect exc = true) :
    (onDispatchExc w k exc : Stage P) = .returning (.ok ()) := by
  simp [onDispatchExc, hexc]

variable [DecidableEq P]

section Handlers

variable {w : World} {db : Db P} {p : P} {snap : PipelineSnapshot} {st : Stage P} {c : Choice}

/-- An exception outside the snapshot abandons the pipeline exactly when it looks like a
disconnect. -/
theorem abandons_iff
    {exc : Exc} (hraised : st.raised w db p snap c = some exc) (hact : st.activity ≠ .claimed) :
    st.Abandons w db p snap c ↔ is_db_disconnect exc = true := by
  simp [Stage.Abandons, hraised, hact]

theorem not_abandons
    (hraised : st.raised w db p snap c = none) :
    ¬ st.Abandons w db p snap c := by
  simp [Stage.Abandons, hraised]

/-- A statement that succeeds inside the dispatch. -/
theorem outcome_of_next
    {next : Stage P} (hraised : st.raised w db p snap c = none)
    (hsound : next.Sound w) (hbegun : next.begun w = st.begun w + st.starts) :
    Outcome w st (st.Abandons w db p snap c) .RUNNING next :=
  .goesOn next (not_abandons hraised) hsound hbegun

/-- An exception the dispatcher handles. -/
theorem outcome_of_dispatch_exc
    {exc : Exc} {k : ℕ} (hbackoff : w.backoff_seconds ≠ [])
    (hraised : st.raised w db p snap c = some exc)
    (hact : st.activity ≠ .claimed) (hk : 1 ≤ k ∧ k ≤ w.max_attempts)
    (hbegun : st.begun w + st.starts = k) :
    Outcome w st (st.Abandons w db p snap c) .RUNNING (onDispatchExc w k exc) := by
  by_cases hdis : is_db_disconnect exc = true
  · rw [onDispatchExc_disconnect hdis]
    exact .abandoned _ ((abandons_iff hraised hact).mpr hdis)
  · have hother : is_db_disconnect exc = false := by simpa using hdis
    obtain ⟨hsound, hcount⟩ := onDispatchExc_sound (P := P) hbackoff hk hother
    exact .goesOn _ (fun h => hdis ((abandons_iff hraised hact).mp h)) hsound
      (hcount.trans hbegun.symm)

end Handlers

section Execute

variable {w : World} {db : Db P} {p : P} {snap : PipelineSnapshot} {st : Stage P} {c : Choice}
variable {k : ℕ}

/-- A call of `execute` abandons the pipeline by ending in a disconnect. -/
theorem abandons_iff_executeEnd
    (hst : st = .startRun k ∨ st.InExecute k) :
    st.Abandons w db p snap c ↔
      ∃ exc, st.executeEnd w db p snap c = some (.raised exc) ∧ is_db_disconnect exc = true := by
  cases hraised : st.raised w db p snap c with
  | none =>
      refine iff_of_false (not_abandons hraised) ?_
      rintro ⟨exc, hend, hdis⟩
      rw [executeEnd_of_quiet hst hraised hend] at hdis
      cases hdis
  | some exc =>
      rw [abandons_iff hraised (activity_of_execute hst).1]
      rcases executeEnd_of_raised hst hraised with hend | ⟨hend, hother⟩ <;> rw [hend]
      · simp
      · simp [hother]

omit [DecidableEq P] in
theorem sound_of_inExecute
    (hst : st.InExecute k) (hk : 1 ≤ k ∧ k ≤ w.max_attempts) :
    st.Sound w ∧ st.begun w = k := by
  cases st with
  | runBody j r =>
      obtain rfl : j = k := hst
      exact ⟨hk, rfl⟩
  | loop j r bl pc =>
      obtain rfl : j = k := hst
      exact ⟨hk, rfl⟩
  | finishSuccess j r exit v =>
      obtain rfl : j = k := hst
      exact ⟨hk, rfl⟩
  | rollback j r exc =>
      obtain ⟨rfl, hexc⟩ := hst
      exact ⟨⟨hk, hexc⟩, rfl⟩
  | finishFailed j r exc =>
      obtain ⟨rfl, hexc⟩ := hst
      exact ⟨⟨hk, hexc⟩, rfl⟩
  | _ =>
      exact hst.elim

/-- A step of `execute` as a step of the dispatch. -/
theorem outcome_of_execute
    {pending : List (Write P)} {a : After P}
    (h : stageStep w (db, pending) p snap st c = some a) (hbackoff : w.backoff_seconds ≠ [])
    (hst : st = .startRun k ∨ st.InExecute k) (hk : 1 ≤ k ∧ k ≤ w.max_attempts)
    (hbegun : st.begun w + st.starts = k) (hs : db.status p = .RUNNING) :
    Outcome w st (st.Abandons w db p snap c) (a.db.status p) a.stage := by
  rw [running_of_execute h hst hs, propext (abandons_iff_executeEnd hst)]
  have hstep := execute_step h hst
  generalize st.executeEnd w db p snap c = ended at hstep
  generalize a.stage = next at hstep
  cases hstep with
  | goesOn hin =>
      obtain ⟨hsound, hcount⟩ := sound_of_inExecute hin hk
      exact .goesOn _ (by simp) hsound (hcount.trans hbegun.symm)
  | returned exit =>
      exact .goesOn _ (by simp) hk hbegun.symm
  | raised exc =>
      by_cases hdis : is_db_disconnect exc = true
      · rw [onDispatchExc_disconnect hdis]
        exact .abandoned _ ⟨exc, rfl, hdis⟩
      · have hother : is_db_disconnect exc = false := by simpa using hdis
        obtain ⟨hsound, hcount⟩ := onDispatchExc_sound (P := P) hbackoff hk hother
        refine .goesOn _ ?_ hsound (hcount.trans hbegun.symm)
        rintro ⟨exc', hend, hdis'⟩
        obtain rfl := ExecuteEnd.raised.inj (Option.some.inj hend)
        exact hdis hdis'

end Execute

/-- A statement of the dispatcher, up to a lost connection. -/
theorem outcome_of_answer_dispatch
    {w : World} {db done : Db P} {pending pending' : List (Write P)} {p : P}
    {snap : PipelineSnapshot} {k : ℕ} {st : Stage P} {c : Choice}
    {next : Stage P} {a : After P}
    (h : answer c (db, pending) (done, pending') next (onDispatchExc w k) = some a)
    (hbackoff : w.backoff_seconds ≠ []) (hact : st.activity ≠ .claimed)
    (hk : 1 ≤ k ∧ k ≤ w.max_attempts) (hbegun : st.begun w + st.starts = k)
    (hc : c ≠ .lost) (hs : db.status p = .RUNNING)
    (hnext : c = .ok → Outcome w st (st.Abandons w db p snap c) (done.status p) next) :
    Outcome w st (st.Abandons w db p snap c) (a.db.status p) a.stage := by
  rcases answer_cases h with ⟨rfl, rfl⟩ | ⟨exc, rfl, rfl⟩ | ⟨rfl, rfl⟩
  · exact hnext rfl
  · rw [hs]
    exact outcome_of_dispatch_exc hbackoff rfl hact hk hbegun
  · exact absurd rfl hc

/-- **The outcome of a step of a dispatch whose pipeline is `RUNNING`.** -/
theorem stageStep_outcome
    {w : World} {db : Db P} {pending : List (Write P)} {p : P} {snap : PipelineSnapshot}
    {st : Stage P} {c : Choice} {a : After P}
    (h : stageStep w (db, pending) p snap st c = some a)
    (hmax : 1 ≤ w.max_attempts) (hbackoff : w.backoff_seconds ≠ [])
    (hsound : st.Sound w) (hc : c ≠ .lost) (hfail : st.activity = .failing → c = .ok)
    (hs : db.status p = .RUNNING) :
    Outcome w st (st.Abandons w db p snap c) (a.db.status p) a.stage := by
  cases st with
  | snapshot =>
      rcases answer_cases h with ⟨rfl, rfl⟩ | ⟨exc, rfl, rfl⟩ | ⟨rfl, rfl⟩
      · rw [hs]
        refine outcome_of_next rfl ?_ ?_
        · rw [if_pos hmax]
          exact ⟨le_refl 1, hmax⟩
        · rw [if_pos hmax]
          rfl
      · rw [hs]
        exact .abandoned _ ⟨exc, rfl, Or.inr rfl⟩
      · exact absurd rfl hc
  | startRun k =>
      have hbegun :
          (Stage.startRun k : Stage P).begun w + (Stage.startRun k : Stage P).starts = k := by
        simp only [Stage.begun, Stage.starts]
        have := hsound.1
        omega
      exact outcome_of_execute h hbackoff (Or.inl rfl) hsound hbegun hs
  | runBody k r =>
      exact outcome_of_execute h hbackoff (Or.inr rfl) hsound rfl hs
  | loop k r bl pc =>
      exact outcome_of_execute h hbackoff (Or.inr rfl) hsound rfl hs
  | finishSuccess k r exit v =>
      exact outcome_of_execute h hbackoff (Or.inr rfl) hsound rfl hs
  | rollback k r exc =>
      exact outcome_of_execute h hbackoff (Or.inr ⟨rfl, hsound.2⟩) hsound.1 rfl hs
  | finishFailed k r exc =>
      exact outcome_of_execute h hbackoff (Or.inr ⟨rfl, hsound.2⟩) hsound.1 rfl hs
  | getStatus k exit =>
      refine outcome_of_answer_dispatch h hbackoff (by simp [Stage.activity]) hsound rfl hc hs ?_
      rintro rfl
      rw [hs]
      refine outcome_of_next rfl ?_ ?_
      · rw [if_neg (by simp)]
        exact hsound
      · rw [if_neg (by simp)]
        rfl
  | finishIdle k exit =>
      have hmem : db.status p ∈ [PipelineStatus.RUNNING] := by simp [hs]
      simp only [stageStep, answerUpdate, if_pos hmem] at h
      refine outcome_of_answer_dispatch h hbackoff (by simp [Stage.activity]) hsound rfl hc hs ?_
      rintro rfl
      have hidle : ((db.finish_running_to_idle p).commit pending).status p = .IDLE := by
        simp [Db.finish_running_to_idle, Db.status_updateStatus, hs]
      rw [hidle]
      exact .finished (not_abandons rfl)
  | sleep k delay =>
      cases c with
      | ok =>
          obtain rfl := Option.some.inj h
          rw [hs]
          exact outcome_of_next rfl ⟨Nat.le_add_left 1 k, hsound.2⟩ rfl
      | _ =>
          cases h
  | failIfActive exc =>
      obtain rfl := hfail rfl
      have hmem : db.status p ∈ [PipelineStatus.RUNNING, .PAUSE_REQUESTED] := by simp [hs]
      simp only [stageStep, answerUpdate, if_pos hmem, answerCommit, answer,
        Option.some.injEq] at h
      subst h
      have hfailed : ((db.fail_if_active p).commit pending).status p = .FAILED := by
        simp [Db.fail_if_active, Db.status_updateStatus, hs]
      rw [hfailed]
      exact .failed exc (not_abandons rfl) rfl rfl
  | returning res =>
      cases h

end Outcome

section Dispatch

variable {ι P : Type} [DecidableEq ι] [DecidableEq P]

/-- The event neither kills process `i` nor loses its connection nor makes its
`fail_if_active` raise. -/
def Undisrupted (i : ι) (p : P) (s : Sys ι P) : Event ι P → Prop
  | .kill j => j ≠ i
  | .runner j c => j = i → c ≠ .lost ∧
      ((s.procs i).pc.position p = .dispatching .failing → c = .ok)
  | _ => True

instance (i : ι) (p : P) (s : Sys ι P) : DecidablePred (Undisrupted i p s)
  | .kill j => inferInstanceAs (Decidable (j ≠ i))
  | .runner j c => inferInstanceAs (Decidable (j = i → c ≠ .lost ∧
      ((s.procs i).pc.position p = .dispatching .failing → c = .ok)))
  | .run _ | .pause _ | .patch _ _ | .source _ | .spawn _ => .isTrue trivial

/-- The dispatch of `p` by process `i` has not ended, and the event lets it go on. -/
def DispatchGoesOn (i : ι) (p : P) (s : Sys ι P) (e : Event ι P) : Prop :=
  (s.procs i).pc.position p ≠ .dispatching .leaving ∧ Undisrupted i p s e

instance (i : ι) (p : P) (s : Sys ι P) : DecidablePred (DispatchGoesOn i p s) :=
  fun _ => inferInstanceAs (Decidable (_ ∧ _))

omit [DecidableEq ι] in
theorem DispatchGoesOn.ne_kill
    {i : ι} {p : P} {s : Sys ι P} {e : Event ι P} (h : DispatchGoesOn i p s e) :
    e ≠ .kill i := by
  rintro rfl
  exact h.2 rfl

/-- The event is a step of the dispatch that abandons the pipeline. -/
def AbandonsAt (w : World) (i : ι) (p : P) (s : Sys ι P) (e : Event ι P) : Prop :=
  ∃ c snap st todo, e = .runner i c ∧ (s.procs i).pc = .dispatch p snap st todo ∧
    st.Abandons w s.db p snap c

/-- A request of the API, or another process, takes the pipeline out of `RUNNING`. -/
def TakenAway (i : ι) (p : P) (s : Sys ι P) (e : Event ι P) (s' : Sys ι P) : Prop :=
  (∀ c, e ≠ .runner i c) ∧ s.db.status p = .RUNNING ∧ s'.db.status p ≠ .RUNNING

/-- `1` if the event begins an attempt of the dispatch. -/
def attemptsBegun (i : ι) (s : Sys ι P) : Event ι P → ℕ
  | .runner j _ =>
      match (s.procs i).pc with
      | .dispatch _ _ st _ => if j = i then st.starts else 0
      | _ => 0
  | _ => 0

/-- Events that are no step of a live process, nor its death, leave it where it is. -/
theorem procs_eq_of_other
    {w : World} {s s' : Sys ι P} {e : Event ι P} {i : ι} {p : P} {snap : PipelineSnapshot}
    {st : Stage P} {todo : List (P × PipelineStatus)}
    (h : s.step w e = some s')
    (hpc : (s.procs i).pc = .dispatch p snap st todo)
    (hkill : e ≠ .kill i) (hown : ∀ c, e ≠ .runner i c) :
    s'.procs i = s.procs i := by
  cases e with
  | kill j =>
      obtain rfl := Option.some.inj h
      have hji : i ≠ j := by
        rintro rfl
        exact hkill rfl
      simp [Sys.setProc, hji]
  | spawn j =>
      obtain ⟨hdown, rfl⟩ := Sys.step_spawn_iff.mp h
      by_cases hji : i = j
      · subst hji
        rw [hpc] at hdown
        cases hdown
      · simp [Sys.setProc, hji]
  | runner j c =>
      obtain ⟨db, pr, -, rfl⟩ := Sys.step_runner_iff.mp h
      have hji : i ≠ j := by
        rintro rfl
        exact hown c rfl
      simp [hji]
  | _ =>
      obtain rfl := Option.some.inj h
      rfl

/-- The outcome of the process's own step. -/
theorem own_outcome
    {w : World} {s s' : Sys ι P} {i : ι} {p : P} {snap : PipelineSnapshot} {st : Stage P}
    {todo : List (P × PipelineStatus)} {c : Choice}
    (hmax : 1 ≤ w.max_attempts) (hbackoff : w.backoff_seconds ≠ [])
    (h : s.step w (.runner i c) = some s')
    (hpc : (s.procs i).pc = .dispatch p snap st todo) (hsound : st.Sound w)
    (hs : s.db.status p = .RUNNING) (hgo : DispatchGoesOn i p s (.runner i c)) :
    ∃ snap' st', (s'.procs i).pc = .dispatch p snap' st' todo ∧
      Outcome w st (AbandonsAt w i p s (.runner i c)) (s'.db.status p) st' := by
  obtain ⟨db, pr, hproc, rfl⟩ := Sys.step_runner_iff.mp h
  obtain ⟨hc, hfail⟩ := hgo.2 rfl
  generalize hpr : s.procs i = proc at hproc hpc hfail
  obtain ⟨pc, pending⟩ := proc
  simp only at hpc
  subst hpc
  rcases procStep_dispatch hproc with ⟨res, rfl, -, -⟩ | ⟨a, hst, rfl, rfl⟩
  · exact hsound.elim
  · have hout := stageStep_outcome hst hmax hbackoff hsound hc (fun hact => hfail (by
      simp [Pc.position, hact])) hs
    have habandon : AbandonsAt w i p s (.runner i c) ↔ st.Abandons w s.db p snap c := by
      constructor
      · rintro ⟨c', snap', st', todo', he, hpc', hab⟩
        rw [hpr] at hpc'
        cases he
        cases hpc'
        exact hab
      · intro hab
        exact ⟨c, snap, st, todo, rfl, by rw [hpr], hab⟩
    refine ⟨nextSnapshot s.db p snap st c, a.stage, by simp, ?_⟩
    rw [propext habandon]
    exact hout

/-- Nothing follows the end of a dispatch. -/
theorem eq_of_returning
    {w : World} {s s' : Sys ι P} {i : ι} {p : P} {snap : PipelineSnapshot}
    {res : Except Exc Unit} {todo : List (P × PipelineStatus)} {es : List (Event ι P)}
    (hpc : (s.procs i).pc = .dispatch p snap (.returning res) todo)
    (hpath : Path (Sys.step w) (fun s e _ => DispatchGoesOn i p s e) s es s') :
    es = [] ∧ s' = s := by
  cases hpath with
  | nil _ =>
      exact ⟨rfl, rfl⟩
  | cons _ hgo _ =>
      exact absurd (by simp [hpc, Pc.position, Stage.activity]) hgo.1

omit [DecidableEq ι] in
/-- A sound stage is not the last one. -/
theorem not_leaving_of_sound
    {w : World} {s : Sys ι P} {i : ι} {p : P} {snap : PipelineSnapshot} {st : Stage P}
    {todo : List (P × PipelineStatus)}
    (hpc : (s.procs i).pc = .dispatch p snap st todo) (hsound : st.Sound w) :
    (s.procs i).pc.position p ≠ .dispatching .leaving := by
  rw [hpc]
  cases st with
  | returning res =>
      exact hsound.elim
  | loop k r bl pc =>
      cases pc <;> simp [Pc.position, Stage.activity, LoopPc.activity]
  | _ =>
      simp [Pc.position, Stage.activity]

section Run

variable {w : World} {i : ι} {p : P}

/-- From a stage of a dispatch whose pipeline is `RUNNING`, to its end. -/
theorem stuck_iff_from
    (hmax : 1 ≤ w.max_attempts) (hbackoff : w.backoff_seconds ≠ [])
    {s s' : Sys ι P} {es : List (Event ι P)}
    (hpath : Path (Sys.step w) (fun s e _ => DispatchGoesOn i p s e) s es s')
    (hret : (s'.procs i).pc.position p = .dispatching .leaving)
    {snap : PipelineSnapshot} {st : Stage P} {todo : List (P × PipelineStatus)}
    (hpc : (s.procs i).pc = .dispatch p snap st todo) (hsound : st.Sound w)
    (hs : s.db.status p = .RUNNING) :
    Path (Sys.step w) (fun _ _ s' => s'.db.status p = .RUNNING) s es s' ↔
      ¬ Path (Sys.step w) (fun s e _ => ¬ AbandonsAt w i p s e) s es s' ∧
        Path (Sys.step w) (fun s e s' => ¬ TakenAway i p s e s') s es s' := by
  induction hpath generalizing snap st with
  | nil s =>
      exact absurd hret (not_leaving_of_sound hpc hsound)
  | @cons s t s' e es hstep hgo hrest ih =>
      rw [Path.cons_iff hstep, Path.cons_iff hstep, Path.cons_iff hstep]
      by_cases hown : ∃ c, e = .runner i c
      · -- the dispatch itself moves
        obtain ⟨c, rfl⟩ := hown
        have htaken : ¬ TakenAway i p s (.runner i c) t := fun h => h.1 c rfl
        obtain ⟨snap', st', hpc', hout⟩ := own_outcome hmax hbackoff hstep hpc hsound hs hgo
        generalize hst : t.db.status p = status at hout
        cases hout with
        | abandoned res hab =>
            obtain ⟨rfl, rfl⟩ := eq_of_returning hpc' hrest
            simp [hab, htaken, Path.nil]
        | goesOn st' hnot hsound' _ =>
            rw [ih hret hpc' hsound' hst]
            simp [hnot, htaken]
        | finished hnot =>
            obtain ⟨rfl, rfl⟩ := eq_of_returning hpc' hrest
            simp [hnot, Path.nil]
        | failed exc hnot _ _ =>
            obtain ⟨rfl, rfl⟩ := eq_of_returning hpc' hrest
            simp [hnot, Path.nil]
      · -- somebody else moves
        have hother : ∀ c, e ≠ .runner i c := fun c he => hown ⟨c, he⟩
        have hnot : ¬ AbandonsAt w i p s e := fun ⟨c, _, _, _, he, _, _⟩ => hother c he
        by_cases hst : t.db.status p = .RUNNING
        · have htaken : ¬ TakenAway i p s e t := fun h => h.2.2 hst
          have hpc' : (t.procs i).pc = .dispatch p snap st todo := by
            rw [procs_eq_of_other hstep hpc hgo.ne_kill hother, hpc]
          rw [ih hret hpc' hsound hst]
          simp [hst, hnot, htaken]
        · have htaken : TakenAway i p s e t := ⟨hother, hs, hst⟩
          simp [hst, htaken]

/-- How an undisturbed dispatch that abandons nothing ends. -/
theorem ends_from
    (hmax : 1 ≤ w.max_attempts) (hbackoff : w.backoff_seconds ≠ [])
    {s s' : Sys ι P} {es : List (Event ι P)}
    (hpath : Path (Sys.step w) (fun s e _ => DispatchGoesOn i p s e) s es s')
    (hret : (s'.procs i).pc.position p = .dispatching .leaving)
    (hkeep : Path (Sys.step w) (fun s e _ => ¬ AbandonsAt w i p s e) s es s')
    (halone : Path (Sys.step w) (fun s e s' => ¬ TakenAway i p s e s') s es s')
    {snap : PipelineSnapshot} {st : Stage P} {todo : List (P × PipelineStatus)}
    (hpc : (s.procs i).pc = .dispatch p snap st todo) (hsound : st.Sound w)
    (hs : s.db.status p = .RUNNING) :
    s'.db.status p = .IDLE ∨
      (s'.db.status p = .FAILED ∧
        st.begun w + cost (Sys.step w) (attemptsBegun i) s es = w.max_attempts) := by
  induction hpath generalizing snap st with
  | nil s =>
      exact absurd hret (not_leaving_of_sound hpc hsound)
  | @cons s t s' e es hstep hgo hrest ih =>
      obtain ⟨hnot, hkeeps⟩ := (Path.cons_iff hstep).mp hkeep
      obtain ⟨hmine, halones⟩ := (Path.cons_iff hstep).mp halone
      have hcost : cost (Sys.step w) (attemptsBegun i) s (e :: es) =
          attemptsBegun i s e + cost (Sys.step w) (attemptsBegun i) t es := by
        simp [cost, hstep]
      rw [hcost]
      by_cases hown : ∃ c, e = .runner i c
      · obtain ⟨c, rfl⟩ := hown
        have hstarts : attemptsBegun i s (.runner i c) = st.starts := by
          simp [attemptsBegun, hpc]
        obtain ⟨snap', st', hpc', hout⟩ := own_outcome hmax hbackoff hstep hpc hsound hs hgo
        generalize hst : t.db.status p = status at hout
        cases hout with
        | abandoned res hab =>
            exact absurd hab hnot
        | goesOn st' _ hsound' hbegun =>
            rcases ih hret hkeeps halones hpc' hsound' hst with hidle | ⟨hfailed, hcount⟩
            · exact Or.inl hidle
            · exact Or.inr ⟨hfailed, by omega⟩
        | finished _ =>
            obtain ⟨rfl, rfl⟩ := eq_of_returning hpc' hrest
            exact Or.inl hst
        | failed exc _ hbegun hzero =>
            obtain ⟨rfl, rfl⟩ := eq_of_returning hpc' hrest
            refine Or.inr ⟨hst, ?_⟩
            simp only [cost]
            omega
      · have hother : ∀ c, e ≠ .runner i c := fun c he => hown ⟨c, he⟩
        have hst : t.db.status p = .RUNNING := by
          by_contra hne
          exact hmine ⟨hother, hs, hne⟩
        have hpc' : (t.procs i).pc = .dispatch p snap st todo := by
          rw [procs_eq_of_other hstep hpc hgo.ne_kill hother, hpc]
        have hzero : attemptsBegun i s e = 0 := by
          cases e with
          | runner j c =>
              have hji : j ≠ i := by
                rintro rfl
                exact hother c rfl
              simp [attemptsBegun, hpc, hji]
          | _ =>
              rfl
        rw [hzero, Nat.zero_add]
        exact ih hret hkeeps halones hpc' hsound hst

end Run

/--
**Nothing claimed stays stuck, except by abandonment.**  A dispatch that has
claimed `p` ends with `p` in the `RUNNING` of its own claim if and only if it
abandons `p` and nobody else has taken `p` out of `RUNNING`.  An undisturbed
dispatch that abandons nothing ends in `IDLE`, or in `FAILED` after
`max_attempts` attempts.
-/
theorem dispatch_leaves_running_iff
    {w : World} {i : ι} {p : P}
    (hmax : 1 ≤ w.max_attempts) (hbackoff : w.backoff_seconds ≠ [])
    {s s' : Sys ι P} {es : List (Event ι P)} {snap : PipelineSnapshot}
    {todo : List (P × PipelineStatus)}
    (hclaimed : (s.procs i).pc = .dispatch p snap .snapshot todo)
    (hs : s.db.status p = .RUNNING)
    (hpath : Path (Sys.step w) (fun s e _ => DispatchGoesOn i p s e) s es s')
    (hret : (s'.procs i).pc.position p = .dispatching .leaving) :
    (¬ Path (Sys.step w) (fun _ _ t => t.db.status p = .RUNNING) s es s' ↔
        Path (Sys.step w) (fun s e _ => ¬ AbandonsAt w i p s e) s es s' ∨
          ¬ Path (Sys.step w) (fun s e t => ¬ TakenAway i p s e t) s es s') ∧
      (Path (Sys.step w) (fun s e _ => ¬ AbandonsAt w i p s e) s es s' →
        Path (Sys.step w) (fun s e t => ¬ TakenAway i p s e t) s es s' →
        s'.db.status p = .IDLE ∨
          (s'.db.status p = .FAILED ∧
            cost (Sys.step w) (attemptsBegun i) s es = w.max_attempts)) := by
  constructor
  · rw [stuck_iff_from hmax hbackoff hpath hret hclaimed trivial hs, not_and_or, not_not]
  · intro hkeep halone
    have hends := ends_from hmax hbackoff hpath hret hkeep halone hclaimed trivial hs
    simpa only [Stage.begun, Nat.zero_add] using hends

/-- The process has just claimed `p`. -/
def Pc.justClaimed (p : P) : Pc P → Bool
  | .dispatch q _ .snapshot _ => q = p
  | _ => false

/-- Reading the tasks, the source query, the transform, the sink client. -/
def Pc.mayRaise : Pc P → Bool
  | .dispatch _ _ .snapshot _ => true
  | .dispatch _ _ (.loop _ _ _ (.fetch _)) _ => true
  | .dispatch _ _ (.loop _ _ _ (.transform _ _)) _ => true
  | .dispatch _ _ (.loop _ _ _ (.write _ _ _)) _ => true
  | _ => false

/-- All other statements of process `i` succeed. -/
def LedgerSucceeds (i : ι) (s : Sys ι P) : Event ι P → Prop
  | .runner j c => j = i → c ≠ .ok → (s.procs i).pc.mayRaise = true
  | _ => True

instance (i : ι) (s : Sys ι P) : DecidablePred (LedgerSucceeds i s)
  | .runner j c => inferInstanceAs (Decidable (j = i → c ≠ .ok → (s.procs i).pc.mayRaise = true))
  | .run _ | .pause _ | .patch _ _ | .source _ | .kill _ | .spawn _ => .isTrue trivial

/-- The server cancels a statement that takes too long; the connection stays. -/
def statementTimeout : Exc :=
  statementError "QueryCanceledError" "canceling statement due to statement timeout"

/-- A statement timeout while the tasks are read leaves the pipeline `RUNNING`. -/
theorem stuck_after_tasks_query_error :
    ¬ ∀ (s s' : Sys Unit Unit) (es : List (Event Unit Unit)),
        Reach (Sys.step World.plain) Sys.Resting (fun _ e => e.undisturbed) s →
        (s.procs ()).pc.justClaimed () = true → s.db.status () = .RUNNING →
        Path (Sys.step World.plain)
          (fun s e _ => DispatchGoesOn () () s e ∧ LedgerSucceeds () s e) s es s' →
        (s'.procs ()).pc.position () = .dispatching .leaving →
        ¬ Path (Sys.step World.plain) (fun _ _ t => t.db.status () = .RUNNING) s es s' := by
  intro hall
  have hrun : ∃ s : Sys Unit Unit,
      Reach (Sys.step World.plain) Sys.Resting (fun _ e => e.undisturbed) s ∧
      (s.procs ()).pc.justClaimed () = true ∧ s.db.status () = .RUNNING ∧
      (DispatchGoesOn () () s (.runner () (.raise statementTimeout)) ∧
        LedgerSucceeds () s (.runner () (.raise statementTimeout))) ∧
      (s.step World.plain (.runner () (.raise statementTimeout))).any (fun t =>
        decide ((t.procs ()).pc.position () = .dispatching .leaving ∧
          t.db.status () = .RUNNING)) = true :=
    Reach.exists_of_replay
      (Sys.polling (Db.single (filmPipeline .full 2 .RUN_REQUESTED) [filmExample]))
      (List.replicate 2 (.runner () .ok)) (fun _ => ⟨trivial, rfl⟩) (by decide)
  obtain ⟨s, hreach, hclaimed, hs, hgo, hany⟩ := hrun
  obtain ⟨t, hstep, ht⟩ := (Option.any_eq_true _ _).mp hany
  obtain ⟨hret, hrunning⟩ := of_decide_eq_true ht
  refine hall s t [.runner () (.raise statementTimeout)] hreach hclaimed hs ?_ hret ?_
  · exact .cons hstep hgo (.nil t)
  · exact .cons hstep hrunning (.nil t)

/-- The steps of an attempt whose first batch query times out. -/
def timedOutAttempt : List (Event Unit Unit) :=
  List.replicate 3 (.runner () .ok) ++ [.runner () (.raise statementTimeout)] ++
    List.replicate 2 (.runner () .ok)

/-- A source that times out on every attempt: three attempts, then `FAILED`. -/
theorem dispatch_leaves_running_three_timeouts :
    ∃ (s s' : Sys Unit Unit) (es : List (Event Unit Unit)), s'.db.status () = .FAILED ∧
      (Path (Sys.step World.plain) (fun s e _ => ¬ AbandonsAt World.plain () () s e) s es s' ∨
        ¬ Path (Sys.step World.plain) (fun s e t => ¬ TakenAway () () s e t) s es s') := by
  set es : List (Event Unit Unit) := [.runner () .ok] ++ timedOutAttempt ++ [.runner () .ok] ++
    timedOutAttempt ++ [.runner () .ok] ++ timedOutAttempt ++ [.runner () .ok] with hes
  have hrun : ∃ s : Sys Unit Unit,
      Reach (Sys.step World.plain) Sys.Resting (fun _ e => e.undisturbed) s ∧
      (s.procs ()).pc.justClaimed () = true ∧ s.db.status () = .RUNNING ∧
      (exec (guarded (Sys.step World.plain) (DispatchGoesOn () ())) s es).any (fun t =>
        decide ((t.procs ()).pc.position () = .dispatching .leaving ∧
          t.db.status () = .FAILED)) = true :=
    Reach.exists_of_replay
      (Sys.polling (Db.single (filmPipeline .full 2 .RUN_REQUESTED) [filmExample]))
      (List.replicate 2 (.runner () .ok)) (fun _ => ⟨trivial, rfl⟩) (by decide +kernel)
  obtain ⟨s, -, hjust, hs, hany⟩ := hrun
  obtain ⟨s', hexec, hend⟩ := (Option.any_eq_true _ _).mp hany
  obtain ⟨hret, hfailed⟩ := of_decide_eq_true hend
  obtain ⟨snap, todo, hclaimed⟩ : ∃ snap todo,
      (s.procs ()).pc = .dispatch () snap .snapshot todo := by
    cases hpc : (s.procs ()).pc with
    | dispatch q snap st todo =>
        rw [hpc] at hjust
        cases st <;> simp [Pc.justClaimed] at hjust
        exact ⟨snap, todo, rfl⟩
    | _ =>
        simp [hpc, Pc.justClaimed] at hjust
  have hmoved : ¬ Path (Sys.step World.plain) (fun _ _ t => t.db.status () = .RUNNING) s es s' := by
    intro hstuck
    have hrunning := hstuck.invariant (I := fun t => t.db.status () = .RUNNING) hs
      (fun _ _ _ _ ht _ => ht)
    rw [hfailed] at hrunning
    cases hrunning
  exact ⟨s, s', es, hfailed, (dispatch_leaves_running_iff (by decide) (by decide) hclaimed hs
    (Path.of_exec_guarded hexec) hret).1.mp hmoved⟩

end Dispatch

end EtlPlatform
