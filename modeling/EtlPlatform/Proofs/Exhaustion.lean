import EtlPlatform.Model.Deployment
import EtlPlatform.Proofs.StatusView

/-!
# `IDLE` means the source was exhausted

A batch loop ends with a query that returned no rows, or with the early return
of the pause check, and `dispatch` finalizes both in the same way: `IDLE` if the
status is still `RUNNING`.  What tells them apart is the status itself.  Once
the pause check of the only runner has seen `PAUSE_REQUESTED`, the status stays
among `PAUSED`, `PAUSE_REQUESTED`, `RUN_REQUESTED` and `FAILED` until the
pipeline is claimed again, even when the pause loses its race to a run request.

How the loop was left is recorded by a history variable, computed from the
statements that were executed.
-/

namespace EtlPlatform

open Library

/-- Statuses of a pipeline whose execution was cut short, until the next claim. -/
def cutShortStatuses : List PipelineStatus :=
  [.PAUSED, .PAUSE_REQUESTED, .RUN_REQUESTED, .FAILED]

/-- Activities on the way out after the pause check has seen the request. -/
def Position.cutShort : Position → Prop
  | .dispatching .pausing => True
  | .dispatching (.exited .paused) => True
  | .dispatching (.finishing .paused) => True
  | _ => False

theorem Position.not_cutShort_of_idle
    {o : Position} (h : o.idle) :
    ¬ o.cutShort := by
  cases o with
  | dispatching a =>
      exact h.elim
  | _ =>
      exact id

theorem Activity.not_cutShort_of_isHandler
    {a : Activity} (h : a.isHandler) :
    ¬ (Position.dispatching a).cutShort := by
  cases a <;> simp_all [isHandler, Position.cutShort]

/-- A process that executes the pipeline claims nothing. -/
theorem Move.not_claim_of_dispatching
    {s s' : PipelineStatus} {a : Activity} {o' : Position}
    (h : Move s (.dispatching a) s' o') :
    ¬ (s = .RUN_REQUESTED ∧ s' = .RUNNING) := by
  rintro ⟨rfl, rfl⟩
  cases h with
  | claim hidle =>
      exact hidle
  | claimLost hidle _ =>
      exact hidle
  | inside hmoves =>
      rcases hmoves.status_cases with h | ⟨-, h, -⟩ | ⟨x, -, h, -⟩ | ⟨-, -, h⟩ <;> cases h

theorem moveStatus_mem
    {allowed statuses : List PipelineStatus} {new s : PipelineStatus}
    (hnew : new ∈ statuses) (hs : s ∈ statuses) :
    moveStatus allowed new s ∈ statuses := by
  unfold moveStatus
  split_ifs
  · exact hnew
  · exact hs

/-- The three activities from which a step can end outside the batch loop. -/
theorem Moves.to_exited
    {s s' : PipelineStatus} {a a' : Activity} {exit : Exit}
    (h : Moves s a s' a') (ha' : a' = .exited exit) :
    a = .looping ∨ a = .pausing ∨ a = .exited exit := by
  subst ha'
  cases h with
  | fault _ _ hhandler =>
      exact hhandler.elim
  | exhaust _ =>
      exact Or.inl rfl
  | pause _ _ =>
      exact Or.inr (Or.inl rfl)
  | wind _ _ =>
      exact Or.inr (Or.inr rfl)
  | idle _ _ hhandler =>
      exact hhandler.elim
  | fail _ hhandler =>
      exact hhandler.elim

theorem Move.to_exited
    {s s' : PipelineStatus} {o o' : Position} {exit : Exit}
    (h : Move s o s' o') (ho' : o' = .dispatching (.exited exit)) :
    ∃ a, o = .dispatching a := by
  subst ho'
  cases h with
  | elsewhere _ _ hidle =>
      exact hidle.elim
  | claimLost _ hidle =>
      exact hidle.elim
  | applyPause hidle =>
      exact hidle.elim
  | lookUp _ hidle =>
      rcases hidle with h | h
      · cases h
      · exact h.elim
  | recover hidle =>
      exact hidle.elim
  | inside _ =>
      exact ⟨_, rfl⟩
  | leave _ hidle =>
      exact hidle.elim

/-- Finalization follows an exit. -/
theorem Move.to_finishing
    {s s' : PipelineStatus} {o o' : Position} {exit : Exit}
    (h : Move s o s' o') (ho' : o' = .dispatching (.finishing exit)) :
    o = .dispatching (.exited exit) := by
  subst ho'
  cases h with
  | elsewhere _ _ hidle =>
      exact hidle.elim
  | claimLost _ hidle =>
      exact hidle.elim
  | applyPause hidle =>
      exact hidle.elim
  | lookUp _ hidle =>
      rcases hidle with h | h
      · cases h
      · exact h.elim
  | recover hidle =>
      exact hidle.elim
  | leave _ hidle =>
      exact hidle.elim
  | inside hmoves =>
      cases hmoves with
      | finish _ _ =>
          rfl
      | fault _ _ hhandler =>
          exact hhandler.elim
      | pause _ hhandler =>
          rcases hhandler with h | h
          · cases h
          · exact h.elim
      | idle _ _ hhandler =>
          exact hhandler.elim
      | fail _ hhandler =>
          exact hhandler.elim

section Abstract

variable {ι : Type} [DecidableEq ι]

/-- A step that claims nothing leaves the cut-short statuses closed. -/
theorem Move.cutShortStatuses_closed
    {s s' : PipelineStatus} {o o' : Position}
    (h : Move s o s' o')
    (hs : s ∈ cutShortStatuses)
    (hclaim : ¬ (s = .RUN_REQUESTED ∧ s' = .RUNNING)) :
    s' ∈ cutShortStatuses := by
  cases h with
  | claim _ =>
      exact absurd ⟨rfl, rfl⟩ hclaim
  | claimLost _ _ =>
      exact absurd ⟨rfl, rfl⟩ hclaim
  | applyPause _ =>
      decide
  | recover _ =>
      decide
  | inside hmoves =>
      rcases hmoves.status_cases with h | ⟨-, -, h⟩ | ⟨exit, -, hrun, -⟩ | ⟨-, -, h⟩
      · rwa [h]
      · rw [h]
        decide
      · rw [hrun] at hs
        exact absurd hs (by decide)
      · rw [h]
        decide
  | _ =>
      exact hs

theorem View.Step.cutShortStatuses_closed
    {v v' : View ι} {e : ViewEvent ι}
    (h : View.Step v e v')
    (hs : v.status ∈ cutShortStatuses)
    (hclaim : ¬ (v.status = .RUN_REQUESTED ∧ v'.status = .RUNNING)) :
    v'.status ∈ cutShortStatuses := by
  cases h with
  | run =>
      exact moveStatus_mem (by decide) hs
  | pause =>
      exact moveStatus_mem (by decide) hs
  | runner i hmove =>
      exact hmove.cutShortStatuses_closed hs hclaim
  | _ =>
      exact hs

/-- A single process that is on its way out after a pause leaves its status among the
cut-short ones. -/
def View.CutShort (v : View Unit) : Prop :=
  (v.position ()).cutShort → v.status ∈ cutShortStatuses

theorem View.CutShort.step
    {v v' : View Unit} {e : ViewEvent Unit}
    (hv : v.CutShort) (h : View.Step v e v') :
    v'.CutShort := by
  cases h with
  | run =>
      intro hcut
      exact moveStatus_mem (by decide) (hv hcut)
  | pause =>
      intro hcut
      exact moveStatus_mem (by decide) (hv hcut)
  | other =>
      exact hv
  | kill i =>
      intro hcut
      simp [Position.cutShort] at hcut
  | spawn i _ =>
      intro hcut
      simp [Position.cutShort] at hcut
  | @runner i s o hmove =>
      intro hcut
      simp only [View.position_move_self] at hcut
      rw [View.status_move]
      have hbefore := hv
      simp only [View.CutShort] at hbefore
      generalize v.position () = o₀ at hmove hbefore
      generalize v.status = s₀ at hmove hbefore
      cases hmove with
      | inside hmoves =>
          cases hmoves with
          | fault _ _ ha' =>
              exact absurd hcut (Activity.not_cutShort_of_isHandler ha')
          | notice =>
              decide
          | pause _ _ =>
              exact moveStatus_mem (by decide) (hbefore trivial)
          | wind _ exit =>
              exact hbefore hcut
          | finish exit _ =>
              cases exit with
              | exhausted =>
                  exact hcut.elim
              | paused =>
                  exact hbefore trivial
          | idle _ exit ha' =>
              exact absurd hcut (Activity.not_cutShort_of_isHandler ha')
          | fail _ ha' =>
              exact absurd hcut (Activity.not_cutShort_of_isHandler ha')
          | _ =>
              exact hcut.elim
      | elsewhere _ _ ho' =>
          exact absurd hcut (Position.not_cutShort_of_idle ho')
      | claimLost _ ho' =>
          exact absurd hcut (Position.not_cutShort_of_idle ho')
      | applyPause ho' =>
          exact absurd hcut (Position.not_cutShort_of_idle ho')
      | lookUp _ ho' =>
          rcases ho' with rfl | ho'
          · exact hcut.elim
          · exact absurd hcut (Position.not_cutShort_of_idle ho')
      | recover ho' =>
          exact absurd hcut (Position.not_cutShort_of_idle ho')
      | leave _ ho' =>
          exact absurd hcut (Position.not_cutShort_of_idle ho')
      | claim _ =>
          exact hcut.elim

/-- Only a finalization turns `RUNNING` into `IDLE`. -/
theorem View.Step.finishing_of_idle
    {v v' : View ι} {e : ViewEvent ι}
    (h : View.Step v e v') (hs : v.status = .RUNNING) (hs' : v'.status = .IDLE) :
    ∃ i exit, v.position i = .dispatching (.finishing exit) := by
  cases h with
  | run =>
      simp [moveStatus, hs, runAccepted] at hs'
  | pause =>
      simp [moveStatus, hs, pauseAccepted] at hs'
  | runner i hmove =>
      refine ⟨i, ?_⟩
      rw [View.status_move] at hs'
      subst hs'
      generalize v.position i = o at hmove ⊢
      generalize v.status = s at hmove hs
      cases hmove with
      | elsewhere _ _ _ =>
          cases hs
      | lookUp _ _ =>
          cases hs
      | leave _ _ =>
          cases hs
      | inside hmoves =>
          rcases hmoves.status_cases with h | ⟨-, -, h⟩ | ⟨exit, rfl, -, -⟩ | ⟨-, -, h⟩
          · rw [hs] at h
            cases h
          · cases h
          · exact ⟨exit, rfl⟩
          · cases h
  | _ =>
      rw [hs] at hs'
      cases hs'

end Abstract

section Process

variable {P : Type} [DecidableEq P]

/-- How a step leaves the batch loop of `p` without an exception: a batch query answers
with no rows, or `_pause_if_requested` returns true. -/
def Pc.leavesLoop (p : P) (st : Store P) (c : Choice) : Pc P → Option Exit
  | .dispatch q _ (.loop _ _ bl (.fetch v)) _ =>
      if q = p ∧ c = .ok ∧ (bl.query st v).toOption = some [] then some .exhausted else none
  | .dispatch q _ (.loop _ _ _ (.pauseApply _)) _ =>
      if q = p ∧ c = .ok then some .paused else none
  | _ => none

/-- The process has left its batch loop by `exit` and has not begun another attempt. -/
def Position.left (o : Position) (exit : Exit) : Prop :=
  o = .dispatching (.exited exit) ∨ o = .dispatching (.finishing exit)

theorem Position.not_left_of_idle
    {o : Position} {exit : Exit} (h : o.idle) :
    ¬ o.left exit := by
  rintro (rfl | rfl) <;> exact h

/-- The loop is left at the positions before a fetch and before a pause update only. -/
theorem position_of_leavesLoop
    {p : P} {st : Store P} {c : Choice} {pc : Pc P} {exit : Exit}
    (h : pc.leavesLoop p st c = some exit) :
    (exit = .exhausted ∧ pc.position p = .dispatching .looping) ∨
      (exit = .paused ∧ pc.position p = .dispatching .pausing) := by
  cases pc with
  | dispatch q snap stg todo =>
      cases stg with
      | loop k r bl lpc =>
          cases lpc with
          | fetch v =>
              simp only [Pc.leavesLoop] at h
              split_ifs at h with hq
              obtain rfl := Option.some.inj h
              exact Or.inl ⟨rfl, by simp [Pc.position, hq.1, Stage.activity, LoopPc.activity]⟩
          | pauseApply v =>
              simp only [Pc.leavesLoop] at h
              split_ifs at h with hq
              obtain rfl := Option.some.inj h
              exact Or.inr ⟨rfl, by simp [Pc.position, hq.1, Stage.activity, LoopPc.activity]⟩
          | _ =>
              simp [Pc.leavesLoop] at h
      | _ =>
          simp [Pc.leavesLoop] at h
  | _ =>
      simp [Pc.leavesLoop] at h

/-- A stage that follows an exception has not left the loop. -/
theorem not_exited_of_isHandler
    {a : Activity} {exit : Exit} (h : a.isHandler) :
    a ≠ .exited exit := by
  rintro rfl
  exact h

omit [DecidableEq P] in
/-- A computed continuation has left the loop only if its regular outcome has. -/
theorem stageOf_exited
    {α : Type} {w : World} {k r : ℕ} {next : α → Stage P} {res : Except Exc α} {exit : Exit}
    (h : (stageOf (onExecuteExc w k r) next res).activity = .exited exit) :
    ∃ x, res = .ok x ∧ (next x).activity = .exited exit := by
  cases res with
  | ok x =>
      exact ⟨x, rfl, h⟩
  | error exc =>
      exact absurd h (not_exited_of_isHandler (onExecuteExc_isHandler w k r exc))

omit [DecidableEq P] in
/-- A statement in the loop ends outside it only through its regular continuation. -/
theorem answerRead_exited
    {w : World} {k r : ℕ} {c : Choice} {kept : Db P × List (Write P)}
    {next : Stage P} {a : After P} {exit : Exit}
    (h : answerRead c kept next (onExecuteExc w k r) = some a)
    (hexit : a.stage.activity = .exited exit) :
    c = .ok ∧ a.stage = next := by
  rcases answer_cases h with ⟨hc, rfl⟩ | ⟨exc, -, rfl⟩ | ⟨-, rfl⟩
  · exact ⟨hc, rfl⟩
  · exact absurd hexit (not_exited_of_isHandler (onExecuteExc_isHandler w k r exc))
  · exact absurd hexit (not_exited_of_isHandler (onExecuteExc_isHandler w k r connectionLost))

omit [DecidableEq P] in
/-- A stage that is the regular continuation or a handler, neither of them outside the
loop. -/
theorem not_exited_of_quiet
    {stage next : Stage P} {exit : Exit}
    (h : stage = next ∨ stage.activity.isHandler)
    (hnext : next.activity ≠ .exited exit) :
    stage.activity ≠ .exited exit := by
  rcases h with rfl | h
  · exact hnext
  · exact not_exited_of_isHandler h

/-- The pause update leads out of the loop only when it succeeds. -/
theorem answerUpdate_exited
    {w : World} {k r : ℕ} {c : Choice} {kept : Db P × List (Write P)} {p : P}
    {allowed : List PipelineStatus} {new : PipelineStatus}
    {next : Stage P} {a : After P} {exit : Exit}
    (h : answerUpdate c kept p allowed (Db.updateStatus allowed new) next
      (onExecuteExc w k r) = some a)
    (hexit : a.stage.activity = .exited exit) :
    c = .ok ∧ a.stage = next := by
  unfold answerUpdate at h
  split_ifs at h
  all_goals
    rcases answer_cases h with ⟨hc, rfl⟩ | ⟨exc, -, rfl⟩ | ⟨-, rfl⟩
    · exact ⟨hc, rfl⟩
    · exact absurd hexit (not_exited_of_isHandler (onExecuteExc_isHandler w k r exc))
    · exact absurd hexit (not_exited_of_isHandler (onExecuteExc_isHandler w k r connectionLost))

/-- Inside the batch loop, the next stage has left it only as `leavesLoop` says. -/
theorem loopStep_exited
    {w : World} {kept : Db P × List (Write P)} {p : P} {snap : PipelineSnapshot} {k r : ℕ}
    {bl : BatchLoop P} {pc : LoopPc} {c : Choice} {a : After P} {exit : Exit}
    {todo : List (P × PipelineStatus)}
    (h : loopStep w kept p k r bl pc c = some a)
    (hexit : a.stage.activity = .exited exit) :
    pc.activity = .exited exit ∨
      (Pc.dispatch p snap (.loop k r bl pc) todo).leavesLoop p kept.1.store c = some exit := by
  have hexc := onExecuteExc_isHandler (P := P) w k r
  cases pc with
  | setup =>
      obtain ⟨-, hstage⟩ := answerRead_exited h hexit
      rw [hstage] at hexit
      obtain ⟨v, -, hnext⟩ := stageOf_exited hexit
      cases hnext
  | fetch v =>
      obtain ⟨rfl, hstage⟩ := answerRead_exited h hexit
      rw [hstage] at hexit
      obtain ⟨rows, hrows, hnext⟩ := stageOf_exited hexit
      by_cases hnil : rows = []
      · subst hnil
        have hexh : Activity.exited .exhausted = .exited exit := hnext
        refine Or.inr ?_
        simp only [Pc.leavesLoop, hrows, Except.toOption, and_self, if_true]
        exact congrArg some (Activity.exited.inj hexh)
      · rw [if_neg hnil] at hnext
        cases hnext
  | transform v rows =>
      obtain ⟨-, hstage⟩ := answerRead_exited h hexit
      rw [hstage] at hexit
      obtain ⟨res, -, hnext⟩ := stageOf_exited hexit
      cases hnext
  | write v rows res =>
      rcases loopStep_write_cases h with ⟨-, h⟩ | ⟨exc, -, -, h⟩ | ⟨items, -, -, h⟩
      · exact absurd hexit (not_exited_of_quiet (answerRead_quiet h hexc).2 (by
          simp [Stage.activity, LoopPc.activity]))
      · exact absurd hexit (not_exited_of_quiet (answerRead_quiet h hexc).2
          (not_exited_of_isHandler (hexc exc)))
      · exact absurd hexit (not_exited_of_quiet (writeStep_quiet h hexc).2 (by
          simp [Stage.activity, LoopPc.activity]))
  | advance v rows left written =>
      rcases loopStep_advance_cases h with ⟨exc, -, h⟩ | ⟨v', ws, -, h⟩
      · exact absurd hexit (not_exited_of_quiet (answerRead_quiet h hexc).2
          (not_exited_of_isHandler (hexc exc)))
      · exact absurd hexit (not_exited_of_quiet (answer_quiet h rfl hexc).2 (by
          simp [Stage.activity, LoopPc.activity]))
  | commit v =>
      exact absurd hexit (not_exited_of_quiet (answerCommit_quiet h rfl hexc).2 (by
        simp [Stage.activity, LoopPc.activity]))
  | pauseRead v =>
      obtain ⟨-, hstage⟩ := answerRead_exited h hexit
      rw [hstage] at hexit
      split_ifs at hexit <;> cases hexit
  | pauseApply v =>
      obtain ⟨rfl, hstage⟩ := answerUpdate_exited h hexit
      rw [hstage] at hexit
      have hpaused : Activity.exited .paused = .exited exit := hexit
      exact Or.inr (by simpa [Pc.leavesLoop] using Activity.exited.inj hpaused)
  | close exit' v =>
      obtain ⟨-, hstage⟩ := answerRead_exited h hexit
      rw [hstage] at hexit
      exact Or.inl hexit

/-- The same for every stage of a dispatch. -/
theorem stageStep_exited
    {w : World} {kept : Db P × List (Write P)} {p : P} {snap : PipelineSnapshot}
    {st : Stage P} {c : Choice} {a : After P} {exit : Exit} {todo : List (P × PipelineStatus)}
    (h : stageStep w kept p snap st c = some a)
    (hexit : a.stage.activity = .exited exit) :
    st.activity = .exited exit ∨
      (Pc.dispatch p snap st todo).leavesLoop p kept.1.store c = some exit := by
  have hfrom := (stageStep_moves h).2.to_exited hexit
  cases st with
  | loop k r bl pc =>
      exact loopStep_exited h hexit
  | runBody k r =>
      obtain ⟨-, hstage⟩ := answerRead_exited h hexit
      rw [hstage] at hexit
      obtain ⟨bl, -, hnext⟩ := stageOf_exited hexit
      cases hnext
  | finishSuccess k r exit' v =>
      exact Or.inl (by simpa [Stage.activity] using hfrom)
  | getStatus k exit' =>
      exact Or.inl (by simpa [Stage.activity] using hfrom)
  | _ =>
      simp [Stage.activity] at hfrom

/-- A process has left its batch loop only as `leavesLoop` says, or it had before. -/
theorem procStep_exited
    {w : World} {db db' : Db P} {pr pr' : Proc P} {c : Choice} {p : P} {exit : Exit}
    (h : procStep w db pr c = some (db', pr'))
    (hexit : pr'.pc.position p = .dispatching (.exited exit)) :
    pr.pc.position p = .dispatching (.exited exit) ∨
      pr.pc.leavesLoop p db.store c = some exit := by
  obtain ⟨a, hpos⟩ := (procStep_move h p).to_exited hexit
  obtain ⟨pc, pending⟩ := pr
  obtain ⟨q, snap, st, todo, rfl⟩ : ∃ q snap st todo, pc = .dispatch q snap st todo := by
    have hexec := (executing_iff_position p pc).mpr ⟨a, hpos⟩
    cases pc with
    | dispatch q snap st todo =>
        exact ⟨q, snap, st, todo, rfl⟩
    | _ =>
        exact hexec.elim
  have hq : q = p := (executing_iff_position p _).mpr ⟨a, hpos⟩
  subst hq
  rcases procStep_dispatch h with ⟨res, -, -, rfl⟩ | ⟨b, hst, -, rfl⟩
  · have hidle := position_afterDispatch_idle q todo res
    rw [hexit] at hidle
    exact hidle.elim
  · have hact : b.stage.activity = .exited exit := by
      simpa [Pc.position] using hexit
    simpa [Pc.position] using stageStep_exited hst hact

/-- Once out of the loop, a process was out before, or leaves it in this step. -/
theorem procStep_left
    {w : World} {db db' : Db P} {pr pr' : Proc P} {c : Choice} {p : P} {exit : Exit}
    (h : procStep w db pr c = some (db', pr'))
    (hleft : (pr'.pc.position p).left exit) :
    (pr.pc.position p).left exit ∨ pr.pc.leavesLoop p db.store c = some exit := by
  rcases hleft with hexit | hfin
  · exact (procStep_exited h hexit).imp Or.inl id
  · exact Or.inl (Or.inl ((procStep_move h p).to_finishing hfin))

end Process

section Exhaustion

variable {P : Type} [DecidableEq P]

/-- How the batch loop of the last attempt at `p` was left, if it was. -/
def lastExit (p : P) (exit : Option Exit) (s : Sys Unit P) : Event Unit P → Option Exit
  | .runner i c =>
      match (s.procs i).pc.leavesLoop p s.db.store c with
      | some exit' => some exit'
      | none => if (s.procs i).pc.position p = .dispatching .starting then none else exit
  | _ => exit

/-- The step is a successful claim of `p`. -/
def Claims (p : P) (s s' : Sys Unit P) : Prop :=
  s.db.status p = .RUN_REQUESTED ∧ s'.db.status p = .RUNNING

/-- The history variable knows how the process left its loop. -/
def ExitRecorded (p : P) (x : Sys Unit P × Option Exit) : Prop :=
  ∀ exit, ((x.1.procs ()).pc.position p).left exit → x.2 = some exit

theorem exitRecorded_step
    {w : World} {p : P} {x y : Sys Unit P × Option Exit} {e : Event Unit P}
    (hx : ExitRecorded p x)
    (h : tracked (Sys.step w) (lastExit p) x e = some y) :
    ExitRecorded p y := by
  obtain ⟨hstep, hy⟩ := tracked_eq_some_iff.mp h
  intro exit hleft
  rw [hy]
  cases e with
  | runner i c =>
      obtain ⟨db, pr, hproc, hs'⟩ := Sys.step_runner_iff.mp hstep
      rw [hs'] at hleft
      simp only [Function.update_self] at hleft
      rcases procStep_left hproc hleft with hbefore | hnow
      · -- nothing is recorded while the process is on its way out
        have hnone : (x.1.procs ()).pc.leavesLoop p x.1.db.store c = none := by
          cases hl : (x.1.procs ()).pc.leavesLoop p x.1.db.store c with
          | none =>
              rfl
          | some exit' =>
              rcases position_of_leavesLoop hl with ⟨-, hpos⟩ | ⟨-, hpos⟩ <;>
                rcases hbefore with hb | hb <;> rw [hpos] at hb <;> cases hb
        have hstart : (x.1.procs ()).pc.position p ≠ .dispatching .starting := by
          rintro hpos
          rcases hbefore with hb | hb <;> rw [hpos] at hb <;> cases hb
        simp only [lastExit, hnone, if_neg hstart]
        exact hx exit hbefore
      · simp only [lastExit, hnow]
  | kill i =>
      have hs' := Option.some.inj hstep
      rw [← hs'] at hleft
      exact absurd hleft (Position.not_left_of_idle (by
        simp [Sys.setProc, Pc.position, Position.idle]))
  | spawn i =>
      obtain ⟨-, hs'⟩ := Sys.step_spawn_iff.mp hstep
      rw [hs'] at hleft
      rcases hleft with hl | hl <;> simp [Sys.setProc, Pc.position] at hl
  | _ =>
      have hs' := Option.some.inj hstep
      rw [← hs'] at hleft
      exact hx exit hleft

/-- Both invariants of the single runner, with the history of its exits. -/
theorem exitRecorded_and_cutShort
    {w : World} {p : P} {x : Sys Unit P × Option Exit}
    (h : Reach (tracked (Sys.step w) (lastExit p)) (fun x => x.1.Resting) (fun _ _ => True) x) :
    ExitRecorded p x ∧ (x.1.view p).CutShort := by
  refine h.invariant (I := fun x => ExitRecorded p x ∧ (x.1.view p).CutShort) ?_ ?_
  · intro x hrest
    rcases position_of_resting p (hrest ()).1 with hpos | hidle
    · constructor
      · rintro exit (hl | hl) <;> rw [hpos] at hl <;> cases hl
      · intro hcut
        simp [Sys.view, hpos, Position.cutShort] at hcut
    · exact ⟨fun exit hl => absurd hl (Position.not_left_of_idle hidle),
        fun hcut => absurd hcut (Position.not_cutShort_of_idle hidle)⟩
  · rintro x e y ⟨hrec, hcut⟩ - hstep
    exact ⟨exitRecorded_step hrec hstep,
      hcut.step (step_view (tracked_eq_some_iff.mp hstep).1 p)⟩

/--
**`IDLE` means exhausted.**  When the status of `p` goes from `RUNNING` to
`IDLE`, the last attempt left its loop because a batch query returned no rows;
and after an attempt was cut short by a pause, the status stays among
`PAUSED`, `PAUSE_REQUESTED`, `RUN_REQUESTED` and `FAILED` until `p` is claimed.
-/
theorem idle_means_exhausted
    {w : World} {p : P} {s : Sys Unit P} {exit : Option Exit}
    (h : Reach (tracked (Sys.step w) (lastExit p)) (fun x => x.1.Resting) (fun _ _ => True)
      (s, exit)) :
    (∀ e s', s.step w e = some s' →
        s.db.status p = .RUNNING → s'.db.status p = .IDLE → exit = some .exhausted) ∧
      (∀ c s' es s'', (s.procs ()).pc.leavesLoop p s.db.store c = some .paused →
        s.step w (.runner () c) = some s' →
        Path (Sys.step w) (fun s _ s' => ¬ Claims p s s') s' es s'' →
        s''.db.status p ∈ cutShortStatuses) := by
  obtain ⟨hrec, hcut⟩ := exitRecorded_and_cutShort h
  constructor
  · intro e s' hstep hrunning hidle
    obtain ⟨i, x, hpos⟩ := (step_view hstep p).finishing_of_idle hrunning hidle
    have hexit : exit = some x := hrec x (Or.inr hpos)
    cases x with
    | exhausted =>
        exact hexit
    | paused =>
        have hmem : s.db.status p ∈ cutShortStatuses := hcut (by
          rw [show (s.view p).position () = .dispatching (.finishing .paused) from hpos]
          trivial)
        rw [hrunning] at hmem
        exact absurd hmem (by decide)
  · intro c s' es s'' hleaves hstep hpath
    have hpausing : (s.procs ()).pc.position p = .dispatching .pausing := by
      rcases position_of_leavesLoop hleaves with ⟨h, -⟩ | ⟨-, hpos⟩
      · cases h
      · exact hpos
    have hmem : s.db.status p ∈ cutShortStatuses := hcut (by
      rw [show (s.view p).position () = .dispatching .pausing from hpausing]
      trivial)
    have hnext : s'.db.status p ∈ cutShortStatuses := by
      obtain ⟨db, pr, hproc, rfl⟩ := Sys.step_runner_iff.mp hstep
      have hmove := procStep_move hproc p
      rw [hpausing] at hmove
      exact hmove.cutShortStatuses_closed hmem hmove.not_claim_of_dispatching
    refine hpath.invariant (I := fun s => s.db.status p ∈ cutShortStatuses) hnext ?_
    intro t e t' ht hclaim hstep
    exact (step_view hstep p).cutShortStatuses_closed ht hclaim

/-- A run over one film that reaches `IDLE`. -/
theorem idle_means_exhausted_one_film :
    ∃ (s s' : Sys Unit Unit) (exit : Option Exit), s.db.status () = .RUNNING ∧
      s'.db.status () = .IDLE ∧ s.step World.plain (.runner () .ok) = some s' ∧
      exit = some .exhausted := by
  have hrun : ∃ x : Sys Unit Unit × Option Exit,
      Reach (tracked (Sys.step World.plain) (lastExit ())) (fun x => x.1.Resting)
        (fun _ _ => True) x ∧
      x.1.db.status () = .RUNNING ∧
      (x.1.step World.plain (.runner () .ok)).any (fun s' =>
        decide (s'.db.status () = .IDLE)) = true :=
    Reach.exists_of_replay
      (Sys.polling (Db.single (filmPipeline .full 2 .RUN_REQUESTED) [filmExample]), none)
      (List.replicate 16 (.runner () .ok)) (fun _ => ⟨trivial, rfl⟩) (by decide)
  obtain ⟨⟨s, exit⟩, hreach, hrunning, hany⟩ := hrun
  obtain ⟨s', hstep, hidle⟩ := (Option.any_eq_true _ _).mp hany
  exact ⟨s, s', exit, hrunning, of_decide_eq_true hidle, hstep,
    (idle_means_exhausted hreach).1 _ _ hstep hrunning (of_decide_eq_true hidle)⟩

end Exhaustion

end EtlPlatform
