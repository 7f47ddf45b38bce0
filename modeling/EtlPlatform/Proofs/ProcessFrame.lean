import EtlPlatform.Proofs.StepCases

/-!
# What a process leaves alone

The source tables are read only; a process inside a tick does not die of what
its statements answer; and whatever await point a live process stands at, it has
a step to take.
-/

namespace EtlPlatform

section Frame

variable {P : Type}

/-- The process is inside a tick. -/
def Pc.inTick : Pc P → Prop
  | .tick _ | .dispatch _ _ _ _ => True
  | _ => False

instance : DecidablePred (Pc.inTick (P := P))
  | .tick _ | .dispatch _ _ _ _ => .isTrue trivial
  | .down | .recovery | .recovering _ | .started | .polling => .isFalse id

variable [DecidableEq P]

omit [DecidableEq P] in
theorem answer_source
    {c : Choice} {kept done : Db P × List (Write P)} {next : Stage P} {onExc : Exc → Stage P}
    {a : After P} (h : answer c kept done next onExc = some a)
    (hdone : done.1.store.source = kept.1.store.source) :
    a.db.store.source = kept.1.store.source := by
  rcases answer_cases h with ⟨-, rfl⟩ | ⟨exc, -, rfl⟩ | ⟨-, rfl⟩
  · exact hdone
  · rfl
  · exact hdone

theorem answerCommit_source
    {c : Choice} {kept : Db P × List (Write P)} {db : Db P} {next : Stage P}
    {onExc : Exc → Stage P} {a : After P}
    (h : answerCommit c kept db next onExc = some a)
    (hdb : db.store.source = kept.1.store.source) :
    a.db.store.source = kept.1.store.source :=
  answer_source h ((Store.commit_source _ _).trans hdb)

theorem answerUpdate_source
    {c : Choice} {kept : Db P × List (Write P)} {p : P} {allowed : List PipelineStatus}
    {new : PipelineStatus} {next : Stage P} {onExc : Exc → Stage P} {a : After P}
    (h : answerUpdate c kept p allowed (Db.updateStatus allowed new) next onExc = some a) :
    a.db.store.source = kept.1.store.source := by
  unfold answerUpdate at h
  split_ifs at h
  · exact answerCommit_source h (by rw [Db.store_updateStatus])
  · exact answer_source h rfl

theorem loopStep_source
    {w : World} {kept : Db P × List (Write P)} {p : P} {k r : ℕ} {bl : BatchLoop P}
    {pc : LoopPc} {c : Choice} {a : After P}
    (h : loopStep w kept p k r bl pc c = some a) :
    a.db.store.source = kept.1.store.source := by
  cases pc with
  | write v rows res =>
      rcases loopStep_write_cases h with ⟨-, h⟩ | ⟨exc, -, -, h⟩ | ⟨items, -, -, h⟩
      · exact answer_source h rfl
      · exact answer_source h rfl
      · rcases writeStep_cases h with ⟨-, hans⟩ | ⟨-, hans | ⟨applied, exc, -, rfl⟩⟩
        · exact answer_source hans rfl
        · exact answer_source hans rfl
        · rfl
  | advance v rows left n =>
      rcases loopStep_advance_cases h with ⟨exc, -, h⟩ | ⟨v', ws, -, h⟩ <;>
        exact answer_source h rfl
  | commit v =>
      exact answerCommit_source h rfl
  | pauseApply v =>
      exact answerUpdate_source h
  | _ =>
      exact answer_source h rfl

theorem stageStep_source
    {w : World} {kept : Db P × List (Write P)} {p : P} {snap : PipelineSnapshot}
    {st : Stage P} {c : Choice} {a : After P}
    (h : stageStep w kept p snap st c = some a) :
    a.db.store.source = kept.1.store.source := by
  cases st with
  | loop k r bl pc =>
      exact loopStep_source h
  | startRun k =>
      exact answerCommit_source h rfl
  | finishSuccess k r exit v =>
      exact answerCommit_source h rfl
  | finishIdle k exit =>
      exact answerUpdate_source h
  | rollback k r exc =>
      have hans : answer c (kept.1, []) (kept.1, []) (.finishFailed k r exc)
          (onDispatchExc w k) = some a := h
      have hsource := answer_source hans rfl
      exact hsource
  | finishFailed k r exc =>
      exact answerCommit_source h rfl
  | sleep k delay =>
      cases c with
      | ok =>
          obtain rfl := Option.some.inj h
          rfl
      | _ =>
          cases h
  | failIfActive exc =>
      exact answerUpdate_source h
  | returning res =>
      cases h
  | _ =>
      exact answer_source h rfl

/-- Processes never touch the source tables. -/
theorem procStep_source
    {w : World} {db db' : Db P} {pr pr' : Proc P} {c : Choice}
    (h : procStep w db pr c = some (db', pr')) :
    db'.store.source = db.store.source := by
  cases procStep_effect h with
  | offered hdb hpr =>
      rcases hdb with rfl | rfl
      · rfl
      · rw [Db.apply_pause_requested, Db.store_updateStatus]
  | unclaimed hdb hpr =>
      rcases hdb with rfl | rfl
      · rfl
      · rw [Db.claim_run_requested, Db.store_updateStatus]
  | claimed hreq =>
      rw [Db.claim_run_requested, Db.store_updateStatus]
  | stepped hst =>
      exact stageStep_source hst
  | _ =>
      rfl

/-- An update that succeeds is a step. -/
theorem answerUpdate_isSome
    (kept : Db P × List (Write P)) (p : P) (allowed : List PipelineStatus)
    (update : Db P → P → Db P) (next : Stage P) (onExc : Exc → Stage P) :
    (answerUpdate .ok kept p allowed update next onExc).isSome = true := by
  unfold answerUpdate
  split_ifs <;> rfl

theorem loopStep_isSome
    (w : World) (kept : Db P × List (Write P)) (p : P) (k r : ℕ) (bl : BatchLoop P)
    (pc : LoopPc) :
    (loopStep w kept p k r bl pc .ok).isSome = true := by
  cases pc with
  | write v rows res =>
      simp only [loopStep]
      split_ifs
      · rfl
      · cases bl.write res.rows with
        | error exc =>
            rfl
        | ok items =>
            simp only [writeStep]
            split_ifs <;> rfl
  | advance v rows left n =>
      simp only [loopStep]
      cases bl.advance v rows left n with
      | error exc =>
          rfl
      | ok res =>
          rfl
  | pauseApply v =>
      exact answerUpdate_isSome ..
  | _ =>
      rfl

/-- **A process that has not died can always go on.** -/
theorem procStep_isSome
    (w : World) (db : Db P) {pr : Proc P} (h : pr.pc ≠ .down) :
    (procStep w db pr .ok).isSome = true := by
  obtain ⟨pc, pending⟩ := pr
  cases pc with
  | down =>
      exact absurd rfl h
  | tick todo =>
      rcases todo with _ | ⟨⟨p, s⟩, todo⟩
      · rfl
      · cases s with
        | RUN_REQUESTED =>
            simp only [procStep, dispatchClaim]
            split_ifs <;> rfl
        | _ =>
            rfl
  | dispatch p snap st todo =>
      cases st with
      | returning res =>
          rfl
      | loop k r bl pc =>
          simp only [procStep, stageStep, Option.isSome_map]
          exact loopStep_isSome ..
      | finishIdle k exit =>
          simp only [procStep, stageStep, Option.isSome_map]
          exact answerUpdate_isSome ..
      | failIfActive exc =>
          simp only [procStep, stageStep, Option.isSome_map]
          exact answerUpdate_isSome ..
      | _ =>
          rfl
  | _ =>
      rfl

/-- A tick does not end in death. -/
theorem procStep_alive
    {w : World} {db db' : Db P} {pr pr' : Proc P} {c : Choice}
    (h : procStep w db pr c = some (db', pr')) (hin : pr.pc.inTick) :
    pr'.pc ≠ .down := by
  cases procStep_effect h with
  | listed =>
      exact hin.elim
  | recovered hpc =>
      exact hin.elim
  | died hpc =>
      rcases hpc with rfl | ⟨ids, rfl⟩ <;> exact hin.elim
  | offered hdb hpr =>
      rcases hpr with rfl | rfl <;> simp
  | unclaimed hdb hpr =>
      rcases hpr with rfl | rfl <;> simp
  | returned hpr =>
      rcases hpr with rfl | rfl <;> simp
  | _ =>
      simp

end Frame

end EtlPlatform
