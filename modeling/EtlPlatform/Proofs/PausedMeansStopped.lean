import EtlPlatform.Model.Deployment
import EtlPlatform.Proofs.Sessions
import EtlPlatform.Proofs.StatusStatements

/-!
# Paused means stopped

`PAUSED` is set by `apply_pause_requested`, and two callers reach it.  The pause
check of a batch loop runs between two batches of its own run.  The tick runs
in any process, and nothing tells it whether another process is in the middle
of a batch.  A failure after the loop's own pause is a second way out: the
retry starts a new attempt without looking at the status.

On runs that avoid both, no batch of a paused pipeline is ever committed.
-/

namespace EtlPlatform

open Library

/-- The process can commit a batch without starting an attempt first. -/
def Position.inBatches : Position → Prop
  | .dispatching a => a.inBatches
  | _ => False

/-- The next statement is `apply_pause_requested` on the pipeline. -/
def Position.appliesPause : Position → Prop
  | .offered | .dispatching .pausing => True
  | _ => False

instance : DecidablePred Position.appliesPause := fun o =>
  match o with
  | .offered | .dispatching .pausing => .isTrue trivial
  | .away | .recovering | .dispatching .claimed | .dispatching .starting
  | .dispatching .looping | .dispatching .checking | .dispatching (.exited _)
  | .dispatching (.finishing _) | .dispatching .handling | .dispatching .failing
  | .dispatching .leaving => .isFalse id

instance : DecidablePred Position.inBatches
  | .dispatching a => inferInstanceAs (Decidable a.inBatches)
  | .away | .offered | .recovering => .isFalse id

theorem Position.not_inBatches_of_idle
    {o : Position} (h : o.idle) :
    ¬ o.inBatches := by
  cases o with
  | dispatching a =>
      exact h.elim
  | _ =>
      exact id

theorem Activity.not_inBatches_of_isHandler
    {a : Activity} (h : a.isHandler) :
    ¬ a.inBatches := by
  cases a <;> simp_all [isHandler, inBatches]

theorem Position.not_inBatches_of_idle_or_recovering
    {o : Position} (h : o = .recovering ∨ o.idle) :
    ¬ o.inBatches := by
  rcases h with rfl | h
  · exact id
  · exact not_inBatches_of_idle h

/-- A process that delivers a batch of `p` is in the batches of `p`. -/
theorem inBatches_of_delivers
    {P : Type} [DecidableEq P] {p : P} {pc : Pc P}
    (h : pc.delivers p) :
    (pc.position p).inBatches := by
  cases pc with
  | dispatch q snap st todo =>
      obtain ⟨rfl, hst⟩ := h
      simp only [Pc.position, if_true, Position.inBatches]
      cases st with
      | loop k r bl lpc =>
          cases lpc with
          | commit v =>
              trivial
          | write v rows res =>
              trivial
          | _ =>
              exact hst.elim
      | _ =>
          exact hst.elim
  | _ =>
      exact h.elim

/-- While the pipeline is paused, no process is in its batches. -/
def View.Stopped {ι : Type} (v : View ι) : Prop :=
  v.status = .PAUSED → ∀ i, ¬ (v.position i).inBatches

section Abstract

variable {ι : Type} [DecidableEq ι]

/-- What one process may do without breaking `Stopped`. -/
theorem Move.stopped
    {s s' : PipelineStatus} {o o' : Position}
    (h : Move s o s' o')
    (hstart : o = .dispatching .starting → s ≠ .PAUSED)
    (hbefore : s = .PAUSED → ¬ o.inBatches)
    (hafter : s' = .PAUSED) :
    ¬ o'.inBatches ∧ (s = .PAUSED ∨ (s = .PAUSE_REQUESTED ∧ o.appliesPause)) := by
  cases h with
  | elsewhere _ _ ho' =>
      exact ⟨Position.not_inBatches_of_idle ho', Or.inl hafter⟩
  | claim _ =>
      cases hafter
  | claimLost _ _ =>
      cases hafter
  | applyPause ho' =>
      exact ⟨Position.not_inBatches_of_idle ho', Or.inr ⟨rfl, trivial⟩⟩
  | lookUp _ ho' =>
      exact ⟨Position.not_inBatches_of_idle_or_recovering ho', Or.inl hafter⟩
  | recover _ =>
      cases hafter
  | leave _ ho' =>
      exact ⟨Position.not_inBatches_of_idle ho', Or.inl hafter⟩
  | inside hmoves =>
      cases hmoves with
      | fault _ _ ha' =>
          exact ⟨Activity.not_inBatches_of_isHandler ha', Or.inl hafter⟩
      | «begin» _ =>
          exact absurd hafter (hstart rfl)
      | work _ =>
          exact absurd trivial (hbefore hafter)
      | batch _ =>
          exact absurd trivial (hbefore hafter)
      | goOn _ =>
          exact absurd trivial (hbefore hafter)
      | pause s ha' =>
          refine ⟨?_, ?_⟩
          · rcases ha' with rfl | ha'
            · exact id
            · exact Activity.not_inBatches_of_isHandler ha'
          · cases s <;> simp [moveStatus, Position.appliesPause] at hafter ⊢
      | idle s _ ha' =>
          refine ⟨Activity.not_inBatches_of_isHandler ha', ?_⟩
          cases s <;> simp [moveStatus] at hafter ⊢
      | fail s ha' =>
          refine ⟨Activity.not_inBatches_of_isHandler ha', ?_⟩
          cases s <;> simp [moveStatus] at hafter ⊢
      | _ =>
          exact ⟨id, Or.inl hafter⟩

theorem View.Stopped.step
    {v v' : View ι} {e : ViewEvent ι}
    (hv : v.Stopped) (h : View.Step v e v')
    (hpause : ∀ i, e = .runner i → (v.position i).appliesPause →
      v.status = .PAUSE_REQUESTED → v'.status = .PAUSED →
        ∀ j, j ≠ i → ¬ (v.position j).inBatches)
    (hstart : ∀ i, e = .runner i → v.position i = .dispatching .starting →
      v.status ≠ .PAUSED) :
    v'.Stopped := by
  cases h with
  | run =>
      intro hs i
      refine hv ?_ i
      revert hs
      simp only [moveStatus]
      split_ifs <;> simp
  | pause =>
      intro hs i
      refine hv ?_ i
      revert hs
      simp only [moveStatus]
      split_ifs <;> simp
  | other =>
      exact hv
  | kill i =>
      intro hs j
      by_cases hji : j = i
      · subst hji
        simp [Position.inBatches]
      · rw [View.position_move_of_ne _ _ _ hji]
        exact hv hs j
  | spawn i _ =>
      intro hs j
      by_cases hji : j = i
      · subst hji
        simp [Position.inBatches]
      · rw [View.position_move_of_ne _ _ _ hji]
        exact hv hs j
  | runner i hmove =>
      intro hs j
      obtain ⟨hself, hwhy⟩ := hmove.stopped (hstart i rfl) (fun hst => hv hst i) hs
      by_cases hji : j = i
      · subst hji
        simpa using hself
      · rw [View.position_move_of_ne _ _ _ hji]
        rcases hwhy with hst | ⟨hst, happ⟩
        · exact hv hst j
        · exact hpause i rfl happ hst hs j hji

end Abstract

section PausedMeansStopped

variable {ι P : Type} [DecidableEq ι] [DecidableEq P]

omit [DecidableEq P] in
theorem eq_of_delivers_of_executing
    {p q : P} {pc : Pc P}
    (hdel : pc.delivers q) (hexec : pc.executing p) :
    q = p := by
  cases pc with
  | dispatch r snap st todo =>
      exact hdel.1.symm.trans hexec
  | _ =>
      exact hexec.elim

/-- At a moment when `p` is `PAUSED`, no step of a process that executes `p` commits sink
rows or a checkpoint. -/
def PausedMeansStopped (w : World) (p : P) (s : Sys ι P) : Prop :=
  s.db.status p = .PAUSED → ∀ i c s', (s.procs i).pc.executing p →
    s.step w (.runner i c) = some s' → s'.db.store = s.db.store

/--
The event turns `p` to `PAUSED` only while no other process is in the batches of
`p`, and starts no attempt at `p` while `p` is paused.
-/
def PausesBetweenBatches (p : P) (s : Sys ι P) : Event ι P → Prop
  | .runner i c =>
      (((s.procs i).pc.position p).appliesPause → s.db.status p = .PAUSE_REQUESTED →
        c.commits → ∀ j, j ≠ i → ¬ ((s.procs j).pc.position p).inBatches) ∧
      ((s.procs i).pc.position p = .dispatching .starting → s.db.status p ≠ .PAUSED)
  | _ => True

instance (n : ℕ) (p : P) (s : Sys (Fin n) P) : DecidablePred (PausesBetweenBatches p s)
  | .runner i c => inferInstanceAs (Decidable
      ((((s.procs i).pc.position p).appliesPause → s.db.status p = .PAUSE_REQUESTED →
          c.commits → ∀ j, j ≠ i → ¬ ((s.procs j).pc.position p).inBatches) ∧
        ((s.procs i).pc.position p = .dispatching .starting → s.db.status p ≠ .PAUSED)))
  | .run _ | .pause _ | .patch _ _ | .source _ | .kill _ | .spawn _ => .isTrue trivial

/-- A step after which a pipeline is no longer `PAUSE_REQUESTED` has committed. -/
theorem commits_of_paused
    {w : World} {p : P} {s s' : Sys ι P} {i : ι} {c : Choice}
    (h : s.step w (.runner i c) = some s') (hst : s.db.status p = .PAUSE_REQUESTED)
    (hpaused : s'.db.status p = .PAUSED) :
    c.commits := by
  obtain ⟨db, pr, hproc, rfl⟩ := Sys.step_runner_iff.mp h
  by_contra hfails
  have hsame := procStep_status hproc p
  rw [if_neg hfails, hst] at hsame
  rw [hsame] at hpaused
  cases hpaused

/-- **Paused means stopped**, on every run that applies pauses between batches and starts
no attempt at a paused pipeline. -/
theorem paused_means_stopped_of_pauses_between_batches
    {w : World} {p : P} {s : Sys ι P}
    (h : Reach (Sys.step w) Sys.Resting (PausesBetweenBatches p) s) :
    PausedMeansStopped w p s := by
  have hinv : (∀ i, (s.procs i).Clean) ∧ (s.view p).Stopped := by
    refine h.invariant (I := fun s => (∀ i, (s.procs i).Clean) ∧ (s.view p).Stopped) ?_ ?_
    · intro s hs
      refine ⟨fun i => clean_of_resting (hs i).1 (hs i).2, fun _ i => ?_⟩
      exact Position.not_inBatches_of_idle_or_recovering (position_of_resting p (hs i).1)
    · rintro s e s' ⟨hclean, hstop⟩ hallow hstep
      refine ⟨clean_step hstep hclean, hstop.step (step_view hstep p) ?_ ?_⟩
      · intro i he happ hst hpaused j hji
        obtain ⟨c, rfl⟩ := (view_eq_runner_iff p e i).mp he
        exact hallow.1 happ hst (commits_of_paused hstep hst hpaused) j hji
      · intro i he hpos
        obtain ⟨c, rfl⟩ := (view_eq_runner_iff p e i).mp he
        exact hallow.2 hpos
  obtain ⟨hclean, hstop⟩ := hinv
  intro hpaused i c s' hexec hstep
  obtain ⟨db, pr, hproc, rfl⟩ := Sys.step_runner_iff.mp hstep
  rcases (procStep_session hproc (hclean i)).2 with ⟨q, hdel⟩ | hstore
  · have hq : q = p := eq_of_delivers_of_executing hdel hexec
    subst hq
    exact absurd (inBatches_of_delivers hdel) (hstop hpaused i)
  · exact hstore

/-- One runner that pauses between two batches of its run. -/
theorem paused_means_stopped_single_pause :
    ∃ s : Sys (Fin 2) Unit, s.db.status () = .PAUSED ∧ s.db.store.sink filmCell ≠ none ∧
      PausedMeansStopped World.plain () s := by
  have hrun : ∃ s : Sys (Fin 2) Unit,
      Reach (Sys.step World.plain) Sys.Resting (PausesBetweenBatches ()) s ∧
      s.db.status () = .PAUSED ∧ s.db.store.sink filmCell ≠ none :=
    Reach.exists_of_replay
      (Sys.polling (Db.single (filmPipeline .full 2 .RUN_REQUESTED) [filmExample]))
      (List.replicate 9 (.runner 0 .ok) ++ [.pause ()] ++ List.replicate 4 (.runner 0 .ok))
      (fun _ => ⟨trivial, rfl⟩) (by decide)
  obtain ⟨s, hreach, hstatus, hsink⟩ := hrun
  exact ⟨s, hstatus, hsink, paused_means_stopped_of_pauses_between_batches hreach⟩

/-- The tick of a second runner pauses the pipeline in the middle of a batch. -/
theorem batch_committed_while_paused :
    ¬ ∀ s : Sys (Fin 2) Unit,
        Reach (Sys.step World.plain) Sys.Resting (fun _ e => e.undisturbed) s →
          PausedMeansStopped World.plain () s := by
  intro hall
  have hrun : ∃ s : Sys (Fin 2) Unit,
      Reach (Sys.step World.plain) Sys.Resting (fun _ e => e.undisturbed) s ∧
      s.db.status () = .PAUSED ∧ (s.procs 0).pc.executing () ∧
      (s.step World.plain (.runner 0 .ok)).any (fun s' =>
        decide (s'.db.store.sink filmCell ≠ s.db.store.sink filmCell)) = true :=
    Reach.exists_of_replay
      (Sys.polling (Db.single (filmPipeline .full 2 .RUN_REQUESTED) [filmExample]))
      (List.replicate 10 (.runner 0 .ok) ++ [.pause ()] ++ List.replicate 2 (.runner 1 .ok))
      (fun _ => ⟨trivial, rfl⟩) (by decide)
  obtain ⟨s, hreach, hpaused, hexec, hany⟩ := hrun
  obtain ⟨s', hstep, hsink⟩ := (Option.any_eq_true _ _).mp hany
  have hstore := hall s hreach hpaused 0 .ok s' hexec hstep
  exact of_decide_eq_true hsink (by rw [hstore])

end PausedMeansStopped

end EtlPlatform
