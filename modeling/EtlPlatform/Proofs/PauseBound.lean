import EtlPlatform.Model.Deployment
import EtlPlatform.Proofs.StatusView

/-!
# How long a pause can wait

With a single runner process, at most one batch is committed between the
acceptance of a pause request and the moment the status leaves
`PAUSE_REQUESTED`.

The argument is a potential: the runner holds one unit while it may still
commit a batch without looking at the status.  The commit pays the unit, and
everything that could earn it back passes the pause check, which finds the
request, or a claim, which the request forbids.
-/

namespace EtlPlatform

open Library

/-- Batches the runner may still commit before it looks at the status. -/
def Position.credit : Position → ℕ
  | .dispatching .checking | .dispatching .pausing | .dispatching .leaving => 0
  | .dispatching _ => 1
  | _ => 0

theorem Position.credit_of_idle
    {o : Position} (h : o.idle) :
    o.credit = 0 := by
  cases o with
  | dispatching a =>
      exact h.elim
  | _ =>
      rfl

theorem Position.credit_le_one
    (o : Position) :
    o.credit ≤ 1 := by
  cases o with
  | dispatching a =>
      cases a <;> simp [credit]
  | _ =>
      simp [credit]

/-- The process is about to issue a statement of the pause check of `p`. -/
def Position.inPauseCheck (o : Position) : Prop :=
  o = .dispatching .checking ∨ o = .dispatching .pausing

instance : DecidablePred Position.inPauseCheck :=
  fun _ => inferInstanceAs (Decidable (_ ∨ _))

theorem Position.not_inPauseCheck_of_idle
    {o : Position} (h : o.idle) :
    ¬ o.inPauseCheck := by
  rintro (rfl | rfl) <;> exact h

/-- Apart from the pause check, no step earns credit while a pause is requested. -/
theorem Move.credit_le
    {s' : PipelineStatus} {o o' : Position}
    (h : Move .PAUSE_REQUESTED o s' o')
    (hcheck : ¬ o.inPauseCheck)
    (hs' : s' = .PAUSE_REQUESTED) :
    o'.credit ≤ o.credit := by
  have hle := o'.credit_le_one
  cases h with
  | elsewhere _ _ ho' =>
      simp [Position.credit_of_idle ho']
  | applyPause ho' =>
      simp [Position.credit_of_idle ho']
  | lookUp _ ho' =>
      rcases ho' with rfl | ho'
      · decide
      · simp [Position.credit_of_idle ho']
  | leave _ ho' =>
      simp [Position.credit_of_idle ho']
  | @inside _ _ a a' hmoves =>
      cases hmoves with
      | goOn hne =>
          exact absurd rfl hne
      | notice =>
          exact absurd (Or.inl rfl) hcheck
      | pause _ _ =>
          exact absurd (Or.inr rfl) hcheck
      | fault _ hne _ =>
          cases a with
          | leaving =>
              exact absurd rfl hne
          | checking =>
              exact absurd (Or.inl rfl) hcheck
          | pausing =>
              exact absurd (Or.inr rfl) hcheck
          | _ =>
              exact hle
      | batch _ =>
          decide
      | _ =>
          exact hle

section Process

variable {P : Type} [DecidableEq P]

/-- The next statement commits a batch of `p`. -/
def Pc.atCommit (p : P) : Pc P → Bool
  | .dispatch q _ (.loop _ _ _ (.commit _)) _ => q = p
  | _ => false

/-- A commit of a batch, applied or not. -/
theorem procStep_atCommit
    {w : World} {db db' : Db P} {pr pr' : Proc P} {c : Choice} {p : P}
    (h : procStep w db pr c = some (db', pr'))
    (hpc : pr.pc.atCommit p = true) :
    pr.pc.position p = .dispatching .looping ∧
      (pr'.pc.position p = .dispatching .checking ∨
        pr'.pc.position p = .dispatching .leaving ∨ ∃ exc, c = .raise exc) := by
  obtain ⟨pc, pending⟩ := pr
  cases pc with
  | dispatch q snap st todo =>
      cases st with
      | loop k r bl lpc =>
          cases lpc with
          | commit v =>
              obtain rfl : q = p := by simpa [Pc.atCommit] using hpc
              refine ⟨by simp [Pc.position, Stage.activity, LoopPc.activity], ?_⟩
              rcases procStep_dispatch h with ⟨res, hst, -, -⟩ | ⟨a, hst, rfl, rfl⟩
              · cases hst
              · rcases answer_cases hst with ⟨-, rfl⟩ | ⟨exc, rfl, -⟩ | ⟨-, rfl⟩
                · exact Or.inl (by simp [Pc.position, Stage.activity, LoopPc.activity])
                · exact Or.inr (Or.inr ⟨exc, rfl⟩)
                · refine Or.inr (Or.inl ?_)
                  simp [Pc.position, onExecuteExc, onDispatchExc, Stage.activity]
          | _ =>
              simp [Pc.atCommit] at hpc
      | _ =>
          simp [Pc.atCommit] at hpc
  | _ =>
      simp [Pc.atCommit] at hpc

/-- The two statements of the pause check, when they succeed. -/
theorem procStep_pauseCheck
    {w : World} {db db' : Db P} {pr pr' : Proc P} {p : P}
    (h : procStep w db pr .ok = some (db', pr'))
    (hpos : (pr.pc.position p).inPauseCheck)
    (hs : db.status p = .PAUSE_REQUESTED) :
    (db'.status p = .PAUSE_REQUESTED → pr'.pc.position p = .dispatching .pausing) := by
  obtain ⟨pc, pending⟩ := pr
  cases pc with
  | dispatch q snap st todo =>
      by_cases hq : q = p
      · subst hq
        simp only [Position.inPauseCheck, Pc.position, if_true, Position.dispatching.injEq] at hpos
        cases st with
        | loop k r bl lpc =>
            cases lpc with
            | pauseRead v =>
                rcases procStep_dispatch h with ⟨res, hst, -, -⟩ | ⟨a, hst, rfl, rfl⟩
                · cases hst
                · obtain rfl := Option.some.inj hst
                  simp [hs, Pc.position, Stage.activity, LoopPc.activity]
            | pauseApply v =>
                rcases procStep_dispatch h with ⟨res, hst, -, -⟩ | ⟨a, hst, rfl, rfl⟩
                · cases hst
                · have hmem : db.status q ∈ [PipelineStatus.PAUSE_REQUESTED] := by simp [hs]
                  simp only [stageStep, loopStep, answerUpdate, if_pos hmem, answerCommit,
                    answer, Option.some.injEq] at hst
                  subst hst
                  simp [Db.apply_pause_requested, Db.status_updateStatus, hs]
            | _ =>
                simp [Stage.activity, LoopPc.activity] at hpos
        | _ =>
            simp [Stage.activity] at hpos
      · simp [Position.inPauseCheck, Pc.position, hq] at hpos
  | tick todo =>
      exact absurd hpos (Position.not_inPauseCheck_of_idle (position_tick_idle p todo))
  | _ =>
      simp [Position.inPauseCheck, Pc.position] at hpos

end Process

section PauseBound

variable {ι P : Type} [DecidableEq ι] [DecidableEq P]

/-- `1` if the event commits a batch of `p`, which a commit does also when only its answer
is lost. -/
def batchCommits (p : P) (s : Sys ι P) : Event ι P → ℕ
  | .runner i .ok | .runner i .lost => if (s.procs i).pc.atCommit p then 1 else 0
  | _ => 0

/-- The status of `p` is still `PAUSE_REQUESTED`, and the statements of its pause check
do not fail. -/
def PauseAwaited (p : P) (s : Sys ι P) : Event ι P → Prop
  | .runner i c =>
      s.db.status p = .PAUSE_REQUESTED ∧ (((s.procs i).pc.position p).inPauseCheck → c = .ok)
  | _ => s.db.status p = .PAUSE_REQUESTED

instance (p : P) (s : Sys ι P) : DecidablePred (PauseAwaited p s)
  | .runner i c => inferInstanceAs (Decidable
      (s.db.status p = .PAUSE_REQUESTED ∧ (((s.procs i).pc.position p).inPauseCheck → c = .ok)))
  | .run _ | .pause _ | .patch _ _ | .source _ | .kill _ | .spawn _ =>
      inferInstanceAs (Decidable (s.db.status p = .PAUSE_REQUESTED))

/-- Credit the single runner holds while the pause is awaited. -/
def pauseCredit (p : P) (s : Sys Unit P) : ℕ :=
  if s.db.status p = .PAUSE_REQUESTED then ((s.procs ()).pc.position p).credit else 0

/-- A step of the runner pays for the batch it commits. -/
theorem runner_pays
    {w : World} {s s' : Sys Unit P} {p : P} {c : Choice}
    (hstay : PauseAwaited p s (.runner () c))
    (hstep : s.step w (.runner () c) = some s') :
    batchCommits p s (.runner () c) + pauseCredit p s' ≤ pauseCredit p s := by
  obtain ⟨hs, hcheck⟩ := hstay
  obtain ⟨db, pr, hproc, rfl⟩ := Sys.step_runner_iff.mp hstep
  simp only [pauseCredit, hs, if_true, Function.update_self]
  have hmove := procStep_move hproc p
  rw [hs] at hmove
  by_cases hcommit : (s.procs ()).pc.atCommit p = true
  · -- the commit takes the credit, unless it raises
    obtain ⟨hlooping, hnext⟩ := procStep_atCommit hproc hcommit
    rw [hlooping]
    rcases hnext with hnext | hnext | ⟨exc, rfl⟩
    · rw [hnext]
      cases c <;> simp [batchCommits, hcommit, Position.credit]
    · rw [hnext]
      cases c <;> simp [batchCommits, hcommit, Position.credit]
    · have hle := (pr.pc.position p).credit_le_one
      have hone : (Position.dispatching .looping).credit = 1 := rfl
      rw [hone]
      simp only [batchCommits, Nat.zero_add]
      split_ifs <;> omega
  · have hcost : batchCommits p s (.runner () c) = 0 := by
      cases c <;> simp [batchCommits, hcommit]
    rw [hcost, Nat.zero_add]
    split_ifs with hs'
    · by_cases hpos : ((s.procs ()).pc.position p).inPauseCheck
      · -- the pause check finds the request
        obtain rfl := hcheck hpos
        rw [procStep_pauseCheck hproc hpos hs hs']
        exact Nat.zero_le _
      · exact hmove.credit_le hpos hs'
    · exact Nat.zero_le _

/-- Every event pays for the batch it commits. -/
theorem event_pays
    {w : World} {s s' : Sys Unit P} {p : P} {e : Event Unit P}
    (hstay : PauseAwaited p s e)
    (hstep : s.step w e = some s') :
    batchCommits p s e + pauseCredit p s' ≤ pauseCredit p s := by
  cases e with
  | runner i c =>
      exact runner_pays hstay hstep
  | kill i =>
      obtain rfl := Option.some.inj hstep
      simp [batchCommits, pauseCredit, Sys.setProc, Pc.position, Position.credit]
  | spawn i =>
      obtain ⟨-, rfl⟩ := Sys.step_spawn_iff.mp hstep
      simp [batchCommits, pauseCredit, Sys.setProc, Pc.position, Position.credit]
  | _ =>
      obtain rfl := Option.some.inj hstep
      have hs : s.db.status p = .PAUSE_REQUESTED := hstay
      simp only [batchCommits, pauseCredit, hs, if_true, Nat.zero_add]
      split_ifs
      · exact le_refl _
      · exact Nat.zero_le _

/-- **Bounded pause.**  From any state with a pause request, and as long as the status
stays `PAUSE_REQUESTED`, the runner commits at most one batch. -/
theorem at_most_one_batch_while_pause_requested
    {w : World} {s s' : Sys Unit P} {p : P} {es : List (Event Unit P)}
    (h : Path (Sys.step w) (fun s e _ => PauseAwaited p s e) s es s') :
    cost (Sys.step w) (batchCommits p) s es ≤ 1 := by
  have hpay : cost (Sys.step w) (batchCommits p) s es ≤ pauseCredit p s :=
    h.cost_le (fun s e s' hstay hstep => event_pays hstay hstep)
  have hcredit : pauseCredit p s ≤ 1 := by
    unfold pauseCredit
    split_ifs
    · exact Position.credit_le_one _
    · exact Nat.zero_le _
  exact hpay.trans hcredit

/-- A pause that lands while a batch is fetched waits for that batch and no other. -/
theorem at_most_one_batch_pause_during_fetch :
    ∃ s : Sys Unit Unit, s.db.status () = .PAUSE_REQUESTED ∧
      cost (Sys.step World.plain) (batchCommits ()) s (List.replicate 6 (.runner () .ok)) = 1 ∧
      cost (Sys.step World.plain) (batchCommits ()) s (List.replicate 6 (.runner () .ok)) ≤ 1 := by
  have hrun : ∃ s s' : Sys Unit Unit, s.db.status () = .PAUSE_REQUESTED ∧
      cost (Sys.step World.plain) (batchCommits ()) s (List.replicate 6 (.runner () .ok)) = 1 ∧
      exec (guarded (Sys.step World.plain) (PauseAwaited ())) s
        (List.replicate 6 (.runner () .ok)) = some s' := by
    have hfetch : (exec (Sys.step World.plain)
        (Sys.polling (Db.single (filmPipeline .full 2 .RUN_REQUESTED) [filmExample]))
        (List.replicate 6 (.runner () .ok) ++ [.pause ()])).any (fun s =>
          decide (s.db.status () = .PAUSE_REQUESTED ∧
            cost (Sys.step World.plain) (batchCommits ()) s
              (List.replicate 6 (.runner () .ok)) = 1) &&
            (exec (guarded (Sys.step World.plain) (PauseAwaited ())) s
              (List.replicate 6 (.runner () .ok))).isSome) = true := by
      decide
    obtain ⟨s, -, hs⟩ := (Option.any_eq_true _ _).mp hfetch
    obtain ⟨hcost, hsome⟩ := Bool.and_eq_true_iff.mp hs
    obtain ⟨s', hexec⟩ := Option.isSome_iff_exists.mp hsome
    exact ⟨s, s', (of_decide_eq_true hcost).1, (of_decide_eq_true hcost).2, hexec⟩
  obtain ⟨s, s', hstatus, hcost, hexec⟩ := hrun
  exact ⟨s, hstatus, hcost, at_most_one_batch_while_pause_requested (Path.of_exec_guarded hexec)⟩

end PauseBound

end EtlPlatform
