import EtlPlatform.Library.RunAccounts
import EtlPlatform.Model.Deployment
import EtlPlatform.Proofs.StatusStatements

/-!
# Accounts of the requests

Every status of a pipeline keeps an account over a run: what entered it and
what was there at the start is what left it and what is there at the end.  With
the seven statements that move a status this says what becomes of a request.

* An accepted run request, or the re-queueing of a stuck pipeline, is claimed
  once, or taken back by a pause request, or still waits.
* An accepted pause request is applied once, or taken back by a run request, or
  given up by a dispatch that fails, or still waits.

Nothing is lost and nothing is claimed twice, in any order of requests, ticks,
crashes and recoveries.
-/

namespace EtlPlatform

open Library

section Accounts

variable {ι P : Type} [DecidableEq ι] [DecidableEq P]

/-- `1` if the pipeline has the status. -/
def holds (p : P) (a : PipelineStatus) (s : Sys ι P) : ℕ :=
  if s.db.status p = a then 1 else 0

/-- `1` if the event commits statement `x` for the pipeline, from one of the given
statuses, and the statement matches. -/
def moved (p : P) (x : StatusStatement) (origins : List PipelineStatus) (s : Sys ι P)
    (e : Event ι P) : ℕ :=
  if s.statement p e = some x ∧ s.db.status p ∈ origins ∧ s.db.status p ∈ x.allowed_from then 1
  else 0

/-- `1` if the event commits statement `x` for the pipeline and the statement matches. -/
def accepted (p : P) (x : StatusStatement) (s : Sys ι P) (e : Event ι P) : ℕ :=
  moved p x x.allowed_from s e

/-- One event, for the status `RUN_REQUESTED`. -/
theorem run_requests_balance
    {w : World} {s s' : Sys ι P} {e : Event ι P} (p : P)
    (h : s.step w e = some s') :
    holds p .RUN_REQUESTED s +
        (accepted p .request_run s e + accepted p .mark_run_requested_bulk s e) =
      accepted p .claim_run_requested s e + moved p .request_pause [.RUN_REQUESTED] s e +
        holds p .RUN_REQUESTED s' := by
  simp only [holds, accepted, moved, step_status h p]
  rcases s.statement p e with _ | x
  · cases s.db.status p <;> rfl
  · cases x <;> cases s.db.status p <;> rfl

/-- One event, for the status `PAUSE_REQUESTED`. -/
theorem pause_requests_balance
    {w : World} {s s' : Sys ι P} {e : Event ι P} (p : P)
    (h : s.step w e = some s') :
    holds p .PAUSE_REQUESTED s + accepted p .request_pause s e =
      accepted p .apply_pause_requested s e +
          (moved p .request_run [.PAUSE_REQUESTED] s e +
            moved p .fail_if_active [.PAUSE_REQUESTED] s e) +
        holds p .PAUSE_REQUESTED s' := by
  simp only [holds, accepted, moved, step_status h p]
  rcases s.statement p e with _ | x
  · cases s.db.status p <;> rfl
  · cases x <;> cases s.db.status p <;> rfl

/-- How often a run commits statement `x` for the pipeline on a status it allows. -/
def timesAccepted (w : World) (p : P) (x : StatusStatement) (s : Sys ι P)
    (es : List (Event ι P)) : ℕ :=
  cost (Sys.step w) (accepted p x) s es

/-- How often a run moves the pipeline from status `a` by statement `x`. -/
def timesMoved (w : World) (p : P) (x : StatusStatement) (a : PipelineStatus) (s : Sys ι P)
    (es : List (Event ι P)) : ℕ :=
  cost (Sys.step w) (moved p x [a]) s es

/-- **No run request is lost or claimed twice.**  Along every run, the run requests accepted
for a pipeline and its re-queueings, with the request that waits at the start, are the
claims of it, the requests a pause has taken back and the one that waits at the end. -/
theorem run_requests_accounted
    {w : World} {s s' : Sys ι P} {es : List (Event ι P)} (p : P)
    (h : exec (Sys.step w) s es = some s') :
    holds p .RUN_REQUESTED s + timesAccepted w p .request_run s es +
        timesAccepted w p .mark_run_requested_bulk s es =
      timesAccepted w p .claim_run_requested s es +
        timesMoved w p .request_pause .RUN_REQUESTED s es + holds p .RUN_REQUESTED s' := by
  have hbalance := (Path.of_exec h).balance (fun _ _ _ _ hs => run_requests_balance p hs)
  rw [cost_add, cost_add, ← Nat.add_assoc] at hbalance
  exact hbalance

/-- **No pause request is lost or applied twice.**  Along every run, the pause requests
accepted for a pipeline, with the one that waits at the start, are those that were applied,
those a run request has taken back, those a failing dispatch has given up and the one that
waits at the end. -/
theorem pause_requests_accounted
    {w : World} {s s' : Sys ι P} {es : List (Event ι P)} (p : P)
    (h : exec (Sys.step w) s es = some s') :
    holds p .PAUSE_REQUESTED s + timesAccepted w p .request_pause s es =
      timesAccepted w p .apply_pause_requested s es +
        timesMoved w p .request_run .PAUSE_REQUESTED s es +
        timesMoved w p .fail_if_active .PAUSE_REQUESTED s es + holds p .PAUSE_REQUESTED s' := by
  have hbalance := (Path.of_exec h).balance (fun _ _ _ _ hs => pause_requests_balance p hs)
  rw [cost_add, cost_add, ← Nat.add_assoc] at hbalance
  exact hbalance

end Accounts

/-- A polling runner in front of an idle film pipeline. -/
def filmIdle : Sys (Fin 1) Unit :=
  Sys.polling (Db.single (filmPipeline .full 2 .IDLE) [])

/-- A request that is taken back by a pause, and one that is claimed; the runner dies, and
its successor queues the pipeline again. -/
def requestedTwice : List (Event (Fin 1) Unit) :=
  [.run (), .pause (), .run (), .runner 0 .ok, .runner 0 .ok, .kill 0, .spawn 0,
    .runner 0 .ok, .runner 0 .ok]

theorem run_requests_accounted_requestedTwice :
    ∃ s', exec (Sys.step World.plain) filmIdle requestedTwice = some s' ∧
      holds () .RUN_REQUESTED filmIdle +
          timesAccepted World.plain () .request_run filmIdle requestedTwice +
          timesAccepted World.plain () .mark_run_requested_bulk filmIdle requestedTwice =
        timesAccepted World.plain () .claim_run_requested filmIdle requestedTwice +
          timesMoved World.plain () .request_pause .RUN_REQUESTED filmIdle requestedTwice +
          holds () .RUN_REQUESTED s' := by
  have hrun : (exec (Sys.step World.plain) filmIdle requestedTwice).isSome = true := by
    decide +kernel
  obtain ⟨s', hexec⟩ := Option.isSome_iff_exists.mp hrun
  exact ⟨s', hexec, run_requests_accounted () hexec⟩

theorem pause_requests_accounted_requestedTwice :
    ∃ s', exec (Sys.step World.plain) filmIdle requestedTwice = some s' ∧
      holds () .PAUSE_REQUESTED filmIdle +
          timesAccepted World.plain () .request_pause filmIdle requestedTwice =
        timesAccepted World.plain () .apply_pause_requested filmIdle requestedTwice +
          timesMoved World.plain () .request_run .PAUSE_REQUESTED filmIdle requestedTwice +
          timesMoved World.plain () .fail_if_active .PAUSE_REQUESTED filmIdle requestedTwice +
          holds () .PAUSE_REQUESTED s' := by
  have hrun : (exec (Sys.step World.plain) filmIdle requestedTwice).isSome = true := by
    decide +kernel
  obtain ⟨s', hexec⟩ := Option.isSome_iff_exists.mp hrun
  exact ⟨s', hexec, pause_requests_accounted () hexec⟩

end EtlPlatform
