import EtlPlatform.Proofs.StatusProtocol

/-!
# One pipeline as the status protocol sees it

The abstract model of the platform for a single pipeline: its status and the
position of every runner process.  A step of it is an API request, the death or
the start of a process, or a `Move` of one process.

`step_view` is the refinement: every event of the platform is a step of this
model, for each pipeline.  `View` is small enough for invariants to be checked
by a case split over eight kinds of step.
-/

namespace EtlPlatform

/-- Statuses from which `request_run` is accepted. -/
def runAccepted : List PipelineStatus :=
  [.IDLE, .PAUSED, .PAUSE_REQUESTED]

/-- Statuses from which `request_pause` is accepted. -/
def pauseAccepted : List PipelineStatus :=
  [.RUNNING, .RUN_REQUESTED, .IDLE]

/-- The status of a pipeline and where the runner processes stand. -/
structure View (ι : Type) where
  status : PipelineStatus
  position : ι → Position

/-- What an event of the platform is for one pipeline. -/
inductive ViewEvent (ι : Type) where
  | run
  | pause
  /-- a request for another pipeline, a change of the configuration or of the source -/
  | other
  | kill (i : ι)
  | spawn (i : ι)
  | runner (i : ι)

section View

variable {ι P : Type} [DecidableEq ι]

/-- The status becomes `s` and process `i` moves to `o`. -/
def View.move (v : View ι) (i : ι) (s : PipelineStatus) (o : Position) : View ι where
  status := s
  position := Function.update v.position i o

@[simp] theorem View.status_move
    (v : View ι) (i : ι) (s : PipelineStatus) (o : Position) :
    (v.move i s o).status = s := by
  rfl

@[simp] theorem View.position_move_self
    (v : View ι) (i : ι) (s : PipelineStatus) (o : Position) :
    (v.move i s o).position i = o := by
  simp [View.move]

theorem View.position_move_of_ne
    (v : View ι) (s : PipelineStatus) (o : Position) {i j : ι}
    (h : j ≠ i) :
    (v.move i s o).position j = v.position j := by
  simp [View.move, h]

/-- Steps of the abstract model. -/
inductive View.Step : View ι → ViewEvent ι → View ι → Prop
  | run (v : View ι) :
      Step v .run { v with status := moveStatus runAccepted .RUN_REQUESTED v.status }
  | pause (v : View ι) :
      Step v .pause { v with status := moveStatus pauseAccepted .PAUSE_REQUESTED v.status }
  | other (v : View ι) :
      Step v .other v
  | kill (v : View ι) (i : ι) :
      Step v (.kill i) (v.move i v.status .away)
  | spawn (v : View ι) (i : ι) :
      (v.position i).idle →
      Step v (.spawn i) (v.move i v.status .recovering)
  | runner (v : View ι) (i : ι) {s : PipelineStatus} {o : Position} :
      Move v.status (v.position i) s o →
      Step v (.runner i) (v.move i s o)

/-- The abstract state of `p`. -/
def Sys.view [DecidableEq P] (s : Sys ι P) (p : P) : View ι where
  status := s.db.status p
  position := fun i => (s.procs i).pc.position p

/-- The abstract event of `p`. -/
def Event.view [DecidableEq P] (p : P) : Event ι P → ViewEvent ι
  | .run q => if q = p then .run else .other
  | .pause q => if q = p then .pause else .other
  | .patch _ _ => .other
  | .source _ => .other
  | .kill i => .kill i
  | .spawn i => .spawn i
  | .runner i _ => .runner i

variable [DecidableEq P]

omit [DecidableEq ι] in
theorem view_eq_run_iff
    (p : P) (e : Event ι P) :
    e.view p = .run ↔ e = .run p := by
  cases e with
  | run q =>
      by_cases hq : q = p <;> simp [Event.view, hq]
  | pause q =>
      by_cases hq : q = p <;> simp [Event.view, hq]
  | _ =>
      simp [Event.view]

omit [DecidableEq ι] in
theorem view_eq_spawn_iff
    (p : P) (e : Event ι P) (i : ι) :
    e.view p = .spawn i ↔ e = .spawn i := by
  cases e with
  | run q =>
      by_cases hq : q = p <;> simp [Event.view, hq]
  | pause q =>
      by_cases hq : q = p <;> simp [Event.view, hq]
  | _ =>
      simp [Event.view]

omit [DecidableEq ι] in
theorem view_eq_runner_iff
    (p : P) (e : Event ι P) (i : ι) :
    e.view p = .runner i ↔ ∃ c, e = .runner i c := by
  cases e with
  | run q =>
      by_cases hq : q = p <;> simp [Event.view, hq]
  | pause q =>
      by_cases hq : q = p <;> simp [Event.view, hq]
  | _ =>
      simp [Event.view]

/-- Replacing the database and one process moves that process. -/
theorem view_update
    (s : Sys ι P) (db : Db P) (i : ι) (pr : Proc P) (p : P) :
    Sys.view { db := db, procs := Function.update s.procs i pr } p =
      (s.view p).move i (db.status p) (pr.pc.position p) := by
  have hpos : (fun j => (Function.update s.procs i pr j).pc.position p) =
      Function.update (fun j => (s.procs j).pc.position p) i (pr.pc.position p) := by
    funext j
    by_cases hj : j = i
    · subst hj
      simp
    · simp [hj]
  simp only [Sys.view, View.move, hpos]

/-- A request changes the status of its own pipeline only. -/
theorem request_step
    {s : Sys ι P} {p q : P} {allowed : List PipelineStatus} {new : PipelineStatus}
    {e : ViewEvent ι}
    (hstep : View.Step (s.view p) e
      { s.view p with status := moveStatus allowed new (s.db.status p) }) :
    View.Step (s.view p) (if q = p then e else .other)
      (Sys.view { s with db := s.db.updateStatus allowed new q } p) := by
  have hview : Sys.view { s with db := s.db.updateStatus allowed new q } p =
      { s.view p with status := if p = q ∧ s.db.status q ∈ allowed then new
        else s.db.status p } := by
    simp [Sys.view, Db.status_updateStatus]
  rw [hview]
  by_cases hq : q = p
  · subst hq
    simpa [moveStatus] using hstep
  · rw [if_neg hq, if_neg (fun h => hq h.1.symm)]
    exact .other _

/-- **Refinement.**  Every event of the platform is a step of the abstract model. -/
theorem step_view
    {w : World} {s s' : Sys ι P} {e : Event ι P}
    (h : s.step w e = some s') (p : P) :
    View.Step (s.view p) (e.view p) (s'.view p) := by
  cases e with
  | run q =>
      obtain rfl := Option.some.inj h
      rw [Db.run_pipeline_eq]
      exact request_step (.run _)
  | pause q =>
      obtain rfl := Option.some.inj h
      rw [Db.pause_pipeline_eq]
      exact request_step (.pause _)
  | patch q row =>
      obtain rfl := Option.some.inj h
      have hview : Sys.view { s with db := s.db.patchConfig q row } p = s.view p := by
        simp [Sys.view]
      rw [hview]
      exact .other _
  | source src =>
      obtain rfl := Option.some.inj h
      exact .other _
  | kill i =>
      obtain rfl := Option.some.inj h
      have hview : (s.setProc i ⟨.down, []⟩).view p = (s.view p).move i (s.db.status p) .away :=
        view_update s s.db i ⟨.down, []⟩ p
      rw [hview]
      exact .kill _ i
  | spawn i =>
      obtain ⟨hpc, rfl⟩ := Sys.step_spawn_iff.mp h
      have hview : (s.setProc i ⟨.recovery, []⟩).view p =
          (s.view p).move i (s.db.status p) .recovering :=
        view_update s s.db i ⟨.recovery, []⟩ p
      rw [hview]
      exact .spawn _ i (by simp [Sys.view, hpc, Pc.position, Position.idle])
  | runner i c =>
      obtain ⟨db, pr, hproc, rfl⟩ := Sys.step_runner_iff.mp h
      rw [view_update]
      exact .runner _ i (procStep_move hproc p)

end View

end EtlPlatform
