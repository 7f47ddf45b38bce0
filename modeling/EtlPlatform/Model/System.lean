import EtlPlatform.Library.LabelledRun
import EtlPlatform.Model.Process

/-!
# The platform as a whole

Any number of runner processes, the API and the environment act on one
database.  An event is one request of the API, one change of the source tables,
the death or the start of a process, or one step of a process with the answer
it gets; every interleaving of events is a run.
-/

namespace EtlPlatform

/-- The database and the runner processes. -/
structure Sys (ι P : Type) where
  db : Db P
  procs : ι → Proc P

inductive Event (ι P : Type) where
  /-- `POST /pipelines/{p}/run` -/
  | run (p : P)
  /-- `POST /pipelines/{p}/pause` -/
  | pause (p : P)
  /-- a committed `PATCH /pipelines/{p}` -/
  | patch (p : P) (row : EtlPipeline)
  /-- the source tables change -/
  | source (src : Source)
  /-- the process ends, by a signal, a crash or an exception that no handler catches -/
  | kill (i : ι)
  | spawn (i : ι)
  /-- one step of a runner -/
  | runner (i : ι) (c : Choice)

/-- The event starts a process. -/
def Event.starts {ι P : Type} : Event ι P → Prop
  | .spawn _ => True
  | _ => False

/-- The event changes the configuration or the source. -/
def Event.reconfigures {ι P : Type} : Event ι P → Prop
  | .patch _ _ | .source _ => True
  | _ => False

instance {ι P : Type} : DecidablePred (Event.reconfigures (ι := ι) (P := P))
  | .patch _ _ | .source _ => .isTrue trivial
  | .run _ | .pause _ | .kill _ | .spawn _ | .runner _ _ => .isFalse id

/-- Requests of the API and steps of live processes: no process starts or dies, no
statement ends in a disconnect, and source and configuration stay. -/
def Event.undisturbed {ι P : Type} : Event ι P → Prop
  | .run _ | .pause _ => True
  | .runner _ .ok => True
  | .runner _ (.raise exc) => is_db_disconnect exc = false
  | .runner _ (.partialBulk _ exc) => is_db_disconnect exc = false
  | _ => False

instance {ι P : Type} : DecidablePred (Event.starts (ι := ι) (P := P))
  | .spawn _ => .isTrue trivial
  | .run _ | .pause _ | .patch _ _ | .source _ | .kill _ | .runner _ _ => .isFalse id

instance {ι P : Type} : DecidablePred (Event.undisturbed (ι := ι) (P := P))
  | .run _ | .pause _ | .runner _ .ok => .isTrue trivial
  | .runner _ (.raise exc) => inferInstanceAs (Decidable (is_db_disconnect exc = false))
  | .runner _ (.partialBulk _ exc) => inferInstanceAs (Decidable (is_db_disconnect exc = false))
  | .patch _ _ | .source _ | .kill _ | .spawn _ | .runner _ .lost => .isFalse id

section System

variable {ι P : Type} [DecidableEq ι] [DecidableEq P]

namespace Sys

/-- Replace one process. -/
def setProc (s : Sys ι P) (i : ι) (pr : Proc P) : Sys ι P :=
  { s with procs := Function.update s.procs i pr }

/-- One event. -/
def step (w : World) (s : Sys ι P) : Event ι P → Option (Sys ι P)
  | .run p => some { s with db := s.db.run_pipeline p }
  | .pause p => some { s with db := s.db.pause_pipeline p }
  | .patch p row => some { s with db := s.db.patchConfig p row }
  | .source src =>
      some { s with db := { s.db with store := { s.db.store with source := src } } }
  | .kill i => some (s.setProc i ⟨.down, []⟩)
  | .spawn i =>
      match (s.procs i).pc with
      | .down => some (s.setProc i ⟨.recovery, []⟩)
      | _ => none
  | .runner i c =>
      (procStep w s.db (s.procs i) c).map (fun r => { db := r.1, procs := Function.update s.procs i r.2 })

omit [DecidableEq P] in
@[simp] theorem setProc_db
    (s : Sys ι P) (i : ι) (pr : Proc P) :
    (s.setProc i pr).db = s.db := by
  rfl

/-- What a runner's event does: its process steps, the other processes stay. -/
theorem step_runner_iff
    {w : World} {s s' : Sys ι P} {i : ι} {c : Choice} :
    s.step w (.runner i c) = some s' ↔
      ∃ db pr, procStep w s.db (s.procs i) c = some (db, pr) ∧
        s' = { db := db, procs := Function.update s.procs i pr } := by
  simp only [step, Option.map_eq_some_iff, Prod.exists]
  constructor
  · rintro ⟨db, pr, h, rfl⟩
    exact ⟨db, pr, h, rfl⟩
  · rintro ⟨db, pr, h, rfl⟩
    exact ⟨db, pr, h, rfl⟩

/-- A process starts where none is running. -/
theorem step_spawn_iff
    {w : World} {s s' : Sys ι P} {i : ι} :
    s.step w (.spawn i) = some s' ↔
      (s.procs i).pc = .down ∧ s' = s.setProc i ⟨.recovery, []⟩ := by
  rw [step]
  cases (s.procs i).pc <;> simp [eq_comm]

end Sys

/-! ## What a process is doing -/

namespace Pc

/-- Not started, recovering, or between two ticks. -/
def resting : Pc P → Prop
  | .down | .recovery | .started | .polling => True
  | .recovering _ | .tick _ | .dispatch _ _ _ _ => False

/-- The dispatch of `p` is between its claim and its return. -/
def executing (p : P) : Pc P → Prop
  | .dispatch q _ _ _ => q = p
  | _ => False

instance (p : P) : DecidablePred (executing (P := P) p)
  | .dispatch q _ _ _ => inferInstanceAs (Decidable (q = p))
  | .down | .recovery | .recovering _ | .started | .polling | .tick _ =>
      inferInstanceAs (Decidable False)

end Pc

/-- No process is inside a tick or a recovery transaction, and no session is open. -/
def Sys.Resting (s : Sys ι P) : Prop :=
  ∀ i, (s.procs i).pc.resting ∧ (s.procs i).pending = []

end System

end EtlPlatform
