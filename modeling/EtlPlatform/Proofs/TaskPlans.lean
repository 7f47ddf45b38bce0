import EtlPlatform.Library.Failing
import EtlPlatform.Library.RankedList
import EtlPlatform.Model.Deployment

/-!
# What a tasks plan is

`validate_tasks_v1` sorts the tasks of a snapshot and checks them in their
order.  `V1Plan` says which snapshots it lets through without mentioning an
order: every rule of it quantifies over the tasks as they come.  The check
returns exactly on these, sorted; it does not look at the order the tasks come
in, is idempotent, and leaves nothing for the runners' own checks on the tasks
to find.
-/

namespace EtlPlatform

open Library

/-- The task stands first once the tasks are sorted. -/
def IsReader (tasks : List TaskSnapshot) (t : TaskSnapshot) : Prop :=
  ∀ t' ∈ tasks, t.order_index ≤ t'.order_index

/-- The task stands last once the tasks are sorted. -/
def IsFinal (tasks : List TaskSnapshot) (t : TaskSnapshot) : Prop :=
  ∀ t' ∈ tasks, t'.order_index ≤ t.order_index

/-- The tasks of the snapshot are a v1 plan. -/
structure V1Plan (p : PipelineSnapshot) : Prop where
  /-- no two tasks share an index -/
  distinct : (p.tasks.map TaskSnapshot.order_index).Nodup
  /-- no body is blank -/
  bodies : ∀ t ∈ p.tasks, PyText.strip t.body ≠ ""
  /-- the first task reads -/
  reader : ∀ t ∈ p.tasks, IsReader p.tasks t → t.task_type = "SQL"
  /-- the others transform -/
  transforms : ∀ t ∈ p.tasks, ¬ IsReader p.tasks t → t.task_type = "PYTHON"
  /-- only the last task overrides the target -/
  overrides : ∀ t ∈ p.tasks, ¬ IsFinal p.tasks t → t.target_table = none
  /-- where the plan writes to is allowed -/
  allowed : ∀ t ∈ p.tasks, IsFinal p.tasks t →
    is_allowed_target (targetOr t.target_table p.target_table) = true

section Order

variable {p : PipelineSnapshot} {tasks tasks' : List TaskSnapshot}

/-- The rules do not see the order of the tasks. -/
theorem V1Plan.of_perm
    (h : V1Plan { p with tasks := tasks }) (hperm : tasks'.Perm tasks) :
    V1Plan { p with tasks := tasks' } := by
  have hreader : ∀ t, IsReader tasks' t ↔ IsReader tasks t := by
    simp [IsReader, hperm.mem_iff]
  have hfinal : ∀ t, IsFinal tasks' t ↔ IsFinal tasks t := by
    simp [IsFinal, hperm.mem_iff]
  refine ⟨?_, ?_, ?_, ?_, ?_, ?_⟩
  · exact ((hperm.map TaskSnapshot.order_index).nodup_iff).mpr h.distinct
  · intro t ht
    exact h.bodies t (hperm.mem_iff.mp ht)
  · intro t ht hfirst
    exact h.reader t (hperm.mem_iff.mp ht) ((hreader t).mp hfirst)
  · intro t ht hnot
    exact h.transforms t (hperm.mem_iff.mp ht) (fun hfirst => hnot ((hreader t).mpr hfirst))
  · intro t ht hnot
    exact h.overrides t (hperm.mem_iff.mp ht) (fun hlast => hnot ((hfinal t).mpr hlast))
  · intro t ht hlast
    exact h.allowed t (hperm.mem_iff.mp ht) ((hfinal t).mp hlast)

/-- The tasks of the snapshot in the order of their indexes. -/
def tasksSorted (p : PipelineSnapshot) : List TaskSnapshot :=
  p.tasks.insertionSort (fun t t' => t.order_index ≤ t'.order_index)

theorem tasksSorted_perm
    (p : PipelineSnapshot) :
    (tasksSorted p).Perm p.tasks :=
  List.perm_insertionSort _ _

theorem v1Plan_sorted_iff :
    V1Plan { p with tasks := tasksSorted p } ↔ V1Plan p :=
  ⟨fun h => h.of_perm (tasksSorted_perm p).symm,
    fun h => V1Plan.of_perm (p := p) h (tasksSorted_perm p)⟩

end Order

section Rules

/-- What the loop of the check has looked at. -/
theorem checkTasks_eq_ok_iff
    {pid : String} {seen : List ℤ} {tasks : List TaskSnapshot} :
    checkTasks pid seen tasks = .ok () ↔
      (tasks.map TaskSnapshot.order_index).Nodup ∧
        (∀ t ∈ tasks, t.order_index ∉ seen) ∧
        ∀ t ∈ tasks, PyText.strip t.task_type ≠ "" ∧ PyText.strip t.body ≠ "" := by
  induction tasks generalizing seen with
  | nil =>
      simp [checkTasks]
  | cons t rest ih =>
      rw [checkTasks]
      split_ifs with hseen htype hbody
      · simp [hseen]
      · simp [htype]
      · simp [hbody]
      · simp only [ih, List.map_cons, List.nodup_cons, List.mem_map, List.forall_mem_cons]
        simp only [List.mem_cons, not_or]
        constructor
        · rintro ⟨hnodup, hfresh, hrest⟩
          refine ⟨⟨?_, hnodup⟩, ⟨hseen, fun t' ht' => (hfresh t' ht').2⟩, ⟨htype, hbody⟩, hrest⟩
          rintro ⟨t', ht', heq⟩
          exact (hfresh t' ht').1 heq
        · rintro ⟨⟨hnew, hnodup⟩, ⟨-, hfresh⟩, -, hrest⟩
          refine ⟨hnodup, fun t' ht' => ⟨fun heq => hnew ⟨t', ht', heq⟩, hfresh t' ht'⟩, hrest⟩

/-- The types the rules ask for are not blank. -/
theorem taskTypes_not_blank :
    PyText.strip "SQL" ≠ "" ∧ PyText.strip "PYTHON" ≠ "" := by
  decide

/-- The rules read along the sorted tasks, the way the source goes through them. -/
structure PlanInOrder
    (target : String) (first : TaskSnapshot) (rest : List TaskSnapshot) : Prop where
  distinct : ((first :: rest).map TaskSnapshot.order_index).Nodup
  bodies : ∀ t ∈ first :: rest, PyText.strip t.body ≠ ""
  reader : first.task_type = "SQL"
  transforms : ∀ t ∈ rest, t.task_type = "PYTHON"
  overrides : ∀ t ∈ (first :: rest).dropLast, t.target_table = none
  allowed : is_allowed_target
    (targetOr ((rest.getLast?).getD first).target_table target) = true

theorem find?_override_eq_none_iff
    {tasks : List TaskSnapshot} :
    tasks.find? (fun t => t.target_table.isSome) = none ↔ ∀ t ∈ tasks, t.target_table = none := by
  simp [List.find?_eq_none]

/-- The check returns on the plans, with their tasks sorted. -/
theorem validate_tasks_v1_sorted
    {p q : PipelineSnapshot} {first : TaskSnapshot} {rest : List TaskSnapshot}
    (hsorted : tasksSorted p = first :: rest) :
    validate_tasks_v1 p = .ok q ↔
      PlanInOrder p.target_table first rest ∧ q = { p with tasks := tasksSorted p } := by
  rw [tasksSorted] at hsorted ⊢
  simp only [validate_tasks_v1, hsorted, bind_eq_ok_iff, check_eq_ok_iff]
  constructor
  · rintro ⟨⟨⟩, hloop, hfirst, hrest, h⟩
    obtain ⟨hnodup, -, hfields⟩ := checkTasks_eq_ok_iff.mp hloop
    cases hfind : (first :: rest).dropLast.find? (fun t => t.target_table.isSome) with
    | some t =>
        rw [hfind] at h
        cases h
    | none =>
        rw [hfind, check_eq_ok_iff] at h
        obtain ⟨hallowed, h⟩ := h
        refine ⟨⟨hnodup, fun t ht => (hfields t ht).2, by simpa using hfirst,
          by simpa using hrest, find?_override_eq_none_iff.mp hfind, by simpa using hallowed⟩, ?_⟩
        exact (pure_eq_ok_iff.mp h).symm
  · rintro ⟨hplan, rfl⟩
    have htypes : ∀ t ∈ first :: rest, PyText.strip t.task_type ≠ "" := by
      intro t ht
      rcases List.mem_cons.mp ht with rfl | ht
      · exact hplan.reader ▸ taskTypes_not_blank.1
      · exact hplan.transforms t ht ▸ taskTypes_not_blank.2
    refine ⟨(), checkTasks_eq_ok_iff.mpr ⟨hplan.distinct, by simp, fun t ht =>
      ⟨htypes t ht, hplan.bodies t ht⟩⟩, by simpa using hplan.reader,
      by simpa using hplan.transforms, ?_⟩
    rw [find?_override_eq_none_iff.mpr hplan.overrides]
    exact check_eq_ok_iff.mpr ⟨by simpa using hplan.allowed, rfl⟩

/-- The last of the sorted tasks. -/
theorem last_of_sorted
    {first : TaskSnapshot} {rest : List TaskSnapshot} :
    (first :: rest).dropLast ++ [(rest.getLast?).getD first] = first :: rest := by
  have hlast : (first :: rest).getLast? = some ((rest.getLast?).getD first) := by
    rw [List.getLast?_cons]
  exact List.dropLast_append_getLast? _ hlast

/-- Both readings of the rules agree on sorted tasks. -/
theorem planInOrder_iff
    {p : PipelineSnapshot} {first : TaskSnapshot} {rest : List TaskSnapshot}
    (hsorted : tasksSorted p = first :: rest) :
    PlanInOrder p.target_table first rest ↔ V1Plan p := by
  have hdistinct : ((first :: rest).map TaskSnapshot.order_index).Nodup ↔
      (p.tasks.map TaskSnapshot.order_index).Nodup := by
    rw [← hsorted]
    exact ((tasksSorted_perm p).map _).nodup_iff
  rw [← v1Plan_sorted_iff, hsorted]
  -- once the indexes are distinct, the places of the sorted list are told by the indexes
  by_cases hnodup : ((first :: rest).map TaskSnapshot.order_index).Nodup
  · have hinc : Increasing TaskSnapshot.order_index (first :: rest) := by
      rw [← hsorted]
      exact increasing_insertionSort (hdistinct.mp hnodup)
    have hinit := hinc
    rw [← last_of_sorted] at hinit
    have hfirst : ∀ t ∈ first :: rest, IsReader (first :: rest) t ↔ t = first :=
      fun t ht => hinc.least_iff ht
    have hrest : ∀ t, t ∈ rest ↔ t ∈ first :: rest ∧ ¬ IsReader (first :: rest) t :=
      fun t => hinc.mem_tail_iff
    have hlast : ∀ t ∈ first :: rest,
        IsFinal (first :: rest) t ↔ t = (rest.getLast?).getD first := by
      intro t ht
      rw [← last_of_sorted] at ht
      have hiff := hinit.greatest_iff ht
      rwa [last_of_sorted] at hiff
    have hbefore : ∀ t, t ∈ (first :: rest).dropLast ↔
        t ∈ first :: rest ∧ ¬ IsFinal (first :: rest) t := by
      intro t
      have hiff := hinit.mem_init_iff (b := t)
      rwa [last_of_sorted] at hiff
    have hmem : (rest.getLast?).getD first ∈ first :: rest := by
      rw [← last_of_sorted]
      simp
    constructor
    · intro h
      exact {
        distinct := h.distinct
        bodies := h.bodies
        reader := fun t ht hreader => (hfirst t ht).mp hreader ▸ h.reader
        transforms := fun t ht hnot => h.transforms t ((hrest t).mpr ⟨ht, hnot⟩)
        overrides := fun t ht hnot => h.overrides t ((hbefore t).mpr ⟨ht, hnot⟩)
        allowed := fun t ht hfinal => (hlast t ht).mp hfinal ▸ h.allowed }
    · intro h
      exact {
        distinct := h.distinct
        bodies := h.bodies
        reader := h.reader first List.mem_cons_self ((hfirst _ List.mem_cons_self).mpr rfl)
        transforms := fun t ht => h.transforms t ((hrest t).mp ht).1 ((hrest t).mp ht).2
        overrides := fun t ht => h.overrides t ((hbefore t).mp ht).1 ((hbefore t).mp ht).2
        allowed := h.allowed _ hmem ((hlast _ hmem).mpr rfl) }
  · exact ⟨fun h => absurd h.distinct hnodup, fun h => absurd h.distinct hnodup⟩

end Rules

section Results

variable {p q : PipelineSnapshot} {tasks : List TaskSnapshot}

/-- **The check returns exactly on the plans**, and sorts their tasks. -/
theorem validate_tasks_v1_eq_ok_iff
    (hne : p.tasks ≠ []) :
    validate_tasks_v1 p = .ok q ↔ V1Plan p ∧ q = { p with tasks := tasksSorted p } := by
  cases hsorted : tasksSorted p with
  | nil =>
      have hperm := tasksSorted_perm p
      rw [hsorted, List.nil_perm] at hperm
      exact absurd hperm hne
  | cons first rest =>
      rw [validate_tasks_v1_sorted hsorted, planInOrder_iff hsorted, hsorted]

theorem checkTasks_eq_error
    {pid : String} {seen : List ℤ} {tasks : List TaskSnapshot} {e : Exc}
    (h : checkTasks pid seen tasks = .error e) :
    ∃ msg, e = valueError msg := by
  induction tasks generalizing seen with
  | nil =>
      cases h
  | cons t rest ih =>
      rw [checkTasks] at h
      split_ifs at h
      · exact ⟨_, (Except.error.inj h).symm⟩
      · exact ⟨_, (Except.error.inj h).symm⟩
      · exact ⟨_, (Except.error.inj h).symm⟩
      · exact ih h

/-- Whatever the check raises is a `ValueError`. -/
theorem validate_tasks_v1_eq_error
    {e : Exc} (h : validate_tasks_v1 p = .error e) :
    ∃ msg, e = valueError msg := by
  simp only [validate_tasks_v1] at h
  split at h
  · cases h
  · simp only [bind_eq_error_iff, check_eq_error_iff] at h
    obtain hloop | ⟨-, -, ⟨-, rfl⟩ | ⟨-, ⟨-, rfl⟩ | ⟨-, h⟩⟩⟩ := h
    · exact checkTasks_eq_error hloop
    · exact ⟨_, rfl⟩
    · exact ⟨_, rfl⟩
    · split at h
      · exact ⟨_, (Except.error.inj h).symm⟩
      · rw [check_eq_error_iff] at h
        obtain ⟨-, rfl⟩ | ⟨-, h⟩ := h
        · exact ⟨_, rfl⟩
        · cases h

/-- **The order the tasks come in decides neither whether the check returns nor what.** -/
theorem validate_tasks_v1_toOption_of_perm
    (hne : p.tasks ≠ []) (hperm : tasks.Perm p.tasks) :
    (validate_tasks_v1 { p with tasks := tasks }).toOption = (validate_tasks_v1 p).toOption := by
  have hne' : tasks ≠ [] := fun hnil => hne (List.nil_perm.mp (hnil ▸ hperm))
  have hiff : ∀ q, validate_tasks_v1 { p with tasks := tasks } = .ok q ↔
      validate_tasks_v1 p = .ok q := by
    intro q
    rw [validate_tasks_v1_eq_ok_iff (p := { p with tasks := tasks }) hne',
      validate_tasks_v1_eq_ok_iff hne]
    have hplan : V1Plan { p with tasks := tasks } ↔ V1Plan p :=
      ⟨fun h => V1Plan.of_perm (p := p) h hperm.symm, fun h => V1Plan.of_perm h hperm⟩
    rw [hplan]
    refine and_congr_right (fun h => ?_)
    have hsort : tasksSorted { p with tasks := tasks } = tasksSorted p :=
      (insertionSort_congr hperm.symm h.distinct).symm
    rw [hsort]
  cases hp : validate_tasks_v1 p with
  | ok q =>
      rw [(hiff q).mpr hp]
  | error e =>
      cases hp' : validate_tasks_v1 { p with tasks := tasks } with
      | ok q =>
          rw [hiff q, hp] at hp'
          cases hp'
      | error e' =>
          rfl

/-- Where no two tasks share an index, the texts of the errors agree as well. -/
theorem validate_tasks_v1_of_perm
    (hne : p.tasks ≠ []) (hperm : tasks.Perm p.tasks)
    (hdistinct : (p.tasks.map TaskSnapshot.order_index).Nodup) :
    validate_tasks_v1 { p with tasks := tasks } = validate_tasks_v1 p := by
  have hsort : tasksSorted { p with tasks := tasks } = tasksSorted p :=
    (insertionSort_congr hperm.symm hdistinct).symm
  rw [tasksSorted, tasksSorted] at hsort
  simp only [validate_tasks_v1, hsort]
  split
  · rename_i hnil
    have hlen := (List.perm_insertionSort (fun t t' : TaskSnapshot =>
      t.order_index ≤ t'.order_index) p.tasks)
    rw [hnil, List.nil_perm] at hlen
    exact absurd hlen hne
  · rfl

/-- What the check returns is checked already. -/
theorem validate_tasks_v1_idem
    (hne : p.tasks ≠ []) (h : validate_tasks_v1 p = .ok q) :
    validate_tasks_v1 q = .ok q := by
  obtain ⟨hplan, rfl⟩ := (validate_tasks_v1_eq_ok_iff hne).mp h
  have hne' : tasksSorted p ≠ [] := fun hnil => hne (List.nil_perm.mp (hnil ▸ tasksSorted_perm p))
  refine (validate_tasks_v1_eq_ok_iff (p := { p with tasks := tasksSorted p }) hne').mpr
    ⟨v1Plan_sorted_iff.mpr hplan, ?_⟩
  have hsorted : tasksSorted { p with tasks := tasksSorted p } = tasksSorted p :=
    (increasing_insertionSort hplan.distinct).insertionSort_eq
  rw [hsorted]

end Results

/-! ## The runners' own checks -/

section Runners

variable {P : Type} {p q : PipelineSnapshot}

/-- The target the runners work out is the one that was checked. -/
theorem finalTarget_of_plan
    (hne : p.tasks ≠ []) (h : validate_tasks_v1 p = .ok q) :
    q.tasks ≠ [] ∧ is_allowed_target (finalTarget q) = true := by
  obtain ⟨hplan, rfl⟩ := (validate_tasks_v1_eq_ok_iff hne).mp h
  cases hsorted : tasksSorted p with
  | nil =>
      have hperm := tasksSorted_perm p
      rw [hsorted, List.nil_perm] at hperm
      exact absurd hperm hne
  | cons first rest =>
      refine ⟨List.cons_ne_nil first rest, ?_⟩
      have hallowed := ((planInOrder_iff hsorted).mpr hplan).allowed
      simpa only [finalTarget, List.getLast?_cons, Option.bind_some] using hallowed

/-- The checks of `run_tasks_incremental` on the mode and the two identifiers. -/
def incrementalChecks (pl : PipelineSnapshot) : Except Exc (String × String) := do
  if pl.mode ≠ .incremental then
    throw (valueError
      "Tasks incremental runner requires pipeline.mode='incremental', got 'full'")
  if !PyText.truthy pl.incremental_key then
    throw (valueError "Incremental pipeline requires incremental_key")
  let inc_key ← validate_sql_ident (pl.incremental_key.getD "") "incremental_key"
  let id_key ← validate_sql_ident (targetOr pl.incremental_id_key "film_id") "incremental_id_key"
  return (inc_key, id_key)

/-- On an allowed target, the full runner stops before its loop only for a module. -/
theorem run_tasks_full_eq_error
    {w : World} {e : Exc}
    (hne : q.tasks ≠ []) (hallowed : is_allowed_target (finalTarget q) = true)
    (h : (run_tasks_full w q : Except Exc (BatchLoop P)) = .error e) :
    loadTransforms w q = .error e := by
  cases htasks : q.tasks with
  | nil =>
      exact absurd htasks hne
  | cons reader rest =>
      simp only [run_tasks_full, htasks, check_eq_error_iff, bind_eq_error_iff] at h
      obtain ⟨hnot, -⟩ | ⟨-, hload | ⟨fns, -, hpure⟩⟩ := h
      · simp [hallowed] at hnot
      · exact hload
      · cases hpure

/-- The incremental runner may also stop at its checks on the mode and the identifiers. -/
theorem run_tasks_incremental_eq_error
    [DecidableEq P] {w : World} {i : P} {e : Exc}
    (hne : q.tasks ≠ []) (hallowed : is_allowed_target (finalTarget q) = true)
    (h : run_tasks_incremental w i q = .error e) :
    incrementalChecks q = .error e ∨ loadTransforms w q = .error e := by
  cases htasks : q.tasks with
  | nil =>
      exact absurd htasks hne
  | cons reader rest =>
      simp only [run_tasks_incremental, htasks, check_eq_error_iff, bind_eq_error_iff] at h
      simp only [incrementalChecks, check_eq_error_iff, bind_eq_error_iff]
      obtain hmode | ⟨hmode, hkey | ⟨hkey, hinc | ⟨inc_key, hinc, hid | ⟨id_key, hid, h⟩⟩⟩⟩ := h
      · exact .inl (.inl hmode)
      · exact .inl (.inr ⟨hmode, .inl hkey⟩)
      · exact .inl (.inr ⟨hmode, .inr ⟨hkey, .inl hinc⟩⟩)
      · exact .inl (.inr ⟨hmode, .inr ⟨hkey, .inr ⟨inc_key, hinc, .inl hid⟩⟩⟩)
      · obtain ⟨hnot, -⟩ | ⟨-, hload | ⟨fns, -, hpure⟩⟩ := h
        · simp [hallowed] at hnot
        · exact .inr hload
        · cases hpure

end Runners

/-! ## The check as a whole -/

section Normalisation

/-- What the check makes of a snapshot it lets through. -/
structure Normalised (p q : PipelineSnapshot) : Prop where
  /-- the tasks are those of the snapshot -/
  perm : q.tasks.Perm p.tasks
  /-- in the order of their indexes -/
  increasing : Increasing TaskSnapshot.order_index q.tasks
  /-- and nothing else is touched -/
  others : q = { p with tasks := q.tasks }
  /-- a second check changes nothing -/
  again : validate_tasks_v1 q = .ok q
  /-- the full runner finds tasks and an allowed target -/
  full : ∀ (P : Type) (w : World) (e : Exc),
    (run_tasks_full w q : Except Exc (BatchLoop P)) = .error e → loadTransforms w q = .error e
  /-- and so does the incremental runner -/
  incremental : ∀ (P : Type) [DecidableEq P] (w : World) (i : P) (e : Exc),
    run_tasks_incremental w i q = .error e →
      incrementalChecks q = .error e ∨ loadTransforms w q = .error e

theorem normalised_of_validate
    {p q : PipelineSnapshot} (hne : p.tasks ≠ []) (h : validate_tasks_v1 p = .ok q) :
    Normalised p q := by
  obtain ⟨hplan, hq⟩ := (validate_tasks_v1_eq_ok_iff hne).mp h
  obtain ⟨hne', hallowed⟩ := finalTarget_of_plan hne h
  have htasks : q.tasks = tasksSorted p := by rw [hq]
  exact {
    perm := htasks ▸ tasksSorted_perm p
    increasing := htasks ▸ increasing_insertionSort hplan.distinct
    others := by rw [htasks]; exact hq
    again := validate_tasks_v1_idem hne h
    full := fun P w e herror => run_tasks_full_eq_error hne' hallowed herror
    incremental := fun P _ w i e herror => run_tasks_incremental_eq_error hne' hallowed herror }

/--
**The check accepts exactly the v1 plans and normalises them.**  It returns on
them and raises a `ValueError` on every other snapshot with tasks; the order of
the tasks decides neither whether it returns nor what, and not even the text of
the error unless two tasks share an index.
-/
theorem validate_tasks_v1_exact
    (p : PipelineSnapshot)
    (hne : p.tasks ≠ []) :
    ((∃ q, validate_tasks_v1 p = .ok q) ↔ V1Plan p) ∧
      (∀ q, validate_tasks_v1 p = .ok q → Normalised p q) ∧
      (∀ e, validate_tasks_v1 p = .error e → ∃ msg, e = valueError msg) ∧
      (∀ tasks, tasks.Perm p.tasks →
        (validate_tasks_v1 { p with tasks := tasks }).toOption =
          (validate_tasks_v1 p).toOption) ∧
      ((p.tasks.map TaskSnapshot.order_index).Nodup → ∀ tasks, tasks.Perm p.tasks →
        validate_tasks_v1 { p with tasks := tasks } = validate_tasks_v1 p) := by
  refine ⟨⟨?_, ?_⟩, ?_, ?_, ?_, ?_⟩
  · rintro ⟨q, hq⟩
    exact ((validate_tasks_v1_eq_ok_iff hne).mp hq).1
  · intro hplan
    exact ⟨_, (validate_tasks_v1_eq_ok_iff hne).mpr ⟨hplan, rfl⟩⟩
  · intro q hq
    exact normalised_of_validate hne hq
  · intro e he
    exact validate_tasks_v1_eq_error he
  · intro tasks hperm
    exact validate_tasks_v1_toOption_of_perm hne hperm
  · intro hdistinct tasks hperm
    exact validate_tasks_v1_of_perm hne hperm hdistinct

/-- The film pipeline with a reader and a transform, listed the wrong way round. -/
def unsortedFilmTasks : PipelineSnapshot :=
  { snapshot_pipeline (filmPipeline .full 10 .IDLE) with
    tasks := [⟨2, "PYTHON", "titles", some "es:film_dim"⟩, ⟨1, "SQL", filmQuery, none⟩] }

/-- The check puts the reader of the film pipeline first. -/
theorem validate_tasks_v1_exact_film :
    V1Plan unsortedFilmTasks ∧ ∃ q, validate_tasks_v1 unsortedFilmTasks = .ok q ∧
      Normalised unsortedFilmTasks q ∧ q.tasks.map TaskSnapshot.order_index = [1, 2] := by
  have hne : unsortedFilmTasks.tasks ≠ [] := List.cons_ne_nil _ _
  obtain ⟨hiff, hnormalised, -⟩ := validate_tasks_v1_exact unsortedFilmTasks hne
  have hvalid : validate_tasks_v1 unsortedFilmTasks =
      .ok { unsortedFilmTasks with tasks := unsortedFilmTasks.tasks.reverse } := by
    decide +kernel
  exact ⟨hiff.mp ⟨_, hvalid⟩, _, hvalid, hnormalised _ hvalid, rfl⟩

end Normalisation

end EtlPlatform
