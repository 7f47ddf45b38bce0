import EtlPlatform.Library.RunAccounts
import EtlPlatform.Model.StatusRequests
import EtlPlatform.Proofs.PatchSteps

/-!
# Requests take effect at one point

A run or pause request is several statements, and so is a `PATCH`; claims,
pauses and other requests come in between.  Each request has one statement at
which it takes effect as a whole: a `PATCH` its commit, a run or pause request
its conditional update, or its first read where that already answers it.

`served_runs_are_platform_runs` is the refinement: a run of the requests taken
apart is a run of the platform with its requests in one piece, in the order of
these points.  `request_takes_effect_once` is about the statements of one run or
pause request and the databases before and after each of them: at most one
changes anything, and one of those of a request that is answered with a pipeline
does what the request in one piece would have done.
-/

namespace EtlPlatform

open Library

/-! ## Where a request takes effect -/

section Effects

variable {κ ι P : Type} [DecidableEq κ] [DecidableEq P]

/-- The request of the platform that takes effect at a step of a run or pause request: at
its first read, if that answers it, and otherwise at its update. -/
def StatusRequest.effect (db : Db P) (c : Choice) : StatusRequest P → List (Event ι P)
  | .reading endpoint (some p) =>
      if c = .ok ∧ db.status p ∈ endpoint.service.settled then [endpoint.event p] else []
  | .updating endpoint p _ => if c = .ok ∨ c = .lost then [endpoint.event p] else []
  | _ => []

/-- The `PATCH` of the platform that takes effect at a step of a `PATCH` request. -/
def PatchRequest.effect (db : Db P) (c : Choice) : PatchRequest P → List (Event ι P)
  | .assigned p update_data pipeline =>
      match db.commit_update p update_data pipeline with
      | .ok db' => if c = .ok ∨ c = .lost then [.patch p (db'.pipelines p)] else []
      | .error _ => []
  | _ => []

/-- The events of the platform that take effect at one event of the requests. -/
def ServedSys.effects (s : ServedSys κ ι P) :
    ServedEvent κ ι P → ServedSys κ ι P → List (Event ι P)
  | .api (.platform e), _ => [e]
  | .api (.receive _ _ _), _ => []
  | .api (.patch k c), _ => (s.api.requests k).effect s.api.sys.db c
  | .receive _ _ _, _ => []
  | .serve k c, _ => (s.requests k).effect s.api.sys.db c

end Effects

/-! ## One step -/

section Steps

variable {κ ι P : Type} [DecidableEq κ] [DecidableEq ι] [DecidableEq P]
variable {w : World} {unmatched : Unmatched}

omit [DecidableEq κ] in
/-- A request in one piece is its update. -/
theorem step_endpoint_event
    (s : Sys ι P) (endpoint : StatusEndpoint) (p : P) :
    s.step w (endpoint.event p) = some { s with db := endpoint.service.request s.db p } := by
  cases endpoint with
  | run_pipeline_endpoint =>
      rw [StatusEndpoint.event, Sys.step, Db.run_pipeline_eq]
      rfl
  | pause_pipeline_endpoint =>
      rw [StatusEndpoint.event, Sys.step, Db.pause_pipeline_eq]
      rfl

/-- A request that is answered by its first read would have changed nothing. -/
theorem request_of_settled
    {db : Db P} {endpoint : StatusEndpoint} {p : P}
    (h : db.status p ∈ endpoint.service.settled) :
    endpoint.service.request db p = db := by
  have hout : db.status p ∉ endpoint.service.allowed_from := by
    revert h
    cases endpoint <;> cases db.status p <;> decide
  rw [StatusService.request, Db.updateStatus, if_neg hout]

/-- Everything one step of a run or pause request can do. -/
inductive ServeEffect (unmatched : Unmatched) (db : Db P) :
    StatusRequest P → Choice → Db P → StatusRequest P → Prop
  /-- a statement has failed before the update, or the update has not been made -/
  | failed {r : StatusRequest P} {c : Choice} {exc : Exc} :
      c ≠ .ok → (∀ endpoint p pipeline, r = .updating endpoint p pipeline → c ≠ .lost) →
      ServeEffect unmatched db r c db (.answered (.raises exc))
  /-- there is no such pipeline -/
  | missing {endpoint : StatusEndpoint} :
      ServeEffect unmatched db (.reading endpoint none) .ok db
        (.answered (http_404 "Pipeline not found"))
  /-- there is nothing to do -/
  | settled {endpoint : StatusEndpoint} {p : P} :
      db.status p ∈ endpoint.service.settled →
      ServeEffect unmatched db (.reading endpoint (some p)) .ok db
        (.answered (returnPipeline (db.pipelines p)))
  | goesOn {endpoint : StatusEndpoint} {p : P} :
      db.status p ∉ endpoint.service.settled →
      ServeEffect unmatched db (.reading endpoint (some p)) .ok db
        (.updating endpoint p (db.pipelines p))
  /-- the update is committed and has moved the status -/
  | moved {endpoint : StatusEndpoint} {p : P} {pipeline : EtlPipeline} :
      db.status p ∈ endpoint.service.allowed_from →
      ServeEffect unmatched db (.updating endpoint p pipeline) .ok
        (endpoint.service.request db p) (.refreshing p)
  /-- the update is committed and has matched no row -/
  | declined {endpoint : StatusEndpoint} {p : P} {pipeline : EtlPipeline} :
      db.status p ∉ endpoint.service.allowed_from →
      ServeEffect unmatched db (.updating endpoint p pipeline) .ok
        (endpoint.service.request db p) (.rereading (unmatched endpoint.service pipeline))
  /-- the update is committed, and its answer is lost -/
  | unheard {endpoint : StatusEndpoint} {p : P} {pipeline : EtlPipeline} :
      ServeEffect unmatched db (.updating endpoint p pipeline) .lost
        (endpoint.service.request db p) (.answered (.raises connectionLost))
  /-- the second read, from the database or of the session's copy -/
  | refreshed {p : P} :
      ServeEffect unmatched db (.refreshing p) .ok db
        (.answered (returnPipeline (db.pipelines p)))
  | reread {pipeline : EtlPipeline} :
      ServeEffect unmatched db (.rereading pipeline) .ok db
        (.answered (returnPipeline pipeline))

/-- **One step of a run or pause request, case by case.** -/
theorem serveStep_effect
    {db db' : Db P} {r r' : StatusRequest P} {c : Choice}
    (h : r.step unmatched db c = some (db', r')) :
    ServeEffect unmatched db r c db' r' := by
  cases r with
  | idle =>
      cases h
  | answered answer =>
      cases h
  | reading endpoint p =>
      cases c with
      | ok =>
          cases p with
          | none =>
              obtain ⟨rfl, rfl⟩ := Prod.mk.inj (Option.some.inj h)
              exact .missing
          | some p =>
              obtain ⟨rfl, rfl⟩ := Prod.mk.inj (Option.some.inj h)
              rw [StatusRequest.check]
              split_ifs with hset
              · exact .settled hset
              · exact .goesOn hset
      | partialBulk applied exc =>
          cases h
      | _ =>
          obtain ⟨rfl, rfl⟩ := Prod.mk.inj (Option.some.inj h)
          exact .failed (by simp) (by simp)
  | updating endpoint p pipeline =>
      cases c with
      | ok =>
          obtain ⟨rfl, rfl⟩ := Prod.mk.inj (Option.some.inj h)
          split_ifs with hallowed
          · exact .moved hallowed
          · exact .declined hallowed
      | raise exc =>
          obtain ⟨rfl, rfl⟩ := Prod.mk.inj (Option.some.inj h)
          exact .failed (by simp) (by simp)
      | lost =>
          obtain ⟨rfl, rfl⟩ := Prod.mk.inj (Option.some.inj h)
          exact .unheard
      | partialBulk applied exc =>
          cases h
  | refreshing p =>
      cases c with
      | ok =>
          obtain ⟨rfl, rfl⟩ := Prod.mk.inj (Option.some.inj h)
          exact .refreshed
      | partialBulk applied exc =>
          cases h
      | _ =>
          obtain ⟨rfl, rfl⟩ := Prod.mk.inj (Option.some.inj h)
          exact .failed (by simp) (by simp)
  | rereading pipeline =>
      cases c with
      | ok =>
          obtain ⟨rfl, rfl⟩ := Prod.mk.inj (Option.some.inj h)
          exact .reread
      | partialBulk applied exc =>
          cases h
      | _ =>
          obtain ⟨rfl, rfl⟩ := Prod.mk.inj (Option.some.inj h)
          exact .failed (by simp) (by simp)

omit [DecidableEq κ] [DecidableEq ι] [DecidableEq P] in
/-- A statement that has failed has had no effect. -/
theorem effect_of_failed
    {db : Db P} {r : StatusRequest P} {c : Choice}
    (hok : c ≠ .ok)
    (hlost : ∀ endpoint p pipeline, r = .updating endpoint p pipeline → c ≠ .lost) :
    (r.effect db c : List (Event ι P)) = [] := by
  cases r with
  | reading endpoint p =>
      cases p <;> simp [StatusRequest.effect, hok]
  | updating endpoint p pipeline =>
      simp [StatusRequest.effect, hok, hlost endpoint p pipeline rfl]
  | _ =>
      rfl

omit [DecidableEq κ] in
/-- What a step of a run or pause request does to the database is its effect. -/
theorem exec_serve_effect
    {s : Sys ι P} {db : Db P} {r r' : StatusRequest P} {c : Choice}
    (h : ServeEffect unmatched s.db r c db r') :
    exec (Sys.step w) s (r.effect s.db c) = some { s with db := db } := by
  cases h with
  | failed hok hlost =>
      rw [effect_of_failed hok hlost]
      rfl
  | missing =>
      rfl
  | @settled endpoint p hset =>
      rw [StatusRequest.effect, if_pos ⟨rfl, hset⟩]
      simp [exec, step_endpoint_event, request_of_settled hset]
  | goesOn hset =>
      rw [StatusRequest.effect, if_neg (fun h => hset h.2)]
      rfl
  | moved _ =>
      simp [StatusRequest.effect, exec, step_endpoint_event]
  | declined _ =>
      simp [StatusRequest.effect, exec, step_endpoint_event]
  | unheard =>
      simp [StatusRequest.effect, exec, step_endpoint_event]
  | refreshed =>
      rfl
  | reread =>
      rfl

omit [DecidableEq κ] in
/-- What a step of a `PATCH` request does to the database is its effect. -/
theorem exec_patch_effect
    {s : Sys ι P} {db : Db P} {r r' : PatchRequest P} {c : Choice}
    (h : r.step s.db c = some (db, r')) :
    exec (Sys.step w) s (r.effect s.db c) = some { s with db := db } := by
  by_cases hassigned : ∃ p data row, r = .assigned p data row
  · obtain ⟨p, data, row, rfl⟩ := hassigned
    cases hcommit : s.db.commit_update p data row with
    | error exc =>
        cases c <;> simp only [PatchRequest.step, hcommit, Option.some.injEq, Prod.mk.injEq,
          reduceCtorEq] at h
        all_goals
          obtain ⟨rfl, -⟩ := h
          simp [PatchRequest.effect, hcommit, exec]
    | ok db₁ =>
        obtain ⟨row', hrow, rfl⟩ := commit_update_eq_ok hcommit
        have hpatch : s.step w (.patch p row') = some { s with db := s.db.setPipeline p row' } := by
          rw [Sys.step, setPipeline_eq_patchConfig hrow]
        cases c <;> simp only [PatchRequest.step, hcommit, Option.some.injEq, Prod.mk.injEq,
          reduceCtorEq] at h
        all_goals
          obtain ⟨rfl, -⟩ := h
          simp [PatchRequest.effect, hcommit, exec, hpatch, Db.setPipeline]
  · have heffect : (r.effect s.db c : List (Event ι P)) = [] := by
      cases r with
      | assigned p data row =>
          exact absurd ⟨p, data, row, rfl⟩ hassigned
      | _ =>
          rfl
    have hdb : db = s.db := by
      cases patchStep_effect h with
      | committed _ =>
          exact absurd ⟨_, _, _, rfl⟩ hassigned
      | _ =>
          rfl
    rw [heffect, hdb]
    rfl

/-- What an event outside the run and pause requests does. -/
theorem servedStep_api
    {s s' : ServedSys κ ι P} {e : ApiEvent κ ι P}
    (h : s.step w unmatched (.api e) = some s') :
    ∃ api, s.api.step w e = some api ∧ s' = { s with api := api } := by
  have happ : (s.api.step w e).map (fun api => ({ s with api := api } : ServedSys κ ι P)) =
      some s' := by
    cases e with
    | platform e =>
        cases e with
        | run p =>
            cases h
        | pause p =>
            cases h
        | _ =>
            exact h
    | _ =>
        exact h
  obtain ⟨api, hapi, rfl⟩ := Option.map_eq_some_iff.mp happ
  exact ⟨api, hapi, rfl⟩

/-- One event of the requests is a run of the events that take effect at it. -/
theorem exec_effects
    {s s' : ServedSys κ ι P} {e : ServedEvent κ ι P}
    (h : s.step w unmatched e = some s') :
    exec (Sys.step w) s.api.sys (s.effects e s') = some s'.api.sys := by
  cases e with
  | api e =>
      obtain ⟨api, hapi, rfl⟩ := servedStep_api h
      cases e with
      | platform e =>
          simp [ServedSys.effects, exec, (apiStep_platform hapi).1]
      | receive k p body =>
          rw [ServedSys.effects, exec, (apiStep_receive hapi).1]
      | patch k c =>
          obtain ⟨⟨db, r⟩, hr, rfl⟩ := Option.map_eq_some_iff.mp hapi
          exact exec_patch_effect hr
  | receive k endpoint p =>
      simp only [ServedSys.step] at h
      split at h
      · obtain rfl := Option.some.inj h
        rfl
      · cases h
  | serve k c =>
      obtain ⟨⟨db, r⟩, hr, rfl⟩ := Option.map_eq_some_iff.mp h
      exact exec_serve_effect (serveStep_effect hr)

/-- **Requests refine the platform.**  A run of requests that are taken apart, with runners and
other requests between their statements, ends with the database and the processes the platform
ends with if each request is made in one piece at the point it takes effect. -/
theorem served_runs_are_platform_runs
    {s s' : ServedSys κ ι P} {es : List (ServedEvent κ ι P)}
    (h : exec (ServedSys.step w unmatched) s es = some s') :
    exec (Sys.step w) s.api.sys
      (trace (ServedSys.step w unmatched) ServedSys.effects s es) = some s'.api.sys :=
  exec_trace (fun _ _ _ => exec_effects) h

end Steps

/-! ## What a request does to the database -/

section Once

variable {κ ι P : Type} [DecidableEq κ] [DecidableEq ι] [DecidableEq P]
variable {w : World} {unmatched : Unmatched}

/-- The database before and after each statement of request `k`. -/
def ServedSys.statementsOf (k : κ) (s : ServedSys κ ι P) :
    ServedEvent κ ι P → ServedSys κ ι P → List (Db P × Db P)
  | .serve j _, s' => if j = k then [(s.api.sys.db, s'.api.sys.db)] else []
  | _, _ => []

/-- None of the statements has changed the database. -/
def Unchanged (xs : List (Db P × Db P)) : Prop :=
  ∀ x ∈ xs, x.2 = x.1

/-- The statement has moved the pipeline to the requested status. -/
def StatusEndpoint.Moves (endpoint : StatusEndpoint) (p : P) (x : Db P × Db P) : Prop :=
  x.1.status p ∈ endpoint.service.allowed_from ∧
    x.2 = x.1.setStatus p endpoint.service.requested

/-- The statement has left the pipeline alone, as its status is none to be requested from. -/
def StatusEndpoint.Declines (endpoint : StatusEndpoint) (p : P) (x : Db P × Db P) : Prop :=
  x.1.status p ∉ endpoint.service.allowed_from ∧ x.2 = x.1

/-- One of the statements does what `Q` says, the others change nothing. -/
def Once (Q : Db P × Db P → Prop) (xs : List (Db P × Db P)) : Prop :=
  ∃ before x after, xs = before ++ x :: after ∧ Q x ∧ Unchanged (before ++ after)

/-- The answer is the row of `p` as one of the statements has left it or, if none of them has
changed anything, what the session has made of its copy of such a row. -/
def StatusEndpoint.Shows (unmatched : Unmatched) (endpoint : StatusEndpoint) (p : P)
    (xs : List (Db P × Db P)) (answer : Answer) : Prop :=
  (∃ x ∈ xs, answer = returnPipeline (x.2.pipelines p)) ∨
    Unchanged xs ∧ ∃ x ∈ xs, answer = returnPipeline (unmatched endpoint.service (x.2.pipelines p))

/-- A request in one piece moves the pipeline or leaves it alone. -/
theorem moves_or_declines
    (endpoint : StatusEndpoint) (p : P) (db : Db P) :
    endpoint.Moves p (db, endpoint.service.request db p) ∨
      endpoint.Declines p (db, endpoint.service.request db p) := by
  by_cases hallowed : db.status p ∈ endpoint.service.allowed_from
  · exact Or.inl ⟨hallowed, if_pos hallowed⟩
  · exact Or.inr ⟨hallowed, if_neg hallowed⟩

omit [DecidableEq P] in
theorem Unchanged.cons
    {xs : List (Db P × Db P)} (h : Unchanged xs) (db : Db P) :
    Unchanged ((db, db) :: xs) :=
  List.forall_mem_cons.mpr ⟨rfl, h⟩

omit [DecidableEq P] in
theorem Once.cons
    {Q : Db P × Db P → Prop} {xs : List (Db P × Db P)} (h : Once Q xs) (db : Db P) :
    Once Q ((db, db) :: xs) := by
  obtain ⟨before, x, after, rfl, hx, hrest⟩ := h
  exact ⟨(db, db) :: before, x, after, rfl, hx, hrest.cons db⟩

omit [DecidableEq P] in
theorem Once.head
    {Q : Db P × Db P → Prop} {x : Db P × Db P} {xs : List (Db P × Db P)}
    (hx : Q x) (h : Unchanged xs) :
    Once Q (x :: xs) :=
  ⟨[], x, xs, rfl, hx, h⟩

/-- Whether it moves the pipeline or not, a request that takes effect once changes the
database at most once. -/
theorem Once.unchanged_or_moves
    {endpoint : StatusEndpoint} {p : P} {xs : List (Db P × Db P)}
    (h : Once (fun x => endpoint.Moves p x ∨ endpoint.Declines p x) xs) :
    Unchanged xs ∨ Once (endpoint.Moves p) xs := by
  obtain ⟨before, x, after, rfl, hmoves | hdeclines, hrest⟩ := h
  · exact Or.inr ⟨before, x, after, rfl, hmoves, hrest⟩
  · refine Or.inl fun y hy => ?_
    rcases List.mem_append.mp hy with hy | hy
    · exact hrest y (List.mem_append_left _ hy)
    · rcases List.mem_cons.mp hy with rfl | hy
      · exact hdeclines.2
      · exact hrest y (List.mem_append_right _ hy)

/-- The request has taken effect, and its answer shows a row of the pipeline. -/
def StatusEndpoint.Served (unmatched : Unmatched) (endpoint : StatusEndpoint) (p : P)
    (xs : List (Db P × Db P)) (last : StatusRequest P) : Prop :=
  Once (fun x => endpoint.Moves p x ∨ endpoint.Declines p x) xs ∧
    ∀ out, last = .answered (.returns out) → endpoint.Shows unmatched p xs (.returns out)

/-- The request has changed nothing, and it is not answered with a pipeline. -/
def StatusRequest.Idles (xs : List (Db P × Db P)) (last : StatusRequest P) : Prop :=
  Unchanged xs ∧ ∀ out, last ≠ .answered (.returns out)

/-- What the statements `xs` that are still to come of request `k` do, if it ends as the
second request. -/
def StatusRequest.Course (unmatched : Unmatched) (es : List (ServedEvent κ ι P)) (k : κ)
    (xs : List (Db P × Db P)) : StatusRequest P → StatusRequest P → Prop
  | .idle, last => last.Idles xs ∨
      ∃ endpoint p, .receive k endpoint (some p) ∈ es ∧ endpoint.Served unmatched p xs last
  | .reading endpoint q, last => last.Idles xs ∨
      ∃ p, q = some p ∧ endpoint.Served unmatched p xs last
  | .updating endpoint p pipeline, last => last.Idles xs ∨
      Once (fun x => endpoint.Moves p x ∨ endpoint.Declines p x) xs ∧
        ∀ out, last = .answered (.returns out) →
          (∃ x ∈ xs, .returns out = returnPipeline (x.2.pipelines p)) ∨
            Unchanged xs ∧ .returns out = returnPipeline (unmatched endpoint.service pipeline)
  | .refreshing p, last => Unchanged xs ∧ ∀ out, last = .answered (.returns out) →
      ∃ x ∈ xs, .returns out = returnPipeline (x.2.pipelines p)
  | .rereading pipeline, last => Unchanged xs ∧ ∀ out, last = .answered (.returns out) →
      .returns out = returnPipeline pipeline
  | .answered answer, last => xs = [] ∧ last = .answered answer

/-- An event that is not a step of request `k`: the request stays, or it arrives. -/
theorem requests_of_other
    {s s' : ServedSys κ ι P} {e : ServedEvent κ ι P} {k : κ}
    (h : s.step w unmatched e = some s') (hk : ∀ c, e ≠ .serve k c) :
    s.statementsOf k e s' = [] ∧
      (s'.requests k = s.requests k ∨
        ∃ endpoint p, e = .receive k endpoint p ∧ s.requests k = .idle ∧
          s'.requests k = .reading endpoint p) := by
  cases e with
  | api e =>
      refine ⟨rfl, Or.inl ?_⟩
      obtain ⟨api, -, rfl⟩ := servedStep_api h
      rfl
  | receive j endpoint p =>
      refine ⟨rfl, ?_⟩
      simp only [ServedSys.step] at h
      split at h
      · rename_i hidle
        obtain rfl := Option.some.inj h
        by_cases hj : k = j
        · subst hj
          exact Or.inr ⟨endpoint, p, rfl, hidle, Function.update_self ..⟩
        · exact Or.inl (Function.update_of_ne hj _ _)
      · cases h
  | serve j c =>
      have hj : j ≠ k := fun hj => hk c (hj ▸ rfl)
      obtain ⟨⟨db, r⟩, -, rfl⟩ := Option.map_eq_some_iff.mp h
      exact ⟨if_neg hj, Or.inl (Function.update_of_ne (Ne.symm hj) _ _)⟩

/-- A step of request `k`. -/
theorem requests_of_serve
    {s s' : ServedSys κ ι P} {k : κ} {c : Choice}
    (h : s.step w unmatched (.serve k c) = some s') :
    s.statementsOf k (.serve k c) s' = [(s.api.sys.db, s'.api.sys.db)] ∧
      (∀ answer, s.requests k ≠ .answered answer) ∧
      ServeEffect unmatched s.api.sys.db (s.requests k) c s'.api.sys.db (s'.requests k) := by
  obtain ⟨⟨db, r⟩, hr, rfl⟩ := Option.map_eq_some_iff.mp h
  refine ⟨if_pos rfl, fun answer hans => ?_, ?_⟩
  · rw [hans] at hr
    cases hr
  · simpa using serveStep_effect hr

omit [DecidableEq κ] [DecidableEq ι] in
/-- **One statement**, and the course that follows it. -/
theorem course_of_serve
    {db db' : Db P} {r r' last : StatusRequest P} {c : Choice} {k : κ}
    {es es' : List (ServedEvent κ ι P)} {xs : List (Db P × Db P)}
    (h : ServeEffect unmatched db r c db' r') (hr : ∀ answer, r ≠ .answered answer)
    (hcourse : r'.Course unmatched es k xs last) :
    r.Course unmatched es' k ((db, db') :: xs) last := by
  cases h with
  | @failed r c exc hok hlost =>
      obtain ⟨rfl, rfl⟩ := hcourse
      have hquiet : Unchanged [(db, db)] := List.forall_mem_singleton.mpr rfl
      have hno : ∀ out, StatusRequest.answered (P := P) (.raises exc) ≠
          .answered (.returns out) := by
        rintro out ⟨⟩
      cases r with
      | answered answer =>
          exact absurd rfl (hr answer)
      | refreshing p =>
          exact ⟨hquiet, fun out hout => absurd hout (hno out)⟩
      | rereading pipeline =>
          exact ⟨hquiet, fun out hout => absurd hout (hno out)⟩
      | _ =>
          exact Or.inl ⟨hquiet, hno⟩
  | missing =>
      obtain ⟨rfl, rfl⟩ := hcourse
      exact Or.inl ⟨List.forall_mem_singleton.mpr rfl, by rintro out ⟨⟩⟩
  | @settled endpoint p hset =>
      obtain ⟨rfl, rfl⟩ := hcourse
      have hsame := moves_or_declines endpoint p db
      rw [request_of_settled hset] at hsame
      refine Or.inr ⟨p, rfl, .head hsame (by rintro x ⟨⟩), fun out hout => Or.inl ?_⟩
      exact ⟨_, List.mem_singleton_self _, (StatusRequest.answered.inj hout).symm⟩
  | @goesOn endpoint p hset =>
      rcases hcourse with ⟨hquiet, hno⟩ | ⟨honce, hshows⟩
      · exact Or.inl ⟨hquiet.cons db, hno⟩
      · refine Or.inr ⟨p, rfl, honce.cons db, fun out hout => ?_⟩
        rcases hshows out hout with ⟨x, hx, hrow⟩ | ⟨hquiet, hcopy⟩
        · exact Or.inl ⟨x, List.mem_cons_of_mem _ hx, hrow⟩
        · exact Or.inr ⟨hquiet.cons db, (db, db), List.mem_cons_self, hcopy⟩
  | @moved endpoint p pipeline hallowed =>
      obtain ⟨hquiet, hshows⟩ := hcourse
      refine Or.inr ⟨.head (moves_or_declines endpoint p db) hquiet, fun out hout => Or.inl ?_⟩
      obtain ⟨x, hx, hrow⟩ := hshows out hout
      exact ⟨x, List.mem_cons_of_mem _ hx, hrow⟩
  | @declined endpoint p pipeline hallowed =>
      obtain ⟨hquiet, hcopy⟩ := hcourse
      have hsame : endpoint.service.request db p = db := if_neg hallowed
      refine Or.inr ⟨.head (moves_or_declines endpoint p db) hquiet, fun out hout => Or.inr ?_⟩
      rw [hsame]
      exact ⟨hquiet.cons db, hcopy out hout⟩
  | @unheard endpoint p pipeline =>
      obtain ⟨rfl, rfl⟩ := hcourse
      exact Or.inr ⟨.head (moves_or_declines endpoint p db) (by rintro x ⟨⟩), by rintro out ⟨⟩⟩
  | refreshed =>
      obtain ⟨rfl, rfl⟩ := hcourse
      refine ⟨List.forall_mem_singleton.mpr rfl, fun out hout => ?_⟩
      exact ⟨_, List.mem_singleton_self _, (StatusRequest.answered.inj hout).symm⟩
  | reread =>
      obtain ⟨rfl, rfl⟩ := hcourse
      exact ⟨List.forall_mem_singleton.mpr rfl,
        fun out hout => (StatusRequest.answered.inj hout).symm⟩

omit [DecidableEq κ] [DecidableEq ι] in
/-- A request no event has touched since. -/
theorem StatusRequest.course_nil
    (es : List (ServedEvent κ ι P)) (k : κ) (r : StatusRequest P) :
    r.Course unmatched es k [] r := by
  have hquiet : Unchanged ([] : List (Db P × Db P)) := by
    rintro x ⟨⟩
  cases r with
  | answered answer =>
      exact ⟨rfl, rfl⟩
  | refreshing p =>
      exact ⟨hquiet, by rintro out ⟨⟩⟩
  | rereading pipeline =>
      exact ⟨hquiet, by rintro out ⟨⟩⟩
  | _ =>
      exact Or.inl ⟨hquiet, by rintro out ⟨⟩⟩

/-- **A run**, by induction on its events. -/
theorem course_of_exec
    {s s' : ServedSys κ ι P} {es : List (ServedEvent κ ι P)} (k : κ)
    (h : exec (ServedSys.step w unmatched) s es = some s') :
    (s.requests k).Course unmatched es k
      (trace (ServedSys.step w unmatched) (ServedSys.statementsOf k) s es) (s'.requests k) := by
  induction es generalizing s with
  | nil =>
      obtain rfl := Option.some.inj h
      exact StatusRequest.course_nil [] k _
  | cons e es ih =>
      obtain ⟨t, ht, hes⟩ := Option.bind_eq_some_iff.mp h
      rw [trace_cons es ht]
      have hcourse := ih hes
      by_cases hserve : ∃ c, e = .serve k c
      · obtain ⟨c, rfl⟩ := hserve
        obtain ⟨hstatements, hopen, heffect⟩ := requests_of_serve ht
        rw [hstatements]
        exact course_of_serve heffect hopen hcourse
      · obtain ⟨hstatements, hreq⟩ := requests_of_other ht (fun c hc => hserve ⟨c, hc⟩)
        rw [hstatements, List.nil_append]
        rcases hreq with hsame | ⟨endpoint, q, rfl, hidle, hreading⟩
        · rw [hsame] at hcourse
          cases hcase : s.requests k with
          | idle =>
              rw [hcase] at hcourse
              refine hcourse.imp_right ?_
              rintro ⟨endpoint, p, hmem, hserved⟩
              exact ⟨endpoint, p, List.mem_cons_of_mem _ hmem, hserved⟩
          | _ =>
              rw [hcase] at hcourse
              exact hcourse
        · rw [hreading] at hcourse
          rw [hidle]
          refine hcourse.imp_right ?_
          rintro ⟨p, rfl, hserved⟩
          exact ⟨endpoint, p, List.mem_cons_self, hserved⟩

/--
**One effect.**  The statements of a run or pause request that arrives during a
run change the database at most once, and then they move the pipeline the request
names from one of the statuses it may be requested in to the requested one.  If the
request is answered with a pipeline, there is one statement at which the pipeline
is moved, or is found in a status it is not moved from; no other statement changes
anything.  The answer shows the row as one of the statements has left it, unless
the update has matched no row: then it may show the session's copy.
-/
theorem request_takes_effect_once
    {s s' : ServedSys κ ι P} {es : List (ServedEvent κ ι P)} {k : κ}
    (h : exec (ServedSys.step w unmatched) s es = some s')
    (hidle : s.requests k = .idle) :
    (Unchanged (trace (ServedSys.step w unmatched) (ServedSys.statementsOf k) s es) ∨
      ∃ endpoint p, .receive k endpoint (some p) ∈ es ∧
        Once (endpoint.Moves p)
          (trace (ServedSys.step w unmatched) (ServedSys.statementsOf k) s es)) ∧
      ∀ out, s'.requests k = .answered (.returns out) →
        ∃ endpoint p, .receive k endpoint (some p) ∈ es ∧
          Once (fun x => endpoint.Moves p x ∨ endpoint.Declines p x)
            (trace (ServedSys.step w unmatched) (ServedSys.statementsOf k) s es) ∧
          endpoint.Shows unmatched p
            (trace (ServedSys.step w unmatched) (ServedSys.statementsOf k) s es)
            (.returns out) := by
  have hcourse := course_of_exec k h
  rw [hidle] at hcourse
  rcases hcourse with ⟨hquiet, hno⟩ | ⟨endpoint, p, hmem, honce, hshows⟩
  · exact ⟨Or.inl hquiet, fun out hout => absurd hout (hno out)⟩
  · refine ⟨?_, fun out hout => ⟨endpoint, p, hmem, honce, hshows out hout⟩⟩
    exact honce.unchanged_or_moves.imp_right (fun hmoves => ⟨endpoint, p, hmem, hmoves⟩)

end Once

/-- One polling runner and the film pipeline, no request has arrived. -/
def filmServed : ServedSys Bool (Fin 1) Unit where
  api := filmRequests Bool
  requests _ := .idle

/-- The session applies the update to its copy, if the copy satisfies the condition. -/
def unmatchedSynchronized : Unmatched :=
  fun service pipeline =>
    if pipeline.status ∈ service.allowed_from then { pipeline with status := service.requested }
    else pipeline

/-- A run and a pause request, both read before either is committed, and a claim. -/
def overlappingRequests : List (ServedEvent Bool (Fin 1) Unit) :=
  [.receive false .run_pipeline_endpoint (some ()),
    .receive true .pause_pipeline_endpoint (some ()),
    .serve false .ok, .serve true .ok, .serve false .ok, .serve false .ok,
    .api (.platform (.runner (Fin.last 0) .ok)), .api (.platform (.runner (Fin.last 0) .ok)),
    .serve true .ok, .serve true .ok]

theorem overlapping_requests_are_platform_runs :
    ∃ s', exec (ServedSys.step World.plain unmatchedSynchronized) filmServed overlappingRequests =
        some s' ∧
      exec (Sys.step World.plain) filmServed.api.sys
        (trace (ServedSys.step World.plain unmatchedSynchronized) ServedSys.effects filmServed
          overlappingRequests) = some s'.api.sys := by
  have hrun : (exec (ServedSys.step World.plain unmatchedSynchronized) filmServed
      overlappingRequests).isSome = true := by
    decide +kernel
  obtain ⟨s', hexec⟩ := Option.isSome_iff_exists.mp hrun
  exact ⟨s', hexec, served_runs_are_platform_runs hexec⟩

/-- The second read of the pause request finds what its update has moved. -/
theorem overlapping_pause_took_effect_once :
    ∃ s' out, exec (ServedSys.step World.plain unmatchedSynchronized) filmServed
        overlappingRequests = some s' ∧
      s'.requests true = .answered (.returns out) ∧
      Once (StatusEndpoint.pause_pipeline_endpoint.Moves ())
        (trace (ServedSys.step World.plain unmatchedSynchronized) (ServedSys.statementsOf true)
          filmServed overlappingRequests) ∧
      StatusEndpoint.pause_pipeline_endpoint.Shows unmatchedSynchronized ()
        (trace (ServedSys.step World.plain unmatchedSynchronized) (ServedSys.statementsOf true)
          filmServed overlappingRequests) (.returns out) ∧
      (trace (ServedSys.step World.plain unmatchedSynchronized) (ServedSys.statementsOf true)
          filmServed overlappingRequests).map (fun x => (x.1.status (), x.2.status ())) =
        [(.IDLE, .IDLE), (.RUNNING, .PAUSE_REQUESTED), (.PAUSE_REQUESTED, .PAUSE_REQUESTED)] := by
  have hrun : (exec (ServedSys.step World.plain unmatchedSynchronized) filmServed
      overlappingRequests).any (fun s =>
        match s.requests true with
        | .answered (.returns _) => true
        | _ => false) = true := by
    decide +kernel
  have hstatuses : (trace (ServedSys.step World.plain unmatchedSynchronized)
      (ServedSys.statementsOf true) filmServed overlappingRequests).map
        (fun x => (x.1.status (), x.2.status ())) =
      [(.IDLE, .IDLE), (.RUNNING, .PAUSE_REQUESTED), (.PAUSE_REQUESTED, .PAUSE_REQUESTED)] := by
    decide +kernel
  have hendpoint : ∀ endpoint p, .receive true endpoint (some p) ∈ overlappingRequests →
      endpoint = .pause_pipeline_endpoint := by
    intro endpoint p hmem
    simpa [overlappingRequests] using hmem
  obtain ⟨s', hexec, hanswered⟩ := (Option.any_eq_true _ _).mp hrun
  obtain ⟨hquiet | ⟨endpoint, p, hmem, honce⟩, hshows⟩ :=
    request_takes_effect_once (k := true) hexec rfl
  · have hchange : (PipelineStatus.RUNNING, PipelineStatus.PAUSE_REQUESTED) ∈ _ :=
      hstatuses ▸ List.mem_cons_of_mem _ List.mem_cons_self
    obtain ⟨x, hx, hstatus⟩ := List.mem_map.mp hchange
    rw [hquiet x hx] at hstatus
    obtain ⟨hbefore, hafter⟩ := Prod.mk.inj hstatus
    exact absurd (hbefore.symm.trans hafter) (by decide)
  · obtain rfl := hendpoint endpoint p hmem
    split at hanswered
    · rename_i out hout
      obtain ⟨endpoint', p', hmem', -, hshown⟩ := hshows out hout
      obtain rfl := hendpoint endpoint' p' hmem'
      exact ⟨s', out, hexec, hout, honce, hshown, hstatuses⟩
    · cases hanswered

-- A run request that finds the pipeline claimed for another one changes nothing, and is
-- answered with the copy its session has made of the row.
example :
    (exec (ServedSys.step World.plain unmatchedSynchronized) filmServed
      [.receive false .run_pipeline_endpoint (some ()),
        .receive true .run_pipeline_endpoint (some ()),
        .serve false .ok, .serve true .ok, .serve true .ok,
        .api (.platform (.runner (Fin.last 0) .ok)), .api (.platform (.runner (Fin.last 0) .ok)),
        .serve false .ok, .serve false .ok]).any (fun s =>
      match s.requests false with
      | .answered (.returns out) =>
          decide (out.status = .RUN_REQUESTED ∧ s.api.sys.db.status () = .RUNNING)
      | _ => false) = true := by
  decide +kernel

end EtlPlatform
