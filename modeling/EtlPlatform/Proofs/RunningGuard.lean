import EtlPlatform.Proofs.Claims
import EtlPlatform.Proofs.PatchSteps

/-!
# Updates of a running pipeline

An update of a pipeline that is `RUNNING` is refused by a check of the row it
has read.  A claim between this check and the commit of the update lets it
change a pipeline that is running.

No update does on a run on which claims and updates of a pipeline do not
overlap in this way.
-/

namespace EtlPlatform

open Library

section RunningGuard

variable {κ ι P : Type} [DecidableEq κ] [DecidableEq ι] [DecidableEq P]

/-- The request has checked the status of `p` and has not committed. -/
def PatchRequest.PastCheck (p : P) : PatchRequest P → Prop
  | .checked q _ _ => q = p
  | .assigned q _ _ => q = p
  | _ => False

/-- The event claims no pipeline between the check of a request and its commit. -/
def ClaimsApart (s : ApiSys κ ι P) : ApiEvent κ ι P → Prop
  | .platform e => ∀ p, s.sys.claimed e = some p → ∀ k, ¬ (s.requests k).PastCheck p
  | _ => True

/-- A step of a request for a pipeline that is `RUNNING` leaves the row alone, and answers the
request with `PipelineIsRunningError` if its statement does not fail. -/
def RefusesRunning (s : ApiSys κ ι P) (e : ApiEvent κ ι P) (s' : ApiSys κ ι P) : Prop :=
  ∀ k c p, e = .patch k c → (s.requests k).pipeline = some p → s.sys.db.status p = .RUNNING →
    s'.sys.db.pipelines p = s.sys.db.pipelines p ∧
      (c = .ok → s'.requests k = .answered (.error cannotUpdateRunning))

/-- No request is past its check while its pipeline is running. -/
def PastCheckIdle (s : ApiSys κ ι P) : Prop :=
  ∀ k p, (s.requests k).PastCheck p → s.sys.db.status p ≠ .RUNNING

omit [DecidableEq P] in
theorem not_running_of_pastCheck
    {p q : P} {data : PipelineUpdate} {row : EtlPipeline}
    (h : (PatchRequest.check q data row).PastCheck p) :
    q = p ∧ row.status ≠ .RUNNING := by
  unfold PatchRequest.check at h
  split_ifs at h with hrun
  · exact h.elim
  · split at h
    · exact h.elim
    · exact ⟨h, hrun⟩

theorem status_setPipeline_of_flushed
    {db : Db P} {p : P} {data : PipelineUpdate} {loaded row : EtlPipeline}
    (h : FlushedRow loaded data (db.pipelines p) row) (q : P) :
    (db.setPipeline p row).status q = db.status q := by
  rw [setPipeline_eq_patchConfig h, Db.status_patchConfig]

omit [DecidableEq ι] [DecidableEq P] in
/-- A step of one request, seen from its own next state and from the other requests. -/
theorem PastCheckIdle.update
    {s : ApiSys κ ι P} (hs : PastCheckIdle s) {k : κ} {r : PatchRequest P}
    (hr : ∀ p, r.PastCheck p → s.sys.db.status p ≠ .RUNNING) (j : κ) (p : P)
    (hj : (Function.update s.requests k r j).PastCheck p) :
    s.sys.db.status p ≠ .RUNNING := by
  by_cases hjk : j = k
  · subst hjk
    exact hr p (by simpa using hj)
  · exact hs j p (by simpa [hjk] using hj)

/-- **One event** that keeps claims apart from requests leaves the checks good. -/
theorem PastCheckIdle.step
    {w : World} {s s' : ApiSys κ ι P} {e : ApiEvent κ ι P}
    (hs : PastCheckIdle s) (hapart : ClaimsApart s e) (h : s.step w e = some s') :
    PastCheckIdle s' := by
  cases e with
  | platform e =>
      obtain ⟨hsys, hrequests⟩ := apiStep_platform h
      intro k p hpast hrun
      rw [hrequests] at hpast
      rcases running_of_step hsys hrun with hbefore | hclaimed
      · exact hs k p hpast hbefore
      · exact hapart p hclaimed k hpast
  | receive k q body =>
      obtain ⟨hsys, r, hr, hrequests⟩ := apiStep_receive h
      intro j p hpast
      rw [hsys]
      rw [hrequests] at hpast
      refine hs.update (fun p hp => ?_) j p hpast
      rcases hr with ⟨res, rfl⟩ | ⟨data, rfl⟩ <;> exact hp.elim
  | patch k c =>
      obtain ⟨r₀, db, r, hr₀, heffect, rfl⟩ := apiStep_patch h
      have hbefore := hs k
      rw [hr₀] at hbefore
      intro j p hpast
      cases heffect with
      | failed _ =>
          exact hs.update (r := .answered _) (fun _ hp => hp.elim) j p hpast
      | checked =>
          refine hs.update (fun p hp => ?_) j p hpast
          obtain ⟨rfl, hrow⟩ := not_running_of_pastCheck hp
          exact hrow
      | assigned =>
          exact hs.update (r := .assigned _ _ _) hbefore j p hpast
      | refused =>
          exact hs.update (r := .answered _) (fun _ hp => hp.elim) j p hpast
      | committed hrow =>
          rw [status_setPipeline_of_flushed hrow]
          exact hs.update (r := .answered _) (fun _ hp => hp.elim) j p hpast

/-- **No update changes a running pipeline** on a run on which no claim comes between the
check of an update and its commit. -/
theorem running_refused_of_claims_apart
    {w : World} {s s' : ApiSys κ ι P} {e : ApiEvent κ ι P}
    (hreach : Reach (ApiSys.step w) ApiSys.Quiet ClaimsApart s)
    (h : s.step w e = some s') :
    RefusesRunning s e s' := by
  have hidle : PastCheckIdle s := by
    refine hreach.invariant (I := PastCheckIdle) ?_ (fun _ _ _ hs hc hst => hs.step hc hst)
    intro s hquiet k p hpast
    rw [hquiet k] at hpast
    exact hpast.elim
  rintro k c p rfl hpipeline hrun
  obtain ⟨r₀, db, r, hr₀, heffect, rfl⟩ := apiStep_patch h
  have hpast := hidle k p
  rw [hr₀] at hpast hpipeline
  cases heffect with
  | failed hc =>
      exact ⟨rfl, fun hok => absurd hok hc⟩
  | checked =>
      obtain rfl := Option.some.inj hpipeline
      have hstatus : (s.sys.db.pipelines _).status = .RUNNING := hrun
      exact ⟨rfl, fun _ => by simp [PatchRequest.check, hstatus]⟩
  | assigned =>
      exact absurd hrun (hpast (Option.some.inj hpipeline))
  | refused =>
      exact absurd hrun (hpast (Option.some.inj hpipeline))
  | committed _ =>
      exact absurd hrun (hpast (Option.some.inj hpipeline))

instance (p : P) : DecidablePred (PatchRequest.PastCheck (P := P) p)
  | .checked q _ _ => inferInstanceAs (Decidable (q = p))
  | .assigned q _ _ => inferInstanceAs (Decidable (q = p))
  | .idle | .reading .. | .answered _ => .isFalse id

instance (n : ℕ) (s : ApiSys (Fin n) ι P) (e : ApiEvent (Fin n) ι P) :
    Decidable (ClaimsApart s e) :=
  match e with
  | .receive .. => isTrue trivial
  | .patch .. => isTrue trivial
  | .platform e =>
      match hclaimed : s.sys.claimed e with
      | none => isTrue (by simp [ClaimsApart, hclaimed])
      | some p =>
          decidable_of_iff (∀ k, ¬ (s.requests k).PastCheck p)
            (by simp [ClaimsApart, hclaimed])

end RunningGuard

/-- A request that arrives after the claim. -/
theorem running_refused_after_claim :
    ∃ s s' : ApiSys (Fin 1) (Fin 1) Unit,
      (s.sys.db.status () = .RUNNING ∧ (s.requests 0).pipeline = some ()) ∧
      RefusesRunning s (.patch 0 .ok) s' := by
  have hrun : ∃ s : ApiSys (Fin 1) (Fin 1) Unit,
      Reach (ApiSys.step World.plain) ApiSys.Quiet ClaimsApart s ∧
      (s.sys.db.status () = .RUNNING ∧ (s.requests 0).pipeline = some ()) ∧
      (s.step World.plain (.patch 0 .ok)).isSome = true :=
    Reach.exists_of_replay (filmRequests (Fin 1))
      [.platform (.run ()), .platform (.runner 0 .ok), .platform (.runner 0 .ok),
        .receive 0 () { batch_size := some (some 500) }]
      (fun _ => rfl) (by decide +kernel)
  obtain ⟨s, hreach, hrow, hsome⟩ := hrun
  obtain ⟨s', hstep⟩ := Option.isSome_iff_exists.mp hsome
  exact ⟨s, s', hrow, running_refused_of_claims_apart hreach hstep⟩

/-- An update that is checked before the claim and committed after it. -/
theorem running_pipeline_updated :
    ¬ ∀ (s s' : ApiSys (Fin 1) (Fin 1) Unit) (e : ApiEvent (Fin 1) (Fin 1) Unit),
        Reach (ApiSys.step World.plain) ApiSys.Quiet (fun _ _ => True) s →
        s.step World.plain e = some s' →
        RefusesRunning s e s' := by
  intro hall
  have hrun : ∃ s : ApiSys (Fin 1) (Fin 1) Unit,
      Reach (ApiSys.step World.plain) ApiSys.Quiet (fun _ _ => True) s ∧
      (s.sys.db.status () = .RUNNING ∧ (s.requests 0).pipeline = some () ∧
        (s.sys.db.pipelines ()).batch_size = 2) ∧
      (s.step World.plain (.patch 0 .ok)).any (fun t =>
        decide ((t.sys.db.pipelines ()).batch_size = 500)) = true :=
    Reach.exists_of_replay (filmRequests (Fin 1))
      [.receive 0 () { batch_size := some (some 500) }, .patch 0 .ok,
        .platform (.run ()), .platform (.runner 0 .ok), .platform (.runner 0 .ok), .patch 0 .ok]
      (fun _ => rfl) (by decide +kernel)
  obtain ⟨s, hreach, ⟨hrunning, hpipeline, hsize⟩, hany⟩ := hrun
  obtain ⟨s', hstep, hnew⟩ := (Option.any_eq_true _ _).mp hany
  have hsame := (hall s s' _ hreach hstep 0 .ok () rfl hpipeline hrunning).1
  have hnew' := of_decide_eq_true hnew
  rw [hsame, hsize] at hnew'
  cases hnew'

end EtlPlatform
