import Mathlib.Data.List.Forall2
import Mathlib.Tactic.Common

/-!
# Computations that may fail

What is known once a computation in `Except` has returned: every step of a
sequence has returned, no check in front of it has raised, and a list that was
mapped has been mapped element by element.  A program that also has a state runs
its parts one after the other and keeps the state when it raises.
-/

namespace EtlPlatform
namespace Library

universe u v

section Sequences

variable {ε α β : Type u}

/-- A sequence returns when both of its parts do. -/
theorem bind_eq_ok_iff
    {x : Except ε α} {f : α → Except ε β} {b : β} :
    x >>= f = .ok b ↔ ∃ a, x = .ok a ∧ f a = .ok b := by
  cases x with
  | error e =>
      simp [bind, Except.bind]
  | ok a =>
      simp [bind, Except.bind]

theorem pure_eq_ok_iff
    {a b : α} :
    (pure a : Except ε α) = .ok b ↔ a = b := by
  simp [pure, Except.pure]

/-- What follows a check returns only if the check lets it. -/
theorem check_eq_ok_iff
    {c : Prop} [Decidable c] {e : ε} {f : PUnit → Except ε β} {b : β} :
    (if c then throw e >>= f else f ⟨⟩) = .ok b ↔ ¬ c ∧ f ⟨⟩ = .ok b := by
  by_cases h : c <;> simp [h, throw, throwThe, MonadExceptOf.throw, bind, Except.bind]

/-- A sequence fails in its first part, or after it in its second. -/
theorem bind_eq_error_iff
    {x : Except ε α} {f : α → Except ε β} {e : ε} :
    x >>= f = .error e ↔ x = .error e ∨ ∃ a, x = .ok a ∧ f a = .error e := by
  cases x with
  | error e' =>
      simp [bind, Except.bind]
  | ok a =>
      simp [bind, Except.bind]

/-- What fails behind a check is the check, or what it lets through. -/
theorem check_eq_error_iff
    {c : Prop} [Decidable c] {e e' : ε} {f : PUnit → Except ε β} :
    (if c then throw e >>= f else f ⟨⟩) = .error e' ↔
      (c ∧ e = e') ∨ (¬ c ∧ f ⟨⟩ = .error e') := by
  by_cases h : c <;> simp [h, throw, throwThe, MonadExceptOf.throw, bind, Except.bind]

theorem map_eq_ok_iff
    {x : Except ε α} {f : α → β} {b : β} :
    x.map f = .ok b ↔ ∃ a, x = .ok a ∧ f a = b := by
  cases x with
  | error e =>
      simp [Except.map]
  | ok a =>
      simp [Except.map]

end Sequences

section Accumulation

variable {ε α β : Type}

/-- Apply a checked function to a checked argument; the errors of both are kept. -/
def collect (f : Except (List ε) (α → β)) (x : Except (List ε) α) : Except (List ε) β :=
  match f, x with
  | .ok f, .ok a => .ok (f a)
  | .ok _, .error es => .error es
  | .error es, .ok _ => .error es
  | .error es, .error es' => .error (es ++ es')

/-- Nothing is refused when neither part is. -/
theorem collect_eq_ok_iff
    {f : Except (List ε) (α → β)} {x : Except (List ε) α} {b : β} :
    collect f x = .ok b ↔ ∃ g a, f = .ok g ∧ x = .ok a ∧ g a = b := by
  cases f <;> cases x <;> simp [collect]

end Accumulation

section Lists

variable {α : Type u} {ε β : Type v} {f : α → Except ε β}

theorem mapM_cons_eq_ok_iff
    {a : α} {l : List α} {bs : List β} :
    (a :: l).mapM f = .ok bs ↔ ∃ b, f a = .ok b ∧ ∃ rest, l.mapM f = .ok rest ∧ b :: rest = bs := by
  simp only [List.mapM_cons, bind_eq_ok_iff, pure_eq_ok_iff]

/-- **A list is mapped element by element.** -/
theorem mapM_eq_ok_iff
    {l : List α} {bs : List β} :
    l.mapM f = .ok bs ↔ List.Forall₂ (fun a b => f a = .ok b) l bs := by
  induction l generalizing bs with
  | nil =>
      simp only [List.mapM_nil, pure_eq_ok_iff, List.forall₂_nil_left_iff]
      exact eq_comm
  | cons a l ih =>
      simp only [mapM_cons_eq_ok_iff, ih, List.forall₂_cons_left_iff]
      constructor
      · rintro ⟨b, hb, rest, hrest, rfl⟩
        exact ⟨b, rest, hb, hrest, rfl⟩
      · rintro ⟨b, rest, hb, hrest, rfl⟩
        exact ⟨b, hb, rest, hrest, rfl⟩

/-- Mapping in two rounds returns what mapping in one does. -/
theorem mapM_bind_mapM_eq_ok_iff
    {γ : Type v} {g : β → Except ε γ} {l : List α} {cs : List γ} :
    (l.mapM f >>= fun bs => bs.mapM g) = .ok cs ↔ l.mapM (fun a => f a >>= g) = .ok cs := by
  rw [bind_eq_ok_iff]
  induction l generalizing cs with
  | nil =>
      simp only [List.mapM_nil, pure_eq_ok_iff, exists_eq_left']
  | cons a l ih =>
      simp only [mapM_cons_eq_ok_iff, bind_eq_ok_iff]
      constructor
      · rintro ⟨_, ⟨b, hb, rest, hrest, rfl⟩, hcs⟩
        obtain ⟨c, hc, cs', hcs', rfl⟩ := mapM_cons_eq_ok_iff.mp hcs
        exact ⟨c, ⟨b, hb, hc⟩, cs', ih.mp ⟨rest, hrest, hcs'⟩, rfl⟩
      · rintro ⟨c, ⟨b, hb, hc⟩, cs', hcs', rfl⟩
        obtain ⟨rest, hrest, hcs'⟩ := ih.mpr hcs'
        exact ⟨b :: rest, ⟨b, hb, rest, hrest, rfl⟩,
          mapM_cons_eq_ok_iff.mpr ⟨c, hc, cs', hcs', rfl⟩⟩

variable {l : List α} {bs : List β}

theorem exists_mem_of_mapM
    (h : l.mapM f = .ok bs) {a : α} (ha : a ∈ l) :
    ∃ b ∈ bs, f a = .ok b := by
  rw [mapM_eq_ok_iff] at h
  induction h with
  | nil =>
      cases ha
  | cons hb _ ih =>
      rcases List.mem_cons.mp ha with rfl | ha
      · exact ⟨_, List.mem_cons_self, hb⟩
      · obtain ⟨b, hmem, hab⟩ := ih ha
        exact ⟨b, List.mem_cons_of_mem _ hmem, hab⟩

theorem mem_of_mapM
    (h : l.mapM f = .ok bs) {b : β} (hb : b ∈ bs) :
    ∃ a ∈ l, f a = .ok b := by
  rw [mapM_eq_ok_iff] at h
  induction h with
  | nil =>
      cases hb
  | cons hab _ ih =>
      rcases List.mem_cons.mp hb with rfl | hb
      · exact ⟨_, List.mem_cons_self, hab⟩
      · obtain ⟨a, hmem, hab⟩ := ih hb
        exact ⟨a, List.mem_cons_of_mem _ hmem, hab⟩

/-- The results, computed without looking at errors. -/
theorem filterMap_of_mapM
    (h : l.mapM f = .ok bs) :
    l.filterMap (fun a => (f a).toOption) = bs := by
  rw [mapM_eq_ok_iff] at h
  induction h with
  | nil =>
      rfl
  | cons hab _ ih =>
      rw [List.filterMap_cons_some (by rw [hab]; rfl), ih]

/-- A map all of whose calls return returns. -/
theorem exists_mapM_eq_ok
    (h : ∀ a ∈ l, ∃ b, f a = .ok b) :
    ∃ bs, l.mapM f = .ok bs := by
  induction l with
  | nil =>
      exact ⟨[], rfl⟩
  | cons a l ih =>
      obtain ⟨b, hb⟩ := h a List.mem_cons_self
      obtain ⟨bs, hbs⟩ := ih (fun a ha => h a (List.mem_cons_of_mem _ ha))
      exact ⟨b :: bs, mapM_cons_eq_ok_iff.mpr ⟨b, hb, bs, hbs, rfl⟩⟩

/-- A function that fails everywhere fails on every nonempty list. -/
theorem mapM_eq_error
    {e : ε} (h : ∀ a, f a = .error e) (hne : l ≠ []) :
    l.mapM f = .error e := by
  cases l with
  | nil =>
      exact absurd rfl hne
  | cons a l =>
      rw [List.mapM_cons, h a]
      rfl

end Lists

section Programs

variable {ε σ α β : Type u}

@[simp] theorem bind_apply
    (x : EStateM ε σ α) (f : α → EStateM ε σ β) (s : σ) :
    (x >>= f) s =
      match x s with
      | .ok a s' => f a s'
      | .error e s' => .error e s' := by
  change EStateM.bind x f s = _
  unfold EStateM.bind
  cases x s <;> rfl

@[simp] theorem pure_apply
    (a : α) (s : σ) :
    (pure a : EStateM ε σ α) s = .ok a s := by
  rfl

@[simp] theorem get_apply
    (s : σ) :
    (get : EStateM ε σ σ) s = .ok s s := by
  rfl

end Programs

end Library
end EtlPlatform
