import CurveLock.Scratch
import Mathlib.Data.List.Forall2

/-!
# Taking counted programs apart

What the steps of a program do to the scratch, one after the other, and what is known of the steps
when the whole program has returned.
-/

namespace CurveLock

namespace Metered

variable {α β : Type}

/-- What a program returns, without the scratch that it leaves. -/
def result (x : Metered α) (s : Scratch) : Except Failure α :=
  match x.run s with
  | .ok a _ => .ok a
  | .error f _ => .error f

/-- The scratch that a program leaves, also where it fails. -/
def after (x : Metered α) (s : Scratch) : Scratch :=
  match x.run s with
  | .ok _ s' | .error _ s' => s'

/-- Programs that run alike are the same. -/
theorem eq_of_run_eq {x y : Metered α} (h : ∀ s, x.run s = y.run s) : x = y := funext h

theorem result_eq_ok {x : Metered α} {a : α} {s s' : Scratch} (h : x.run s = .ok a s') :
    x.result s = .ok a := by
  rw [result, h]

/-- A program that returns the same from every scratch has this as its result. -/
theorem result_of_forall_run {x : Metered α} {a : α} (h : ∀ s, ∃ s', x.run s = .ok a s')
    (s : Scratch) : x.result s = .ok a := by
  obtain ⟨s', hs'⟩ := h s
  exact result_eq_ok hs'

theorem exists_run_of_result_eq_ok {x : Metered α} {a : α} {s : Scratch}
    (h : x.result s = .ok a) : ∃ s', x.run s = .ok a s' := by
  rw [result] at h
  rcases hx : x.run s with ⟨b, s'⟩ | ⟨e, s'⟩
  · rw [hx] at h
    cases h
    exact ⟨s', rfl⟩
  · rw [hx] at h
    cases h

theorem exists_run_of_result_eq_error {x : Metered α} {f : Failure} {s : Scratch}
    (h : x.result s = .error f) : ∃ s', x.run s = .error f s' := by
  rw [result] at h
  rcases hx : x.run s with ⟨a, s'⟩ | ⟨e, s'⟩
  · rw [hx] at h
    cases h
  · rw [hx] at h
    cases h
    exact ⟨s', rfl⟩

theorem result_pure (a : α) (s : Scratch) : (pure a : Metered α).result s = .ok a := rfl

theorem result_lift (e : Except Failure α) (s : Scratch) : (liftM e : Metered α).result s = e := by
  cases e <;> rfl

theorem run_lift_ok (a : α) (s : Scratch) :
    (liftM (Except.ok a : Except Failure α) : Metered α).run s = .ok a s := rfl

theorem run_lift_error (f : Failure) (s : Scratch) :
    (liftM (Except.error f : Except Failure α) : Metered α).run s = .error f s := rfl

theorem run_lift_eq_ok_iff {e : Except Failure α} {a : α} {s s' : Scratch} :
    (liftM e : Metered α).run s = .ok a s' ↔ e = .ok a ∧ s = s' := by
  rcases e with f | b
  · rw [run_lift_error]
    constructor
    · intro h
      cases h
    · rintro ⟨h, -⟩
      cases h
  · rw [run_lift_ok, EStateM.Result.ok.injEq, Except.ok.injEq]

/-- A program that has returned has returned from its first step and from what follows it. -/
theorem run_bind_eq_ok_iff {x : Metered α} {f : α → Metered β} {b : β} {s s' : Scratch} :
    (x >>= f).run s = .ok b s' ↔ ∃ a s₁, x.run s = .ok a s₁ ∧ (f a).run s₁ = .ok b s' := by
  rw [EStateM.run_bind]
  rcases x.run s with ⟨a, s₁⟩ | ⟨e, s₁⟩
  · constructor
    · intro h
      exact ⟨a, s₁, rfl, h⟩
    · rintro ⟨a', s₁', h, h'⟩
      cases h
      exact h'
  · constructor
    · intro h
      cases h
    · rintro ⟨a', s₁', h, -⟩
      cases h

/-- After a step that returns, the result is that of what follows it. -/
theorem result_bind {x : Metered α} {a : α} {s s' : Scratch} (h : x.run s = .ok a s')
    (f : α → Metered β) : (x >>= f).result s = (f a).result s' := by
  rw [result, EStateM.run_bind, h]
  rfl

/-- After a step that fails, nothing follows. -/
theorem result_bind_error {x : Metered α} {e : Failure} {s s' : Scratch}
    (h : x.run s = .error e s') (f : α → Metered β) : (x >>= f).result s = .error e := by
  rw [result, EStateM.run_bind, h]

/-- The same for results that need no scratch. -/
theorem except_bind_eq_ok_iff {x : Except Failure α} {f : α → Except Failure β} {b : β} :
    (x >>= f) = .ok b ↔ ∃ a, x = .ok a ∧ f a = .ok b := by
  rcases x with e | a
  · constructor
    · intro h
      cases h
    · rintro ⟨a, h, -⟩
      cases h
  · constructor
    · intro h
      exact ⟨a, rfl, h⟩
    · rintro ⟨a', h, h'⟩
      cases h
      exact h'

/-- Programs that return whatever the scratch do so one after the other. -/
theorem run_mapM {f : α → Metered β} {xs : List α} {ys : List β}
    (h : List.Forall₂ (fun x y => ∀ s, ∃ s', (f x).run s = .ok y s') xs ys) :
    ∀ s, ∃ s', (xs.mapM f).run s = .ok ys s' := by
  induction h with
  | nil => exact fun s => ⟨s, rfl⟩
  | cons hxy _ ih =>
    intro s
    obtain ⟨s₁, h₁⟩ := hxy s
    obtain ⟨s₂, h₂⟩ := ih s₁
    refine ⟨s₂, ?_⟩
    rw [List.mapM_cons, EStateM.run_bind, h₁]
    simp only [EStateM.run_bind, h₂]
    rfl

end Metered

end CurveLock
