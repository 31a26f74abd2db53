import CurveLock.Proofs.Scratch

/-!
# What a refusal leaves behind

An argument is refused before anything is counted, drawn or recorded, except for two reasons that
only arithmetic can find (`Rejection.steps`).  Here are the rules by which this is shown of a
program, step by step.

* `RefusesOnly A e`: where the result `e` is a refusal, its reason is one of `A`;
* `Metered.Proceeds x P`: the program refuses nothing, and what it returns has the property;
* `Metered.Cautious late x P`: where the program refuses, the scratch is as it was, up to the steps
  that are counted for a reason in `late`; what it returns has the property.

A program is cautious when it first reads its arguments, which needs no scratch, and then proceeds
(`Metered.cautious_lift_bind`, `Metered.Proceeds.cautious`).
-/

namespace CurveLock

/-- The steps that are counted before an argument is refused for a reason: a multiplication and an
addition until nothing is left of a message, a multiplication until a public key is seen to be
another. -/
def Rejection.steps : Rejection → Nat
  | .decryptsToInfinity => 2
  | .publicKeyMismatch => 1
  | _ => 0

variable {α β : Type} {A : Rejection → Prop}

/-! ### Results -/

/-- Where the result is a refusal, its reason is one of `A`. -/
def RefusesOnly (A : Rejection → Prop) (e : Except Failure α) : Prop :=
  ∀ r, e = .error (.refused r) → A r

/-- The result is no refusal. -/
abbrev Unrefused (e : Except Failure α) : Prop := RefusesOnly (fun _ => False) e

/-- Where the result is a refusal, it is for a reason that is found without counting. -/
abbrev RefusesEarly (e : Except Failure α) : Prop := RefusesOnly (fun r => r.steps = 0) e

@[simp] theorem refusesOnly_ok (a : α) : RefusesOnly A (.ok a) := by
  intro r h
  cases h

@[simp] theorem refusesOnly_pure (a : α) : RefusesOnly A (pure a) := refusesOnly_ok a

@[simp] theorem refusesOnly_error_iff {f : Failure} :
    RefusesOnly A (.error f : Except Failure α) ↔ ∀ r, f = .refused r → A r := by
  simp only [RefusesOnly, Except.error.injEq]

@[simp] theorem refusesOnly_throw_iff {f : Failure} :
    RefusesOnly A (throw f : Except Failure α) ↔ ∀ r, f = .refused r → A r :=
  refusesOnly_error_iff

/-- What follows counts only where the first part returns. -/
@[simp] theorem refusesOnly_bind_iff {x : Except Failure α} {f : α → Except Failure β} :
    RefusesOnly A (x >>= f) ↔ RefusesOnly A x ∧ ∀ a, x = .ok a → RefusesOnly A (f a) := by
  rcases x with e | a
  · simp only [reduceCtorEq, false_implies, implies_true, and_true]
    exact refusesOnly_error_iff.trans refusesOnly_error_iff.symm
  · simp only [refusesOnly_ok, true_and, Except.ok.injEq, forall_eq']
    rfl

@[simp] theorem refusesOnly_map_iff {x : Except Failure α} {f : α → β} :
    RefusesOnly A (f <$> x) ↔ RefusesOnly A x := by
  rcases x with e | a
  · exact refusesOnly_error_iff.trans refusesOnly_error_iff.symm
  · exact iff_of_true (refusesOnly_ok (f a)) (refusesOnly_ok a)

theorem Unrefused.ne_refused {e : Except Failure α} {f : Failure} (h : Unrefused e)
    (hf : e = .error f) (r : Rejection) : f ≠ .refused r := by
  rintro rfl
  exact h r hf

/-- A refusal whose message cannot be written becomes another failure. -/
@[simp] theorem refuse_eq_refused_iff {r r' : Rejection} :
    Failure.refuse r = .refused r' ↔ Failure.writable r.integers = true ∧ r = r' := by
  rw [Failure.refuse]
  split_ifs with h <;> simp [h]

@[simp] theorem breakdown_ne_refused (b : Breakdown) (r : Rejection) :
    Failure.breakdown b ≠ .refused r := by
  rw [Failure.breakdown]
  split_ifs <;> simp

namespace Metered

variable {P : α → Prop} {R : β → Prop}

/-! ### Programs that refuse nothing -/

/-- The program refuses nothing, and what it returns has the property. -/
def Proceeds (x : Metered α) (P : α → Prop) : Prop :=
  ∀ s, (∃ a s', x.run s = .ok a s' ∧ P a) ∨ ∃ f s', x.run s = .error f s' ∧ ∀ r, f ≠ .refused r

theorem proceeds_pure {a : α} (h : P a) : Proceeds (pure a) P := fun s => .inl ⟨a, s, rfl, h⟩

theorem proceeds_throw {f : Failure} (h : ∀ r, f ≠ .refused r) :
    Proceeds (throw f : Metered α) P := fun s => .inr ⟨f, s, rfl, h⟩

theorem proceeds_tick : Proceeds tick fun _ => True := fun _ => .inl ⟨(), _, rfl, trivial⟩

theorem proceeds_record (e : Event) : Proceeds (record e) fun _ => True :=
  fun _ => .inl ⟨(), _, rfl, trivial⟩

theorem proceeds_draw (n : Nat) : Proceeds (draw n) fun _ => True := by
  intro s
  rcases h : s.supply with _ | ⟨v, rest⟩
  · exact .inr ⟨_, _, run_draw_nil n s h, by simp⟩
  · exact .inl ⟨_, _, run_draw_cons n v rest s h, trivial⟩

theorem proceeds_lift {e : Except Failure α} (h : Unrefused e) (hP : ∀ a, e = .ok a → P a) :
    Proceeds (liftM e) P := by
  intro s
  rcases e with f | a
  · exact .inr ⟨f, s, rfl, fun r hr => h r (congrArg _ hr)⟩
  · exact .inl ⟨a, s, rfl, hP a rfl⟩

theorem Proceeds.bind {x : Metered α} {f : α → Metered β} (hx : Proceeds x P)
    (hf : ∀ a, P a → Proceeds (f a) R) : Proceeds (x >>= f) R := by
  intro s
  rw [EStateM.run_bind]
  rcases hx s with ⟨a, s', h, hP⟩ | ⟨e, s', h, he⟩
  · rw [h]
    exact hf a hP s'
  · rw [h]
    exact .inr ⟨e, s', rfl, he⟩

/-- A counted step, and then the rest. -/
theorem proceeds_tick_bind {f : Unit → Metered β} (h : Proceeds (f ()) R) :
    Proceeds (tick >>= f) R := proceeds_tick.bind fun _ _ => h

/-- A check that fails in another way, and then the rest. -/
theorem proceeds_check {p : Prop} [Decidable p] {f : Failure} {rest : PUnit → Metered β}
    (hf : ∀ r, f ≠ .refused r) (hrest : ¬ p → Proceeds (rest ⟨⟩) R) :
    Proceeds (if p then throw f >>= rest else rest ⟨⟩) R := by
  split_ifs with h
  · exact fun s => .inr ⟨f, s, rfl, hf⟩
  · exact hrest h

theorem Proceeds.run_ne_refused {x : Metered α} (h : x.Proceeds P) (s s' : Scratch)
    (r : Rejection) : x.run s ≠ .error (.refused r) s' := by
  intro hr
  rcases h s with ⟨a, s₁, ha, -⟩ | ⟨f, s₁, hf, hne⟩
  · cases ha.symm.trans hr
  · cases hf.symm.trans hr
    exact hne r rfl

/-! ### Programs that refuse before they do anything else -/

variable {late : Rejection → Prop}

/-- Where the program refuses, it has counted the steps after which the reason is found, and has
done nothing else.  Reasons that take a step are among `late`.  What the program returns has the
property. -/
def Cautious (late : Rejection → Prop) (x : Metered α) (P : α → Prop) : Prop :=
  ∀ s, (∃ a s', x.run s = .ok a s' ∧ P a) ∨ ∃ f s', x.run s = .error f s' ∧
    ∀ r, f = .refused r → s' = { s with opCount := s.opCount + r.steps } ∧ (r.steps ≠ 0 → late r)

/-- What a cautious program leaves behind where it refuses. -/
theorem Cautious.of_refused {x : Metered α} (h : x.Cautious late P) {s s' : Scratch} {r : Rejection}
    (hr : x.run s = .error (.refused r) s') :
    s' = { s with opCount := s.opCount + r.steps } ∧ (r.steps ≠ 0 → late r) := by
  rcases h s with ⟨a, s₁, ha, -⟩ | ⟨f, s₁, hf, hleaves⟩
  · cases ha.symm.trans hr
  · cases hf.symm.trans hr
    exact hleaves r rfl

/-- What a program has returned has the property, for whatever reasons it may refuse. -/
theorem Cautious.of_run {x : Metered α} (h : x.Cautious (fun _ => True) P) {a : α}
    {s s' : Scratch} (hr : x.run s = .ok a s') : P a := by
  rcases h s with ⟨a', s₁, hr', ha'⟩ | ⟨f, s₁, hr', -⟩
  · cases hr.symm.trans hr'
    exact ha'
  · cases hr.symm.trans hr'

/-- Where nothing is refused, whatever is asked of refusals holds. -/
theorem Proceeds.outcome {x : Metered α} (h : x.Proceeds P) (L : Rejection → Scratch → Prop)
    (s : Scratch) : (∃ a s', x.run s = .ok a s' ∧ P a) ∨
      ∃ f s', x.run s = .error f s' ∧ ∀ r, f = .refused r → L r s' := by
  rcases h s with hok | ⟨f, s', hf, hne⟩
  · exact .inl hok
  · exact .inr ⟨f, s', hf, fun r hr => absurd hr (hne r)⟩

theorem Proceeds.cautious {x : Metered α} (h : x.Proceeds P) : x.Cautious late P :=
  fun s => h.outcome _ s

/-- What needs no scratch leaves it as it was. -/
theorem cautious_lift_bind {e : Except Failure α} {f : α → Metered β} (h : RefusesEarly e)
    (hf : ∀ a, e = .ok a → (f a).Cautious late R) : Cautious late (liftM e >>= f) R := by
  rcases e with e | a
  · refine fun s => .inr ⟨e, s, rfl, ?_⟩
    rintro r rfl
    have hsteps : r.steps = 0 := h r rfl
    rw [hsteps]
    exact ⟨rfl, fun hne => absurd rfl hne⟩
  · exact hf a rfl

theorem cautious_lift {e : Except Failure α} (h : RefusesEarly e) :
    Cautious late (liftM e) fun _ => True := by
  rw [← bind_pure (liftM e : Metered α)]
  exact cautious_lift_bind h fun _ _ => (proceeds_pure trivial).cautious

/-- After a refusal nothing follows. -/
theorem cautious_refuse_bind {r : Rejection} (h : r.steps = 0) {f : α → Metered β} :
    Cautious late (refuse r >>= f) R := by
  refine cautious_lift_bind (e := .error (.refuse r)) ?_ fun _ ha => ?_
  · rw [RefusesEarly, refusesOnly_error_iff]
    rintro r' hr'
    obtain ⟨-, rfl⟩ := refuse_eq_refused_iff.1 hr'
    exact h
  · cases ha

theorem cautious_refuse {r : Rejection} (h : r.steps = 0) : Cautious late (refuse r) P := by
  rw [← bind_pure (refuse r : Metered α)]
  exact cautious_refuse_bind h

/-- A check that refuses, and then the rest. -/
theorem cautious_guard {p : Prop} [Decidable p] {r : Rejection} {rest : PUnit → Metered β}
    (hr : r.steps = 0) (hrest : ¬ p → (rest ⟨⟩).Cautious late R) :
    Cautious late (if p then refuse r >>= rest else rest ⟨⟩) R := by
  split_ifs with h
  · exact cautious_refuse_bind hr
  · exact hrest h

theorem cautious_check {p : Prop} [Decidable p] {f : Failure} {rest : PUnit → Metered β}
    (hf : ∀ r, f ≠ .refused r) (hrest : ¬ p → (rest ⟨⟩).Cautious late R) :
    Cautious late (if p then throw f >>= rest else rest ⟨⟩) R := by
  split_ifs with h
  · exact fun s => .inr ⟨f, s, rfl, fun r hr => absurd hr (hf r)⟩
  · exact hrest h

/-- After the first part nothing is refused. -/
theorem Cautious.bind {x : Metered α} {f : α → Metered β} (hx : x.Cautious late P)
    (hf : ∀ a, P a → (f a).Proceeds R) : Cautious late (x >>= f) R := by
  intro s
  rw [EStateM.run_bind]
  rcases hx s with ⟨a, s', h, hP⟩ | ⟨e, s', h, he⟩
  · rw [h]
    -- what follows starts from another scratch, and refuses nothing there
    exact (hf a hP).outcome _ s'
  · rw [h]
    exact .inr ⟨e, s', rfl, he⟩

/-- Handing the outcome on changes nothing. -/
theorem Cautious.returning {x : Metered α} (hx : x.Cautious late P) (g : α → β) :
    Cautious late (do return g (← x)) fun _ => True :=
  hx.bind fun _ _ => proceeds_pure trivial

/-! ### Programs that only refuse -/

/-- The program refuses, and the scratch stays as it was. -/
def Refuses (x : Metered α) : Prop := ∀ s, ∃ r, x.run s = .error (.refused r) s

theorem refuses_lift_bind {e : Except Failure α} {f : α → Metered β}
    (h : ∃ r, e = .error (.refused r)) : (liftM e >>= f).Refuses := by
  obtain ⟨r, rfl⟩ := h
  exact fun s => ⟨r, rfl⟩

end Metered

end CurveLock
