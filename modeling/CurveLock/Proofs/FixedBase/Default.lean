import CurveLock.Proofs.Refusal.Reports
import CurveLock.Proofs.Text.Numeral

/-!
# The process default and its history

A process changes its environment, replaces the default settings, looks them up and makes fixed
bases, in any order (`Process.run`).  Which settings a look-up yields depends on all that has
happened, but can be read off it: they are those that the default was last replaced with, or else
those of the first environment that had valid ones among the environments in which a look-up was
made since the default was last to be read again (`Process.loaded_run`).

* `Step`, `Process`: what a process does, and what it has;
* `Environment.after`, `lookUps`, `firstValid`: the history of the environment, of the look-ups, and
  the settings that they are decided by;
* `Settings.refused_of_ofEnvironment`: an environment without valid settings is refused as an
  argument;
* `BuiltWith`: a fixed base of given settings;
* `Process.default_settings`: what a look-up yields, and what is made of it.
-/

namespace CurveLock

namespace FixedBase

/-! ### Processes -/

/-- One step of a process. -/
inductive Step where
  /-- Sets the variable that asks for a table; null unsets it. -/
  | setUseTable (value : Datum)
  /-- Sets the variable that holds the window; null unsets it. -/
  | setWindow (value : Datum)
  /-- Replaces the default settings; none has them read again. -/
  | set (chosen : Option Settings)
  /-- Looks the default settings up. -/
  | get
  /-- Makes a fixed base, with the given settings or with the default ones, in a scratch. -/
  | make (given : Option Settings) (base modulus : Datum) (s : Scratch)

/-- What a process has: the defaults, and the fixed bases made so far, oldest first. -/
structure Process where
  defaults : Defaults
  made : List FixedBase := []

/-- A process that has done nothing yet. -/
def Process.start (env : Environment) : Process := { defaults := { environment := env } }

/-- The process after a step. A variable that cannot be set stays as it is, and a fixed base that
cannot be made is none. -/
def Process.step (p : Process) : Step → Process
  | .setUseTable value =>
    { p with defaults := (p.defaults.setUseTable value).toOption.getD p.defaults }
  | .setWindow value =>
    { p with defaults := (p.defaults.setWindow value).toOption.getD p.defaults }
  | .set chosen => { p with defaults := p.defaults.set chosen }
  | .get => { p with defaults := p.defaults.get.2 }
  | .make given base modulus s =>
    let built := p.defaults.build given base modulus
    { defaults := built.2, made := p.made ++ (built.1.result s).toOption.toList }

/-- The process after some steps. -/
def Process.run (p : Process) (steps : List Step) : Process := steps.foldl step p

/-! ### The history -/

/-- The environment after a step. -/
def Environment.after (env : Environment) : Step → Environment
  | .setUseTable value =>
    match Environment.variable? value with
    | .ok useTable => { env with useTable }
    | .error _ => env
  | .setWindow value =>
    match Environment.variable? value with
    | .ok window => { env with window }
    | .error _ => env
  | _ => env

/-- Whether a step replaces the default settings, or has them read again. -/
def Step.replaces : Step → Bool
  | .set _ => true
  | _ => false

/-- Whether a step looks the default settings up. A fixed base without settings of its own does,
once its base and its modulus are accepted. -/
def Step.looksUp : Step → Bool
  | .get => true
  | .make none base modulus _ => (checkNumbers base modulus).isOk
  | _ => false

/-- The environments in which steps look the default settings up, in their order. -/
def lookUps (env : Environment) : List Step → List Environment
  | [] => []
  | st :: steps =>
    if st.looksUp then env :: lookUps (env.after st) steps else lookUps (env.after st) steps

/-- The settings of the first environment that has valid ones. -/
def firstValid (envs : List Environment) : Option Settings :=
  envs.findSome? fun env => (Settings.ofEnvironment env).toOption

theorem firstValid_cons (env : Environment) (envs : List Environment) :
    firstValid (env :: envs) =
      (Settings.ofEnvironment env).toOption.or (firstValid envs) := by
  rw [firstValid, List.findSome?_cons]
  cases (Settings.ofEnvironment env).toOption <;> rfl

theorem firstValid_append (xs ys : List Environment) :
    firstValid (xs ++ ys) = (firstValid xs).or (firstValid ys) := List.findSome?_append

/-! ### Looking up and making -/

namespace Defaults

variable (d : Defaults)

theorem get_of_loaded {c : Settings} (h : d.loaded = some c) : d.get = (.ok c, d) := by
  rw [get, h]

theorem get_of_valid {c : Settings} (hload : d.loaded = none)
    (h : Settings.ofEnvironment d.environment = .ok c) :
    d.get = (.ok c, { d with loaded := some c }) := by
  simp only [get, hload, h]

theorem get_of_invalid {f : Failure} (hload : d.loaded = none)
    (h : Settings.ofEnvironment d.environment = .error f) : d.get = (.error f, d) := by
  simp only [get, hload, h]

/-- What a look-up yields, if anything. -/
theorem toOption_get :
    d.get.1.toOption = d.loaded.or (Settings.ofEnvironment d.environment).toOption := by
  rcases hload : d.loaded with _ | c
  · rcases h : Settings.ofEnvironment d.environment with f | c
    · rw [d.get_of_invalid hload h]
      rfl
    · rw [d.get_of_valid hload h]
      rfl
  · rw [d.get_of_loaded hload]
    rfl

/-- A look-up changes nothing but what is loaded, and this only once. -/
theorem get_snd : d.get.2 =
    { d with loaded := d.loaded.or (Settings.ofEnvironment d.environment).toOption } := by
  rcases d with ⟨env, _ | c⟩
  · simp only [get]
    cases Settings.ofEnvironment env <;> rfl
  · rfl

theorem build_error {base modulus : Datum} {f : Failure}
    (h : checkNumbers base modulus = .error f) (given : Option Settings) :
    d.build given base modulus = (throw f, d) := by
  rw [build, h]

theorem build_some {base modulus : Datum} {b m : ℕ} (h : checkNumbers base modulus = .ok (b, m))
    (c : Settings) : d.build (some c) base modulus = (FixedBase.build b m c, d) := by
  rw [build, h]

/-- Without settings of its own a fixed base is made with what a look-up yields. -/
theorem build_none {base modulus : Datum} {b m : ℕ}
    (h : checkNumbers base modulus = .ok (b, m)) :
    d.build none base modulus = (do FixedBase.build b m (← d.get.1), d.get.2) := by
  rw [build, h]
  rcases d.get with ⟨_ | c, d'⟩ <;> rfl

/-- Making a fixed base leaves the defaults as a look-up does, or as they were. -/
theorem build_snd (given : Option Settings) (base modulus : Datum) (s : Scratch) :
    (d.build given base modulus).2 =
      if (Step.make given base modulus s).looksUp then d.get.2 else d := by
  rcases hnumbers : checkNumbers base modulus with f | ⟨b, m⟩
  · rw [build_error d hnumbers]
    cases given <;> simp [Step.looksUp, hnumbers, Except.isOk, Except.toBool]
  · cases given with
    | none => simp [build_none d hnumbers, Step.looksUp, hnumbers, Except.isOk, Except.toBool]
    | some c => simp [build_some d hnumbers, Step.looksUp]

end Defaults

/-- **An environment without valid settings is refused**: its window is no numeral, or out of range,
and can be written either way. -/
theorem Settings.refused_of_ofEnvironment {env : Environment} {f : Failure}
    (h : ofEnvironment env = .error f) : ∃ r, f = .refused r := by
  rw [ofEnvironment] at h
  rcases hread : Numeral.read? (env.window.getD "4") with _ | w
  · simp only [hread, Except.error.injEq] at h
    exact ⟨_, h.symm⟩
  · simp only [hread] at h
    by_cases hw : 1 ≤ w ∧ w ≤ maxWindow
    · rw [make_eq rfl hw.1 hw.2 (.inl rfl)] at h
      cases h
    · have hwritten : ∀ n ∈ [w], n.natAbs < 10 ^ digitLimit :=
        List.forall_mem_singleton.2 (Numeral.natAbs_lt_of_read? hread)
      rw [make_window_out_of_range hw, Failure.reported_of_lt hwritten] at h
      exact ⟨_, (Except.error.inj h).symm⟩

/-- A fixed base has the settings `c`, a table if they ask for one, and in it their window. -/
structure BuiltWith (fixed : FixedBase) (c : Settings) : Prop where
  settings_eq : fixed.settings = c
  table_isSome : fixed.table.isSome = c.wantsTable
  window_eq : ∀ t ∈ fixed.table, c.windowWidth = .ok t.window

theorem Table.window_eq_of_run_build {g m w bits : ℕ} {t : Table} {s s' : Scratch}
    (h : (Table.build g m w bits).run s = .ok t s') : t.window = w := by
  simp only [Table.build, Metered.run_bind_eq_ok_iff, EStateM.run_pure,
    EStateM.Result.ok.injEq] at h
  obtain ⟨rows, _, -, rfl, -⟩ := h
  rfl

theorem builtWith_of_run_build {g m : ℕ} {c : Settings} {fixed : FixedBase} {s s' : Scratch}
    (h : (build g m c).run s = .ok fixed s') : fixed.BuiltWith c := by
  rw [build] at h
  split_ifs at h with hwants
  · simp only [Metered.run_bind_eq_ok_iff, Metered.run_lift_eq_ok_iff, EStateM.run_pure,
      EStateM.Result.ok.injEq] at h
    obtain ⟨w, _, ⟨hw, -⟩, k, _, -, t, _, ht, _, _, -, rfl, -⟩ := h
    refine ⟨rfl, hwants.symm, ?_⟩
    rintro _ ⟨⟩
    rw [hw, Table.window_eq_of_run_build ht]
  · simp only [Metered.run_bind_eq_ok_iff, EStateM.run_pure, EStateM.Result.ok.injEq] at h
    obtain ⟨_, _, -, rfl, -⟩ := h
    refine ⟨rfl, (Bool.eq_false_iff.2 hwants).symm, ?_⟩
    rintro _ ⟨⟩

/-! ### Steps and runs -/

namespace Process

variable (p : Process)

theorem environment_step (st : Step) :
    (p.step st).defaults.environment = p.defaults.environment.after st := by
  cases st with
  | setUseTable value =>
    simp only [step, Defaults.setUseTable, Environment.after]
    cases Environment.variable? value <;> rfl
  | setWindow value =>
    simp only [step, Defaults.setWindow, Environment.after]
    cases Environment.variable? value <;> rfl
  | set chosen => rfl
  | get =>
    rw [step, Defaults.get_snd]
    rfl
  | make given base modulus s =>
    change (p.defaults.build given base modulus).2.environment = p.defaults.environment
    rw [Defaults.build_snd _ _ _ _ s, Defaults.get_snd]
    split_ifs <;> rfl

/-- **A look-up loads the settings of the environment**, unless some are loaded already. -/
theorem loaded_step_of_looksUp {st : Step} (h : st.looksUp = true) :
    (p.step st).defaults.loaded =
      p.defaults.loaded.or (Settings.ofEnvironment p.defaults.environment).toOption := by
  cases st with
  | get => rw [step, Defaults.get_snd]
  | make given base modulus s =>
    rw [step, Defaults.build_snd _ _ _ _ s, if_pos h, Defaults.get_snd]
  | _ => cases h

/-- **Every other step leaves what is loaded**, unless it replaces it. -/
theorem loaded_step_of_not_looksUp {st : Step} (hlook : st.looksUp = false)
    (hrep : st.replaces = false) : (p.step st).defaults.loaded = p.defaults.loaded := by
  cases st with
  | setUseTable value =>
    simp only [step, Defaults.setUseTable]
    cases Environment.variable? value <;> rfl
  | setWindow value =>
    simp only [step, Defaults.setWindow]
    cases Environment.variable? value <;> rfl
  | set chosen => cases hrep
  | get => cases hlook
  | make given base modulus s =>
    rw [step, Defaults.build_snd _ _ _ _ s, hlook, if_neg Bool.false_ne_true]

theorem made_step (st : Step) : p.made <+: (p.step st).made := by
  cases st with
  | make given base modulus s => exact List.prefix_append _ _
  | _ => exact List.prefix_rfl

theorem mem_made_step {st : Step} {fixed : FixedBase} (h : fixed ∈ (p.step st).made) :
    fixed ∈ p.made ∨ ∃ given base modulus s, st = .make given base modulus s ∧
      (p.defaults.build given base modulus).1.result s = .ok fixed := by
  cases st with
  | make given base modulus s =>
    refine (List.mem_append.1 h).imp_right fun hnew => ⟨_, _, _, _, rfl, ?_⟩
    rcases hresult : (p.defaults.build given base modulus).1.result s with f | fixed'
    · rw [hresult] at hnew
      cases hnew
    · rw [hresult] at hnew
      rw [List.mem_singleton.1 hnew]
  | _ => exact .inl h

theorem run_append (xs ys : List Step) : p.run (xs ++ ys) = (p.run xs).run ys :=
  List.foldl_append

theorem environment_run (steps : List Step) :
    ∀ p : Process, (p.run steps).defaults.environment =
      steps.foldl Environment.after p.defaults.environment := by
  induction steps with
  | nil => exact fun p => rfl
  | cons st steps ih =>
    intro p
    rw [List.foldl_cons, ← environment_step]
    exact ih (p.step st)

/-- **What is loaded is decided by the look-ups**, as long as nothing replaces it: if nothing was
loaded before, it is the first valid settings among those of the environments that the look-ups have
met. -/
theorem loaded_run {steps : List Step} (h : ∀ st ∈ steps, st.replaces = false) :
    ∀ p : Process, (p.run steps).defaults.loaded =
      p.defaults.loaded.or (firstValid (lookUps p.defaults.environment steps)) := by
  induction steps with
  | nil => exact fun p => Option.or_none.symm
  | cons st steps ih =>
    intro p
    obtain ⟨hst, hsteps⟩ := List.forall_mem_cons.1 h
    have hrun := ih hsteps (p.step st)
    rw [environment_step] at hrun
    rw [lookUps]
    rcases hlook : st.looksUp with _ | _
    · rw [if_neg Bool.false_ne_true, ← p.loaded_step_of_not_looksUp hlook hst]
      exact hrun
    · rw [if_pos rfl, firstValid_cons, ← Option.or_assoc, ← p.loaded_step_of_looksUp hlook]
      exact hrun

/-- What the default was last replaced with is loaded. -/
theorem loaded_after_set {ys : List Step} (h : ∀ st ∈ ys, st.replaces = false) (xs : List Step)
    (c : Settings) : (p.run (xs ++ .set (some c) :: ys)).defaults.loaded = some c := by
  rw [run_append]
  exact loaded_run h ((p.run xs).step (.set (some c)))

/-- Once it is to be read again, what is loaded is decided by the look-ups since. -/
theorem loaded_since {xs ys : List Step} (hxs : xs = [] ∨ ∃ zs, xs = zs ++ [.set none])
    (hys : ∀ st ∈ ys, st.replaces = false) (env : Environment) :
    ((start env).run (xs ++ ys)).defaults.loaded =
      firstValid (lookUps (xs.foldl Environment.after env) ys) := by
  have hunloaded : ((start env).run xs).defaults.loaded = none := by
    rcases hxs with rfl | ⟨zs, rfl⟩
    · rfl
    · rw [run_append]
      rfl
  rw [run_append, loaded_run hys, hunloaded, environment_run, Option.none_or]
  rfl

theorem made_run (steps : List Step) : ∀ p : Process, p.made <+: (p.run steps).made := by
  induction steps with
  | nil => exact fun p => List.prefix_rfl
  | cons st steps ih => exact fun p => (p.made_step st).trans (ih (p.step st))

/-- **A fixed base that is there was made at some step**, with the defaults as they were then. -/
theorem mem_made_run {fixed : FixedBase} (steps : List Step) :
    ∀ p : Process, fixed ∈ (p.run steps).made → fixed ∈ p.made ∨
      ∃ xs given base modulus s ys, steps = xs ++ .make given base modulus s :: ys ∧
        ((p.run xs).defaults.build given base modulus).1.result s = .ok fixed := by
  induction steps with
  | nil => exact fun p h => .inl h
  | cons st steps ih =>
    intro p h
    rcases ih (p.step st) h with hold | ⟨xs, given, base, modulus, s, ys, rfl, hbuild⟩
    · refine (p.mem_made_step hold).imp_right ?_
      rintro ⟨given, base, modulus, s, rfl, hbuild⟩
      exact ⟨[], given, base, modulus, s, steps, rfl, hbuild⟩
    · exact .inr ⟨st :: xs, given, base, modulus, s, ys, rfl, hbuild⟩

/-- A history has no replacement of the default, or a last one. -/
theorem exists_latest (steps : List Step) : ∃ xs ys, steps = xs ++ ys ∧
    (xs = [] ∨ ∃ zs chosen, xs = zs ++ [.set chosen]) ∧ ∀ st ∈ ys, st.replaces = false := by
  induction steps using List.reverseRecOn with
  | nil => exact ⟨[], [], rfl, .inl rfl, fun _ h => nomatch h⟩
  | append_singleton steps st ih =>
    obtain ⟨xs, ys, rfl, hxs, hys⟩ := ih
    rcases hst : st.replaces with _ | _
    · refine ⟨xs, ys ++ [st], List.append_assoc xs ys [st], hxs, ?_⟩
      exact List.forall_mem_append.2 ⟨hys, List.forall_mem_singleton.2 hst⟩
    · cases st with
      | set chosen =>
        exact ⟨xs ++ ys ++ [.set chosen], [], (List.append_nil _).symm, .inr ⟨_, _, rfl⟩,
          fun _ h => nomatch h⟩
      | _ => cases hst

theorem builtWith_of_result {p : Process} {given : Option Settings} {base modulus : Datum}
    {s : Scratch} {fixed : FixedBase}
    (h : (p.defaults.build given base modulus).1.result s = .ok fixed) :
    ∃ c, given.elim p.defaults.get.1 .ok = .ok c ∧ fixed.BuiltWith c := by
  obtain ⟨s', hrun⟩ := Metered.exists_run_of_result_eq_ok h
  rcases hnumbers : checkNumbers base modulus with f | ⟨b, m⟩
  · rw [Defaults.build_error _ hnumbers] at hrun
    cases hrun
  · rcases given with _ | c
    · rw [Defaults.build_none _ hnumbers] at hrun
      obtain ⟨c, s₁, hc, hbuild⟩ := Metered.run_bind_eq_ok_iff.1 hrun
      exact ⟨c, (Metered.run_lift_eq_ok_iff.1 hc).1, builtWith_of_run_build hbuild⟩
    · rw [Defaults.build_some _ hnumbers] at hrun
      exact ⟨c, rfl, builtWith_of_run_build hrun⟩

/-! ### What the history says -/

/-- **The default settings can be read off the history.**  Let a process start in the environment
`env` and take any steps, after which it is `p` and its environment is `now`.

* The default was never replaced, or it was replaced by some step and by none after it.
* If that step has replaced it with settings, these are what a look-up yields.
* If the step has it read again, or there is none, then a look-up yields the settings of the first
  environment that has valid ones among those in which look-ups were made since, this one included;
  and nothing is loaded as long as there were none.
* While nothing is loaded, a look-up loads the settings of the present environment; where it has no
  valid ones the look-up is refused, and still nothing is loaded.
* A fixed base whose base or modulus is not accepted makes no look-up. Any other one that is given
  no settings is made with what a look-up yields, and fails as it does.
* Every fixed base is what was built at one of the steps, with the settings that were given or that
  were in effect there, and whatever steps follow, it stays the same. -/
theorem default_settings (env : Environment) (before : List Step) :
    let p := (start env).run before
    let now := before.foldl Environment.after env
    (∃ xs ys, before = xs ++ ys ∧ (xs = [] ∨ ∃ zs chosen, xs = zs ++ [.set chosen]) ∧
      ∀ st ∈ ys, st.replaces = false) ∧
    (∀ xs c ys, before = xs ++ .set (some c) :: ys → (∀ st ∈ ys, st.replaces = false) →
      p.defaults.get = (.ok c, p.defaults)) ∧
    (∀ xs ys, before = xs ++ ys → (xs = [] ∨ ∃ zs, xs = zs ++ [.set none]) →
      (∀ st ∈ ys, st.replaces = false) →
      let since := lookUps (xs.foldl Environment.after env) ys
      p.defaults.loaded = firstValid since ∧
      p.defaults.get.1.toOption = firstValid (since ++ [now])) ∧
    (p.defaults.loaded = none →
      (∀ c, Settings.ofEnvironment now = .ok c →
        p.defaults.get = (.ok c, { p.defaults with loaded := some c })) ∧
      ∀ f, Settings.ofEnvironment now = .error f →
        p.defaults.get = (.error f, p.defaults) ∧ ∃ r, f = .refused r) ∧
    (∀ base modulus f, checkNumbers base modulus = .error f → ∀ given,
      p.defaults.build given base modulus = (throw f, p.defaults)) ∧
    (∀ base modulus b m, checkNumbers base modulus = .ok (b, m) →
      p.defaults.build none base modulus =
        (do build b m (← p.defaults.get.1), p.defaults.get.2)) ∧
    (∀ fixed ∈ p.made, ∃ xs given base modulus s ys c,
      before = xs ++ .make given base modulus s :: ys ∧
      (((start env).run xs).defaults.build given base modulus).1.result s = .ok fixed ∧
      given.elim ((start env).run xs).defaults.get.1 .ok = .ok c ∧ fixed.BuiltWith c) ∧
    ∀ after, p.made <+: (p.run after).made := by
  intro p now
  have hnow : p.defaults.environment = now := environment_run before (start env)
  refine ⟨exists_latest before, ?_, ?_, fun hload => ⟨?_, ?_⟩, ?_, ?_, ?_,
    fun after => made_run after p⟩
  · rintro xs c ys rfl hys
    exact p.defaults.get_of_loaded ((start env).loaded_after_set hys xs c)
  · rintro xs ys rfl hxs hys since
    have hloaded : p.defaults.loaded = firstValid since := loaded_since hxs hys env
    have hlast : firstValid [now] = (Settings.ofEnvironment now).toOption :=
      (firstValid_cons now []).trans Option.or_none
    exact ⟨hloaded, by rw [Defaults.toOption_get, hnow, hloaded, firstValid_append, hlast]⟩
  · intro c hc
    exact p.defaults.get_of_valid hload (hnow ▸ hc)
  · intro f hf
    exact ⟨p.defaults.get_of_invalid hload (hnow ▸ hf), Settings.refused_of_ofEnvironment hf⟩
  · exact fun base modulus f hf given => p.defaults.build_error hf given
  · exact fun base modulus b m h => p.defaults.build_none h
  · intro fixed hfixed
    rcases mem_made_run before (start env) hfixed with
      hstart | ⟨xs, given, base, modulus, s, ys, hbefore, hbuild⟩
    · cases hstart
    · obtain ⟨c, hc, hwith⟩ := builtWith_of_result hbuild
      exact ⟨xs, given, base, modulus, s, ys, c, hbefore, hbuild, hc, hwith⟩

theorem default_settings_corrected :
    let steps : List Step := [.get, .setWindow (.text "5"), .make none (.int 3) (.int 7) {},
      .setWindow (.text "7")]
    let p := (start { window := some "wide" }).run steps
    p.defaults.loaded = some { window := .int 5 } ∧
      p.defaults.get.1.toOption = some { window := .int 5 } ∧
      p.defaults.build none (.int 3) (.int 1) =
        (throw (.refuse (.modulusTooSmall 1)), p.defaults) ∧
      (p.step (.set (some {}))).defaults.get.1 = .ok {} ∧
      p.made.length = 1 ∧ p.made <+: (p.run [.set none, .get]).made := by
  intro steps p
  obtain ⟨-, -, hread, -, hrefused, -, -, hkept⟩ :=
    default_settings { window := some "wide" } steps
  obtain ⟨hloaded, hget⟩ := hread [] steps rfl (.inl rfl) (by decide)
  obtain ⟨-, hset, -⟩ := default_settings { window := some "wide" } (steps ++ [.set (some {})])
  exact ⟨hloaded.trans rfl, hget.trans rfl, hrefused _ _ _ rfl _,
    congrArg Prod.fst (hset steps {} [] rfl (by decide)), rfl, hkept _⟩

end Process

end FixedBase

end CurveLock
