import Mathlib.Data.List.Basic

/-!
# Machines with observations

A machine takes steps chosen by a scheduler. A step may not be possible, and one that
is leaves a new state and what can be observed of it. A run is given by the list of
actions the scheduler chose; it exists if every step was possible.

What holds of every run is proved by an invariant that relates the state to everything
observed so far: it holds at the start with nothing observed, and every step keeps it.

## Main definitions

* `Machine.run` — the state and the observations after a list of actions
* `Machine.Stretch` — some actions of a run in a row, and what is observed of them
* `Machine.Inevitable` — reached whatever actions are chosen
* `Machine.Until` — a run up to the first state with a property
* `Machine.Distance` — how far something is away, counted in some of the steps

## Main results

* `run_append` — runs compose
* `invariant_of_run` — the invariant rule
* `window_of_run` — the rule for what holds since something happened last
* `Distance.run` — the ranking rule, for what comes within a number of steps
* `exists_run_of_simulation` — the simulation rule
* `run_map` — the rule for a machine that is the image of another
-/

namespace Machine

variable {S A O : Type*} (step : S → A → Option (S × List O))

/-- The run of a list of actions, if all of them are possible. -/
def run (s : S) : List A → Option (S × List O)
  | [] => some (s, [])
  | a :: actions =>
    (step s a).bind fun next =>
      (run next.1 actions).map fun rest => (rest.1, next.2 ++ rest.2)

variable {step} {s s' t : S} {a : A} {actions more : List A} {seen obs : List O}

@[simp] theorem run_nil : run step s [] = some (s, []) := rfl

theorem run_cons : run step s (a :: actions) = some (t, seen) ↔
    ∃ s' obs rest, step s a = some (s', obs) ∧ run step s' actions = some (t, rest) ∧
      seen = obs ++ rest := by
  simp only [run, Option.bind_eq_some_iff, Option.map_eq_some_iff, Prod.exists, Prod.mk.injEq]
  constructor
  · rintro ⟨s', obs, hstep, t', rest, hrun, rfl, rfl⟩
    exact ⟨s', obs, rest, hstep, hrun, rfl⟩
  · rintro ⟨s', obs, rest, hstep, hrun, rfl⟩
    exact ⟨s', obs, hstep, t, rest, hrun, rfl, rfl⟩

theorem run_append (h : run step s actions = some (s', seen))
    (h' : run step s' more = some (t, obs)) :
    run step s (actions ++ more) = some (t, seen ++ obs) := by
  induction actions generalizing s seen with
  | nil =>
    cases h
    simpa using h'
  | cons a actions ih =>
    obtain ⟨s₁, obs₁, rest, hstep, hrun, rfl⟩ := run_cons.mp h
    rw [List.cons_append]
    exact run_cons.mpr ⟨s₁, obs₁, rest ++ obs, hstep, ih hrun, List.append_assoc ..⟩

/-- A run can be cut after any of its actions. -/
theorem exists_run_of_append (h : run step s actions = some (s', seen))
    (hall : run step s (actions ++ more) = some (t, obs)) :
    ∃ t' rest, run step s' more = some (t', rest) := by
  induction actions generalizing s seen obs with
  | nil =>
    cases h
    exact ⟨t, obs, hall⟩
  | cons a actions ih =>
    obtain ⟨s₁, obs₁, rest, hfirst, hrun, rfl⟩ := run_cons.mp h
    obtain ⟨s₁', obs₁', rest', hfirst', hrun', rfl⟩ := run_cons.mp hall
    cases hfirst.symm.trans hfirst'
    exact ih hrun hrun'

/-- The invariant rule: what one step preserves, a run preserves. -/
theorem invariant_of_run {P : S → List O → Prop}
    (hstep : ∀ s seen a s' obs, P s seen → step s a = some (s', obs) → P s' (seen ++ obs))
    (hs : P s seen) (h : run step s actions = some (t, obs)) : P t (seen ++ obs) := by
  induction actions generalizing s seen obs with
  | nil =>
    cases h
    simpa using hs
  | cons a actions ih =>
    obtain ⟨s₁, obs₁, rest, hfirst, hrun, rfl⟩ := run_cons.mp h
    have hrest := ih (hstep s seen a s₁ obs₁ hs hfirst) hrun
    rwa [List.append_assoc] at hrest

/-- The rule for an invariant of the state alone. -/
theorem state_invariant_of_run {P : S → Prop}
    (hstep : ∀ s a s' obs, P s → step s a = some (s', obs) → P s') (hs : P s)
    (h : run step s actions = some (t, obs)) : P t := by
  induction actions generalizing s obs with
  | nil =>
    cases h
    exact hs
  | cons a actions ih =>
    obtain ⟨s₁, obs₁, rest, hfirst, hrun, rfl⟩ := run_cons.mp h
    exact ih (hstep s a s₁ obs₁ hs hfirst) hrun

/-- The simulation rule: if each step of one machine is a run of another with the same
observations, then so is each run. -/
theorem exists_run_of_simulation {S' A' : Type*} {step' : S' → A' → Option (S' × List O)}
    {R : S → S' → Prop}
    (hstep : ∀ s t a t' obs, R s t → step' t a = some (t', obs) →
      ∃ actions s', run step s actions = some (s', obs) ∧ R s' t')
    {t t' : S'} (hs : R s t) {actions : List A'} (h : run step' t actions = some (t', obs)) :
    ∃ actions s', run step s actions = some (s', obs) ∧ R s' t' := by
  induction actions generalizing s t obs with
  | nil =>
    cases h
    exact ⟨[], s, rfl, hs⟩
  | cons a actions ih =>
    obtain ⟨t₁, obs₁, rest, hfirst, hrun, rfl⟩ := run_cons.mp h
    obtain ⟨first, s₁, hmatch, hs₁⟩ := hstep s t a t₁ obs₁ hs hfirst
    obtain ⟨more, s', hmore, hs'⟩ := ih hs₁ hrun
    exact ⟨first ++ more, s', run_append hmatch hmore, hs'⟩

/-- If the steps of one machine are those of another, read through a map of states and a map
of observations, then so are its runs. -/
theorem run_map {S' O' : Type*} {step' : S' → A → Option (S' × List O')} {f : S → S'} {g : O → O'}
    (hstep : ∀ s a, step' (f s) a = (step s a).map (Prod.map f (List.map g))) (s : S)
    (actions : List A) :
    run step' (f s) actions = (run step s actions).map (Prod.map f (List.map g)) := by
  induction actions generalizing s with
  | nil => rfl
  | cons a actions ih =>
    rw [run, run, hstep]
    cases step s a with
    | none => rfl
    | some next =>
      rw [Option.map_some, Option.bind_some, Option.bind_some, Prod.map_fst, ih]
      cases run step next.1 actions with
      | none => rfl
      | some rest => simp

/-! ### Stretches of a run -/

/-- Some of the actions of a run in a row, and what is observed of them. -/
def Stretch (step : S → A → Option (S × List O)) (s : S) (actions mid : List A) (obs : List O) :
    Prop :=
  ∃ before after s₁ seen s₂, actions = before ++ mid ++ after ∧
    run step s before = some (s₁, seen) ∧ run step s₁ mid = some (s₂, obs)

/-- What is observed of a stretch is observed of the run. -/
theorem Stretch.isInfix {mid : List A} (h : Stretch step s actions mid obs)
    (hrun : run step s actions = some (t, seen)) : obs <:+: seen := by
  obtain ⟨before, after, s₁, seen₁, s₂, rfl, hbefore, hmid⟩ := h
  obtain ⟨t', rest, hrest⟩ : ∃ t' rest, run step s₂ after = some (t', rest) :=
    exists_run_of_append (run_append hbefore hmid) hrun
  cases hrun.symm.trans (run_append (run_append hbefore hmid) hrest)
  exact List.infix_append ..

/-- A stretch of a run is one of every longer run. -/
theorem Stretch.append_right {mid : List A} (h : Stretch step s actions mid obs) (more : List A) :
    Stretch step s (actions ++ more) mid obs := by
  obtain ⟨before, after, s₁, seen, s₂, rfl, hbefore, hmid⟩ := h
  exact ⟨before, after ++ more, s₁, seen, s₂, by simp, hbefore, hmid⟩

/-- The rule for what holds since something happened last: with every step the window of
actions and observations that `P` speaks of grows, or `P` holds anew of the empty one. -/
theorem window_of_run {P : S → List O → List A → List O → Prop}
    (hstep : ∀ s' seen mid obs a t' o, Stretch step s actions (mid ++ [a]) (obs ++ o) →
      P s' seen mid obs → step s' a = some (t', o) →
      P t' (seen ++ o) (mid ++ [a]) (obs ++ o) ∨ P t' (seen ++ o) [] [])
    (hs : P s [] [] []) (h : run step s actions = some (t, seen)) :
    ∃ mid obs, P t seen mid obs := by
  -- the actions done are those before the window and those in it
  suffices hgo : ∀ (rest before mid : List A) (s₁ s₂ : S) (past obs all seen : List O),
      actions = before ++ mid ++ rest → run step s before = some (s₁, past) →
      run step s₁ mid = some (s₂, obs) → P s₂ all mid obs → run step s₂ rest = some (t, seen) →
      ∃ mid obs, P t (all ++ seen) mid obs by
    simpa using hgo actions [] [] s s [] [] [] seen rfl rfl rfl hs h
  intro rest
  induction rest with
  | nil =>
    intro before mid s₁ s₂ past obs all seen _ _ _ hP hrest
    cases hrest
    exact ⟨mid, obs, by simpa using hP⟩
  | cons a rest ih =>
    intro before mid s₁ s₂ past obs all seen hactions hbefore hmid hP hrest
    obtain ⟨s₃, o, seen', hfirst, hrest', rfl⟩ := run_cons.mp hrest
    have hlonger : run step s₁ (mid ++ [a]) = some (s₃, obs ++ o) :=
      run_append hmid (run_cons.mpr ⟨s₃, o, [], hfirst, rfl, (List.append_nil o).symm⟩)
    have hactions' : actions = before ++ (mid ++ [a]) ++ rest := by simpa using hactions
    rw [← List.append_assoc]
    rcases hstep s₂ all mid obs a s₃ o ⟨before, rest, s₁, past, s₃, hactions', hbefore, hlonger⟩ hP
      hfirst with hgrown | hanew
    · exact ih before (mid ++ [a]) s₁ s₃ past (obs ++ o) _ seen' hactions' hbefore hlonger hgrown
        hrest'
    · exact ih (before ++ (mid ++ [a])) [] s₃ s₃ _ [] _ seen' (by simpa using hactions')
        (run_append hbefore hlonger) rfl hanew hrest'

/-! ### What is reached whatever is chosen -/

/-- Whatever actions are chosen, the machine does not get stuck before it reaches a state
in `Q`, and it reaches one in finitely many steps. -/
inductive Inevitable (step : S → A → Option (S × List O)) (Q : S → Prop) : S → Prop
  | here {s : S} (h : Q s) : Inevitable step Q s
  | next {s : S} (hmoves : ∀ a, (step s a).isSome)
      (hrest : ∀ a s' obs, step s a = some (s', obs) → Inevitable step Q s') : Inevitable step Q s

/-- The rule for one step: every action is possible and leads on. -/
theorem Inevitable.of_step {Q : S → Prop}
    (h : ∀ a, ∃ s' obs, step s a = some (s', obs) ∧ Inevitable step Q s') :
    Inevitable step Q s := by
  refine .next (fun a => ?_) fun a s' obs hstep => ?_
  · obtain ⟨s', obs, hstep, -⟩ := h a
    rw [hstep]
    rfl
  · obtain ⟨s₁, obs₁, hstep₁, hrest⟩ := h a
    cases hstep₁.symm.trans hstep
    exact hrest

/-- A run from a state up to the first one in `Q`. -/
inductive Until (step : S → A → Option (S × List O)) (Q : S → Prop) : S → S → List O → Prop
  | here {s : S} (h : Q s) : Until step Q s s []
  | next {s s' t : S} {a : A} {obs seen : List O} (hpass : ¬ Q s)
      (hstep : step s a = some (s', obs)) (hrest : Until step Q s' t seen) :
      Until step Q s t (obs ++ seen)

/-! ### What comes within a number of steps -/

/-- The relation bounds how many steps of one kind are left until something happens: it does
not grow, a step of that kind makes it smaller, and what has happened stays so. -/
structure Distance (step : S → A → Option (S × List O)) (counts : A → Bool)
    (happened : S → List O → Prop) (away : ℕ → S → List O → Prop) : Prop where
  stays : ∀ {s seen a s' obs}, happened s seen → step s a = some (s', obs) →
    happened s' (seen ++ obs)
  nears : ∀ {n s seen a s' obs}, away n s seen → step s a = some (s', obs) →
    happened s' (seen ++ obs) ∨ ∃ m, m + (counts a).toNat ≤ n ∧ away m s' (seen ++ obs)

/-- The ranking rule: after a run it has happened, or it is nearer by the steps counted. -/
theorem Distance.run {counts : A → Bool} {happened : S → List O → Prop}
    {away : ℕ → S → List O → Prop} (hdist : Distance step counts happened away) {n : ℕ}
    (hs : away n s seen) (h : run step s actions = some (t, obs)) :
    happened t (seen ++ obs) ∨
      ∃ m, m + actions.countP counts ≤ n ∧ away m t (seen ++ obs) := by
  induction actions generalizing s seen obs n with
  | nil =>
    cases h
    exact .inr ⟨n, Nat.le_refl n, by simpa using hs⟩
  | cons a actions ih =>
    obtain ⟨s₁, obs₁, rest, hfirst, hrun, rfl⟩ := run_cons.mp h
    rw [← List.append_assoc]
    rcases hdist.nears hs hfirst with hdone | ⟨m, hm, haway⟩
    · exact .inl (invariant_of_run (fun _ _ _ _ _ h hstep => hdist.stays h hstep) hdone hrun)
    · rcases ih haway hrun with hdone | ⟨m', hm', haway'⟩
      · exact .inl hdone
      · refine .inr ⟨m', ?_, haway'⟩
        rw [List.countP_cons]
        cases hcounts : counts a <;> simp [hcounts] at hm ⊢ <;> omega

end Machine
