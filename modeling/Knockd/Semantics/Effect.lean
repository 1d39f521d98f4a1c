import Mathlib.Data.List.Basic
import Mathlib.Data.Nat.Notation

/-!
# Programs that issue commands to an outside world

A program issues commands one after the other, waits for the response to each, may
write output in between and finally returns a value. What a command does is not the
program's business: a handler maps the command, an input chosen by the environment
and the state of the world to a response and the next state. A run is determined by
the handler and the sequence of environment inputs, one for each command issued, so
"whatever the environment does" is a quantifier over such sequences.

A run records the state after every command. A program that is killed between two
commands leaves the world in one of these states, so a property of every recorded
state is a property of every place where the program can be cut off.

## Main definitions

* `Effect.Prog` — programs, with `Monad` notation
* `Effect.Prog.run` — the run against a handler and an environment
* `Effect.Prog.step` — one step of a program, for use in a larger machine
* `Effect.Prog.Issues` — every command the program can issue satisfies a predicate
* `Effect.Prog.Reaches` — what is left of a program after some of its steps
* `Effect.Prog.Ensures` — a postcondition of value, state and commands, whatever the inputs
* `Effect.Prog.Within` — a bound on the steps a program takes, whatever the responses
* `Effect.Prog.Rel` — programs that an observer cannot tell apart
* `Effect.Prog.mapOutput` — a program whose output is read through a function

## Main results

* `run_bind` — runs compose
* `Issues.invariant`, `Issues.step` — an invariant of the commands issued holds at
  every point of a run, and is kept by every step
* `Reaches.run` — a run goes on where its first inputs led
* `Ensures.bind`, `Ensures.step` — postconditions compose, and hold of what a step leaves
* `Within.bind`, `Within.step` — bounds add up, and every step uses one up
* `Rel.run` — what cannot be told apart runs alike
* `run_mapOutput`, `step_mapOutput` — reading the output differently changes nothing else
-/

namespace Effect

/-- A program that issues commands `C`, reads responses `R`, writes lines `L` and
returns an `α`. -/
inductive Prog (C R L α : Type) : Type
  | ret (a : α)
  | call (c : C) (k : R → Prog C R L α)
  | tell (lines : List L) (p : Prog C R L α)

namespace Prog

variable {C R L E S α β : Type}

/-- Run the second program on the value of the first. -/
protected def bind : Prog C R L α → (α → Prog C R L β) → Prog C R L β
  | ret a, f => f a
  | call c k, f => call c fun r => (k r).bind f
  | tell lines p, f => tell lines (p.bind f)

instance : Monad (Prog C R L) where
  pure := ret
  bind := Prog.bind

/-- Issue one command. -/
def issue (c : C) : Prog C R L R := call c ret

/-- Write output. -/
def say (lines : List L) : Prog C R L Unit := tell lines (ret ())

/-- What a run leaves: the value, the final state, the commands with their
responses, the output, and the state after each command. -/
structure Outcome (C R L S α : Type) where
  value : α
  state : S
  calls : List (C × R)
  output : List L
  points : List S

/-- Run a program against a handler, from a state, with the environment's inputs. -/
def run (handle : C → E → S → R × S) : Prog C R L α → (ℕ → E) → S → Outcome C R L S α
  | ret a, _, s => ⟨a, s, [], [], []⟩
  | call c k, env, s =>
    let answer := handle c (env 0) s
    let rest := run handle (k answer.1) (fun n => env (n + 1)) answer.2
    { rest with calls := (c, answer.1) :: rest.calls, points := answer.2 :: rest.points }
  | tell lines p, env, s =>
    let rest := run handle p env s
    { rest with output := lines ++ rest.output }

/-- What one step leaves when the program is not done: the rest of the program, the
state, the command it issued, if any, and what it wrote. -/
structure Stepped (C R L S α : Type) where
  rest : Prog C R L α
  state : S
  calls : List (C × R)
  output : List L

/-- One step: the value, or a command, or a line of output. A machine that has other
things to do between the commands of a program runs it this way. -/
def step (handle : C → E → S → R × S) : Prog C R L α → E → S → α ⊕ Stepped C R L S α
  | ret a, _, _ => .inl a
  | call c k, e, s =>
    let answer := handle c e s
    .inr ⟨k answer.1, answer.2, [(c, answer.1)], []⟩
  | tell lines p, _, s => .inr ⟨p, s, [], lines⟩

variable {handle : C → E → S → R × S} {env : ℕ → E} {s : S}

@[simp] theorem pure_eq (a : α) : (pure a : Prog C R L α) = ret a := rfl

@[simp] theorem ret_bind (a : α) (f : α → Prog C R L β) : (ret a >>= f) = f a := rfl

@[simp] theorem call_bind (c : C) (k : R → Prog C R L α) (f : α → Prog C R L β) :
    (call c k >>= f) = call c fun r => k r >>= f := rfl

@[simp] theorem tell_bind (lines : List L) (p : Prog C R L α) (f : α → Prog C R L β) :
    (tell lines p >>= f) = tell lines (p >>= f) := rfl

theorem bind_assoc {γ : Type} (p : Prog C R L α) (f : α → Prog C R L β) (g : β → Prog C R L γ) :
    (p >>= f) >>= g = p >>= fun a => f a >>= g := by
  induction p with
  | ret a => rfl
  | call c k ih => simp only [call_bind, ih]
  | tell lines p ih => simp only [tell_bind, ih]

theorem bind_pure (p : Prog C R L α) : (p >>= fun a => (pure a : Prog C R L α)) = p := by
  induction p with
  | ret a => rfl
  | call c k ih => simp only [call_bind, ih]
  | tell lines p ih => simp only [tell_bind, ih]

@[simp] theorem issue_bind (c : C) (f : R → Prog C R L β) : (issue c >>= f) = call c f := rfl

@[simp] theorem say_bind (lines : List L) (f : Unit → Prog C R L β) :
    (say lines >>= f) = tell lines (f ()) := rfl

/-- A composite run is the first run followed by the second, which finds the state
the first one left and the inputs it did not consume. -/
theorem run_bind (p : Prog C R L α) (f : α → Prog C R L β) :
    run handle (p >>= f) env s =
      let first := run handle p env s
      let second := run handle (f first.value) (fun n => env (first.calls.length + n)) first.state
      { value := second.value
        state := second.state
        calls := first.calls ++ second.calls
        output := first.output ++ second.output
        points := first.points ++ second.points } := by
  induction p generalizing env s with
  | ret a => simp [run]
  | call c k ih =>
    -- one input is gone with the command, so the second run starts one further on
    have hshift : ∀ m n : ℕ, m + n + 1 = m + 1 + n := fun m n => Nat.add_right_comm m n 1
    simp only [call_bind, run, ih, List.length_cons, List.cons_append, hshift]
  | tell lines p ih => simp only [tell_bind, run, ih, List.append_assoc]

theorem step_eq_inl {e : E} {p : Prog C R L α} {a : α} (h : step handle p e s = .inl a) :
    p = ret a := by
  cases p with
  | ret b => rw [Sum.inl.inj h]
  | call c k => cases h
  | tell lines p => cases h

/-! ### Which commands a program issues -/

/-- Every command the program can issue, whatever the responses, satisfies `Q`. -/
def Issues (Q : C → Prop) : Prog C R L α → Prop
  | ret _ => True
  | call c k => Q c ∧ ∀ r, (k r).Issues Q
  | tell _ p => p.Issues Q

variable {Q Q' : C → Prop}

theorem issues_true (p : Prog C R L α) : p.Issues fun _ => True := by
  induction p with
  | ret a => trivial
  | call c k ih => exact ⟨trivial, ih⟩
  | tell lines p ih => exact ih

theorem Issues.bind {p : Prog C R L α} {f : α → Prog C R L β} (hp : p.Issues Q)
    (hf : ∀ a, (f a).Issues Q) : (p >>= f).Issues Q := by
  induction p with
  | ret a => exact hf a
  | call c k ih => exact ⟨hp.1, fun r => ih r (hp.2 r)⟩
  | tell lines p ih => exact ih hp

theorem Issues.mono {p : Prog C R L α} (hp : p.Issues Q) (h : ∀ c, Q c → Q' c) :
    p.Issues Q' := by
  induction p with
  | ret a => trivial
  | call c k ih => exact ⟨h c hp.1, fun r => ih r (hp.2 r)⟩
  | tell lines p ih => exact ih hp

/-- An invariant that every issued command keeps holds after each command of a run,
and in the state the run ends in. -/
theorem Issues.invariant {p : Prog C R L α} (hp : p.Issues Q) {P : S → Prop}
    (hstep : ∀ c e s, Q c → P s → P (handle c e s).2) (env : ℕ → E) (hs : P s) :
    (∀ x ∈ (run handle p env s).points, P x) ∧ P (run handle p env s).state := by
  induction p generalizing env s with
  | ret a => exact ⟨by simp [run], hs⟩
  | call c k ih =>
    have hnext := hstep c (env 0) s hp.1 hs
    obtain ⟨hpoints, hend⟩ := ih _ (hp.2 _) (fun n => env (n + 1)) hnext
    refine ⟨fun x hx => ?_, hend⟩
    rcases List.mem_cons.mp hx with rfl | hx
    · exact hnext
    · exact hpoints x hx
  | tell lines p ih => exact ih hp env hs

/-- The commands a run has issued are among those the program can issue. -/
theorem Issues.calls {p : Prog C R L α} (hp : p.Issues Q) (env : ℕ → E) (s : S) :
    ∀ call ∈ (run handle p env s).calls, Q call.1 := by
  induction p generalizing env s with
  | ret a => simp [run]
  | call c k ih =>
    intro call hcall
    rcases List.mem_cons.mp hcall with rfl | hcall
    · exact hp.1
    · exact ih _ (hp.2 _) _ _ call hcall
  | tell lines p ih => exact ih hp env s

/-- A step leaves a program that issues no other commands, and keeps what its commands
keep. -/
theorem Issues.step {p : Prog C R L α} (hp : p.Issues Q) {P : S → Prop}
    (hstep : ∀ c e s, Q c → P s → P (handle c e s).2) (hs : P s) {e : E}
    {next : Stepped C R L S α} (h : step handle p e s = .inr next) :
    next.rest.Issues Q ∧ P next.state := by
  cases p with
  | ret a => cases h
  | call c k =>
    cases h
    exact ⟨hp.2 _, hstep c e s hp.1 hs⟩
  | tell lines p =>
    cases h
    exact ⟨hp, hs⟩

/-! ### Runs that have come part of the way -/

/-- What is left of a program and in which state, after some of its steps, with the inputs it
has taken and the commands it has issued. -/
inductive Reaches (handle : C → E → S → R × S) :
    Prog C R L α → S → List E → List (C × R) → Prog C R L α → S → Prop
  | refl (p : Prog C R L α) (s : S) : Reaches handle p s [] [] p s
  | call {c : C} {k : R → Prog C R L α} {e : E} {s s' : S} {es : List E} {calls : List (C × R)}
      {q : Prog C R L α} (h : Reaches handle (k (handle c e s).1) (handle c e s).2 es calls q s') :
      Reaches handle (call c k) s (e :: es) ((c, (handle c e s).1) :: calls) q s'
  | tell {lines : List L} {p : Prog C R L α} {s s' : S} {es : List E} {calls : List (C × R)}
      {q : Prog C R L α} (h : Reaches handle p s es calls q s') :
      Reaches handle (tell lines p) s es calls q s'

/-- The inputs of a list, and then those of an environment. -/
def feed : List E → (ℕ → E) → ℕ → E
  | [], env, n => env n
  | e :: _, _, 0 => e
  | _ :: es, env, n + 1 => feed es env n

section Reaches

variable {p q q' : Prog C R L α} {s' s'' : S} {es es' : List E} {calls calls' : List (C × R)}

theorem Reaches.trans (h : Reaches handle p s es calls q s')
    (h' : Reaches handle q s' es' calls' q' s'') :
    Reaches handle p s (es ++ es') (calls ++ calls') q' s'' := by
  induction h with
  | refl => exact h'
  | call _ ih => exact .call (ih h')
  | tell _ ih => exact .tell (ih h')

/-- A program followed by another one is still in its first part. -/
theorem Reaches.bind (h : Reaches handle p s es calls q s') (f : α → Prog C R L β) :
    Reaches handle (p >>= f) s es calls (q >>= f) s' := by
  induction h with
  | refl => exact .refl ..
  | call _ ih => exact .call ih
  | tell _ ih => exact .tell ih

/-- One more step. -/
theorem Reaches.of_step {e : E} {next : Stepped C R L S α} (h : step handle p e s = .inr next) :
    ∃ es, Reaches handle p s es next.calls next.rest next.state := by
  cases p with
  | ret a => cases h
  | call c k =>
    cases h
    exact ⟨[e], .call (.refl ..)⟩
  | tell lines p =>
    cases h
    exact ⟨[], .tell (.refl ..)⟩

/-- A run comes to its end. -/
theorem reaches_run (p : Prog C R L α) (env : ℕ → E) (s : S) :
    ∃ es, Reaches handle p s es (run handle p env s).calls (ret (run handle p env s).value)
      (run handle p env s).state := by
  induction p generalizing env s with
  | ret a => exact ⟨[], .refl ..⟩
  | call c k ih =>
    obtain ⟨es, h⟩ := ih (handle c (env 0) s).1 (fun n => env (n + 1)) (handle c (env 0) s).2
    exact ⟨env 0 :: es, .call h⟩
  | tell lines p ih =>
    obtain ⟨es, h⟩ := ih env s
    exact ⟨es, .tell h⟩

/-- A run on the inputs taken so far goes on where they led. -/
theorem Reaches.run (h : Reaches handle p s es calls q s') (env : ℕ → E) :
    (run handle p (feed es env) s).value = (run handle q env s').value ∧
      (run handle p (feed es env) s).state = (run handle q env s').state ∧
      (run handle p (feed es env) s).calls = calls ++ (run handle q env s').calls ∧
      s' ∈ s :: (run handle p (feed es env) s).points := by
  induction h with
  | refl => exact ⟨rfl, rfl, rfl, List.mem_cons_self⟩
  | call h ih =>
    obtain ⟨hvalue, hstate, hcalls, hpoint⟩ := ih
    exact ⟨hvalue, hstate, congrArg (List.cons _) hcalls, List.mem_cons_of_mem _ hpoint⟩
  | tell h ih => exact ih

end Reaches

/-! ### Postconditions -/

/-- Whatever inputs the program meets from here on, the postcondition holds of its value, the
state it ends in and the commands it issues on the way. -/
def Ensures (handle : C → E → S → R × S) (p : Prog C R L α) (s : S)
    (Q : α → S → List (C × R) → Prop) : Prop :=
  ∀ env : ℕ → E,
    Q (run handle p env s).value (run handle p env s).state (run handle p env s).calls

section Ensures

variable {p : Prog C R L α} {Q : α → S → List (C × R) → Prop}

theorem Ensures.ret {a : α} (h : Q a s []) : (ret a : Prog C R L α).Ensures handle s Q :=
  fun _ => h

theorem Ensures.tell (lines : List L) (h : p.Ensures handle s Q) :
    (tell lines p).Ensures handle s Q := h

theorem Ensures.bind {f : α → Prog C R L β} {Q : β → S → List (C × R) → Prop}
    (h : p.Ensures handle s fun a s' calls =>
      (f a).Ensures handle s' fun b s'' calls' => Q b s'' (calls ++ calls')) :
    (p >>= f).Ensures handle s Q := by
  intro env
  rw [run_bind]
  exact h env _

/-- A program that is done has ensured its postcondition. -/
theorem Ensures.done {e : E} {a : α} (h : p.Ensures handle s Q)
    (hstep : step handle p e s = .inl a) : Q a s [] := by
  cases step_eq_inl hstep
  exact h fun _ => e

/-- What a step leaves still ensures the postcondition, of the commands of both. -/
theorem Ensures.step {e : E} {next : Stepped C R L S α} (h : p.Ensures handle s Q)
    (hstep : step handle p e s = .inr next) :
    next.rest.Ensures handle next.state fun a s' calls => Q a s' (next.calls ++ calls) := by
  cases p with
  | ret a => cases hstep
  | call c k =>
    cases hstep
    exact fun env => h (feed [e] env)
  | tell lines p =>
    cases hstep
    exact h

end Ensures

/-! ### How long a program takes -/

/-- Whatever the responses, at most so many steps lead to the end of the program. -/
inductive Within : ℕ → Prog C R L α → Prop
  | ret (n : ℕ) (a : α) : Within n (ret a)
  | call {n : ℕ} (c : C) {k : R → Prog C R L α} (h : ∀ r, Within n (k r)) :
      Within (n + 1) (call c k)
  | tell {n : ℕ} (lines : List L) {p : Prog C R L α} (h : Within n p) :
      Within (n + 1) (tell lines p)

section Within

variable {p : Prog C R L α} {m n : ℕ}

theorem Within.mono (h : p.Within m) (hle : m ≤ n) : p.Within n := by
  induction h generalizing n with
  | ret m a => exact .ret n a
  | call c h ih =>
    obtain ⟨n, rfl⟩ := Nat.exists_eq_add_of_le' (Nat.one_le_of_lt hle)
    exact .call c fun r => ih r (Nat.le_of_succ_le_succ hle)
  | tell lines h ih =>
    obtain ⟨n, rfl⟩ := Nat.exists_eq_add_of_le' (Nat.one_le_of_lt hle)
    exact .tell lines (ih (Nat.le_of_succ_le_succ hle))

theorem Within.bind {f : α → Prog C R L β} (hp : p.Within m) (hf : ∀ a, (f a).Within n) :
    (p >>= f).Within (m + n) := by
  induction hp with
  | ret m a => exact (hf a).mono (Nat.le_add_left n m)
  | @call m c k h ih =>
    rw [Nat.succ_add m n]
    exact .call c ih
  | @tell m lines p h ih =>
    rw [Nat.succ_add m n]
    exact .tell lines ih

/-- A step that does not end the program leaves one step less. -/
theorem Within.step {e : E} {next : Stepped C R L S α} (h : p.Within n)
    (hstep : step handle p e s = .inr next) : ∃ m, m + 1 = n ∧ next.rest.Within m := by
  cases h with
  | ret n a => cases hstep
  | @call m c k h =>
    cases hstep
    exact ⟨m, rfl, h _⟩
  | @tell m lines p h =>
    cases hstep
    exact ⟨m, rfl, h⟩

end Within

/-! ### Programs that cannot be told apart -/

/-- The programs issue the same commands and write the same lines, whatever the
responses, and return related values. -/
inductive Rel (Q : α → β → Prop) : Prog C R L α → Prog C R L β → Prop
  | ret {a : α} {b : β} (h : Q a b) : Rel Q (ret a) (ret b)
  | call (c : C) {k : R → Prog C R L α} {k' : R → Prog C R L β} (h : ∀ r, Rel Q (k r) (k' r)) :
      Rel Q (call c k) (call c k')
  | tell (lines : List L) {p : Prog C R L α} {q : Prog C R L β} (h : Rel Q p q) :
      Rel Q (tell lines p) (tell lines q)

section Rel

variable {γ : Type} {p : Prog C R L α} {q : Prog C R L β} {Q : α → β → Prop}

/-- A program followed by programs that cannot be told apart, one value at a time. -/
theorem Rel.bind_right (p : Prog C R L γ) {f : γ → Prog C R L α} {g : γ → Prog C R L β}
    (h : ∀ c, Rel Q (f c) (g c)) : Rel Q (p >>= f) (p >>= g) := by
  induction p with
  | ret c => exact h c
  | call c k ih => exact .call c ih
  | tell lines p ih => exact .tell lines ih

/-- Whatever the environment does, the runs show the same commands, responses and
output, and leave the world in the same state. -/
theorem Rel.run (h : Rel Q p q) (handle : C → E → S → R × S) (env : ℕ → E) (s : S) :
    (run handle p env s).calls = (run handle q env s).calls ∧
      (run handle p env s).output = (run handle q env s).output ∧
      (run handle p env s).state = (run handle q env s).state ∧
      Q (run handle p env s).value (run handle q env s).value := by
  induction h generalizing env s with
  | ret h => exact ⟨rfl, rfl, rfl, h⟩
  | call c h ih =>
    obtain ⟨hcalls, houtput, hstate, hvalue⟩ :=
      ih (handle c (env 0) s).1 (fun n => env (n + 1)) (handle c (env 0) s).2
    exact ⟨congrArg (List.cons _) hcalls, houtput, hstate, hvalue⟩
  | tell lines h ih =>
    obtain ⟨hcalls, houtput, hstate, hvalue⟩ := ih env s
    exact ⟨hcalls, congrArg (lines ++ ·) houtput, hstate, hvalue⟩

end Rel

/-! ### Reading the output differently -/

/-- The program with each piece of its output read through a function. -/
def mapOutput {L' : Type} (f : List L → List L') : Prog C R L α → Prog C R L' α
  | ret a => ret a
  | call c k => call c fun r => mapOutput f (k r)
  | tell lines p => tell (f lines) (mapOutput f p)

section MapOutput

variable {L' : Type} {f : List L → List L'}

@[simp] theorem mapOutput_ret (a : α) : mapOutput f (ret a : Prog C R L α) = ret a := rfl

@[simp] theorem mapOutput_issue (c : C) : mapOutput f (issue c : Prog C R L R) = issue c := rfl

@[simp] theorem mapOutput_say (lines : List L) :
    mapOutput f (say lines : Prog C R L Unit) = say (f lines) := rfl

theorem mapOutput_bind (p : Prog C R L α) (g : α → Prog C R L β) :
    mapOutput f (p >>= g) = mapOutput f p >>= fun a => mapOutput f (g a) := by
  induction p with
  | ret a => rfl
  | call c k ih => exact congrArg (call c) (funext ih)
  | tell lines p ih => exact congrArg (tell (f lines)) ih

/-- A step is the same step, with its output read through the function. -/
theorem step_mapOutput (p : Prog C R L α) (hnil : f [] = []) (e : E) (s : S) :
    step handle (mapOutput f p) e s =
      (step handle p e s).map id fun next =>
        ⟨mapOutput f next.rest, next.state, next.calls, f next.output⟩ := by
  cases p with
  | ret a => rfl
  | call c k => simp only [mapOutput, step, Sum.map_inr, hnil]
  | tell lines p => rfl

/-- Neither the value of a run nor its state depends on how the output is read. -/
theorem run_mapOutput (p : Prog C R L α) (env : ℕ → E) (s : S) :
    (run handle (mapOutput f p) env s).value = (run handle p env s).value ∧
      (run handle (mapOutput f p) env s).state = (run handle p env s).state := by
  induction p generalizing env s with
  | ret a => exact ⟨rfl, rfl⟩
  | call c k ih => exact ih _ _ _
  | tell lines p ih => exact ih env s

end MapOutput

end Prog

end Effect
