import Knockd.Semantics.Effect

/-!
# Scripts that end at the first failure

Under `set -e` a script ends as soon as a command fails, with the status of that command,
unless the script looks at the status itself: in a condition, or behind `||`. So a script is
a program that issues commands; its host answers each with a status and with what the command
has printed, and its value is the exit status.

Of a script one wants to know that it runs certain commands, in a certain order and no
others of their kind, and that nothing but a failure can cut this short. Which commands are
of interest, and which ones the script guards against their failure, is a matter of the
script.

## Main definitions

* `Shell.Script`, `Shell.must` — scripts, and a command that is not guarded
* `Shell.execute` — the run on a host
* `Shell.Runs` — the runs there can be, on any host
* `Shell.Follows` — what is of interest is a plan, or its beginning after a failure, and
  `Shell.Outcome` the same of one run

## Main results

* `runs_execute` — the run on a host is one of those
* `runs_must` — a command that is not guarded succeeds or is the last
* `Follows.must`, `Follows.next`, `Follows.ask` — a script follows its plan, one command
  after the other
-/

namespace Shell

/-- What the host answers: the exit status of a command, and what it printed, as a command
substitution reads it. -/
structure Reply where
  status : ℕ
  output : String
  deriving DecidableEq

/-- A script that runs commands `C` and returns an exit status. -/
abbrev Script (C : Type) := Effect.Prog C Reply Empty ℕ

/-- What a run leaves: the exit status, and the commands with the answers. -/
structure ScriptRun (C : Type) where
  exit : ℕ
  calls : List (C × Reply)

section Scripts

variable {C : Type}

/-- A command that is not guarded: the script goes on if it succeeds, and ends with its status
if it fails. -/
def must (c : C) (rest : Script C) : Script C :=
  .call c fun r => if r.status = 0 then rest else .ret r.status

/-- The run on a host, which answers the `n`-th command by `host n`. -/
def execute (script : Script C) (host : ℕ → C → Reply) : ScriptRun C :=
  let out := script.run (fun c answer (_ : Unit) => (answer c, ())) host ()
  ⟨out.value, out.calls⟩

/-- The script may run these commands, with these answers, and end with this status. -/
inductive Runs : Script C → List (C × Reply) → ℕ → Prop
  | ret (status : ℕ) : Runs (.ret status) [] status
  | call (c : C) {k : Reply → Script C} (r : Reply) {calls : List (C × Reply)} {status : ℕ}
      (h : Runs (k r) calls status) : Runs (.call c k) ((c, r) :: calls) status
  | tell (lines : List Empty) {p : Script C} {calls : List (C × Reply)} {status : ℕ}
      (h : Runs p calls status) : Runs (.tell lines p) calls status

variable {script rest : Script C} {c : C} {k : Reply → Script C} {calls : List (C × Reply)}
  {status : ℕ}

/-- The run on a host is one the script may make, and the answers in it are the host's. -/
theorem runs_execute (script : Script C) (host : ℕ → C → Reply) :
    Runs script (execute script host).calls (execute script host).exit ∧
      ∀ call ∈ (execute script host).calls, ∃ n, call.2 = host n call.1 := by
  induction script generalizing host with
  | ret status => exact ⟨.ret status, fun _ h => (nomatch h)⟩
  | call c k ih =>
    obtain ⟨hruns, hhost⟩ := ih (host 0 c) fun n => host (n + 1)
    refine ⟨.call c _ hruns, fun call hmem => ?_⟩
    rcases List.mem_cons.mp hmem with rfl | hmem
    · exact ⟨0, rfl⟩
    · obtain ⟨n, hn⟩ := hhost call hmem
      exact ⟨n + 1, hn⟩
  | tell lines p ih =>
    obtain ⟨hruns, hhost⟩ := ih host
    exact ⟨.tell lines hruns, hhost⟩

theorem runs_ret {s : ℕ} (h : Runs (.ret s : Script C) calls status) :
    calls = [] ∧ status = s := by
  cases h
  exact ⟨rfl, rfl⟩

theorem runs_call (h : Runs (.call c k) calls status) :
    ∃ r more, calls = (c, r) :: more ∧ Runs (k r) more status := by
  cases h with
  | call c r h => exact ⟨r, _, rfl, h⟩

/-- A command that is not guarded succeeds, or is the last one. -/
theorem runs_must (h : Runs (must c rest) calls status) :
    (∃ r more, calls = (c, r) :: more ∧ r.status = 0 ∧ Runs rest more status) ∨
      ∃ r, calls = [(c, r)] ∧ r.status ≠ 0 ∧ status = r.status := by
  obtain ⟨r, more, rfl, hrest⟩ := runs_call h
  by_cases hok : r.status = 0
  · rw [if_pos hok] at hrest
    exact .inl ⟨r, more, rfl, hok, hrest⟩
  · rw [if_neg hok] at hrest
    obtain ⟨rfl, rfl⟩ := runs_ret hrest
    exact .inr ⟨r, rfl, hok, rfl⟩

end Scripts

/-! ### Following a plan -/

section Follows

variable {C : Type} (guarded watched : C → Bool)

/-- No command has failed that is not guarded. -/
def Succeeded (calls : List (C × Reply)) : Prop :=
  ∀ call ∈ calls, guarded call.1 = false → call.2.status = 0

/-- The commands of interest. -/
def watchedCalls (calls : List (C × Reply)) : List C := (calls.map Prod.fst).filter watched

/-- The commands of interest are those of the plan, and the exit status is one of these; or a
command that is not guarded has failed, then they are a beginning of the plan, and the exit
status is not zero. -/
def Outcome (calls : List (C × Reply)) (status : ℕ) (plan : List C) (final : ℕ → Prop) : Prop :=
  Succeeded guarded calls ∧ watchedCalls watched calls = plan ∧ final status ∨
    ¬ Succeeded guarded calls ∧ watchedCalls watched calls <+: plan ∧ status ≠ 0

/-- So it is whatever the host answers. -/
def Follows (script : Script C) (plan : List C) (final : ℕ → Prop) : Prop :=
  ∀ calls status, Runs script calls status → Outcome guarded watched calls status plan final

variable {guarded watched} {script rest : Script C} {c : C} {k : Reply → Script C}
  {calls : List (C × Reply)} {status : ℕ} {plan : List C} {final : ℕ → Prop} {r : Reply}

theorem succeeded_cons (hok : guarded c = true ∨ r.status = 0) :
    Succeeded guarded ((c, r) :: calls) ↔ Succeeded guarded calls := by
  refine List.forall_mem_cons.trans (and_iff_right fun hguarded => ?_)
  rcases hok with hok | hok
  · rw [hok] at hguarded
    cases hguarded
  · exact hok

theorem watchedCalls_cons_of_neg (hc : watched c = false) :
    watchedCalls watched ((c, r) :: calls) = watchedCalls watched calls :=
  List.filter_cons_of_neg (by simp [hc])

/-- A command that is not of interest changes nothing if the script goes on behind it. -/
theorem Outcome.cons (hc : watched c = false) (hok : guarded c = true ∨ r.status = 0)
    (h : Outcome guarded watched calls status plan final) :
    Outcome guarded watched ((c, r) :: calls) status plan final := by
  rw [Outcome, succeeded_cons hok, watchedCalls_cons_of_neg hc]
  exact h

/-- A command that is not guarded and fails ends the script before the plan begins. -/
theorem Outcome.failed (hc : watched c = false) (hguarded : guarded c = false)
    (hfails : r.status ≠ 0) : Outcome guarded watched [(c, r)] r.status plan final := by
  refine .inr ⟨fun hall => hfails (hall (c, r) List.mem_cons_self hguarded), ?_, hfails⟩
  rw [watchedCalls_cons_of_neg hc]
  exact List.nil_prefix

theorem Outcome.mono {final' : ℕ → Prop} (h : Outcome guarded watched calls status plan final)
    (hfinal : ∀ s, final s → final' s) : Outcome guarded watched calls status plan final' :=
  h.imp_left fun ⟨hok, hplan, hs⟩ => ⟨hok, hplan, hfinal _ hs⟩

/-- A script that exits with zero has met no failure that it does not guard. -/
theorem Outcome.succeeded (h : Outcome guarded watched calls 0 plan final) :
    Succeeded guarded calls :=
  h.elim And.left fun hfailed => absurd rfl hfailed.2.2

theorem Follows.ret {s : ℕ} (h : final s) : Follows guarded watched (.ret s) [] final := by
  intro calls status hruns
  obtain ⟨rfl, rfl⟩ := runs_ret hruns
  exact .inl ⟨fun _ h => (nomatch h), rfl, h⟩

/-- A command that is not of interest and is guarded, whatever the script does about its
answer. -/
theorem Follows.ask (hc : watched c = false) (hguarded : guarded c = true)
    (h : ∀ r, Follows guarded watched (k r) plan final) :
    Follows guarded watched (.call c k) plan final := by
  intro calls status hruns
  obtain ⟨r, more, rfl, hrest⟩ := runs_call hruns
  exact (h r more status hrest).cons hc (.inl hguarded)

/-- A command that is not of interest and not guarded. -/
theorem Follows.must (hc : watched c = false) (hguarded : guarded c = false)
    (h : Follows guarded watched rest plan final) :
    Follows guarded watched (must c rest) plan final := by
  intro calls status hruns
  rcases runs_must hruns with ⟨r, more, rfl, hok, hrest⟩ | ⟨r, rfl, hfails, rfl⟩
  · exact (h more status hrest).cons hc (.inr hok)
  · exact .failed hc hguarded hfails

/-- A command of interest that is guarded: the script goes on, whatever becomes of it. -/
theorem Follows.next (hc : watched c = true) (hguarded : guarded c = true)
    (h : Follows guarded watched rest plan final) :
    Follows guarded watched (.call c fun _ => rest) (c :: plan) final := by
  intro calls status hruns
  obtain ⟨r, more, rfl, hrest⟩ := runs_call hruns
  have hcons : watchedCalls watched ((c, r) :: more) = c :: watchedCalls watched more :=
    List.filter_cons_of_pos hc
  rw [Outcome, succeeded_cons (.inl hguarded), hcons, List.cons.injEq, List.cons_prefix_cons]
  simpa only [true_and, Outcome] using h more status hrest

end Follows

end Shell
