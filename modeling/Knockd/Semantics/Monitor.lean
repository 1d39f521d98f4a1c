import Mathlib.Data.Fintype.Basic
import Mathlib.Logic.Relation
import Knockd.Semantics.Machine

/-!
# Monitors

A monitor is a shared state behind a lock with a condition variable. Threads call it, and
a call runs instruction by instruction: it takes the lock, works on the shared state, may
sleep on the condition variable, which gives the lock away, and returns. Between any two
instructions any other thread may move. A sleeper wakes when it is signalled, when its
time is up, or for no reason, and then waits for the lock like everybody else.

What one thread does between taking the lock and giving it away is a *section*. Nobody
else touches the shared state during a section, so a run is a sequence of sections: this
is what makes a function that locks look like one atomic step to its callers.

## Main definitions

* `Monitor.Code`, `Monitor.State`, `Monitor.step` — the machine
* `Monitor.Section` — what one thread does while it holds the lock
* `Monitor.Sections` — the shared state, while one section is under way

## Main results

* `section_iff` — sections are computed by running the code
* `Sections.move` — every move of a run is part of a section or the end of one
* `sections_of_run` — the invariant rule: what every section keeps, every run keeps
-/

namespace Monitor

/-- What the instruction at a program counter does, apart from writing the shared state:
go on, signal one sleeper or all of them and go on, sleep, with the places to go on at
when woken and when timed out, or return. -/
inductive Instr (Pc R : Type*)
  | goto (pc : Pc)
  | signal (pc : Pc)
  | broadcast (pc : Pc)
  | wait (woken timedOut : Pc)
  | ret (r : R)

/-- The code of a monitor: where each call enters it, and what it does there. -/
structure Code (C Pc R σ : Type*) where
  entry : C → Pc
  instr : Pc → σ → σ × Instr Pc R

/-- Where a thread is. Inside, it also carries the place where it took the lock. -/
inductive Thread (C Pc : Type*)
  | outside
  | entering (call : C)
  | inside (call : C) (start pc : Pc)
  | asleep (call : C) (woken timedOut : Pc)
  | waking (call : C) (pc : Pc)
  deriving DecidableEq

/-- The shared state, who holds the lock, and where each thread is. -/
structure State (ι C Pc σ : Type*) where
  shared : σ
  holder : Option ι
  threads : ι → Thread C Pc

/-- Nobody has called yet. -/
def State.start {ι C Pc σ : Type*} (shared : σ) : State ι C Pc σ :=
  ⟨shared, none, fun _ => .outside⟩

/-- How a section ends. -/
inductive Exit (Pc R : Type*)
  | returned (r : R)
  | slept (woken timedOut : Pc)
  deriving DecidableEq

/-- A section as others see it: whose it was, in which call, where it took the lock and
how it gave it away. -/
structure Visit (ι C Pc R : Type*) where
  thread : ι
  call : C
  start : Pc
  exit : Exit Pc R
  deriving DecidableEq

/-- What the scheduler can choose. An instruction that signals is told whom. -/
inductive Action (ι C : Type*)
  | call (i : ι) (c : C)
  | acquire (i : ι)
  | exec (i : ι) (woken : Option ι)
  | wake (i : ι) (timedOut : Bool)

variable {ι C Pc R σ : Type*}

/-- The thread sleeps. -/
def Thread.isAsleep : Thread C Pc → Bool
  | .asleep .. => true
  | _ => false

/-- The thread holds the lock. -/
def Thread.isInside : Thread C Pc → Bool
  | .inside .. => true
  | _ => false

/-- The call a thread is in. -/
def Thread.current : Thread C Pc → Option C
  | .outside => none
  | .entering call => some call
  | .inside call _ _ => some call
  | .asleep call _ _ => some call
  | .waking call _ => some call

/-- A sleeper that is signalled starts to wait for the lock. -/
def Thread.woken : Thread C Pc → Thread C Pc
  | .asleep call woken _ => .waking call woken
  | thread => thread

/-- Move a thread to a new place. -/
def State.set [DecidableEq ι] (s : State ι C Pc σ) (i : ι) (thread : Thread C Pc) :
    State ι C Pc σ :=
  { s with threads := Function.update s.threads i thread }

/-- Write the shared state. -/
def State.write (s : State ι C Pc σ) (shared : σ) : State ι C Pc σ := { s with shared := shared }

/-- Who holds the lock from now on. -/
def State.hold (s : State ι C Pc σ) (holder : Option ι) : State ι C Pc σ :=
  { s with holder := holder }

/-- Wake everybody. -/
def State.wakeAll (s : State ι C Pc σ) : State ι C Pc σ :=
  { s with threads := fun i => (s.threads i).woken }

section Step

variable [DecidableEq ι] [Fintype ι] (code : Code C Pc R σ)

/-- Signal one sleeper. The choice must be a sleeper if there is one. -/
def State.signal (s : State ι C Pc σ) : Option ι → Option (State ι C Pc σ)
  | some j => if (s.threads j).isAsleep then some (s.set j (s.threads j).woken) else none
  | none => if ∀ j, (s.threads j).isAsleep = false then some s else none

/-- One step of one thread. -/
def step (s : State ι C Pc σ) : Action ι C → Option (State ι C Pc σ × List (Visit ι C Pc R))
  | .call i c =>
    match s.threads i with
    | .outside => some (s.set i (.entering c), [])
    | _ => none
  | .acquire i =>
    match s.holder, s.threads i with
    | none, .entering c =>
      some ((s.set i (.inside c (code.entry c) (code.entry c))).hold (some i), [])
    | none, .waking c pc => some ((s.set i (.inside c pc pc)).hold (some i), [])
    | _, _ => none
  | .exec i woken =>
    match s.threads i with
    | .inside c start pc =>
      let out := code.instr pc s.shared
      let s := s.write out.1
      match out.2 with
      | .goto pc' => some (s.set i (.inside c start pc'), [])
      | .signal pc' => (s.signal woken).map fun s => (s.set i (.inside c start pc'), [])
      | .broadcast pc' => some (s.wakeAll.set i (.inside c start pc'), [])
      | .wait w t => some ((s.set i (.asleep c w t)).hold none, [⟨i, c, start, .slept w t⟩])
      | .ret r => some ((s.set i .outside).hold none, [⟨i, c, start, .returned r⟩])
    | _ => none
  | .wake i timedOut =>
    match s.threads i with
    | .asleep c w t => some (s.set i (.waking c (if timedOut then t else w)), [])
    | _ => none

/-- A run. -/
def run (s : State ι C Pc σ) (actions : List (Action ι C)) :
    Option (State ι C Pc σ × List (Visit ι C Pc R)) :=
  Machine.run (step code) s actions

end Step

/-! ### Sections -/

section Sections

variable (code : Code C Pc R σ)

/-- The place an instruction goes on at, if it keeps the lock. -/
def Instr.next : Instr Pc R → Option Pc
  | .goto pc | .signal pc | .broadcast pc => some pc
  | .wait .. | .ret .. => none

/-- How an instruction leaves, if it gives the lock away. -/
def Instr.exit : Instr Pc R → Option (Exit Pc R)
  | .goto _ | .signal _ | .broadcast _ => none
  | .wait w t => some (.slept w t)
  | .ret r => some (.returned r)

/-- One instruction under the lock. -/
def Code.Internal (x y : Pc × σ) : Prop :=
  (code.instr x.1 x.2).2.next = some y.1 ∧ (code.instr x.1 x.2).1 = y.2

/-- Taking the lock at `start` and finding `s`, the code gives it away by `exit` and
leaves `s'`. -/
def Section (start : Pc) (s : σ) (exit : Exit Pc R) (s' : σ) : Prop :=
  ∃ x : Pc × σ, Relation.ReflTransGen code.Internal (start, s) x ∧
    (code.instr x.1 x.2).2.exit = some exit ∧ (code.instr x.1 x.2).1 = s'

variable {code} {start pc : Pc} {s s' : σ} {exit : Exit Pc R}

/-- Sections are computed by running the code. -/
theorem section_iff : Section code pc s exit s' ↔
    match (code.instr pc s).2 with
    | .goto pc' | .signal pc' | .broadcast pc' => Section code pc' (code.instr pc s).1 exit s'
    | .wait w t => exit = .slept w t ∧ s' = (code.instr pc s).1
    | .ret r => exit = .returned r ∧ s' = (code.instr pc s).1 := by
  -- an instruction that keeps the lock is the first of a longer section
  have hmore : ∀ pc', (code.instr pc s).2.next = some pc' → (code.instr pc s).2.exit = none →
      (Section code pc s exit s' ↔ Section code pc' (code.instr pc s).1 exit s') := by
    intro pc' hnext hstay
    constructor
    · rintro ⟨x, hsteps, hexit, hlast⟩
      rcases hsteps.cases_head with rfl | ⟨y, hfirst, hrest⟩
      · rw [hstay] at hexit
        cases hexit
      · obtain ⟨hpc, hs⟩ := hfirst
        obtain rfl : y = (pc', (code.instr pc s).1) :=
          Prod.ext (Option.some.inj (hpc.symm.trans hnext)) hs.symm
        exact ⟨x, hrest, hexit, hlast⟩
    · rintro ⟨x, hsteps, hexit, hlast⟩
      exact ⟨x, .head ⟨hnext, rfl⟩ hsteps, hexit, hlast⟩
  -- one that gives it away is the only one
  have hlast : ∀ exit', (code.instr pc s).2.next = none → (code.instr pc s).2.exit = some exit' →
      (Section code pc s exit s' ↔ exit = exit' ∧ s' = (code.instr pc s).1) := by
    intro exit' hstop hleave
    constructor
    · rintro ⟨x, hsteps, hexit, hlast⟩
      rcases hsteps.cases_head with rfl | ⟨y, hfirst, -⟩
      · exact ⟨Option.some.inj (hexit.symm.trans hleave), hlast.symm⟩
      · cases hstop.symm.trans hfirst.1
    · rintro ⟨rfl, rfl⟩
      exact ⟨(pc, s), .refl, hleave, rfl⟩
  cases hinstr : (code.instr pc s).2 with
  | goto pc' => exact hmore pc' (by rw [hinstr]; rfl) (by rw [hinstr]; rfl)
  | signal pc' => exact hmore pc' (by rw [hinstr]; rfl) (by rw [hinstr]; rfl)
  | broadcast pc' => exact hmore pc' (by rw [hinstr]; rfl) (by rw [hinstr]; rfl)
  | wait w t => exact hlast _ (by rw [hinstr]; rfl) (by rw [hinstr]; rfl)
  | ret r => exact hlast _ (by rw [hinstr]; rfl) (by rw [hinstr]; rfl)

end Sections

/-! ### Moves -/

section Moves

variable {code : Code C Pc R σ} {s s' : State ι C Pc σ} {i j : ι} {thread : Thread C Pc}
  {seen : List (Visit ι C Pc R)}

section Fields

variable (s) (shared : σ) (holder : Option ι)

@[simp] theorem State.hold_shared : (s.hold holder).shared = s.shared := rfl

@[simp] theorem State.hold_holder : (s.hold holder).holder = holder := rfl

@[simp] theorem State.hold_threads : (s.hold holder).threads = s.threads := rfl

@[simp] theorem State.write_shared : (s.write shared).shared = shared := rfl

@[simp] theorem State.write_holder : (s.write shared).holder = s.holder := rfl

@[simp] theorem State.write_threads : (s.write shared).threads = s.threads := rfl

variable [DecidableEq ι] (i thread)

@[simp] theorem State.set_shared : (s.set i thread).shared = s.shared := rfl

@[simp] theorem State.set_holder : (s.set i thread).holder = s.holder := rfl

@[simp] theorem State.set_self : (s.set i thread).threads i = thread := Function.update_self ..

@[simp] theorem State.set_of_ne (h : j ≠ i) : (s.set i thread).threads j = s.threads j :=
  Function.update_of_ne h ..

end Fields

@[simp] theorem Thread.isAsleep_woken (thread : Thread C Pc) : thread.woken.isAsleep = false := by
  cases thread <;> rfl

/-- Some threads are woken, and nothing else happens. -/
structure Wakes (s s' : State ι C Pc σ) : Prop where
  shared : s'.shared = s.shared
  holder : s'.holder = s.holder
  threads : ∀ i, s'.threads i = s.threads i ∨ s'.threads i = (s.threads i).woken

/-- Whom an instruction has to wake: nobody, one sleeper if there is one, everybody. -/
def Instr.Notifies (s s' : State ι C Pc σ) : Instr Pc R → Prop
  | .signal _ =>
    (∃ j, (s.threads j).isAsleep ∧ s'.threads j = (s.threads j).woken) ∨
      ∀ j, (s'.threads j).isAsleep = false
  | .broadcast _ => ∀ j, (s'.threads j).isAsleep = false
  | _ => s' = s

/-- Waking leaves a thread that is inside where it is, and puts none there. -/
theorem Wakes.inside (h : Wakes s s') {c : C} {start pc : Pc} :
    s'.threads i = .inside c start pc ↔ s.threads i = .inside c start pc := by
  rcases h.threads i with heq | heq
  · rw [heq]
  · rw [heq]
    cases s.threads i <;> simp [Thread.woken]

variable [DecidableEq ι]

theorem signal_wakes [Fintype ι] {woken : Option ι} (pc : Pc) (h : s.signal woken = some s') :
    Wakes s s' ∧ (Instr.signal (R := R) pc).Notifies s s' := by
  cases woken with
  | none =>
    simp only [State.signal, Option.ite_none_right_eq_some, Option.some.injEq] at h
    obtain ⟨hnone, rfl⟩ := h
    exact ⟨⟨rfl, rfl, fun _ => .inl rfl⟩, .inr hnone⟩
  | some j =>
    simp only [State.signal, Option.ite_none_right_eq_some, Option.some.injEq] at h
    obtain ⟨hasleep, rfl⟩ := h
    refine ⟨⟨rfl, rfl, fun i => ?_⟩, .inl ⟨j, hasleep, s.set_self ..⟩⟩
    by_cases hij : i = j
    · subst hij
      exact .inr (s.set_self ..)
    · exact .inl (s.set_of_ne _ _ hij)

variable (code) in
/-- The moves of the monitor. Those that keep the lock are one case: the instruction goes
on, possibly after waking threads. -/
inductive Move (s : State ι C Pc σ) :
    Action ι C → State ι C Pc σ → List (Visit ι C Pc R) → Prop
  | call (i : ι) (c : C) (hthread : s.threads i = .outside) :
    Move s (.call i c) (s.set i (.entering c)) []
  | enter (i : ι) (c : C) (hfree : s.holder = none) (hthread : s.threads i = .entering c) :
    Move s (.acquire i) ((s.set i (.inside c (code.entry c) (code.entry c))).hold (some i)) []
  | reenter (i : ι) (c : C) (pc : Pc) (hfree : s.holder = none)
      (hthread : s.threads i = .waking c pc) :
    Move s (.acquire i) ((s.set i (.inside c pc pc)).hold (some i)) []
  | goOn (i : ι) (woken : Option ι) (c : C) (start pc pc' : Pc) (s₁ : State ι C Pc σ)
      (hthread : s.threads i = .inside c start pc)
      (hnext : (code.instr pc s.shared).2.next = some pc')
      (hwakes : Wakes (s.write (code.instr pc s.shared).1) s₁)
      (hnotifies : (code.instr pc s.shared).2.Notifies (s.write (code.instr pc s.shared).1) s₁) :
    Move s (.exec i woken) (s₁.set i (.inside c start pc')) []
  | sleep (i : ι) (woken : Option ι) (c : C) (start pc w t : Pc)
      (hthread : s.threads i = .inside c start pc)
      (hexit : (code.instr pc s.shared).2 = .wait w t) :
    Move s (.exec i woken)
      (((s.write (code.instr pc s.shared).1).set i (.asleep c w t)).hold none)
      [⟨i, c, start, .slept w t⟩]
  | ret (i : ι) (woken : Option ι) (c : C) (start pc : Pc) (r : R)
      (hthread : s.threads i = .inside c start pc)
      (hexit : (code.instr pc s.shared).2 = .ret r) :
    Move s (.exec i woken) (((s.write (code.instr pc s.shared).1).set i .outside).hold none)
      [⟨i, c, start, .returned r⟩]
  | wake (i : ι) (c : C) (w t : Pc) (timedOut : Bool) (hthread : s.threads i = .asleep c w t) :
    Move s (.wake i timedOut) (s.set i (.waking c (if timedOut then t else w))) []

theorem step_move [Fintype ι] {a : Action ι C} (h : step code s a = some (s', seen)) :
    Move code s a s' seen := by
  cases a with
  | call i c =>
    simp only [step] at h
    split at h
    · rename_i hthread
      cases h
      exact .call i c hthread
    · cases h
  | acquire i =>
    simp only [step] at h
    split at h
    · rename_i c hfree hthread
      cases h
      exact .enter i c hfree hthread
    · rename_i c pc hfree hthread
      cases h
      exact .reenter i c pc hfree hthread
    · cases h
  | exec i woken =>
    simp only [step] at h
    split at h
    · rename_i c start pc hthread
      cases hinstr : (code.instr pc s.shared).2 with
      | goto pc' =>
        rw [hinstr] at h
        cases h
        refine .goOn i woken c start pc pc' _ hthread (by rw [hinstr]; rfl)
          ⟨rfl, rfl, fun _ => .inl rfl⟩ ?_
        rw [hinstr]
        rfl
      | signal pc' =>
        rw [hinstr] at h
        obtain ⟨s₁, hsignal, heq⟩ := Option.map_eq_some_iff.mp h
        cases heq
        obtain ⟨hwakes, hnotifies⟩ := signal_wakes (R := R) pc' hsignal
        refine .goOn i woken c start pc pc' s₁ hthread (by rw [hinstr]; rfl) hwakes ?_
        rw [hinstr]
        exact hnotifies
      | broadcast pc' =>
        rw [hinstr] at h
        cases h
        refine .goOn i woken c start pc pc' _ hthread (by rw [hinstr]; rfl)
          ⟨rfl, rfl, fun _ => .inr rfl⟩ ?_
        rw [hinstr]
        exact fun _ => Thread.isAsleep_woken _
      | wait w t =>
        rw [hinstr] at h
        cases h
        exact .sleep i woken c start pc w t hthread hinstr
      | ret r =>
        rw [hinstr] at h
        cases h
        exact .ret i woken c start pc r hthread hinstr
    · cases h
  | wake i timedOut =>
    simp only [step] at h
    split at h
    · rename_i c w t hthread
      cases h
      exact .wake i c w t timedOut hthread
    · cases h

omit [DecidableEq ι] in
theorem Wakes.current (h : Wakes s s') (i : ι) :
    (s'.threads i).current = (s.threads i).current := by
  rcases h.threads i with heq | heq
  · rw [heq]
  · rw [heq]
    cases s.threads i <;> rfl

/-- A thread that holds the lock can go on: there is always somebody to signal, or nobody
to be signalled. -/
theorem exists_exec [Fintype ι] {c : C} {start pc : Pc}
    (hthread : s.threads i = .inside c start pc) :
    ∃ woken, (step code s (.exec i woken)).isSome := by
  cases hinstr : (code.instr pc s.shared).2 with
  | signal pc' =>
    by_cases hasleep : ∃ j, (s.threads j).isAsleep
    · obtain ⟨j, hj⟩ := hasleep
      exact ⟨some j, by simp [step, hthread, hinstr, State.signal, hj]⟩
    · have hnone : ∀ j, (s.threads j).isAsleep = false := by simpa using hasleep
      exact ⟨none, by simp [step, hthread, hinstr, State.signal, hnone]⟩
  | _ => exact ⟨none, by simp [step, hthread, hinstr]⟩

/-- A thread that moves within its call. -/
theorem current_set (hcall : thread.current = (s.threads i).current) (j : ι) :
    ((s.set i thread).threads j).current = (s.threads j).current := by
  by_cases hji : j = i
  · subst hji
    rw [State.set_self, hcall]
  · rw [State.set_of_ne _ _ _ hji]

/-- A thread comes into a call by making it and is out of it when it returns; otherwise it
stays in the call it is in. -/
theorem Move.current {a : Action ι C} (h : Move code s a s' seen) (j : ι) :
    (s'.threads j).current = (s.threads j).current ∨
      (∃ c, a = .call j c ∧ (s'.threads j).current = some c) ∨
      ((∃ v ∈ seen, v.thread = j ∧ ∃ r, v.exit = .returned r) ∧
        (s'.threads j).current = none) := by
  cases h with
  | call i c =>
    by_cases hji : j = i
    · subst hji
      exact .inr (.inl ⟨c, rfl, by rw [State.set_self]; rfl⟩)
    · exact .inl (by rw [State.set_of_ne _ _ _ hji])
  | ret i woken c start pc r =>
    by_cases hji : j = i
    · subst hji
      refine .inr (.inr ⟨⟨_, List.mem_singleton_self _, rfl, r, rfl⟩, ?_⟩)
      rw [State.hold_threads, State.set_self]
      rfl
    · exact .inl (by rw [State.hold_threads, State.set_of_ne _ _ _ hji, State.write_threads])
  | goOn i woken c start pc pc' s₁ hthread hnext hwakes =>
    have hi : (s₁.threads i).current = some c := by
      rw [hwakes.current i, State.write_threads, hthread]
      rfl
    have hkept : (Thread.inside c start pc').current = (s₁.threads i).current := hi.symm
    exact .inl ((current_set hkept j).trans (hwakes.current j))
  | enter i c hfree hthread => exact .inl (current_set (by rw [hthread]; rfl) j)
  | reenter i c pc hfree hthread => exact .inl (current_set (by rw [hthread]; rfl) j)
  | sleep i woken c start pc w t hthread =>
    exact .inl (current_set (s := s.write _) (by rw [State.write_threads, hthread]; rfl) j)
  | wake i c w t timedOut hthread => exact .inl (current_set (by rw [hthread]; rfl) j)

/-- A section that ends was in the call its thread was in, and if it returned, the thread
is in none. -/
theorem Move.visits {a : Action ι C} (h : Move code s a s' seen) :
    ∀ v ∈ seen, (s.threads v.thread).current = some v.call ∧
      ∀ r, v.exit = .returned r → (s'.threads v.thread).current = none := by
  cases h with
  | sleep i woken c start pc w t hthread =>
    refine List.forall_mem_singleton.mpr ⟨?_, fun r hr => by cases hr⟩
    rw [hthread]
    rfl
  | ret i woken c start pc r hthread =>
    refine List.forall_mem_singleton.mpr ⟨?_, fun _ _ => ?_⟩
    · rw [hthread]
      rfl
    · rw [State.hold_threads, State.set_self]
      rfl
  | _ => exact fun v hv => by cases hv

/-! ### A run is a sequence of sections -/

variable (code) in
/-- The shared state was `s₀` when the lock was last free, and the thread that holds it now
has come from there on its own. -/
structure Sections (s : State ι C Pc σ) (s₀ : σ) : Prop where
  free : s.holder = none → s.shared = s₀
  held : ∀ i, s.holder = some i → ∃ c start pc, s.threads i = .inside c start pc ∧
    Relation.ReflTransGen code.Internal (start, s₀) (pc, s.shared)
  alone : ∀ i c start pc, s.threads i = .inside c start pc → s.holder = some i

/-- A call takes the lock where it enters, or where a section of it that slept may go on. -/
structure Code.Fits (code : Code C Pc R σ) (fits : C → Pc → Prop) : Prop where
  entry : ∀ c, fits c (code.entry c)
  slept : ∀ c start s w t s', fits c start → Section code start s (.slept w t) s' →
    fits c w ∧ fits c t

/-- Every thread takes the lock where its call may. -/
def Thread.Fits (fits : C → Pc → Prop) : Thread C Pc → Prop
  | .outside => True
  | .entering _ => True
  | .inside c start _ => fits c start
  | .asleep c w t => fits c w ∧ fits c t
  | .waking c pc => fits c pc

theorem Thread.Fits.woken {fits : C → Pc → Prop} (h : thread.Fits fits) :
    thread.woken.Fits fits := by
  cases thread with
  | asleep c w t => exact h.1
  | _ => exact h

omit [DecidableEq ι] in
theorem sections_start (code : Code C Pc R σ) (s₀ : σ) :
    Sections code (State.start s₀ : State ι C Pc σ) s₀ where
  free _ := rfl
  held _ h := by cases h
  alone _ _ _ _ h := by cases h

section Preservation

variable {s₀ : σ} {c : C} {start pc pc' : Pc}

omit [DecidableEq ι] in
/-- The thread that is inside has come from where the lock was last free. -/
theorem Sections.steps (h : Sections code s s₀) (hthread : s.threads i = .inside c start pc) :
    s.holder = some i ∧ Relation.ReflTransGen code.Internal (start, s₀) (pc, s.shared) := by
  have hholder := h.alone i c start pc hthread
  obtain ⟨c', start', pc', hthread', hsteps⟩ := h.held i hholder
  cases hthread.symm.trans hthread'
  exact ⟨hholder, hsteps⟩

/-- A thread moves outside the lock. -/
theorem Sections.set (h : Sections code s s₀) (hbefore : (s.threads i).isInside = false)
    (hafter : thread.isInside = false) : Sections code (s.set i thread) s₀ := by
  refine ⟨h.free, fun j hj => ?_, fun j c start pc hj => ?_⟩
  · obtain ⟨c, start, pc, hthread, hsteps⟩ := h.held j hj
    have hji : j ≠ i := by
      rintro rfl
      rw [hthread] at hbefore
      cases hbefore
    exact ⟨c, start, pc, by rwa [State.set_of_ne _ _ _ hji], hsteps⟩
  · by_cases hji : j = i
    · subst hji
      rw [State.set_self] at hj
      rw [hj] at hafter
      cases hafter
    · rw [State.set_of_ne _ _ _ hji] at hj
      exact h.alone j c start pc hj

/-- A thread takes the lock. -/
theorem Sections.take (h : Sections code s s₀) (hfree : s.holder = none) :
    Sections code ((s.set i (.inside c pc pc)).hold (some i)) s₀ := by
  refine ⟨fun hnone => (by cases hnone), fun j hj => ?_, fun j c' start' pc' hj => ?_⟩
  · obtain rfl : i = j := Option.some.inj hj
    refine ⟨c, pc, pc, State.set_self .., ?_⟩
    rw [State.hold_shared, State.set_shared, h.free hfree]
  · by_cases hji : j = i
    · rw [hji]
      rfl
    · rw [State.hold_threads, State.set_of_ne _ _ _ hji] at hj
      cases hfree.symm.trans (h.alone j c' start' pc' hj)

/-- The thread that holds the lock goes on, and wakes others. -/
theorem Sections.goOn (h : Sections code s s₀) (hthread : s.threads i = .inside c start pc)
    (hnext : (code.instr pc s.shared).2.next = some pc') {s₁ : State ι C Pc σ}
    (hwakes : Wakes (s.write (code.instr pc s.shared).1) s₁) :
    Sections code (s₁.set i (.inside c start pc')) s₀ := by
  obtain ⟨hholder, hsteps⟩ := h.steps hthread
  have hkept : s₁.holder = some i := hwakes.holder.trans hholder
  refine ⟨fun hnone => ?_, fun j hj => ?_, fun j c' start' pc'' hj => ?_⟩
  · cases hkept.symm.trans hnone
  · obtain rfl : i = j := Option.some.inj (hkept.symm.trans hj)
    refine ⟨c, start, pc', State.set_self .., hsteps.tail ⟨hnext, ?_⟩⟩
    exact hwakes.shared.symm
  · by_cases hji : j = i
    · rw [hji]
      exact hkept
    · rw [State.set_of_ne _ _ _ hji] at hj
      exact hkept.trans (hholder.symm.trans (h.alone j c' start' pc'' (hwakes.inside.mp hj)))

/-- The thread that holds the lock gives it away. -/
theorem Sections.leave (h : Sections code s s₀) (thread : Thread C Pc)
    (hthread : s.threads i = .inside c start pc)
    {exit : Exit Pc R} (hexit : (code.instr pc s.shared).2.exit = some exit)
    (hafter : thread.isInside = false) :
    let s' := ((s.write (code.instr pc s.shared).1).set i thread).hold none
    Section code start s₀ exit s'.shared ∧ Sections code s' s'.shared := by
  obtain ⟨hholder, hsteps⟩ := h.steps hthread
  refine ⟨⟨_, hsteps, hexit, rfl⟩, fun _ => rfl, fun j hj => (by cases hj), ?_⟩
  intro j c' start' pc' hj
  by_cases hji : j = i
  · subst hji
    rw [State.hold_threads, State.set_self] at hj
    rw [hj] at hafter
    cases hafter
  · rw [State.hold_threads, State.set_of_ne _ _ _ hji] at hj
    have hother : s.holder = some j := h.alone j c' start' pc' hj
    exact absurd (Option.some.inj (hother.symm.trans hholder)) hji

/-- Every move is part of a section, or the end of one. -/
theorem Sections.move (h : Sections code s s₀) {a : Action ι C} (hmove : Move code s a s' seen) :
    (seen = [] ∧ Sections code s' s₀) ∨ ∃ v, seen = [v] ∧
      Section code v.start s₀ v.exit s'.shared ∧ Sections code s' s'.shared := by
  cases hmove with
  | call i c hthread => exact .inl ⟨rfl, h.set (by rw [hthread]; rfl) rfl⟩
  | enter i c hfree => exact .inl ⟨rfl, h.take hfree⟩
  | reenter i c pc hfree => exact .inl ⟨rfl, h.take hfree⟩
  | goOn i woken c start pc pc' s₁ hthread hnext hwakes =>
    exact .inl ⟨rfl, h.goOn hthread hnext hwakes⟩
  | sleep i woken c start pc w t hthread hexit =>
    exact .inr ⟨_, rfl, h.leave _ hthread (by rw [hexit]; rfl) rfl⟩
  | ret i woken c start pc r hthread hexit =>
    exact .inr ⟨_, rfl, h.leave _ hthread (by rw [hexit]; rfl) rfl⟩
  | wake i c w t timedOut hthread => exact .inl ⟨rfl, h.set (by rw [hthread]; rfl) rfl⟩

omit [DecidableEq ι] in
theorem Wakes.fits {fits : C → Pc → Prop} (h : Wakes s s')
    (hfits : ∀ i, (s.threads i).Fits fits) (i : ι) : (s'.threads i).Fits fits := by
  rcases h.threads i with heq | heq
  · rw [heq]
    exact hfits i
  · rw [heq]
    exact (hfits i).woken

theorem set_fits {fits : C → Pc → Prop} (hfits : ∀ j, (s.threads j).Fits fits)
    (hthread : thread.Fits fits) (j : ι) : ((s.set i thread).threads j).Fits fits := by
  by_cases hji : j = i
  · subst hji
    rwa [State.set_self]
  · rw [State.set_of_ne _ _ _ hji]
    exact hfits j

/-- Every thread goes on taking the lock where its call may, and so does every section
that ends. -/
theorem Code.Fits.move {fits : C → Pc → Prop} (hcode : code.Fits fits)
    (h : Sections code s s₀) (hfits : ∀ i, (s.threads i).Fits fits)
    {a : Action ι C} (hmove : Move code s a s' seen) :
    (∀ i, (s'.threads i).Fits fits) ∧ ∀ v ∈ seen, fits v.call v.start := by
  cases hmove with
  | call i c => exact ⟨set_fits hfits trivial, by simp⟩
  | enter i c => exact ⟨set_fits hfits (hcode.entry c), by simp⟩
  | reenter i c pc hfree hthread =>
    have hpc := hfits i
    rw [hthread] at hpc
    exact ⟨set_fits hfits hpc, by simp⟩
  | goOn i woken c start pc pc' s₁ hthread hnext hwakes =>
    have hstart := hfits i
    rw [hthread] at hstart
    exact ⟨set_fits (hwakes.fits hfits) hstart, by simp⟩
  | sleep i woken c start pc w t hthread hexit =>
    have hstart := hfits i
    rw [hthread] at hstart
    obtain ⟨hsection, -⟩ := h.leave .outside hthread (by rw [hexit]; rfl) rfl
    exact ⟨set_fits hfits (hcode.slept c start s₀ w t _ hstart hsection),
      List.forall_mem_singleton.mpr hstart⟩
  | ret i woken c start pc r hthread hexit =>
    have hstart := hfits i
    rw [hthread] at hstart
    exact ⟨set_fits hfits trivial, List.forall_mem_singleton.mpr hstart⟩
  | wake i c w t timedOut hthread =>
    have hplaces := hfits i
    rw [hthread] at hplaces
    refine ⟨set_fits hfits ?_, by simp⟩
    cases timedOut
    · exact hplaces.1
    · exact hplaces.2

end Preservation

/-- The invariant rule. What holds at the start, and is kept by every section that starts
where its call may, holds in every run: of the shared state whenever the lock is free, and
while it is held, of the state the holder found. -/
theorem sections_of_run [Fintype ι] {fits : C → Pc → Prop} (hcode : code.Fits fits)
    {P : σ → List (Visit ι C Pc R) → Prop} {s₀ : σ} (hstart : P s₀ [])
    (hsection : ∀ s seen v s', P s seen → fits v.call v.start →
      Section code v.start s v.exit s' → P s' (seen ++ [v]))
    {actions : List (Action ι C)} (hrun : run code (State.start s₀) actions = some (s, seen)) :
    ∃ s₁, P s₁ seen ∧ Sections code s s₁ := by
  have hall : (∀ i, (s.threads i).Fits fits) ∧ ∃ s₁, P s₁ seen ∧ Sections code s s₁ := by
    refine Machine.invariant_of_run
      (P := fun s seen => (∀ i, (s.threads i).Fits fits) ∧ ∃ s₁, P s₁ seen ∧ Sections code s s₁)
      ?_ ⟨fun _ => trivial, s₀, hstart, sections_start code s₀⟩ hrun
    rintro s seen a s' vs ⟨hfits, s₁, hP, hsections⟩ hstep
    have hmove := step_move hstep
    obtain ⟨hfits', hvs⟩ := hcode.move hsections hfits hmove
    refine ⟨hfits', ?_⟩
    rcases hsections.move hmove with ⟨rfl, hsame⟩ | ⟨v, rfl, hended, hnext⟩
    · exact ⟨s₁, by simpa using hP, hsame⟩
    · exact ⟨s'.shared, hsection _ _ v _ hP (hvs v (List.mem_singleton_self v)) hended, hnext⟩
  exact hall.2

end Moves

end Monitor
