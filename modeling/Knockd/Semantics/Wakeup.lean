import Mathlib.Algebra.Order.BigOperators.Group.Finset
import Knockd.Semantics.Monitor

/-!
# No lost wake-ups

A thread that sleeps in a monitor waits for something. The danger is that it happens and
nobody tells: that a thread sleeps on while the shared state holds work for it. Signals
wake one thread each, so the work must be weighed against the threads that have been woken
and are on their way back to the lock.

The weighing is a predicate of the place of the lock holder, if there is one, the number
of threads on their way, and the shared state. Each instruction must keep it, where a
signal brings one more thread and a thread that gets the lock is one less, and it must hold
without further ado whenever a thread goes to sleep. Then it holds in every run as long as
anybody sleeps.

## Main definitions

* `Monitor.State.waking` — how many threads are on their way
* `Monitor.Code.Covers` — what the instructions must keep

## Main results

* `covered_of_run` — it holds whenever somebody sleeps
-/

namespace Monitor

variable {ι C Pc R σ : Type*} {code : Code C Pc R σ} {s s' : State ι C Pc σ} {i j : ι}
  {thread : Thread C Pc} {seen : List (Visit ι C Pc R)}

/-- The thread has been woken and waits for the lock. -/
def Thread.isWaking : Thread C Pc → Bool
  | .waking .. => true
  | _ => false

/-- Where a thread that is inside is. -/
def Thread.place : Thread C Pc → Option Pc
  | .inside _ _ pc => some pc
  | _ => none

/-- Where the holder of the lock is. -/
def State.place (s : State ι C Pc σ) : Option Pc := s.holder.bind fun i => (s.threads i).place

/-- How many threads have been woken and wait for the lock. -/
def State.waking [Fintype ι] (s : State ι C Pc σ) : ℕ := ∑ i, (s.threads i).isWaking.toNat

/-- What the code must keep, with the places where sleepers go on: of the place of the
holder, the number of threads on their way and the shared state. -/
structure Code.Covers (code : Code C Pc R σ) (resume : Pc → Prop)
    (P : Option Pc → ℕ → σ → Prop) : Prop where
  mono : ∀ place k k' s, k ≤ k' → P place k s → P place k' s
  enter : ∀ c k s, P none k s → P (some (code.entry c)) k s
  reenter : ∀ pc k s, resume pc → P none (k + 1) s → P (some pc) k s
  goto : ∀ pc pc' k s, (code.instr pc s).2 = .goto pc' → P (some pc) k s →
    P (some pc') k (code.instr pc s).1
  signal : ∀ pc pc' k s, (code.instr pc s).2 = .signal pc' → P (some pc) k s →
    P (some pc') (k + 1) (code.instr pc s).1
  wait : ∀ pc w t k s, (code.instr pc s).2 = .wait w t →
    resume w ∧ resume t ∧ P none k (code.instr pc s).1
  ret : ∀ pc r k s, (code.instr pc s).2 = .ret r → P (some pc) k s → P none k (code.instr pc s).1

/-- Sleepers, and those on their way, go on where they may. -/
def Thread.Resumes (resume : Pc → Prop) : Thread C Pc → Prop
  | .asleep _ w t => resume w ∧ resume t
  | .waking _ pc => resume pc
  | _ => True

/-- While anybody sleeps, the work is covered. -/
structure Covered [Fintype ι] (resume : Pc → Prop) (P : Option Pc → ℕ → σ → Prop)
    (s : State ι C Pc σ) : Prop where
  resumes : ∀ i, (s.threads i).Resumes resume
  covered : ∀ i, (s.threads i).isAsleep → P s.place s.waking s.shared

/-! ### Counting -/

theorem Thread.isWaking_le_woken (thread : Thread C Pc) :
    thread.isWaking.toNat ≤ thread.woken.isWaking.toNat := by
  cases thread <;> simp [Thread.isWaking, Thread.woken]

theorem Wakes.isWaking_le (h : Wakes s s') (i : ι) :
    (s.threads i).isWaking.toNat ≤ (s'.threads i).isWaking.toNat := by
  rcases h.threads i with heq | heq
  · rw [heq]
  · rw [heq]
    exact Thread.isWaking_le_woken _

theorem Wakes.isAsleep (h : Wakes s s') (hasleep : (s'.threads i).isAsleep) :
    (s.threads i).isAsleep := by
  rcases h.threads i with heq | heq
  · rwa [heq] at hasleep
  · rw [heq, Thread.isAsleep_woken] at hasleep
    cases hasleep

theorem Wakes.resumes {resume : Pc → Prop} (h : Wakes s s')
    (hresumes : (s.threads i).Resumes resume) : (s'.threads i).Resumes resume := by
  rcases h.threads i with heq | heq
  · rwa [heq]
  · rw [heq]
    cases hthread : s.threads i with
    | asleep c w t =>
      rw [hthread] at hresumes
      exact hresumes.1
    | waking c pc => rwa [hthread] at hresumes
    | _ => trivial

section Counting

variable [Fintype ι]

theorem Wakes.waking_le (h : Wakes s s') : s.waking ≤ s'.waking :=
  Finset.sum_le_sum fun i _ => h.isWaking_le i

/-- A sleeper that was woken counts. -/
theorem Wakes.waking_lt (h : Wakes s s') (hasleep : (s.threads j).isAsleep)
    (hwoken : s'.threads j = (s.threads j).woken) : s.waking < s'.waking := by
  refine Finset.sum_lt_sum (fun i _ => h.isWaking_le i) ⟨j, Finset.mem_univ j, ?_⟩
  rw [hwoken]
  cases hthread : s.threads j with
  | asleep c w t => simp [Thread.isWaking, Thread.woken]
  | _ =>
    rw [hthread] at hasleep
    cases hasleep

variable [DecidableEq ι]

theorem waking_set (s : State ι C Pc σ) (i : ι) (thread : Thread C Pc) :
    (s.set i thread).waking + (s.threads i).isWaking.toNat =
      s.waking + thread.isWaking.toNat := by
  have hrest : ∑ j ∈ Finset.univ.erase i, ((s.set i thread).threads j).isWaking.toNat =
      ∑ j ∈ Finset.univ.erase i, (s.threads j).isWaking.toNat := by
    refine Finset.sum_congr rfl fun j hj => ?_
    rw [State.set_of_ne _ _ _ (Finset.ne_of_mem_erase hj)]
  have hnew := Finset.add_sum_erase Finset.univ
    (fun j => ((s.set i thread).threads j).isWaking.toNat) (Finset.mem_univ i)
  have hold := Finset.add_sum_erase Finset.univ
    (fun j => (s.threads j).isWaking.toNat) (Finset.mem_univ i)
  simp only [State.set_self, hrest] at hnew
  unfold State.waking
  omega

theorem waking_set_same (hbefore : (s.threads i).isWaking = false)
    (hafter : thread.isWaking = false) : (s.set i thread).waking = s.waking := by
  have hcount := waking_set s i thread
  rw [hbefore, hafter] at hcount
  simpa using hcount

end Counting

/-! ### One move -/

section Preservation

variable [DecidableEq ι] {resume : Pc → Prop} {P : Option Pc → ℕ → σ → Prop} {s₀ : σ}
  {c : C} {start pc pc' w t : Pc}

theorem place_set (hbefore : (s.threads i).isInside = false)
    (hafter : thread.isInside = false) : (s.set i thread).place = s.place := by
  have hnone : ∀ th : Thread C Pc, th.isInside = false → th.place = none := by
    rintro (_ | _ | _ | _ | _) hth
    case inside => cases hth
    all_goals rfl
  cases hholder : s.holder with
  | none => simp [State.place, hholder]
  | some j =>
    by_cases hji : j = i
    · subst hji
      simp [State.place, hholder, hnone _ hbefore, hnone _ hafter]
    · simp [State.place, hholder, hji]

theorem place_hold_set (s : State ι C Pc σ) (i : ι) (c : C) (start pc : Pc) :
    ((s.set i (.inside c start pc)).hold (some i)).place = some pc := by
  simp [State.place, Thread.place]

theorem set_resumes (hresumes : ∀ j, (s.threads j).Resumes resume)
    (hthread : thread.Resumes resume) (j : ι) : ((s.set i thread).threads j).Resumes resume := by
  by_cases hji : j = i
  · subst hji
    rwa [State.set_self]
  · rw [State.set_of_ne _ _ _ hji]
    exact hresumes j

/-- A thread that does not go to sleep leaves the sleepers who they are. -/
theorem isAsleep_set (hthread : thread.isAsleep = false)
    (h : ((s.set i thread).threads j).isAsleep) : (s.threads j).isAsleep := by
  by_cases hji : j = i
  · subst hji
    rw [State.set_self, hthread] at h
    cases h
  · rwa [State.set_of_ne _ _ _ hji] at h

variable [Fintype ι]

theorem Covered.enter (hcode : code.Covers resume P) (h : Covered resume P s)
    (hfree : s.holder = none) (hthread : s.threads i = .entering c) :
    Covered resume P ((s.set i (.inside c (code.entry c) (code.entry c))).hold (some i)) where
  resumes := set_resumes h.resumes trivial
  covered j hj := by
    have hcov := h.covered j (isAsleep_set rfl hj)
    have hplace : s.place = none := by simp [State.place, hfree]
    rw [hplace] at hcov
    rw [place_hold_set]
    have hsame : (s.set i (.inside c (code.entry c) (code.entry c))).waking = s.waking :=
      waking_set_same (by rw [hthread]; rfl) rfl
    exact hcode.enter c _ _ (hsame ▸ hcov)

/-- A thread that gets the lock back is one less on its way. -/
theorem Covered.reenter (hcode : code.Covers resume P) (h : Covered resume P s)
    (hfree : s.holder = none) (hthread : s.threads i = .waking c pc) :
    Covered resume P ((s.set i (.inside c pc pc)).hold (some i)) where
  resumes := set_resumes h.resumes trivial
  covered j hj := by
    have hcov := h.covered j (isAsleep_set rfl hj)
    have hplace : s.place = none := by simp [State.place, hfree]
    have hresume := h.resumes i
    rw [hthread] at hresume
    have hcount : (s.set i (.inside c pc pc)).waking + 1 = s.waking := by
      have hcount := waking_set s i (.inside c pc pc)
      rw [hthread] at hcount
      exact hcount
    rw [hplace, ← hcount] at hcov
    rw [place_hold_set]
    exact hcode.reenter pc _ _ hresume hcov

/-- A step under the lock. A signal wakes a sleeper, or nobody sleeps on; after a broadcast
nobody does. -/
theorem Covered.goOn (hcode : code.Covers resume P) (h : Covered resume P s)
    (hholder : s.holder = some i) (hthread : s.threads i = .inside c start pc)
    (hnext : (code.instr pc s.shared).2.next = some pc') {s₁ : State ι C Pc σ}
    (hwakes : Wakes (s.write (code.instr pc s.shared).1) s₁)
    (hnotifies : (code.instr pc s.shared).2.Notifies (s.write (code.instr pc s.shared).1) s₁) :
    Covered resume P (s₁.set i (.inside c start pc')) where
  resumes := set_resumes (fun j => hwakes.resumes (h.resumes j)) trivial
  covered j hj := by
    have hasleep₁ : (s₁.threads j).isAsleep := isAsleep_set rfl hj
    have hcov := h.covered j (hwakes.isAsleep hasleep₁)
    have hplace : s.place = some pc := by simp [State.place, Thread.place, hholder, hthread]
    have hplace' : (s₁.set i (.inside c start pc')).place = some pc' := by
      have hkept : s₁.holder = some i := hwakes.holder.trans hholder
      simp [State.place, Thread.place, hkept]
    have hsame : (s₁.set i (.inside c start pc')).waking = s₁.waking := by
      refine waking_set_same ?_ rfl
      rw [hwakes.inside.mpr hthread]
      rfl
    rw [hplace] at hcov
    rw [hplace', hsame, State.set_shared, hwakes.shared, State.write_shared]
    have hle : s.waking ≤ s₁.waking := hwakes.waking_le
    cases hinstr : (code.instr pc s.shared).2 with
    | goto pc'' =>
      obtain rfl : pc'' = pc' := Option.some.inj (by rw [hinstr] at hnext; exact hnext)
      exact hcode.mono _ _ _ _ hle (hcode.goto pc _ _ _ hinstr hcov)
    | signal pc'' =>
      obtain rfl : pc'' = pc' := Option.some.inj (by rw [hinstr] at hnext; exact hnext)
      rw [hinstr] at hnotifies
      rcases hnotifies with ⟨j', hasleep, hwoken⟩ | hnobody
      · exact hcode.mono _ _ _ _ (hwakes.waking_lt hasleep hwoken)
          (hcode.signal pc _ _ _ hinstr hcov)
      · rw [hnobody j] at hasleep₁
        cases hasleep₁
    | broadcast pc'' =>
      rw [hinstr] at hnotifies
      rw [hnotifies j] at hasleep₁
      cases hasleep₁
    | wait w t =>
      rw [hinstr] at hnext
      cases hnext
    | ret r =>
      rw [hinstr] at hnext
      cases hnext

/-- Every move keeps the work covered. -/
theorem Code.Covers.move (hcode : code.Covers resume P) (hsections : Sections code s s₀)
    (h : Covered resume P s) {a : Action ι C} (hmove : Move code s a s' seen) :
    Covered resume P s' := by
  cases hmove with
  | call i c hthread =>
    refine ⟨set_resumes h.resumes trivial, fun j hj => ?_⟩
    rw [place_set (by rw [hthread]; rfl) rfl, waking_set_same (by rw [hthread]; rfl) rfl]
    exact h.covered j (isAsleep_set rfl hj)
  | enter i c hfree hthread => exact h.enter hcode hfree hthread
  | reenter i c pc hfree hthread => exact h.reenter hcode hfree hthread
  | goOn i woken c start pc pc' s₁ hthread hnext hwakes hnotifies =>
    exact h.goOn hcode (hsections.steps hthread).1 hthread hnext hwakes hnotifies
  | sleep i woken c start pc w t hthread hexit =>
    -- whoever sleeps now, there is nothing to do
    have hwait := fun k => hcode.wait pc w t k s.shared hexit
    exact ⟨set_resumes h.resumes ⟨(hwait 0).1, (hwait 0).2.1⟩, fun j _ => (hwait _).2.2⟩
  | ret i woken c start pc r hthread hexit =>
    refine ⟨set_resumes h.resumes trivial, fun j hj => ?_⟩
    have hcov := h.covered j (isAsleep_set rfl hj)
    have hplace : s.place = some pc := by
      simp [State.place, Thread.place, (hsections.steps hthread).1, hthread]
    have hsame : ((s.write (code.instr pc s.shared).1).set i .outside).waking = s.waking :=
      waking_set_same (s := s.write _) (by rw [State.write_threads, hthread]; rfl) rfl
    rw [hplace] at hcov
    exact hcode.ret pc r _ _ hexit (hsame ▸ hcov)
  | wake i c w t timedOut hthread =>
    have hresume := h.resumes i
    rw [hthread] at hresume
    refine ⟨set_resumes h.resumes ?_, fun j hj => ?_⟩
    · cases timedOut
      · exact hresume.1
      · exact hresume.2
    · rw [place_set (by rw [hthread]; rfl) rfl]
      have hcount := waking_set s i (.waking c (if timedOut then t else w))
      refine hcode.mono _ _ _ _ ?_ (h.covered j (isAsleep_set rfl hj))
      rw [hthread] at hcount
      exact Nat.le_of_add_right_le (Nat.le_of_eq hcount.symm)

omit [DecidableEq ι] in
theorem covered_start (s₀ : σ) : Covered resume P (State.start s₀ : State ι C Pc σ) where
  resumes _ := trivial
  covered _ h := by cases h

/-- No wake-up is lost: in every run, the work is covered as long as anybody sleeps. -/
theorem covered_of_run (hcode : code.Covers resume P) {actions : List (Action ι C)}
    (hrun : run code (State.start s₀) actions = some (s, seen)) : Covered resume P s := by
  have hall : Covered resume P s ∧ ∃ s₁, Sections code s s₁ := by
    refine Machine.state_invariant_of_run
      (P := fun s => Covered resume P s ∧ ∃ s₁, Sections code s s₁) ?_
      ⟨covered_start s₀, s₀, sections_start code s₀⟩ hrun
    rintro s a s' vs ⟨hcov, s₁, hsections⟩ hstep
    have hmove := step_move hstep
    refine ⟨hcode.move hsections hcov hmove, ?_⟩
    rcases hsections.move hmove with ⟨-, hsame⟩ | ⟨v, -, -, hnext⟩
    · exact ⟨s₁, hsame⟩
    · exact ⟨s'.shared, hnext⟩
  exact hall.1

end Preservation

end Monitor
