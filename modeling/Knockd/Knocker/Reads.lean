import Knockd.Knocker.Table

/-!
# Where a call reads the sequence

`process_locked` indexes the array `KNOCK_SEQUENCE` with the step of an entry, and no test
stands between the two: the index is inside the sequence because every entry in use is.
This file lists the indices a call reads, in the order in which the code reads them, and
shows that they are inside the sequence in every reachable table. The list is complete: an
array that has the same ports in these cells gives the same call, its log included.

## Main definitions

* `KnockClient.Duplicate` — the test of the duplicate filter
* `entryReads`, `processReads`, `KnockerCall.sequenceReads` — the indices read
* `ReadsInside`, `ClaimCounts` — what holds of every call

## Main results

* `knockerProcess_eq_of_reads` — a call depends on no other cell of the array
* `processReads_lt` — the cells read are inside the sequence
* `knockerRun_eq_of_sequence` — whole runs look at nothing past its end
* `clientTable_invariant` — what holds of the table and of every call from it
-/

namespace Knockd

/-- The test of the duplicate filter: the port accepted last, and not long ago. -/
abbrev KnockClient.Duplicate (c : KnockClient) (now : ℤ) (port : UInt16) : Prop :=
  port = c.lastPort ∧ now - c.lastKnock ≤ knockDedupWindow

/-- The indices `process_locked` reads the sequence at once the entry is in hand. -/
def entryReads (cfg : Config) (now : ℤ) (c : KnockClient) (dstPort : UInt16) : List ℕ :=
  -- a duplicate is answered before anything is read
  if c.Duplicate now dstPort then []
  else
    let step := c.stepAt cfg now
    -- the expected port, and after a miss the first one
    if cfg.knockSequence[step]? = some dstPort then [step] else [step, 0]

/-- The indices `process_locked` reads the sequence at. -/
def processReads (cfg : Config) (now nowAlloc : ℤ) (clients : ClientTable) (srcIp : UInt32)
    (dstPort : UInt16) : List ℕ :=
  match findClient clients srcIp with
  | some i => entryReads cfg now (clients.getD i .zeroed) dstPort
  | none =>
    if cfg.knockSequence[0]? ≠ some dstPort then [0]
    else
      match (allocClient cfg nowAlloc clients).1 with
      | none => [0]
      | some _ => 0 :: entryReads cfg now (freshClient srcIp) dstPort

/-- The indices a call reads the sequence at. A sweep reads none. -/
def KnockerCall.sequenceReads (cfg : Config) (clients : ClientTable) : KnockerCall → List ℕ
  | .process now nowAlloc ip port => processReads cfg now nowAlloc clients ip port
  | .cleanup _ => []

/-- What a call reads of the sequence is inside it, and is all the call depends on. -/
structure ReadsInside (cfg : Config) (t : ClientTable) (call : KnockerCall) : Prop where
  lt_len : ∀ k ∈ call.sequenceReads cfg t, (k : ℤ) < cfg.knockSeqLen
  in_array : ∀ k ∈ call.sequenceReads cfg t, k < maxKnockSeqLen
  nothing_else : ∀ sequence : Vector UInt16 maxKnockSeqLen,
    (∀ k ∈ call.sequenceReads cfg t, sequence[k]? = cfg.knockSequence[k]?) →
      knockerStep (cfg.withSequence sequence) t call = knockerStep cfg t call

/-- If the knock claims a slot, the duplicate filter lets it pass and it is accepted as step
one of the new entry. -/
def ClaimCounts (cfg : Config) (t : ClientTable) (now nowAlloc : ℤ) (ip : UInt32)
    (port : UInt16) : Prop :=
  ∀ (i : ℕ) (claimed : ClientTable) (log : List LogLine), findClient t ip = none →
    cfg.knockSequence[0]? = some port →
    allocClient cfg nowAlloc t = (some (i, claimed), log) →
    ¬ (freshClient ip).Duplicate now port ∧
      (knockerProcess cfg now nowAlloc t ip port).clients = t.set i ⟨ip, 1, now, port, true⟩ ∧
      (knockerProcess cfg now nowAlloc t ip port).result = .inProgress ∧
      (knockerProcess cfg now nowAlloc t ip port).accepted = some 1

section Reads

variable {cfg : Config} {now nowAlloc : ℤ} {t : ClientTable} {c : KnockClient} {ip : UInt32}
  {port : UInt16} {sequence : Vector UInt16 maxKnockSeqLen}

/-! ### The list is complete -/

theorem processEntry_eq_of_reads
    (h : ∀ k ∈ entryReads cfg now c port, sequence[k]? = cfg.knockSequence[k]?) :
    processEntry (cfg.withSequence sequence) now c ip port = processEntry cfg now c ip port := by
  by_cases hdup : c.Duplicate now port
  · rw [processEntry, processEntry, if_pos hdup, if_pos hdup]
    rfl
  · rw [entryReads, if_neg hdup] at h
    unfold KnockClient.stepAt at h
    simp only [processEntry, if_neg hdup, Config.withSequence, logMsg_withSequence] at h ⊢
    generalize (if decide (0 < c.currentStep ∧ now - c.lastKnock > cfg.knockWindow) then 0
      else c.currentStep) = step at h ⊢
    by_cases hnext : cfg.knockSequence[step]? = some port
    · rw [if_pos hnext] at h
      rw [h step (by simp), if_pos hnext, if_pos hnext]
    · rw [if_neg hnext] at h
      rw [h step (by simp), h 0 (by simp)]

/-- A call depends on the cells it reads and on no other cell of the array. -/
theorem knockerProcess_eq_of_reads
    (h : ∀ k ∈ processReads cfg now nowAlloc t ip port, sequence[k]? = cfg.knockSequence[k]?) :
    knockerProcess (cfg.withSequence sequence) now nowAlloc t ip port =
      knockerProcess cfg now nowAlloc t ip port := by
  rw [knockerProcess, knockerProcess, processLocked, processLocked]
  cases hfind : findClient t ip with
  | some i =>
    simp only [processReads, hfind] at h
    simp only [processSlot, processEntry_eq_of_reads h]
  | none =>
    have halloc : allocClient (cfg.withSequence sequence) nowAlloc t = allocClient cfg nowAlloc t :=
      rfl
    simp only [processReads, hfind] at h
    by_cases hfirst : cfg.knockSequence[0]? = some port
    · simp only [hfirst, ne_eq, not_true_eq_false, if_false] at h ⊢
      have hsame : sequence[0]? = some port := by
        rw [h 0 (by split <;> simp)]
        exact hfirst
      simp only [hsame, halloc, not_true_eq_false, if_false]
      cases hclaim : allocClient cfg nowAlloc t with
      | mk slot log =>
        cases slot with
        | none => rfl
        | some claimed =>
          rw [hclaim] at h
          have hentry : processEntry (cfg.withSequence sequence) now (freshClient ip) ip port =
              processEntry cfg now (freshClient ip) ip port :=
            processEntry_eq_of_reads fun k hk => h k (List.mem_cons_of_mem _ hk)
          simp only [processSlot, hentry]
    · simp only [hfirst, ne_eq, not_false_eq_true, if_true] at h ⊢
      rw [h 0 (by simp), if_pos hfirst]
      rfl

/-! ### It is inside the sequence -/

theorem entryReads_lt (hcfg : cfg.SequenceValid) (hstep : (c.currentStep : ℤ) < cfg.knockSeqLen)
    {k : ℕ} (hk : k ∈ entryReads cfg now c port) : (k : ℤ) < cfg.knockSeqLen := by
  have hfirst := hcfg.first_lt
  by_cases hdup : c.Duplicate now port
  · rw [entryReads, if_pos hdup] at hk
    cases hk
  · simp only [entryReads, if_neg hdup] at hk
    have hplace : (c.stepAt cfg now : ℤ) < cfg.knockSeqLen := KnockClient.stepAt_lt hcfg hstep
    split at hk
    · rw [List.mem_singleton] at hk
      rwa [hk]
    · rcases List.mem_pair.mp hk with rfl | rfl
      · exact hplace
      · exact hfirst

/-- In a table that keeps the invariant a call reads inside the sequence. -/
theorem processReads_lt (hcfg : cfg.SequenceValid) (ht : TableInv cfg t) {k : ℕ}
    (hk : k ∈ processReads cfg now nowAlloc t ip port) : (k : ℤ) < cfg.knockSeqLen := by
  have hfirst := hcfg.first_lt
  unfold processReads at hk
  split at hk
  · rename_i i hfind
    obtain ⟨c, hslot, hentry⟩ := SlotTable.lookup_eq_some hfind
    rw [List.getD_eq_getElem?_getD, hslot] at hk
    exact entryReads_lt hcfg (ht.entryInv hentry).step_lt hk
  · split at hk
    · rw [List.mem_singleton] at hk
      rwa [hk]
    · split at hk
      · rw [List.mem_singleton] at hk
        rwa [hk]
      · -- the new entry is at step zero
        rcases List.mem_cons.mp hk with rfl | hk
        · exact hfirst
        · exact entryReads_lt hcfg hfirst hk

/-! ### Runs -/

theorem knockerStep_eq_of_reads {call : KnockerCall}
    (h : ∀ k ∈ call.sequenceReads cfg t, sequence[k]? = cfg.knockSequence[k]?) :
    knockerStep (cfg.withSequence sequence) t call = knockerStep cfg t call := by
  cases call with
  | process now nowAlloc ip port => simp only [knockerStep, knockerProcess_eq_of_reads h]
  | cleanup now => rfl

theorem sequenceReads_lt (hcfg : cfg.SequenceValid) (ht : TableInv cfg t) {call : KnockerCall}
    {k : ℕ} (hk : k ∈ call.sequenceReads cfg t) : (k : ℤ) < cfg.knockSeqLen := by
  cases call with
  | process now nowAlloc ip port => exact processReads_lt hcfg ht hk
  | cleanup now => cases hk

theorem knockerRunFrom_eq_of_sequence (hcfg : cfg.SequenceValid) (ht : TableInv cfg t)
    (h : ∀ k : ℕ, (k : ℤ) < cfg.knockSeqLen → sequence[k]? = cfg.knockSequence[k]?)
    (calls : List KnockerCall) :
    knockerRunFrom (cfg.withSequence sequence) t calls = knockerRunFrom cfg t calls := by
  induction calls generalizing t with
  | nil => rfl
  | cons call calls ih =>
    have hstep : knockerStep (cfg.withSequence sequence) t call = knockerStep cfg t call :=
      knockerStep_eq_of_reads fun k hk => h k (sequenceReads_lt hcfg ht hk)
    rw [knockerRunFrom, knockerRunFrom, hstep, ih (tableInv_knockerStep hcfg ht call)]

/-- What stands in the array past the end of the sequence is never looked at. -/
theorem knockerRun_eq_of_sequence (hcfg : cfg.SequenceValid)
    (h : ∀ k : ℕ, (k : ℤ) < cfg.knockSeqLen → sequence[k]? = cfg.knockSequence[k]?)
    (calls : List KnockerCall) :
    knockerRun (cfg.withSequence sequence) calls = knockerRun cfg calls :=
  knockerRunFrom_eq_of_sequence hcfg (tableInv_knockerInit cfg) h calls

/-! ### A new entry -/

/-- The port a new entry remembers is zero, and no first port is. -/
theorem not_duplicate_freshClient (hcfg : cfg.SequenceValid)
    (hport : cfg.knockSequence[0]? = some port) (now : ℤ) (ip : UInt32) :
    ¬ (freshClient ip).Duplicate now port := fun hdup =>
  hcfg.port_ne_zero hcfg.first_lt hport hdup.1

end Reads

/-- **The client table invariant.** In every state reachable from `knocker_init`, whatever
the addresses, ports and clock readings: the entries in use have distinct addresses, each is
at a step strictly inside the sequence and remembers the port of that step. Every call made
from there reads the sequence inside its length only, so inside the array, and a knock that
claims a slot is not taken for a duplicate but is accepted as step one. -/
theorem clientTable_invariant (cfg : Config) (hcfg : cfg.Valid) (calls : List KnockerCall) :
    TableInv cfg (knockerRun cfg calls).1 ∧
      (∀ call : KnockerCall, ReadsInside cfg (knockerRun cfg calls).1 call) ∧
      ∀ (now nowAlloc : ℤ) (ip : UInt32) (port : UInt16),
        ClaimCounts cfg (knockerRun cfg calls).1 now nowAlloc ip port := by
  have hseq := hcfg.toSequenceValid
  have hlen := hseq.len_le
  have hinv : TableInv cfg (knockerRun cfg calls).1 := tableInv_knockerRun hseq calls
  refine ⟨hinv, fun call => ?_, fun now nowAlloc ip port => ?_⟩
  · have hlt : ∀ k ∈ call.sequenceReads cfg (knockerRun cfg calls).1, (k : ℤ) < cfg.knockSeqLen :=
      fun k hk => sequenceReads_lt hseq hinv hk
    refine ⟨hlt, fun k hk => ?_, fun sequence h => knockerStep_eq_of_reads h⟩
    have := hlt k hk
    omega
  · intro i claimed log hfind hport halloc
    obtain ⟨hclients, hresult, haccepted⟩ := knockerProcess_of_claimed hseq now hfind hport halloc
    exact ⟨not_duplicate_freshClient hseq hport now ip, hclients, hresult, haccepted⟩

/-- A run with a clock that goes back, a knock on port zero and a sweep. -/
def backwardClock : List KnockerCall :=
  [.process 90 90 10 7000, .process 80 80 11 0, .cleanup 60, .process 70 70 10 8000]

/-- It leaves address 10 at step two, whose next knock on port zero reads the third port and
the first, and address 12 is let in by its first knock. -/
theorem clientTable_invariant_backwardClock :
    clientEntry (knockerRun .default backwardClock).1 10 = some ⟨10, 2, 70, 8000, true⟩ ∧
      EntryInv .default ⟨10, 2, 70, 8000, true⟩ ∧
      (KnockerCall.process 71 71 10 0).sequenceReads .default
        (knockerRun .default backwardClock).1 = [2, 0] ∧
      ReadsInside .default (knockerRun .default backwardClock).1 (.process 71 71 10 0) ∧
      (knockerProcess .default 1 1 (knockerRun .default backwardClock).1 12 7000).accepted =
        some 1 := by
  obtain ⟨hinv, hreads, hclaim⟩ :=
    clientTable_invariant .default Config.default_valid backwardClock
  have hentry : clientEntry (knockerRun .default backwardClock).1 10 =
      some ⟨10, 2, 70, 8000, true⟩ := by decide
  have hadmitted := hclaim 1 1 12 7000 1 _ _ (by decide) (by decide) rfl
  exact ⟨hentry, hinv.entryInv hentry, by decide, hreads _, hadmitted.2.2.2⟩

end Knockd
