import Knockd.Knocker.Table

/-!
# Nobody else can disturb a live sequence

An entry within the window is out of reach of every other address: eviction picks an
entry past the window, the sweep drops only such entries, and a knock writes to its
own address's slot or to a newly claimed one. So an address that knocks the rest of
the sequence in time completes it, whatever traffic is interleaved.

## Main definitions

* `ownKnocks` — the knocks of one address among the calls of a run
* `ownRecords`, `lastResult` — what those knocks were answered
* `WithinWindow` — each knock within the window of the one before

## Main results

* `clientEntry_runFrom_of_others` — an entry survives other addresses' calls
* `lastResult_of_remaining` — knocking the remaining ports completes
* `liveSequence_undisturbed` — the two together, and when a newcomer is turned away
-/

namespace Knockd

/-- The knocks of `ip` among the calls: when, and on which port. -/
def ownKnocks (ip : UInt32) (calls : List KnockerCall) : List (ℤ × UInt16) :=
  calls.filterMap fun
    | .process now _ src port => if src = ip then some (now, port) else none
    | .cleanup _ => none

/-- The records of the knocks of `ip`. -/
def ownRecords (ip : UInt32) (records : List KnockRecord) : List KnockRecord :=
  records.filter fun r => r.ip == ip

/-- What the last knock of `ip` was answered. -/
def lastResult (ip : UInt32) (records : List KnockRecord) : Option KnockResult :=
  (ownRecords ip records).getLast?.map KnockRecord.result

/-- Times of knocks that follow each other within the window. -/
def WithinWindow (cfg : Config) (times : List ℤ) : Prop :=
  times.IsChain fun a b => b - a ≤ cfg.knockWindow

section Own

variable {cfg : Config} {t : ClientTable} {ip : UInt32} {call : KnockerCall}
  {calls : List KnockerCall}

theorem ownKnocks_cons_of_not_isFrom (h : call.isFrom ip = false) :
    ownKnocks ip (call :: calls) = ownKnocks ip calls := by
  cases call with
  | cleanup now => rfl
  | process now nowAlloc src port =>
    have hne : src ≠ ip := by simpa [KnockerCall.isFrom] using h
    simp [ownKnocks, hne]

@[simp] theorem ownKnocks_cons_self (now nowAlloc : ℤ) (port : UInt16) :
    ownKnocks ip (.process now nowAlloc ip port :: calls) = (now, port) :: ownKnocks ip calls := by
  simp [ownKnocks]

/-- A call of someone else leaves no record of `ip`. -/
theorem ownRecords_step_of_not_isFrom (h : call.isFrom ip = false) :
    ownRecords ip (knockerStep cfg t call).2 = [] := by
  cases call with
  | cleanup now => rfl
  | process now nowAlloc src port =>
    have hne : src ≠ ip := by simpa [KnockerCall.isFrom] using h
    simp [knockerStep, ownRecords, Processed.record, hne]

theorem ownRecords_runFrom_cons_of_not_isFrom (h : call.isFrom ip = false) :
    ownRecords ip (knockerRunFrom cfg t (call :: calls)).2 =
      ownRecords ip (knockerRunFrom cfg (knockerStep cfg t call).1 calls).2 := by
  have hnil : ownRecords ip (knockerStep cfg t call).2 = [] := ownRecords_step_of_not_isFrom h
  simp only [ownRecords] at hnil
  simp [knockerRunFrom, ownRecords, hnil]

theorem ownRecords_runFrom_cons_self (now nowAlloc : ℤ) (port : UInt16) :
    ownRecords ip (knockerRunFrom cfg t (.process now nowAlloc ip port :: calls)).2 =
      (knockerProcess cfg now nowAlloc t ip port).record now ip port ::
        ownRecords ip (knockerRunFrom cfg
          (knockerProcess cfg now nowAlloc t ip port).clients calls).2 := by
  simp [knockerRunFrom, ownRecords, knockerStep, Processed.record]

/-- One record for each knock. -/
theorem length_ownRecords_runFrom (cfg : Config) (t : ClientTable) (ip : UInt32)
    (calls : List KnockerCall) :
    (ownRecords ip (knockerRunFrom cfg t calls).2).length = (ownKnocks ip calls).length := by
  induction calls generalizing t with
  | nil => rfl
  | cons call calls ih =>
    rcases call.isFrom_cases ip with ⟨now, nowAlloc, port, rfl⟩ | hfrom
    · rw [ownRecords_runFrom_cons_self, ownKnocks_cons_self, List.length_cons,
        List.length_cons, ih]
    · rw [ownRecords_runFrom_cons_of_not_isFrom hfrom, ownKnocks_cons_of_not_isFrom hfrom, ih]

/-- While a knock of `ip` is still to come, the answer to an earlier one is not the
last. -/
theorem lastResult_runFrom_cons_self (now nowAlloc : ℤ) (port : UInt16)
    (h : ownKnocks ip calls ≠ []) :
    lastResult ip (knockerRunFrom cfg t (.process now nowAlloc ip port :: calls)).2 =
      lastResult ip (knockerRunFrom cfg
        (knockerProcess cfg now nowAlloc t ip port).clients calls).2 := by
  have hne : ownRecords ip (knockerRunFrom cfg
      (knockerProcess cfg now nowAlloc t ip port).clients calls).2 ≠ [] := by
    rw [← List.length_pos_iff, length_ownRecords_runFrom]
    exact List.length_pos_iff.mpr h
  obtain ⟨r, records, hr⟩ := List.exists_cons_of_ne_nil hne
  rw [lastResult, lastResult, ownRecords_runFrom_cons_self, hr, List.getLast?_cons_cons]

theorem ownKnocks_append (ip : UInt32) (calls later : List KnockerCall) :
    ownKnocks ip (calls ++ later) = ownKnocks ip calls ++ ownKnocks ip later :=
  List.filterMap_append

/-- The last answer is given in the part of the run where the last knock is. -/
theorem lastResult_runFrom_append {later : List KnockerCall} (h : ownKnocks ip later ≠ []) :
    lastResult ip (knockerRunFrom cfg t (calls ++ later)).2 =
      lastResult ip (knockerRunFrom cfg (knockerRunFrom cfg t calls).1 later).2 := by
  have hne : ownRecords ip (knockerRunFrom cfg (knockerRunFrom cfg t calls).1 later).2 ≠ [] := by
    rw [← List.length_pos_iff, length_ownRecords_runFrom]
    exact List.length_pos_iff.mpr h
  rw [knockerRunFrom_append, lastResult, lastResult, ownRecords, List.filter_append]
  exact congrArg (Option.map KnockRecord.result) (List.getLast?_append_of_ne_nil _ hne)

/-- The time of a knock is one of the clock readings of the run. -/
theorem mem_readings_of_mem_ownKnocks {k : ℤ × UInt16} (h : k ∈ ownKnocks ip calls) :
    k.1 ∈ calls.flatMap KnockerCall.readings := by
  obtain ⟨call, hcall, hk⟩ := List.mem_filterMap.mp h
  refine List.mem_flatMap.mpr ⟨call, hcall, ?_⟩
  cases call with
  | cleanup now => cases hk
  | process now nowAlloc src port =>
    simp only [Option.ite_none_right_eq_some, Option.some.injEq] at hk
    obtain ⟨-, rfl⟩ := hk
    simp [KnockerCall.readings]

theorem Nondecreasing.tail (h : Nondecreasing (call :: calls)) : Nondecreasing calls := by
  simp only [Nondecreasing, List.flatMap_cons, List.pairwise_append] at h
  exact h.2.1

/-- The readings of the first call come before those of the rest. -/
theorem Nondecreasing.le_of_mem (h : Nondecreasing (call :: calls)) {m n : ℤ}
    (hm : m ∈ call.readings) (hn : n ∈ calls.flatMap KnockerCall.readings) : m ≤ n := by
  simp only [Nondecreasing, List.flatMap_cons, List.pairwise_append] at h
  exact h.2.2 m hm n hn

end Own

section Undisturbed

variable {cfg : Config} {t : ClientTable} {ip : UInt32} {c : KnockClient}

/-- An entry survives any calls of others whose clock readings keep it within the
window. -/
theorem clientEntry_runFrom_of_others (hcfg : cfg.SequenceValid) (ht : TableInv cfg t)
    (hc : clientEntry t ip = some c) {others : List KnockerCall}
    (hothers : ∀ call ∈ others, call.isFrom ip = false)
    (htimes : ∀ call ∈ others, ∀ now ∈ call.readings, now ≤ c.lastKnock + cfg.knockWindow) :
    clientEntry (knockerRunFrom cfg t others).1 ip = some c := by
  induction others generalizing t with
  | nil => exact hc
  | cons call others ih =>
    have hstep : clientEntry (knockerStep cfg t call).1 ip = some c := by
      rcases clientEntry_step_of_not_isFrom hcfg ht (hothers call List.mem_cons_self) with
        hsame | ⟨d, hd, -, now, hnow, hold⟩
      · rw [hsame, hc]
      · rw [hc] at hd
        cases hd
        have := htimes call List.mem_cons_self now hnow
        omega
    exact ih (tableInv_knockerStep hcfg ht call) hstep
      (fun d hd => hothers d (List.mem_cons_of_mem _ hd))
      (fun d hd => htimes d (List.mem_cons_of_mem _ hd))

/-- The next port within the window is accepted: the only moves left are to advance
and to complete. -/
theorem entryMove_of_next (hcfg : cfg.SequenceValid) (hc : EntryInv cfg c) {now : ℤ}
    {port : UInt16} {c' : KnockClient} {r : KnockResult} {a : Option ℕ}
    (hmove : EntryMove cfg now c port c' r a)
    (hport : cfg.knockSequence[c.currentStep]? = some port)
    (htime : now - c.lastKnock ≤ cfg.knockWindow) :
    (r = .complete ∧ ((c.currentStep + 1 : ℕ) : ℤ) = cfg.knockSeqLen) ∨
      (c' = c.accept (c.currentStep + 1) now port ∧
        ((c.currentStep + 1 : ℕ) : ℤ) < cfg.knockSeqLen) := by
  have hpos := hc.step_pos
  have hlt := hc.step_lt
  cases hmove with
  | retransmit hdup =>
    -- the next port is not the last one, as no port repeats
    have := hcfg.port_inj hlt (by omega) hport (hdup ▸ hc.lastPort_eq)
    omega
  | complete _ _ hlast => exact Or.inl ⟨rfl, hlast⟩
  | advance _ _ hlast => exact Or.inr ⟨rfl, hlast⟩
  | restart hfirst =>
    have := hcfg.port_inj hlt hcfg.first_lt hport hfirst
    omega
  | discard _ _ hwrong =>
    rcases hwrong with hwrong | hwrong
    · omega
    · exact absurd hport hwrong

/-- Knocking the remaining ports in order, each within the window of the one before,
completes the sequence, whatever calls of others are interleaved. -/
theorem lastResult_of_remaining (hcfg : cfg.SequenceValid) (ht : TableInv cfg t)
    (hc : clientEntry t ip = some c) {calls : List KnockerCall} (hmono : Nondecreasing calls)
    (hports : (ownKnocks ip calls).map Prod.snd = cfg.sequence.drop c.currentStep)
    (htimes : WithinWindow cfg (c.lastKnock :: (ownKnocks ip calls).map Prod.fst)) :
    lastResult ip (knockerRunFrom cfg t calls).2 = some .complete := by
  induction calls generalizing t c with
  | nil =>
    -- an entry is never at the end of the sequence, so some port remains
    have hlt := (ht.entryInv hc).step_lt
    have hlen := hcfg.length_sequence
    have hdrop := congrArg List.length hports
    simp only [ownKnocks, List.filterMap_nil, List.map_nil, List.length_nil,
      List.length_drop] at hdrop
    omega
  | cons call calls ih =>
    have hcinv := ht.entryInv hc
    have hlt := hcinv.step_lt
    have hlen := hcfg.length_sequence
    have hlive : c.currentStep < cfg.sequence.length := by omega
    rw [List.drop_eq_getElem_cons hlive] at hports
    rcases call.isFrom_cases ip with ⟨now, nowAlloc, port, rfl⟩ | hfrom
    · simp only [ownKnocks_cons_self, List.map_cons, List.cons.injEq] at hports
      obtain ⟨hport, hrest⟩ := hports
      simp only [WithinWindow, ownKnocks_cons_self, List.map_cons,
        List.isChain_cons_cons] at htimes
      have hnext : cfg.knockSequence[c.currentStep]? = some port := by
        rw [← Config.sequence_getElem? hlt, List.getElem?_eq_getElem hlive, hport]
      have hinv := tableInv_of_tableMove hcfg ht (knockerProcess_move hcfg ht now nowAlloc ip port)
      obtain ⟨d', hentry, hafter⟩ := exists_entryMove hcfg ht hc now nowAlloc port
      rcases entryMove_of_next hcfg hcinv hentry hnext htimes.1 with
        ⟨hres, hlast⟩ | ⟨rfl, hnotLast⟩
      · -- the last port: no knock of ours remains, so this result stands
        have hdone : ownKnocks ip calls = [] := by
          have hzero : cfg.sequence.length - (c.currentStep + 1) = 0 := by omega
          have := congrArg List.length hrest
          rw [List.length_map, List.length_drop, hzero] at this
          exact List.eq_nil_of_length_eq_zero this
        have hnil := length_ownRecords_runFrom cfg
          (knockerProcess cfg now nowAlloc t ip port).clients ip calls
        rw [hdone] at hnil
        rw [lastResult, ownRecords_runFrom_cons_self, List.eq_nil_of_length_eq_zero hnil]
        simp [Processed.record, hres]
      · have hactive : (c.accept (c.currentStep + 1) now port).active = true :=
          (SlotTable.entry_live hc).1
        rw [if_pos hactive] at hafter
        have hmore : ownKnocks ip calls ≠ [] := by
          intro hnil
          have := congrArg List.length hrest
          rw [hnil, List.length_drop, List.map_nil, List.length_nil] at this
          omega
        rw [lastResult_runFrom_cons_self now nowAlloc port hmore]
        exact ih hinv hafter hmono.tail hrest htimes.2
    · rw [ownKnocks_cons_of_not_isFrom hfrom] at hports htimes
      -- the next knock of ours bounds the clock readings of this call
      have hne : ownKnocks ip calls ≠ [] := by
        intro hnil
        rw [hnil] at hports
        cases hports
      obtain ⟨k, rest, hown⟩ := List.exists_cons_of_ne_nil hne
      have hwindow : k.1 - c.lastKnock ≤ cfg.knockWindow := by
        simp only [hown, WithinWindow, List.map_cons, List.isChain_cons_cons] at htimes
        exact htimes.1
      have hkmem : k ∈ ownKnocks ip calls := hown ▸ List.mem_cons_self
      have hkept : clientEntry (knockerStep cfg t call).1 ip = some c := by
        rcases clientEntry_step_of_not_isFrom hcfg ht hfrom with
          hsame | ⟨d, hd, -, now, hnow, hold⟩
        · rw [hsame, hc]
        · rw [hc] at hd
          cases hd
          have := hmono.le_of_mem hnow (mem_readings_of_mem_ownKnocks hkmem)
          omega
      rw [lastResult, ownRecords_runFrom_cons_of_not_isFrom hfrom]
      exact ih (tableInv_knockerStep hcfg ht call) hkept hmono.tail
        (by rw [List.drop_eq_getElem_cons hlive]; exact hports) htimes

end Undisturbed

/-- **A live sequence is out of everyone else's reach.** In every reachable table:
calls of other addresses at clock readings within the window of an entry leave that
entry in place, unchanged; hence its owner completes by knocking the remaining ports
in time, whatever is interleaved. And a first-port knock of an address without an
entry is turned away only when every slot holds an entry within the window. -/
theorem liveSequence_undisturbed (cfg : Config) (hcfg : cfg.Valid) (before : List KnockerCall) :
    let t := (knockerRun cfg before).1
    (∀ ip c, clientEntry t ip = some c →
      (∀ others : List KnockerCall, (∀ call ∈ others, call.isFrom ip = false) →
        Nondecreasing others →
        (∀ call ∈ others, ∀ now ∈ call.readings, now ≤ c.lastKnock + cfg.knockWindow) →
        clientEntry (knockerRunFrom cfg t others).1 ip = some c) ∧
      (∀ calls : List KnockerCall, Nondecreasing calls →
        (ownKnocks ip calls).map Prod.snd = cfg.sequence.drop c.currentStep →
        WithinWindow cfg (c.lastKnock :: (ownKnocks ip calls).map Prod.fst) →
        lastResult ip (knockerRunFrom cfg t calls).2 = some .complete)) ∧
    (∀ (now nowAlloc : ℤ) (ip : UInt32) (port : UInt16), clientEntry t ip = none →
      cfg.knockSequence[0]? = some port →
      (knockerProcess cfg now nowAlloc t ip port).result = .reset →
      t.length = cfg.maxClients.toNat ∧
        ∀ c ∈ t, c.active = true ∧ nowAlloc - c.lastKnock ≤ cfg.knockWindow) := by
  intro t
  have hseq := hcfg.toSequenceValid
  have ht : TableInv cfg t := tableInv_knockerRun hseq before
  refine ⟨fun ip c hc => ⟨fun others hothers _ htimes => ?_, fun calls hmono hports htimes => ?_⟩,
    fun now nowAlloc ip port hnone hport hreset => ⟨ht.length_eq, ?_⟩⟩
  · exact clientEntry_runFrom_of_others hseq ht hc hothers htimes
  · exact lastResult_of_remaining hseq ht hc hmono hports htimes
  · rcases clientEntry_of_tableMove ht (knockerProcess_move hseq ht now nowAlloc ip port) with
      ⟨c, -, hc, -⟩ | ⟨-, -, -, -, hwrong | hfull⟩ | ⟨-, -, -, hres, -⟩
    · rw [hnone] at hc
      cases hc
    · exact absurd hport hwrong
    · exact hfull
    · rw [hreset] at hres
      cases hres

/-- A client at step one finishes although another address floods the table. -/
theorem liveSequence_undisturbed_flooded :
    lastResult 10 (knockerRunFrom .default (knockerRun .default [.process 1 1 10 7000]).1
      [.process 2 2 11 7000, .process 3 3 10 8000, .cleanup 4, .process 5 5 12 7000,
        .process 6 6 10 9000]).2 = some .complete := by
  obtain ⟨hlive, -⟩ := liveSequence_undisturbed .default Config.default_valid
    [.process 1 1 10 7000]
  obtain ⟨-, hcompletes⟩ := hlive 10 ⟨10, 1, 1, 7000, true⟩ (by decide)
  refine hcompletes _ ?_ (by decide) ?_
  · unfold Nondecreasing
    decide
  · unfold WithinWindow
    decide

end Knockd
