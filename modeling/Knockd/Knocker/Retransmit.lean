import Knockd.Knocker.Restart

/-!
# Retransmits

A kernel that gets no answer to its SYN sends it again, and the copy arrives as one
more knock on the same port. The filter ignores a copy of the port just accepted for
five seconds, without touching the table, so a sequence survives any number of these.
It does not know the ports before that one: a copy of the first port restarts the
sequence, a copy of another one throws it away.

## Main definitions

* `WithRepeats` — a run with repeats of an address's own knocks inserted
* `latest` — the knock that the filter still recognises
* `StandsAt` — an entry stands where the knocks made so far put it

## Main results

* `StandsAt.knock`, `StandsAt.unchanged` — the next knock, and a repeat of the last one
* `lastResult_withRepeats` — a completing run still completes
* `repeats_of_latest_harmless` — which repeats a completing run survives
-/

namespace Knockd

/-- The run `calls'` is `calls` with repeats of `ip`'s knocks inserted before its last
one. The list holds the knocks made so far, latest first; `eligible` says which of them
may be repeated, each within the duplicate window of the knock it repeats. -/
inductive WithRepeats (eligible : List (ℤ × UInt16) → List (ℤ × UInt16)) (ip : UInt32) :
    List (ℤ × UInt16) → List KnockerCall → List KnockerCall → Prop
  | nil (made : List (ℤ × UInt16)) : WithRepeats eligible ip made [] []
  | other {made : List (ℤ × UInt16)} {call : KnockerCall} {calls calls' : List KnockerCall}
      (hcall : call.isFrom ip = false) (h : WithRepeats eligible ip made calls calls') :
      WithRepeats eligible ip made (call :: calls) (call :: calls')
  | knock {made : List (ℤ × UInt16)} {calls calls' : List KnockerCall} (now nowAlloc : ℤ)
      (port : UInt16) (h : WithRepeats eligible ip ((now, port) :: made) calls calls') :
      WithRepeats eligible ip made (.process now nowAlloc ip port :: calls)
        (.process now nowAlloc ip port :: calls')
  | again {made : List (ℤ × UInt16)} {calls calls' : List KnockerCall} (now nowAlloc : ℤ)
      {k : ℤ × UInt16} (hk : k ∈ eligible made) (hclose : now - k.1 ≤ knockDedupWindow)
      (hleft : ownKnocks ip calls ≠ []) (h : WithRepeats eligible ip made calls calls') :
      WithRepeats eligible ip made calls (.process now nowAlloc ip k.2 :: calls')

/-- Of the knocks made, the one the filter recognises: the last. -/
def latest (made : List (ℤ × UInt16)) : List (ℤ × UInt16) := made.take 1

/-- The entry of `ip`, if it has one, stands where the knocks made put it: one step for
each of them, with the time and port of the last. -/
def StandsAt (t : ClientTable) (ip : UInt32) (made : List (ℤ × UInt16)) : Prop :=
  ∀ c, clientEntry t ip = some c →
    c.currentStep = made.length ∧ made.head? = some (c.lastKnock, c.lastPort)

section WithRepeats

variable {eligible : List (ℤ × UInt16) → List (ℤ × UInt16)} {ip : UInt32}
  {made : List (ℤ × UInt16)} {calls calls' : List KnockerCall}

/-- Nothing is inserted once `ip` has made its last knock. -/
theorem WithRepeats.eq_of_done (h : WithRepeats eligible ip made calls calls')
    (hdone : ownKnocks ip calls = []) : calls' = calls := by
  induction h with
  | nil => rfl
  | other hcall _ ih =>
    rw [ownKnocks_cons_of_not_isFrom hcall] at hdone
    rw [ih hdone]
  | knock => simp at hdone
  | again _ _ _ _ hleft => exact absurd hdone hleft

/-- The knocks of the run are still made. -/
theorem WithRepeats.ownKnocks_ne_nil (h : WithRepeats eligible ip made calls calls')
    (hne : ownKnocks ip calls ≠ []) : ownKnocks ip calls' ≠ [] := by
  induction h with
  | nil => exact hne
  | other hcall _ ih =>
    rw [ownKnocks_cons_of_not_isFrom hcall] at hne ⊢
    exact ih hne
  | knock => simp
  | again => simp

end WithRepeats

section StandsAt

variable {cfg : Config} {t : ClientTable} {ip : UInt32} {made : List (ℤ × UInt16)}
  {calls calls' : List KnockerCall}

theorem standsAt_of_untracked (h : clientEntry t ip = none) : StandsAt t ip made := by
  intro c hc
  rw [h] at hc
  cases hc

/-- Others' calls leave an entry where it is, or drop it. -/
theorem StandsAt.other (hcfg : cfg.SequenceValid) (ht : TableInv cfg t) (h : StandsAt t ip made)
    {call : KnockerCall} (hcall : call.isFrom ip = false) :
    StandsAt (knockerStep cfg t call).1 ip made := by
  rcases clientEntry_step_of_not_isFrom hcfg ht hcall with hsame | ⟨-, -, hgone, -⟩
  · intro c hc
    exact h c (hsame ▸ hc)
  · exact standsAt_of_untracked hgone

/-- The next port of the sequence moves the entry along, or costs it. -/
theorem StandsAt.knock (hcfg : cfg.SequenceValid) (ht : TableInv cfg t) (h : StandsAt t ip made)
    {port : UInt16} (hport : cfg.sequence[made.length]? = some port) (now nowAlloc : ℤ) :
    StandsAt (knockerProcess cfg now nowAlloc t ip port).clients ip ((now, port) :: made) := by
  have hlen := hcfg.length_sequence
  obtain ⟨hmade, -⟩ := List.getElem?_eq_some_iff.mp hport
  have hlt : (made.length : ℤ) < cfg.knockSeqLen := by omega
  rw [Config.sequence_getElem? hlt] at hport
  intro d hd
  rcases clientEntry_of_tableMove ht (knockerProcess_move hcfg ht now nowAlloc ip port) with
    ⟨c, c', hc, hmove, hafter⟩ | ⟨-, hafter, -⟩ | ⟨-, hfirst, hafter, -⟩
  · obtain ⟨hstep, -⟩ := h c hc
    have hcinv := ht.entryInv hc
    have hpos := hcinv.step_pos
    have hlast := hcinv.lastPort_eq
    rw [hafter] at hd
    generalize (knockerProcess cfg now nowAlloc t ip port).result = res at hmove
    generalize (knockerProcess cfg now nowAlloc t ip port).accepted = acc at hmove
    cases hmove with
    | retransmit hdup =>
      -- the next port is not the last one, as no port repeats
      have := hcfg.port_inj hlt (by omega) hport (hdup ▸ hlast)
      omega
    | complete => simp at hd
    | advance =>
      obtain ⟨-, hd⟩ := Option.ite_none_right_eq_some.mp hd
      cases hd
      exact ⟨by simp [KnockClient.accept, hstep], rfl⟩
    | restart hfirst =>
      have := hcfg.port_inj hlt hcfg.first_lt hport hfirst
      omega
    | discard _ _ _ _ hdead => simp [hdead] at hd
  · rw [hafter] at hd
    cases hd
  · -- only the first port gets an entry for an address without one
    have hzero := hcfg.port_inj hlt hcfg.first_lt hport hfirst
    rw [hafter] at hd
    cases hd
    exact ⟨by simp [hzero], rfl⟩

/-- A repeat of the last knock within the duplicate window leaves the table as it is. -/
theorem StandsAt.unchanged (h : StandsAt t ip made) {c : KnockClient}
    (hc : clientEntry t ip = some c) {k : ℤ × UInt16} (hk : k ∈ latest made) {now : ℤ}
    (hclose : now - k.1 ≤ knockDedupWindow) (nowAlloc : ℤ) :
    (knockerProcess cfg now nowAlloc t ip k.2).clients = t := by
  obtain ⟨i, hslot, hproc⟩ := knockerProcess_eq_processSlot hc now nowAlloc k.2
  obtain ⟨hi, hget⟩ := List.getElem?_eq_some_iff.mp hslot
  have hlast : k = (c.lastKnock, c.lastPort) := by
    obtain ⟨-, hhead⟩ := h c hc
    rw [latest, List.take_one, hhead] at hk
    simpa using hk
  have hdup : k.2 = c.lastPort ∧ now - c.lastKnock ≤ knockDedupWindow := by
    rw [hlast] at hclose ⊢
    exact ⟨rfl, hclose⟩
  have hsame : (processEntry cfg now c ip k.2).client = c := by
    rw [processEntry, if_pos hdup]
  rw [hproc, processSlot, hsame, ← hget]
  exact List.set_getElem_self hi

/-- Reading the next port off what is left of the sequence. -/
theorem next_of_drop {n : ℕ} {port : UInt16} {ports : List UInt16}
    (h : port :: ports = cfg.sequence.drop n) :
    cfg.sequence[n]? = some port ∧ ports = cfg.sequence.drop (n + 1) := by
  refine ⟨?_, ?_⟩
  · rw [← Nat.add_zero n, ← List.getElem?_drop, ← h]
    rfl
  · rw [← List.tail_drop, ← h]
    rfl

/-- Past its start the sequence does not come back to the first port. -/
theorem not_first_of_drop (hcfg : cfg.SequenceValid) {n : ℕ} (hn : 1 ≤ n)
    (hports : (ownKnocks ip calls).map Prod.snd = cfg.sequence.drop n) :
    ∀ k ∈ ownKnocks ip calls, cfg.knockSequence[0]? ≠ some k.2 := by
  intro k hk hfirst
  have hmem : k.2 ∈ cfg.sequence.drop n := hports ▸ List.mem_map_of_mem hk
  obtain ⟨i, hi⟩ := List.mem_iff_getElem?.mp hmem
  rw [List.getElem?_drop] at hi
  obtain ⟨hlt, -⟩ := List.getElem?_eq_some_iff.mp hi
  have hlen := hcfg.length_sequence
  have hbound : ((n + i : ℕ) : ℤ) < cfg.knockSeqLen := by omega
  rw [Config.sequence_getElem? hbound] at hi
  have := hcfg.port_inj hbound hcfg.first_lt hi hfirst
  omega

/-- Partway through a sequence that still completes, the address has its entry. -/
theorem tracked_of_complete (hcfg : cfg.SequenceValid) (ht : TableInv cfg t) {n : ℕ}
    (hn : 1 ≤ n) (hports : (ownKnocks ip calls).map Prod.snd = cfg.sequence.drop n)
    (hleft : ownKnocks ip calls ≠ [])
    (hcomplete : lastResult ip (knockerRunFrom cfg t calls).2 = some .complete) :
    ∃ c, clientEntry t ip = some c := by
  refine Option.ne_none_iff_exists'.mp fun hnone => ?_
  have hreset := ownRecords_reset_of_untracked hcfg ht hnone (not_first_of_drop hcfg hn hports)
  rw [lastResult_of_reset hleft hreset] at hcomplete
  cases hcomplete

/-- Repeats of the last knock do not keep a completing run from completing: each meets
the entry and leaves the table as it is. -/
theorem lastResult_withRepeats (hcfg : cfg.SequenceValid)
    (h : WithRepeats latest ip made calls calls') (ht : TableInv cfg t)
    (hstands : StandsAt t ip made)
    (hports : (ownKnocks ip calls).map Prod.snd = cfg.sequence.drop made.length)
    (hcomplete : lastResult ip (knockerRunFrom cfg t calls).2 = some .complete) :
    lastResult ip (knockerRunFrom cfg t calls').2 = some .complete := by
  induction h generalizing t with
  | nil => exact hcomplete
  | other hcall h ih =>
    rw [ownKnocks_cons_of_not_isFrom hcall] at hports
    rw [lastResult, ownRecords_runFrom_cons_of_not_isFrom hcall] at hcomplete ⊢
    exact ih (tableInv_knockerStep hcfg ht _) (hstands.other hcfg ht hcall) hports hcomplete
  | @knock made calls calls' now nowAlloc port h ih =>
    rw [ownKnocks_cons_self, List.map_cons] at hports
    obtain ⟨hport, hrest⟩ := next_of_drop hports
    by_cases hleft : ownKnocks ip calls = []
    · rw [h.eq_of_done hleft]
      exact hcomplete
    · rw [lastResult_runFrom_cons_self now nowAlloc port hleft] at hcomplete
      rw [lastResult_runFrom_cons_self now nowAlloc port (h.ownKnocks_ne_nil hleft)]
      exact ih (tableInv_of_tableMove hcfg ht (knockerProcess_move hcfg ht now nowAlloc ip port))
        (hstands.knock hcfg ht hport now nowAlloc) hrest hcomplete
  | @again made calls calls' now nowAlloc k hk hclose hleft h ih =>
    have hpos : 1 ≤ made.length := by
      have := List.length_pos_of_mem hk
      rw [latest, List.length_take] at this
      omega
    obtain ⟨c, hc⟩ := tracked_of_complete hcfg ht hpos hports hleft hcomplete
    rw [lastResult_runFrom_cons_self now nowAlloc k.2 (h.ownKnocks_ne_nil hleft),
      hstands.unchanged hc hk hclose nowAlloc]
    exact ih ht hstands hports hcomplete

/-- Where the entry stands after the first knocks of the sequence. -/
theorem StandsAt.runFrom (hcfg : cfg.SequenceValid) (ht : TableInv cfg t)
    (h : StandsAt t ip made) {rest : List UInt16}
    (hports : (ownKnocks ip calls).map Prod.snd ++ rest = cfg.sequence.drop made.length) :
    StandsAt (knockerRunFrom cfg t calls).1 ip ((ownKnocks ip calls).reverse ++ made) := by
  induction calls generalizing t made with
  | nil => simpa [ownKnocks, knockerRunFrom] using h
  | cons call calls ih =>
    rcases call.isFrom_cases ip with ⟨now, nowAlloc, port, rfl⟩ | hfrom
    · rw [ownKnocks_cons_self, List.map_cons, List.cons_append] at hports
      obtain ⟨hport, hrest⟩ := next_of_drop hports
      have hinv := tableInv_of_tableMove hcfg ht (knockerProcess_move hcfg ht now nowAlloc ip port)
      have hnext := ih hinv (h.knock hcfg ht hport now nowAlloc) hrest
      rw [ownKnocks_cons_self, List.reverse_cons, List.append_assoc, List.singleton_append]
      exact hnext
    · rw [ownKnocks_cons_of_not_isFrom hfrom] at hports ⊢
      exact ih (tableInv_knockerStep hcfg ht call) (h.other hcfg ht hfrom) hports

/-- A repeat of a knock before the last one is out of order. It restarts the sequence or
throws it away, and in both cases the rest of it is of no use. -/
theorem lastResult_of_earlier (hcfg : cfg.SequenceValid) (ht : TableInv cfg t)
    (hstands : StandsAt t ip made)
    (hports : (ownKnocks ip calls).map Prod.snd = cfg.sequence.drop made.length)
    (hleft : ownKnocks ip calls ≠ [])
    (hcomplete : lastResult ip (knockerRunFrom cfg t calls).2 = some .complete)
    {j : ℕ} (hj : j + 1 < made.length) {port : UInt16}
    (hport : cfg.knockSequence[j]? = some port) (now nowAlloc : ℤ) :
    lastResult ip (knockerRunFrom cfg t (.process now nowAlloc ip port :: calls)).2 =
      some .reset := by
  have hnotFirst := not_first_of_drop hcfg (by omega) hports
  obtain ⟨c, hc⟩ := tracked_of_complete hcfg ht (by omega) hports hleft hcomplete
  obtain ⟨hstep, -⟩ := hstands c hc
  have hcinv := ht.entryInv hc
  have hlt := hcinv.step_lt
  have hinv := tableInv_of_tableMove hcfg ht (knockerProcess_move hcfg ht now nowAlloc ip port)
  obtain ⟨c', hmove, hafter⟩ := exists_entryMove hcfg ht hc now nowAlloc port
  rw [lastResult_runFrom_cons_self now nowAlloc port hleft]
  refine lastResult_of_reset hleft ?_
  generalize (knockerProcess cfg now nowAlloc t ip port).result = res at hmove
  generalize (knockerProcess cfg now nowAlloc t ip port).accepted = acc at hmove
  cases hmove with
  | retransmit hdup =>
    have := hcfg.port_inj (by omega) (by omega) hport (hdup ▸ hcinv.lastPort_eq)
    omega
  | complete _ hnext =>
    have := hcfg.port_inj (by omega) hlt hport hnext
    omega
  | advance _ hnext =>
    have := hcfg.port_inj (by omega) hlt hport hnext
    omega
  | restart hfirst =>
    -- at step one again, while the next knock is on the third port or a later one
    have hactive : (c.accept 1 now port).active = true := (SlotTable.entry_live hc).1
    rw [if_pos hactive] at hafter
    obtain ⟨k, rest, hown⟩ := List.exists_cons_of_ne_nil hleft
    rw [hown, List.map_cons] at hports
    obtain ⟨hnext, -⟩ := next_of_drop hports
    rw [Config.sequence_getElem? (by omega)] at hnext
    have hk := hnotFirst k (hown ▸ List.mem_cons_self)
    have hsecond : cfg.knockSequence[1]? ≠ some k.2 := fun hsecond => by
      have := hcfg.port_inj hcfg.second_lt (by omega) hsecond hnext
      omega
    refine ownRecords_reset_of_refused hcfg hinv hafter hown (fun c' r a hmove => ?_) hnotFirst
    cases hmove with
    | retransmit hdup => exact absurd (hfirst.trans (congrArg some hdup.symm)) hk
    | complete _ hother => exact absurd hother hsecond
    | advance _ hother => exact absurd hother hsecond
    | restart hother => exact absurd hother hk
    | discard _ _ _ _ hdead => exact ⟨hdead, rfl⟩
  | discard _ _ _ _ hdead =>
    rw [hdead] at hafter
    exact ownRecords_reset_of_untracked hcfg hinv hafter hnotFirst

end StandsAt

/-- **Which repeats a sequence survives.** Take a run, from any reachable table, in which
the untracked `ip` knocks the whole sequence in order and completes it. Inserting repeats
of the knock it made last, any number of them before its last knock and each within the
duplicate window of the knock it repeats, it still completes. Inserting one repeat of an
earlier knock, its last knock is answered `KNOCK_RESET`. -/
theorem repeats_of_latest_harmless (cfg : Config) (hcfg : cfg.Valid) (before : List KnockerCall)
    (ip : UInt32) (calls : List KnockerCall)
    (hnone : clientEntry (knockerRun cfg before).1 ip = none)
    (hports : (ownKnocks ip calls).map Prod.snd = cfg.sequence)
    (hcomplete : lastResult ip (knockerRunFrom cfg (knockerRun cfg before).1 calls).2 =
      some .complete) :
    (∀ calls', WithRepeats latest ip [] calls calls' →
      lastResult ip (knockerRunFrom cfg (knockerRun cfg before).1 calls').2 = some .complete) ∧
    (∀ (first rest : List KnockerCall) (now nowAlloc : ℤ) (k : ℤ × UInt16),
      calls = first ++ rest → ownKnocks ip rest ≠ [] → k ∈ (ownKnocks ip first).dropLast →
      lastResult ip (knockerRunFrom cfg (knockerRun cfg before).1
        (first ++ .process now nowAlloc ip k.2 :: rest)).2 = some .reset) := by
  have hseq := hcfg.toSequenceValid
  have ht := tableInv_knockerRun hseq before
  generalize (knockerRun cfg before).1 = t at *
  have hstands : StandsAt t ip [] := standsAt_of_untracked hnone
  refine ⟨fun calls' h => lastResult_withRepeats hseq h ht hstands hports hcomplete, ?_⟩
  rintro first rest now nowAlloc k rfl hleft hk
  rw [ownKnocks_append, List.map_append] at hports
  have hmade := hstands.runFrom hseq ht hports
  rw [List.append_nil] at hmade
  have hrest : (ownKnocks ip rest).map Prod.snd =
      cfg.sequence.drop (ownKnocks ip first).reverse.length := by
    rw [← hports, List.length_reverse, ← List.length_map Prod.snd, List.drop_left]
  rw [lastResult_runFrom_append hleft] at hcomplete
  rw [lastResult_runFrom_append (by simp)]
  -- the knock repeated is not the last one made
  obtain ⟨j, hj⟩ := List.mem_iff_getElem?.mp hk
  rw [List.getElem?_dropLast] at hj
  obtain ⟨hlt, hj⟩ := Option.ite_none_right_eq_some.mp hj
  have hport : cfg.sequence[j]? = some k.2 := by
    rw [← hports, List.getElem?_append_left (by rw [List.length_map]; omega), List.getElem?_map, hj]
    rfl
  have hlen := hseq.length_sequence
  obtain ⟨hbound, -⟩ := List.getElem?_eq_some_iff.mp hport
  rw [Config.sequence_getElem? (by omega)] at hport
  exact lastResult_of_earlier hseq (tableInv_knockerRunFrom hseq ht first) hmade hrest hleft
    hcomplete (by rw [List.length_reverse]; omega) hport now nowAlloc

/-- Two copies of the first SYN and one of the second, and the client still gets in. -/
theorem repeats_of_latest_harmless_threeCopies :
    lastResult 10 (knockerRunFrom .default (knockerRun .default []).1
      [.process 0 0 10 7000, .process 1 1 10 7000, .process 3 3 10 7000, .process 4 4 10 8000,
        .process 9 9 10 8000, .process 10 10 10 9000]).2 = some .complete := by
  refine (repeats_of_latest_harmless .default Config.default_valid [] 10
    [.process 0 0 10 7000, .process 4 4 10 8000, .process 10 10 10 9000] (by decide) (by decide)
    (by decide)).1 _ ?_
  refine .knock 0 0 7000 (.again 1 1 (k := (0, 7000)) ?_ ?_ ?_ (.again 3 3 (k := (0, 7000)) ?_ ?_ ?_
    (.knock 4 4 8000 (.again 9 9 (k := (4, 8000)) ?_ ?_ ?_ (.knock 10 10 9000 (.nil _))))))
  all_goals decide

/-- A copy of the first SYN that is overtaken by the second knock, two seconds after the
original: the client is back at step one, and its third knock is refused. -/
theorem repeat_of_first_restarts :
    ¬ ∀ (cfg : Config) (before : List KnockerCall) (ip : UInt32) (calls calls' : List KnockerCall),
      cfg.Valid → clientEntry (knockerRun cfg before).1 ip = none →
      Nondecreasing calls → (ownKnocks ip calls).map Prod.snd = cfg.sequence →
      WithinWindow cfg ((ownKnocks ip calls).map Prod.fst) →
      lastResult ip (knockerRunFrom cfg (knockerRun cfg before).1 calls).2 = some .complete →
      Nondecreasing calls' → WithRepeats id ip [] calls calls' →
      lastResult ip (knockerRunFrom cfg (knockerRun cfg before).1 calls').2 = some .complete := by
  intro hall
  have hcomplete := hall .default [] 10
    [.process 0 0 10 7000, .process 1 1 10 8000, .process 3 3 10 9000]
    [.process 0 0 10 7000, .process 1 1 10 8000, .process 2 2 10 7000, .process 3 3 10 9000]
    Config.default_valid (by decide) (by unfold Nondecreasing; decide) (by decide)
    (by unfold WithinWindow; decide) (by decide) (by unfold Nondecreasing; decide)
    (.knock 0 0 7000 (.knock 1 1 8000 (.again 2 2 (k := (0, 7000)) (by decide) (by decide)
      (by decide) (.knock 3 3 9000 (.nil _)))))
  exact absurd hcomplete (by decide)

end Knockd
