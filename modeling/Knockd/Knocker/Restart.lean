import Knockd.Knocker.Progress

/-!
# Knocking again from the start

The source promises that a client that lost its place can simply knock again. It
can, with one exception. If the leftover entry is at step one and the new first
knock falls within the duplicate window of the old one, the new knock is ignored as
a retransmit and the entry keeps its old time stamp. The window of the second knock
then runs from the old first knock, not from the new one, and a second knock that is
on time for the client finds its entry expired and is thrown away with it.

## Main results

* `ownRecords_reset_of_untracked` — without an entry and without a first port,
  every knock is answered `KNOCK_RESET`
* `knockAgain_completes_iff` — when knocking the whole sequence again completes
-/

namespace Knockd

section Restart

variable {cfg : Config} {t : ClientTable} {ip : UInt32}

/-- An address without an entry that never knocks the first port is only ever
answered `KNOCK_RESET`. -/
theorem ownRecords_reset_of_untracked (hcfg : cfg.SequenceValid) (ht : TableInv cfg t)
    (hnone : clientEntry t ip = none) {calls : List KnockerCall}
    (hports : ∀ k ∈ ownKnocks ip calls, cfg.knockSequence[0]? ≠ some k.2) :
    ∀ r ∈ ownRecords ip (knockerRunFrom cfg t calls).2, r.result = .reset := by
  induction calls generalizing t with
  | nil => simp [knockerRunFrom, ownRecords]
  | cons call calls ih =>
    rcases call.isFrom_cases ip with ⟨now, nowAlloc, port, rfl⟩ | hfrom
    · simp only [ownKnocks_cons_self, List.mem_cons, forall_eq_or_imp] at hports
      have hmove := knockerProcess_move hcfg ht now nowAlloc ip port
      rw [ownRecords_runFrom_cons_self]
      rcases clientEntry_of_tableMove ht hmove with
        ⟨c, -, hc, -⟩ | ⟨-, hafter, hres, -⟩ | ⟨-, hport, -⟩
      · rw [hnone] at hc
        cases hc
      · intro r hr
        rcases List.mem_cons.mp hr with rfl | hr
        · exact hres
        · exact ih (tableInv_of_tableMove hcfg ht hmove) hafter hports.2 r hr
      · exact absurd hport hports.1
    · rw [ownRecords_runFrom_cons_of_not_isFrom hfrom]
      rw [ownKnocks_cons_of_not_isFrom hfrom] at hports
      refine ih (tableInv_knockerStep hcfg ht call) ?_ hports
      rcases clientEntry_step_of_not_isFrom hcfg ht hfrom with hsame | ⟨c, -, hgone, -⟩
      · rw [hsame, hnone]
      · exact hgone

/-- An entry that the next knock of its owner throws away is of no use: without another
first port every knock is answered `KNOCK_RESET`, whether the entry is swept, evicted or
still there when that knock arrives. -/
theorem ownRecords_reset_of_refused (hcfg : cfg.SequenceValid) (ht : TableInv cfg t)
    {c : KnockClient} (hc : clientEntry t ip = some c)
    {calls : List KnockerCall} {k : ℤ × UInt16} {rest : List (ℤ × UInt16)}
    (hown : ownKnocks ip calls = k :: rest)
    (hrefused : ∀ c' r a, EntryMove cfg k.1 c k.2 c' r a → c'.active = false ∧ r = .reset)
    (hports : ∀ k ∈ ownKnocks ip calls, cfg.knockSequence[0]? ≠ some k.2) :
    ∀ r ∈ ownRecords ip (knockerRunFrom cfg t calls).2, r.result = .reset := by
  induction calls generalizing t with
  | nil => simp [ownKnocks] at hown
  | cons call calls ih =>
    rcases call.isFrom_cases ip with ⟨now, nowAlloc, port, rfl⟩ | hfrom
    · simp only [ownKnocks_cons_self, List.mem_cons, forall_eq_or_imp] at hports
      simp only [ownKnocks_cons_self, List.cons.injEq] at hown
      obtain ⟨rfl, -⟩ := hown
      have hinv := tableInv_of_tableMove hcfg ht (knockerProcess_move hcfg ht now nowAlloc ip port)
      obtain ⟨c', hmove, hafter⟩ := exists_entryMove hcfg ht hc now nowAlloc port
      obtain ⟨hdead, hreset⟩ := hrefused c' _ _ hmove
      rw [hdead] at hafter
      rw [ownRecords_runFrom_cons_self]
      have huntracked := ownRecords_reset_of_untracked hcfg hinv hafter hports.2
      intro r hr
      rcases List.mem_cons.mp hr with rfl | hr
      · exact hreset
      · exact huntracked r hr
    · rw [ownRecords_runFrom_cons_of_not_isFrom hfrom]
      rw [ownKnocks_cons_of_not_isFrom hfrom] at hports hown
      have hinv := tableInv_knockerStep hcfg ht call
      -- a call of someone else may drop the entry early, to the same effect
      rcases clientEntry_step_of_not_isFrom hcfg ht hfrom with hsame | ⟨d, -, hgone, -⟩
      · exact ih hinv (hsame.trans hc) hown hports
      · exact ownRecords_reset_of_untracked hcfg hinv hgone hports

/-- An entry at step one whose second port comes too late is such an entry. -/
theorem ownRecords_reset_of_late (hcfg : cfg.SequenceValid) (ht : TableInv cfg t)
    {c : KnockClient} (hc : clientEntry t ip = some c) (hstep : c.currentStep = 1)
    {calls : List KnockerCall} {k : ℤ × UInt16} {rest : List (ℤ × UInt16)}
    (hown : ownKnocks ip calls = k :: rest) (hlate : cfg.knockWindow < k.1 - c.lastKnock)
    (hports : ∀ k ∈ ownKnocks ip calls, cfg.knockSequence[0]? ≠ some k.2) :
    ∀ r ∈ ownRecords ip (knockerRunFrom cfg t calls).2, r.result = .reset := by
  refine ownRecords_reset_of_refused hcfg ht hc hown (fun c' r a hmove => ?_) hports
  have hnotFirst := hports k (hown ▸ List.mem_cons_self)
  have hlast := (ht.entryInv hc).lastPort_eq
  -- the second port is not the first, and it is too late for a step
  cases hmove with
  | retransmit hdup =>
    rw [hstep, ← hdup] at hlast
    exact absurd hlast hnotFirst
  | complete htime => omega
  | advance htime => omega
  | restart hfirst => exact absurd hfirst hnotFirst
  | discard _ _ _ _ hdead => exact ⟨hdead, rfl⟩

/-- If every answer to `ip` is `KNOCK_RESET`, so is the last one. -/
theorem lastResult_of_reset {calls : List KnockerCall} (hne : ownKnocks ip calls ≠ [])
    (h : ∀ r ∈ ownRecords ip (knockerRunFrom cfg t calls).2, r.result = .reset) :
    lastResult ip (knockerRunFrom cfg t calls).2 = some .reset := by
  have hrecords : ownRecords ip (knockerRunFrom cfg t calls).2 ≠ [] := by
    rw [← List.length_pos_iff, length_ownRecords_runFrom]
    exact List.length_pos_iff.mpr hne
  rw [lastResult, List.getLast?_eq_some_getLast hrecords, Option.map_some,
    h _ (List.getLast_mem hrecords)]

/-- A first-port knock is ignored as a retransmit, accepted as step one, or turned
away for want of a slot. -/
theorem firstKnock_cases (hcfg : cfg.SequenceValid) (ht : TableInv cfg t) {now nowAlloc : ℤ}
    {port : UInt16} (hport : cfg.knockSequence[0]? = some port)
    (hfree : clientEntry t ip = none →
      ∃ c ∈ t, ¬ (c.active = true ∧ nowAlloc - c.lastKnock ≤ cfg.knockWindow)) :
    (∃ c, clientEntry t ip = some c ∧ c.currentStep = 1 ∧
        now - c.lastKnock ≤ knockDedupWindow ∧
        clientEntry (knockerProcess cfg now nowAlloc t ip port).clients ip = some c) ∨
      ((∀ c, clientEntry t ip = some c →
          ¬ (c.currentStep = 1 ∧ now - c.lastKnock ≤ knockDedupWindow)) ∧
        ∃ c, clientEntry (knockerProcess cfg now nowAlloc t ip port).clients ip = some c ∧
          c.currentStep = 1 ∧ c.lastKnock = now) := by
  have hmove := knockerProcess_move hcfg ht now nowAlloc ip port
  rcases clientEntry_of_tableMove ht hmove with
    ⟨c, d, hc, hentry, hafter⟩ | ⟨hnone, -, -, -, hwrong | hfull⟩ | ⟨hnone, -, hafter, -⟩
  · have hcinv := ht.entryInv hc
    have hpos := hcinv.step_pos
    have hlt := hcinv.step_lt
    have hlast := hcinv.lastPort_eq
    have hlive := (SlotTable.entry_live hc).1
    generalize (knockerProcess cfg now nowAlloc t ip port).result = res at hentry
    generalize (knockerProcess cfg now nowAlloc t ip port).accepted = acc at hentry
    cases hentry with
    | retransmit hdup htime =>
      -- only an entry at step one remembers the first port
      have := hcfg.port_inj (by omega) hcfg.first_lt (hdup ▸ hlast) hport
      rw [if_pos hlive] at hafter
      exact Or.inl ⟨c, hc, by omega, htime, hafter⟩
    | complete _ hnext =>
      have := hcfg.port_inj hlt hcfg.first_lt hnext hport
      omega
    | advance _ hnext =>
      have := hcfg.port_inj hlt hcfg.first_lt hnext hport
      omega
    | restart _ hdup =>
      right
      refine ⟨fun c' hc' h => hdup ⟨?_, ?_⟩, c.accept 1 now port, ?_, rfl, rfl⟩
      · rw [hc] at hc'
        cases hc'
        rw [h.1, hport] at hlast
        exact Option.some.inj hlast
      · rw [hc] at hc'
        cases hc'
        exact h.2
      · have hactive : (c.accept 1 now port).active = true := hlive
        rwa [if_pos hactive] at hafter
    | discard _ hwrong => exact absurd hport hwrong
  · exact absurd hport hwrong
  · obtain ⟨c, hc, hslot⟩ := hfree hnone
    exact absurd (hfull c hc) hslot
  · right
    refine ⟨fun c hc => ?_, _, hafter, rfl, rfl⟩
    rw [hnone] at hc
    cases hc

end Restart

/-- Fewer live entries than slots: some slot is free or holds an entry past the
window. -/
theorem exists_free_of_countP_lt {cfg : Config} {t : ClientTable} (ht : TableInv cfg t) {now : ℤ}
    (h : t.countP (fun c => c.active && decide (now - c.lastKnock ≤ cfg.knockWindow)) <
      cfg.maxClients.toNat) :
    ∃ c ∈ t, ¬ (c.active = true ∧ now - c.lastKnock ≤ cfg.knockWindow) := by
  rw [← ht.length_eq] at h
  by_contra hall
  push Not at hall
  refine absurd (List.countP_eq_length.mpr fun c hc => ?_) h.ne
  simpa using hall c hc

/-- **Knocking again.** From any reachable table, with a slot to be had if `ip` has
no entry: let `ip` knock the whole sequence in order, each port within the window of
the one before, with other addresses' calls interleaved and a clock that never goes
back. The last knock completes unless the leftover entry is at step one, the new
first knock falls within the duplicate window of the old one, and the second knock
falls outside the window of that old first knock. In that case it never completes. -/
theorem knockAgain_completes_iff (cfg : Config) (hcfg : cfg.Valid) (before : List KnockerCall)
    (ip : UInt32) (now nowAlloc : ℤ) (port : UInt16) (later : List KnockerCall)
    (hslot : clientEntry (knockerRun cfg before).1 ip = none →
      (knockerRun cfg before).1.countP (fun c => c.active &&
        decide (nowAlloc - c.lastKnock ≤ cfg.knockWindow)) < cfg.maxClients.toNat)
    (hmono : Nondecreasing (.process now nowAlloc ip port :: later))
    (hports : (ownKnocks ip (.process now nowAlloc ip port :: later)).map Prod.snd = cfg.sequence)
    (htimes : WithinWindow cfg
      ((ownKnocks ip (.process now nowAlloc ip port :: later)).map Prod.fst)) :
    lastResult ip (knockerRunFrom cfg (knockerRun cfg before).1
        (.process now nowAlloc ip port :: later)).2 = some .complete ↔
      ¬ ∃ c k, clientEntry (knockerRun cfg before).1 ip = some c ∧ c.currentStep = 1 ∧
        now - c.lastKnock ≤ knockDedupWindow ∧ (ownKnocks ip later).head? = some k ∧
        cfg.knockWindow < k.1 - c.lastKnock := by
  have hseq := hcfg.toSequenceValid
  have ht := tableInv_knockerRun hseq before
  have hinv := tableInv_of_tableMove hseq ht (knockerProcess_move hseq ht now nowAlloc ip port)
  have hlen := hseq.length_sequence
  have htwo := hseq.two_le_len
  generalize (knockerRun cfg before).1 = t at *
  rw [ownKnocks_cons_self] at hports htimes
  -- the later knocks are the sequence without its first port, and there are some
  have hfirst : cfg.knockSequence[0]? = some port := by
    rw [← Config.sequence_getElem? hseq.first_lt, ← hports]
    rfl
  have hdrop : (ownKnocks ip later).map Prod.snd = cfg.sequence.drop 1 := by
    rw [← hports]
    rfl
  obtain ⟨k, rest, hlater⟩ : ∃ k rest, ownKnocks ip later = k :: rest := by
    refine List.exists_cons_of_ne_nil fun hnil => ?_
    have := congrArg List.length hports
    simp only [hnil, List.map_cons, List.map_nil, List.length_cons, List.length_nil] at this
    omega
  have hnotFirst : ∀ m ∈ ownKnocks ip later, cfg.knockSequence[0]? ≠ some m.2 := by
    intro m hm h
    rw [hfirst, Option.some.injEq] at h
    have hnodup := hseq.ports_nodup
    rw [← hports, List.map_cons, List.nodup_cons] at hnodup
    exact hnodup.1 (List.mem_map.mpr ⟨m, hm, h.symm⟩)
  have hwindow : k.1 - now ≤ cfg.knockWindow := by
    simp only [hlater, WithinWindow, List.map_cons, List.isChain_cons_cons] at htimes
    exact htimes.1
  rw [lastResult_runFrom_cons_self now nowAlloc port (by rw [hlater]; simp)]
  rcases firstKnock_cases hseq ht hfirst (fun h => exists_free_of_countP_lt ht (hslot h)) with
    ⟨c, hc, hstep, hdup, hafter⟩ | ⟨hnot, c, hafter, hstep, htime⟩
  · -- the first knock was ignored, and the window runs from the leftover entry
    by_cases hlate : cfg.knockWindow < k.1 - c.lastKnock
    · have hreset := ownRecords_reset_of_late hseq hinv hafter hstep hlater hlate hnotFirst
      refine iff_of_false (fun hcomplete => ?_) (fun h => h ⟨c, k, hc, hstep, hdup, ?_, hlate⟩)
      · rw [lastResult_of_reset (by rw [hlater]; simp) hreset] at hcomplete
        cases hcomplete
      · rw [hlater]
        rfl
    · apply iff_of_true
      · refine lastResult_of_remaining hseq hinv hafter hmono.tail (hstep ▸ hdrop) ?_
        simp only [hlater, WithinWindow, List.map_cons, List.isChain_cons_cons] at htimes ⊢
        exact ⟨not_lt.mp hlate, htimes.2⟩
      · rintro ⟨c', k', hc', -, -, hk', hlate'⟩
        rw [hc] at hc'
        cases hc'
        rw [hlater] at hk'
        cases hk'
        exact hlate hlate'
  · -- the first knock was accepted, and the window runs from it
    apply iff_of_true
    · exact lastResult_of_remaining hseq hinv hafter hmono.tail (hstep ▸ hdrop) (htime ▸ htimes)
    · rintro ⟨c', k', hc', hstep', hdup', -⟩
      exact hnot c' hc' ⟨hstep', hdup'⟩

/-- Fifteen seconds of window: a first knock at time 1, the sequence again from time
5 on, with twelve seconds between its first and second knock. -/
theorem knockAgain_not_completes :
    ¬ ∀ (cfg : Config) (before : List KnockerCall) (ip : UInt32) (now nowAlloc : ℤ)
        (port : UInt16) (later : List KnockerCall), cfg.Valid →
      (clientEntry (knockerRun cfg before).1 ip = none →
        (knockerRun cfg before).1.countP (fun c => c.active &&
          decide (nowAlloc - c.lastKnock ≤ cfg.knockWindow)) < cfg.maxClients.toNat) →
      Nondecreasing (.process now nowAlloc ip port :: later) →
      (ownKnocks ip (.process now nowAlloc ip port :: later)).map Prod.snd = cfg.sequence →
      WithinWindow cfg ((ownKnocks ip (.process now nowAlloc ip port :: later)).map Prod.fst) →
      lastResult ip (knockerRunFrom cfg (knockerRun cfg before).1
        (.process now nowAlloc ip port :: later)).2 = some .complete := by
  intro hall
  have hcomplete := hall .default [.process 1 1 10 7000] 10 5 5 7000
    [.process 17 17 10 8000, .process 18 18 10 9000] Config.default_valid (by decide)
    (by unfold Nondecreasing; decide) (by decide) (by unfold WithinWindow; decide)
  exact absurd hcomplete (by decide)

/-- The same client completes when its second knock comes eleven seconds after the
first, still within the window of the leftover entry. -/
theorem knockAgain_completes_inTime :
    lastResult 10 (knockerRunFrom .default (knockerRun .default [.process 1 1 10 7000]).1
      [.process 5 5 10 7000, .process 16 16 10 8000, .process 18 18 10 9000]).2 =
        some .complete := by
  refine (knockAgain_completes_iff .default Config.default_valid [.process 1 1 10 7000] 10 5 5 7000
    [.process 16 16 10 8000, .process 18 18 10 9000] (by decide)
    (by unfold Nondecreasing; decide) (by decide) (by unfold WithinWindow; decide)).mpr ?_
  rintro ⟨c, k, hc, -, -, hk, hlate⟩
  have hc' : c = ⟨10, 1, 1, 7000, true⟩ := Option.some.inj (hc.symm.trans (by decide))
  have hk' : k = (16, 8000) := Option.some.inj (hk.symm.trans (by decide))
  subst hc' hk'
  exact absurd hlate (by decide)

end Knockd
