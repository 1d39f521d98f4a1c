import Knockd.Knocker.History

/-!
# A completed sequence was really knocked

`knocker_process` returns `KNOCK_COMPLETE` only to an address that knocked the whole
sequence, in order, since its last completion. The argument is a history invariant:
every entry of the table is backed by an `Attempt`, a reading of its address's own
calls as the steps accepted so far. Duplicates, restarts, timeouts, sweeps,
evictions and reallocations either extend the attempt, begin a new one or drop the
entry, so the invariant survives each of them.

## Main definitions

* `ownCalls` — an address's calls since its last completion
* `Attempt` — how the steps of an attempt accumulate, call by call
* `StepsAt` — the same attempt as explicit positions among the calls

## Main results

* `historyInv_knockerRun` — every entry of every reachable table is backed
* `knockComplete_sound` — what a completion proves about the calls before it
-/

namespace Knockd

/-- The calls of `ip` since its last `KNOCK_COMPLETE`, oldest first. -/
def ownCalls (ip : UInt32) (records : List KnockRecord) : List KnockRecord :=
  records.foldl (fun own r =>
    if r.ip = ip then if r.result = .complete then [] else own ++ [r] else own) []

section OwnCalls

variable {ip : UInt32} {records : List KnockRecord} {r : KnockRecord}

theorem ownCalls_append_of_ne (h : r.ip ≠ ip) :
    ownCalls ip (records ++ [r]) = ownCalls ip records := by
  simp [ownCalls, h]

theorem ownCalls_append_self (h : r.ip = ip) (hr : r.result ≠ .complete) :
    ownCalls ip (records ++ [r]) = ownCalls ip records ++ [r] := by
  simp [ownCalls, h, hr]

end OwnCalls

/-- `Attempt cfg k t own`: the calls `own` end in an attempt whose steps `0..k` have
been accepted, step `k` at time `t`, and nothing since but repeats of its port. -/
inductive Attempt (cfg : Config) : ℕ → ℤ → List KnockRecord → Prop
  | start {own : List KnockRecord} {r : KnockRecord}
      (hport : cfg.knockSequence[0]? = some r.port) :
      Attempt cfg 0 r.time (own ++ [r])
  | retransmit {k : ℕ} {t : ℤ} {own : List KnockRecord} {r : KnockRecord}
      (hown : Attempt cfg k t own) (hport : cfg.knockSequence[k]? = some r.port)
      (htime : r.time - t ≤ knockDedupWindow) :
      Attempt cfg k t (own ++ [r])
  | advance {k : ℕ} {t : ℤ} {own : List KnockRecord} {r : KnockRecord}
      (hown : Attempt cfg k t own) (hport : cfg.knockSequence[k + 1]? = some r.port)
      (htime : r.time - t ≤ cfg.knockWindow) :
      Attempt cfg (k + 1) r.time (own ++ [r])

/-! ### Attempts as positions -/

/-- The first `n` steps of the sequence stand at positions `i 0 < … < i (n - 1)` of
`own`, each within the window of the one before, with only repeats of step `k`
within the duplicate window between the positions of steps `k` and `k + 1`. -/
structure StepsAt (cfg : Config) (own : List KnockRecord) (n : ℕ) (i : ℕ → ℕ) : Prop where
  increasing : ∀ k, k + 1 < n → i k < i (k + 1)
  ports : ∀ k < n, ∃ r, own[i k]? = some r ∧ cfg.knockSequence[k]? = some r.port
  gaps : ∀ k r r', k + 1 < n → own[i k]? = some r → own[i (k + 1)]? = some r' →
    r'.time - r.time ≤ cfg.knockWindow
  between : ∀ k m r s, k + 1 < n → i k < m → m < i (k + 1) →
    own[i k]? = some r → own[m]? = some s →
    cfg.knockSequence[k]? = some s.port ∧ s.time - r.time ≤ knockDedupWindow

section Positions

variable {cfg : Config} {own : List KnockRecord} {n k : ℕ} {i : ℕ → ℕ} {t : ℤ}
  {r s : KnockRecord}

theorem StepsAt.lt_length (h : StepsAt cfg own n i) (hk : k < n) : i k < own.length := by
  obtain ⟨r, hr, -⟩ := h.ports k hk
  exact (List.getElem?_eq_some_iff.mp hr).1

/-- Positions below the old length are unaffected by a later call. -/
theorem StepsAt.append (h : StepsAt cfg own n i) : StepsAt cfg (own ++ [r]) n i := by
  have hold : ∀ m, m < own.length → (own ++ [r])[m]? = own[m]? := fun m hm =>
    List.getElem?_append_left hm
  refine ⟨h.increasing, fun k hk => ?_, fun k a b hk => ?_, fun k m a b hk hlo hhi => ?_⟩
  · rw [hold _ (h.lt_length hk)]
    exact h.ports k hk
  · rw [hold _ (h.lt_length (by omega)), hold _ (h.lt_length hk)]
    exact h.gaps k a b hk
  · have hhigh := h.lt_length hk
    rw [hold _ (h.lt_length (by omega)), hold _ (by omega)]
    exact h.between k m a b hk hlo hhi

/-- What follows the last accepted step: the step itself at time `t`, then repeats. -/
structure LastAt (cfg : Config) (own : List KnockRecord) (k p : ℕ) (t : ℤ) : Prop where
  accepted : ∃ r, own[p]? = some r ∧ r.time = t ∧ cfg.knockSequence[k]? = some r.port
  repeats : ∀ m s, p < m → own[m]? = some s →
    cfg.knockSequence[k]? = some s.port ∧ s.time - t ≤ knockDedupWindow

theorem LastAt.snoc_self (hport : cfg.knockSequence[k]? = some r.port) :
    LastAt cfg (own ++ [r]) k own.length r.time := by
  refine ⟨⟨r, by simp, rfl, hport⟩, fun m s hm hs => ?_⟩
  have := (List.getElem?_eq_some_iff.mp hs).1
  simp only [List.length_append, List.length_singleton] at this
  omega

theorem LastAt.snoc_repeat {p : ℕ} (h : LastAt cfg own k p t)
    (hport : cfg.knockSequence[k]? = some s.port) (htime : s.time - t ≤ knockDedupWindow) :
    LastAt cfg (own ++ [s]) k p t := by
  obtain ⟨r, hr, hrest⟩ := h.accepted
  have hp := (List.getElem?_eq_some_iff.mp hr).1
  refine ⟨⟨r, by rwa [List.getElem?_append_left hp], hrest⟩, fun m x hm hx => ?_⟩
  rw [List.getElem?_append] at hx
  split at hx
  · exact h.repeats m x hm hx
  · have hxs : x = s := by
      have := List.mem_of_getElem? hx
      simpa using this
    subst hxs
    exact ⟨hport, htime⟩

/-- A new accepted step takes the next position. -/
theorem StepsAt.snoc (h : StepsAt cfg own (k + 1) i) (hlast : LastAt cfg own k (i k) t)
    (hport : cfg.knockSequence[k + 1]? = some r.port) (htime : r.time - t ≤ cfg.knockWindow) :
    StepsAt cfg (own ++ [r]) (k + 2) (Function.update i (k + 1) own.length) := by
  have happ : StepsAt cfg (own ++ [r]) (k + 1) i := h.append
  have hnew : Function.update i (k + 1) own.length (k + 1) = own.length :=
    Function.update_self ..
  have hold : ∀ m, m ≤ k → Function.update i (k + 1) own.length m = i m := fun m hm =>
    Function.update_of_ne (by omega) ..
  have hself : (own ++ [r])[own.length]? = some r := by simp
  obtain ⟨q, hq, hqt, -⟩ := hlast.accepted
  have hqlen := (List.getElem?_eq_some_iff.mp hq).1
  have hq' : (own ++ [r])[i k]? = some q := by rwa [List.getElem?_append_left hqlen]
  -- only the pair of the last two steps is new; for the others nothing has moved
  refine ⟨fun m hm => ?_, fun m hm => ?_, fun m a b hm => ?_, fun m p a b hm => ?_⟩
  · by_cases hmk : m = k
    · subst hmk
      rw [hold m le_rfl, hnew]
      exact hqlen
    · rw [hold m (by omega), hold (m + 1) (by omega)]
      exact h.increasing m (by omega)
  · by_cases hmk : m = k + 1
    · subst hmk
      rw [hnew]
      exact ⟨r, hself, hport⟩
    · rw [hold m (by omega)]
      exact happ.ports m (by omega)
  · by_cases hmk : m = k
    · subst hmk
      rw [hold m le_rfl, hnew, hq', hself]
      rintro ⟨rfl⟩ ⟨rfl⟩
      rw [hqt]
      exact htime
    · rw [hold m (by omega), hold (m + 1) (by omega)]
      exact happ.gaps m a b (by omega)
  · by_cases hmk : m = k
    · subst hmk
      rw [hold m le_rfl, hnew, hq']
      intro hlo hhi ha hb
      cases ha
      rw [List.getElem?_append_left hhi] at hb
      rw [hqt]
      exact hlast.repeats p b hlo hb
    · rw [hold m (by omega), hold (m + 1) (by omega)]
      exact happ.between m p a b (by omega)

/-- Every attempt can be laid out as positions among the calls. -/
theorem Attempt.exists_stepsAt (h : Attempt cfg k t own) :
    ∃ i, StepsAt cfg own (k + 1) i ∧ LastAt cfg own k (i k) t := by
  induction h with
  | @start own r hport =>
    refine ⟨fun _ => own.length, ⟨?_, ?_, ?_, ?_⟩, LastAt.snoc_self hport⟩
    · intro m hm
      omega
    · intro m hm
      obtain rfl : m = 0 := by omega
      exact ⟨r, by simp, hport⟩
    · intro m a b hm
      omega
    · intro m p a b hm
      omega
  | retransmit _ hport htime ih =>
    obtain ⟨i, hsteps, hlast⟩ := ih
    exact ⟨i, hsteps.append, hlast.snoc_repeat hport htime⟩
  | @advance k t own r _ hport htime ih =>
    obtain ⟨i, hsteps, hlast⟩ := ih
    refine ⟨_, hsteps.snoc hlast hport htime, ?_⟩
    rw [Function.update_self]
    exact LastAt.snoc_self hport

end Positions

/-! ### The history invariant -/

/-- Every entry is backed by an attempt among its address's own calls. -/
def HistoryInv (cfg : Config) (t : ClientTable) (records : List KnockRecord) : Prop :=
  ∀ ip c, clientEntry t ip = some c →
    Attempt cfg (c.currentStep - 1) c.lastKnock (ownCalls ip records)

section History

variable {cfg : Config} {t : ClientTable} {records : List KnockRecord}

/-- A move of an entry extends the attempt behind it by the call that made it, or
begins a new attempt at that call. -/
theorem Attempt.of_entryMove {now : ℤ} {c c' : KnockClient} {port : UInt16} {res : KnockResult}
    {a : Option ℕ} {own : List KnockRecord} {r : KnockRecord} (hc : EntryInv cfg c)
    (hown : Attempt cfg (c.currentStep - 1) c.lastKnock own)
    (hmove : EntryMove cfg now c port c' res a) (htime : r.time = now) (hport : r.port = port)
    (hkept : c'.active = true) :
    Attempt cfg (c'.currentStep - 1) c'.lastKnock (own ++ [r]) := by
  have hpos := hc.step_pos
  have hstep : c.currentStep - 1 + 1 = c.currentStep := by omega
  subst htime hport
  cases hmove with
  | retransmit hp ht => exact .retransmit hown (hp ▸ hc.lastPort_eq) ht
  | complete => simp at hkept
  | advance ht hp =>
    have hnext := Attempt.advance hown (by rwa [hstep]) ht
    rwa [hstep] at hnext
  -- whatever came before is no part of the new attempt
  | restart hp => exact .start hp
  | discard _ _ _ _ hdead => rw [hdead] at hkept; cases hkept

/-- Every entry of every reachable table is backed by an attempt. -/
theorem historyInv_knockerRun (hcfg : cfg.SequenceValid) (calls : List KnockerCall) :
    HistoryInv cfg (knockerRun cfg calls).1 (knockerRun cfg calls).2 := by
  refine knockerRun_history
    (P := fun ip e records => ∀ c, e = some c →
      Attempt cfg (c.currentStep - 1) c.lastKnock (ownCalls ip records))
    hcfg ?_ ?_ ?_ ?_ calls
  · intro ip c hc
    cases hc
  · rintro ip e r e' records hP hr hstep c' hc'
    cases hstep with
    | @tracked c d r hc hmove =>
      split at hc'
      · rename_i hactive
        cases hc'
        have hres := hmove.result_eq_of_active hactive
        rw [ownCalls_append_self hr (by simp [hres])]
        exact (hP c rfl).of_entryMove hc hmove rfl rfl hactive
      · cases hc'
    | untracked => cases hc'
    | admitted hport hres =>
      cases hc'
      rw [ownCalls_append_self hr (by simp [hres])]
      exact Attempt.start hport
  · intro ip e r records hP hne c hc
    rw [ownCalls_append_of_ne hne]
    exact hP c hc
  · intro ip e records _ c hc
    cases hc

end History

/-- **Soundness of completion.** In any run from `knocker_init`, at any clock
readings: if a knock of `ip` completes, then among the calls of `ip` since its last
completion, this one included, stand the ports of the whole sequence in order. Each
comes within the window of the one before, the last of them is this very knock, and
the only other calls of `ip` between two of them repeat the earlier one's port
within the duplicate window. -/
theorem knockComplete_sound (cfg : Config) (hcfg : cfg.SequenceValid)
    (calls : List KnockerCall) (now nowAlloc : ℤ) (ip : UInt32) (port : UInt16)
    (hcomplete : (knockerProcess cfg now nowAlloc (knockerRun cfg calls).1 ip port).result =
      .complete) :
    let this := (knockerProcess cfg now nowAlloc (knockerRun cfg calls).1 ip port).record
      now ip port
    let own := ownCalls ip (knockerRun cfg calls).2 ++ [this]
    ∃ i : ℕ → ℕ, StepsAt cfg own cfg.knockSeqLen.toNat i ∧
      i (cfg.knockSeqLen.toNat - 1) + 1 = own.length := by
  intro this own
  have ht := tableInv_knockerRun hcfg calls
  have hinv := historyInv_knockerRun hcfg calls
  have hmove := knockerProcess_move hcfg ht now nowAlloc ip port
  have htwo := hcfg.two_le_len
  rcases clientEntry_of_tableMove ht hmove with
    ⟨c, d, hc, hentry, -⟩ | ⟨-, -, hres, -⟩ | ⟨-, -, -, hres, -⟩
  · obtain ⟨htime, hport, hlast, -⟩ := hentry.of_complete hcomplete
    -- the attempt behind the entry has all steps but the last, which is this knock
    obtain ⟨i, hsteps, hlastAt⟩ := (hinv ip c hc).exists_stepsAt
    have hpos := (ht.entryInv hc).step_pos
    have hnext := hsteps.snoc (r := this) hlastAt
      (by rwa [show c.currentStep - 1 + 1 = c.currentStep by omega]) htime
    have hlen : cfg.knockSeqLen.toNat = c.currentStep - 1 + 2 := by omega
    refine ⟨_, by rw [hlen]; exact hnext, ?_⟩
    rw [hlen, show c.currentStep - 1 + 2 - 1 = c.currentStep - 1 + 1 by omega,
      Function.update_self]
    simp [own]
  · rw [hcomplete] at hres
    cases hres
  · rw [hcomplete] at hres
    cases hres

/-- The three default ports knocked a second apart. -/
theorem knockComplete_sound_threePorts :
    (knockerProcess .default 3 3 (knockerRun .default
        [.process 1 1 10 7000, .process 2 2 10 8000]).1 10 9000).result = .complete ∧
      ∃ i : ℕ → ℕ, StepsAt .default
        [⟨1, 10, 7000, .inProgress, some 1⟩, ⟨2, 10, 8000, .inProgress, some 2⟩,
          ⟨3, 10, 9000, .complete, some 3⟩] 3 i ∧ i 2 + 1 = 3 := by
  have hcomplete : (knockerProcess .default 3 3 (knockerRun .default
      [.process 1 1 10 7000, .process 2 2 10 8000]).1 10 9000).result = .complete := by decide
  exact ⟨hcomplete, knockComplete_sound .default Config.default_valid.toSequenceValid
    [.process 1 1 10 7000, .process 2 2 10 8000] 3 3 10 9000 hcomplete⟩

end Knockd
