import Mathlib.Algebra.Order.Group.Int
import Mathlib.Algebra.Order.Group.Nat
import Knockd.Model.Knocker

/-!
# What one call does to the client table

The rest of the development never unfolds `process_locked`. It cites the two
inversion relations of this file: `EntryMove` lists everything a knock can do to
the entry it belongs to, `TableMove` everything it can do to the table. The table
invariant and the effect of a call on the entry of each address, its own or not,
are read off them.

## Main definitions

* `EntryInv`, `TableInv` — the invariant of active entries, of the table
* `EntryMove`, `TableMove` — the moves of an entry, of the table
* `KnockClient.stepAt` — the step at which an entry meets the sequence

## Main results

* `processEntry_move`, `knockerProcess_move` — the model makes only these moves
* `tableInv_knockerStep` — every call keeps the invariant
* `clientEntry_of_tableMove` — what the knocking address finds afterwards
* `clientEntry_step_of_not_isFrom` — another address keeps its entry, unless a clock
  reading of the call puts that entry past the window
-/

namespace Knockd

/-- The entry of an address is what `find_client` points at. -/
theorem clientEntry_eq_bind_findClient (t : ClientTable) (ip : UInt32) :
    clientEntry t ip = (findClient t ip).bind (t[·]?) :=
  SlotTable.entry_eq_bind_lookup

/-! ### Claiming a slot -/

section Alloc

variable {t : ClientTable} {i j : ℕ} {oldest : Option (ℕ × KnockClient)}

theorem allocScan_free (h : allocScan t i oldest = .inl j) :
    ∃ k c, j = i + k ∧ t[k]? = some c ∧ c.active = false := by
  induction t generalizing i oldest with
  | nil => simp [allocScan] at h
  | cons c rest ih =>
    by_cases hc : c.active
    · -- an active slot is passed over, whichever entry is oldest afterwards
      have hrest : ∃ o, allocScan rest (i + 1) o = .inl j := by
        simp only [allocScan, hc, Bool.not_true, Bool.false_eq_true, if_false] at h
        split at h
        · exact ⟨_, h⟩
        · split at h
          · exact ⟨_, h⟩
          · exact ⟨_, h⟩
      obtain ⟨o, ho⟩ := hrest
      obtain ⟨k, d, rfl, hk, hd⟩ := ih ho
      exact ⟨k + 1, d, by omega, by simpa using hk, hd⟩
    · simp only [allocScan, hc, Bool.not_false, if_true, Sum.inl.injEq] at h
      exact ⟨0, c, by omega, rfl, by simpa using hc⟩

/-- When the scan falls through, every slot is taken and the entry it carries is
the oldest of those seen. -/
theorem allocScan_full {r : Option (ℕ × KnockClient)} (h : allocScan t i oldest = .inr r) :
    (∀ c ∈ t, c.active = true) ∧
      (r = none → oldest = none ∧ t = []) ∧
      ∀ j o, r = some (j, o) →
        (oldest = some (j, o) ∨ ∃ k, j = i + k ∧ t[k]? = some o) ∧
        (∀ c ∈ t, o.lastKnock ≤ c.lastKnock) ∧
        ∀ m x, oldest = some (m, x) → o.lastKnock ≤ x.lastKnock := by
  induction t generalizing i oldest with
  | nil =>
    simp only [allocScan, Sum.inr.injEq] at h
    subst h
    refine ⟨by simp, by simp, ?_⟩
    rintro j o rfl
    refine ⟨Or.inl rfl, by simp, ?_⟩
    rintro m x hx
    cases hx
    exact le_rfl
  | cons c rest ih =>
    by_cases hc : c.active
    · -- the oldest entry after slot `i` is the smaller of the two candidates
      have hrest : ∃ j' o', allocScan rest (i + 1) (some (j', o')) = .inr r ∧
          (oldest = some (j', o') ∨ (j' = i ∧ o' = c)) ∧ o'.lastKnock ≤ c.lastKnock ∧
          ∀ m x, oldest = some (m, x) → o'.lastKnock ≤ x.lastKnock := by
        simp only [allocScan, hc, Bool.not_true, Bool.false_eq_true, if_false] at h
        split at h
        · exact ⟨i, c, h, Or.inr ⟨rfl, rfl⟩, le_rfl, by simp⟩
        · rename_i m x
          split at h
          · rename_i hlt
            refine ⟨i, c, h, Or.inr ⟨rfl, rfl⟩, le_rfl, ?_⟩
            rintro m' x' hx
            cases hx
            exact hlt.le
          · rename_i hge
            refine ⟨m, x, h, Or.inl rfl, not_lt.mp hge, ?_⟩
            rintro m' x' hx
            cases hx
            exact le_rfl
      obtain ⟨j', o', hscan, hfrom, hle, hold⟩ := hrest
      obtain ⟨hactive, hnone, hmin⟩ := ih hscan
      refine ⟨by simpa [hc] using hactive, fun hr => by simpa using (hnone hr).1, ?_⟩
      intro j o hr
      obtain ⟨hwhere, hrestMin, hprev⟩ := hmin j o hr
      have hoo' : o.lastKnock ≤ o'.lastKnock := hprev j' o' rfl
      refine ⟨?_, ?_, fun m x hx => hoo'.trans (hold m x hx)⟩
      · rcases hwhere with hwhere | ⟨k, rfl, hk⟩
        · cases hwhere
          rcases hfrom with hfrom | ⟨rfl, rfl⟩
          · exact Or.inl hfrom
          · exact Or.inr ⟨0, by omega, rfl⟩
        · exact Or.inr ⟨k + 1, by omega, by simpa using hk⟩
      · intro d hd
        rcases List.mem_cons.mp hd with rfl | hd
        · exact hoo'.trans hle
        · exact hrestMin d hd
    · simp [allocScan, hc] at h

/-- A claimed slot was free, or held an entry past the window. -/
theorem allocClient_some {cfg : Config} {now : ℤ} {t' : ClientTable} {log : List LogLine}
    (h : allocClient cfg now t = (some (i, t'), log)) :
    t' = t.set i .zeroed ∧
      ∃ c, t[i]? = some c ∧ (c.active = false ∨ cfg.knockWindow < now - c.lastKnock) := by
  unfold allocClient at h
  split at h
  · rename_i hscan
    obtain ⟨k, c, hk, hc, hfree⟩ := allocScan_free hscan
    simp only [Prod.mk.injEq, Option.some.injEq] at h
    obtain ⟨⟨rfl, rfl⟩, -⟩ := h
    rw [Nat.zero_add] at hk
    subst hk
    exact ⟨rfl, c, hc, Or.inl hfree⟩
  · simp at h
  · rename_i hscan
    split at h
    · simp at h
    · rename_i hold
      obtain ⟨-, -, hmin⟩ := allocScan_full hscan
      obtain ⟨hwhere, -⟩ := hmin _ _ rfl
      simp only [Prod.mk.injEq, Option.some.injEq] at h
      obtain ⟨⟨rfl, rfl⟩, -⟩ := h
      rcases hwhere with hwhere | ⟨k, hk, hc⟩
      · cases hwhere
      · rw [Nat.zero_add] at hk
        subst hk
        exact ⟨rfl, _, hc, Or.inr (not_le.mp hold)⟩

/-- When no slot is handed out, every slot holds an entry within the window. -/
theorem allocClient_none {cfg : Config} {now : ℤ} {log : List LogLine}
    (h : allocClient cfg now t = (none, log)) :
    ∀ c ∈ t, c.active = true ∧ now - c.lastKnock ≤ cfg.knockWindow := by
  unfold allocClient at h
  split at h
  · simp at h
  · rename_i hscan
    obtain ⟨-, hnone, -⟩ := allocScan_full hscan
    obtain ⟨-, rfl⟩ := hnone rfl
    simp
  · rename_i hscan
    split at h
    · rename_i hyoung
      obtain ⟨hactive, -, hmin⟩ := allocScan_full hscan
      obtain ⟨-, hall, -⟩ := hmin _ _ rfl
      intro c hc
      have := hall c hc
      exact ⟨hactive c hc, by omega⟩
    · simp at h

end Alloc

/-! ### The moves of one entry -/

/-- An active entry is strictly inside the sequence and remembers the port of the
step it is at. -/
structure EntryInv (cfg : Config) (c : KnockClient) : Prop where
  step_pos : 1 ≤ c.currentStep
  step_lt : (c.currentStep : ℤ) < cfg.knockSeqLen
  lastPort_eq : cfg.knockSequence[c.currentStep - 1]? = some c.lastPort

/-- The entry after its owner's knock was accepted as the given step. -/
def KnockClient.accept (c : KnockClient) (step : ℕ) (now : ℤ) (port : UInt16) : KnockClient :=
  { c with currentStep := step, lastKnock := now, lastPort := port }

/-- Everything a knock on `port` at time `now` can do to the entry `c`: the new
entry, the result, and the step the knock was accepted as. -/
inductive EntryMove (cfg : Config) (now : ℤ) (c : KnockClient) (port : UInt16) :
    KnockClient → KnockResult → Option ℕ → Prop
  | retransmit (hport : port = c.lastPort) (htime : now - c.lastKnock ≤ knockDedupWindow) :
      EntryMove cfg now c port c .inProgress none
  | complete (htime : now - c.lastKnock ≤ cfg.knockWindow)
      (hport : cfg.knockSequence[c.currentStep]? = some port)
      (hlast : ((c.currentStep + 1 : ℕ) : ℤ) = cfg.knockSeqLen) :
      EntryMove cfg now c port { c.accept (c.currentStep + 1) now port with active := false }
        .complete (some (c.currentStep + 1))
  | advance (htime : now - c.lastKnock ≤ cfg.knockWindow)
      (hport : cfg.knockSequence[c.currentStep]? = some port)
      (hlast : ((c.currentStep + 1 : ℕ) : ℤ) < cfg.knockSeqLen) :
      EntryMove cfg now c port (c.accept (c.currentStep + 1) now port)
        .inProgress (some (c.currentStep + 1))
  | restart (hport : cfg.knockSequence[0]? = some port)
      (hdup : ¬ (port = c.lastPort ∧ now - c.lastKnock ≤ knockDedupWindow)) :
      EntryMove cfg now c port (c.accept 1 now port) .inProgress (some 1)
  | discard (c' : KnockClient) (hport : cfg.knockSequence[0]? ≠ some port)
      (hwrong : cfg.knockWindow < now - c.lastKnock ∨
        cfg.knockSequence[c.currentStep]? ≠ some port)
      (hip : c'.ip = c.ip) (hactive : c'.active = false) :
      EntryMove cfg now c port c' .reset none

section Entry

variable {cfg : Config} {now : ℤ} {c : KnockClient} {ip : UInt32} {port : UInt16}

/-- The step an entry is at when a knock is compared with the sequence. -/
def KnockClient.stepAt (cfg : Config) (now : ℤ) (c : KnockClient) : ℕ :=
  if decide (0 < c.currentStep ∧ now - c.lastKnock > cfg.knockWindow) then 0 else c.currentStep

/-- A step given up is zero, and one that stands is the entry's. -/
theorem KnockClient.stepAt_lt (hcfg : cfg.SequenceValid)
    (hstep : (c.currentStep : ℤ) < cfg.knockSeqLen) : (c.stepAt cfg now : ℤ) < cfg.knockSeqLen := by
  unfold KnockClient.stepAt
  split
  · exact hcfg.first_lt
  · exact hstep

/-- `processEntry` makes one of the moves of an entry. -/
theorem processEntry_move (hcfg : cfg.SequenceValid) (hc : EntryInv cfg c) :
    EntryMove cfg now c port (processEntry cfg now c ip port).client
      (processEntry cfg now c ip port).result (processEntry cfg now c ip port).accepted := by
  have hpos : 0 < c.currentStep := hc.step_pos
  have hlt := hc.step_lt
  have htwo := hcfg.two_le_len
  unfold processEntry
  split
  · rename_i hdup
    exact .retransmit hdup.1 hdup.2
  · rename_i hdup
    by_cases hexp : now - c.lastKnock > cfg.knockWindow
    · -- past the window the entry starts over, so only the first port is accepted
      simp only [hpos, hexp, and_self, decide_true, if_true]
      split
      · rename_i hfirst
        have hnotLast : ¬ (((0 + 1 : ℕ) : ℤ) ≥ cfg.knockSeqLen) := by omega
        simp only [hnotLast, if_false]
        exact .restart hfirst hdup
      · rename_i hfirst
        exact .discard _ hfirst (Or.inl hexp) rfl rfl
    · -- within the window the step stands, and the order of the tests decides
      simp only [hexp, and_false, decide_false, Bool.false_eq_true, if_false]
      split
      · rename_i hnext
        split
        · rename_i hlast
          exact .complete (not_lt.mp hexp) hnext (by push_cast at *; omega)
        · rename_i hlast
          exact .advance (not_lt.mp hexp) hnext (not_le.mp hlast)
      · rename_i hnext
        split
        · rename_i hfirst
          exact .restart hfirst hdup
        · rename_i hfirst
          exact .discard _ hfirst (Or.inr hnext) rfl rfl

/-- The first knock of a newly claimed entry: its zero `last_port` is no knock
port, so the duplicate filter lets it pass and it is accepted as step one. -/
theorem processEntry_fresh (hcfg : cfg.SequenceValid) (now : ℤ) (ip : UInt32)
    (hport : cfg.knockSequence[0]? = some port) :
    (processEntry cfg now (freshClient ip) ip port).client =
        ⟨ip, 1, now, port, true⟩ ∧
      (processEntry cfg now (freshClient ip) ip port).result = .inProgress ∧
      (processEntry cfg now (freshClient ip) ip port).accepted = some 1 := by
  have hne : port ≠ 0 := hcfg.port_ne_zero hcfg.first_lt hport
  have htwo := hcfg.two_le_len
  have hnotLast : ¬ (((0 + 1 : ℕ) : ℤ) ≥ cfg.knockSeqLen) := by omega
  have hdup : ¬ (port = (freshClient ip).lastPort ∧
      now - (freshClient ip).lastKnock ≤ knockDedupWindow) := fun h => hne h.1
  have hstep : (freshClient ip).currentStep = 0 := rfl
  rw [processEntry, if_neg hdup]
  simp only [hstep, lt_irrefl, false_and, decide_false, Bool.false_eq_true, if_false, hport,
    if_true, hnotLast]
  exact ⟨rfl, trivial, trivial⟩

variable {c' : KnockClient} {r : KnockResult} {a : Option ℕ}

theorem EntryMove.ip_eq (h : EntryMove cfg now c port c' r a) : c'.ip = c.ip := by
  cases h with
  | discard _ _ _ hip => exact hip
  | _ => rfl

theorem EntryMove.result_eq_of_active (h : EntryMove cfg now c port c' r a)
    (hactive : c'.active = true) : r = .inProgress := by
  cases h with
  | complete => simp at hactive
  | discard _ _ _ _ hdead => rw [hdead] at hactive; cases hactive
  | _ => rfl

/-- A completing move accepts the last port of the sequence within the window. -/
theorem EntryMove.of_complete (h : EntryMove cfg now c port c' r a) (hr : r = .complete) :
    now - c.lastKnock ≤ cfg.knockWindow ∧ cfg.knockSequence[c.currentStep]? = some port ∧
      ((c.currentStep + 1 : ℕ) : ℤ) = cfg.knockSeqLen ∧ c'.active = false ∧
      a = some (c.currentStep + 1) := by
  cases h with
  | complete htime hport hlast => exact ⟨htime, hport, hlast, rfl, rfl⟩
  | _ => cases hr

/-- A move that keeps the entry in the table keeps its invariant. -/
theorem EntryMove.entryInv (hcfg : cfg.SequenceValid) (hc : EntryInv cfg c)
    (h : EntryMove cfg now c port c' r a) (hactive : c'.active = true) : EntryInv cfg c' := by
  have htwo := hcfg.two_le_len
  cases h with
  | retransmit => exact hc
  | complete => simp at hactive
  | advance _ hport hlast => exact ⟨by simp [KnockClient.accept], hlast, hport⟩
  | restart hport => exact ⟨le_rfl, by simp only [KnockClient.accept]; omega, hport⟩
  | discard _ _ _ _ hdead => rw [hdead] at hactive; cases hactive

end Entry

/-! ### The moves of the table -/

/-- The invariant of the client table. -/
structure TableInv (cfg : Config) (t : ClientTable) : Prop where
  length_eq : t.length = cfg.maxClients.toNat
  distinct : SlotTable.Distinct KnockClient.active KnockClient.ip t
  entries : ∀ c ∈ t, c.active = true → EntryInv cfg c

theorem TableInv.entryInv {cfg : Config} {t : ClientTable} (ht : TableInv cfg t) {ip : UInt32}
    {c : KnockClient} (hc : clientEntry t ip = some c) : EntryInv cfg c := by
  obtain ⟨i, hi⟩ := SlotTable.entry_mem hc
  exact ht.entries c (List.mem_of_getElem? hi) (SlotTable.entry_live hc).1

/-- Everything a knock of `ip` on `port` can do to the table `t`: the new table,
the result, and the step the knock was accepted as. -/
inductive TableMove (cfg : Config) (now nowAlloc : ℤ) (t : ClientTable) (ip : UInt32)
    (port : UInt16) : ClientTable → KnockResult → Option ℕ → Prop
  | tracked {i : ℕ} {c c' : KnockClient} {r : KnockResult} {a : Option ℕ}
      (hslot : t[i]? = some c) (hentry : clientEntry t ip = some c)
      (hmove : EntryMove cfg now c port c' r a) :
      TableMove cfg now nowAlloc t ip port (t.set i c') r a
  | ignored (hentry : clientEntry t ip = none) (hport : cfg.knockSequence[0]? ≠ some port) :
      TableMove cfg now nowAlloc t ip port t .reset none
  | turnedAway (hentry : clientEntry t ip = none) (hport : cfg.knockSequence[0]? = some port)
      (hfull : ∀ c ∈ t, c.active = true ∧ nowAlloc - c.lastKnock ≤ cfg.knockWindow) :
      TableMove cfg now nowAlloc t ip port t .reset none
  | admitted {i : ℕ} {old : KnockClient} (hentry : clientEntry t ip = none)
      (hport : cfg.knockSequence[0]? = some port) (hslot : t[i]? = some old)
      (hold : old.active = false ∨ cfg.knockWindow < nowAlloc - old.lastKnock) :
      TableMove cfg now nowAlloc t ip port (t.set i ⟨ip, 1, now, port, true⟩)
        .inProgress (some 1)

section Moves

variable {cfg : Config} {now nowAlloc : ℤ} {t t' : ClientTable} {ip ip' : UInt32}
  {port : UInt16} {r : KnockResult} {a : Option ℕ}

/-- The knock of a tracked address is `processEntry` on its slot. -/
theorem knockerProcess_eq_processSlot {c : KnockClient} (hc : clientEntry t ip = some c)
    (now nowAlloc : ℤ) (port : UInt16) :
    ∃ i, t[i]? = some c ∧
      knockerProcess cfg now nowAlloc t ip port = processSlot cfg now t i c ip port := by
  obtain ⟨i, hfind⟩ : ∃ i, findClient t ip = some i := by
    refine Option.ne_none_iff_exists'.mp fun hnone => ?_
    have habsent : clientEntry t ip = none := SlotTable.lookup_eq_none_iff.mp hnone
    rw [habsent] at hc
    cases hc
  obtain ⟨d, hslot, hd⟩ := SlotTable.lookup_eq_some hfind
  obtain rfl : d = c := Option.some.inj (hd.symm.trans hc)
  have hget : t.getD i .zeroed = d := by
    rw [List.getD_eq_getElem?_getD, hslot]
    rfl
  refine ⟨i, hslot, ?_⟩
  rw [knockerProcess, processLocked, hfind]
  exact congrArg (processSlot cfg now t i · ip port) hget

/-- The knock that claims a slot is accepted as step one of the new entry. -/
theorem knockerProcess_of_claimed (hcfg : cfg.SequenceValid) (now : ℤ) {i : ℕ}
    {claimed : ClientTable} {log : List LogLine} (hfind : findClient t ip = none)
    (hport : cfg.knockSequence[0]? = some port)
    (halloc : allocClient cfg nowAlloc t = (some (i, claimed), log)) :
    (knockerProcess cfg now nowAlloc t ip port).clients = t.set i ⟨ip, 1, now, port, true⟩ ∧
      (knockerProcess cfg now nowAlloc t ip port).result = .inProgress ∧
      (knockerProcess cfg now nowAlloc t ip port).accepted = some 1 := by
  obtain ⟨rfl, -⟩ := allocClient_some halloc
  obtain ⟨hclient, hresult, haccepted⟩ := processEntry_fresh hcfg now ip hport
  -- the slot is zeroed first, but the entry written over it is what stands
  simp only [knockerProcess, processLocked, hfind, hport, ne_eq, not_true_eq_false, if_false,
    halloc, processSlot, hclient, hresult, haccepted, List.set_set, and_self]

/-- `knocker_process` makes one of the moves of the table. -/
theorem knockerProcess_move (hcfg : cfg.SequenceValid) (ht : TableInv cfg t)
    (now nowAlloc : ℤ) (ip : UInt32) (port : UInt16) :
    TableMove cfg now nowAlloc t ip port
      (knockerProcess cfg now nowAlloc t ip port).clients
      (knockerProcess cfg now nowAlloc t ip port).result
      (knockerProcess cfg now nowAlloc t ip port).accepted := by
  cases hentry : clientEntry t ip with
  | some c =>
    obtain ⟨i, hslot, hcall⟩ := knockerProcess_eq_processSlot hentry now nowAlloc port
    rw [hcall]
    exact .tracked hslot hentry (processEntry_move hcfg (ht.entryInv hentry))
  | none =>
    have hfind : findClient t ip = none := SlotTable.lookup_eq_none_iff.mpr hentry
    by_cases hport : cfg.knockSequence[0]? = some port
    · cases halloc : allocClient cfg nowAlloc t with
      | mk slot log =>
        cases slot with
        | none =>
          simp only [knockerProcess, processLocked, hfind, hport, ne_eq, not_true_eq_false,
            if_false, halloc]
          exact .turnedAway hentry hport (allocClient_none halloc)
        | some claimed =>
          obtain ⟨-, old, hslot, hold⟩ := allocClient_some halloc
          obtain ⟨hclients, hresult, haccepted⟩ :=
            knockerProcess_of_claimed hcfg now hfind hport halloc
          rw [hclients, hresult, haccepted]
          exact .admitted hentry hport hslot hold
    · simp only [knockerProcess, processLocked, hfind, hport, ne_eq, not_false_eq_true, if_true]
      exact .ignored hentry hport

theorem tableInv_of_tableMove (hcfg : cfg.SequenceValid) (ht : TableInv cfg t)
    (h : TableMove cfg now nowAlloc t ip port t' r a) : TableInv cfg t' := by
  have htwo := hcfg.two_le_len
  cases h with
  | ignored => exact ht
  | turnedAway => exact ht
  | @tracked i c c' _ _ hslot hentry hmove =>
    obtain ⟨hlive, hip⟩ := SlotTable.entry_live hentry
    refine ⟨by rw [List.length_set, ht.length_eq], ?_, ?_⟩
    · -- the entry keeps its address, under which no other slot was live
      refine ht.distinct.set fun _ j b hji hb hlb hkey => hji ?_
      exact ht.distinct hb hslot hlb hlive (hkey.trans hmove.ip_eq)
    · intro d hd hactive
      rcases List.mem_or_eq_of_mem_set hd with hd | rfl
      · exact ht.entries d hd hactive
      · exact hmove.entryInv hcfg (ht.entryInv hentry) hactive
  | @admitted i old hentry hport hslot hold =>
    refine ⟨by rw [List.length_set, ht.length_eq], ?_, ?_⟩
    · -- the address had no entry, so the claimed slot is the only one with it
      refine ht.distinct.set fun _ j b _ hb hlb hkey => ?_
      exact SlotTable.entry_eq_none_iff.mp hentry j b hb hlb hkey
    · intro d hd hactive
      rcases List.mem_or_eq_of_mem_set hd with hd | rfl
      · exact ht.entries d hd hactive
      · exact ⟨le_rfl, by simp only; omega, hport⟩

/-- What the knocking address finds after its knock. -/
theorem clientEntry_of_tableMove (ht : TableInv cfg t)
    (h : TableMove cfg now nowAlloc t ip port t' r a) :
    (∃ c c', clientEntry t ip = some c ∧ EntryMove cfg now c port c' r a ∧
        clientEntry t' ip = if c'.active then some c' else none) ∨
      (clientEntry t ip = none ∧ clientEntry t' ip = none ∧ r = .reset ∧ a = none ∧
        (cfg.knockSequence[0]? ≠ some port ∨
          ∀ c ∈ t, c.active = true ∧ nowAlloc - c.lastKnock ≤ cfg.knockWindow)) ∨
      (clientEntry t ip = none ∧ cfg.knockSequence[0]? = some port ∧
        clientEntry t' ip = some ⟨ip, 1, now, port, true⟩ ∧ r = .inProgress ∧ a = some 1) := by
  cases h with
  | ignored hentry hport => exact Or.inr (Or.inl ⟨hentry, hentry, rfl, rfl, Or.inl hport⟩)
  | turnedAway hentry hport hfull =>
    exact Or.inr (Or.inl ⟨hentry, hentry, rfl, rfl, Or.inr hfull⟩)
  | @tracked i c c' _ _ hslot hentry hmove =>
    obtain ⟨hlive, hip⟩ := SlotTable.entry_live hentry
    obtain ⟨hi, -⟩ := List.getElem?_eq_some_iff.mp hslot
    have hkey : c'.ip = ip := hmove.ip_eq.trans hip
    refine Or.inl ⟨c, c', hentry, hmove, ?_⟩
    have hself : clientEntry (t.set i c') c'.ip = if c'.active then some c' else none :=
      SlotTable.entry_set_self hi fun j b hji hb hlb hjk =>
        hji (ht.distinct hb hslot hlb hlive (hjk.trans hmove.ip_eq))
    rwa [hkey] at hself
  | @admitted i old hentry hport hslot hold =>
    obtain ⟨hi, -⟩ := List.getElem?_eq_some_iff.mp hslot
    refine Or.inr (Or.inr ⟨hentry, hport, ?_, rfl, rfl⟩)
    exact SlotTable.entry_set_self (a := ⟨ip, 1, now, port, true⟩) hi fun j b _ hb hlb hjk =>
      SlotTable.entry_eq_none_iff.mp hentry j b hb hlb hjk

/-- What the knock of a tracked address does to its entry. -/
theorem exists_entryMove {c : KnockClient} (hcfg : cfg.SequenceValid) (ht : TableInv cfg t)
    (hc : clientEntry t ip = some c) (now nowAlloc : ℤ) (port : UInt16) :
    ∃ c', EntryMove cfg now c port c' (knockerProcess cfg now nowAlloc t ip port).result
        (knockerProcess cfg now nowAlloc t ip port).accepted ∧
      clientEntry (knockerProcess cfg now nowAlloc t ip port).clients ip =
        if c'.active then some c' else none := by
  rcases clientEntry_of_tableMove ht (knockerProcess_move hcfg ht now nowAlloc ip port) with
    ⟨d, c', hd, hmove, hafter⟩ | ⟨hnone, -⟩ | ⟨hnone, -⟩
  · rw [hc] at hd
    cases hd
    exact ⟨c', hmove, hafter⟩
  · rw [hc] at hnone
    cases hnone
  · rw [hc] at hnone
    cases hnone

/-- Another address keeps its entry through a knock, unless the entry is evicted,
and then it was past the window at the allocator's clock reading. -/
theorem clientEntry_of_tableMove_of_ne (ht : TableInv cfg t) (hne : ip' ≠ ip)
    (h : TableMove cfg now nowAlloc t ip port t' r a) :
    clientEntry t' ip' = clientEntry t ip' ∨
      ∃ c, clientEntry t ip' = some c ∧ cfg.knockWindow < nowAlloc - c.lastKnock ∧
        clientEntry t' ip' = none := by
  cases h with
  | ignored => exact Or.inl rfl
  | turnedAway => exact Or.inl rfl
  | @tracked i c c' _ _ hslot hentry hmove =>
    obtain ⟨-, hip⟩ := SlotTable.entry_live hentry
    left
    apply SlotTable.entry_set_of_ne
    · intro b hb _
      rw [hslot] at hb
      cases hb
      exact fun hk => hne (hk.symm.trans hip)
    · exact fun _ hk => hne (hk.symm.trans (hmove.ip_eq.trans hip))
  | @admitted i old hentry hport hslot hold =>
    by_cases hvictim : old.active = true ∧ old.ip = ip'
    · -- the slot claimed is the one `ip'` was using
      obtain ⟨hlive, rfl⟩ := hvictim
      right
      have hfound : clientEntry t old.ip = some old :=
        (SlotTable.entry_eq_some_iff ht.distinct).mpr ⟨i, hslot, hlive, rfl⟩
      refine ⟨old, hfound, ?_, ?_⟩
      · rcases hold with hdead | hold
        · rw [hdead] at hlive
          cases hlive
        · exact hold
      · refine SlotTable.entry_eq_none_iff.mpr fun j b hb hlb => ?_
        rw [List.getElem?_set] at hb
        split at hb
        · split at hb
          · cases hb
            exact hne.symm
          · cases hb
        · rename_i hij
          exact fun hk => hij (ht.distinct hslot hb hlive hlb hk.symm)
    · -- the slot was free, or somebody else's
      left
      apply SlotTable.entry_set_of_ne
      · intro b hb hlb hk
        rw [hslot] at hb
        cases hb
        exact hvictim ⟨hlb, hk⟩
      · exact fun _ hk => hne hk.symm

end Moves

/-! ### Sweeps and calls -/

section Calls

variable {cfg : Config} {t : ClientTable} {ip : UInt32}

theorem sweep_of_live {now : ℤ} (c : KnockClient) (h : (c.sweep cfg now).active = true) :
    c.sweep cfg now = c := by
  unfold KnockClient.sweep at h ⊢
  split
  · rename_i hstale
    rw [if_pos hstale] at h
    simp at h
  · rfl

/-- Releasing entries, whichever they are, keeps the invariant. -/
theorem TableInv.map (ht : TableInv cfg t) {f : KnockClient → KnockClient}
    (hf : ∀ c, (f c).active = true → f c = c) : TableInv cfg (t.map f) := by
  refine ⟨by rw [List.length_map, ht.length_eq], ht.distinct.map hf, ?_⟩
  intro c hc hactive
  obtain ⟨d, hd, rfl⟩ := List.mem_map.mp hc
  have hsame := hf d hactive
  rw [hsame] at hactive ⊢
  exact ht.entries d hd hactive

theorem tableInv_knockerCleanupStale (ht : TableInv cfg t) (now : ℤ) :
    TableInv cfg (knockerCleanupStale cfg now t).1 :=
  ht.map sweep_of_live

/-- The sweep drops exactly the entries past the window. -/
theorem clientEntry_knockerCleanupStale (ht : TableInv cfg t) (ip : UInt32) (now : ℤ) :
    clientEntry (knockerCleanupStale cfg now t).1 ip =
      (clientEntry t ip).filter fun c => decide (now - c.lastKnock ≤ cfg.knockWindow) := by
  have hmap : clientEntry (knockerCleanupStale cfg now t).1 ip =
      (clientEntry t ip).filter fun c => (c.sweep cfg now).active :=
    SlotTable.entry_map ht.distinct sweep_of_live
  rw [hmap]
  cases hentry : clientEntry t ip with
  | none => rfl
  | some c =>
    have hlive := (SlotTable.entry_live hentry).1
    by_cases hstale : now - c.lastKnock ≤ cfg.knockWindow
    · simp [Option.filter, KnockClient.sweep, KnockClient.stale, hlive, hstale, not_lt.mpr hstale]
    · simp [Option.filter, KnockClient.sweep, KnockClient.stale, hlive, hstale, not_le.mp hstale]

theorem tableInv_knockerInit (cfg : Config) : TableInv cfg (knockerInit cfg) := by
  have hdead : ∀ c ∈ knockerInit cfg, c.active = false := by
    intro c hc
    rw [List.eq_of_mem_replicate hc]
    rfl
  refine ⟨by simp [knockerInit], ?_, fun c hc hactive => ?_⟩
  · intro i j c d hc _ hlive
    rw [hdead c (List.mem_of_getElem? hc)] at hlive
    cases hlive
  · rw [hdead c hc] at hactive
    cases hactive

theorem clientEntry_knockerInit (cfg : Config) : clientEntry (knockerInit cfg) ip = none := by
  refine SlotTable.entry_eq_none_iff.mpr fun i c hc hlive => ?_
  rw [List.eq_of_mem_replicate (List.mem_of_getElem? hc)] at hlive
  cases hlive

/-- Every call keeps the table invariant. -/
theorem tableInv_knockerStep (hcfg : cfg.SequenceValid) (ht : TableInv cfg t)
    (call : KnockerCall) : TableInv cfg (knockerStep cfg t call).1 := by
  cases call with
  | process now nowAlloc src port =>
    exact tableInv_of_tableMove hcfg ht (knockerProcess_move hcfg ht now nowAlloc src port)
  | cleanup now => exact tableInv_knockerCleanupStale ht now

/-- The split that every run of one address is read along: its own knocks, and the
calls of everyone else. -/
theorem KnockerCall.isFrom_cases (call : KnockerCall) (ip : UInt32) :
    (∃ now nowAlloc port, call = .process now nowAlloc ip port) ∨ call.isFrom ip = false := by
  cases call with
  | cleanup now => exact .inr rfl
  | process now nowAlloc src port =>
    by_cases hsrc : src = ip
    · exact .inl ⟨now, nowAlloc, port, by rw [hsrc]⟩
    · exact .inr (by simpa [KnockerCall.isFrom] using hsrc)

/-- A call that is not a knock of `ip` leaves its entry as it is, or drops it, and
then one of the call's clock readings puts the entry past the window. -/
theorem clientEntry_step_of_not_isFrom (hcfg : cfg.SequenceValid) (ht : TableInv cfg t)
    {call : KnockerCall} (hcall : call.isFrom ip = false) :
    clientEntry (knockerStep cfg t call).1 ip = clientEntry t ip ∨
      ∃ c, clientEntry t ip = some c ∧ clientEntry (knockerStep cfg t call).1 ip = none ∧
        ∃ now ∈ call.readings, cfg.knockWindow < now - c.lastKnock := by
  cases call with
  | process now nowAlloc src port =>
    have hne : ip ≠ src := by
      simp only [KnockerCall.isFrom, beq_eq_false_iff_ne, ne_eq] at hcall
      exact fun h => hcall h.symm
    rcases clientEntry_of_tableMove_of_ne ht hne
        (knockerProcess_move hcfg ht now nowAlloc src port) with
      hsame | ⟨c, hc, hold, hgone⟩
    · exact Or.inl hsame
    · exact Or.inr ⟨c, hc, hgone, nowAlloc, by simp [KnockerCall.readings], hold⟩
  | cleanup now =>
    have hsweep := clientEntry_knockerCleanupStale ht ip now
    cases hentry : clientEntry t ip with
    | none =>
      left
      rw [hentry] at hsweep
      exact hsweep
    | some c =>
      rw [hentry] at hsweep
      by_cases hfresh : now - c.lastKnock ≤ cfg.knockWindow
      · left
        simpa [Option.filter, hfresh, knockerStep] using hsweep
      · right
        refine ⟨c, rfl, ?_, now, by simp [KnockerCall.readings], not_le.mp hfresh⟩
        simpa [Option.filter, hfresh, knockerStep] using hsweep

/-- A run goes on from the table its first part leaves. -/
theorem knockerRunFrom_append (cfg : Config) (t : ClientTable) (calls later : List KnockerCall) :
    knockerRunFrom cfg t (calls ++ later) =
      ((knockerRunFrom cfg (knockerRunFrom cfg t calls).1 later).1,
        (knockerRunFrom cfg t calls).2 ++
          (knockerRunFrom cfg (knockerRunFrom cfg t calls).1 later).2) := by
  induction calls generalizing t with
  | nil => rfl
  | cons call calls ih => simp [knockerRunFrom, ih]

theorem tableInv_knockerRunFrom (hcfg : cfg.SequenceValid) (ht : TableInv cfg t)
    (calls : List KnockerCall) : TableInv cfg (knockerRunFrom cfg t calls).1 := by
  induction calls generalizing t with
  | nil => exact ht
  | cons call calls ih => exact ih (tableInv_knockerStep hcfg ht call)

/-- The table invariant holds in every state reachable from `knocker_init`. -/
theorem tableInv_knockerRun (hcfg : cfg.SequenceValid) (calls : List KnockerCall) :
    TableInv cfg (knockerRun cfg calls).1 :=
  tableInv_knockerRunFrom hcfg (tableInv_knockerInit cfg) calls

end Calls

end Knockd
