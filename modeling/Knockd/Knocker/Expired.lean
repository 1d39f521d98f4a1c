import Knockd.Knocker.Progress

/-!
# What an expired entry is worth

The comment on eviction calls an entry past the window worthless. Read through its
live entries alone, the table answers every knock the same whether an expired entry
is still in its slot or gone, provided the duplicate filter never looks further back
than the window: `liveAnswer` is that reading, and `AgreeAt` relates two tables it
cannot tell apart. With `KNOCK_WINDOW` below the filter's five seconds an entry can be
expired and still swallow a repeat of its port, and then dropping it shows.

## Main definitions

* `liveEntry` — the entry of an address, if it is within the window
* `liveAnswer` — what a knock does, told from the live entry alone
* `AgreeAt` — two tables with the same live entries
* `dropExpired`, `ExpiredWorthless` — dropping expired entries, and not being seen to

## Main results

* `knockerProcess_eq_liveAnswer` — the source answers so, for a wide enough window
* `AgreeAt.process` — one knock on two tables that agree
* `AgreeAt.runFrom_knocks` — a whole run, with its sweeps or without
* `expiredWorthless_iff` — the windows for which expired entries are worthless
-/

namespace Knockd

/-- The entry of an address, if it is still within the window at this clock reading. -/
def liveEntry (cfg : Config) (now : ℤ) (t : ClientTable) (ip : UInt32) : Option KnockClient :=
  (clientEntry t ip).filter fun c => decide (now - c.lastKnock ≤ cfg.knockWindow)

/-- Is this slot in use by a sequence within the window? -/
def KnockClient.live (cfg : Config) (now : ℤ) (c : KnockClient) : Bool :=
  c.active && decide (now - c.lastKnock ≤ cfg.knockWindow)

/-- Does every slot hold an entry within the window? -/
def tableFull (cfg : Config) (now : ℤ) (t : ClientTable) : Bool :=
  t.all (KnockClient.live cfg now)

/-- What a knock leaves of its address's entry, its result and the step it was accepted
as, told from the live entry and from whether the table has room. -/
def liveAnswer (cfg : Config) (now : ℤ) (ip : UInt32) (port : UInt16) (full : Bool) :
    Option KnockClient → Option KnockClient × KnockResult × Option ℕ
  | some c =>
    let out := processEntry cfg now c ip port
    (if out.client.active then some out.client else none, out.result, out.accepted)
  | none =>
    if cfg.knockSequence[0]? = some port ∧ full = false then
      (some ⟨ip, 1, now, port, true⟩, .inProgress, some 1)
    else (none, .reset, none)

section Live

variable {cfg : Config} {m now nowAlloc : ℤ} {s t : ClientTable} {ip ip' : UInt32}
  {c : KnockClient} {port : UInt16}

theorem liveEntry_eq_some_iff :
    liveEntry cfg now t ip = some c ↔
      clientEntry t ip = some c ∧ now - c.lastKnock ≤ cfg.knockWindow := by
  rw [liveEntry, Option.filter_eq_some_iff, decide_eq_true_eq]

theorem liveEntry_of_expired (hc : clientEntry t ip = some c)
    (hexp : cfg.knockWindow < now - c.lastKnock) : liveEntry cfg now t ip = none := by
  have hgone : decide (now - c.lastKnock ≤ cfg.knockWindow) = false :=
    decide_eq_false (not_le.mpr hexp)
  rw [liveEntry, hc, Option.filter_some, hgone]
  rfl

/-- Later readings see what is left of an earlier view. -/
theorem liveEntry_of_le (h : m ≤ now) :
    liveEntry cfg now t ip =
      (liveEntry cfg m t ip).filter fun c => decide (now - c.lastKnock ≤ cfg.knockWindow) := by
  ext c
  rw [Option.filter_eq_some_iff, liveEntry_eq_some_iff, liveEntry_eq_some_iff,
    decide_eq_true_eq]
  constructor
  · rintro ⟨hc, hlive⟩
    exact ⟨⟨hc, by omega⟩, hlive⟩
  · rintro ⟨⟨hc, -⟩, hlive⟩
    exact ⟨hc, hlive⟩

theorem tableFull_iff :
    tableFull cfg now t = true ↔
      ∀ c ∈ t, c.active = true ∧ now - c.lastKnock ≤ cfg.knockWindow := by
  simp [tableFull, KnockClient.live]

theorem TableInv.distinct_live (ht : TableInv cfg t) :
    SlotTable.Distinct (KnockClient.live cfg now) KnockClient.ip t := by
  intro i j a b ha hb hla hlb
  exact ht.distinct ha hb (Bool.and_eq_true_iff.mp hla).1 (Bool.and_eq_true_iff.mp hlb).1

/-- The addresses of live slots are those with a live entry. -/
theorem mem_liveKeys_iff (ht : TableInv cfg t) :
    ip ∈ SlotTable.liveKeys (KnockClient.live cfg now) KnockClient.ip t ↔
      ∃ c, liveEntry cfg now t ip = some c := by
  simp only [SlotTable.mem_liveKeys, liveEntry_eq_some_iff, clientEntry, KnockClient.live,
    SlotTable.entry_eq_some_iff ht.distinct, Bool.and_eq_true, decide_eq_true_eq]
  constructor
  · rintro ⟨c, hc, ⟨hactive, hlive⟩, hip⟩
    obtain ⟨i, hi⟩ := List.mem_iff_getElem?.mp hc
    exact ⟨c, ⟨i, hi, hactive, hip⟩, hlive⟩
  · rintro ⟨c, ⟨i, hi, hactive, hip⟩, hlive⟩
    exact ⟨c, List.mem_of_getElem? hi, ⟨hactive, hlive⟩, hip⟩

/-- An address whose entry has expired is itself a reason for the table to have room. -/
theorem tableFull_of_expired (hc : clientEntry t ip = some c)
    (hexp : cfg.knockWindow < now - c.lastKnock) (hle : now ≤ nowAlloc) :
    tableFull cfg nowAlloc t = false := by
  rw [Bool.eq_false_iff, ne_eq, tableFull_iff]
  intro hfull
  obtain ⟨i, hi⟩ := SlotTable.entry_mem hc
  have := (hfull c (List.mem_of_getElem? hi)).2
  omega

/-- Past a window no shorter than the duplicate filter's, an entry is answered as if
it were not there and the table had room. -/
theorem processEntry_expired (hcfg : cfg.SequenceValid)
    (hwide : knockDedupWindow ≤ cfg.knockWindow) (hc : EntryInv cfg c)
    (hactive : c.active = true) (hip : c.ip = ip) (hexp : cfg.knockWindow < now - c.lastKnock) :
    liveAnswer cfg now ip port false (some c) = liveAnswer cfg now ip port false none := by
  have hmove : EntryMove cfg now c port (processEntry cfg now c ip port).client
      (processEntry cfg now c ip port).result (processEntry cfg now c ip port).accepted :=
    processEntry_move hcfg hc
  simp only [liveAnswer]
  generalize processEntry cfg now c ip port = out at hmove ⊢
  obtain ⟨c', r, a, log⟩ := out
  simp only at hmove ⊢
  cases hmove with
  | retransmit _ htime => omega
  | complete htime => omega
  | advance htime => omega
  | restart hport =>
    have hentry : c.accept 1 now port = ⟨ip, 1, now, port, true⟩ := by
      simp only [KnockClient.accept, hip, hactive]
    rw [hentry]
    simp [hport]
  | discard _ hport _ _ hdead => simp [hdead, hport]

/-- A tracked address is answered by `processEntry` on its slot. -/
theorem knockerProcess_of_tracked (hcfg : cfg.SequenceValid) (ht : TableInv cfg t)
    (hc : clientEntry t ip = some c) :
    (clientEntry (knockerProcess cfg now nowAlloc t ip port).clients ip,
        (knockerProcess cfg now nowAlloc t ip port).result,
        (knockerProcess cfg now nowAlloc t ip port).accepted) =
      liveAnswer cfg now ip port (tableFull cfg nowAlloc t) (some c) := by
  obtain ⟨i, hslot, hproc⟩ := knockerProcess_eq_processSlot hc now nowAlloc port
  obtain ⟨hi, -⟩ := List.getElem?_eq_some_iff.mp hslot
  obtain ⟨hlive, hip⟩ := SlotTable.entry_live hc
  have hmove : EntryMove cfg now c port (processEntry cfg now c ip port).client
      (processEntry cfg now c ip port).result (processEntry cfg now c ip port).accepted :=
    processEntry_move hcfg (ht.entryInv hc)
  have hkey : (processEntry cfg now c ip port).client.ip = ip := hmove.ip_eq.trans hip
  have hafter : clientEntry (t.set i (processEntry cfg now c ip port).client)
      (processEntry cfg now c ip port).client.ip =
        if (processEntry cfg now c ip port).client.active
        then some (processEntry cfg now c ip port).client else none :=
    SlotTable.entry_set_self hi fun j b hji hb hlb hjk =>
      hji (ht.distinct hb hslot hlb hlive (hjk.trans hmove.ip_eq))
  rw [hkey] at hafter
  rw [hproc]
  simp only [processSlot, liveAnswer, hafter]

/-- `knocker_process` answers from the live entry alone. -/
theorem knockerProcess_eq_liveAnswer (hcfg : cfg.SequenceValid)
    (hwide : knockDedupWindow ≤ cfg.knockWindow) (ht : TableInv cfg t) (hle : now ≤ nowAlloc)
    (ip : UInt32) (port : UInt16) :
    (clientEntry (knockerProcess cfg now nowAlloc t ip port).clients ip,
        (knockerProcess cfg now nowAlloc t ip port).result,
        (knockerProcess cfg now nowAlloc t ip port).accepted) =
      liveAnswer cfg now ip port (tableFull cfg nowAlloc t) (liveEntry cfg now t ip) := by
  cases hc : clientEntry t ip with
  | some c =>
    -- a tracked address: the entry decides, live or not
    obtain ⟨hactive, hip⟩ := SlotTable.entry_live hc
    have hanswer : (clientEntry (knockerProcess cfg now nowAlloc t ip port).clients ip,
        (knockerProcess cfg now nowAlloc t ip port).result,
        (knockerProcess cfg now nowAlloc t ip port).accepted) =
          liveAnswer cfg now ip port (tableFull cfg nowAlloc t) (some c) :=
      knockerProcess_of_tracked hcfg ht hc
    rw [hanswer]
    by_cases hlive : now - c.lastKnock ≤ cfg.knockWindow
    · rw [liveEntry_eq_some_iff.mpr ⟨hc, hlive⟩]
    · have hexp := not_le.mp hlive
      rw [liveEntry_of_expired hc hexp, tableFull_of_expired hc hexp hle]
      exact processEntry_expired hcfg hwide (ht.entryInv hc) hactive hip hexp
  | none =>
    have hnone : liveEntry cfg now t ip = none := by simp [liveEntry, hc]
    rw [hnone]
    have hmove := knockerProcess_move hcfg ht now nowAlloc ip port
    have hafter := clientEntry_of_tableMove ht hmove
    generalize knockerProcess cfg now nowAlloc t ip port = out at hmove hafter ⊢
    obtain ⟨t', r, a, log⟩ := out
    simp only [hc] at hmove hafter ⊢
    cases hmove with
    | tracked _ hentry =>
      rw [hc] at hentry
      cases hentry
    | ignored _ hport => simp [liveAnswer, hport, hc]
    | turnedAway _ hport hfull => simp [liveAnswer, tableFull_iff.mpr hfull, hc]
    | @admitted i old _ hport hslot hold =>
      have hroom : tableFull cfg nowAlloc t = false := by
        rw [Bool.eq_false_iff, ne_eq, tableFull_iff]
        intro hfull
        obtain ⟨hlive, hyoung⟩ := hfull old (List.mem_of_getElem? hslot)
        rcases hold with hdead | hold
        · rw [hdead] at hlive
          cases hlive
        · omega
      have hnew : clientEntry (t.set i ⟨ip, 1, now, port, true⟩) ip =
          some ⟨ip, 1, now, port, true⟩ := by simpa [hport] using hafter
      simp [liveAnswer, hport, hroom, hnew]

/-- The other addresses keep their live entries through a knock. -/
theorem liveEntry_of_tableMove_of_ne {t' : ClientTable} {r : KnockResult} {a : Option ℕ}
    (ht : TableInv cfg t) (hne : ip' ≠ ip) (h : TableMove cfg now nowAlloc t ip port t' r a) :
    liveEntry cfg nowAlloc t' ip' = liveEntry cfg nowAlloc t ip' := by
  rcases clientEntry_of_tableMove_of_ne ht hne h with hsame | ⟨c, hc, hold, hgone⟩
  · rw [liveEntry, liveEntry, hsame]
  · rw [liveEntry_of_expired hc hold, liveEntry, hgone]
    rfl

/-- A sweep takes nothing a later reading could still see. -/
theorem liveEntry_knockerCleanupStale (ht : TableInv cfg t) (ip : UInt32) :
    liveEntry cfg now (knockerCleanupStale cfg now t).1 ip = liveEntry cfg now t ip := by
  rw [liveEntry, clientEntry_knockerCleanupStale ht, Option.filter_filter]
  simp [liveEntry]

end Live

/-! ### Tables that agree -/

/-- Two tables that hold the same entries, as far as a reading from `m` on can see. -/
structure AgreeAt (cfg : Config) (m : ℤ) (s t : ClientTable) : Prop where
  left_inv : TableInv cfg s
  right_inv : TableInv cfg t
  live_eq : ∀ ip, liveEntry cfg m s ip = liveEntry cfg m t ip

namespace AgreeAt

variable {cfg : Config} {m now nowAlloc : ℤ} {s t : ClientTable}

theorem refl (ht : TableInv cfg t) (m : ℤ) : AgreeAt cfg m t t :=
  ⟨ht, ht, fun _ => rfl⟩

theorem mono (h : AgreeAt cfg m s t) (hle : m ≤ now) : AgreeAt cfg now s t := by
  refine ⟨h.left_inv, h.right_inv, fun ip => ?_⟩
  rw [liveEntry_of_le hle, liveEntry_of_le hle, h.live_eq]

/-- The slots differ, but not the number of live entries, so both tables are full or
neither is. -/
theorem tableFull_eq (h : AgreeAt cfg m s t) : tableFull cfg m s = tableFull cfg m t := by
  have hcount := SlotTable.countP_live_eq h.left_inv.distinct_live h.right_inv.distinct_live
    fun ip => by rw [mem_liveKeys_iff h.left_inv, mem_liveKeys_iff h.right_inv, h.live_eq]
  have hlen : s.length = t.length := h.left_inv.length_eq.trans h.right_inv.length_eq.symm
  rw [Bool.eq_iff_iff, tableFull, tableFull, List.all_eq_true, List.all_eq_true,
    ← List.countP_eq_length, ← List.countP_eq_length, hcount, hlen]

/-- Moves of one address that leave it the same entry leave the tables agreeing. -/
theorem of_moves {s' t' : ClientTable} {ip : UInt32} {port : UInt16} {r r' : KnockResult}
    {a a' : Option ℕ} (h : AgreeAt cfg nowAlloc s t) (hcfg : cfg.SequenceValid)
    (hs : TableMove cfg now nowAlloc s ip port s' r a)
    (ht : TableMove cfg now nowAlloc t ip port t' r' a')
    (hentry : clientEntry s' ip = clientEntry t' ip) : AgreeAt cfg nowAlloc s' t' := by
  refine ⟨tableInv_of_tableMove hcfg h.left_inv hs, tableInv_of_tableMove hcfg h.right_inv ht,
    fun ip' => ?_⟩
  by_cases hip : ip' = ip
  · rw [hip, liveEntry, liveEntry, hentry]
  · rw [liveEntry_of_tableMove_of_ne h.left_inv hip hs,
      liveEntry_of_tableMove_of_ne h.right_inv hip ht, h.live_eq]

/-- **One knock on two tables that agree** is answered alike and leaves them agreeing. -/
theorem process (h : AgreeAt cfg m s t) (hcfg : cfg.SequenceValid)
    (hwide : knockDedupWindow ≤ cfg.knockWindow) (hle : m ≤ now) (hle' : now ≤ nowAlloc)
    (ip : UInt32) (port : UInt16) :
    (knockerProcess cfg now nowAlloc s ip port).record now ip port =
        (knockerProcess cfg now nowAlloc t ip port).record now ip port ∧
      AgreeAt cfg nowAlloc (knockerProcess cfg now nowAlloc s ip port).clients
        (knockerProcess cfg now nowAlloc t ip port).clients := by
  have hnow := h.mono hle
  have halloc := hnow.mono hle'
  have hs := knockerProcess_eq_liveAnswer hcfg hwide h.left_inv hle' ip port
  have ht := knockerProcess_eq_liveAnswer hcfg hwide h.right_inv hle' ip port
  rw [hnow.live_eq, halloc.tableFull_eq, ← ht, Prod.mk.injEq, Prod.mk.injEq] at hs
  obtain ⟨hentry, hresult, haccepted⟩ := hs
  have hrecord : (knockerProcess cfg now nowAlloc s ip port).record now ip port =
      (knockerProcess cfg now nowAlloc t ip port).record now ip port := by
    rw [Processed.record, Processed.record, hresult, haccepted]
  exact ⟨hrecord, halloc.of_moves hcfg (knockerProcess_move hcfg h.left_inv ..)
    (knockerProcess_move hcfg h.right_inv ..) hentry⟩

/-- Sweeping one of the two tables is not seen. -/
theorem cleanup_left (h : AgreeAt cfg m s t) (hle : m ≤ now) :
    AgreeAt cfg now (knockerCleanupStale cfg now s).1 t := by
  refine ⟨tableInv_knockerCleanupStale h.left_inv now, h.right_inv, fun ip => ?_⟩
  rw [liveEntry_knockerCleanupStale h.left_inv, (h.mono hle).live_eq]

end AgreeAt

/-! ### Whole runs -/

/-- Is this call a knock? -/
def KnockerCall.isKnock : KnockerCall → Bool
  | .process .. => true
  | .cleanup _ => false

/-- The answers of a run, in call order. -/
def answers (cfg : Config) (t : ClientTable) (calls : List KnockerCall) : List KnockResult :=
  (knockerRunFrom cfg t calls).2.map KnockRecord.result

/-- A slot that `drop` picks is deactivated, if its entry is past the window. -/
def KnockClient.dropped (cfg : Config) (now : ℤ) (drop : KnockClient → Bool) (c : KnockClient) :
    KnockClient :=
  if drop c && decide (cfg.knockWindow < now - c.lastKnock) then { c with active := false } else c

/-- The table without the expired entries that `drop` picks. Active entries differ in
their address, so `drop` can pick any subset of them. -/
def dropExpired (cfg : Config) (now : ℤ) (drop : KnockClient → Bool) (t : ClientTable) :
    ClientTable :=
  t.map (KnockClient.dropped cfg now drop)

section Runs

variable {cfg : Config} {m now nowAlloc : ℤ} {s t : ClientTable} {calls : List KnockerCall}

/-- Tables that agree answer every later run alike, with its sweeps or without them. -/
theorem AgreeAt.runFrom_knocks (hcfg : cfg.SequenceValid)
    (hwide : knockDedupWindow ≤ cfg.knockWindow) (h : AgreeAt cfg m s t)
    (hmono : Nondecreasing calls) (hlater : ∀ r ∈ calls.flatMap KnockerCall.readings, m ≤ r) :
    (knockerRunFrom cfg s calls).2 =
      (knockerRunFrom cfg t (calls.filter KnockerCall.isKnock)).2 := by
  induction calls generalizing m s t with
  | nil => rfl
  | cons call calls ih =>
    cases call with
    | process now nowAlloc ip port =>
      have hle : m ≤ now := hlater now (by simp [KnockerCall.readings])
      have hle' : now ≤ nowAlloc := by
        have hhead : [now, nowAlloc].Pairwise (· ≤ ·) := by
          simp only [Nondecreasing, List.flatMap_cons, List.pairwise_append] at hmono
          exact hmono.1
        simpa using hhead
      obtain ⟨hrecord, hagree⟩ := h.process hcfg hwide hle hle' ip port
      have hrest := ih hagree hmono.tail fun r hr =>
        hmono.le_of_mem (by simp [KnockerCall.readings]) hr
      simp only [List.filter_cons, KnockerCall.isKnock, if_true, knockerRunFrom, knockerStep,
        hrecord, hrest]
    | cleanup now =>
      have hle : m ≤ now := hlater now (by simp [KnockerCall.readings])
      have hrest := ih (h.cleanup_left hle) hmono.tail fun r hr =>
        hmono.le_of_mem (by simp [KnockerCall.readings]) hr
      simpa [KnockerCall.isKnock, knockerRunFrom, knockerStep] using hrest

/-- Tables that agree answer every later run alike. -/
theorem AgreeAt.answers_eq (hcfg : cfg.SequenceValid)
    (hwide : knockDedupWindow ≤ cfg.knockWindow) (h : AgreeAt cfg m s t)
    (hmono : Nondecreasing calls) (hlater : ∀ r ∈ calls.flatMap KnockerCall.readings, m ≤ r) :
    answers cfg s calls = answers cfg t calls := by
  rw [answers, answers, h.runFrom_knocks hcfg hwide hmono hlater,
    (AgreeAt.refl h.right_inv m).runFrom_knocks hcfg hwide hmono hlater]

theorem dropped_of_active {drop : KnockClient → Bool} (c : KnockClient)
    (h : (c.dropped cfg now drop).active = true) : c.dropped cfg now drop = c := by
  unfold KnockClient.dropped at h ⊢
  split
  · rename_i hpicked
    rw [if_pos hpicked] at h
    simp at h
  · rfl

theorem tableInv_dropExpired (ht : TableInv cfg t) (now : ℤ) (drop : KnockClient → Bool) :
    TableInv cfg (dropExpired cfg now drop t) :=
  ht.map dropped_of_active

theorem clientEntry_dropExpired (ht : TableInv cfg t) (now : ℤ) (drop : KnockClient → Bool)
    (ip : UInt32) :
    clientEntry (dropExpired cfg now drop t) ip =
      (clientEntry t ip).filter fun c =>
        !(drop c && decide (cfg.knockWindow < now - c.lastKnock)) := by
  have hmap : clientEntry (dropExpired cfg now drop t) ip =
      (clientEntry t ip).filter fun c => (c.dropped cfg now drop).active :=
    SlotTable.entry_map ht.distinct dropped_of_active
  rw [hmap]
  cases hc : clientEntry t ip with
  | none => rfl
  | some c =>
    have hactive := (SlotTable.entry_live hc).1
    cases hpicked : drop c && decide (cfg.knockWindow < now - c.lastKnock)
    · simp [Option.filter, KnockClient.dropped, hpicked, hactive]
    · simp [Option.filter, KnockClient.dropped, hpicked]

theorem agreeAt_dropExpired (ht : TableInv cfg t) (now : ℤ) (drop : KnockClient → Bool) :
    AgreeAt cfg now (dropExpired cfg now drop t) t := by
  refine ⟨tableInv_dropExpired ht now drop, ht, fun ip => ?_⟩
  ext c
  rw [liveEntry, clientEntry_dropExpired ht, Option.filter_eq_some_iff,
    Option.filter_eq_some_iff, liveEntry_eq_some_iff, decide_eq_true_eq]
  constructor
  · rintro ⟨⟨hc, -⟩, hlive⟩
    exact ⟨hc, hlive⟩
  · rintro ⟨hc, hlive⟩
    exact ⟨⟨hc, by simp [hlive]⟩, hlive⟩

/-- The clock of a run has a first reading. -/
theorem Nondecreasing.exists_le (h : Nondecreasing calls) :
    ∃ m, ∀ r ∈ calls.flatMap KnockerCall.readings, m ≤ r := by
  rw [Nondecreasing] at h
  cases hreadings : calls.flatMap KnockerCall.readings with
  | nil => exact ⟨0, by simp⟩
  | cons m rest =>
    rw [hreadings, List.pairwise_cons] at h
    exact ⟨m, List.forall_mem_cons.mpr ⟨le_rfl, h.1⟩⟩

/-- The table after the newcomer `ip` is written into the given slot. -/
def admitAt (cfg : Config) (now : ℤ) (t : ClientTable) (i : ℕ) (ip : UInt32) (port : UInt16) :
    ClientTable :=
  (processSlot cfg now (t.set i .zeroed) i (freshClient ip) ip port).clients

theorem admitAt_move (hcfg : cfg.SequenceValid) (now : ℤ) {i : ℕ} {ip : UInt32} {port : UInt16}
    {old : KnockClient} (hentry : clientEntry t ip = none)
    (hport : cfg.knockSequence[0]? = some port) (hslot : t[i]? = some old)
    (hold : cfg.knockWindow < nowAlloc - old.lastKnock) :
    TableMove cfg now nowAlloc t ip port (admitAt cfg now t i ip port) .inProgress (some 1) := by
  obtain ⟨hclient, -⟩ := processEntry_fresh hcfg now ip hport
  rw [admitAt, processSlot, hclient, List.set_set]
  exact .admitted hentry hport hslot (Or.inr hold)

/-- A newcomer that is answered in progress has its entry. -/
theorem clientEntry_of_admitted {t' : ClientTable} {ip : UInt32} {port : UInt16} {a : Option ℕ}
    (ht : TableInv cfg t) (hnone : clientEntry t ip = none)
    (hmove : TableMove cfg now nowAlloc t ip port t' .inProgress a) :
    clientEntry t' ip = some ⟨ip, 1, now, port, true⟩ := by
  rcases clientEntry_of_tableMove ht hmove with
    ⟨c, -, hc, -⟩ | ⟨-, -, hreset, -⟩ | ⟨-, -, hnew, -⟩
  · rw [hnone] at hc
    cases hc
  · cases hreset
  · exact hnew

end Runs

/-- **Expired entries are worthless** under this configuration: in every reachable table
dropping any of them changes no later answer, so neither does when the sweep runs or
which of them a newcomer's entry is written over. -/
structure ExpiredWorthless (cfg : Config) : Prop where
  dropped : ∀ (before : List KnockerCall) (now : ℤ) (drop : KnockClient → Bool)
    (later : List KnockerCall), Nondecreasing later →
    (∀ r ∈ later.flatMap KnockerCall.readings, now ≤ r) →
    answers cfg (dropExpired cfg now drop (knockerRun cfg before).1) later =
      answers cfg (knockerRun cfg before).1 later
  swept : ∀ before calls calls' : List KnockerCall, Nondecreasing calls → Nondecreasing calls' →
    calls.filter KnockerCall.isKnock = calls'.filter KnockerCall.isKnock →
    answers cfg (knockerRun cfg before).1 calls = answers cfg (knockerRun cfg before).1 calls'
  reused : ∀ (before : List KnockerCall) (now nowAlloc : ℤ) (ip : UInt32) (port : UInt16)
    (i j : ℕ) (c d : KnockClient) (later : List KnockerCall),
    clientEntry (knockerRun cfg before).1 ip = none → cfg.knockSequence[0]? = some port →
    (knockerRun cfg before).1[i]? = some c → cfg.knockWindow < nowAlloc - c.lastKnock →
    (knockerRun cfg before).1[j]? = some d → cfg.knockWindow < nowAlloc - d.lastKnock →
    Nondecreasing later → (∀ r ∈ later.flatMap KnockerCall.readings, nowAlloc ≤ r) →
    answers cfg (admitAt cfg now (knockerRun cfg before).1 i ip port) later =
      answers cfg (admitAt cfg now (knockerRun cfg before).1 j ip port) later

theorem expiredWorthless_of_wide {cfg : Config} (hcfg : cfg.SequenceValid)
    (hwide : knockDedupWindow ≤ cfg.knockWindow) : ExpiredWorthless cfg where
  dropped before now drop later hmono hlater :=
    (agreeAt_dropExpired (tableInv_knockerRun hcfg before) now drop).answers_eq hcfg hwide hmono
      hlater
  swept before calls calls' hmono hmono' hknocks := by
    have ht := tableInv_knockerRun hcfg before
    obtain ⟨m, hm⟩ := hmono.exists_le
    obtain ⟨m', hm'⟩ := hmono'.exists_le
    rw [answers, answers, (AgreeAt.refl ht m).runFrom_knocks hcfg hwide hmono hm,
      (AgreeAt.refl ht m').runFrom_knocks hcfg hwide hmono' hm', hknocks]
  reused before now nowAlloc ip port i j c d later hnone hport hi hc hj hd hmono hlater := by
    have ht := tableInv_knockerRun hcfg before
    have hmoveI := admitAt_move hcfg now hnone hport hi hc
    have hmoveJ := admitAt_move hcfg now hnone hport hj hd
    have hagree := (AgreeAt.refl ht nowAlloc).of_moves hcfg hmoveI hmoveJ (by
      rw [clientEntry_of_admitted ht hnone hmoveI, clientEntry_of_admitted ht hnone hmoveJ])
    exact hagree.answers_eq hcfg hwide hmono hlater

/-! ### Windows shorter than the duplicate filter's -/

section Narrow

variable {cfg : Config} {t : ClientTable} {ip : UInt32} {p q port : UInt16} {now : ℤ}
  {c c' : KnockClient} {r : KnockResult} {a : Option ℕ}

/-- The filter swallows a repeat of the first port before anyone looks at the window. -/
theorem EntryMove.swallowed (h : EntryMove cfg now c port c' r a)
    (hfirst : cfg.knockSequence[0]? = some port) (hport : port = c.lastPort)
    (hexp : cfg.knockWindow < now - c.lastKnock)
    (hclose : now - c.lastKnock ≤ knockDedupWindow) : c' = c ∧ r = .inProgress := by
  cases h with
  | retransmit => exact ⟨rfl, rfl⟩
  | complete htime => omega
  | advance htime => omega
  | restart _ hdup => exact absurd ⟨hport, hclose⟩ hdup
  | discard _ hother => exact absurd hfirst hother

theorem EntryMove.refused (h : EntryMove cfg now c port c' r a)
    (hfirst : cfg.knockSequence[0]? ≠ some port) (hport : port ≠ c.lastPort)
    (hexp : cfg.knockWindow < now - c.lastKnock) : r = .reset := by
  cases h with
  | retransmit hsame => exact absurd hsame hport
  | complete htime => omega
  | advance htime => omega
  | restart hother => exact absurd hother hfirst
  | discard => rfl

/-- A repeat of the first port and then the second port, on a table where the entry is
expired but the filter still knows it: the repeat is swallowed, so the second port finds
the expired entry and is refused. -/
theorem answers_of_expired (hcfg : cfg.SequenceValid) (ht : TableInv cfg t)
    (hp : cfg.knockSequence[0]? = some p) (hq : cfg.knockSequence[0]? ≠ some q)
    (hc : clientEntry t ip = some ⟨ip, 1, 0, p, true⟩) (hexp : cfg.knockWindow < now)
    (hclose : now ≤ knockDedupWindow) :
    answers cfg t [.process now now ip p, .process now now ip q] = [.inProgress, .reset] := by
  have hne : q ≠ p := fun h => hq (h ▸ hp)
  have ht₁ := tableInv_of_tableMove hcfg ht (knockerProcess_move hcfg ht now now ip p)
  obtain ⟨c₁, hmove₁, hafter₁⟩ := exists_entryMove hcfg ht hc now now p
  obtain ⟨rfl, hres₁⟩ := hmove₁.swallowed hp rfl (by simpa using hexp) (by simpa using hclose)
  rw [if_pos rfl] at hafter₁
  obtain ⟨c₂, hmove₂, -⟩ := exists_entryMove hcfg ht₁ hafter₁ now now q
  have hres₂ := hmove₂.refused hq hne (by simpa using hexp)
  simp [answers, knockerRunFrom, knockerStep, Processed.record, hres₁, hres₂]

/-- A knock on the next port within the window is not refused. -/
theorem EntryMove.not_reset (h : EntryMove cfg now c port c' r a)
    (hnext : cfg.knockSequence[c.currentStep]? = some port)
    (htime : now - c.lastKnock ≤ cfg.knockWindow) : r ≠ .reset := by
  rintro rfl
  cases h with
  | discard _ _ hwrong =>
    rcases hwrong with hold | hother
    · omega
    · exact hother hnext

/-- An address without an entry gets one for its first port when a slot is free. -/
theorem clientEntry_of_free (hcfg : cfg.SequenceValid) (ht : TableInv cfg t)
    (hp : cfg.knockSequence[0]? = some p) (hnone : clientEntry t ip = none)
    (hfree : ∃ c ∈ t, c.active = false) (now nowAlloc : ℤ) :
    clientEntry (knockerProcess cfg now nowAlloc t ip p).clients ip =
      some ⟨ip, 1, now, p, true⟩ := by
  rcases clientEntry_of_tableMove ht (knockerProcess_move hcfg ht now nowAlloc ip p) with
    ⟨c, -, hc, -⟩ | ⟨-, -, -, -, hother | hfull⟩ | ⟨-, -, hnew, -⟩
  · rw [hnone] at hc
    cases hc
  · exact absurd hp hother
  · obtain ⟨c, hc, hdead⟩ := hfree
    have hlive := (hfull c hc).1
    rw [hdead] at hlive
    cases hlive
  · exact hnew

/-- The same two knocks of an address without an entry, on a table with a free slot: the
second is accepted. -/
theorem answers_of_absent (hcfg : cfg.Valid) (ht : TableInv cfg t)
    (hp : cfg.knockSequence[0]? = some p) (hq : cfg.knockSequence[1]? = some q)
    (hnone : clientEntry t ip = none) (hfree : ∃ c ∈ t, c.active = false) :
    answers cfg t [.process now now ip p, .process now now ip q] ≠ [.inProgress, .reset] := by
  have hseq := hcfg.toSequenceValid
  have hwindow := hcfg.window_pos
  have ht₁ := tableInv_of_tableMove hseq ht (knockerProcess_move hseq ht now now ip p)
  have hnew := clientEntry_of_free hseq ht hp hnone hfree now now
  obtain ⟨c₂, hmove, -⟩ := exists_entryMove hseq ht₁ hnew now now q
  have hres := hmove.not_reset hq (by simp only; omega)
  simp [answers, knockerRunFrom, knockerStep, Processed.record, hres]

end Narrow

/-- With a shorter window one client is enough to see a dropped entry: it knocks the
first port, and once its entry has expired the first port again and then the second. -/
theorem not_expiredWorthless {cfg : Config} (hcfg : cfg.Valid)
    (hnarrow : cfg.knockWindow < knockDedupWindow) : ¬ ExpiredWorthless cfg := by
  intro h
  have hseq := hcfg.toSequenceValid
  have hwindow := hcfg.window_pos
  obtain ⟨p, hp⟩ : ∃ p, cfg.knockSequence[0]? = some p := ⟨_, rfl⟩
  obtain ⟨q, hq⟩ : ∃ q, cfg.knockSequence[1]? = some q := ⟨_, rfl⟩
  have hother : cfg.knockSequence[0]? ≠ some q := fun hfirst => by
    have := hseq.port_inj hseq.first_lt hseq.second_lt hfirst hq
    omega
  have ht : TableInv cfg (knockerRun cfg [.process 0 0 0 p]).1 := tableInv_knockerRun hseq _
  have hc : clientEntry (knockerRun cfg [.process 0 0 0 p]).1 0 = some ⟨0, 1, 0, p, true⟩ := by
    refine clientEntry_of_free hseq (tableInv_knockerInit cfg) hp (clientEntry_knockerInit cfg)
      ⟨.zeroed, ?_, rfl⟩ 0 0
    have hclients := hcfg.clients_pos
    exact List.mem_replicate.mpr ⟨by omega, rfl⟩
  have hsame := h.dropped [.process 0 0 0 p] (cfg.knockWindow + 1) (fun _ => true)
    [.process (cfg.knockWindow + 1) (cfg.knockWindow + 1) 0 p,
      .process (cfg.knockWindow + 1) (cfg.knockWindow + 1) 0 q]
    (by simp [Nondecreasing, KnockerCall.readings]) (by simp [KnockerCall.readings])
  rw [answers_of_expired hseq ht hp hother hc (by omega) (by omega)] at hsame
  refine answers_of_absent hcfg (tableInv_dropExpired ht _ _) hp hq ?_ ?_ hsame
  · rw [clientEntry_dropExpired ht, hc]
    simp [Option.filter]
  · -- the slot of the dropped entry is free now
    obtain ⟨i, hi⟩ := SlotTable.entry_mem hc
    refine ⟨_, List.mem_map_of_mem (List.mem_of_getElem? hi), ?_⟩
    simp [KnockClient.dropped]

/-- **When an expired entry is worthless.** Under every valid configuration, exactly when
`KNOCK_WINDOW` is no shorter than the five seconds of the duplicate filter. -/
theorem expiredWorthless_iff (cfg : Config) (hcfg : cfg.Valid) :
    ExpiredWorthless cfg ↔ knockDedupWindow ≤ cfg.knockWindow := by
  refine ⟨fun h => ?_, expiredWorthless_of_wide hcfg.toSequenceValid⟩
  by_contra hnarrow
  exact not_expiredWorthless hcfg (not_le.mp hnarrow) h

/-- Under the compiled-in window of fifteen seconds they are. -/
theorem expiredWorthless_default :
    Config.default.Valid ∧ knockDedupWindow ≤ Config.default.knockWindow ∧
      ExpiredWorthless .default :=
  ⟨Config.default_valid, by decide,
    (expiredWorthless_iff .default Config.default_valid).mpr (by decide)⟩

/-- A window of three seconds passes the validator. Three seconds and one after its knock
on 7000 the client repeats 7000 and goes on with 8000: with the expired entry in place the
repeat is ignored and 8000 is refused, with the entry gone both are accepted. -/
theorem not_expiredWorthless_threeSeconds :
    ¬ ∀ cfg : Config, cfg.Valid → ExpiredWorthless cfg := by
  intro h
  have hvalid : ({ Config.default with knockWindow := 3 } : Config).Valid :=
    { Config.default_valid with window_pos := by decide }
  have hsame := (h _ hvalid).dropped [.process 0 0 10 7000] 4 (fun _ => true)
    [.process 4 4 10 7000, .process 4 4 10 8000] (by simp [Nondecreasing, KnockerCall.readings])
    (by simp [KnockerCall.readings])
  revert hsame
  decide +kernel

end Knockd
