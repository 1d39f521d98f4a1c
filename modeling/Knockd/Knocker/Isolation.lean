import Mathlib.Data.List.Flatten
import Knockd.Knocker.Expired
import Knockd.Knocker.History

/-!
# Clients do not notice each other

One table serves all clients, with evictions and sweeps in between. As long as it is not
crowded, none of this can be noticed: an address is answered as it would be if it were the
only one, knock for knock. What crowds the table is not how many addresses have ever knocked
but how many others have knocked within the window, since an entry past the window makes
room; with fewer of those than slots there is always a slot for a first knock.

As before, an expired entry is worth nothing only if the window is no shorter than the
duplicate filter's.

## Main definitions

* `soloRun` — a client by itself: its knocks, answered from its own live entry
* `NotCrowded` — no knock of the address meets a full table

## Main results

* `alone_knockerRun` — the shared table answers like the client by itself
* `clients_isolated` — so the other calls of a run may as well not have been made
-/

namespace Knockd

/-! ### A client by itself -/

/-- What is left of an entry at a clock reading. -/
def fresh (cfg : Config) (now : ℤ) (e : Option KnockClient) : Option KnockClient :=
  e.filter fun c => decide (now - c.lastKnock ≤ cfg.knockWindow)

/-- One knock of a client by itself. -/
def soloKnock (cfg : Config) (ip : UInt32) (e : Option KnockClient) (knock : ℤ × UInt16) :
    Option KnockClient × KnockRecord :=
  let out := liveAnswer cfg knock.1 ip knock.2 false (fresh cfg knock.1 e)
  (out.1, ⟨knock.1, ip, knock.2, out.2.1, out.2.2⟩)

/-- The knocks of a client by itself, from the first one on. -/
def soloRun (cfg : Config) (ip : UInt32) (knocks : List (ℤ × UInt16)) :
    Option KnockClient × List KnockRecord :=
  knocks.foldl (fun sofar knock =>
    let next := soloKnock cfg ip sofar.1 knock
    (next.1, sofar.2 ++ [next.2])) (none, [])

theorem soloRun_concat (cfg : Config) (ip : UInt32) (knocks : List (ℤ × UInt16))
    (knock : ℤ × UInt16) :
    soloRun cfg ip (knocks ++ [knock]) =
      ((soloKnock cfg ip (soloRun cfg ip knocks).1 knock).1,
        (soloRun cfg ip knocks).2 ++ [(soloKnock cfg ip (soloRun cfg ip knocks).1 knock).2]) := by
  simp only [soloRun, List.foldl_append, List.foldl_cons, List.foldl_nil]

/-- The other addresses that have knocked within the window before a clock reading. -/
def recentOthers (cfg : Config) (ip : UInt32) (now : ℤ) (records : List KnockRecord) :
    List UInt32 :=
  (records.filter fun r => r.ip ≠ ip ∧ now - r.time ≤ cfg.knockWindow).map KnockRecord.ip

/-- Whenever the address knocks, fewer others have knocked within the window than there are
slots. -/
def NotCrowded (cfg : Config) (ip : UInt32) (calls : List KnockerCall) : Prop :=
  ∀ before after now nowAlloc port, calls = before ++ .process now nowAlloc ip port :: after →
    ((recentOthers cfg ip nowAlloc (knockerRun cfg before).2).toFinset.card : ℤ) < cfg.maxClients

/-! ### Who is in the table -/

section Table

variable {cfg : Config} {calls : List KnockerCall} {ip : UInt32} {now nowAlloc : ℤ}

/-- An entry keeps its time, or takes that of the knock. -/
theorem EntryMove.lastKnock_eq {c c' : KnockClient} {port : UInt16} {res : KnockResult}
    {a : Option ℕ} (h : EntryMove cfg now c port c' res a) (hactive : c'.active = true) :
    c'.lastKnock = c.lastKnock ∨ c'.lastKnock = now := by
  cases h with
  | retransmit => exact .inl rfl
  | complete | advance | restart => exact .inr rfl
  | discard _ _ _ _ hdead =>
    rw [hdead] at hactive
    cases hactive

/-- The time in an entry is that of a knock of its address. -/
theorem exists_record_of_entry (hcfg : cfg.SequenceValid) (calls : List KnockerCall)
    {c : KnockClient} (hc : clientEntry (knockerRun cfg calls).1 ip = some c) :
    ∃ r ∈ (knockerRun cfg calls).2, r.ip = ip ∧ r.time = c.lastKnock := by
  refine knockerRun_history (P := fun ip e records => ∀ c, e = some c →
    ∃ r ∈ records, r.ip = ip ∧ r.time = c.lastKnock) hcfg ?_ ?_ ?_ ?_ calls ip c hc
  · intro ip c hnone
    cases hnone
  · rintro ip e r e' records hP rfl hstep c' hc'
    have hlast : r ∈ records ++ [r] := by simp
    cases hstep with
    | @tracked c d r hinv hmove =>
      split at hc'
      · rename_i hactive
        cases hc'
        rcases hmove.lastKnock_eq hactive with hsame | hnow
        · obtain ⟨r', hr', hip, htime⟩ := hP c rfl
          exact ⟨r', List.mem_append_left _ hr', hip, htime.trans hsame.symm⟩
        · exact ⟨r, hlast, rfl, hnow.symm⟩
      · cases hc'
    | untracked => cases hc'
    | admitted =>
      cases hc'
      exact ⟨r, hlast, rfl, rfl⟩
  · intro ip e r records hP _ c hc
    obtain ⟨r', hr', hfound⟩ := hP c hc
    exact ⟨r', List.mem_append_left _ hr', hfound⟩
  · intro ip e records _ c hnone
    cases hnone

/-- If fewer others have knocked within the window than there are slots, the table has room
for an address that has no live entry. -/
theorem tableFull_eq_false (hcfg : cfg.SequenceValid) (calls : List KnockerCall)
    (hcrowd : ((recentOthers cfg ip now (knockerRun cfg calls).2).toFinset.card : ℤ) <
      cfg.maxClients)
    (hnone : liveEntry cfg now (knockerRun cfg calls).1 ip = none) :
    tableFull cfg now (knockerRun cfg calls).1 = false := by
  have ht := tableInv_knockerRun hcfg calls
  have hnew : ip ∉ SlotTable.liveKeys (KnockClient.live cfg now) KnockClient.ip
      (knockerRun cfg calls).1 := by
    rw [mem_liveKeys_iff ht, hnone]
    rintro ⟨c, hc⟩
    cases hc
  -- whoever has a live entry has knocked within the window, and is somebody else
  have hothers : SlotTable.liveKeys (KnockClient.live cfg now) KnockClient.ip
      (knockerRun cfg calls).1 ⊆ ip :: recentOthers cfg ip now (knockerRun cfg calls).2 := by
    intro other hother
    have hne : other ≠ ip := fun heq => hnew (heq ▸ hother)
    obtain ⟨c, hc⟩ := (mem_liveKeys_iff ht).mp hother
    obtain ⟨hentry, hlive⟩ := liveEntry_eq_some_iff.mp hc
    obtain ⟨r, hr, rfl, htime⟩ := exists_record_of_entry hcfg calls hentry
    refine List.mem_cons_of_mem _ (List.mem_map.mpr ⟨r, List.mem_filter.mpr ⟨hr, ?_⟩, rfl⟩)
    simpa [hne, htime] using hlive
  have hcard : (ip :: recentOthers cfg ip now (knockerRun cfg calls).2).toFinset.card ≤
      (knockerRun cfg calls).1.length := by
    rw [List.toFinset_cons, ht.length_eq]
    have hle := Finset.card_insert_le ip (recentOthers cfg ip now (knockerRun cfg calls).2).toFinset
    omega
  obtain ⟨c, hc, hdead⟩ := SlotTable.exists_dead_of_card_le ht.distinct_live.nodup_liveKeys
    hothers List.mem_cons_self hnew hcard
  rw [tableFull, Bool.eq_false_iff, ne_eq, List.all_eq_true]
  intro hall
  rw [hall c hc] at hdead
  cases hdead

end Table

/-! ### Whole runs -/

section Runs

variable {cfg : Config} {calls : List KnockerCall} {ip : UInt32}

theorem NotCrowded.left {later : List KnockerCall} (h : NotCrowded cfg ip (calls ++ later)) :
    NotCrowded cfg ip calls := by
  intro before after now nowAlloc port heq
  exact h before (after ++ later) now nowAlloc port (by rw [heq]; simp)

theorem Nondecreasing.left {later : List KnockerCall} (h : Nondecreasing (calls ++ later)) :
    Nondecreasing calls := by
  rw [Nondecreasing, List.flatMap_append, List.pairwise_append] at h
  exact h.1

/-- No reading of a run is later than those of the calls after it. -/
theorem Nondecreasing.le_of_mem_append {later : List KnockerCall}
    (h : Nondecreasing (calls ++ later)) {m n : ℤ} (hm : m ∈ calls.flatMap KnockerCall.readings)
    (hn : n ∈ later.flatMap KnockerCall.readings) : m ≤ n := by
  rw [Nondecreasing, List.flatMap_append, List.pairwise_append] at h
  exact h.2.2 m hm n hn

theorem fresh_eq_liveEntry (t : ClientTable) (now : ℤ) :
    fresh cfg now (clientEntry t ip) = liveEntry cfg now t ip := rfl

/-- With room in the table, or with an entry, it does not matter whether the table is
full. -/
theorem liveAnswer_of_room {now : ℤ} {port : UInt16} {full : Bool} {e : Option KnockClient}
    (h : e = none → full = false) :
    liveAnswer cfg now ip port full e = liveAnswer cfg now ip port false e := by
  cases e with
  | some c => rfl
  | none => rw [h rfl]

/-- The entry of the address in the shared table and the client by itself are the same at
every reading from now on, and so were the answers. -/
structure Alone (cfg : Config) (ip : UInt32) (calls : List KnockerCall) : Prop where
  records : ownRecords ip (knockerRun cfg calls).2 = (soloRun cfg ip (ownKnocks ip calls)).2
  entry : ∀ now, (∀ m ∈ calls.flatMap KnockerCall.readings, m ≤ now) →
    liveEntry cfg now (knockerRun cfg calls).1 ip =
      fresh cfg now (soloRun cfg ip (ownKnocks ip calls)).1

/-- A call of someone else goes unnoticed. -/
theorem Alone.other (h : Alone cfg ip calls) (hcfg : cfg.SequenceValid) {call : KnockerCall}
    (hfrom : call.isFrom ip = false) (hmono : Nondecreasing (calls ++ [call])) :
    Alone cfg ip (calls ++ [call]) := by
  have ht := tableInv_knockerRun hcfg calls
  have hknocks : ownKnocks ip (calls ++ [call]) = ownKnocks ip calls := by
    rw [ownKnocks_append, ownKnocks_cons_of_not_isFrom hfrom]
    exact List.append_nil _
  refine ⟨?_, fun now hnow => ?_⟩
  · have hnone : ownRecords ip (knockerStep cfg (knockerRun cfg calls).1 call).2 = [] :=
      ownRecords_step_of_not_isFrom hfrom
    rw [knockerRun_concat, hknocks, ← h.records]
    simp only [ownRecords, List.filter_append] at hnone ⊢
    rw [hnone, List.append_nil]
  · simp only [List.flatMap_append, List.flatMap_singleton, List.mem_append] at hnow
    rw [hknocks, knockerRun_concat]
    have hbefore := h.entry now fun m hm => hnow m (.inl hm)
    rw [← hbefore]
    cases call with
    | process t nowAlloc src port =>
      have hne : ip ≠ src := fun heq => by simp [KnockerCall.isFrom, heq] at hfrom
      have hle : nowAlloc ≤ now := hnow nowAlloc (.inr (by simp [KnockerCall.readings]))
      have hkept := liveEntry_of_tableMove_of_ne ht hne
        (knockerProcess_move hcfg ht t nowAlloc src port)
      rw [liveEntry_of_le hle, liveEntry_of_le hle (t := (knockerRun cfg calls).1), ← hkept]
      rfl
    | cleanup t =>
      have hle : t ≤ now := hnow t (.inr (by simp [KnockerCall.readings]))
      rw [liveEntry_of_le hle, liveEntry_of_le hle (t := (knockerRun cfg calls).1),
        ← liveEntry_knockerCleanupStale ht]
      rfl

/-- A knock of the address is answered as if it were alone. -/
theorem Alone.own (h : Alone cfg ip calls) (hcfg : cfg.SequenceValid)
    (hwide : knockDedupWindow ≤ cfg.knockWindow) {now nowAlloc : ℤ} {port : UInt16}
    (hmono : Nondecreasing (calls ++ [.process now nowAlloc ip port]))
    (hcrowd : NotCrowded cfg ip (calls ++ [.process now nowAlloc ip port])) :
    Alone cfg ip (calls ++ [.process now nowAlloc ip port]) := by
  have ht := tableInv_knockerRun hcfg calls
  have hnow : ∀ m ∈ calls.flatMap KnockerCall.readings, m ≤ now := fun m hm =>
    hmono.le_of_mem_append hm (by simp [KnockerCall.readings])
  have hle : now ≤ nowAlloc := by
    rw [Nondecreasing, List.flatMap_append, List.pairwise_append] at hmono
    simpa [KnockerCall.readings] using hmono.2.1
  have hentry := h.entry now hnow
  -- the knock is answered from the live entry, and there is room if there is none
  have hanswer := knockerProcess_eq_liveAnswer hcfg hwide ht hle ip port
  rw [liveAnswer_of_room, hentry] at hanswer
  · simp only [Prod.ext_iff] at hanswer
    obtain ⟨hafter, hresult, haccepted⟩ := hanswer
    have hknocks : ownKnocks ip (calls ++ [.process now nowAlloc ip port]) =
        ownKnocks ip calls ++ [(now, port)] := by
      rw [ownKnocks_append, ownKnocks_cons_self]
      rfl
    refine ⟨?_, fun later hlater => ?_⟩
    · rw [knockerRun_concat, hknocks, soloRun_concat, ← h.records]
      simp only [ownRecords, List.filter_append, knockerStep, Processed.record, hresult, haccepted,
        soloKnock]
      simp
    · rw [knockerRun_concat, hknocks, soloRun_concat]
      simp only [knockerStep, ← fresh_eq_liveEntry, hafter, soloKnock]
  · intro hnone
    refine tableFull_eq_false hcfg calls (hcrowd calls [] now nowAlloc port rfl) ?_
    rw [liveEntry_of_le hle, hnone]
    rfl

/-- **The shared table answers like the client by itself.** -/
theorem alone_knockerRun (hcfg : cfg.SequenceValid) (hwide : knockDedupWindow ≤ cfg.knockWindow)
    (hmono : Nondecreasing calls) (hcrowd : NotCrowded cfg ip calls) : Alone cfg ip calls := by
  induction calls using List.reverseRecOn with
  | nil =>
    refine ⟨rfl, fun now _ => ?_⟩
    rw [liveEntry, knockerRun, knockerRunFrom, clientEntry_knockerInit]
    rfl
  | append_singleton calls call ih =>
    have hbefore := ih hmono.left hcrowd.left
    rcases call.isFrom_cases ip with ⟨now, nowAlloc, port, rfl⟩ | hfrom
    · exact hbefore.own hcfg hwide hmono hcrowd
    · exact hbefore.other hcfg hfrom hmono

/-- The knocks of an address are its own calls'. -/
theorem ownKnocks_filter (ip : UInt32) (calls : List KnockerCall) :
    ownKnocks ip (calls.filter (KnockerCall.isFrom ip)) = ownKnocks ip calls := by
  induction calls with
  | nil => rfl
  | cons call calls ih =>
    rcases call.isFrom_cases ip with ⟨now, nowAlloc, port, rfl⟩ | hfrom
    · have hself : (KnockerCall.process now nowAlloc ip port).isFrom ip = true := by
        simp [KnockerCall.isFrom]
      rw [List.filter_cons_of_pos hself, ownKnocks_cons_self, ownKnocks_cons_self, ih]
    · rw [List.filter_cons_of_neg (by simp [hfrom]), ih, ownKnocks_cons_of_not_isFrom hfrom]

/-- In a run with nobody else every record is the address's own. -/
theorem ownRecords_of_all (hall : ∀ call ∈ calls, call.isFrom ip = true) (t : ClientTable) :
    ownRecords ip (knockerRunFrom cfg t calls).2 = (knockerRunFrom cfg t calls).2 := by
  induction calls generalizing t with
  | nil => rfl
  | cons call calls ih =>
    rcases call.isFrom_cases ip with ⟨now, nowAlloc, port, rfl⟩ | hfrom
    · rw [ownRecords_runFrom_cons_self, ih fun c hc => hall c (List.mem_cons_of_mem _ hc)]
      rfl
    · rw [hall call List.mem_cons_self] at hfrom
      cases hfrom

theorem notCrowded_of_all (hcfg : cfg.Valid) (hall : ∀ call ∈ calls, call.isFrom ip = true) :
    NotCrowded cfg ip calls := by
  rintro before after now nowAlloc port rfl
  have hown : ownRecords ip (knockerRun cfg before).2 = (knockerRun cfg before).2 :=
    ownRecords_of_all (fun call hcall => hall call (List.mem_append_left _ hcall)) _
  have hnobody : recentOthers cfg ip nowAlloc (knockerRun cfg before).2 = [] := by
    rw [recentOthers, ← hown, ownRecords, List.filter_filter]
    simp only [List.map_eq_nil_iff, List.filter_eq_nil_iff]
    intro r _
    simp +contextual
  have hpos := hcfg.clients_pos
  rw [hnobody, List.toFinset_nil, Finset.card_empty]
  omega

/-- A run with no more calls than slots crowds nobody. -/
theorem notCrowded_of_few (h : (calls.length : ℤ) ≤ cfg.maxClients) : NotCrowded cfg ip calls := by
  have hrecords : ∀ (t : ClientTable) (calls : List KnockerCall),
      (knockerRunFrom cfg t calls).2.length ≤ calls.length := by
    intro t calls
    induction calls generalizing t with
    | nil => exact le_rfl
    | cons call calls ih =>
      have hrest := ih (knockerStep cfg t call).1
      cases call <;> simp only [knockerRunFrom, List.length_append, List.length_cons] at hrest ⊢ <;>
        simp only [knockerStep, List.length_cons, List.length_nil] at hrest ⊢ <;> omega
  rintro before after now nowAlloc port rfl
  have hfew := hrecords (knockerInit cfg) before
  have hcard := List.toFinset_card_le (recentOthers cfg ip nowAlloc (knockerRun cfg before).2)
  have hlen : (recentOthers cfg ip nowAlloc (knockerRun cfg before).2).length ≤
      (knockerRun cfg before).2.length := by
    rw [recentOthers, List.length_map]
    exact List.length_filter_le _ _
  rw [List.length_append, List.length_cons] at h
  simp only [knockerRun] at hlen hcard ⊢
  omega

end Runs

/-- **Clients do not notice each other.** In a run whose clock does not go back, with a
window no shorter than the duplicate filter's: let fewer others than there are slots have
knocked within the window whenever an address knocks. Then its knocks are answered, and
accepted as the same steps, as in the run without the knocks of the others and without the
sweeps. -/
theorem clients_isolated (cfg : Config) (hcfg : cfg.Valid)
    (hwide : knockDedupWindow ≤ cfg.knockWindow) (ip : UInt32) (calls : List KnockerCall)
    (hmono : Nondecreasing calls) (hcrowd : NotCrowded cfg ip calls) :
    ownRecords ip (knockerRun cfg calls).2 =
      (knockerRun cfg (calls.filter (KnockerCall.isFrom ip))).2 := by
  have hseq := hcfg.toSequenceValid
  have hall : ∀ call ∈ calls.filter (KnockerCall.isFrom ip), call.isFrom ip = true :=
    fun call hcall => (List.mem_filter.mp hcall).2
  have hmono' : Nondecreasing (calls.filter (KnockerCall.isFrom ip)) :=
    hmono.sublist (List.filter_sublist.flatMap _)
  have hshared := (alone_knockerRun hseq hwide hmono hcrowd).records
  have halone := (alone_knockerRun hseq hwide hmono' (notCrowded_of_all hcfg hall)).records
  have hown : ownRecords ip (knockerRun cfg (calls.filter (KnockerCall.isFrom ip))).2 =
      (knockerRun cfg (calls.filter (KnockerCall.isFrom ip))).2 := ownRecords_of_all hall _
  rw [ownKnocks_filter, hown] at halone
  exact hshared.trans halone.symm

/-- Address 10 is interrupted by another client and by a sweep, and starts over once. -/
theorem clients_isolated_interrupted :
    let calls : List KnockerCall := [.process 1 1 10 7000, .process 2 2 11 7000, .cleanup 3,
      .process 4 4 10 9000, .process 5 5 10 7000, .process 6 6 11 8000, .process 7 8 10 8000]
    ownRecords 10 (knockerRun .default calls).2 =
      (knockerRun .default (calls.filter (KnockerCall.isFrom 10))).2 := by
  refine clients_isolated .default Config.default_valid (by decide) 10 _ ?_
    (notCrowded_of_few (by decide))
  unfold Nondecreasing
  decide

end Knockd
