import Knockd.Firewall.Sync

/-!
# How long a grant lasts

While iptables does what it is told, a grant lasts until its deadline and not much
longer. No tick takes it away early. From the deadline on every tick either closes it
or uses up its budget of sixteen on other grants that have run out too; those cannot
be replaced in time by new ones, since a grant opened after the deadline `D` lasts
past `D + T`. So the number of grants that end before `D + T` falls by sixteen with
each tick that passes a grant over, and no grant is passed over for long.

## Main definitions

* `FirewallState.HasRule` — the chain lets this address in
* `endingBefore` — the number of active grants that end before a given time
* `DueAt` — whatever grant this address holds ends at the given time
* `dueTicks` — the ticks of a run within a span of time

## Main results

* `expireScan_remaining` — a tick either closes what is due or uses its whole budget
* `endingBefore_move`, `endingBefore_run` — the counting argument, for a call and a run
* `grant_lifetime` — no tick comes too early, and `⌈N / 16⌉` due ticks are enough
-/

namespace Knockd

/-- A call whose commands meet no fault. -/
def FirewallCall.faultless (call : FirewallCall) : FirewallStep := ⟨call, fun _ => none⟩

/-- A run whose commands meet no fault. -/
def faultlessRun (cfg : Config) (st : FirewallState) (calls : List FirewallCall) :
    FirewallState × List (FirewallCall × ℤ) :=
  firewallRun cfg st (calls.map FirewallCall.faultless)

/-- The clock reading of a call. -/
def FirewallCall.reading : FirewallCall → Option ℤ
  | .open now _ => some now
  | .close _ => none
  | .tick now => some now

/-- A run whose clock never goes back. -/
def ClockNondecreasing (calls : List FirewallCall) : Prop :=
  (calls.filterMap FirewallCall.reading).Pairwise (· ≤ ·)

instance : DecidablePred ClockNondecreasing := fun calls =>
  inferInstanceAs (Decidable ((calls.filterMap FirewallCall.reading).Pairwise (· ≤ ·)))

/-- Is this a `firewall_open` of the given address? -/
def FirewallCall.isOpenOf (ip : UInt32) : FirewallCall → Bool
  | .open _ src => src == ip
  | _ => false

/-- The chain holds the rule of this address. -/
def FirewallState.HasRule (cfg : Config) (st : FirewallState) (ip : UInt32) : Prop :=
  ∃ chain, st.rules.knockd = some chain ∧ Rule.grant ip cfg.protectedPort ∈ chain

/-- Is this a tick at a time in `[lo, hi)`? -/
def FirewallCall.isTickWithin (lo hi : ℤ) : FirewallCall → Bool
  | .tick now => lo ≤ now ∧ now < hi
  | _ => false

/-- The number of ticks at times in `[lo, hi)`. -/
def dueTicks (lo hi : ℤ) (calls : List FirewallCall) : ℕ :=
  calls.countP (FirewallCall.isTickWithin lo hi)

/-- The number of active grants that end before the given time. -/
def endingBefore (limit : ℤ) (grants : List Grant) : ℕ :=
  grants.countP fun g => g.active && g.expiresAt < limit

section Clock

variable {call : FirewallCall} {calls : List FirewallCall} {now lo hi : ℤ}

theorem ClockNondecreasing.tail (h : ClockNondecreasing (call :: calls)) :
    ClockNondecreasing calls :=
  h.sublist ((List.sublist_cons_self call calls).filterMap _)

theorem ClockNondecreasing.le_of_reading (h : ClockNondecreasing (call :: calls))
    (hnow : call.reading = some now) :
    ∀ t ∈ calls.filterMap FirewallCall.reading, now ≤ t := by
  rw [ClockNondecreasing, List.filterMap_cons_some hnow, List.pairwise_cons] at h
  exact h.1

theorem exists_reading_of_isTickWithin (h : call.isTickWithin lo hi = true) :
    ∃ now, call.reading = some now ∧ lo ≤ now := by
  cases call with
  | tick now =>
    simp only [FirewallCall.isTickWithin, decide_eq_true_eq] at h
    exact ⟨now, rfl, h.1⟩
  | _ => cases h

end Clock

/-! ### What a tick closes -/

section Scan

variable {now : ℤ} {budget : ℕ} {grants : List Grant} {g : Grant}

/-- An active grant after a tick is one from before that was left alone. -/
theorem mem_of_mem_expireScan (h : g ∈ (expireScan now budget grants).2)
    (hactive : g.active = true) : g ∈ grants := by
  obtain ⟨seen, rest, rfl, hscan, -⟩ := expireScan_eq now budget grants
  simp only [hscan, List.mem_append, List.mem_map] at h ⊢
  rcases h with ⟨x, hx, rfl⟩ | h
  · cases hexp : x.expired now with
    | true => simp [Grant.release_of_expired hexp] at hactive
    | false => rw [Grant.release_of_not_expired hexp]; exact Or.inl hx
  · exact Or.inr h

/-- A grant that has time left is passed over. -/
theorem mem_expireScan_of_not_expired (h : g ∈ grants) (hexp : g.expired now = false) :
    g ∈ (expireScan now budget grants).2 := by
  obtain ⟨seen, rest, rfl, hscan, -⟩ := expireScan_eq now budget grants
  simp only [hscan, List.mem_append, List.mem_map] at h ⊢
  rcases h with h | h
  · exact Or.inl ⟨g, h, Grant.release_of_not_expired hexp⟩
  · exact Or.inr h

/-- A tick that leaves a grant which has run out has used its whole budget. -/
theorem expireScan_remaining (h : g ∈ (expireScan now budget grants).2)
    (hexp : g.expired now = true) : (expireScan now budget grants).1.length = budget := by
  obtain ⟨seen, rest, rfl, hscan, -, hend⟩ := expireScan_eq now budget grants
  simp only [hscan, List.mem_append, List.mem_map] at h
  rw [hscan, List.length_map, ← List.countP_eq_length_filter]
  rcases h with ⟨x, -, rfl⟩ | h
  · -- the slots the scan looked at are not the ones
    cases hx : x.expired now with
    | true => simp [Grant.release_of_expired hx, Grant.expired] at hexp
    | false => rw [Grant.release_of_not_expired hx, hx] at hexp; cases hexp
  · rcases hend with rfl | hend
    · cases h
    · exact hend

theorem length_expireScan_table : (expireScan now budget grants).2.length = grants.length := by
  obtain ⟨seen, rest, rfl, hscan, -⟩ := expireScan_eq now budget grants
  simp [hscan]

theorem endingBefore_append (limit : ℤ) (l r : List Grant) :
    endingBefore limit (l ++ r) = endingBefore limit l + endingBefore limit r :=
  List.countP_append

/-- Every grant closed before the limit is one less that ends before it. -/
theorem endingBefore_release {limit : ℤ} (hnow : now < limit) (seen : List Grant) :
    endingBefore limit (seen.map (Grant.release now)) + seen.countP (Grant.expired now) =
      endingBefore limit seen := by
  induction seen with
  | nil => rfl
  | cons g seen ih =>
    simp only [endingBefore] at ih ⊢
    cases hexp : g.expired now with
    | true =>
      obtain ⟨hactive, htime⟩ := Grant.expired_iff.mp hexp
      have hearly : g.expiresAt < limit := by omega
      simp only [List.map_cons, List.countP_cons, Grant.release_of_expired hexp, hexp, hactive,
        hearly, Bool.false_and, Bool.false_eq_true, decide_true, Bool.and_self, if_false,
        if_true]
      omega
    | false =>
      simp only [List.map_cons, List.countP_cons, Grant.release_of_not_expired hexp, hexp,
        Bool.false_eq_true, if_false]
      omega

theorem endingBefore_expireScan {limit : ℤ} (hnow : now < limit) (budget : ℕ)
    (grants : List Grant) :
    endingBefore limit (expireScan now budget grants).2 +
      (expireScan now budget grants).1.length = endingBefore limit grants := by
  obtain ⟨seen, rest, rfl, hscan, -⟩ := expireScan_eq now budget grants
  have hseen := endingBefore_release hnow seen
  rw [hscan, List.length_map, ← List.countP_eq_length_filter, endingBefore_append,
    endingBefore_append]
  omega

/-- Whatever the time, a tick closes grants and opens none. -/
theorem endingBefore_expireScan_le (limit : ℤ) :
    endingBefore limit (expireScan now budget grants).2 ≤ endingBefore limit grants := by
  obtain ⟨seen, rest, rfl, hscan, -⟩ := expireScan_eq now budget grants
  have hseen : endingBefore limit (seen.map (Grant.release now)) ≤ endingBefore limit seen := by
    rw [endingBefore, List.countP_map]
    refine List.countP_mono_left fun g _ hg => ?_
    cases hexp : g.expired now with
    | true => simp [Grant.release_of_expired hexp] at hg
    | false => simpa [Grant.release_of_not_expired hexp] using hg
  rw [hscan, endingBefore_append, endingBefore_append]
  omega

end Scan

/-! ### One call -/

/-- Whatever grant the address holds ends at the deadline. -/
def DueAt (ip : UInt32) (deadline : ℤ) (grants : List Grant) : Prop :=
  ∀ g ∈ grants, g.active = true → g.ip = ip → g.expiresAt = deadline

section Step

variable {cfg : Config} {grants grants' : List Grant} {chain chain' : List Rule}
  {faults : ℕ → Option Fault} {call : FirewallCall} {rc deadline : ℤ} {ip : UInt32}

theorem mem_activeIps : ip ∈ activeIps grants ↔ ∃ g ∈ grants, g.active = true ∧ g.ip = ip :=
  SlotTable.mem_liveKeys

theorem FirewallMove.length_eq
    (h : FirewallMove cfg grants chain faults call grants' chain' rc) :
    grants'.length = grants.length := by
  cases h with
  | refuse => rfl
  | noGrant => rfl
  | tick => exact length_expireScan_table
  | _ => exact List.length_set

/-- An active grant after a call was there before, unless the call opened it. -/
theorem FirewallMove.mem_of_active
    (h : FirewallMove cfg grants chain faults call grants' chain' rc) {g : Grant}
    (hg : g ∈ grants') (hactive : g.active = true)
    (hother : ∀ t, call = .open t g.ip → rc ≠ 0) : g ∈ grants := by
  cases h with
  | @extend now src i x hslot hentry =>
    rcases List.mem_or_eq_of_mem_set hg with hg | rfl
    · exact hg
    · obtain ⟨-, rfl⟩ := SlotTable.entry_live hentry
      exact absurd rfl (hother now rfl)
  | refuse => exact hg
  | insertFailed =>
    rcases List.mem_or_eq_of_mem_set hg with hg | rfl
    · exact hg
    · cases hactive
  | @insert now src =>
    rcases List.mem_or_eq_of_mem_set hg with hg | rfl
    · exact hg
    · exact absurd rfl (hother now rfl)
  | noGrant => exact hg
  | close =>
    rcases List.mem_or_eq_of_mem_set hg with hg | rfl
    · exact hg
    · cases hactive
  | tick => exact mem_of_mem_expireScan hg hactive

/-- A successful `firewall_open` sets the deadline. -/
theorem dueAt_of_open {now : ℤ} (hnodup : (activeIps grants).Nodup)
    (h : FirewallMove cfg grants chain faults (.open now ip) grants' chain' rc) (hrc : rc = 0) :
    DueAt ip (now + cfg.accessTimeout) grants' := by
  cases h with
  | @extend _ _ i x hslot hentry =>
    obtain ⟨hlive, rfl⟩ := SlotTable.entry_live hentry
    obtain ⟨l, r, hsplit, hset⟩ := SlotTable.exists_split hslot
    -- no other slot is live under the address
    rw [hsplit, activeIps_append] at hnodup
    have hcons : activeIps (x :: r) = x.ip :: activeIps r := by
      simp [activeIps, SlotTable.liveKeys, hlive]
    rw [hcons, List.nodup_middle, List.nodup_cons, List.mem_append, not_or] at hnodup
    rw [hset]
    intro g hg hactive hip
    rcases List.mem_append.mp hg with hg | hg
    · exact absurd (mem_activeIps.mpr ⟨g, hg, hactive, hip⟩) hnodup.1.1
    · rcases List.mem_cons.mp hg with rfl | hg
      · rfl
      · exact absurd (mem_activeIps.mpr ⟨g, hg, hactive, hip⟩) hnodup.1.2
  | refuse => cases hrc
  | insertFailed => cases hrc
  | insert hslot hfree hentry =>
    intro g hg hactive hip
    rcases List.mem_or_eq_of_mem_set hg with hg | rfl
    · have hnew := SlotTable.entry_eq_none_iff_notMem.mp hentry
      exact absurd (mem_activeIps.mpr ⟨g, hg, hactive, hip⟩) hnew
    · rfl

theorem endingBefore_le_length (limit : ℤ) (grants : List Grant) :
    endingBefore limit grants ≤ grants.length :=
  List.countP_le_length

/-- A call that opens nothing before the limit leaves no more grants ending before it. -/
theorem endingBefore_move_le {limit : ℤ}
    (h : FirewallMove cfg grants chain faults call grants' chain' rc)
    (hlate : ∀ t src, call = .open t src → limit ≤ t + cfg.accessTimeout) :
    endingBefore limit grants' ≤ endingBefore limit grants := by
  cases h with
  | extend hslot =>
    have := hlate _ _ rfl
    exact SlotTable.countP_set_le hslot _ fun hnew => by
      simp only [Bool.and_eq_true, decide_eq_true_eq] at hnew
      omega
  | refuse => exact le_rfl
  | insertFailed hslot => exact SlotTable.countP_set_le hslot _ fun hnew => by simp at hnew
  | insert hslot =>
    have := hlate _ _ rfl
    exact SlotTable.countP_set_le hslot _ fun hnew => by
      simp only [Bool.and_eq_true, decide_eq_true_eq] at hnew
      omega
  | noGrant => exact le_rfl
  | close hslot => exact SlotTable.countP_set_le hslot _ fun hnew => by simp at hnew
  | tick => exact endingBefore_expireScan_le limit

/-- The counting step: if the address still holds its grant after the call, a due tick
has closed sixteen others that end before the limit. -/
theorem endingBefore_move {k : ℕ}
    (h : FirewallMove cfg grants chain faults call grants' chain' rc)
    (hdue : DueAt ip deadline grants') (hip : ip ∈ activeIps grants')
    (hlate : k ≠ 0 → ∀ t src, call = .open t src → deadline ≤ t)
    (hcount : 16 * k + endingBefore (deadline + cfg.accessTimeout) grants ≤ grants.length) :
    16 * (k + if call.isTickWithin deadline (deadline + cfg.accessTimeout) then 1 else 0) +
      endingBefore (deadline + cfg.accessTimeout) grants' ≤ grants'.length := by
  have hlen := h.length_eq
  split
  · rename_i hwithin
    cases h with
    | tick =>
      simp only [FirewallCall.isTickWithin, decide_eq_true_eq] at hwithin
      obtain ⟨g, hg, hactive, hgip⟩ := mem_activeIps.mp hip
      have hexp : g.expired _ = true :=
        Grant.expired_iff.mpr ⟨hactive, (hdue g hg hactive hgip).trans_le hwithin.1⟩
      -- the grant is due and was passed over, so the whole budget went to others
      have hbudget := expireScan_remaining hg hexp
      have hclosed := endingBefore_expireScan hwithin.2 maxExpiryPerTick grants
      rw [hbudget] at hclosed
      have hsixteen : maxExpiryPerTick = 16 := rfl
      omega
    | _ => cases hwithin
  · by_cases hk : k = 0
    · -- before the first due tick the table's length is bound enough
      have hall := endingBefore_le_length (deadline + cfg.accessTimeout) grants'
      omega
    · -- after it, whatever is opened lasts past the limit
      have hfewer : endingBefore (deadline + cfg.accessTimeout) grants' ≤
          endingBefore (deadline + cfg.accessTimeout) grants := by
        refine endingBefore_move_le h fun t src hcall => ?_
        have := hlate hk t src hcall
        omega
      omega

end Step

/-! ### Runs -/

section Run

variable {cfg : Config} {rules : Ruleset} {chain : List Rule} {grants : List Grant} {added : Bool}
  {deadline : ℤ} {ip : UInt32}

/-- In step with the table, the chain holds the rules of the active addresses. -/
theorem hasRule_iff (hsync : Mirrors cfg.protectedPort grants (acceptRules chain)) :
    FirewallState.HasRule cfg (.of added rules grants chain) ip ↔ ip ∈ activeIps grants := by
  have haccept : Rule.grant ip cfg.protectedPort ∈ chain ↔
      Rule.grant ip cfg.protectedPort ∈ acceptRules chain := by
    simp [acceptRules, Rule.grant]
  simp only [FirewallState.HasRule, FirewallState.of, Option.some.injEq, exists_eq_left',
    haccept, hsync.perm.mem_iff, List.mem_map, Rule.grant_inj, and_true, exists_eq_right]

/-- A faultless call makes a move and keeps table and chain in step. -/
theorem faultless_move (hsync : Mirrors cfg.protectedPort grants (acceptRules chain))
    (added : Bool) (rules : Ruleset) (call : FirewallCall) :
    ∃ grants' chain' rc,
      FirewallMove cfg grants chain (fun _ => none) call grants' chain' rc ∧
      firewallStep cfg (.of added rules grants chain) call.faultless =
        (.of added rules grants' chain', rc) ∧
      Mirrors cfg.protectedPort grants' (acceptRules chain') := by
  obtain ⟨grants', chain', rc, hmove, hstep⟩ :=
    firewallStep_move cfg added rules grants chain call.faultless
  refine ⟨grants', chain', rc, hmove, hstep, ?_⟩
  apply (mirrors_move_iff hsync hmove.acceptRules).mpr
  cases call with
  | «open» => trivial
  | close => exact fun _ => rfl
  | tick => exact fun _ _ => rfl

theorem faultlessRun_cons (cfg : Config) (st : FirewallState) (call : FirewallCall)
    (calls : List FirewallCall) :
    faultlessRun cfg st (call :: calls) =
      ((faultlessRun cfg (firewallStep cfg st call.faultless).1 calls).1,
        (call, (firewallStep cfg st call.faultless).2) ::
          (faultlessRun cfg (firewallStep cfg st call.faultless).1 calls).2) := rfl

theorem faultlessRun_append (cfg : Config) (st : FirewallState) (l r : List FirewallCall) :
    (faultlessRun cfg st (l ++ r)).1 = (faultlessRun cfg (faultlessRun cfg st l).1 r).1 := by
  induction l generalizing st with
  | nil => rfl
  | cons call l ih => simp only [List.cons_append, faultlessRun_cons, ih]

/-- A faultless run from an initialised state stays in step. -/
theorem faultless_run (hsync : Mirrors cfg.protectedPort grants (acceptRules chain))
    (added : Bool) (rules : Ruleset) (calls : List FirewallCall) :
    ∃ grants' chain',
      (faultlessRun cfg (.of added rules grants chain) calls).1 =
        .of added rules grants' chain' ∧
      Mirrors cfg.protectedPort grants' (acceptRules chain') ∧
      grants'.length = grants.length := by
  induction calls generalizing grants chain with
  | nil => exact ⟨grants, chain, rfl, hsync, rfl⟩
  | cons call calls ih =>
    obtain ⟨grants₁, chain₁, rc, hmove, hstep, hsync₁⟩ := faultless_move hsync added rules call
    obtain ⟨grants', chain', hrun, hsync', hlen⟩ := ih hsync₁
    refine ⟨grants', chain', ?_, hsync', hlen.trans hmove.length_eq⟩
    rwa [faultlessRun_cons, hstep]

/-- The counting argument along a run in which the address is not opened again: the
deadline stands, and while the address keeps its rule every due tick has closed sixteen
other grants. -/
theorem endingBefore_run (hsync : Mirrors cfg.protectedPort grants (acceptRules chain))
    (added : Bool) (rules : Ruleset) (calls : List FirewallCall) {k : ℕ}
    (hdue : DueAt ip deadline grants)
    (hclock : ClockNondecreasing calls)
    (hlate : k ≠ 0 → ∀ t ∈ calls.filterMap FirewallCall.reading, deadline ≤ t)
    (hlast : ∀ r ∈ (faultlessRun cfg (.of added rules grants chain) calls).2,
      r.1.isOpenOf ip = true → r.2 ≠ 0)
    (hcount : ip ∈ activeIps grants →
      16 * k + endingBefore (deadline + cfg.accessTimeout) grants ≤ grants.length) :
    ∃ grants' chain',
      (faultlessRun cfg (.of added rules grants chain) calls).1 =
        .of added rules grants' chain' ∧
      Mirrors cfg.protectedPort grants' (acceptRules chain') ∧
      grants'.length = grants.length ∧ DueAt ip deadline grants' ∧
      (ip ∈ activeIps grants' →
        16 * (k + dueTicks deadline (deadline + cfg.accessTimeout) calls) +
          endingBefore (deadline + cfg.accessTimeout) grants' ≤ grants'.length) := by
  induction calls generalizing grants chain k with
  | nil => exact ⟨grants, chain, rfl, hsync, rfl, hdue, by simpa [dueTicks] using hcount⟩
  | cons call calls ih =>
    obtain ⟨grants₁, chain₁, rc, hmove, hstep, hsync₁⟩ := faultless_move hsync added rules call
    rw [faultlessRun_cons, hstep] at hlast ⊢
    obtain ⟨hthis, hlast⟩ := List.forall_mem_cons.mp hlast
    have hother : ∀ t, call = .open t ip → rc ≠ 0 := by
      rintro t rfl
      exact hthis (by simp [FirewallCall.isOpenOf])
    have hkept : ∀ g ∈ grants₁, g.active = true → g.ip = ip → g ∈ grants := by
      rintro g hg hactive rfl
      exact hmove.mem_of_active hg hactive hother
    -- a grant of this address that is still there is the old one, with the old deadline
    have hdue₁ : DueAt ip deadline grants₁ := fun g hg hactive hip =>
      hdue g (hkept g hg hactive hip) hactive hip
    have hlate₁ : (k + if call.isTickWithin deadline (deadline + cfg.accessTimeout)
        then 1 else 0) ≠ 0 → ∀ t ∈ calls.filterMap FirewallCall.reading, deadline ≤ t := by
      intro hk₁ t ht
      by_cases hk : k = 0
      · -- this call is the first due tick, and the clock does not go back
        have hwithin : call.isTickWithin deadline (deadline + cfg.accessTimeout) = true := by
          by_contra hno
          simp [hk, hno] at hk₁
        obtain ⟨now, hreading, hnow⟩ := exists_reading_of_isTickWithin hwithin
        exact hnow.trans (hclock.le_of_reading hreading t ht)
      · apply hlate hk t
        rw [List.filterMap_cons]
        split
        · exact ht
        · exact List.mem_cons_of_mem _ ht
    obtain ⟨grants', chain', hrun, hsync', hlen, hdue', hcount'⟩ :=
      ih hsync₁ hdue₁ hclock.tail hlate₁ hlast fun hip => by
        refine endingBefore_move hmove hdue₁ hip ?_ ?_
        · rintro hk t src rfl
          exact hlate hk t (by simp [FirewallCall.reading])
        · obtain ⟨g, hg, hactive, hgip⟩ := mem_activeIps.mp hip
          exact hcount (mem_activeIps.mpr ⟨g, hkept g hg hactive hgip, hactive, hgip⟩)
    refine ⟨grants', chain', hrun, hsync', hlen.trans hmove.length_eq, hdue', fun hip => ?_⟩
    have := hcount' hip
    simp only [dueTicks, List.countP_cons] at this ⊢
    omega

end Run

/-- **Lifetime of a grant.** Take a faultless run with a nondecreasing clock and a
successful `firewall_open` of `ip` in it, the last one so far, and let `D` be its time
plus the access timeout `T`. No tick before `D` takes the rule of `ip` away. Once
`⌈N / 16⌉` ticks have come at times in `[D, D + T)`, the rule is gone, whatever the
other calls were. -/
theorem grant_lifetime (cfg : Config) (htimeout : 1 ≤ cfg.accessTimeout) (calloc : Bool)
    (faults : ℕ → Option Fault) (rules : Ruleset)
    (hstart : (firewallStart cfg calloc faults rules).2 = 0)
    (before after : List FirewallCall) (opened : ℤ) (ip : UInt32)
    (hclock : ClockNondecreasing (before ++ .open opened ip :: after))
    (hopen : (firewallStep cfg
      (faultlessRun cfg (firewallStart cfg calloc faults rules).1 before).1
      (FirewallCall.open opened ip).faultless).2 = 0)
    (hlast : ∀ r ∈ (faultlessRun cfg (firewallStep cfg
      (faultlessRun cfg (firewallStart cfg calloc faults rules).1 before).1
      (FirewallCall.open opened ip).faultless).1 after).2, r.1.isOpenOf ip = true → r.2 ≠ 0) :
    let deadline := opened + cfg.accessTimeout
    let st := (faultlessRun cfg (firewallStart cfg calloc faults rules).1
      (before ++ .open opened ip :: after)).1
    (∀ now < deadline, st.HasRule cfg ip →
      (firewallStep cfg st (FirewallCall.tick now).faultless).1.HasRule cfg ip) ∧
    ((cfg.maxClients.toNat + 15) / 16 ≤ dueTicks deadline (deadline + cfg.accessTimeout) after →
      ¬ st.HasRule cfg ip) := by
  intro deadline st
  obtain ⟨added, hst, -⟩ := firewallStart_ok hstart
  have hempty : Mirrors cfg.protectedPort (List.replicate cfg.maxClients.toNat .zeroed)
      (acceptRules []) :=
    ⟨by simp [acceptRules, activeIps, SlotTable.liveKeys, Grant.zeroed],
      by simp [activeIps, SlotTable.liveKeys, Grant.zeroed]⟩
  -- the run up to the opening, the opening itself, and the run after it
  have hst_eq : st = (faultlessRun cfg (firewallStep cfg
      (faultlessRun cfg (firewallStart cfg calloc faults rules).1 before).1
      (FirewallCall.open opened ip).faultless).1 after).1 := by
    simp only [st, faultlessRun_append, faultlessRun_cons]
  rw [hst] at hst_eq hopen hlast
  obtain ⟨grants₀, chain₀, hrun₀, hsync₀, hlen₀⟩ := faultless_run hempty added _ before
  rw [hrun₀] at hst_eq hopen hlast
  obtain ⟨grants₁, chain₁, rc, hmove, hstep, hsync₁⟩ :=
    faultless_move hsync₀ added _ (.open opened ip)
  rw [hstep] at hst_eq hopen hlast
  have hdue₁ : DueAt ip deadline grants₁ := dueAt_of_open hsync₀.nodup hmove hopen
  have hclock₁ : ClockNondecreasing after :=
    hclock.sublist (((List.sublist_cons_self _ after).trans
      (List.sublist_append_right before _)).filterMap _)
  obtain ⟨grants', chain', hrun, hsync, hlen, hdue, hcount⟩ :=
    endingBefore_run (k := 0) hsync₁ added _ after hdue₁ hclock₁ (fun h => absurd rfl h) hlast
      fun _ => by simpa using endingBefore_le_length _ grants₁
  rw [hrun] at hst_eq
  rw [hst_eq, hasRule_iff hsync]
  refine ⟨fun now hnow hip => ?_, fun hticks hip => ?_⟩
  · obtain ⟨grants₂, chain₂, rc₂, htick, hstep₂, hsync₂⟩ :=
      faultless_move hsync added _ (.tick now)
    rw [hstep₂, hasRule_iff hsync₂]
    obtain ⟨g, hg, hactive, hgip⟩ := mem_activeIps.mp hip
    have hleft : g.expired now = false := by
      have hends := hdue g hg hactive hgip
      simp only [Grant.expired, hactive, Bool.true_and, decide_eq_false_iff_not, ge_iff_le]
      omega
    cases htick with
    | tick => exact mem_activeIps.mpr ⟨g, mem_expireScan_of_not_expired hg hleft, hactive, hgip⟩
  · -- the grant itself ends before `D + T`, so at least one grant is left to count
    obtain ⟨g, hg, hactive, hgip⟩ := mem_activeIps.mp hip
    have hself : 0 < endingBefore (deadline + cfg.accessTimeout) grants' := by
      refine List.countP_pos_iff.mpr ⟨g, hg, ?_⟩
      have hends := hdue g hg hactive hgip
      simp only [hactive, Bool.true_and, decide_eq_true_eq]
      omega
    have hbound := hcount hip
    have htable : grants'.length = cfg.maxClients.toNat := by
      rw [hlen, hmove.length_eq, hlen₀, List.length_replicate]
    omega

/-- The default configuration has 64 slots, so four due ticks are enough. -/
theorem grant_lifetime_default :
    let start := (firewallStart .default true (fun _ => none) .empty).1
    (firewallStep .default (faultlessRun .default start [.open 100 10, .tick 110]).1
        (FirewallCall.tick 129).faultless).1.HasRule .default 10 ∧
      ¬ (faultlessRun .default start [.open 100 10, .tick 130, .tick 130, .tick 130, .open 140 11,
        .tick 159]).1.HasRule .default 10 := by
  intro start
  have hstart : (firewallStart .default true (fun _ => none) .empty).2 = 0 := by decide
  have hearly := grant_lifetime .default (by decide) true (fun _ => none) .empty hstart [] [.tick 110]
    100 10 (by decide) (by decide) (by decide)
  have hlate := grant_lifetime .default (by decide) true (fun _ => none) .empty hstart []
    [.tick 130, .tick 130, .tick 130, .open 140 11, .tick 159] 100 10 (by decide) (by decide)
    (by decide)
  exact ⟨hearly.1 129 (by decide) ⟨[Rule.grant 10 22], by decide, by decide⟩,
    hlate.2 (by decide)⟩

end Knockd
