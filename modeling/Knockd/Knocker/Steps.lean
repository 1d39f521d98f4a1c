import Knockd.Knocker.History

/-!
# The knocks accepted as steps

A completion is the last of a chain of knocks, each of which was accepted as the step
after the one before it with nothing else of that address accepted in between. The chain
is stated here over positions in the records of the whole run, and for an arbitrary
relation between consecutive knocks, so that it can be said of the times at which they
were handled as well as of anything else that is known about them.

## Main definitions

* `AcceptedAt` — a knock that was accepted as a given step
* `StepsTo` — the chain that ends at a given knock

## Main results

* `stepsTo_of_complete` — every completion ends such a chain, with each knock handled
  within the window of the one before
-/

namespace Knockd

/-- The knock at position `p` is one of `ip` and was accepted as step `n`, which its port
is the port of. -/
def AcceptedAt (cfg : Config) (records : List KnockRecord) (ip : UInt32) (n p : ℕ) : Prop :=
  ∃ r, records[p]? = some r ∧ r.ip = ip ∧ r.accepted = some n ∧
    cfg.knockSequence[n - 1]? = some r.port

/-- Nothing of `ip` was accepted between two positions. -/
def NothingBetween (records : List KnockRecord) (ip : UInt32) (p q : ℕ) : Prop :=
  ∀ m r, p < m → m < q → records[m]? = some r → r.ip = ip → r.accepted = none

/-- The knock at a position was accepted as step `n`, and the steps before it were
accepted one after the other, consecutive ones being related by `R`. -/
inductive StepsTo (cfg : Config) (records : List KnockRecord) (ip : UInt32) (R : ℕ → ℕ → Prop) :
    ℕ → ℕ → Prop
  | first {p : ℕ} (haccepted : AcceptedAt cfg records ip 1 p) : StepsTo cfg records ip R 1 p
  | next {n p q : ℕ} (hbefore : StepsTo cfg records ip R n p) (hlt : p < q)
      (haccepted : AcceptedAt cfg records ip (n + 1) q)
      (hbetween : NothingBetween records ip p q) (hrel : R p q) :
      StepsTo cfg records ip R (n + 1) q

/-- The knock at `q` was handled within the window of the one at `p`. -/
def HandledInTime (cfg : Config) (records : List KnockRecord) (p q : ℕ) : Prop :=
  ∀ r r', records[p]? = some r → records[q]? = some r' → r'.time - r.time ≤ cfg.knockWindow

section Chains

variable {cfg : Config} {records more : List KnockRecord} {ip : UInt32} {R R' : ℕ → ℕ → Prop}
  {n p q : ℕ}

theorem AcceptedAt.lt_length (h : AcceptedAt cfg records ip n p) : p < records.length := by
  obtain ⟨r, hr, -⟩ := h
  exact (List.getElem?_eq_some_iff.mp hr).1

theorem AcceptedAt.step_eq (h : AcceptedAt cfg records ip n p) :
    records[p]?.map (fun r => (r.ip, r.accepted)) = some (ip, some n) := by
  obtain ⟨r, hr, hip, haccepted, -⟩ := h
  rw [hr, Option.map_some, hip, haccepted]

theorem AcceptedAt.append (h : AcceptedAt cfg records ip n p) :
    AcceptedAt cfg (records ++ more) ip n p := by
  have hp := h.lt_length
  obtain ⟨r, hr, hrest⟩ := h
  exact ⟨r, by rwa [List.getElem?_append_left hp], hrest⟩

theorem NothingBetween.append (h : NothingBetween records ip p q) (hq : q ≤ records.length) :
    NothingBetween (records ++ more) ip p q := by
  intro m r hlo hhi hr
  rw [List.getElem?_append_left (by omega)] at hr
  exact h m r hlo hhi hr

theorem StepsTo.acceptedAt (h : StepsTo cfg records ip R n p) : AcceptedAt cfg records ip n p := by
  cases h with
  | first haccepted => exact haccepted
  | next _ _ haccepted => exact haccepted

theorem StepsTo.pos (h : StepsTo cfg records ip R n p) : 0 < n := by
  cases h with
  | first => exact Nat.one_pos
  | next => exact Nat.succ_pos _

/-- A chain is one for any relation that its consecutive knocks satisfy. -/
theorem StepsTo.mono (h : StepsTo cfg records ip R n p)
    (hR : ∀ k p q, 0 < k → k < n → AcceptedAt cfg records ip k p →
      AcceptedAt cfg records ip (k + 1) q → p < q → R p q → R' p q) :
    StepsTo cfg records ip R' n p := by
  induction h with
  | first haccepted => exact .first haccepted
  | @next n p q hbefore hlt haccepted hbetween hrel ih =>
    refine .next (ih fun k p q hpos hk => hR k p q hpos (Nat.lt_succ_of_lt hk)) hlt haccepted
      hbetween ?_
    exact hR n p q hbefore.pos (Nat.lt_succ_self n) hbefore.acceptedAt haccepted hlt hrel

/-- A chain stays a chain when the run goes on. -/
theorem StepsTo.append (h : StepsTo cfg records ip R n p) :
    StepsTo cfg (records ++ more) ip R n p := by
  induction h with
  | first haccepted => exact .first haccepted.append
  | next _ hlt haccepted hbetween hrel ih =>
    exact .next ih hlt haccepted.append (hbetween.append haccepted.lt_length.le) hrel

/-- The same for a chain within the window, where the relation looks at the records. -/
theorem StepsTo.append_inTime (h : StepsTo cfg records ip (HandledInTime cfg records) n p) :
    StepsTo cfg (records ++ more) ip (HandledInTime cfg (records ++ more)) n p := by
  have hsame : StepsTo cfg records ip (HandledInTime cfg (records ++ more)) n p := by
    refine h.mono fun k p q _ _ hp hq _ htime r r' hr hr' => ?_
    rw [List.getElem?_append_left hp.lt_length] at hr
    rw [List.getElem?_append_left hq.lt_length] at hr'
    exact htime r r' hr hr'
  exact hsame.append

end Chains

/-! ### The invariant -/

/-- An entry is the end of a chain: its last knock is the last one of its address that was
accepted. -/
structure EntrySteps (cfg : Config) (ip : UInt32) (c : KnockClient) (records : List KnockRecord)
    (p : ℕ) : Prop where
  steps : StepsTo cfg records ip (HandledInTime cfg records) c.currentStep p
  time : ∀ r, records[p]? = some r → r.time = c.lastKnock
  since : NothingBetween records ip p records.length

/-- Entries and completions are ends of chains. -/
structure StepsInv (cfg : Config) (ip : UInt32) (e : Option KnockClient)
    (records : List KnockRecord) : Prop where
  entry : ∀ c, e = some c → ∃ p, EntrySteps cfg ip c records p
  complete : ∀ q r, records[q]? = some r → r.ip = ip → r.result = .complete →
    StepsTo cfg records ip (HandledInTime cfg records) cfg.knockSeqLen.toNat q

section Invariant

variable {cfg : Config} {ip : UInt32} {c : KnockClient} {records : List KnockRecord}
  {r : KnockRecord} {n p : ℕ}

/-- Only the last position of a longer list is new. -/
theorem getElem?_concat_cases {q : ℕ} {r' : KnockRecord}
    (h : (records ++ [r])[q]? = some r') :
    records[q]? = some r' ∨ q = records.length ∧ r' = r := by
  rw [List.getElem?_append] at h
  split at h
  · exact Or.inl h
  · rw [List.getElem?_singleton] at h
    split at h
    · exact Or.inr ⟨by omega, (Option.some.inj h).symm⟩
    · cases h

theorem acceptedAt_concat (haccepted : r.accepted = some n)
    (hport : cfg.knockSequence[n - 1]? = some r.port) :
    AcceptedAt cfg (records ++ [r]) r.ip n records.length :=
  ⟨r, by simp, rfl, haccepted, hport⟩

/-- A knock that is not accepted, or not one of this address, ends no chain and cuts
none. -/
theorem EntrySteps.concat (h : EntrySteps cfg ip c records p)
    (hr : r.ip = ip → r.accepted = none) : EntrySteps cfg ip c (records ++ [r]) p where
  steps := h.steps.append_inTime
  time r' hr' := by
    rw [List.getElem?_append_left h.steps.acceptedAt.lt_length] at hr'
    exact h.time r' hr'
  since m r' hlo _ hr' hip := by
    rcases getElem?_concat_cases hr' with hold | ⟨-, rfl⟩
    · exact h.since m r' hlo (List.getElem?_eq_some_iff.mp hold).1 hold hip
    · exact hr hip

/-- A knock accepted as the next step within the window extends the chain. -/
theorem EntrySteps.extend (h : EntrySteps cfg r.ip c records p)
    (haccepted : r.accepted = some (c.currentStep + 1))
    (hport : cfg.knockSequence[c.currentStep]? = some r.port)
    (htime : r.time - c.lastKnock ≤ cfg.knockWindow) :
    StepsTo cfg (records ++ [r]) r.ip (HandledInTime cfg (records ++ [r])) (c.currentStep + 1)
      records.length := by
  refine .next h.steps.append_inTime h.steps.acceptedAt.lt_length
    (acceptedAt_concat haccepted hport) (h.since.append le_rfl) fun a b ha hb => ?_
  rw [List.getElem?_append_left h.steps.acceptedAt.lt_length] at ha
  have hb' : b = r := by simpa using hb.symm
  rw [h.time a ha, hb']
  exact htime

/-- The chain that ends with the newest knock, as the steps behind an entry. -/
theorem entrySteps_of_last {c' : KnockClient}
    (h : StepsTo cfg (records ++ [r]) r.ip (HandledInTime cfg (records ++ [r])) c'.currentStep
      records.length) (htime : c'.lastKnock = r.time) :
    EntrySteps cfg r.ip c' (records ++ [r]) records.length where
  steps := h
  time r' hr' := by
    have : r' = r := by simpa using hr'.symm
    rw [this, htime]
  since m r' hlo hhi := by
    rw [List.length_append, List.length_singleton] at hhi
    omega

/-- One more record, with what has to be shown about it. -/
theorem StepsInv.concat {e e' : Option KnockClient} (h : StepsInv cfg ip e records)
    (hentry : ∀ c, e' = some c → ∃ p, EntrySteps cfg ip c (records ++ [r]) p)
    (hnew : r.ip = ip → r.result = .complete →
      StepsTo cfg (records ++ [r]) ip (HandledInTime cfg (records ++ [r]))
        cfg.knockSeqLen.toNat records.length) :
    StepsInv cfg ip e' (records ++ [r]) where
  entry := hentry
  complete q r' hr' hip hres := by
    rcases getElem?_concat_cases hr' with hold | ⟨rfl, rfl⟩
    · exact (h.complete q r' hold hip hres).append_inTime
    · exact hnew hip hres

/-- An own knock keeps the invariant. -/
theorem StepsInv.own {e e' : Option KnockClient} (h : StepsInv cfg r.ip e records)
    (hstep : OwnStep cfg e r e') : StepsInv cfg r.ip e' (records ++ [r]) := by
  cases hstep with
  | untracked hres _ =>
    refine h.concat (fun c hc => (by cases hc)) fun _ hcomplete => ?_
    cases hres.symm.trans hcomplete
  | admitted hport hres hacc =>
    refine h.concat (fun c hc => ?_) fun _ hcomplete => ?_
    · cases hc
      exact ⟨_, entrySteps_of_last (.first (acceptedAt_concat hacc hport)) rfl⟩
    · cases hres.symm.trans hcomplete
  | @tracked c c' r hc hmove =>
    obtain ⟨p, hp⟩ := h.entry c rfl
    obtain ⟨time, ip, port, result, accepted⟩ := r
    cases hmove with
    | retransmit =>
      -- not accepted: the chain ends where it did
      refine h.concat (fun d hd => ?_) fun _ hcomplete => (by cases hcomplete)
      split at hd
      · cases hd
        exact ⟨p, hp.concat fun _ => rfl⟩
      · cases hd
    | complete htime hport hlast =>
      refine h.concat (fun d hd => (by cases hd)) fun _ _ => ?_
      have hlen : cfg.knockSeqLen.toNat = c.currentStep + 1 := by omega
      rw [hlen]
      exact hp.extend rfl hport htime
    | advance htime hport hlast =>
      refine h.concat (fun d hd => ?_) fun _ hcomplete => (by cases hcomplete)
      split at hd
      · cases hd
        exact ⟨_, entrySteps_of_last (hp.extend rfl hport htime) rfl⟩
      · cases hd
    | restart hport =>
      -- the old chain is left behind and a new one begins
      refine h.concat (fun d hd => ?_) fun _ hcomplete => (by cases hcomplete)
      split at hd
      · cases hd
        exact ⟨_, entrySteps_of_last (.first (acceptedAt_concat rfl hport)) rfl⟩
      · cases hd
    | discard c' _ _ _ hdead =>
      refine h.concat (fun d hd => ?_) fun _ hcomplete => (by cases hcomplete)
      rw [hdead] at hd
      cases hd

end Invariant

theorem stepsInv_knockerRun {cfg : Config} (hcfg : cfg.SequenceValid) (calls : List KnockerCall)
    (ip : UInt32) :
    StepsInv cfg ip (clientEntry (knockerRun cfg calls).1 ip) (knockerRun cfg calls).2 := by
  refine knockerRun_history (P := StepsInv cfg) hcfg ?_ ?_ ?_ ?_ calls ip
  · intro ip
    exact ⟨fun c hc => (by cases hc), fun q r hr => (by cases hr)⟩
  · rintro ip e r e' records hP rfl hstep
    exact hP.own hstep
  · intro ip e r records hP hne
    refine hP.concat (fun c hc => ?_) fun hip => absurd hip hne
    obtain ⟨p, hp⟩ := hP.entry c hc
    exact ⟨p, hp.concat fun hip => absurd hip hne⟩
  · intro ip e records hP
    exact ⟨fun c hc => (by cases hc), hP.complete⟩

/-- Every completion ends a chain of accepted steps, as long as the sequence, in which
each knock was handled within the window of the one before. -/
theorem stepsTo_of_complete {cfg : Config} (hcfg : cfg.SequenceValid) (calls : List KnockerCall)
    {q : ℕ} {r : KnockRecord} (hr : (knockerRun cfg calls).2[q]? = some r)
    (hres : r.result = .complete) :
    StepsTo cfg (knockerRun cfg calls).2 r.ip (HandledInTime cfg (knockerRun cfg calls).2)
      cfg.knockSeqLen.toNat q :=
  (stepsInv_knockerRun hcfg calls r.ip).complete q r hr rfl hres

end Knockd
