import Knockd.Knocker.History

/-!
# Every completion uses up knocks of its own

However often an address completes the sequence, its knocks contain the sequence that
many times, one after the other. So no knock counts towards two completions, whatever
was repeated, restarted or discarded on the way.

## Main definitions

* `portsOf` — the ports an address has knocked
* `completions` — how often it has completed the sequence

## Main results

* `completions_sublist` — the sequence, once for each completion, is a sublist of the
  ports knocked
-/

namespace Knockd

/-- The ports an address has knocked, oldest first. -/
def portsOf (ip : UInt32) (records : List KnockRecord) : List UInt16 :=
  (records.filter (·.ip == ip)).map KnockRecord.port

/-- How often an address has completed the sequence. -/
def completions (ip : UInt32) (records : List KnockRecord) : ℕ :=
  records.countP fun r => r.ip == ip && r.result == .complete

/-- The part of the sequence an entry stands for. -/
def progress (cfg : Config) : Option KnockClient → List UInt16
  | some c => cfg.sequence.take c.currentStep
  | none => []

section Counting

variable {ip : UInt32} {records : List KnockRecord} {r : KnockRecord}

theorem portsOf_concat_self (h : r.ip = ip) :
    portsOf ip (records ++ [r]) = portsOf ip records ++ [r.port] := by
  simp [portsOf, h]

theorem portsOf_concat_of_ne (h : r.ip ≠ ip) : portsOf ip (records ++ [r]) = portsOf ip records := by
  simp [portsOf, h]

theorem completions_concat (ip : UInt32) (records : List KnockRecord) (r : KnockRecord) :
    completions ip (records ++ [r]) =
      completions ip records + if r.ip = ip ∧ r.result = .complete then 1 else 0 := by
  simp [completions, List.countP_append, List.countP_cons]

end Counting

section Progress

variable {cfg : Config} {port : UInt16} {k : ℕ}

/-- The sequence up to a step, and the port of that step. -/
theorem take_sequence_succ (hk : (k : ℤ) < cfg.knockSeqLen)
    (hport : cfg.knockSequence[k]? = some port) :
    cfg.sequence.take (k + 1) = cfg.sequence.take k ++ [port] := by
  rw [List.take_add_one, Config.sequence_getElem? hk, hport]
  rfl

theorem take_sequence_all (hcfg : cfg.SequenceValid) (hk : (k : ℤ) = cfg.knockSeqLen) :
    cfg.sequence.take k = cfg.sequence := by
  have hlen := hcfg.length_sequence
  exact List.take_of_length_le (by omega)

/-- The first port alone. -/
theorem take_sequence_one (hcfg : cfg.SequenceValid)
    (hport : cfg.knockSequence[0]? = some port) : cfg.sequence.take 1 = [port] :=
  take_sequence_succ hcfg.first_lt hport

variable {c c' : KnockClient} {now : ℤ} {res : KnockResult} {a : Option ℕ}

/-- What a move of an entry does to the part of the sequence it stands for: nothing new,
one port more, only the first port, or nothing, and one port more is the whole sequence
exactly when the move completes it. -/
theorem progress_of_entryMove (hcfg : cfg.SequenceValid) (hc : EntryInv cfg c)
    (h : EntryMove cfg now c port c' res a) :
    (res = .complete → progress cfg (some c) ++ [port] = cfg.sequence ∧ c'.active = false) ∧
      (res ≠ .complete → progress cfg (if c'.active then some c' else none) = progress cfg (some c) ∨
        progress cfg (if c'.active then some c' else none) = progress cfg (some c) ++ [port] ∨
        progress cfg (if c'.active then some c' else none) = [port] ∨
        progress cfg (if c'.active then some c' else none) = []) := by
  cases hactive : c'.active with
  | false =>
    refine ⟨fun hres => ⟨?_, rfl⟩, fun _ => Or.inr (Or.inr (Or.inr rfl))⟩
    obtain ⟨-, hport, hlast, -⟩ := h.of_complete hres
    rw [progress, ← take_sequence_succ hc.step_lt hport, take_sequence_all hcfg hlast]
  | true =>
    have hres := h.result_eq_of_active hactive
    refine ⟨fun hcomplete => (by cases hres.symm.trans hcomplete), fun _ => ?_⟩
    cases h with
    | retransmit => exact Or.inl rfl
    | complete => cases hactive
    | advance _ hport => exact Or.inr (Or.inl (take_sequence_succ hc.step_lt hport))
    | restart hport => exact Or.inr (Or.inr (Or.inl (take_sequence_one hcfg hport)))
    | discard => cases hres

end Progress

/-- The sequence, as often as the address has completed it, followed by what its entry
stands for, can be found among its ports in order. -/
def Accounted (cfg : Config) (ip : UInt32) (e : Option KnockClient)
    (records : List KnockRecord) : Prop :=
  ((List.replicate (completions ip records) cfg.sequence).flatten ++ progress cfg e).Sublist
    (portsOf ip records)

section Account

variable {cfg : Config} {e e' : Option KnockClient} {r : KnockRecord}
  {records : List KnockRecord}

/-- An own knock that does not complete the sequence. -/
theorem Accounted.own (h : Accounted cfg r.ip e records) (hres : r.result ≠ .complete)
    (hprogress : progress cfg e' = progress cfg e ∨ progress cfg e' = progress cfg e ++ [r.port] ∨
      progress cfg e' = [r.port] ∨ progress cfg e' = []) :
    Accounted cfg r.ip e' (records ++ [r]) := by
  unfold Accounted at h ⊢
  rw [portsOf_concat_self rfl, completions_concat, if_neg fun hr => hres hr.2, Nat.add_zero]
  -- the part of the entry may be given up, what the completions used may not
  have hused := (List.sublist_append_left _ (progress cfg e)).trans h
  rcases hprogress with hp | hp | hp | hp
  · rw [hp]
    exact h.trans (List.sublist_append_left ..)
  · rw [hp, ← List.append_assoc]
    exact h.append (List.Sublist.refl _)
  · rw [hp]
    exact hused.append (List.Sublist.refl _)
  · rw [hp, List.append_nil]
    exact hused.trans (List.sublist_append_left ..)

/-- An own knock that completes the sequence. -/
theorem Accounted.complete (h : Accounted cfg r.ip e records) (hres : r.result = .complete)
    (hall : progress cfg e ++ [r.port] = cfg.sequence) :
    Accounted cfg r.ip none (records ++ [r]) := by
  unfold Accounted at h ⊢
  rw [portsOf_concat_self rfl, completions_concat, if_pos ⟨rfl, hres⟩, List.replicate_succ',
    List.flatten_append, List.flatten_singleton, progress, List.append_nil]
  have hmore := h.append (List.Sublist.refl [r.port])
  rwa [List.append_assoc, hall] at hmore

end Account

theorem accounted_knockerRun {cfg : Config} (hcfg : cfg.SequenceValid) (calls : List KnockerCall)
    (ip : UInt32) :
    Accounted cfg ip (clientEntry (knockerRun cfg calls).1 ip) (knockerRun cfg calls).2 := by
  refine knockerRun_history (P := Accounted cfg) hcfg ?_ ?_ ?_ ?_ calls ip
  · intro ip
    simp [Accounted, completions, progress, portsOf]
  · rintro ip e r e' records hP rfl hstep
    cases hstep with
    | @tracked c c' r hc hmove =>
      obtain ⟨hcomplete, hother⟩ := progress_of_entryMove hcfg hc hmove
      by_cases hres : r.result = .complete
      · obtain ⟨hall, hdead⟩ := hcomplete hres
        rw [hdead]
        exact hP.complete hres hall
      · exact hP.own hres (hother hres)
    | untracked hres =>
      exact hP.own (by simp [hres]) (Or.inl rfl)
    | admitted hport hres =>
      exact hP.own (by simp [hres]) (Or.inr (Or.inr (Or.inl (take_sequence_one hcfg hport))))
  · intro ip e r records hP hne
    unfold Accounted at hP ⊢
    rw [portsOf_concat_of_ne hne, completions_concat, if_neg fun h => hne h.1]
    exact hP
  · intro ip e records hP
    simpa [Accounted, progress] using (List.sublist_append_left _ _).trans hP

/-- **No knock counts twice.** In every run, the sequence once for each completion of an
address is a sublist of the ports it knocked. -/
theorem completions_sublist {cfg : Config} (hcfg : cfg.SequenceValid) (calls : List KnockerCall)
    (ip : UInt32) :
    (List.replicate (completions ip (knockerRun cfg calls).2) cfg.sequence).flatten.Sublist
      (portsOf ip (knockerRun cfg calls).2) :=
  (List.sublist_append_left _ _).trans (accounted_knockerRun hcfg calls ip)

end Knockd
