import Knockd.Knocker.Table

/-!
# Invariants of an address's history

What the table says about an address is explained by the knocks that address has made.
Such explanations are invariants that relate the entry of an address to the records of
the run, and they all are proved the same way. An address's own knock moves its entry;
anyone else's call leaves the entry alone or, if it has expired, removes it. This file
states that once, as a rule.

## Main definitions

* `OwnStep` — what a knock does to the entry of the address that made it

## Main results

* `knockerRun_history` — the rule
-/

namespace Knockd

/-- What a knock does to the entry of its own address, with the record it leaves. -/
inductive OwnStep (cfg : Config) : Option KnockClient → KnockRecord → Option KnockClient → Prop
  | tracked {c c' : KnockClient} {r : KnockRecord} (hc : EntryInv cfg c)
      (hmove : EntryMove cfg r.time c r.port c' r.result r.accepted) :
      OwnStep cfg (some c) r (if c'.active then some c' else none)
  | untracked {r : KnockRecord} (hresult : r.result = .reset) (haccepted : r.accepted = none) :
      OwnStep cfg none r none
  | admitted {r : KnockRecord} (hport : cfg.knockSequence[0]? = some r.port)
      (hresult : r.result = .inProgress) (haccepted : r.accepted = some 1) :
      OwnStep cfg none r (some ⟨r.ip, 1, r.time, r.port, true⟩)

section Rule

variable {cfg : Config} {t : ClientTable}

theorem ownStep_knockerProcess (hcfg : cfg.SequenceValid) (ht : TableInv cfg t)
    (now nowAlloc : ℤ) (ip : UInt32) (port : UInt16) :
    OwnStep cfg (clientEntry t ip)
      ((knockerProcess cfg now nowAlloc t ip port).record now ip port)
      (clientEntry (knockerProcess cfg now nowAlloc t ip port).clients ip) := by
  have hmove := knockerProcess_move hcfg ht now nowAlloc ip port
  rcases clientEntry_of_tableMove ht hmove with
    ⟨c, c', hc, hentry, hafter⟩ | ⟨hnone, hafter, hres, hacc, -⟩ | ⟨hnone, hport, hafter, hres, hacc⟩
  · rw [hc, hafter]
    exact .tracked (ht.entryInv hc) hentry
  · rw [hnone, hafter]
    exact .untracked hres hacc
  · rw [hnone, hafter]
    exact .admitted (r := (knockerProcess cfg now nowAlloc t ip port).record now ip port)
      hport hres hacc

variable {P : UInt32 → Option KnockClient → List KnockRecord → Prop}

theorem knockerStep_history (hcfg : cfg.SequenceValid)
    (hown : ∀ ip e r e' records, P ip e records → r.ip = ip → OwnStep cfg e r e' →
      P ip e' (records ++ [r]))
    (hother : ∀ ip e r records, P ip e records → r.ip ≠ ip → P ip e (records ++ [r]))
    (hlost : ∀ ip e records, P ip e records → P ip none records)
    (ht : TableInv cfg t) {records : List KnockRecord} (hP : ∀ ip, P ip (clientEntry t ip) records)
    (call : KnockerCall) (ip : UInt32) :
    P ip (clientEntry (knockerStep cfg t call).1 ip) (records ++ (knockerStep cfg t call).2) := by
  rcases call.isFrom_cases ip with ⟨now, nowAlloc, port, rfl⟩ | hfrom
  · exact hown ip _ _ _ _ (hP ip) rfl (ownStep_knockerProcess hcfg ht now nowAlloc ip port)
  · -- the records first, then the entry, which is the old one or gone
    have hrecords : P ip (clientEntry t ip) (records ++ (knockerStep cfg t call).2) := by
      cases call with
      | cleanup now => simpa [knockerStep] using hP ip
      | process now nowAlloc src port =>
        apply hother ip _ _ _ (hP ip)
        simpa [KnockerCall.isFrom, Processed.record] using hfrom
    rcases clientEntry_step_of_not_isFrom hcfg ht hfrom with hsame | ⟨c, -, hgone, -⟩
    · rwa [hsame]
    · rw [hgone]
      exact hlost ip _ _ hrecords

/-- The rule: a relation between entry and records that holds of an unknown address,
that its own knocks keep, that ignores the records of others and that survives losing
the entry, holds of every address in every run. -/
theorem knockerRun_history (hcfg : cfg.SequenceValid) (hinit : ∀ ip, P ip none [])
    (hown : ∀ ip e r e' records, P ip e records → r.ip = ip → OwnStep cfg e r e' →
      P ip e' (records ++ [r]))
    (hother : ∀ ip e r records, P ip e records → r.ip ≠ ip → P ip e (records ++ [r]))
    (hlost : ∀ ip e records, P ip e records → P ip none records)
    (calls : List KnockerCall) (ip : UInt32) :
    P ip (clientEntry (knockerRun cfg calls).1 ip) (knockerRun cfg calls).2 := by
  -- the induction is on the calls still to come, from any table and records so far
  have hfrom : ∀ (calls : List KnockerCall) (t : ClientTable) (records : List KnockRecord),
      TableInv cfg t → (∀ ip, P ip (clientEntry t ip) records) →
      P ip (clientEntry (knockerRunFrom cfg t calls).1 ip)
        (records ++ (knockerRunFrom cfg t calls).2) := by
    intro calls
    induction calls with
    | nil => intro t records _ hP; simpa [knockerRunFrom] using hP ip
    | cons call calls ih =>
      intro t records ht hP
      have hnext := ih _ _ (tableInv_knockerStep hcfg ht call)
        (knockerStep_history hcfg hown hother hlost ht hP call)
      simpa [knockerRunFrom, List.append_assoc] using hnext
  have hrun := hfrom calls (knockerInit cfg) [] (tableInv_knockerInit cfg) fun ip => by
    rw [clientEntry_knockerInit]
    exact hinit ip
  simpa [knockerRun] using hrun

end Rule

/-- A run with one more call. -/
theorem knockerRun_concat (cfg : Config) (calls : List KnockerCall) (call : KnockerCall) :
    knockerRun cfg (calls ++ [call]) =
      ((knockerStep cfg (knockerRun cfg calls).1 call).1,
        (knockerRun cfg calls).2 ++ (knockerStep cfg (knockerRun cfg calls).1 call).2) := by
  simp [knockerRun, knockerRunFrom_append, knockerRunFrom]

end Knockd
