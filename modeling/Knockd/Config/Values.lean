import Mathlib.Data.List.Forall2
import Knockd.Model.ConfigFile

/-!
# What the value parsers accept

Each parser of `config.c` either stores the value it has read or leaves the globals
alone, and which of the two, and the value, depends on the text only. So a parser is a
partial function from texts to values. For the port list that function is spelled out as
a grammar: the runs between separators, each of them a numeral in the range of a port.

## Main definitions

* `intValue`, `sequenceValue`, `interfaceValue` — the values of texts
* `PortList` — the grammar of port lists, with the ports they denote

## Main results

* `parseInt_cfg`, `parseSequence_eq`, `parseInterface_cfg` — a parser stores the value or
  does nothing
* `parseSequence_accepts_grammar` — `parse_sequence` accepts its grammar and nothing else
-/

namespace Knockd

open CString (strtol runs ReadsWithin Numeral longMin longMax readsWithin_iff not_readsWithin_iff
  strtol_value_of_numeral)

/-! ### Values of texts -/

/-- The number a text denotes, if `parse_int` takes it. -/
def intValue (val : List Char) : Option ℤ :=
  if ReadsWithin intMin intMax val then some (strtol val).value else none

/-- The port a token denotes. -/
def entryPort (tok : List Char) : UInt16 := UInt16.ofInt (strtol tok).value

/-- The ports a text denotes, if `parse_sequence` takes it. -/
def sequenceValue (val : List Char) : Option (List UInt16) :=
  if val.length < scratchSize ∧ runs isSeparator val ≠ [] ∧
      (runs isSeparator val).length ≤ maxKnockSeqLen ∧
      ∀ tok ∈ runs isSeparator val, ReadsWithin 1 65535 tok then
    some ((runs isSeparator val).map entryPort)
  else none

/-- The name a text denotes, if `parse_interface` takes it. -/
def interfaceValue (val : List Char) : Option (List Char) :=
  if val.length < ifnameMax then some val else none

section Parsers

variable {cfg : Config} {key val : List Char} {store : ℤ → Config}

theorem parseInt_cfg : (parseInt cfg key val store).cfg = (intValue val).elim cfg store := by
  simp only [parseInt, intValue]
  by_cases hreads : ReadsWithin intMin intMax val
  · have hok := not_or.mp (mt not_readsWithin_iff.mpr (not_not.mpr hreads))
    obtain ⟨hrest, hrange⟩ := not_or.mp hok.2
    rw [if_pos hreads, if_neg (not_or.mpr ⟨hok.1, hrest⟩), if_neg hrange]
    rfl
  · rw [if_neg hreads]
    -- the text is not a number, or it is one and the range is wrong
    by_cases hwhole : (strtol val).rest = val ∨ (strtol val).rest ≠ []
    · rw [if_pos hwhole]
      rfl
    · have hrange := or_assoc.mpr (not_readsWithin_iff.mp hreads)
      rw [if_neg hwhole, if_pos (hrange.resolve_left hwhole)]
      rfl

theorem parseInterface_cfg :
    (parseInterface cfg val).cfg =
      (interfaceValue val).elim cfg fun name => { cfg with knockInterface := name } := by
  unfold parseInterface interfaceValue
  by_cases hempty : val = []
  · rw [if_pos hempty, if_pos (by rw [hempty]; decide), hempty]
    rfl
  · rw [if_neg hempty]
    by_cases hfits : val.length < ifnameMax
    · rw [if_neg (Nat.not_le.mpr hfits), if_pos hfits]
      rfl
    · rw [if_pos (Nat.not_lt.mp hfits), if_neg hfits]
      rfl

/-- The loop over the tokens appends the port of each, or gives up. -/
theorem parseEntries_eq (cfg : Config) (toks : List (List Char)) (seq : List UInt16)
    (hseq : seq.length ≤ maxKnockSeqLen) :
    ((∀ tok ∈ toks, ReadsWithin 1 65535 tok) ∧ seq.length + toks.length ≤ maxKnockSeqLen ∧
        parseEntries cfg toks seq = .ok (seq ++ toks.map entryPort)) ∨
      (¬ ((∀ tok ∈ toks, ReadsWithin 1 65535 tok) ∧
          seq.length + toks.length ≤ maxKnockSeqLen) ∧
        ∃ log, parseEntries cfg toks seq = .error log) := by
  induction toks generalizing seq with
  | nil => exact Or.inl ⟨by simp, hseq, by simp [parseEntries]⟩
  | cons tok toks ih =>
    by_cases hfull : seq.length ≥ maxKnockSeqLen
    · refine Or.inr ⟨fun h => ?_, _, by rw [parseEntries, if_pos hfull]⟩
      have := h.2
      rw [List.length_cons] at this
      omega
    · by_cases hreads : ReadsWithin 1 65535 tok
      · have hstep : parseEntries cfg (tok :: toks) seq =
            parseEntries cfg toks (seq ++ [entryPort tok]) := by
          rw [parseEntries, if_neg hfull]
          exact if_neg (mt not_readsWithin_iff.mpr (not_not.mpr hreads))
        have hlen : (seq ++ [entryPort tok]).length = seq.length + 1 := by simp
        have hshift : seq.length + 1 + toks.length = seq.length + (tok :: toks).length := by
          rw [List.length_cons]
          omega
        have hnext := ih (seq ++ [entryPort tok]) (by omega)
        rw [hlen, hshift, ← hstep] at hnext
        simpa [hreads] using hnext
      · refine Or.inr ⟨fun h => hreads (h.1 tok List.mem_cons_self), ?_⟩
        rw [parseEntries, if_neg hfull]
        exact ⟨_, if_pos (not_readsWithin_iff.mp hreads)⟩

/-- `parse_sequence` installs the value of the text and returns zero, or it returns minus
one and leaves the globals alone. -/
theorem parseSequence_eq (cfg : Config) (val : List Char) :
    (∃ seq, sequenceValue val = some seq ∧ (parseSequence cfg val).rc = 0 ∧
        (parseSequence cfg val).cfg = cfg.installSequence seq) ∨
      (sequenceValue val = none ∧ (parseSequence cfg val).rc = -1 ∧
        (parseSequence cfg val).cfg = cfg) := by
  unfold parseSequence sequenceValue
  rw [CString.strtokAll_eq_runs]
  by_cases hlong : val.length ≥ scratchSize
  · rw [if_pos hlong, if_neg (fun h => absurd h.1 (Nat.not_lt.mpr hlong))]
    exact Or.inr ⟨rfl, rfl, rfl⟩
  · rw [if_neg hlong]
    generalize runs isSeparator val = toks
    rcases parseEntries_eq cfg toks [] (Nat.zero_le _) with ⟨hall, hlen, hok⟩ | ⟨hnot, log, herror⟩
    · rw [hok, List.nil_append]
      rw [List.length_nil, Nat.zero_add] at hlen
      by_cases hempty : toks = []
      · subst hempty
        refine Or.inr ⟨if_neg ?_, rfl, rfl⟩
        exact fun h => h.2.1 rfl
      · have hne : ¬ (toks.map entryPort).length = 0 := by simpa using hempty
        dsimp only
        rw [if_neg hne, if_pos ⟨Nat.not_le.mp hlong, hempty, hlen, hall⟩]
        exact Or.inl ⟨_, rfl, rfl, rfl⟩
    · rw [herror, if_neg]
      · exact Or.inr ⟨rfl, rfl, rfl⟩
      · rintro ⟨-, -, hlen, hall⟩
        exact hnot ⟨hall, by simpa using hlen⟩

theorem parseSequence_cfg :
    (parseSequence cfg val).cfg = (sequenceValue val).elim cfg cfg.installSequence := by
  rcases parseSequence_eq cfg val with ⟨seq, hvalue, -, hcfg⟩ | ⟨hvalue, -, hcfg⟩
  · rw [hvalue, hcfg]
    rfl
  · rw [hvalue, hcfg]
    rfl

end Parsers

/-! ### The sequence installed -/

section Install

variable {cfg : Config} {seq : List UInt16}

theorem length_of_sequenceValue {val : List Char} (h : sequenceValue val = some seq) :
    1 ≤ seq.length ∧ seq.length ≤ maxKnockSeqLen := by
  unfold sequenceValue at h
  split at h
  · rename_i hcond
    rw [← Option.some.inj h, List.length_map]
    exact ⟨List.length_pos_iff.mpr hcond.2.1, hcond.2.2.1⟩
  · cases h

theorem installSequence_getElem? (cfg : Config) (seq : List UInt16) (i : ℕ) :
    (cfg.installSequence seq).knockSequence[i]? =
      cfg.knockSequence[i]?.map fun port => seq[i]?.getD port := by
  by_cases hi : i < maxKnockSeqLen
  · simp [Config.installSequence, hi]
    rfl
  · simp [Config.installSequence, hi]

/-- Up to its length the array holds what was installed. -/
theorem sequence_installSequence (hseq : seq.length ≤ maxKnockSeqLen) :
    (cfg.installSequence seq).sequence = seq := by
  apply List.ext_getElem?
  intro i
  rw [Config.sequence, List.getElem?_take, Vector.getElem?_toList, installSequence_getElem?]
  by_cases hi : i < seq.length
  · have hi' : i < maxKnockSeqLen := by omega
    simp [Config.installSequence, hi, hi']
  · simp [Config.installSequence, hi]

end Install

/-! ### The grammar of port lists -/

/-- The run is a numeral of this port. -/
def PortNumeral (run : List Char) (port : ℕ) : Prop := Numeral run port ∧ 1 ≤ port ∧ port ≤ 65535

/-- The text is short enough to be looked at, has one to sixteen runs between separators,
and the runs are numerals of these ports, in this order. -/
structure PortList (val : List Char) (ports : List ℕ) : Prop where
  length_le : val.length ≤ 255
  one_le_runs : 1 ≤ (runs isSeparator val).length
  runs_le : (runs isSeparator val).length ≤ 16
  entries : List.Forall₂ PortNumeral (runs isSeparator val) ports

section Grammar

variable {val : List Char} {ports : List ℕ}

/-- A port survives the cast to sixteen bits. -/
theorem toNat_entryPort {tok : List Char} {port : ℕ} (hnum : Numeral tok port)
    (hport : port ≤ 65535) : (entryPort tok).toNat = port := by
  have hvalue : (strtol tok).value = port := by
    apply strtol_value_of_numeral hnum
    · simp only [longMin]
      omega
    · simp only [longMax]
      omega
  rw [entryPort, hvalue, UInt16.ofInt, UInt16.toNat_ofNat']
  omega

theorem readsWithin_port_iff {tok : List Char} :
    ReadsWithin 1 65535 tok ↔ ∃ port, PortNumeral tok port := by
  rw [readsWithin_iff (by decide) (by decide)]
  constructor
  · rintro ⟨z, hnum, hlow, hhigh⟩
    obtain ⟨port, rfl⟩ : ∃ port : ℕ, z = port := ⟨z.toNat, by omega⟩
    exact ⟨port, hnum, by omega, by omega⟩
  · rintro ⟨port, hnum, hlow, hhigh⟩
    exact ⟨port, hnum, by omega, by omega⟩

/-- Tokens that all read as ports are numerals of the ports they are cast to. -/
theorem forall₂_entryPort {toks : List (List Char)} (h : ∀ tok ∈ toks, ReadsWithin 1 65535 tok) :
    List.Forall₂ PortNumeral toks ((toks.map entryPort).map UInt16.toNat) := by
  rw [List.map_map, List.forall₂_map_right_iff, List.forall₂_same]
  intro tok htok
  obtain ⟨port, hnum, hlow, hhigh⟩ := readsWithin_port_iff.mp (h tok htok)
  rw [Function.comp_apply, toNat_entryPort hnum hhigh]
  exact ⟨hnum, hlow, hhigh⟩

theorem eq_map_entryPort {toks : List (List Char)}
    (h : List.Forall₂ PortNumeral toks ports) :
    (∀ tok ∈ toks, ReadsWithin 1 65535 tok) ∧ (toks.map entryPort).map UInt16.toNat = ports := by
  induction h with
  | nil => simp
  | cons hentry _ ih =>
    refine ⟨List.forall_mem_cons.mpr ⟨readsWithin_port_iff.mpr ⟨_, hentry⟩, ih.1⟩, ?_⟩
    rw [List.map_cons, List.map_cons, ih.2, toNat_entryPort hentry.1 hentry.2.2]

/-- A text is a port list exactly when it has a value, and then the value is the list. -/
theorem portList_iff : PortList val ports ↔
    ∃ seq, sequenceValue val = some seq ∧ seq.map UInt16.toNat = ports := by
  unfold sequenceValue
  constructor
  · rintro ⟨hlength, hone, hsixteen, hentries⟩
    obtain ⟨hall, hports⟩ := eq_map_entryPort hentries
    refine ⟨_, if_pos ⟨?_, List.length_pos_iff.mp hone, hsixteen, hall⟩, hports⟩
    exact Nat.lt_succ_of_le hlength
  · rintro ⟨seq, hvalue, rfl⟩
    split at hvalue
    · rename_i hcond
      obtain ⟨hlength, hne, hsixteen, hall⟩ := hcond
      rw [← Option.some.inj hvalue]
      exact ⟨Nat.le_of_lt_succ hlength, List.length_pos_iff.mpr hne, hsixteen,
        forall₂_entryPort hall⟩
    · cases hvalue

end Grammar

/-- **`parse_sequence` accepts exactly its grammar, and all or nothing.** It returns zero
on the port lists and minus one on every other text. On a port list the length becomes the
number of ports, the array up to that length becomes these ports, and no other global
changes; on any other text no global changes at all. -/
theorem parseSequence_accepts_grammar (cfg : Config) (val : List Char) :
    ((parseSequence cfg val).rc = 0 ↔ ∃ ports, PortList val ports) ∧
      (∀ ports, PortList val ports →
        (parseSequence cfg val).cfg.knockSeqLen = ports.length ∧
        (parseSequence cfg val).cfg.sequence.map UInt16.toNat = ports ∧
        (parseSequence cfg val).cfg =
          { cfg with
            knockSeqLen := (parseSequence cfg val).cfg.knockSeqLen
            knockSequence := (parseSequence cfg val).cfg.knockSequence }) ∧
      ((¬ ∃ ports, PortList val ports) →
        (parseSequence cfg val).rc = -1 ∧ (parseSequence cfg val).cfg = cfg) := by
  rcases parseSequence_eq cfg val with ⟨seq, hvalue, hrc, hcfg⟩ | ⟨hvalue, hrc, hcfg⟩
  · have hlist : PortList val (seq.map UInt16.toNat) := portList_iff.mpr ⟨seq, hvalue, rfl⟩
    refine ⟨⟨fun _ => ⟨_, hlist⟩, fun _ => hrc⟩, fun ports hports => ?_,
      fun hnone => absurd ⟨_, hlist⟩ hnone⟩
    obtain ⟨seq', hvalue', rfl⟩ := portList_iff.mp hports
    obtain rfl : seq = seq' := Option.some.inj (hvalue.symm.trans hvalue')
    rw [hcfg]
    refine ⟨by rw [List.length_map]; rfl, ?_, rfl⟩
    rw [sequence_installSequence (length_of_sequenceValue hvalue).2]
  · have hnone : ¬ ∃ ports, PortList val ports := by
      rintro ⟨ports, hports⟩
      obtain ⟨seq, hvalue', -⟩ := portList_iff.mp hports
      rw [hvalue] at hvalue'
      cases hvalue'
    refine ⟨⟨fun hzero => ?_, fun h => absurd h hnone⟩, fun ports hports =>
      absurd ⟨ports, hports⟩ hnone, fun _ => ⟨hrc, hcfg⟩⟩
    rw [hrc] at hzero
    cases hzero

end Knockd
