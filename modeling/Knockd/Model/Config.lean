import Mathlib.Data.List.Nodup
import Mathlib.Data.Nat.Notation
import Mathlib.Data.Int.Notation

/-!
# The runtime configuration

Every tunable of the daemon is a global that `config_load` fills in and
`config_validate` checks; the threads only read them. The model collects the
globals in one record. The knock sequence is, as in the source, a fixed array of
sixteen ports together with a length, so ports past the length are present but
meaningless.

## Main definitions

* `Config` — the globals of `config.c`
* `Config.sequence` — the ports that count: the array cut at its length
* `Config.Valid` — what `config_validate` leaves behind
* `Config.default` — the values compiled in
-/

namespace Knockd

/-- Upper bound on how many ports a knock sequence may contain. -/
def maxKnockSeqLen : ℕ := 16

/-- Buffer size for the capture interface name, its terminator included. -/
def ifnameMax : ℕ := 32

/-- The configuration globals. `knockInterface` is the name up to its
terminator; empty means every interface. -/
structure Config where
  knockSeqLen : ℤ
  knockSequence : Vector UInt16 maxKnockSeqLen
  protectedPort : ℤ
  accessTimeout : ℤ
  knockWindow : ℤ
  maxClients : ℤ
  logLevel : ℤ
  knockInterface : List Char
  deriving DecidableEq

namespace Config

/-- The knock sequence proper: the first `KNOCK_SEQ_LEN` ports of the array. -/
def sequence (cfg : Config) : List UInt16 :=
  cfg.knockSequence.toList.take cfg.knockSeqLen.toNat

/-- The configuration with the ports of another sequence. -/
abbrev withSequence (cfg : Config) (sequence : Vector UInt16 maxKnockSeqLen) : Config :=
  { cfg with knockSequence := sequence }

/-- What the validator guarantees of the sequence: two to sixteen ports, none of
them zero and no two alike. -/
structure SequenceValid (cfg : Config) : Prop where
  two_le_len : 2 ≤ cfg.knockSeqLen
  len_le : cfg.knockSeqLen ≤ maxKnockSeqLen
  ports_ne_zero : 0 ∉ cfg.sequence
  ports_nodup : cfg.sequence.Nodup

/-- A configuration as `config_validate` leaves it. -/
structure Valid (cfg : Config) : Prop extends SequenceValid cfg where
  port_pos : 1 ≤ cfg.protectedPort
  port_le : cfg.protectedPort ≤ 65535
  timeout_pos : 1 ≤ cfg.accessTimeout
  window_pos : 1 ≤ cfg.knockWindow
  clients_pos : 1 ≤ cfg.maxClients
  clients_le : cfg.maxClients ≤ 65536
  level_nonneg : 0 ≤ cfg.logLevel
  level_le : cfg.logLevel ≤ 3
  interface_fits : cfg.knockInterface.length < ifnameMax

/-- The sequence compiled in, `DEFAULT_SEQUENCE`. -/
def defaultSequence : List UInt16 := [7000, 8000, 9000]

/-- The initial values of the globals. -/
def default : Config where
  knockSeqLen := 3
  knockSequence := #v[7000, 8000, 9000, 0, 0, 0, 0, 0, 0, 0, 0, 0, 0, 0, 0, 0]
  protectedPort := 22
  accessTimeout := 30
  knockWindow := 15
  maxClients := 64
  logLevel := 2
  knockInterface := []

/-! ### Reading the sequence

The state machine indexes the raw array. Below the length this agrees with
indexing `sequence`, where validity speaks. -/

section Reading

variable {cfg : Config} {i j : ℕ} {p : UInt16}

theorem sequence_getElem? (h : (i : ℤ) < cfg.knockSeqLen) :
    cfg.sequence[i]? = cfg.knockSequence[i]? := by
  have hi : i < cfg.knockSeqLen.toNat := by omega
  rw [sequence, List.getElem?_take, if_pos hi, Vector.getElem?_toList]

namespace SequenceValid

variable (hcfg : cfg.SequenceValid)
include hcfg

theorem length_sequence : (cfg.sequence.length : ℤ) = cfg.knockSeqLen := by
  have h₁ := hcfg.two_le_len
  have h₂ := hcfg.len_le
  rw [sequence, List.length_take, Vector.length_toList]
  omega

theorem port_ne_zero (h : (i : ℤ) < cfg.knockSeqLen)
    (hp : cfg.knockSequence[i]? = some p) : p ≠ 0 := by
  rintro rfl
  rw [← sequence_getElem? h] at hp
  exact hcfg.ports_ne_zero (List.mem_of_getElem? hp)

/-- Distinct positions of the sequence hold distinct ports. -/
theorem port_inj (hi : (i : ℤ) < cfg.knockSeqLen) (hj : (j : ℤ) < cfg.knockSeqLen)
    (hpi : cfg.knockSequence[i]? = some p) (hpj : cfg.knockSequence[j]? = some p) :
    i = j := by
  rw [← sequence_getElem? hi] at hpi
  rw [← sequence_getElem? hj] at hpj
  obtain ⟨hli, -⟩ := List.getElem?_eq_some_iff.mp hpi
  exact (List.getElem?_inj hli hcfg.ports_nodup).mp (hpi.trans hpj.symm)

theorem first_lt : ((0 : ℕ) : ℤ) < cfg.knockSeqLen := by
  have := hcfg.two_le_len
  omega

theorem second_lt : ((1 : ℕ) : ℤ) < cfg.knockSeqLen := by
  have := hcfg.two_le_len
  omega

end SequenceValid

end Reading

theorem default_valid : default.Valid where
  two_le_len := by decide
  len_le := by decide
  ports_ne_zero := by decide
  ports_nodup := by decide
  port_pos := by decide
  port_le := by decide
  timeout_pos := by decide
  window_pos := by decide
  clients_pos := by decide
  clients_le := by decide
  level_nonneg := by decide
  level_le := by decide
  interface_fits := by decide

end Config

end Knockd
