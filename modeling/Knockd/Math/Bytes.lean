import Mathlib.Data.List.Basic
import Mathlib.Data.Nat.Notation

/-!
# Integers as bytes

A sixteen-bit integer in network order, a thirty-two-bit integer in the order of a
little-endian memory, and nibbles of a byte. Every pair, every quadruple of bytes is
the image of one integer, which is how a parser's reading of a header is turned back
into the header.

## Main definitions

* `Bytes.be16`, `Bytes.le32` — an integer as two, as four bytes

## Main results

* `ofNat_be16`, `ofNat_le32` — reading the bytes back
* `exists_be16`, `exists_le32` — all bytes are such bytes
* `exists_pair`, `exists_word` — cutting two bytes, four bytes off a list
-/

namespace Bytes

/-- Most significant byte first. -/
def be16 (x : UInt16) : List UInt8 := [(x >>> 8).toUInt8, x.toUInt8]

/-- Least significant byte first. -/
def le32 (x : UInt32) : List UInt8 :=
  [x.toUInt8, (x >>> 8).toUInt8, (x >>> 16).toUInt8, (x >>> 24).toUInt8]

theorem ofNat_be16 (x : UInt16) :
    UInt16.ofNat ((x >>> 8).toUInt8.toNat * 256 + x.toUInt8.toNat) = x := by
  have hx := x.toNat_lt
  apply UInt16.toNat_inj.mp
  simp [UInt16.toNat_shiftRight, Nat.shiftRight_eq_div_pow]
  omega

theorem ofNat_le32 (x : UInt32) :
    UInt32.ofNat (x.toUInt8.toNat + (x >>> 8).toUInt8.toNat * 256 +
      (x >>> 16).toUInt8.toNat * 65536 + (x >>> 24).toUInt8.toNat * 16777216) = x := by
  have hx := x.toNat_lt
  apply UInt32.toNat_inj.mp
  simp [UInt32.toNat_shiftRight, Nat.shiftRight_eq_div_pow]
  omega

theorem exists_be16 (hi lo : UInt8) : ∃ x, be16 x = [hi, lo] := by
  have hhi := hi.toNat_lt
  have hlo := lo.toNat_lt
  refine ⟨UInt16.ofNat (hi.toNat * 256 + lo.toNat), ?_⟩
  rw [be16, List.cons.injEq, List.cons.injEq]
  refine ⟨UInt8.toNat_inj.mp ?_, UInt8.toNat_inj.mp ?_, rfl⟩
  · simp [UInt16.toNat_shiftRight, Nat.shiftRight_eq_div_pow]
    omega
  · simp

theorem exists_le32 (a b c d : UInt8) : ∃ x, le32 x = [a, b, c, d] := by
  have ha := a.toNat_lt
  have hb := b.toNat_lt
  have hc := c.toNat_lt
  have hd := d.toNat_lt
  refine ⟨UInt32.ofNat (a.toNat + b.toNat * 256 + c.toNat * 65536 + d.toNat * 16777216), ?_⟩
  rw [le32, List.cons.injEq, List.cons.injEq, List.cons.injEq, List.cons.injEq]
  refine ⟨UInt8.toNat_inj.mp ?_, UInt8.toNat_inj.mp ?_, UInt8.toNat_inj.mp ?_,
    UInt8.toNat_inj.mp ?_, rfl⟩
  · simp
  · simp [UInt32.toNat_shiftRight, Nat.shiftRight_eq_div_pow]
    omega
  · simp [UInt32.toNat_shiftRight, Nat.shiftRight_eq_div_pow]
    omega
  · simp [UInt32.toNat_shiftRight, Nat.shiftRight_eq_div_pow]
    omega

/-- A list of at least two bytes starts with a pair. -/
theorem exists_pair {l : List UInt8} {n : ℕ} (h : n + 2 ≤ l.length) :
    ∃ a b rest, l = a :: b :: rest ∧ n ≤ rest.length := by
  match l, h with
  | a :: b :: rest, h => exact ⟨a, b, rest, rfl, by simpa using h⟩

/-- A list of at least four bytes starts with a word. -/
theorem exists_word {l : List UInt8} {n : ℕ} (h : n + 4 ≤ l.length) :
    ∃ a b c d rest, l = a :: b :: c :: d :: rest ∧ n ≤ rest.length := by
  match l, h with
  | a :: b :: c :: d :: rest, h => exact ⟨a, b, c, d, rest, rfl, by simpa using h⟩

/-! ### The nibbles of a byte -/

theorem toNat_high (b : UInt8) : (b >>> 4).toNat = b.toNat / 16 := by
  simp [UInt8.toNat_shiftRight, Nat.shiftRight_eq_div_pow]

theorem toNat_low (b : UInt8) : (b &&& 0x0f).toNat = b.toNat % 16 := by
  rw [UInt8.toNat_and]
  exact Nat.and_two_pow_sub_one_eq_mod b.toNat 4

end Bytes
