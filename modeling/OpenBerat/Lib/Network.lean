/-
**Networks of addresses.**

A network is the addresses between its first and its last one: its bits with zeros behind
them, and with ones.

* `Network.mem_iff`: an address is in the network when its leading bits are the network's.
* `masked_eq_iff`: comparing them under a mask is the same.
-/

import Mathlib.Data.BitVec

namespace OpenBerat.Lib

/-- The addresses of width `width` that begin with `bits`. -/
structure Network (width : Nat) where
  length : Nat
  bits : BitVec length
  fits : length ≤ width

namespace Network

variable {width : Nat}

/-- The lowest address of a network. -/
def first (network : Network width) : BitVec width :=
  BitVec.ofNat width (network.bits.toNat * 2 ^ (width - network.length))

/-- The highest address of a network. -/
def last (network : Network width) : BitVec width :=
  BitVec.ofNat width (network.bits.toNat * 2 ^ (width - network.length) +
    (2 ^ (width - network.length) - 1))

instance : Membership (BitVec width) (Network width) where
  mem network ip := network.first ≤ ip ∧ ip ≤ network.last

/-- The network and any bits behind it make an address. -/
theorem bits_bound (network : Network width) {rest : Nat}
    (small : rest < 2 ^ (width - network.length)) :
    network.bits.toNat * 2 ^ (width - network.length) + rest < 2 ^ width := by
  have split : 2 ^ width = 2 ^ network.length * 2 ^ (width - network.length) := by
    rw [← Nat.pow_add, Nat.add_sub_cancel' network.fits]
  have bound := Nat.mul_le_mul_right (2 ^ (width - network.length))
    (Nat.succ_le_of_lt network.bits.isLt)
  rw [Nat.succ_mul] at bound
  omega

/-- **The leading bits decide.** -/
theorem mem_iff {network : Network width} {ip : BitVec width} :
    ip ∈ network ↔ ip.extractLsb' (width - network.length) network.length = network.bits := by
  have positive : 0 < 2 ^ (width - network.length) := Nat.two_pow_pos _
  have first : network.first.toNat = network.bits.toNat * 2 ^ (width - network.length) :=
    Nat.mod_eq_of_lt (network.bits_bound positive)
  have last : network.last.toNat =
      network.bits.toNat * 2 ^ (width - network.length) + (2 ^ (width - network.length) - 1) :=
    Nat.mod_eq_of_lt (network.bits_bound (Nat.sub_lt positive one_pos))
  have high : ip.toNat / 2 ^ (width - network.length) < 2 ^ network.length := by
    rw [Nat.div_lt_iff_lt_mul positive, ← Nat.pow_add, Nat.add_sub_cancel' network.fits]
    exact ip.isLt
  rw [← BitVec.toNat_inj, BitVec.extractLsb'_toNat, Nat.shiftRight_eq_div_pow,
    Nat.mod_eq_of_lt high, Nat.div_eq_iff positive, Nat.add_sub_assoc positive, ← last, ← first]
  exact and_congr BitVec.le_def BitVec.le_def

end Network

/-- **Under a mask**: its leading ones keep the bits that are compared. -/
theorem masked_eq_iff {width length : Nat} (fits : length ≤ width) {ip : BitVec width}
    {bits : BitVec length} :
    ip &&& BitVec.allOnes width <<< (width - length) =
      bits.setWidth width <<< (width - length) ↔
      ip.extractLsb' (width - length) length = bits := by
  constructor
  · intro same
    ext index bound
    have each := congrArg (fun word => word.getLsbD (width - length + index)) same
    have above : (width - length + index < width - length) = False :=
      eq_false (Nat.not_lt.mpr (Nat.le_add_right _ _))
    have inside : (width - length + index < width) = True := eq_true (by omega)
    have short : (index < width) = True := eq_true (by omega)
    simp only [BitVec.getLsbD_and, BitVec.getLsbD_shiftLeft, BitVec.getLsbD_allOnes,
      BitVec.getLsbD_setWidth, Nat.add_sub_cancel_left, above, inside, short, decide_true,
      decide_false, Bool.not_false, Bool.true_and, Bool.and_true] at each
    rw [BitVec.getElem_extractLsb', each, BitVec.getLsbD_eq_getElem bound]
  · rintro rfl
    ext index bound
    simp only [BitVec.getElem_and, BitVec.getElem_shiftLeft]
    by_cases low : index < width - length
    · simp [low]
    · simp [low, show index - (width - length) < length by omega,
        show width - length + (index - (width - length)) = index by omega,
        BitVec.getLsbD_eq_getElem bound]

end OpenBerat.Lib
