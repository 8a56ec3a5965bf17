import Mathlib.Data.BitVec
import Mathlib.Data.List.Induction

/-! Bytes of a plain `char` that are put together by shifts and ors. Each byte is widened
with its sign, so a byte with its highest bit set overwrites everything above it. -/

namespace SignedBytes

def join (w : Nat) (bs : List (BitVec 8)) : BitVec w :=
  bs.foldl (fun acc b => acc <<< 8 ||| b.signExtend w) 0

def bigEndian (bs : List (BitVec 8)) : Nat := bs.foldl (fun n b => n * 256 + b.toNat) 0

theorem join_concat (w : Nat) (bs : List (BitVec 8)) (b : BitVec 8) :
    join w (bs ++ [b]) = join w bs <<< 8 ||| b.signExtend w := by
  simp [join]

theorem bigEndian_concat (bs : List (BitVec 8)) (b : BitVec 8) :
    bigEndian (bs ++ [b]) = bigEndian bs * 256 + b.toNat := by
  simp [bigEndian]

theorem bigEndian_lt (bs : List (BitVec 8)) : bigEndian bs < 256 ^ bs.length := by
  induction bs using List.reverseRecOn with
  | nil => simp [bigEndian]
  | append_singleton bs b ih =>
    have hb := b.isLt
    rw [bigEndian_concat, List.length_append, List.length_singleton, pow_succ]
    omega

/-- The largest value is reached with all bits set only. -/
theorem bigEndian_eq_max_iff (bs : List (BitVec 8)) :
    bigEndian bs + 1 = 256 ^ bs.length ↔ ∀ b ∈ bs, b = 255#8 := by
  induction bs using List.reverseRecOn with
  | nil => simp [bigEndian]
  | append_singleton bs b ih =>
    have hlt := bigEndian_lt bs
    have hb := b.isLt
    have hval : b = 255#8 ↔ b.toNat = 255 := ⟨fun h => h ▸ rfl, fun h => BitVec.eq_of_toNat_eq h⟩
    have hmax : bigEndian (bs ++ [b]) + 1 = 256 ^ (bs ++ [b]).length ↔
        bigEndian bs + 1 = 256 ^ bs.length ∧ b.toNat = 255 := by
      rw [bigEndian_concat, List.length_append, List.length_singleton, pow_succ]
      omega
    rw [hmax, ih, ← hval]
    simp only [List.mem_append, List.mem_singleton, or_imp, forall_and, forall_eq]

theorem toNat_or_of_not_msb {w : Nat} (hw : 8 ≤ w) (x : BitVec w) {b : BitVec 8}
    (hb : b.msb = false) :
    (x <<< 8 ||| b.signExtend w).toNat = x.toNat * 256 % 2 ^ w + b.toNat := by
  have hlt := b.isLt
  have hshift : x.toNat * 256 % 2 ^ w = (x.toNat % 2 ^ (w - 8)) <<< 8 := by
    rw [Nat.shiftLeft_eq, show (2 : Nat) ^ 8 = 256 from rfl, ← Nat.mul_mod_mul_right,
      show (256 : Nat) = 2 ^ 8 from rfl, ← pow_add, Nat.sub_add_cancel hw]
  rw [BitVec.signExtend_eq_setWidth_of_msb_false hb, BitVec.toNat_or, BitVec.toNat_shiftLeft,
    BitVec.toNat_setWidth_of_le hw, Nat.shiftLeft_eq, show (2 : Nat) ^ 8 = 256 from rfl, hshift,
    Nat.shiftLeft_add_eq_or_of_lt hlt]

theorem or_of_msb {w : Nat} (x : BitVec w) {b : BitVec 8} (hb : b.msb = true) :
    x <<< 8 ||| b.signExtend w = b.signExtend w := by
  ext i hi
  simp only [BitVec.getElem_or, BitVec.getElem_shiftLeft, BitVec.getElem_signExtend]
  by_cases h8 : i < 8
  · simp [h8]
  · simp [h8, hb]

theorem toNat_signExtend_of_msb {w : Nat} (hw : 8 ≤ w) {b : BitVec 8} (hb : b.msb = true) :
    (b.signExtend w).toNat + 256 = 2 ^ w + b.toNat := by
  have hle : (2 : Nat) ^ 8 ≤ 2 ^ w := Nat.pow_le_pow_right (by omega) hw
  rw [BitVec.toNat_signExtend, BitVec.toNat_setWidth_of_le hw, if_pos hb]
  omega

theorem pow_dvd_two_pow {w n : Nat} (hw : 8 * (n + 1) ≤ w) : 256 ^ n * 256 ∣ 2 ^ w := by
  rw [← pow_succ, show (256 : Nat) = 2 ^ 8 from rfl, ← pow_mul]
  exact Nat.pow_dvd_pow 2 hw

theorem join_concat_mod_of_msb {w : Nat} {bs : List (BitVec 8)} (hw : 8 * (bs.length + 1) ≤ w)
    {b : BitVec 8} (hb : b.msb = true) :
    (join w (bs ++ [b])).toNat % (256 ^ bs.length * 256) =
      256 ^ bs.length * 256 - 256 + b.toNat := by
  have hlt := b.isLt
  have hpos : 0 < 256 ^ bs.length := Nat.pow_pos (by omega)
  have hsum := toNat_signExtend_of_msb (by omega : 8 ≤ w) hb
  obtain ⟨k, hk⟩ := pow_dvd_two_pow hw
  obtain ⟨j, rfl⟩ : ∃ j, k = j + 1 := Nat.exists_eq_succ_of_ne_zero (by rintro rfl; simp at hk)
  have hsplit : (b.signExtend w).toNat =
      256 ^ bs.length * 256 - 256 + b.toNat + 256 ^ bs.length * 256 * j := by
    rw [hk, Nat.mul_add, Nat.mul_one] at hsum
    omega
  rw [join_concat, or_of_msb _ hb, hsplit, Nat.add_mul_mod_self_left, Nat.mod_eq_of_lt (by omega)]

theorem join_concat_mod_of_not_msb {w : Nat} {bs : List (BitVec 8)}
    (hw : 8 * (bs.length + 1) ≤ w) {b : BitVec 8} (hb : b.msb = false) :
    (join w (bs ++ [b])).toNat % (256 ^ bs.length * 256) =
      (join w bs).toNat % 256 ^ bs.length * 256 + b.toNat := by
  have hlt := b.isLt
  have hmod := Nat.mod_lt (join w bs).toNat (Nat.pow_pos (by omega : 0 < 256) : 0 < 256 ^ bs.length)
  have hx : (join w bs).toNat * 256 % 2 ^ w % (256 ^ bs.length * 256) =
      (join w bs).toNat % 256 ^ bs.length * 256 := by
    rw [Nat.mod_mod_of_dvd _ (pow_dvd_two_pow hw), Nat.mul_mod_mul_right]
  have hsmall : (join w bs).toNat % 256 ^ bs.length * 256 + b.toNat < 256 ^ bs.length * 256 := by
    omega
  rw [join_concat, toNat_or_of_not_msb (by omega) _ hb, ← Nat.mod_add_mod, hx,
    Nat.mod_eq_of_lt hsmall]

/-- Truncated to the bytes that were put together, the result is their big-endian value
if and only if all bits are set in each byte above one that is negative. -/
theorem join_mod_eq_iff {w : Nat} {bs : List (BitVec 8)} (hw : 8 * bs.length ≤ w) :
    (join w bs).toNat % 256 ^ bs.length = bigEndian bs ↔
      bs.Pairwise fun b c => c.msb = true → b = 255#8 := by
  induction bs using List.reverseRecOn with
  | nil => simp [bigEndian, Nat.mod_one]
  | append_singleton bs b ih =>
    rw [List.length_append, List.length_singleton] at hw ⊢
    have hlt := b.isLt
    have hpos : 0 < 256 ^ bs.length := Nat.pow_pos (by omega)
    have hlast : (bs ++ [b]).Pairwise (fun b c => c.msb = true → b = 255#8) ↔
        bs.Pairwise (fun b c => c.msb = true → b = 255#8) ∧
          ∀ x ∈ bs, b.msb = true → x = 255#8 := by
      simp only [List.pairwise_append, List.pairwise_singleton, true_and, List.mem_singleton,
        forall_eq]
    rw [hlast, bigEndian_concat, pow_succ]
    cases hb : b.msb with
    | true =>
      have hones : bs.Pairwise (fun b c => c.msb = true → b = 255#8) ∧
          (∀ x ∈ bs, true = true → x = 255#8) ↔ bigEndian bs + 1 = 256 ^ bs.length := by
        rw [bigEndian_eq_max_iff]
        exact ⟨fun h x hx => h.2 x hx rfl, fun h =>
          ⟨List.pairwise_of_forall_mem_list fun x hx _ _ _ => h x hx, fun x hx _ => h x hx⟩⟩
      rw [join_concat_mod_of_msb hw hb, hones]
      omega
    | false =>
      rw [join_concat_mod_of_not_msb hw hb, ← ih (by omega)]
      simp only [Bool.false_eq_true, false_implies, implies_true, and_true]
      omega

end SignedBytes
