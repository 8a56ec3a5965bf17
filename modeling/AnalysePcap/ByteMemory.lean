import Mathlib.Data.List.Basic
import Mathlib.Tactic.IntervalCases
import Mathlib.Tactic.SplitIfs

/-! A memory of bytes with words of 32 and 64 bits, the lowest byte first. -/

namespace ByteMemory

abbrev Memory := Nat → BitVec 8

def load (m : Memory) (a n : Nat) : List (BitVec 8) := (List.range n).map fun i => m (a + i)

def store (m : Memory) (a : Nat) (bytes : List (BitVec 8)) : Memory :=
  fun x => if x < a then m x else bytes[x - a]?.getD (m x)

def loadU32 (m : Memory) (a : Nat) : Nat :=
  (m a).toNat + 2 ^ 8 * (m (a + 1)).toNat + 2 ^ 16 * (m (a + 2)).toNat +
    2 ^ 24 * (m (a + 3)).toNat

def storeU32 (m : Memory) (a n : Nat) : Memory :=
  store m a [BitVec.ofNat 8 n, BitVec.ofNat 8 (n / 2 ^ 8), BitVec.ofNat 8 (n / 2 ^ 16),
    BitVec.ofNat 8 (n / 2 ^ 24)]

/-- What is left of a number in 32 or 64 bits, and differences in them. -/
@[irreducible] def u32 (n : Nat) : Nat := n % 2 ^ 32

@[irreducible] def u64 (n : Nat) : Nat := n % 2 ^ 64

@[irreducible] def sub32 (a b : Nat) : Nat := (a + 2 ^ 32 - b % 2 ^ 32) % 2 ^ 32

@[irreducible] def sub64 (a b : Nat) : Nat := (a + 2 ^ 64 - b % 2 ^ 64) % 2 ^ 64

variable {m m' : Memory} {a n x : Nat} {bytes : List (BitVec 8)}

theorem u32_of_lt (h : n < 2 ^ 32) : u32 n = n := by
  unfold u32
  exact Nat.mod_eq_of_lt h

theorem u32_le (n : Nat) : u32 n ≤ n := by
  unfold u32
  exact Nat.mod_le n _

theorem u64_of_lt (h : n < 2 ^ 64) : u64 n = n := by
  unfold u64
  exact Nat.mod_eq_of_lt h

theorem sub32_of_le {b : Nat} (hab : b ≤ a) (ha : a < 2 ^ 32) : sub32 a b = a - b := by
  unfold sub32
  omega

theorem sub64_of_le {b : Nat} (hab : b ≤ a) (ha : a < 2 ^ 64) : sub64 a b = a - b := by
  unfold sub64
  omega

@[simp] theorem length_load (m : Memory) (a n : Nat) : (load m a n).length = n := by
  simp [load]

theorem store_outside (h : x < a ∨ a + bytes.length ≤ x) : store m a bytes x = m x := by
  unfold store
  split_ifs with hlt
  · rfl
  · rw [List.getElem?_eq_none (by omega)]
    rfl

theorem store_inside {i : Nat} (h : i < bytes.length) : store m a bytes (a + i) = bytes[i] := by
  unfold store
  rw [if_neg (by omega), Nat.add_sub_cancel_left, List.getElem?_eq_getElem h]
  rfl

theorem storeU32_outside (h : x < a ∨ a + 4 ≤ x) : storeU32 m a n x = m x :=
  store_outside h

/-- The two memories have the same bytes in `n` places from `a` on. -/
def Agree (m m' : Memory) (a n : Nat) : Prop := ∀ x, a ≤ x → x < a + n → m' x = m x

theorem Agree.mono {a' n' : Nat} (h : Agree m m' a n) (ha : a ≤ a') (hn : a' + n' ≤ a + n) :
    Agree m m' a' n' :=
  fun x hx hx' => h x (ha.trans hx) (hx'.trans_le hn)

theorem agree_store {b : Nat} (h : a + n ≤ b ∨ b + bytes.length ≤ a) :
    Agree m (store m b bytes) a n :=
  fun _ _ _ => store_outside (by omega)

theorem agree_storeU32 {b k : Nat} (h : a + n ≤ b ∨ b + 4 ≤ a) : Agree m (storeU32 m b k) a n :=
  agree_store h

theorem Agree.load (h : Agree m m' a n) : load m' a n = load m a n := by
  refine List.map_congr_left fun i hi => h _ (Nat.le_add_right a i) ?_
  have hlt := List.mem_range.mp hi
  omega

theorem Agree.loadU32 (h : Agree m m' a 4) : loadU32 m' a = loadU32 m a := by
  unfold ByteMemory.loadU32
  rw [h a le_rfl (by omega), h (a + 1) (by omega) (by omega), h (a + 2) (by omega) (by omega),
    h (a + 3) (by omega) (by omega)]

theorem loadU32_lt (m : Memory) (a : Nat) : loadU32 m a < 2 ^ 32 := by
  unfold loadU32
  have h₀ := (m a).isLt
  have h₁ := (m (a + 1)).isLt
  have h₂ := (m (a + 2)).isLt
  have h₃ := (m (a + 3)).isLt
  omega

theorem load_store_self (m : Memory) (a : Nat) (bytes : List (BitVec 8)) :
    load (store m a bytes) a bytes.length = bytes := by
  refine List.ext_getElem (length_load _ _ _) fun i _ hi => ?_
  simp only [load, List.getElem_map, List.getElem_range]
  exact store_inside hi

theorem load_add (m : Memory) (a n k : Nat) :
    load m a (n + k) = load m a n ++ load m (a + n) k := by
  unfold load
  rw [List.range_add, List.map_append, List.map_map]
  congr 1
  refine List.map_congr_left fun i _ => ?_
  simp only [Function.comp_apply, Nat.add_assoc]

theorem load_store_start (m : Memory) (a : Nat) (h : n ≤ bytes.length) :
    load (store m a bytes) a n = bytes.take n := by
  have hsplit := load_add (store m a bytes) a n (bytes.length - n)
  rw [Nat.add_sub_cancel' h, load_store_self] at hsplit
  have htake := congrArg (List.take n) hsplit
  rw [List.take_left' (length_load _ _ _)] at htake
  exact htake.symm

/-- The first bytes of a memory after a store that may reach into them. -/
theorem load_store_zero (m : Memory) (h : n ≤ a + bytes.length) :
    load (store m a bytes) 0 n = (load m 0 n).take a ++ bytes.take (n - a) := by
  by_cases hn : n ≤ a
  · have hkeep : Agree m (store m a bytes) 0 n := agree_store (by omega)
    rw [hkeep.load, List.take_of_length_le (by rwa [length_load]), Nat.sub_eq_zero_of_le hn,
      List.take_zero, List.append_nil]
  · obtain ⟨k, rfl⟩ := Nat.exists_eq_add_of_le (Nat.le_of_not_le hn)
    have hkeep : Agree m (store m a bytes) 0 a := agree_store (by omega)
    rw [load_add, hkeep.load, Nat.zero_add, load_store_start m a (by omega), load_add,
      List.take_left' (length_load _ _ _), Nat.add_sub_cancel_left]

theorem storeU32_inside (m : Memory) (a n : Nat) {i : Nat} (h : i < 4) :
    storeU32 m a n (a + i) = BitVec.ofNat 8 (n / 2 ^ (8 * i)) := by
  rw [storeU32, store_inside h]
  interval_cases i <;> simp

theorem loadU32_storeU32 (m : Memory) (a : Nat) (h : n < 2 ^ 32) :
    loadU32 (storeU32 m a n) a = n := by
  have hbyte (i : Nat) (hi : i < 4) := storeU32_inside m a n hi
  have h₀ := hbyte 0 (by omega)
  rw [Nat.add_zero] at h₀
  unfold loadU32
  rw [h₀, hbyte 1 (by omega), hbyte 2 (by omega), hbyte 3 (by omega)]
  simp only [BitVec.toNat_ofNat]
  omega

def loadU64 (m : Memory) (a : Nat) : Nat := loadU32 m a + 2 ^ 32 * loadU32 m (a + 4)

def storeU64 (m : Memory) (a n : Nat) : Memory := storeU32 (storeU32 m a n) (a + 4) (n / 2 ^ 32)

theorem storeU64_inside (m : Memory) (a n : Nat) {i : Nat} (h : i < 8) :
    storeU64 m a n (a + i) = BitVec.ofNat 8 (n / 2 ^ (8 * i)) := by
  by_cases hi : i < 4
  · rw [storeU64, storeU32_outside (by omega), storeU32_inside m a n hi]
  · obtain ⟨j, rfl⟩ := Nat.exists_eq_add_of_le (Nat.le_of_not_lt hi)
    rw [storeU64, ← Nat.add_assoc, storeU32_inside _ _ _ (by omega), Nat.div_div_eq_div_mul,
      ← Nat.pow_add, Nat.mul_add]

theorem storeU64_outside (m : Memory) (a n : Nat) (h : x < a ∨ a + 8 ≤ x) :
    storeU64 m a n x = m x := by
  rw [storeU64, storeU32_outside (by omega), storeU32_outside (by omega)]

/-- One more in a word of 64 bits is one more in its lowest byte, unless that byte is full. -/
theorem storeU64_succ (h : (m a).toNat < 255) :
    storeU64 m a ((loadU64 m a + 1) % 2 ^ 64) = Function.update m a (m a + 1) := by
  have hbyte (i : Nat) : (m (a + i)).toNat < 2 ^ 8 := (m (a + i)).isLt
  have h₁ := hbyte 1
  have h₂ := hbyte 2
  have h₃ := hbyte 3
  have h₄ := hbyte 4
  have h₅ := hbyte 5
  have h₆ := hbyte 6
  have h₇ := hbyte 7
  have hword : (loadU64 m a + 1) % 2 ^ 64 = (m a).toNat + 1 + 2 ^ 8 * (m (a + 1)).toNat +
      2 ^ 16 * (m (a + 2)).toNat + 2 ^ 24 * (m (a + 3)).toNat + 2 ^ 32 * (m (a + 4)).toNat +
      2 ^ 40 * (m (a + 5)).toNat + 2 ^ 48 * (m (a + 6)).toNat + 2 ^ 56 * (m (a + 7)).toNat := by
    unfold loadU64 loadU32
    simp only [Nat.add_assoc, Nat.reduceAdd]
    omega
  funext x
  by_cases hx : x < a ∨ a + 8 ≤ x
  · rw [storeU64_outside m a _ hx, Function.update_of_ne (by omega)]
  · obtain ⟨i, rfl⟩ := Nat.exists_eq_add_of_le (show a ≤ x by omega)
    have hi : i < 8 := by omega
    rw [storeU64_inside m a _ hi, hword]
    refine BitVec.eq_of_toNat_eq ?_
    rw [BitVec.toNat_ofNat]
    by_cases hzero : i = 0
    · subst hzero
      have hself : Function.update m a (m a + 1) (a + 0) = m a + 1 := Function.update_self a _ _
      have hone : (1 : BitVec 8).toNat = 1 := rfl
      rw [hself, BitVec.toNat_add, hone, Nat.mul_zero, Nat.pow_zero, Nat.div_one]
      omega
    · rw [Function.update_of_ne (by omega)]
      interval_cases i <;> omega

theorem load_zero (h : ∀ x, a ≤ x → m x = 0) : load m a n = List.replicate n 0 := by
  refine List.ext_getElem (by simp) fun i _ _ => ?_
  simp only [load, List.getElem_map, List.getElem_range, List.getElem_replicate]
  exact h _ (Nat.le_add_right a i)

end ByteMemory
