import Mathlib.Data.Nat.Digits.Defs

/-! Numbers as they are printed: the text of a number determines it, and so does the
list of texts that are joined by a separator. -/

namespace Digits

theorem digitChar_injOn : ∀ n < 16, ∀ m < 16, n.digitChar = m.digitChar → n = m := by decide

/-- Every character is the digit of a number below the base. -/
theorem mem_toDigits {b n : Nat} (hb : 1 < b) {c : Char} (hc : c ∈ Nat.toDigits b n) :
    ∃ d < b, c = d.digitChar := by
  induction n using Nat.strongRecOn with
  | ind n ih =>
    rw [Nat.toDigits_eq_if hb] at hc
    split_ifs at hc with hn
    · exact ⟨n, hn, by simpa using hc⟩
    · rcases List.mem_append.mp hc with hc | hc
      · exact ih (n / b) (Nat.div_lt_self (by omega) hb) hc
      · exact ⟨n % b, Nat.mod_lt _ (by omega), by simpa using hc⟩

theorem notMem_toDigits {b n : Nat} (hb : 1 < b) (hb' : b ≤ 16) {c : Char}
    (hc : ∀ d < 16, c ≠ Nat.digitChar d) : c ∉ Nat.toDigits b n := by
  intro h
  obtain ⟨d, hd, he⟩ := mem_toDigits hb h
  exact hc d (by omega) he

theorem notMem_of_mem_map_toDigits {b : Nat} (hb : 1 < b) (hb' : b ≤ 16) {c : Char}
    (hc : ∀ d < 16, c ≠ Nat.digitChar d) {α : Type*} (f : α → Nat) (as : List α) :
    ∀ l ∈ as.map fun a => Nat.toDigits b (f a), c ∉ l := by
  intro l hl
  obtain ⟨a, _, rfl⟩ := List.mem_map.mp hl
  exact notMem_toDigits hb hb' hc

theorem toDigits_injective {b : Nat} (hb : 1 < b) (hb' : b ≤ 16) :
    Function.Injective (Nat.toDigits b) := by
  intro n
  induction n using Nat.strongRecOn with
  | ind n ih =>
    intro m h
    rw [Nat.toDigits_eq_if hb, Nat.toDigits_eq_if (n := m) hb] at h
    have hne (k : Nat) : (Nat.toDigits b k).length ≠ 0 := by simp
    by_cases hn : n < b
    · by_cases hm : m < b
      · simp only [hn, hm, if_true, List.cons.injEq, and_true] at h
        exact digitChar_injOn n (by omega) m (by omega) h
      · have hlen := congrArg List.length h
        simp only [hn, hm, if_true, if_false, List.length_append, List.length_singleton] at hlen
        exact absurd (by omega) (hne (m / b))
    · by_cases hm : m < b
      · have hlen := congrArg List.length h
        simp only [hn, hm, if_true, if_false, List.length_append, List.length_singleton] at hlen
        exact absurd (by omega) (hne (n / b))
      · simp only [hn, hm, if_false] at h
        obtain ⟨hdiv, hmod⟩ := List.append_inj' h rfl
        have hlow (k : Nat) : k % b < 16 := (Nat.mod_lt k (by omega)).trans_le hb'
        have hd := ih (n / b) (Nat.div_lt_self (by omega) hb) hdiv
        have hr := digitChar_injOn _ (hlow n) _ (hlow m) (by simpa using hmod)
        rw [← Nat.div_add_mod n b, ← Nat.div_add_mod m b, hd, hr]

theorem intercalate_injective {α : Type*} [DecidableEq α] {x : α} {ls ls' : List (List α)}
    (hls : ∀ l ∈ ls, x ∉ l) (hls' : ∀ l ∈ ls', x ∉ l) (hne : ls ≠ []) (hne' : ls' ≠ [])
    (h : [x].intercalate ls = [x].intercalate ls') : ls = ls' := by
  rw [← List.splitOn_intercalate x hls hne, h, List.splitOn_intercalate x hls' hne']

theorem mem_intercalate {α : Type*} {x c : α} {ls : List (List α)}
    (hc : c ∈ [x].intercalate ls) : c = x ∨ ∃ l ∈ ls, c ∈ l := by
  induction ls with
  | nil => simp at hc
  | cons l ls ih =>
    cases ls with
    | nil => exact .inr ⟨l, by simp, by simpa using hc⟩
    | cons l' ls =>
      rw [List.intercalate_cons_cons, List.append_assoc, List.mem_append, List.mem_append] at hc
      rcases hc with hc | hc | hc
      · exact .inr ⟨l, by simp, hc⟩
      · exact .inl (by simpa using hc)
      · obtain h | ⟨k, hk, hck⟩ := ih hc
        · exact .inl h
        · exact .inr ⟨k, by simp [List.mem_cons.mp hk], hck⟩

theorem eq_of_groups {w n a b : Nat} (hw : 0 < w) (ha : a < 2 ^ (w * n)) (hb : b < 2 ^ (w * n))
    (h : ∀ i < n, a >>> (w * i) % 2 ^ w = b >>> (w * i) % 2 ^ w) : a = b := by
  refine Nat.eq_of_testBit_eq fun j => ?_
  by_cases hj : j < w * n
  · have hgroup := congrArg (Nat.testBit · (j % w)) (h (j / w) (Nat.div_lt_of_lt_mul hj))
    simpa [Nat.testBit_mod_two_pow, Nat.mod_lt j hw, Nat.div_add_mod] using hgroup
  · have hle : 2 ^ (w * n) ≤ 2 ^ j := Nat.pow_le_pow_right (by decide) (not_lt.mp hj)
    rw [Nat.testBit_lt_two_pow (ha.trans_le hle), Nat.testBit_lt_two_pow (hb.trans_le hle)]

/-- The groups of `w` bits that start at the given places, printed in base `b`. -/
def joined (sep : Char) (b w : Nat) (shifts : List Nat) (a : Nat) : List Char :=
  [sep].intercalate (shifts.map fun shift => Nat.toDigits b (a >>> shift % 2 ^ w))

section Joined

variable {sep : Char} {b w : Nat} {shifts : List Nat}

theorem notMem_joined (hb : 1 < b) (hb' : b ≤ 16) {c : Char} (hsep : c ≠ sep)
    (hc : ∀ d < 16, c ≠ Nat.digitChar d) (a : Nat) : c ∉ joined sep b w shifts a := by
  intro h
  rcases mem_intercalate h with h | ⟨l, hl, hcl⟩
  · exact hsep h
  · exact notMem_of_mem_map_toDigits hb hb' hc _ shifts l hl hcl

theorem joined_inj (hb : 1 < b) (hb' : b ≤ 16) (hsep : ∀ d < 16, sep ≠ Nat.digitChar d)
    (hw : 0 < w) {n : Nat} (hshifts : ∀ i < n, w * i ∈ shifts) (hne : shifts ≠ []) {a a' : Nat}
    (ha : a < 2 ^ (w * n)) (ha' : a' < 2 ^ (w * n))
    (h : joined sep b w shifts a = joined sep b w shifts a') : a = a' := by
  have hparts := intercalate_injective (notMem_of_mem_map_toDigits hb hb' hsep _ shifts)
    (notMem_of_mem_map_toDigits hb hb' hsep _ shifts) (by simpa using hne) (by simpa using hne) h
  refine eq_of_groups hw ha ha' fun i hi => ?_
  exact toDigits_injective hb hb' (List.map_inj_left.mp hparts _ (hshifts i hi))

end Joined

end Digits
