import Mathlib.Data.BitVec
import Mathlib.Data.List.TakeWhile

/-! Character arrays as the C library reads them: up to the first NUL. -/

namespace CString

def isdigit (c : BitVec 8) : Bool := decide (48 ≤ c.toNat ∧ c.toNat ≤ 57)

def isspace (c : BitVec 8) : Bool := decide (c.toNat = 32 ∨ 9 ≤ c.toNat ∧ c.toNat ≤ 13)

/-- The characters in front of the first NUL. -/
def string (array : List (BitVec 8)) : List (BitVec 8) := array.takeWhile fun c => decide (c ≠ 0)

theorem string_cons (c : BitVec 8) (cs : List (BitVec 8)) :
    string (c :: cs) = if c = 0 then [] else c :: string cs := by
  unfold string
  split_ifs with hnul
  · rw [List.takeWhile_cons_of_neg (by simp [hnul])]
  · exact List.takeWhile_cons_of_pos (by simpa using hnul)

theorem string_append_nul {array : List (BitVec 8)} (h : ∀ c ∈ array, c ≠ 0)
    (rest : List (BitVec 8)) : string (array ++ 0 :: rest) = array := by
  induction array with
  | nil => exact string_cons 0 rest
  | cons c cs ih =>
    rw [List.forall_mem_cons] at h
    rw [List.cons_append, string_cons, if_neg h.1, ih h.2]

def digitsValue (digits : List (BitVec 8)) : Nat :=
  digits.foldl (fun n c => n * 10 + (c.toNat - 48)) 0

def atoi (array : List (BitVec 8)) : Int :=
  match (string array).dropWhile isspace with
  | [] => 0
  | c :: cs =>
    if c = 45 then -(digitsValue (cs.takeWhile isdigit) : Int)
    else if c = 43 then digitsValue (cs.takeWhile isdigit)
    else digitsValue ((c :: cs).takeWhile isdigit)

theorem isdigit_plain : ∀ c : BitVec 8, isdigit c = true →
    isspace c = false ∧ c ≠ 45 ∧ c ≠ 43 ∧ c ≠ 0 := by
  decide

theorem atoi_of_digits {array : List (BitVec 8)} (h : ∀ c ∈ string array, isdigit c = true) :
    atoi array = digitsValue (string array) := by
  unfold atoi
  cases hstring : string array with
  | nil => rfl
  | cons c cs =>
    rw [hstring] at h
    obtain ⟨hspace, hminus, hplus, -⟩ := isdigit_plain c (h c List.mem_cons_self)
    have hall : (c :: cs).takeWhile isdigit = c :: cs := List.takeWhile_eq_self_iff.mpr h
    rw [List.dropWhile_cons_of_neg (by simp [hspace])]
    simp only [if_neg hminus, if_neg hplus, hall]

end CString
