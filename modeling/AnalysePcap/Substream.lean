import Mathlib.Algebra.BigOperators.Group.Finset.Basic
import Mathlib.Data.List.Induction

/-! Lists whose elements may carry a key. The substream of a key keeps the elements that
carry it, and the places are counted where one kind of element is immediately followed by
another. Everything is described by what appending one element changes. -/

namespace Substream

variable {α κ : Type*}

/-- The number of places where an element with `p` is immediately followed by one with `q`. -/
def adjacent (p q : α → Bool) (as : List α) : Nat :=
  (as.zip as.tail).countP fun e => p e.1 && q e.2

theorem adjacent_cons_cons (p q : α → Bool) (a b : α) (as : List α) :
    adjacent p q (a :: b :: as) = adjacent p q (b :: as) + if p a && q b then 1 else 0 := by
  simp only [adjacent, List.tail_cons, List.zip_cons_cons, List.countP_cons]

theorem adjacent_concat (p q : α → Bool) (as : List α) (a : α) :
    adjacent p q (as ++ [a]) = adjacent p q as + if as.getLast?.any p && q a then 1 else 0 := by
  induction as with
  | nil => rfl
  | cons b as ih =>
    cases as with
    | nil => exact adjacent_cons_cons p q b a []
    | cons c cs =>
      rw [List.cons_append, List.cons_append, adjacent_cons_cons, adjacent_cons_cons,
        ← List.cons_append, ih, List.getLast?_cons_cons]
      omega

theorem adjacent_and_add_adjacent_and_not (p q r : α → Bool) (as : List α) :
    adjacent p (fun a => q a && r a) as + adjacent p (fun a => q a && !r a) as =
      adjacent p q as := by
  induction as using List.reverseRecOn with
  | nil => rfl
  | append_singleton as a ih =>
    simp only [adjacent_concat, ← ih]
    cases as.getLast?.any p <;> cases q a <;> cases r a <;> simp <;> omega

variable [DecidableEq κ]

def substream (key : α → Option κ) (k : κ) (as : List α) : List α :=
  as.filter fun a => key a = some k

variable {key : α → Option κ} {k : κ} {a : α}

theorem substream_concat_self (h : key a = some k) (as : List α) :
    substream key k (as ++ [a]) = substream key k as ++ [a] := by
  simp [substream, h]

theorem substream_concat_of_ne (h : key a ≠ some k) (as : List α) :
    substream key k (as ++ [a]) = substream key k as := by
  simp [substream, h]

theorem mem_of_getLast?_substream {as : List α} (h : (substream key k as).getLast? = some a) :
    a ∈ as :=
  List.mem_of_mem_filter (List.mem_of_getLast? h)

/-- The places in the substreams of a set of keys: only the substream of the new element
can gain one. -/
theorem sum_adjacent_concat (p q : α → Bool) {ks : Finset κ} (h : key a = some k) (hk : k ∈ ks)
    (as : List α) :
    ∑ k' ∈ ks, adjacent p q (substream key k' (as ++ [a])) =
      ∑ k' ∈ ks, adjacent p q (substream key k' as) +
        if (substream key k as).getLast?.any p && q a then 1 else 0 := by
  have hother : ∀ k' ∈ ks.erase k, adjacent p q (substream key k' (as ++ [a])) =
      adjacent p q (substream key k' as) := by
    intro k' hk'
    have hne : key a ≠ some k' := by
      rw [h]
      exact fun he => Finset.ne_of_mem_erase hk' (Option.some.inj he).symm
    rw [substream_concat_of_ne hne]
  rw [← Finset.add_sum_erase ks _ hk, ← Finset.add_sum_erase ks _ hk,
    Finset.sum_congr rfl hother, substream_concat_self h, adjacent_concat]
  omega

theorem sum_adjacent_concat_of_none (p q : α → Bool) (ks : Finset κ) (h : key a = none)
    (as : List α) :
    ∑ k' ∈ ks, adjacent p q (substream key k' (as ++ [a])) =
      ∑ k' ∈ ks, adjacent p q (substream key k' as) := by
  refine Finset.sum_congr rfl fun k' _ => ?_
  rw [substream_concat_of_ne (by simp [h])]

end Substream
