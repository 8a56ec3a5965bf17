import Mathlib.Algebra.BigOperators.Group.List.Basic
import Mathlib.Data.List.AList
import Mathlib.Tactic.Abel

/-! A map from keys to counters, in which a key that is absent counts zero and a counter
that is cleared keeps its key. -/

namespace CounterMap

variable {κ V : Type*} [DecidableEq κ]

section Count

variable [Zero V]

def count (m : AList fun _ : κ => V) (k : κ) : V := (m.lookup k).getD 0

theorem count_insert (m : AList fun _ : κ => V) (k k' : κ) (v : V) :
    count (m.insert k v) k' = if k' = k then v else count m k' := by
  unfold count
  split_ifs with hk
  · rw [hk, AList.lookup_insert, Option.getD_some]
  · rw [AList.lookup_insert_ne hk]

/-- All counters are set to zero. -/
def clear (m : AList fun _ : κ => V) : AList fun _ : κ => V where
  entries := m.entries.map fun e => ⟨e.1, 0⟩
  nodupKeys := by
    have hkeys : (m.entries.map fun e => (⟨e.1, 0⟩ : Sigma fun _ : κ => V)).keys = m.entries.keys := by
      simp [List.keys]
    rw [List.NodupKeys, hkeys]
    exact m.nodupKeys

theorem count_clear (m : AList fun _ : κ => V) (k : κ) : count (clear m) k = 0 := by
  have hall (es : List (Sigma fun _ : κ => V)) :
      (List.dlookup k (es.map fun e => (⟨e.1, 0⟩ : Sigma fun _ : κ => V))).getD 0 = 0 := by
    induction es with
    | nil => rfl
    | cons e es ih =>
      by_cases hk : k = e.1
      · subst hk
        simp
      · have hne : k ≠ (⟨e.1, 0⟩ : Sigma fun _ : κ => V).1 := hk
        rw [List.map_cons, List.dlookup_cons_ne _ _ hne]
        exact ih
  exact hall m.entries

end Count

section Total

variable [AddCommMonoid V]

def total (m : AList fun _ : κ => V) : V := (m.entries.map Sigma.snd).sum

omit [DecidableEq κ] in
theorem total_clear (m : AList fun _ : κ => V) : total (clear m) = 0 := by
  refine List.sum_eq_zero fun v hv => ?_
  obtain ⟨e, he, rfl⟩ := List.mem_map.mp hv
  obtain ⟨_, _, rfl⟩ := List.mem_map.mp he
  rfl

/-- A new value takes the place of the old one. -/
theorem total_insert (m : AList fun _ : κ => V) (k : κ) (v : V) :
    total (m.insert k v) + count m k = total m + v := by
  unfold total
  rw [AList.entries_insert, List.map_cons, List.sum_cons]
  cases hk : m.lookup k with
  | none =>
    have habsent : k ∉ m.entries.keys := AList.lookup_eq_none.mp hk
    rw [List.kerase_of_notMem_keys habsent, count, hk, Option.getD_none, add_zero, add_comm]
  | some old =>
    have hmem : k ∈ m.entries.keys := AList.lookup_isSome.mp (by simp [hk])
    obtain ⟨v', pre, rest, hpre, hsplit, herase⟩ := List.exists_of_kerase hmem
    have hold : v' = old := by
      have hlookup : m.lookup k = some v' := by
        refine AList.mem_lookup_iff.mpr ?_
        rw [hsplit]
        simp
      rw [hk] at hlookup
      exact (Option.some.inj hlookup).symm
    rw [herase, hsplit, count, hk, Option.getD_some, ← hold]
    simp only [List.map_append, List.sum_append, List.map_cons, List.sum_cons]
    abel

end Total

end CounterMap
