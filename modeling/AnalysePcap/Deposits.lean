import AnalysePcap.Shelf
import Mathlib.Data.Fintype.Card

/-! Parties that have at most one entry each on a shelf. Entries of one key have one value, so that
it does not matter whose entry is found or deleted. -/

namespace Shelves

variable {ι κ α β : Type*} {places : α → List κ} {v : α → β} {c : Shelf κ α β}
  {key : ι → Option α} {spot : ι → κ} {i : ι} {a : α}

/-- `key i` is what the party `i` has put and not deleted, and `spot` says which entry counts as
its own. -/
structure Deposits (places : α → List κ) (v : α → β) (c : Shelf κ α β) (key : ι → Option α)
    (spot : ι → κ) : Prop where
  entry : ∀ {i a}, key i = some a → c (spot i) = some (a, v a)
  inj : ∀ {i j}, key i ≠ none → key j ≠ none → spot i = spot j → i = j
  all : ∀ {k e}, c k = some e → ∃ i, key i ≠ none ∧ spot i = k
  keyed : ∀ {k a b}, c k = some (a, b) → k ∈ places a

theorem deposits_empty (places : α → List κ) (v : α → β) (spot : ι → κ) :
    Deposits places v (fun _ => none) (fun _ => none) spot where
  entry h := by cases h
  inj h := absurd rfl h
  all h := by cases h
  keyed h := by cases h

/-- Parties with a place each leave one for the party that has none. -/
theorem Deposits.exists_free [Fintype ι] [DecidableEq ι] (h : Deposits places v c key spot)
    (hi : key i = none) (hnodup : (places a).Nodup) (hcard : Fintype.card ι ≤ (places a).length) :
    ∃ k ∈ places a, c k = none := by
  by_contra hfull
  push Not at hfull
  have hsub : places a ⊆ (Finset.univ.erase i).toList.map spot := by
    intro k hk
    obtain ⟨e, he⟩ := Option.ne_none_iff_exists'.mp (hfull k hk)
    obtain ⟨j, hj, rfl⟩ := h.all he
    refine List.mem_map.mpr ⟨j, Finset.mem_toList.mpr (Finset.mem_erase.mpr ⟨?_, ?_⟩), rfl⟩
    · rintro rfl
      exact hj hi
    · exact Finset.mem_univ j
  have hle := (hnodup.subperm hsub).length_le
  rw [List.length_map, Finset.length_toList, Finset.card_erase_of_mem (Finset.mem_univ i),
    Finset.card_univ] at hle
  have hpos : 0 < Fintype.card ι := Fintype.card_pos_iff.mpr ⟨i⟩
  omega

/-- Parties with entries of one key have different places of it. -/
theorem Deposits.card_le [Fintype ι] (h : Deposits places v c key spot)
    (hall : ∀ i, key i = some a) : Fintype.card ι ≤ (places a).length := by
  have hinj : Function.Injective spot := by
    intro i j hij
    apply h.inj _ _ hij
    · rw [hall i]
      exact Option.some_ne_none a
    · rw [hall j]
      exact Option.some_ne_none a
  have hnodup : (Finset.univ.toList.map spot).Nodup := (Finset.nodup_toList _).map hinj
  have hsub : Finset.univ.toList.map spot ⊆ places a := by
    intro k hk
    obtain ⟨i, -, rfl⟩ := List.mem_map.mp hk
    exact h.keyed (h.entry (hall i))
  have hle := (hnodup.subperm hsub).length_le
  rwa [List.length_map, Finset.length_toList, Finset.card_univ] at hle

section Queries

variable [DecidableEq α]

theorem Deposits.exists_find (h : Deposits places v c key spot) (hi : key i = some a) :
    ∃ j, find places c (.key a) = some (spot j) ∧ key j = some a := by
  have hown := h.entry hi
  have hsome : (find places c (.key a)).isSome = true :=
    List.find?_isSome.mpr ⟨spot i, h.keyed hown, holds_iff.mpr ⟨v a, hown⟩⟩
  obtain ⟨k, hk⟩ := Option.isSome_iff_exists.mp hsome
  obtain ⟨a', b, hentry, ha' | ha'⟩ := exists_of_find hk
  · cases ha'
    obtain ⟨j, hj, rfl⟩ := h.all hentry
    obtain ⟨a', ha'⟩ := Option.ne_none_iff_exists'.mp hj
    have hj' := h.entry ha'
    rw [hentry] at hj'
    cases hj'
    exact ⟨j, hk, ha'⟩
  · cases ha'

theorem Deposits.value_eq (h : Deposits places v c key spot) (hi : key i = some a) :
    value places c (.key a) = some (v a) := by
  obtain ⟨j, hfind, hj⟩ := h.exists_find hi
  rw [value, hfind, Option.bind_some, h.entry hj]
  rfl

variable [DecidableEq ι] [DecidableEq κ]

omit [DecidableEq α] in
theorem Deposits.put (h : Deposits places v c key spot) (hi : key i = none) {k : κ}
    (hk : k ∈ places a) (hfree : c k = none) :
    Deposits places v (Function.update c k (some (a, v a))) (Function.update key i (some a))
      (Function.update spot i k) := by
  have hold {j : ι} (hj : key j ≠ none) : j ≠ i ∧ spot j ≠ k := by
    refine ⟨?_, ?_⟩
    · rintro rfl
      exact hj hi
    · rintro rfl
      obtain ⟨b, hb⟩ := Option.ne_none_iff_exists'.mp hj
      rw [h.entry hb] at hfree
      cases hfree
  have hcases {j : ι} (hj : Function.update key i (some a) j ≠ none) :
      j = i ∨ j ≠ i ∧ key j ≠ none := by
    by_cases hji : j = i
    · exact .inl hji
    · rw [Function.update_of_ne hji] at hj
      exact .inr ⟨hji, hj⟩
  refine ⟨?_, ?_, ?_, ?_⟩
  · intro j b hb
    by_cases hji : j = i
    · rw [hji, Function.update_self] at hb
      cases hb
      rw [hji, Function.update_self, Function.update_self]
    · rw [Function.update_of_ne hji] at hb
      have hne := (hold (hb ▸ Option.some_ne_none b)).2
      rw [Function.update_of_ne hji, Function.update_of_ne hne, h.entry hb]
  · intro j j' hj hj' heq
    rcases hcases hj with hji | ⟨hji, hkey⟩
    · rcases hcases hj' with hji' | ⟨hji', hkey'⟩
      · rw [hji, hji']
      · rw [hji, Function.update_self, Function.update_of_ne hji'] at heq
        exact absurd heq.symm (hold hkey').2
    · rcases hcases hj' with hji' | ⟨hji', hkey'⟩
      · rw [hji', Function.update_self, Function.update_of_ne hji] at heq
        exact absurd heq (hold hkey).2
      · rw [Function.update_of_ne hji, Function.update_of_ne hji'] at heq
        exact h.inj hkey hkey' heq
  · intro k' e he
    by_cases hkk : k' = k
    · refine ⟨i, ?_, ?_⟩
      · rw [Function.update_self]
        exact Option.some_ne_none a
      · rw [Function.update_self, hkk]
    · rw [Function.update_of_ne hkk] at he
      obtain ⟨j, hj, rfl⟩ := h.all he
      have hji := (hold hj).1
      exact ⟨j, by rwa [Function.update_of_ne hji], Function.update_of_ne hji _ _⟩
  · intro k' a' b he
    by_cases hkk : k' = k
    · rw [hkk, Function.update_self] at he
      cases he
      exact hkk ▸ hk
    · rw [Function.update_of_ne hkk] at he
      exact h.keyed he

/-- If the entry of another party is deleted, then that party has the entry that is left. -/
theorem Deposits.del (h : Deposits places v c key spot) (hi : key i = some a) :
    ∃ spot', Deposits places v (clear c (find places c (.key a))) (Function.update key i none)
      spot' := by
  obtain ⟨j, hfind, hj⟩ := h.exists_find hi
  have hi' : key i ≠ none := hi ▸ Option.some_ne_none a
  have hj' : key j ≠ none := hj ▸ Option.some_ne_none a
  rw [hfind, clear]
  refine ⟨Function.update spot j (spot i), ?_, ?_, ?_, ?_⟩
  · intro x b hb
    have hxi : x ≠ i := by
      rintro rfl
      rw [Function.update_self] at hb
      cases hb
    rw [Function.update_of_ne hxi] at hb
    have hx : key x ≠ none := hb ▸ Option.some_ne_none b
    by_cases hxj : x = j
    · subst hxj
      rw [hj] at hb
      cases hb
      rw [Function.update_self, Function.update_of_ne]
      · exact h.entry hi
      · exact fun heq => hxi (h.inj hi' hx heq).symm
    · rw [Function.update_of_ne hxj, Function.update_of_ne]
      · exact h.entry hb
      · exact fun heq => hxj (h.inj hx hj' heq)
  · intro x y hx hy heq
    have hother {x : ι} (hx : Function.update key i none x ≠ none) : x ≠ i ∧ key x ≠ none := by
      by_cases hxi : x = i
      · rw [hxi, Function.update_self] at hx
        exact absurd rfl hx
      · rw [Function.update_of_ne hxi] at hx
        exact ⟨hxi, hx⟩
    obtain ⟨hxi, hx⟩ := hother hx
    obtain ⟨hyi, hy⟩ := hother hy
    by_cases hxj : x = j
    · by_cases hyj : y = j
      · rw [hxj, hyj]
      · rw [hxj, Function.update_self, Function.update_of_ne hyj] at heq
        exact absurd (h.inj hi' hy heq).symm hyi
    · by_cases hyj : y = j
      · rw [hyj, Function.update_self, Function.update_of_ne hxj] at heq
        exact absurd (h.inj hx hi' heq) hxi
      · rw [Function.update_of_ne hxj, Function.update_of_ne hyj] at heq
        exact h.inj hx hy heq
  · intro k e he
    have hk : k ≠ spot j := by
      rintro rfl
      rw [Function.update_self] at he
      cases he
    rw [Function.update_of_ne hk] at he
    obtain ⟨x, hx, rfl⟩ := h.all he
    by_cases hxi : x = i
    · have hji : j ≠ i := by
        rintro rfl
        exact hk (by rw [hxi])
      exact ⟨j, by rwa [Function.update_of_ne hji], by rw [hxi, Function.update_self]⟩
    · have hxj : x ≠ j := by
        rintro rfl
        exact hk rfl
      exact ⟨x, by rwa [Function.update_of_ne hxi], Function.update_of_ne hxj _ _⟩
  · intro k a' b he
    have hk : k ≠ spot j := by
      rintro rfl
      rw [Function.update_self] at he
      cases he
    rw [Function.update_of_ne hk] at he
    exact h.keyed he

end Queries

end Shelves
