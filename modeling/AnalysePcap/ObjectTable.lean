import Mathlib.Data.List.AList

/-! Objects that are made on their first use and found again by a key. The map holds
pointers into a heap, so that one object can be told from another with the same
contents. -/

structure ObjectTable (κ τ : Type*) [DecidableEq κ] where
  ptrs : AList fun _ : κ => Nat
  heap : List τ
  ptr_lt : ∀ {k p}, ptrs.lookup k = some p → p < heap.length
  ptr_inj : ∀ {k k' p}, ptrs.lookup k = some p → ptrs.lookup k' = some p → k = k'

namespace ObjectTable

variable {κ τ : Type*} [DecidableEq κ]

def empty : ObjectTable κ τ where
  ptrs := ∅
  heap := []
  ptr_lt h := by simp at h
  ptr_inj h := by simp at h

theorem lookup_insert (ptrs : AList fun _ : κ => Nat) (k k' : κ) (p : Nat) :
    (ptrs.insert k p).lookup k' = if k' = k then some p else ptrs.lookup k' := by
  by_cases h : k' = k
  · subst h
    simp
  · simp [h, AList.lookup_insert_ne h]

/-- The object is put on the heap before the map is given its address. -/
def create (t : ObjectTable κ τ) (k : κ) (new : τ) : ObjectTable κ τ where
  ptrs := t.ptrs.insert k t.heap.length
  heap := t.heap ++ [new]
  ptr_lt {k' p} h := by
    rw [lookup_insert] at h
    rw [List.length_append, List.length_singleton]
    split_ifs at h with hk
    · cases h
      omega
    · have := t.ptr_lt h
      omega
  ptr_inj {k₁ k₂ p} h₁ h₂ := by
    rw [lookup_insert] at h₁ h₂
    split_ifs at h₁ h₂ with hk₁ hk₂ hk₂
    · rw [hk₁, hk₂]
    · cases h₁
      exact absurd (t.ptr_lt h₂) (lt_irrefl _)
    · cases h₂
      exact absurd (t.ptr_lt h₁) (lt_irrefl _)
    · exact t.ptr_inj h₁ h₂

def fetch (t : ObjectTable κ τ) (k : κ) (new : τ) : ObjectTable κ τ × Nat :=
  match t.ptrs.lookup k with
  | some p => (t, p)
  | none => (t.create k new, t.heap.length)

def modify (t : ObjectTable κ τ) (p : Nat) (f : τ → τ) : ObjectTable κ τ where
  ptrs := t.ptrs
  heap := t.heap.modify p f
  ptr_lt h := by simpa using t.ptr_lt h
  ptr_inj h₁ h₂ := t.ptr_inj h₁ h₂

def view (t : ObjectTable κ τ) (k : κ) : Option τ := (t.ptrs.lookup k).bind (t.heap[·]?)

theorem lookup_fetch (t : ObjectTable κ τ) (k k' : κ) (new : τ) :
    (t.fetch k new).1.ptrs.lookup k' =
      if k' = k then some (t.fetch k new).2 else t.ptrs.lookup k' := by
  unfold fetch
  cases hp : t.ptrs.lookup k with
  | none => simp [create, lookup_insert]
  | some p =>
    by_cases hk : k' = k
    · subst hk
      simp [hp]
    · simp [hk]

theorem fetch_of_lookup {t : ObjectTable κ τ} {k : κ} {p : Nat} (h : t.ptrs.lookup k = some p)
    (new : τ) : t.fetch k new = (t, p) := by
  simp [fetch, h]

theorem lookup_fetch_of_lookup {t : ObjectTable κ τ} {k : κ} {p : Nat}
    (h : t.ptrs.lookup k = some p) (k' : κ) (new : τ) :
    (t.fetch k' new).1.ptrs.lookup k = some p := by
  rw [lookup_fetch]
  split_ifs with hk
  · subst hk
    rw [fetch_of_lookup h]
  · exact h

@[simp] theorem lookup_modify (t : ObjectTable κ τ) (p : Nat) (f : τ → τ) (k : κ) :
    (t.modify p f).ptrs.lookup k = t.ptrs.lookup k := rfl

theorem view_fetch (t : ObjectTable κ τ) (k k' : κ) (new : τ) :
    (t.fetch k new).1.view k' = if k' = k then some ((t.view k).getD new) else t.view k' := by
  unfold view
  rw [lookup_fetch]
  by_cases hk : k' = k
  · subst hk
    cases hp : t.ptrs.lookup k' with
    | none => simp [fetch, hp, create]
    | some p =>
      have hlt := t.ptr_lt hp
      simp [fetch_of_lookup hp, hlt]
  · rw [if_neg hk, if_neg hk]
    cases hp : t.ptrs.lookup k' with
    | none => rfl
    | some p =>
      have hlt := t.ptr_lt hp
      unfold fetch
      cases t.ptrs.lookup k <;> simp [create, hlt, List.getElem?_append_left]

/-- An update through the pointer of one key is an update of that key alone. -/
theorem view_modify {t : ObjectTable κ τ} {k : κ} {p : Nat} (h : t.ptrs.lookup k = some p)
    (f : τ → τ) (k' : κ) :
    (t.modify p f).view k' = if k' = k then (t.view k).map f else t.view k' := by
  unfold view
  rw [lookup_modify]
  by_cases hk : k' = k
  · subst hk
    simp [h, modify]
  · rw [if_neg hk]
    cases hp : t.ptrs.lookup k' with
    | none => rfl
    | some p' =>
      have hne : p ≠ p' := fun he => hk (t.ptr_inj hp (he ▸ h))
      simp [modify, List.getElem?_modify, hne]

/-- Two objects fetched at any two times are the same object exactly when they were
fetched under the same key. -/
theorem fetch_eq_iff {t : ObjectTable κ τ} {k k' : κ} {p : Nat} (h : t.ptrs.lookup k = some p)
    (new : τ) : p = (t.fetch k' new).2 ↔ k = k' := by
  have hk := lookup_fetch_of_lookup h k' new
  have hk' : (t.fetch k' new).1.ptrs.lookup k' = some (t.fetch k' new).2 := by
    rw [lookup_fetch, if_pos rfl]
  constructor
  · intro hp
    exact (t.fetch k' new).1.ptr_inj (hp ▸ hk) hk'
  · rintro rfl
    rw [fetch_of_lookup h]

end ObjectTable
