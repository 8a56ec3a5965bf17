import Mathlib.Data.List.Perm.Subperm
import Mathlib.Logic.Function.Basic

/-! A ledger of tickets. Each request issues the next ticket and files it under a
key, displacing a ticket filed there before. Counting a key counts the ticket
filed under it, and settling a key counts the ticket and takes it out. -/

structure Ledger (η : Type*) where
  issued : Nat
  owner : η → Option Nat
  counted : List Nat
  displaced : List Nat

namespace Ledger

variable {η : Type*} [DecidableEq η]

def empty : Ledger η := ⟨0, fun _ => none, [], []⟩

def issue (l : Ledger η) (h : η) : Ledger η where
  issued := l.issued + 1
  owner := Function.update l.owner h (some l.issued)
  counted := l.counted
  displaced := (l.owner h).toList ++ l.displaced

def count (l : Ledger η) (h : η) : Ledger η :=
  { l with counted := (l.owner h).toList ++ l.counted }

def settle (l : Ledger η) (h : η) : Ledger η :=
  { l with
    owner := Function.update l.owner h none
    counted := (l.owner h).toList ++ l.counted }

def settleAll (l : Ledger η) (hs : List η) : Ledger η := hs.foldl settle l

@[simp] theorem settleAll_issued (l : Ledger η) (hs : List η) :
    (l.settleAll hs).issued = l.issued := by
  induction hs generalizing l with
  | nil => rfl
  | cons h hs ih => exact ih _

theorem settleAll_owner (l : Ledger η) (hs : List η) (h : η) :
    (l.settleAll hs).owner h = if h ∈ hs then none else l.owner h := by
  induction hs generalizing l with
  | nil => simp [settleAll]
  | cons a hs ih =>
    show ((l.settle a).settleAll hs).owner h = _
    rw [ih]
    by_cases hm : h ∈ hs
    · simp [hm]
    · by_cases ha : h = a
      · subst ha
        simp [hm, settle]
      · simp [hm, ha, settle]

theorem length_toList_le (o : Option Nat) : o.toList.length ≤ 1 := by
  cases o <;> simp

theorem settleAll_counted_le (l : Ledger η) (hs : List η) :
    (l.settleAll hs).counted.length ≤ l.counted.length + hs.length := by
  induction hs generalizing l with
  | nil => exact Nat.le_refl _
  | cons a hs ih =>
    have hh := ih (l.settle a)
    have ho := length_toList_le (l.owner a)
    show ((l.settle a).settleAll hs).counted.length ≤ _
    simp only [settle, List.length_append] at hh
    simp only [List.length_cons, settle]
    omega

theorem settleAll_counted_eq (l : Ledger η) (hs : List η) (hnd : hs.Nodup)
    (howned : ∀ h ∈ hs, l.owner h ≠ none) :
    (l.settleAll hs).counted.length = l.counted.length + hs.length := by
  induction hs generalizing l with
  | nil => rfl
  | cons a hs ih =>
    have hn := List.nodup_cons.mp hnd
    obtain ⟨j, hj⟩ := Option.ne_none_iff_exists'.mp (howned a (by simp))
    have hh := ih (l.settle a) hn.2 fun h hm => by
      have hne : h ≠ a := fun he => hn.1 (he ▸ hm)
      simpa [settle, hne] using howned h (by simp [hm])
    have hone : (l.settle a).counted.length = l.counted.length + 1 := by
      simp [settle, hj]
    show ((l.settle a).settleAll hs).counted.length = _
    rw [hh, hone, List.length_cons]
    omega

def Covers (l : Ledger η) : Prop :=
  ∀ j < l.issued, j ∈ l.counted ∨ j ∈ l.displaced ∨ ∃ h, l.owner h = some j

omit [DecidableEq η] in
theorem covers_empty : (empty : Ledger η).Covers := fun _ hj => absurd hj (Nat.not_lt_zero _)

theorem Covers.issue {l : Ledger η} (hc : l.Covers) (h : η) : (l.issue h).Covers := by
  intro j hj
  by_cases he : j = l.issued
  · subst he
    exact .inr (.inr ⟨h, by simp [Ledger.issue]⟩)
  · rcases hc j (by simp only [Ledger.issue] at hj; omega) with hm | hm | ⟨h', ho⟩
    · exact .inl hm
    · exact .inr (.inl (List.mem_append_right _ hm))
    · by_cases hh : h' = h
      · subst hh
        exact .inr (.inl (List.mem_append_left _ (by simp [ho])))
      · exact .inr (.inr ⟨h', by simp [Ledger.issue, hh, ho]⟩)

omit [DecidableEq η] in
theorem Covers.count {l : Ledger η} (hc : l.Covers) (h : η) : (l.count h).Covers := by
  intro j hj
  rcases hc j hj with hm | hm | ho
  · exact .inl (List.mem_append_right _ hm)
  · exact .inr (.inl hm)
  · exact .inr (.inr ho)

theorem Covers.settle {l : Ledger η} (hc : l.Covers) (h : η) : (l.settle h).Covers := by
  intro j hj
  rcases hc j hj with hm | hm | ⟨h', ho⟩
  · exact .inl (List.mem_append_right _ hm)
  · exact .inr (.inl hm)
  · by_cases hh : h' = h
    · subst hh
      exact .inl (List.mem_append_left _ (by simp [ho]))
    · exact .inr (.inr ⟨h', by simp [Ledger.settle, hh, ho]⟩)

theorem Covers.settleAll {l : Ledger η} (hc : l.Covers) (hs : List η) :
    (l.settleAll hs).Covers := by
  induction hs generalizing l with
  | nil => exact hc
  | cons h hs ih => exact ih (hc.settle h)

omit [DecidableEq η] in
/-- Tickets are counted, displaced or still filed under one of the keys `hs`. -/
theorem Covers.issued_le {l : Ledger η} (hc : l.Covers) {hs : List η}
    (hfiled : ∀ h, l.owner h ≠ none → h ∈ hs) :
    l.issued ≤ l.counted.length + l.displaced.length +
      (hs.filter fun h => (l.owner h).isSome).length := by
  have hsub : List.range l.issued ⊆
      l.counted ++ l.displaced ++ (hs.filter fun h => (l.owner h).isSome).filterMap l.owner := by
    intro j hj
    rcases hc j (List.mem_range.mp hj) with hm | hm | ⟨h, ho⟩
    · exact List.mem_append_left _ (List.mem_append_left _ hm)
    · exact List.mem_append_left _ (List.mem_append_right _ hm)
    · refine List.mem_append_right _ (List.mem_filterMap.mpr ⟨h, ?_, ho⟩)
      exact List.mem_filter.mpr ⟨hfiled h (by simp [ho]), by simp [ho]⟩
  have hlen := (List.subperm_of_subset List.nodup_range hsub).length_le
  have hmap := List.length_filterMap_le l.owner (hs.filter fun h => (l.owner h).isSome)
  simp only [List.length_range, List.length_append] at hlen
  omega

/-- No ticket is counted twice, and a ticket still filed has not been counted. -/
structure Once (l : Ledger η) : Prop where
  counted_lt : ∀ j ∈ l.counted, j < l.issued
  owner_lt : ∀ h j, l.owner h = some j → j < l.issued
  owner_inj : ∀ h h' j, l.owner h = some j → l.owner h' = some j → h = h'
  counted_nodup : l.counted.Nodup
  owner_notMem : ∀ h j, l.owner h = some j → j ∉ l.counted

omit [DecidableEq η] in
theorem once_empty : (empty : Ledger η).Once :=
  ⟨by simp [empty], by simp [empty], by simp [empty], by simp [empty], by simp [empty]⟩

theorem Once.issue {l : Ledger η} (ho : l.Once) (h : η) : (l.issue h).Once := by
  have hold : ∀ h' j, h' ≠ h → (l.issue h).owner h' = some j → l.owner h' = some j := by
    intro h' j hne hj
    simpa [Ledger.issue, hne] using hj
  -- the new ticket is filed under `h` alone and is larger than all others
  have hnew : ∀ j, (l.issue h).owner h = some j → j = l.issued := by
    intro j hj
    simpa [Ledger.issue, eq_comm] using hj
  have hlt : ∀ h' j, (l.issue h).owner h' = some j → j < l.issued + 1 := by
    intro h' j hj
    by_cases hh : h' = h
    · subst hh
      have := hnew j hj
      omega
    · have := ho.owner_lt h' j (hold h' j hh hj)
      omega
  refine ⟨fun j hj => Nat.lt_succ_of_lt (ho.counted_lt j hj), hlt, ?_, ho.counted_nodup, ?_⟩
  · intro h₁ h₂ j hj₁ hj₂
    by_cases hh₁ : h₁ = h <;> by_cases hh₂ : h₂ = h
    · rw [hh₁, hh₂]
    · subst hh₁
      have := hnew j hj₁
      have := ho.owner_lt h₂ j (hold h₂ j hh₂ hj₂)
      omega
    · subst hh₂
      have := hnew j hj₂
      have := ho.owner_lt h₁ j (hold h₁ j hh₁ hj₁)
      omega
    · exact ho.owner_inj h₁ h₂ j (hold h₁ j hh₁ hj₁) (hold h₂ j hh₂ hj₂)
  · intro h' j hj hm
    by_cases hh : h' = h
    · subst hh
      have := hnew j hj
      have := ho.counted_lt j hm
      omega
    · exact ho.owner_notMem h' j (hold h' j hh hj) hm

theorem Once.settle {l : Ledger η} (ho : l.Once) (h : η) : (l.settle h).Once := by
  have hold : ∀ h' j, (l.settle h).owner h' = some j → h' ≠ h ∧ l.owner h' = some j := by
    intro h' j hj
    by_cases hh : h' = h
    · simp [Ledger.settle, hh] at hj
    · exact ⟨hh, by simpa [Ledger.settle, hh] using hj⟩
  have hmem : ∀ j, j ∈ (l.settle h).counted → l.owner h = some j ∨ j ∈ l.counted := by
    intro j hj
    rcases List.mem_append.mp hj with hj | hj
    · exact .inl (by simpa using hj)
    · exact .inr hj
  refine ⟨?_, fun h' j hj => ho.owner_lt h' j (hold h' j hj).2, ?_, ?_, ?_⟩
  · intro j hj
    rcases hmem j hj with hj | hj
    · exact ho.owner_lt h j hj
    · exact ho.counted_lt j hj
  · intro h₁ h₂ j hj₁ hj₂
    exact ho.owner_inj h₁ h₂ j (hold h₁ j hj₁).2 (hold h₂ j hj₂).2
  · cases hj : l.owner h with
    | none => simpa [Ledger.settle, hj] using ho.counted_nodup
    | some j =>
      simpa [Ledger.settle, hj] using And.intro (ho.owner_notMem h j hj) ho.counted_nodup
  · intro h' j hj hm
    obtain ⟨hne, hj'⟩ := hold h' j hj
    rcases hmem j hm with hj'' | hm
    · exact hne (ho.owner_inj h' h j hj' hj'')
    · exact ho.owner_notMem h' j hj' hm

theorem Once.settleAll {l : Ledger η} (ho : l.Once) (hs : List η) : (l.settleAll hs).Once := by
  induction hs generalizing l with
  | nil => exact ho
  | cons h hs ih => exact ih (ho.settle h)

omit [DecidableEq η] in
theorem Once.counted_le_issued {l : Ledger η} (ho : l.Once) : l.counted.length ≤ l.issued := by
  have hsub : l.counted ⊆ List.range l.issued :=
    fun j hj => List.mem_range.mpr (ho.counted_lt j hj)
  simpa using (List.subperm_of_subset ho.counted_nodup hsub).length_le

end Ledger
