import Mathlib.Logic.Function.DependsOn

/-! Operations that work on a part of a state only. Those with disjoint parts commute. -/

namespace Footprint

variable {κ β γ : Type*} {A B : Set κ} {f g : (κ → β) → κ → β}

/-- What is in `A` may be read and written, and nothing else. -/
structure Within (A : Set κ) (f : (κ → β) → κ → β) : Prop where
  outside : ∀ c, ∀ a ∉ A, f c a = c a
  inside : ∀ a ∈ A, DependsOn (fun c => f c a) A

theorem within_id (A : Set κ) : Within A (id : (κ → β) → κ → β) :=
  ⟨fun _ _ _ => rfl, fun a ha _ _ h => h a ha⟩

theorem Within.agree (hf : Within A f) {c c' : κ → β} (h : ∀ a ∈ A, c a = c' a) :
    ∀ a ∈ A, f c a = f c' a := fun a ha => hf.inside a ha h

theorem Within.comp (hg : Within A g) (hf : Within A f) : Within A fun c => g (f c) where
  outside c a ha := (hg.outside (f c) a ha).trans (hf.outside c a ha)
  inside a ha _ _ h := hg.agree (hf.agree h) a ha

theorem Within.dependsOn_comp {v : (κ → β) → γ} (hf : Within A f) (hv : DependsOn v A) :
    DependsOn (fun c => v (f c)) A := fun _ _ h => hv (hf.agree h)

theorem Within.ite {P : (κ → β) → Prop} [DecidablePred P] (hP : DependsOn P A) (hf : Within A f)
    (hg : Within A g) : Within A fun c => if P c then f c else g c where
  outside c a ha := by
    split_ifs
    · exact hf.outside c a ha
    · exact hg.outside c a ha
  inside a ha c c' h := by
    have hiff : P c ↔ P c' := iff_of_eq (hP h)
    by_cases hc : P c
    · dsimp only
      rw [if_pos hc, if_pos (hiff.mp hc)]
      exact hf.agree h a ha
    · dsimp only
      rw [if_neg hc, if_neg fun hc' => hc (hiff.mpr hc')]
      exact hg.agree h a ha

theorem Within.update [DecidableEq κ] (hf : Within A f) {k : κ} (hk : k ∈ A) {v : (κ → β) → β}
    (hv : DependsOn v A) : Within A fun c => Function.update (f c) k (v c) where
  outside c a ha := by
    rw [Function.update_of_ne, hf.outside c a ha]
    rintro rfl
    exact ha hk
  inside a ha c c' h := by
    by_cases hak : a = k
    · dsimp only
      rw [hak, Function.update_self, Function.update_self]
      exact hv h
    · dsimp only
      rw [Function.update_of_ne hak, Function.update_of_ne hak]
      exact hf.agree h a ha

theorem within_foldl {α : Type*} {step : (κ → β) → α → κ → β} (h : ∀ x, Within A fun c => step c x)
    (l : List α) : Within A fun c => l.foldl step c := by
  induction l with
  | nil => exact within_id A
  | cons x l ih => exact ih.comp (h x)

theorem Within.apply_of_disjoint (hg : Within B g) (hAB : ∀ a ∈ A, a ∉ B) {v : (κ → β) → γ}
    (hv : DependsOn v A) (c : κ → β) : v (g c) = v c :=
  hv fun a ha => hg.outside c a (hAB a ha)

theorem Within.commute (hf : Within A f) (hg : Within B g) (hAB : ∀ a ∈ A, a ∉ B) (c : κ → β) :
    f (g c) = g (f c) := by
  funext a
  by_cases ha : a ∈ A
  · rw [hg.outside (f c) a (hAB a ha)]
    exact hf.agree (fun b hb => hg.outside c b (hAB b hb)) a ha
  · rw [hf.outside (g c) a ha]
    by_cases hb : a ∈ B
    · exact hg.agree (fun b hb => (hf.outside c b fun ha => hAB b ha hb).symm) a hb
    · rw [hg.outside c a hb, hg.outside (f c) a hb, hf.outside c a ha]

end Footprint
