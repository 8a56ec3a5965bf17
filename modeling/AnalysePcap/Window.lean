import AnalysePcap.Outcome

/-! The reporting window over sequences of times. `checkTime` keeps the window
on the ten second grid, but it accepts a time equal to the end of the window
into that window, although the window it reports for that time starts there. -/

namespace AnalysePcap

theorem checkTime_cases (w : Interface) (t : Nat) :
    (t < w.startTime ∧ w.checkTime t = (w, 0)) ∨
    (w.startTime ≤ t ∧ t < w.endTime ∧ w.checkTime t = (w, 1)) ∨
    (w.startTime ≤ t ∧ w.endTime < t ∧
      w.checkTime t = (⟨t - t % 10, t - t % 10 + 10⟩, 2)) ∨
    (t = w.endTime ∧ w.startTime = 0 ∧ w.checkTime t = (⟨t, t + 10⟩, 1)) ∨
    (t = w.endTime ∧ w.startTime ≠ 0 ∧ w.startTime ≤ t ∧ w.checkTime t = (w, 1)) := by
  by_cases h₁ : t < w.startTime
  · exact .inl ⟨h₁, by simp [Interface.checkTime, h₁]⟩
  by_cases h₂ : t < w.endTime
  · exact .inr (.inl ⟨by omega, h₂, by simp [Interface.checkTime, h₁, h₂]⟩)
  by_cases h₃ : w.endTime < t
  · exact .inr (.inr (.inl ⟨by omega, h₃, by simp [Interface.checkTime, h₁, h₂, h₃]⟩))
  by_cases h₄ : w.startTime = 0
  · exact .inr (.inr (.inr (.inl ⟨by omega, h₄, by simp [Interface.checkTime, h₂, h₃, h₄]⟩)))
  · exact .inr (.inr (.inr (.inr
      ⟨by omega, h₄, by omega, by simp [Interface.checkTime, h₁, h₂, h₃, h₄]⟩)))

def OnGrid (w : Interface) : Prop :=
  w.startTime % 10 = 0 ∧ (w.endTime = w.startTime + 10 ∨ w.startTime = 0 ∧ w.endTime = 0)

theorem checkTime_onGrid {w : Interface} (hw : OnGrid w) (t : Nat) :
    OnGrid (w.checkTime t).1 := by
  have hs := hw.1
  have he := hw.2
  rcases checkTime_cases w t with ⟨_, h⟩ | ⟨_, _, h⟩ | ⟨_, _, h⟩ | ⟨ht, h0, h⟩ | ⟨_, _, _, h⟩
  · rw [h]; exact hw
  · rw [h]; exact hw
  · rw [h]
    exact ⟨by dsimp only; omega, .inl rfl⟩
  · rw [h]
    exact ⟨by dsimp only; omega, .inl rfl⟩
  · rw [h]; exact hw

def Interface.tick (w : Interface) (t : Nat) : Interface := (w.checkTime t).1

def runTimes (ts : List Nat) : Interface := Machine.run Interface.tick ⟨0, 0⟩ ts

theorem runTimes_onGrid (ts : List Nat) : OnGrid (runTimes ts) :=
  Machine.run_invariant (P := OnGrid) (fun _ t hw => checkTime_onGrid hw t)
    ⟨rfl, .inr ⟨rfl, rfl⟩⟩ ts

def Contains (w : Interface) (t : Nat) : Prop :=
  w.startTime = t - t % 10 ∧ w.endTime = w.startTime + 10 ∧ w.startTime ≤ t ∧ t < w.endTime

theorem Contains.unique {w w' : Interface} {t : Nat} (h : Contains w t) (h' : Contains w' t) :
    w = w' := by
  have hs : w.startTime = w'.startTime := h.1.trans h'.1.symm
  have he : w.endTime = w'.endTime := by rw [h.2.1, h'.2.1, hs]
  cases w
  cases w'
  simp_all

theorem checkTime_contains_iff {w : Interface} (hw : OnGrid w) (t : Nat) :
    ((w.checkTime t).2 = 1 ∨ (w.checkTime t).2 = 2 → Contains (w.checkTime t).1 t) ↔
      ¬ (t = w.endTime ∧ w.startTime ≠ 0) := by
  have hs := hw.1
  have he := hw.2
  rcases checkTime_cases w t with
    ⟨ht, h⟩ | ⟨ht, ht', h⟩ | ⟨ht, ht', h⟩ | ⟨ht, h0, h⟩ | ⟨ht, h0, _, h⟩
  · have hne : t ≠ w.endTime := by omega
    simp [h, hne]
  · have hne : t ≠ w.endTime := by omega
    have hc : Contains w t := ⟨by omega, by omega, ht, ht'⟩
    simp [h, hne, hc]
  · have hne : t ≠ w.endTime := by omega
    have hc : Contains ⟨t - t % 10, t - t % 10 + 10⟩ t :=
      ⟨rfl, rfl, Nat.sub_le _ _, by dsimp only; omega⟩
    simp [h, hne, hc]
  · have hc : Contains ⟨t, t + 10⟩ t := ⟨by dsimp only; omega, rfl, le_refl t, by dsimp only; omega⟩
    simp [h, h0, hc]
  · have hc : ¬ Contains w t := fun hc => by
      have := hc.2.2.2
      omega
    rw [h]
    exact ⟨fun hh => absurd (hh (.inl rfl)) hc, fun hn => absurd ⟨ht, h0⟩ hn⟩

structure CountedInOwnWindow (ts : List Nat) : Prop where
  contains : ∀ pre t post, ts = pre ++ t :: post →
    ((runTimes pre).checkTime t).2 = 1 ∨ ((runTimes pre).checkTime t).2 = 2 →
      Contains ((runTimes pre).checkTime t).1 t
  same_second : ∀ pre t mid post, ts = pre ++ t :: (mid ++ t :: post) →
    ((runTimes pre).checkTime t).2 = 1 ∨ ((runTimes pre).checkTime t).2 = 2 →
    ((runTimes (pre ++ t :: mid)).checkTime t).2 = 1 ∨
      ((runTimes (pre ++ t :: mid)).checkTime t).2 = 2 →
    ((runTimes pre).checkTime t).1 = ((runTimes (pre ++ t :: mid)).checkTime t).1

/-- Times are counted in their own window exactly when none of them is the end
of a window in force that does not start at the epoch. -/
theorem countedInOwnWindow_iff (ts : List Nat) :
    CountedInOwnWindow ts ↔
      Machine.Along Interface.tick (fun w t => ¬ (t = w.endTime ∧ w.startTime ≠ 0)) ⟨0, 0⟩ ts := by
  have hcontains : (∀ pre t post, ts = pre ++ t :: post →
      ((runTimes pre).checkTime t).2 = 1 ∨ ((runTimes pre).checkTime t).2 = 2 →
        Contains ((runTimes pre).checkTime t).1 t) ↔
      Machine.Along Interface.tick (fun w t => ¬ (t = w.endTime ∧ w.startTime ≠ 0)) ⟨0, 0⟩ ts := by
    rw [Machine.along_iff_split]
    exact forall_congr' fun pre => forall_congr' fun t => forall_congr' fun _ =>
      imp_congr_right fun _ => checkTime_contains_iff (runTimes_onGrid pre) t
  constructor
  · intro h
    exact hcontains.mp h.contains
  · intro h
    have hc := hcontains.mpr h
    refine ⟨hc, ?_⟩
    intro pre t mid post he h₁ h₂
    have he' : ts = (pre ++ t :: mid) ++ t :: post := by simp [he]
    exact (hc pre t _ he h₁).unique (hc _ t post he' h₂)

theorem not_countedInOwnWindow : ¬ CountedInOwnWindow [15, 20, 25, 20] := by
  rw [countedInOwnWindow_iff]
  decide

end AnalysePcap
