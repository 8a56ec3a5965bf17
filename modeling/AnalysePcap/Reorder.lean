import AnalysePcap.Run
import AnalysePcap.Substream

/-! Runs over two lists that are permutations of each other and agree on the substream of
every key. If inputs without a common key commute, then the runs end in the same state. This
is so for a store of cells in which each input reads and writes only the cell of its key. -/

namespace Reorder

open Machine Substream

variable {α κ σ : Type*}

def Independent (key : α → Option κ) (a b : α) : Prop := ∀ k, key a = some k → key b ≠ some k

section Lists

variable [DecidableEq κ]

structure Reordered (key : α → Option κ) (as bs : List α) : Prop where
  perm : as.Perm bs
  order : ∀ k, substream key k as = substream key k bs

variable {key : α → Option κ} {a b : α} {as bs : List α}

theorem substream_middle (pre post : List α) (a : α) (k : κ) :
    substream key k (pre ++ a :: post) =
      substream key k pre ++ (if key a = some k then [a] else []) ++ substream key k post := by
  simp only [substream, List.filter_append, List.filter_cons]
  split_ifs <;> simp_all

theorem substream_eq_nil {pre : List α} (hpre : ∀ b ∈ pre, Independent key a b) {k : κ}
    (hk : key a = some k) : substream key k pre = [] := by
  simpa [substream, List.filter_eq_nil_iff] using fun b hb => hpre b hb k hk

/-- The first element of one list stands in the other behind elements independent of it. -/
theorem Reordered.exists_split (h : Reordered key (a :: as) bs) :
    ∃ pre post, bs = pre ++ a :: post ∧ ∀ b ∈ pre, Independent key a b := by
  cases hk : key a with
  | none =>
    obtain ⟨pre, post, rfl⟩ := List.mem_iff_append.mp (h.perm.mem_iff.mp List.mem_cons_self)
    refine ⟨pre, post, rfl, ?_⟩
    intro b _ k ha
    rw [hk] at ha
    cases ha
  | some k =>
    have hsub : substream key k bs = a :: substream key k as := by
      rw [← h.order k]
      exact List.filter_cons_of_pos (by simpa using hk)
    obtain ⟨pre, post, rfl, hpre, _, _⟩ := List.filter_eq_cons_iff.mp hsub
    refine ⟨pre, post, rfl, ?_⟩
    intro b hb k' ha
    obtain rfl : k = k' := Option.some.inj (hk.symm.trans ha)
    simpa using hpre b hb

theorem Reordered.tail {pre post : List α} (h : Reordered key (a :: as) (pre ++ a :: post))
    (hpre : ∀ b ∈ pre, Independent key a b) : Reordered key as (pre ++ post) := by
  refine ⟨(h.perm.trans List.perm_middle).cons_inv, ?_⟩
  intro k
  have horder := h.order k
  rw [← List.nil_append (a :: as), substream_middle, substream_middle] at horder
  by_cases hk : key a = some k
  · rw [substream_eq_nil hpre hk] at horder
    have hrest : substream key k as = substream key k post := by
      simpa [substream, hk] using horder
    rw [hrest, substream, substream, List.filter_append]
    simpa [substream] using substream_eq_nil hpre hk
  · simpa [substream, hk] using horder

theorem reordered_swap (h : Independent key a b) (pre post : List α) :
    Reordered key (pre ++ a :: b :: post) (pre ++ b :: a :: post) := by
  refine ⟨(List.Perm.swap b a post).append_left pre, ?_⟩
  intro k
  simp only [substream, List.filter_append, List.filter_cons]
  have hne : ¬ (key a = some k ∧ key b = some k) := fun hc => h k hc.1 hc.2
  by_cases ha : key a = some k <;> by_cases hb : key b = some k <;> simp_all

end Lists

section Runs

variable {key : α → Option κ} {step : σ → α → σ}

theorem run_move_front
    (hcomm : ∀ s a b, Independent key a b → step (step s a) b = step (step s b) a) {a : α}
    {pre : List α} (hpre : ∀ b ∈ pre, Independent key a b) (post : List α) (s : σ) :
    run step s (pre ++ a :: post) = run step (step s a) (pre ++ post) := by
  induction pre generalizing s with
  | nil => rfl
  | cons b pre ih =>
    have hb : Independent key a b := hpre b List.mem_cons_self
    rw [List.cons_append, List.cons_append, run_cons, run_cons,
      ih fun c hc => hpre c (List.mem_cons_of_mem b hc), hcomm s a b hb]

theorem run_eq_of_reordered [DecidableEq κ]
    (hcomm : ∀ s a b, Independent key a b → step (step s a) b = step (step s b) a)
    {as bs : List α} (h : Reordered key as bs) (s : σ) : run step s as = run step s bs := by
  induction as generalizing bs s with
  | nil => rw [List.nil_perm.mp h.perm]
  | cons a as ih =>
    obtain ⟨pre, post, rfl, hpre⟩ := h.exists_split
    rw [run_cons, run_move_front hcomm hpre post s]
    exact ih (h.tail hpre) (step s a)

end Runs

/-- A store of cells next to a total that every input may add to. -/
@[ext] structure Cells (κ τ μ : Type*) where
  total : μ
  cell : κ → τ

namespace Cells

variable [DecidableEq κ] {τ μ : Type*}

/-- What an input does: `gain` to the total and `leave` to its cell, both from what the
cell holds. -/
def act (key : α → Option κ) (gain : α → κ → τ → μ → μ) (leave : α → τ → τ)
    (c : Cells κ τ μ) (a : α) : Cells κ τ μ :=
  match key a with
  | none => c
  | some k =>
    ⟨gain a k (c.cell k) c.total, Function.update c.cell k (leave a (c.cell k))⟩

variable {key : α → Option κ} {gain : α → κ → τ → μ → μ} {leave : α → τ → τ}

theorem act_of_some {a : α} {k : κ} (hk : key a = some k) (c : Cells κ τ μ) :
    c.act key gain leave a =
      ⟨gain a k (c.cell k) c.total, Function.update c.cell k (leave a (c.cell k))⟩ := by
  simp only [act, hk]

theorem act_of_none {a : α} (hk : key a = none) (c : Cells κ τ μ) :
    c.act key gain leave a = c := by
  simp only [act, hk]

theorem act_comm
    (hgain : ∀ a b k k' x y m, gain b k' y (gain a k x m) = gain a k x (gain b k' y m))
    (c : Cells κ τ μ) (a b : α) (h : Independent key a b) :
    (c.act key gain leave a).act key gain leave b =
      (c.act key gain leave b).act key gain leave a := by
  cases ha : key a with
  | none => rw [act_of_none ha, act_of_none ha]
  | some k =>
    cases hb : key b with
    | none => rw [act_of_none hb, act_of_none hb]
    | some k' =>
      have hne : k ≠ k' := fun he => h k ha (he ▸ hb)
      simp only [act_of_some ha, act_of_some hb, Function.update_of_ne hne,
        Function.update_of_ne hne.symm]
      rw [hgain, Function.update_comm hne]

theorem run_act_of_reordered
    (hgain : ∀ a b k k' x y m, gain b k' y (gain a k x m) = gain a k x (gain b k' y m))
    {as bs : List α} (h : Reordered key as bs) (c : Cells κ τ μ) :
    run (act key gain leave) c as = run (act key gain leave) c bs :=
  run_eq_of_reordered (act_comm hgain) h c

end Cells

end Reorder
