import Mathlib.Algebra.BigOperators.Group.List.Basic
import Mathlib.Algebra.GroupWithZero.Nat
import Mathlib.Data.List.Induction
import Mathlib.Logic.Function.Basic

/-! Runs of a deterministic machine over a list of inputs: what holds at every
step of a run, invariants that may mention the inputs read so far, and
quantities summed over the steps. -/

namespace Machine

variable {σ α γ : Type*}

def run (step : σ → α → σ) (s : σ) (as : List α) : σ := as.foldl step s

@[simp] theorem run_nil (step : σ → α → σ) (s : σ) : run step s [] = s := rfl

@[simp] theorem run_cons (step : σ → α → σ) (s : σ) (a : α) (as : List α) :
    run step s (a :: as) = run step (step s a) as := rfl

theorem run_append (step : σ → α → σ) (s : σ) (as bs : List α) :
    run step s (as ++ bs) = run step (run step s as) bs := List.foldl_append

theorem run_concat (step : σ → α → σ) (s : σ) (as : List α) (a : α) :
    run step s (as ++ [a]) = step (run step s as) a := run_append step s as [a]

theorem run_invariant {step : σ → α → σ} {P : σ → Prop} (hstep : ∀ s a, P s → P (step s a))
    {s : σ} (hs : P s) (as : List α) : P (run step s as) := by
  induction as generalizing s with
  | nil => exact hs
  | cons a as ih => exact ih (hstep s a hs)

/-- `Q` holds of the state and the input at every step of the run. -/
def Along (step : σ → α → σ) (Q : σ → α → Prop) : σ → List α → Prop
  | _, [] => True
  | s, a :: as => Q s a ∧ Along step Q (step s a) as

instance Along.instDecidable (step : σ → α → σ) (Q : σ → α → Prop) [∀ s a, Decidable (Q s a)] :
    ∀ (s : σ) (as : List α), Decidable (Along step Q s as)
  | _, [] => inferInstanceAs (Decidable True)
  | s, a :: as => @instDecidableAnd _ _ _ (Along.instDecidable step Q (step s a) as)

theorem along_append {step : σ → α → σ} {Q : σ → α → Prop} {s : σ} {as bs : List α} :
    Along step Q s (as ++ bs) ↔ Along step Q s as ∧ Along step Q (run step s as) bs := by
  induction as generalizing s with
  | nil => simp [Along]
  | cons a as ih => simp only [List.cons_append, Along, ih, run_cons, and_assoc]

theorem along_concat {step : σ → α → σ} {Q : σ → α → Prop} {s : σ} {as : List α} {a : α} :
    Along step Q s (as ++ [a]) ↔ Along step Q s as ∧ Q (run step s as) a := by
  rw [along_append]
  simp [Along]

theorem along_iff_split {step : σ → α → σ} {Q : σ → α → Prop} {s : σ} {as : List α} :
    Along step Q s as ↔ ∀ pre a post, as = pre ++ a :: post → Q (run step s pre) a := by
  constructor
  · rintro h pre a post rfl
    exact (along_append.mp h).2.1
  · intro h
    induction as generalizing s with
    | nil => trivial
    | cons b bs ih =>
      refine ⟨h [] b bs rfl, ih ?_⟩
      rintro pre a post rfl
      exact h (b :: pre) a post rfl

/-- An invariant that may mention the inputs read so far, kept by every step
that satisfies `Q`. -/
theorem run_history {step : σ → α → σ} {Q : σ → α → Prop} {I : List α → σ → Prop} {s : σ}
    (hstart : I [] s)
    (hstep : ∀ pre a, I pre (run step s pre) → Q (run step s pre) a →
      I (pre ++ [a]) (step (run step s pre) a))
    {as : List α} (h : Along step Q s as) : I as (run step s as) := by
  induction as using List.reverseRecOn with
  | nil => exact hstart
  | append_singleton pre a ih =>
    obtain ⟨hpre, hq⟩ := along_concat.mp h
    rw [run_concat]
    exact hstep pre a (ih hpre) hq

theorem Along.imp {step : σ → α → σ} {Q R : σ → α → Prop} (h : ∀ s a, Q s a → R s a) {s : σ}
    {as : List α} (hq : Along step Q s as) : Along step R s as :=
  along_iff_split.mpr fun pre a post has => h _ a (along_iff_split.mp hq pre a post has)

theorem along_true (step : σ → α → σ) (s : σ) (as : List α) :
    Along step (fun _ _ => True) s as :=
  along_iff_split.mpr fun _ _ _ _ => trivial

theorem along_const_iff {step : σ → α → σ} {P : α → Prop} {s : σ} {as : List α} :
    Along step (fun _ a => P a) s as ↔ ∀ a ∈ as, P a := by
  induction as generalizing s with
  | nil => simp [Along]
  | cons a as ih => simp only [Along, ih, List.forall_mem_cons]

/-- Two conditions on the steps that are the same where an invariant holds, one of which
keeps it. -/
theorem along_iff_of_invariant {step : σ → α → σ} {Q R : σ → α → Prop} {I : σ → Prop}
    (hiff : ∀ s a, I s → (Q s a ↔ R s a)) (hkeep : ∀ s a, I s → Q s a → I (step s a)) {s : σ}
    (hs : I s) (as : List α) : Along step Q s as ↔ Along step R s as := by
  induction as generalizing s with
  | nil => exact Iff.rfl
  | cons a as ih =>
    constructor
    · intro h
      exact ⟨(hiff s a hs).mp h.1, (ih (hkeep s a hs h.1)).mp h.2⟩
    · intro h
      have hq := (hiff s a hs).mpr h.1
      exact ⟨hq, (ih (hkeep s a hs hq)).mpr h.2⟩

def remember (pre : List α) (a : α) : List α := pre ++ [a]

theorem run_remember (pre as : List α) : run remember pre as = pre ++ as := by
  induction as generalizing pre with
  | nil => simp
  | cons a as ih => simp [ih, remember]

def tally (step : σ → α → σ) (q : σ → α → Nat) : σ → List α → Nat
  | _, [] => 0
  | s, a :: as => q s a + tally step q (step s a) as

theorem tally_append (step : σ → α → σ) (q : σ → α → Nat) (s : σ) (as bs : List α) :
    tally step q s (as ++ bs) = tally step q s as + tally step q (run step s as) bs := by
  induction as generalizing s with
  | nil => simp [tally]
  | cons a as ih => simp only [List.cons_append, tally, ih, run_cons, Nat.add_assoc]

theorem tally_concat (step : σ → α → σ) (q : σ → α → Nat) (s : σ) (as : List α) (a : α) :
    tally step q s (as ++ [a]) = tally step q s as + q (run step s as) a := by
  rw [tally_append]
  simp [tally]

/-- A tally of what only the inputs decide along this run does not depend on their order. -/
theorem tally_eq_sum {step : σ → α → σ} {q : σ → α → Nat} {e : α → Nat} {s : σ} {as : List α}
    (h : Along step (fun s a => q s a = e a) s as) : tally step q s as = (as.map e).sum := by
  induction as generalizing s with
  | nil => rfl
  | cons a as ih => rw [tally, h.1, ih h.2, List.map_cons, List.sum_cons]

/-- What the steps of a run yield, one after the other. -/
def trail {β : Type*} (step : σ → α → σ) (q : σ → α → List β) : σ → List α → List β
  | _, [] => []
  | s, a :: as => q s a ++ trail step q (step s a) as

theorem trail_append {β : Type*} (step : σ → α → σ) (q : σ → α → List β) (s : σ) (as bs : List α) :
    trail step q s (as ++ bs) = trail step q s as ++ trail step q (run step s as) bs := by
  induction as generalizing s with
  | nil => rfl
  | cons a as ih => simp only [List.cons_append, trail, ih, run_cons, List.append_assoc]

theorem trail_concat {β : Type*} (step : σ → α → σ) (q : σ → α → List β) (s : σ) (as : List α)
    (a : α) : trail step q s (as ++ [a]) = trail step q s as ++ q (run step s as) a := by
  rw [trail_append]
  simp [trail]

/-- A machine that also keeps a record `γ` of its run. The record reads the
state before each step and never influences it. -/
def recorded (step : σ → α → σ) (note : σ → γ → α → γ) (p : σ × γ) (a : α) : σ × γ :=
  (step p.1 a, note p.1 p.2 a)

theorem run_recorded_fst (step : σ → α → σ) (note : σ → γ → α → γ) (p : σ × γ) (as : List α) :
    (run (recorded step note) p as).1 = run step p.1 as := by
  induction as generalizing p with
  | nil => rfl
  | cons a as ih => exact ih _

section Family

variable {κ : Type*} [DecidableEq κ] {τ : κ → Type*}

def route (step : ∀ k, τ k → α → τ k) (f : ∀ k, τ k) (e : κ × α) : ∀ k, τ k :=
  Function.update f e.1 (step e.1 (f e.1) e.2)

def inputsAt (k : κ) (es : List (κ × α)) : List α :=
  es.filterMap fun e => if e.1 = k then some e.2 else none

theorem run_route (step : ∀ k, τ k → α → τ k) (f : ∀ k, τ k) (es : List (κ × α)) (k : κ) :
    run (route step) f es k = run (step k) (f k) (inputsAt k es) := by
  induction es generalizing f with
  | nil => rfl
  | cons e es ih =>
    obtain ⟨k', a⟩ := e
    rw [run_cons, ih]
    by_cases hk : k' = k
    · subst hk
      simp [route, inputsAt]
    · have hu : route step f (k', a) k = f k := Function.update_of_ne (Ne.symm hk) _ _
      simp [hu, inputsAt, hk]

end Family

end Machine
