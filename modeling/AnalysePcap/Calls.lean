import AnalysePcap.Postcondition
import Mathlib.Logic.Function.Basic

/-! Programs that call a shared service. What a program calls next may depend on the answers, and
between two calls of one program the others make theirs. A service that computes its answers is
compared with one that may choose among several. -/

namespace Calls

open Postcondition

variable {ι σ τ χ ρ α β ε η : Type}

inductive Prog (χ ρ α : Type) where
  | done (a : α)
  | call (c : χ) (k : ρ → Prog χ ρ α)

namespace Prog

def bind : Prog χ ρ α → (α → Prog χ ρ β) → Prog χ ρ β
  | .done a, f => f a
  | .call c k, f => .call c fun r => (k r).bind f

instance : Monad (Prog χ ρ) where
  pure := .done
  bind := bind

/-- A single call, with its answer. -/
def ask (c : χ) : Prog χ ρ ρ := .call c .done

/-- Whatever the program is answered, it makes only calls with `P`. -/
def Uses (P : χ → Prop) : Prog χ ρ α → Prop
  | .done _ => True
  | .call c k => P c ∧ ∀ r, (k r).Uses P

theorem Uses.bind {P : χ → Prop} {p : Prog χ ρ α} {f : α → Prog χ ρ β} (hp : p.Uses P)
    (hf : ∀ a, (f a).Uses P) : (p >>= f).Uses P := by
  induction p with
  | done a => exact hf a
  | call c k ih => exact ⟨hp.1, fun r => ih r (hp.2 r)⟩

/-- The program makes at most `n` calls. -/
def Bounded : Prog χ ρ α → Nat → Prop
  | .done _, _ => True
  | .call _ _, 0 => False
  | .call _ k, n + 1 => ∀ r, (k r).Bounded n

theorem Bounded.bind {n m : Nat} {p : Prog χ ρ α} {f : α → Prog χ ρ β} (hp : p.Bounded n)
    (hf : ∀ a n, (f a).Bounded (n + m)) : (p >>= f).Bounded (n + m) := by
  induction p generalizing n with
  | done a => exact hf a n
  | call c k ih =>
    cases n with
    | zero => exact hp.elim
    | succ n =>
      rw [Nat.succ_add]
      exact fun r => ih r (hp r)

/-- The program has the service to itself: each of its calls is a step of `K`, and it ends
with `Q`. -/
def Alone (Serve : τ → χ → ρ → τ → Prop) (K : τ → τ → Prop) (Q : α → τ → Prop) :
    Prog χ ρ α → τ → Prop
  | .done a, t => Q a t
  | .call c k, t => ∀ r t', Serve t c r t' → K t t' ∧ (k r).Alone Serve K Q t'

variable {Serve : τ → χ → ρ → τ → Prop} {K : τ → τ → Prop}

theorem Alone.bind {Q : α → τ → Prop} {Q' : β → τ → Prop} {p : Prog χ ρ α} {f : α → Prog χ ρ β}
    {t : τ} (hp : p.Alone Serve K Q t) (hf : ∀ a t, Q a t → (f a).Alone Serve K Q' t) :
    (p >>= f).Alone Serve K Q' t := by
  induction p generalizing t with
  | done a => exact hf a t hp
  | call c k ih => exact fun r t' hserve => ⟨(hp r t' hserve).1, ih r (hp r t' hserve).2⟩

end Prog

/-- Programs with the service that they share. -/
structure System (ι σ χ ρ α : Type) where
  store : σ
  process : ι → Prog χ ρ α

section Runs

variable [DecidableEq ι]

/-- Process `i` makes its next call. -/
def System.next (serve : σ → χ → Except ε (ρ × σ)) (s : System ι σ χ ρ α) (i : ι) :
    Except ε (System ι σ χ ρ α) :=
  match s.process i with
  | .done _ => return s
  | .call c k => do
    let (answer, store) ← serve s.store c
    return ⟨store, Function.update s.process i (k answer)⟩

/-- The calls of all processes, in any order; what the service does may depend on what it finds
around it at that time. -/
def System.run (serve : η → σ → χ → Except ε (ρ × σ)) (s : System ι σ χ ρ α)
    (events : List (ι × η)) : Except ε (System ι σ χ ρ α) :=
  events.foldlM (fun s e => s.next (serve e.2) e.1) s

theorem ensures_bounded {serve : σ → χ → Except ε (ρ × σ)} {s : System ι σ χ ρ α} {i : ι} {n : Nat}
    (h : (s.process i).Bounded (n + 1)) :
    Ensures (fun _ => True) (fun s' => (s'.process i).Bounded n) (s.next serve i) := by
  unfold System.next
  cases hi : s.process i with
  | done a =>
    refine ensures_ok ?_
    rw [hi]
    trivial
  | call c k =>
    rw [hi] at h
    dsimp only
    cases serve s.store c with
    | error e => exact ensures_error trivial
    | ok r =>
      refine ensures_ok ?_
      simp only [Function.update_self]
      exact h r.1

/-- A process that has had as many turns as it makes calls has come to its end. -/
theorem ensures_done {serve : η → σ → χ → Except ε (ρ × σ)} {s : System ι σ χ ρ α} {i : ι}
    {events : List (ι × η)} (hevents : ∀ e ∈ events, e.1 = i)
    (h : (s.process i).Bounded events.length) :
    Ensures (fun _ => True) (fun s' => ∃ a, s'.process i = .done a) (s.run serve events) := by
  induction events generalizing s with
  | nil =>
    refine ensures_ok ?_
    cases hi : s.process i with
    | done a => exact ⟨a, rfl⟩
    | call c k =>
      rw [hi] at h
      exact h.elim
  | cons e events ih =>
    obtain ⟨hi, hrest⟩ := List.forall_mem_cons.mp hevents
    rw [System.run, List.foldlM_cons, hi]
    exact (ensures_bounded h).bind fun s' h' => ih hrest h'

/-- The next call of process `i`, answered in one of the ways that `Serve` allows. -/
def Step (Serve : τ → χ → ρ → τ → Prop) (s : System ι τ χ ρ α) (i : ι) (s' : System ι τ χ ρ α) :
    Prop :=
  match s.process i with
  | .done _ => s' = s
  | .call c k => ∃ r t, Serve s.store c r t ∧ s' = ⟨t, Function.update s.process i (k r)⟩

inductive Run (Serve : τ → χ → ρ → τ → Prop) (start : System ι τ χ ρ α) :
    List ι → System ι τ χ ρ α → Prop
  | nil : Run Serve start [] start
  | concat {schedule : List ι} {s s' : System ι τ χ ρ α} {i : ι} : Run Serve start schedule s →
      Step Serve s i s' → Run Serve start (schedule ++ [i]) s'

section Simulation

variable {serve : σ → χ → Except ε (ρ × σ)} {Serve : τ → χ → ρ → τ → Prop} {R : σ → τ → Prop}
  {P : χ → Prop} {E : ε → Prop}

/-- If the calls are simulated in this state, so is the next call of a process. -/
theorem ensures_next {s : System ι σ χ ρ α} {t : τ}
    (hserve : ∀ c, P c →
      Ensures E (fun r => ∃ t', Serve t c r.1 t' ∧ R r.2 t') (serve s.store c))
    (hR : R s.store t) (huses : ∀ i, (s.process i).Uses P) (i : ι) :
    Ensures E (fun s' => ∃ t', Step Serve ⟨t, s.process⟩ i ⟨t', s'.process⟩ ∧ R s'.store t' ∧
      ∀ j, (s'.process j).Uses P) (s.next serve i) := by
  unfold System.next Step
  cases hi : s.process i with
  | done a => exact ensures_ok ⟨t, rfl, hR, huses⟩
  | call c k =>
    have hcall := huses i
    rw [hi] at hcall
    refine (hserve c hcall.1).bind ?_
    rintro ⟨r, store⟩ ⟨t', hserve', hR'⟩
    refine ensures_ok ⟨t', ⟨r, t', hserve', rfl⟩, hR', fun j => ?_⟩
    by_cases hj : j = i
    · subst hj
      simp only [Function.update_self]
      exact hcall.2 r
    · simp only [Function.update_of_ne hj]
      exact huses j

theorem ensures_run {serve : η → σ → χ → Except ε (ρ × σ)} {events : List (ι × η)}
    (hserve : ∀ e ∈ events, ∀ s t c, R s t → P c →
      Ensures E (fun r => ∃ t', Serve t c r.1 t' ∧ R r.2 t') (serve e.2 s c))
    {s : σ} {t : τ} (hR : R s t) {process : ι → Prog χ ρ α} (huses : ∀ i, (process i).Uses P) :
    Ensures E (fun s' => ∃ t', Run Serve ⟨t, process⟩ (events.map Prod.fst) ⟨t', s'.process⟩ ∧
      R s'.store t' ∧ ∀ j, (s'.process j).Uses P) (System.run serve ⟨s, process⟩ events) := by
  refine Ensures.foldlM (I := fun done (s' : System ι σ χ ρ α) => ∃ t',
    Run Serve ⟨t, process⟩ (done.map Prod.fst) ⟨t', s'.process⟩ ∧ R s'.store t' ∧
      ∀ j, (s'.process j).Uses P) ?_ ⟨t, .nil, hR, huses⟩
  rintro done e rest s' rfl ⟨t', hrun, hR', huses'⟩
  have hcall := hserve e (List.mem_append_right _ List.mem_cons_self) s'.store t'
  refine (ensures_next (fun c => hcall c hR') hR' huses' e.1).imp ?_
  rintro s'' ⟨t'', hstep, hR'', huses''⟩
  rw [List.map_append, List.map_singleton]
  exact ⟨t'', hrun.concat hstep, hR'', huses''⟩

end Simulation

section Single

variable {Serve : τ → χ → ρ → τ → Prop} {K : τ → τ → Prop} {Q : α → τ → Prop} {s s' : System ι τ χ ρ α}
  {i : ι}

theorem Step.alone (h : Step Serve s i s') (halone : (s.process i).Alone Serve K Q s.store) :
    (s' = s ∨ K s.store s'.store) ∧ (s'.process i).Alone Serve K Q s'.store := by
  unfold Step at h
  cases hi : s.process i with
  | done a =>
    rw [hi] at h
    subst h
    exact ⟨.inl rfl, halone⟩
  | call c k =>
    rw [hi] at h halone
    obtain ⟨r, t, hserve, rfl⟩ := h
    obtain ⟨hK, hrest⟩ := halone r t hserve
    exact ⟨.inr hK, by simpa using hrest⟩

/-- With one process the service is never called in between. -/
theorem Run.alone [Subsingleton ι] {start : System ι τ χ ρ α} {schedule : List ι}
    (h : Run Serve start schedule s) (halone : (start.process i).Alone Serve K Q start.store) :
    (s.process i).Alone Serve K Q s.store := by
  induction h with
  | nil => exact halone
  | @concat _ _ _ j _ hstep ih =>
    rw [Subsingleton.elim j i] at hstep
    exact (hstep.alone ih).2

end Single

end Runs

end Calls
