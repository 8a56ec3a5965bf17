import Mathlib.Logic.Relation
import Mathlib.Tactic.SplitIfs

/-! A `while` loop whose body may leave it by a `break`: the states at its head, the state
it leaves behind, and what a variant says about both. A body returns the new state and
whether it breaks. -/

namespace WhileLoop

variable {σ β : Type*}

def Round (cond : σ → Prop) (body : σ → σ × Bool) (s s' : σ) : Prop :=
  cond s ∧ body s = (s', false)

/-- The states at the head of a loop that is entered in the first one. -/
abbrev Head (cond : σ → Prop) (body : σ → σ × Bool) : σ → σ → Prop :=
  Relation.ReflTransGen (Round cond body)

/-- The loop that is entered in the first state is left in the second one. -/
inductive Exits (cond : σ → Prop) (body : σ → σ × Bool) : σ → σ → Prop
  | done {s : σ} (hcond : ¬ cond s) : Exits cond body s s
  | broken {s s' : σ} (hcond : cond s) (hbody : body s = (s', true)) : Exits cond body s s'
  | next {s s' t : σ} (hround : Round cond body s s') (h : Exits cond body s' t) :
      Exits cond body s t

section Functions

variable (cond : σ → Prop) [DecidablePred cond] (body : σ → σ × Bool)

def loop : (fuel : Nat) → σ → σ
  | 0, s => s
  | fuel + 1, s =>
    if cond s then
      match body s with
      | (s', true) => s'
      | (s', false) => loop fuel s'
    else s

/-- What the rounds give out, a round that breaks included. -/
def trace (emit : σ → List β) : (fuel : Nat) → σ → List β
  | 0, _ => []
  | fuel + 1, s =>
    if cond s then
      emit s ++
        match body s with
        | (_, true) => []
        | (s', false) => trace emit fuel s'
    else []

theorem flatMap_trace {γ : Type*} (emit : σ → List β) (f : β → List γ) (fuel : Nat) (s : σ) :
    (trace cond body emit fuel s).flatMap f =
      trace cond body (fun s => (emit s).flatMap f) fuel s := by
  induction fuel generalizing s with
  | zero => rfl
  | succ fuel ih =>
    rw [trace, trace]
    split_ifs
    · rw [List.flatMap_append]
      refine congrArg _ ?_
      cases body s with
      | mk s' stop =>
        cases stop with
        | true => rfl
        | false => exact ih s'
    · rfl

end Functions

/-- A number that each completed round makes smaller where the invariant holds. -/
structure Variant (cond : σ → Prop) (body : σ → σ × Bool) (inv : σ → Prop) (v : σ → Nat) :
    Prop where
  pos : ∀ {s}, inv s → cond s → 0 < v s
  keep : ∀ {s s'}, inv s → Round cond body s s' → inv s'
  decrease : ∀ {s s'}, inv s → Round cond body s s' → v s' < v s

namespace Variant

variable {cond : σ → Prop} {body : σ → σ × Bool} {inv : σ → Prop} {v : σ → Nat} {s t : σ}

theorem head (h : Variant cond body inv v) (hs : inv s) (ht : Head cond body s t) : inv t := by
  induction ht with
  | refl => exact hs
  | tail _ hround ih => exact h.keep ih hround

variable [DecidablePred cond]

/-- With as much fuel as the variant, the recursion is the loop. -/
theorem exits_loop (h : Variant cond body inv v) {fuel : Nat} (hs : inv s) (hfuel : v s ≤ fuel) :
    Exits cond body s (loop cond body fuel s) := by
  induction fuel generalizing s with
  | zero =>
    have hcond : ¬ cond s := fun hc => absurd (h.pos hs hc) (by omega)
    exact .done hcond
  | succ fuel ih =>
    rw [loop]
    split_ifs with hcond
    · cases hbody : body s with
      | mk s' stop =>
        cases stop with
        | true => exact .broken hcond hbody
        | false =>
          have hless := h.decrease hs ⟨hcond, hbody⟩
          exact .next ⟨hcond, hbody⟩ (ih (h.keep hs ⟨hcond, hbody⟩) (by omega))
    · exact .done hcond

theorem mem_trace (h : Variant cond body inv v) {emit : σ → List β} {fuel : Nat} (hs : inv s)
    (hfuel : v s ≤ fuel) {b : β} :
    b ∈ trace cond body emit fuel s ↔ ∃ t, Head cond body s t ∧ cond t ∧ b ∈ emit t := by
  constructor
  · intro hb
    induction fuel generalizing s with
    | zero => cases hb
    | succ fuel ih =>
      rw [trace] at hb
      split_ifs at hb with hcond
      · rcases List.mem_append.mp hb with hb | hb
        · exact ⟨s, .refl, hcond, hb⟩
        · cases hbody : body s with
          | mk s' stop =>
            rw [hbody] at hb
            cases stop with
            | true => cases hb
            | false =>
              have hround : Round cond body s s' := ⟨hcond, hbody⟩
              have hless := h.decrease hs hround
              obtain ⟨t, ht, hlast⟩ := ih (h.keep hs hround) (by omega) hb
              exact ⟨t, .head hround ht, hlast⟩
      · cases hb
  -- the induction starts at the state that gives out `b` and goes back to the entry
  · rintro ⟨t, ht, hcond, hb⟩
    induction ht using Relation.ReflTransGen.head_induction_on generalizing fuel with
    | refl =>
      have hpos := h.pos hs hcond
      obtain ⟨n, rfl⟩ : ∃ n, fuel = n + 1 := ⟨fuel - 1, by omega⟩
      rw [trace, if_pos hcond]
      exact List.mem_append_left _ hb
    | head hround _ ih =>
      have hpos := h.pos hs hround.1
      have hless := h.decrease hs hround
      obtain ⟨n, rfl⟩ : ∃ n, fuel = n + 1 := ⟨fuel - 1, by omega⟩
      rw [trace, if_pos hround.1, hround.2]
      exact List.mem_append_right _ (ih (h.keep hs hround) (by omega))

end Variant

end WhileLoop
