import Mathlib.Data.List.Basic

/-! Postconditions of computations that return a result or stop with an exit. -/

namespace Postcondition

universe u

variable {ε : Type*} {α β : Type u} {E : ε → Prop} {P : α → Prop} {Q : β → Prop}

/-- The computation returns a result with `P`, or it stops with one of the exits `E`. -/
def Ensures (E : ε → Prop) (P : α → Prop) : Except ε α → Prop
  | .ok a => P a
  | .error e => E e

theorem ensures_ok {a : α} (h : P a) : Ensures E P (.ok a) := h

theorem ensures_error {e : ε} (h : E e) : Ensures E P (.error e) := h

theorem Ensures.of_eq_ok {r : Except ε α} (h : Ensures E P r) {a : α} (hr : r = .ok a) : P a := by
  rw [hr] at h
  exact h

theorem Ensures.of_eq_error {r : Except ε α} (h : Ensures E P r) {e : ε} (hr : r = .error e) :
    E e := by
  rw [hr] at h
  exact h

theorem Ensures.exists_ok {r : Except ε α} (h : Ensures (fun _ => False) P r) :
    ∃ a, r = .ok a ∧ P a := by
  cases r with
  | ok a => exact ⟨a, rfl, h⟩
  | error e => exact h.elim

theorem Ensures.imp {r : Except ε α} {P' : α → Prop} (h : Ensures E P r)
    (hP : ∀ a, P a → P' a) : Ensures E P' r := by
  cases r with
  | ok a => exact hP a h
  | error e => exact h

theorem Ensures.weaken {r : Except ε α} {E' : ε → Prop} (h : Ensures E P r)
    (hE : ∀ e, E e → E' e) : Ensures E' P r := by
  cases r with
  | ok a => exact h
  | error e => exact hE e h

theorem Ensures.and {r : Except ε α} {E' : ε → Prop} {P' : α → Prop} (h : Ensures E P r)
    (h' : Ensures E' P' r) : Ensures E (fun a => P a ∧ P' a) r := by
  cases r with
  | ok a => exact ⟨h, h'⟩
  | error e => exact h

theorem Ensures.both {r : Except ε α} {E' : ε → Prop} {P' : α → Prop} (h : Ensures E P r)
    (h' : Ensures E' P' r) : Ensures (fun e => E e ∧ E' e) (fun a => P a ∧ P' a) r := by
  cases r with
  | ok a => exact ⟨h, h'⟩
  | error e => exact ⟨h, h'⟩

theorem Ensures.bind {r : Except ε α} {f : α → Except ε β} (h : Ensures E P r)
    (hf : ∀ a, P a → Ensures E Q (f a)) : Ensures E Q (r >>= f) := by
  cases r with
  | ok a => exact hf a h
  | error e => exact h

/-- An invariant of a loop over a list, which may mention what has been done already. -/
theorem Ensures.foldlM {f : β → α → Except ε β} {I : List α → β → Prop} {l : List α}
    (hstep : ∀ done a rest b, l = done ++ a :: rest → I done b →
      Ensures E (I (done ++ [a])) (f b a))
    {b : β} (hb : I [] b) : Ensures E (I l) (l.foldlM f b) := by
  suffices h : ∀ rest done b, l = done ++ rest → I done b → Ensures E (I l) (rest.foldlM f b) from
    h l [] b rfl hb
  intro rest
  induction rest with
  | nil =>
    intro done b hl hI
    rw [List.append_nil] at hl
    exact hl ▸ hI
  | cons a rest ih =>
    intro done b hl hI
    rw [List.foldlM_cons]
    exact (hstep done a rest b hl hI).bind fun b' hb' =>
      ih (done ++ [a]) b' (by rw [hl, List.append_assoc]; rfl) hb'

end Postcondition
