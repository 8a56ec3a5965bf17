import AnalysePcap.ByteMemory

/-! A buffer in a memory that is filled at its end while what it has is taken out at its front.
Now and then what is left is moved to the front. -/

namespace DrainBuffer

open ByteMemory

/-- `used` bytes from `base` on are filled, the first `work` of them are out already. -/
structure Buffer where
  mem : Memory
  base : Nat
  used : Nat
  work : Nat

namespace Buffer

def content (b : Buffer) : List (BitVec 8) := load b.mem (b.base + b.work) (b.used - b.work)

def push (b : Buffer) (bytes : List (BitVec 8)) : Buffer :=
  { b with mem := store b.mem (b.base + b.used) bytes, used := b.used + bytes.length }

def skip (b : Buffer) (n : Nat) : Buffer := { b with work := b.work + n }

def compact (b : Buffer) : Buffer :=
  { b with mem := store b.mem b.base b.content, used := b.used - b.work, work := 0 }

variable {b : Buffer}

@[simp] theorem length_content (b : Buffer) : b.content.length = b.used - b.work :=
  length_load _ _ _

theorem content_push (h : b.work ≤ b.used) (bytes : List (BitVec 8)) :
    (b.push bytes).content = b.content ++ bytes := by
  have hlen : b.used + bytes.length - b.work = (b.used - b.work) + bytes.length := by omega
  have hat : b.base + b.work + (b.used - b.work) = b.base + b.used := by omega
  have hkeep : Agree b.mem (b.push bytes).mem (b.base + b.work) (b.used - b.work) :=
    agree_store (by omega)
  unfold content
  rw [← hkeep.load]
  simp only [push]
  rw [hlen, load_add, hat, load_store_self]

theorem content_skip {n : Nat} (h : b.work + n ≤ b.used) :
    load b.mem (b.base + b.work) n ++ (b.skip n).content = b.content := by
  have hlen : b.used - b.work = n + (b.used - (b.work + n)) := by omega
  simp only [content, skip]
  rw [hlen, load_add, Nat.add_assoc]

theorem content_compact (b : Buffer) : b.compact.content = b.content := by
  have h := load_store_self b.mem b.base b.content
  rw [length_content] at h
  exact h

end Buffer

inductive Move where
  | keep
  | push (bytes : List (BitVec 8))
  | skip (n : Nat)
  | compact

namespace Move

def apply : Move → Buffer → Buffer
  | keep, b => b
  | push bytes, b => b.push bytes
  | skip n, b => b.skip n
  | compact, b => b.compact

def arriving : Move → List (BitVec 8)
  | push bytes => bytes
  | _ => []

def leaving : Move → Buffer → List (BitVec 8)
  | skip n, b => load b.mem (b.base + b.work) n
  | _, _ => []

def Fits (cap : Nat) : Move → Buffer → Prop
  | push bytes, b => b.used + bytes.length ≤ cap
  | skip n, b => b.work + n ≤ b.used
  | _, _ => True

end Move

/-- A buffer of `cap` bytes that holds what of `arrived` has not yet `left`. -/
structure Holds (cap : Nat) (b : Buffer) (arrived left : List (BitVec 8)) : Prop where
  work_le : b.work ≤ b.used
  used_le : b.used ≤ cap
  stream : left ++ b.content = arrived

variable {cap : Nat} {b : Buffer} {arrived left : List (BitVec 8)} {m : Move}

theorem Holds.apply (h : Holds cap b arrived left) (hm : m.Fits cap b) :
    Holds cap (m.apply b) (arrived ++ m.arriving) (left ++ m.leaving b) := by
  have hwork := h.work_le
  have hused := h.used_le
  cases m with
  | keep => simpa [Move.apply, Move.arriving, Move.leaving] using h
  | push bytes =>
    refine ⟨hwork.trans (Nat.le_add_right _ _), hm, ?_⟩
    simp only [Move.apply, Move.leaving, Move.arriving, List.append_nil]
    rw [Buffer.content_push hwork, ← List.append_assoc, h.stream]
  | skip n =>
    refine ⟨hm, hused, ?_⟩
    simp only [Move.apply, Move.leaving, Move.arriving, List.append_nil]
    rw [List.append_assoc, Buffer.content_skip hm, h.stream]
  | compact =>
    refine ⟨Nat.zero_le _, (Nat.sub_le _ _).trans hused, ?_⟩
    simp only [Move.apply, Move.leaving, Move.arriving, List.append_nil]
    rw [Buffer.content_compact, h.stream]

theorem Holds.apply_outside (h : Holds cap b arrived left) (hm : m.Fits cap b) {x : Nat}
    (hx : x < b.base ∨ b.base + cap ≤ x) : (m.apply b).mem x = b.mem x := by
  have hused := h.used_le
  cases m with
  | keep => rfl
  | skip n => rfl
  | push bytes =>
    have hfit : b.used + bytes.length ≤ cap := hm
    exact store_outside (by omega)
  | compact =>
    have hlen := b.length_content
    exact store_outside (by omega)

theorem base_apply (m : Move) (b : Buffer) : (m.apply b).base = b.base := by
  cases m <;> rfl

end DrainBuffer
