import Mathlib.Data.List.Basic

/-! A reader with two slots. It goes through a list, puts each item into the slot it is
for, over what was there, and stops as soon as both slots are full. What one more item
changes depends on where the reader stops. -/

namespace TwoSlots

variable {α β : Type*}

inductive Item (α β : Type*) where
  | left (a : α)
  | right (b : β)
  | skip

@[ext] structure Slots (α β : Type*) where
  left : Option α
  right : Option β

def Slots.empty : Slots α β := ⟨none, none⟩

def Slots.put (s : Slots α β) : Item α β → Slots α β
  | .left a => { s with left := some a }
  | .right b => { s with right := some b }
  | .skip => s

def Slots.Full (s : Slots α β) : Prop := s.left.isSome = true ∧ s.right.isSome = true

instance (s : Slots α β) : Decidable s.Full := inferInstanceAs (Decidable (_ ∧ _))

def read : List (Item α β) → Slots α β → Slots α β
  | [], s => s
  | x :: xs, s => if (s.put x).Full then s.put x else read xs (s.put x)

def fill (xs : List (Item α β)) (s : Slots α β) : Slots α β := xs.foldl Slots.put s

theorem fill_cons (x : Item α β) (xs : List (Item α β)) (s : Slots α β) :
    fill (x :: xs) s = fill xs (s.put x) := rfl

def HasLeft (xs : List (Item α β)) : Prop := ∃ a, .left a ∈ xs

def HasRight (xs : List (Item α β)) : Prop := ∃ b, .right b ∈ xs

def Item.right? : Item α β → Option β
  | .right b => some b
  | _ => none

/-- The items for the second slot. -/
def rights (xs : List (Item α β)) : List β := xs.filterMap Item.right?

section Fill

variable {xs ys : List (Item α β)} {s : Slots α β}

theorem fill_left_isSome : (fill xs s).left.isSome = true ↔ s.left.isSome = true ∨ HasLeft xs := by
  induction xs generalizing s with
  | nil => simp [fill, HasLeft]
  | cons x xs ih =>
    rw [fill_cons, ih]
    cases x <;> simp [Slots.put, HasLeft]

theorem fill_right_isSome :
    (fill xs s).right.isSome = true ↔ s.right.isSome = true ∨ HasRight xs := by
  induction xs generalizing s with
  | nil => simp [fill, HasRight]
  | cons x xs ih =>
    rw [fill_cons, ih]
    cases x <;> simp [Slots.put, HasRight]

theorem fill_right : (fill xs s).right = (rights xs).getLast?.or s.right := by
  induction xs generalizing s with
  | nil => rfl
  | cons x xs ih =>
    rw [fill_cons, ih]
    cases x with
    | left a => rfl
    | right b =>
      change _ = ((b :: rights xs).getLast?).or s.right
      rw [List.getLast?_cons]
      cases (rights xs).getLast? <;> rfl
    | skip => rfl

theorem fill_empty_right (h : ¬ HasRight xs) : (fill xs (.empty : Slots α β)).right = none := by
  have hnot : ¬ (fill xs (.empty : Slots α β)).right.isSome = true := by
    rw [fill_right_isSome]
    simpa [Slots.empty] using h
  simpa using hnot

theorem full_fill_iff : (fill xs (.empty : Slots α β)).Full ↔ HasLeft xs ∧ HasRight xs := by
  simp [Slots.Full, fill_left_isSome, fill_right_isSome, Slots.empty]

theorem full_fill_of_full (h : s.Full) : (fill xs s).Full :=
  ⟨fill_left_isSome.mpr (.inl h.1), fill_right_isSome.mpr (.inl h.2)⟩

theorem read_append_of_not_full (h : ¬ (fill xs s).Full) :
    read (xs ++ ys) s = read ys (fill xs s) := by
  induction xs generalizing s with
  | nil => rfl
  | cons x xs ih =>
    have hgo : ¬ (s.put x).Full := fun hf => h (full_fill_of_full (s := s.put x) hf)
    rw [List.cons_append, read, if_neg hgo]
    exact ih h

theorem read_append_of_full (h : (fill xs s).Full) (hs : ¬ s.Full) :
    read (xs ++ ys) s = read xs s := by
  induction xs generalizing s with
  | nil => exact absurd h hs
  | cons x xs ih =>
    rw [List.cons_append, read, read]
    split_ifs with hgo
    · rfl
    · exact ih h hgo

end Fill

theorem not_full_empty : ¬ (Slots.empty : Slots α β).Full := by
  simp [Slots.Full, Slots.empty]

section Insert

variable {pre post : List (Item α β)} {v : α}

theorem read_insert_of_full (hl : HasLeft pre) (hr : HasRight pre) (x : Item α β) :
    read (pre ++ x :: post) .empty = read (pre ++ post) .empty := by
  have hfull : (fill pre (.empty : Slots α β)).Full := full_fill_iff.mpr ⟨hl, hr⟩
  rw [read_append_of_full hfull not_full_empty, read_append_of_full hfull not_full_empty]

theorem read_insert_skip :
    read (pre ++ .skip :: post) .empty = read (pre ++ post) (.empty : Slots α β) := by
  by_cases hfull : HasLeft pre ∧ HasRight pre
  · exact read_insert_of_full hfull.1 hfull.2 .skip
  · have hnot := full_fill_iff.not.mpr hfull
    rw [read_append_of_not_full hnot, read_append_of_not_full hnot, read]
    exact if_neg hnot

/-- An item of the same kind that is still read makes up for the one inserted. -/
theorem read_insert_left_again {mid : List (Item α β)} {a : α} (h : ¬ HasRight (pre ++ mid)) :
    read (pre ++ .left v :: (mid ++ .left a :: post)) .empty =
      read (pre ++ (mid ++ .left a :: post)) .empty := by
  have hmore : ¬ HasRight (pre ++ .left v :: mid) := by
    simpa [HasRight] using h
  have hnot : ¬ (fill (pre ++ mid) (.empty : Slots α β)).Full :=
    full_fill_iff.not.mpr fun hc => h hc.2
  have hnot' : ¬ (fill (pre ++ .left v :: mid) (.empty : Slots α β)).Full :=
    full_fill_iff.not.mpr fun hc => hmore hc.2
  have hput : (fill (pre ++ .left v :: mid) (.empty : Slots α β)).put (.left a) =
      (fill (pre ++ mid) (.empty : Slots α β)).put (.left a) :=
    Slots.ext rfl ((fill_empty_right hmore).trans (fill_empty_right h).symm)
  rw [← List.append_assoc pre mid, read_append_of_not_full hnot,
    show pre ++ .left v :: (mid ++ .left a :: post) = (pre ++ .left v :: mid) ++ .left a :: post by
      simp, read_append_of_not_full hnot', read, read, hput]

/-- A value that nothing overwrites before the reader stops. -/
theorem read_left_kept {xs : List (Item α β)}
    (h : ∀ mid a rest, xs = mid ++ .left a :: rest → HasRight mid) :
    (read xs ⟨some v, none⟩).left = some v := by
  induction xs with
  | nil => rfl
  | cons x xs ih =>
    cases x with
    | left a =>
      obtain ⟨b, hb⟩ := h [] a xs rfl
      cases hb
    | right b => rfl
    | skip =>
      refine ih fun mid a rest hxs => ?_
      obtain ⟨b, hb⟩ := h (.skip :: mid) a rest (by rw [hxs]; rfl)
      exact ⟨b, by simpa using hb⟩

theorem read_insert_left (hpre : ¬ (HasLeft pre ∧ HasRight pre))
    (h : ∀ mid a rest, post = mid ++ .left a :: rest → HasRight (pre ++ mid)) :
    (read (pre ++ .left v :: post) .empty).left = some v := by
  have hnot := full_fill_iff.not.mpr hpre
  rw [read_append_of_not_full hnot, read]
  split_ifs with hfull
  · rfl
  · have hright : (fill pre (.empty : Slots α β)).right = none := by
      simpa [Slots.Full, Slots.put] using hfull
    have hput : (fill pre (.empty : Slots α β)).put (.left v) = ⟨some v, none⟩ :=
      Slots.ext rfl hright
    have hnone : ¬ HasRight pre := by
      intro hr
      have hsome := (fill_right_isSome (s := .empty)).mpr (.inr hr)
      rw [hright] at hsome
      cases hsome
    rw [hput]
    refine read_left_kept fun mid a rest hpost => ?_
    obtain ⟨b, hb⟩ := h mid a rest hpost
    rcases List.mem_append.mp hb with hb | hb
    · exact absurd ⟨b, hb⟩ hnone
    · exact ⟨b, hb⟩

theorem read_right_next (xs : List (Item α β)) (v : α) :
    (read xs ⟨some v, none⟩).right = (rights xs).head? := by
  induction xs generalizing v with
  | nil => rfl
  | cons x xs ih =>
    cases x with
    | left a => exact ih a
    | right b => rfl
    | skip => exact ih v

/-- The other slot after an item that is read: the reader has it already, or stops at the next
one for it. -/
theorem read_insert_left_right (hpre : ¬ (HasLeft pre ∧ HasRight pre)) :
    (read (pre ++ .left v :: post) .empty).right =
      (rights pre).getLast?.or (rights post).head? := by
  have hfill : (fill pre (.empty : Slots α β)).right = (rights pre).getLast? := by
    rw [fill_right, Slots.empty, Option.or_none]
  rw [read_append_of_not_full (full_fill_iff.not.mpr hpre), read, ← hfill]
  cases hright : (fill pre (.empty : Slots α β)).right with
  | none =>
    have hput : (fill pre (.empty : Slots α β)).put (.left v) = ⟨some v, none⟩ :=
      Slots.ext rfl hright
    rw [hput, if_neg (by simp [Slots.Full]), read_right_next, Option.none_or]
  | some b =>
    have hput : (fill pre (.empty : Slots α β)).put (.left v) = ⟨some v, some b⟩ :=
      Slots.ext rfl hright
    rw [hput, if_pos (by simp [Slots.Full])]
    rfl

end Insert

section Swap

def Item.swap : Item α β → Item β α
  | .left a => .right a
  | .right b => .left b
  | .skip => .skip

def Slots.swap (s : Slots α β) : Slots β α := ⟨s.right, s.left⟩

theorem put_swap (s : Slots α β) (x : Item α β) : s.swap.put x.swap = (s.put x).swap := by
  cases x <;> rfl

theorem read_swap (xs : List (Item α β)) (s : Slots α β) :
    read (xs.map Item.swap) s.swap = (read xs s).swap := by
  induction xs generalizing s with
  | nil => rfl
  | cons x xs ih =>
    have hfull : (s.put x).swap.Full ↔ (s.put x).Full := and_comm
    rw [List.map_cons, read, read, put_swap]
    by_cases h : (s.put x).Full
    · rw [if_pos h, if_pos (hfull.mpr h)]
    · rw [if_neg h, if_neg (hfull.not.mpr h)]
      exact ih (s.put x)

end Swap

end TwoSlots
