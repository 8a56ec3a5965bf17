import Mathlib.Data.List.Chain
import Mathlib.Data.List.Nodup
import Mathlib.Logic.Function.Basic
import Mathlib.Tactic.SplitIfs

/-! Queues that are linked through one array of cells. A queue has only its two ends and its size;
it is filled at its head and emptied at its tail. The cell of an element says what comes before and
after it, and the back link of the element at the tail may be anything. -/

namespace LinkedQueue

variable {α : Type*}

structure Cell (α : Type*) where
  last : α
  next : α

structure Queue (α : Type*) where
  head : α
  tail : α
  size : Nat

def Linked (cells : α → Cell α) (a b : α) : Prop := (cells a).next = b ∧ (cells b).last = a

/-- The elements of the queue, from the tail to the head. -/
structure Holds (nil : α) (cells : α → Cell α) (q : Queue α) (l : List α) : Prop where
  size : q.size = l.length
  tail : q.tail = l.head?.getD nil
  head : q.head = l.getLast?.getD nil
  chain : l.IsChain (Linked cells)
  stop : ∀ a ∈ l.getLast?, (cells a).next = nil
  proper : nil ∉ l

/-- The elements that the links lead to. -/
def elements (cells : α → Cell α) : α → Nat → List α
  | _, 0 => []
  | a, n + 1 => a :: elements cells (cells a).next n

section Lists

variable {l : List α} {a : α}

theorem not_mem_tail_of_head? (hl : l.Nodup) (ha : l.head? = some a) : a ∉ l.tail := by
  cases l with
  | nil => cases ha
  | cons b l =>
    cases ha
    exact (List.nodup_cons.mp hl).1

theorem not_mem_dropLast_of_getLast? (hl : l.Nodup) (ha : l.getLast? = some a) :
    a ∉ l.dropLast := by
  obtain ⟨l', rfl⟩ := List.getLast?_eq_some_iff.mp ha
  rw [List.dropLast_concat]
  intro hmem
  exact (List.nodup_append.mp hl).2.2 a hmem a (List.mem_singleton_self a) rfl

/-- A chain depends on the links behind all its elements but the last, and on the links in front
of all but the first. -/
theorem isChain_congr {cells cells' : α → Cell α} (h : l.IsChain (Linked cells))
    (hnext : ∀ a ∈ l.dropLast, (cells' a).next = (cells a).next)
    (hlast : ∀ a ∈ l.tail, (cells' a).last = (cells a).last) : l.IsChain (Linked cells') := by
  induction l with
  | nil => exact .nil
  | cons a l ih =>
    cases l with
    | nil => exact .singleton a
    | cons b l =>
      obtain ⟨⟨hab, hba⟩, hl⟩ := List.isChain_cons_cons.mp h
      refine List.isChain_cons_cons.mpr ⟨⟨?_, ?_⟩, ih hl ?_ ?_⟩
      · rw [hnext a (by simp), hab]
      · rw [hlast b (by simp), hba]
      · intro c hc
        exact hnext c (by simp [hc])
      · intro c hc
        exact hlast c (List.mem_of_mem_tail hc)

end Lists

section Cells

variable [DecidableEq α] {cells : α → Cell α} {a b c : α}

def setLast (cells : α → Cell α) (a b : α) : α → Cell α :=
  Function.update cells a { cells a with last := b }

def setNext (cells : α → Cell α) (a b : α) : α → Cell α :=
  Function.update cells a { cells a with next := b }

theorem setLast_of_ne (h : c ≠ a) : setLast cells a b c = cells c := Function.update_of_ne h _ _

theorem setNext_of_ne (h : c ≠ a) : setNext cells a b c = cells c := Function.update_of_ne h _ _

@[simp] theorem setLast_next : (setLast cells a b c).next = (cells c).next := by
  by_cases h : c = a
  · rw [h, setLast, Function.update_self]
  · rw [setLast_of_ne h]

@[simp] theorem setNext_last : (setNext cells a b c).last = (cells c).last := by
  by_cases h : c = a
  · rw [h, setNext, Function.update_self]
  · rw [setNext_of_ne h]

@[simp] theorem setLast_last_self : (setLast cells a b a).last = b := by
  rw [setLast, Function.update_self]

@[simp] theorem setNext_next_self : (setNext cells a b a).next = b := by
  rw [setNext, Function.update_self]

/-- Elements that are chained from `tail` to `head` go to the head of the queue. -/
def splice (nil : α) (cells : α → Cell α) (q : Queue α) (tail head : α) (size : Nat) :
    (α → Cell α) × Queue α :=
  let last := q.head
  let cells := setNext (setLast cells tail last) head nil
  if last = nil then (cells, ⟨head, tail, q.size + size⟩)
  else (setNext cells last tail, ⟨head, q.tail, q.size + size⟩)

/-- The element at the tail goes. -/
def unlink (nil : α) (cells : α → Cell α) (q : Queue α) : (α → Cell α) × Queue α :=
  let next := (cells q.tail).next
  if next = nil then (cells, ⟨nil, next, q.size - 1⟩)
  else (setLast cells next nil, ⟨q.head, next, q.size - 1⟩)

end Cells

section Holds

variable {nil : α} {cells cells' : α → Cell α} {q : Queue α} {l m : List α} {a tail head : α}

theorem holds_nil (nil : α) (cells : α → Cell α) : Holds nil cells ⟨nil, nil, 0⟩ [] where
  size := rfl
  tail := rfl
  head := rfl
  chain := .nil
  stop a ha := by cases ha
  proper := List.not_mem_nil

theorem Holds.congr (h : Holds nil cells q l) (hcells : ∀ a ∈ l, cells' a = cells a) :
    Holds nil cells' q l where
  size := h.size
  tail := h.tail
  head := h.head
  chain := by
    apply isChain_congr h.chain
    · intro a ha
      rw [hcells a ((List.dropLast_sublist _).subset ha)]
    · intro a ha
      rw [hcells a (List.mem_of_mem_tail ha)]
  stop a ha := by
    rw [hcells a (List.mem_of_getLast? ha)]
    exact h.stop a ha
  proper := h.proper

theorem Holds.eq_nil_of_size (h : Holds nil cells q l) (hsize : q.size = 0) : l = [] :=
  List.length_eq_zero_iff.mp (h.size ▸ hsize)

theorem Holds.ne_nil_of_size (h : Holds nil cells q l) (hsize : q.size ≠ 0) : l ≠ [] := by
  rintro rfl
  exact hsize h.size

theorem Holds.head_eq_nil_iff (h : Holds nil cells q l) : q.head = nil ↔ l = [] := by
  constructor
  · intro hnil
    by_contra hl
    rw [h.head, List.getLast?_eq_some_getLast hl, Option.getD_some] at hnil
    exact h.proper (hnil ▸ List.getLast_mem hl)
  · rintro rfl
    exact h.head

theorem Holds.getLast?_of_ne_nil (h : Holds nil cells q l) (hl : l ≠ []) :
    l.getLast? = some q.head := by
  rw [h.head, List.getLast?_eq_some_getLast hl, Option.getD_some]

theorem Holds.head?_of_ne_nil (h : Holds nil cells q l) (hl : l ≠ []) : l.head? = some q.tail := by
  rw [h.tail, List.head?_eq_some_head hl, Option.getD_some]

theorem elements_of_isChain (hl : l.IsChain (Linked cells)) (ha : l.head? = some a) :
    elements cells a l.length = l := by
  induction l generalizing a with
  | nil => rfl
  | cons b l ih =>
    cases ha
    cases l with
    | nil => rfl
    | cons c l =>
      obtain ⟨⟨hbc, -⟩, hl⟩ := List.isChain_cons_cons.mp hl
      rw [List.length_cons, elements, hbc, ih hl rfl]

theorem Holds.elements_eq (h : Holds nil cells q l) : elements cells q.tail q.size = l := by
  rw [h.size]
  by_cases hl : l = []
  · rw [hl]
    rfl
  · exact elements_of_isChain h.chain (h.head?_of_ne_nil hl)

/-- What is left behind a first part, as it is left by a walk over that part. -/
theorem Holds.drop (h : Holds nil cells q (l ++ m)) (hl : l.getLast? = some a) (hm : m ≠ []) :
    Holds nil cells ⟨q.head, (cells a).next, m.length⟩ m where
  size := rfl
  tail := by
    obtain ⟨b, hb⟩ := Option.ne_none_iff_exists'.mp (fun hnone => hm (List.head?_eq_none_iff.mp hnone))
    rw [hb, Option.getD_some]
    exact ((List.isChain_append.mp h.chain).2.2 a hl b hb).1
  head := by
    have hlast := h.getLast?_of_ne_nil (List.append_ne_nil_of_right_ne_nil l hm)
    rw [List.getLast?_append_of_ne_nil l hm] at hlast
    rw [hlast, Option.getD_some]
  chain := (List.isChain_append.mp h.chain).2.1
  stop b hb := by
    apply h.stop b
    rw [List.getLast?_append_of_ne_nil l hm]
    exact hb
  proper hmem := h.proper (List.mem_append_right l hmem)

variable [DecidableEq α]

theorem splice_cells_of_ne {n : Nat} (ha : a ≠ tail) (ha' : a ≠ head) (hq : a ≠ q.head) :
    (splice nil cells q tail head n).1 a = cells a := by
  unfold splice
  dsimp only
  split_ifs
  · exact (setNext_of_ne ha').trans (setLast_of_ne ha)
  · exact (setNext_of_ne hq).trans ((setNext_of_ne ha').trans (setLast_of_ne ha))

theorem Holds.splice (h : Holds nil cells q l) (hm : m.IsChain (Linked cells))
    (htail : m.head? = some tail) (hhead : m.getLast? = some head) (hproper : nil ∉ m)
    (hnodup : (l ++ m).Nodup) :
    Holds nil (splice nil cells q tail head m.length).1 (splice nil cells q tail head m.length).2
      (l ++ m) := by
  obtain ⟨hl, hm', hdisjoint⟩ := List.nodup_append.mp hnodup
  have hmne : m ≠ [] := by
    rintro rfl
    cases htail
  have htailmem := List.mem_of_mem_head? htail
  have hheadmem := List.mem_of_getLast? hhead
  have hnil : nil ∉ l ++ m := fun hmem => (List.mem_append.mp hmem).elim h.proper hproper
  have hlast : (l ++ m).getLast? = some head := by
    rw [List.getLast?_append_of_ne_nil l hmne, hhead]
  -- the links inside of the new part stay as they are
  have hchain {c : α → Cell α} (hc : ∀ a ∈ m, a ≠ head → (c a).next = (cells a).next)
      (hc' : ∀ a ∈ m, a ≠ tail → (c a).last = (cells a).last) : m.IsChain (Linked c) := by
    apply isChain_congr hm
    · intro a ha
      apply hc a ((List.dropLast_sublist _).subset ha)
      rintro rfl
      exact not_mem_dropLast_of_getLast? hm' hhead ha
    · intro a ha
      apply hc' a (List.mem_of_mem_tail ha)
      rintro rfl
      exact not_mem_tail_of_head? hm' htail ha
  unfold LinkedQueue.splice
  dsimp only
  by_cases hempty : q.head = nil
  · rw [if_pos hempty]
    dsimp only
    have hl' := h.head_eq_nil_iff.mp hempty
    subst hl'
    refine ⟨?_, ?_, ?_, ?_, ?_, hnil⟩
    · rw [h.size]
      simp
    · rw [List.nil_append, htail, Option.getD_some]
    · rw [hlast, Option.getD_some]
    · apply hchain
      · intro a _ hne
        rw [setNext_of_ne hne, setLast_next]
      · intro a _ hne
        rw [setNext_last, setLast_of_ne hne]
    · intro a ha
      rw [hlast, Option.mem_some] at ha
      rw [← ha, setNext_next_self]
  · rw [if_neg hempty]
    dsimp only
    have hlne : l ≠ [] := fun hnil' => hempty (h.head_eq_nil_iff.mpr hnil')
    have hend := h.getLast?_of_ne_nil hlne
    have hendmem := List.mem_of_getLast? hend
    have hne {a : α} (ha : a ∈ m) : a ≠ q.head := fun heq => hdisjoint a (heq ▸ hendmem) a ha rfl
    refine ⟨?_, ?_, ?_, ?_, ?_, hnil⟩
    · rw [h.size, List.length_append]
    · rw [h.tail, List.head?_append_of_ne_nil l hlne]
    · rw [hlast, Option.getD_some]
    · apply List.isChain_append.mpr
      refine ⟨isChain_congr h.chain ?_ ?_, hchain ?_ ?_, ?_⟩
      · intro a ha
        have hmem := (List.dropLast_sublist _).subset ha
        rw [setNext_of_ne, setNext_of_ne, setLast_next]
        · exact fun heq => hdisjoint a hmem head hheadmem heq
        · rintro rfl
          exact not_mem_dropLast_of_getLast? hl hend ha
      · intro a ha
        have hmem := List.mem_of_mem_tail ha
        rw [setNext_last, setNext_last, setLast_of_ne]
        exact fun heq => hdisjoint a hmem tail htailmem heq
      · intro a ha hne'
        rw [setNext_of_ne (hne ha), setNext_of_ne hne', setLast_next]
      · intro a _ hne'
        rw [setNext_last, setNext_last, setLast_of_ne hne']
      · intro a ha b hb
        rw [hend, Option.mem_some] at ha
        rw [htail, Option.mem_some] at hb
        subst ha hb
        exact ⟨setNext_next_self, by simp⟩
    · intro a ha
      rw [hlast, Option.mem_some] at ha
      rw [← ha, setNext_of_ne (hne hheadmem), setNext_next_self]

theorem Holds.unlink (h : Holds nil cells q (a :: l)) (hnodup : (a :: l).Nodup) :
    Holds nil (unlink nil cells q).1 (unlink nil cells q).2 l := by
  have htail : q.tail = a := h.tail
  unfold LinkedQueue.unlink
  rw [htail]
  dsimp only
  cases l with
  | nil =>
    have hnext := h.stop a rfl
    rw [if_pos hnext, hnext, h.size]
    exact holds_nil nil cells
  | cons b l =>
    obtain ⟨⟨hab, -⟩, hchain⟩ := List.isChain_cons_cons.mp h.chain
    have hb : b ≠ nil := by
      rintro rfl
      exact h.proper (by simp)
    have hbl : b ∉ l := (List.nodup_cons.mp (List.nodup_cons.mp hnodup).2).1
    rw [hab, if_neg hb, h.size]
    dsimp only
    refine ⟨rfl, rfl, ?_, ?_, ?_, ?_⟩
    · rw [h.head]
      rfl
    · apply isChain_congr hchain
      · intro c _
        rw [setLast_next]
      · intro c hc
        rw [setLast_of_ne]
        rintro rfl
        exact hbl hc
    · intro c hc
      rw [setLast_next]
      exact h.stop c hc
    · intro hmem
      exact h.proper (List.mem_cons_of_mem a hmem)

theorem unlink_cells_of_ne {b : α} (hb : b ∉ l) (h : Holds nil cells q (a :: l)) :
    (unlink nil cells q).1 b = cells b := by
  have htail : q.tail = a := h.tail
  unfold LinkedQueue.unlink
  rw [htail]
  dsimp only
  cases l with
  | nil => rw [if_pos (h.stop a rfl)]
  | cons c l =>
    obtain ⟨⟨hac, -⟩, -⟩ := List.isChain_cons_cons.mp h.chain
    rw [hac]
    split_ifs
    · rfl
    · dsimp only
      rw [setLast_of_ne]
      rintro rfl
      exact hb (by simp)

end Holds

section Family

variable {κ : Type*} {nil : α} {cells cells' : α → Cell α} {K : κ → Prop} {queue queue' : κ → Queue α}
  {list list' : κ → List α} {k : κ} {l m : List α} {a tail head : α}

/-- Some queues over one array, without an element in common. -/
structure Family (nil : α) (cells : α → Cell α) (K : κ → Prop) (queue : κ → Queue α)
    (list : κ → List α) : Prop where
  holds : ∀ k, K k → Holds nil cells (queue k) (list k)
  nodup : ∀ k, K k → (list k).Nodup
  unique : ∀ {a k k'}, K k → K k' → a ∈ list k → a ∈ list k' → k = k'

theorem Family.congr (h : Family nil cells K queue list) (hlist : ∀ k, K k → list' k = list k) :
    Family nil cells K queue list' where
  holds k hk := hlist k hk ▸ h.holds k hk
  nodup k hk := hlist k hk ▸ h.nodup k hk
  unique hk hk' ha ha' := h.unique hk hk' (hlist _ hk ▸ ha) (hlist _ hk' ▸ ha')

variable [DecidableEq κ]

/-- One of the queues changes, and nothing of the others. -/
theorem Family.update (h : Family nil cells K queue list) {q : Queue α}
    (hcells : ∀ k', K k' → k' ≠ k → ∀ a ∈ list k', cells' a = cells a)
    (hq : Holds nil cells' q l) (hl : l.Nodup)
    (hfresh : ∀ a ∈ l, ∀ k', K k' → k' ≠ k → a ∉ list k') :
    Family nil cells' K (Function.update queue k q) (Function.update list k l) where
  holds k' hk' := by
    by_cases hkk : k' = k
    · subst hkk
      rw [Function.update_self, Function.update_self]
      exact hq
    · rw [Function.update_of_ne hkk, Function.update_of_ne hkk]
      exact (h.holds k' hk').congr (hcells k' hk' hkk)
  nodup k' hk' := by
    by_cases hkk : k' = k
    · rw [hkk, Function.update_self]
      exact hl
    · rw [Function.update_of_ne hkk]
      exact h.nodup k' hk'
  unique {a k₁ k₂} hk₁ hk₂ ha₁ ha₂ := by
    by_cases h₁ : k₁ = k
    · by_cases h₂ : k₂ = k
      · rw [h₁, h₂]
      · rw [h₁, Function.update_self] at ha₁
        rw [Function.update_of_ne h₂] at ha₂
        exact absurd ha₂ (hfresh a ha₁ k₂ hk₂ h₂)
    · rw [Function.update_of_ne h₁] at ha₁
      by_cases h₂ : k₂ = k
      · rw [h₂, Function.update_self] at ha₂
        exact absurd ha₁ (hfresh a ha₂ k₁ hk₁ h₁)
      · rw [Function.update_of_ne h₂] at ha₂
        exact h.unique hk₁ hk₂ ha₁ ha₂

/-- The first elements of a queue are cut off. -/
theorem Family.drop (h : Family nil cells K queue list) (hk : K k) (hlist : list k = m ++ l)
    (hm : m.getLast? = some a) {q : Queue α}
    (hq : q = if l = [] then ⟨nil, nil, 0⟩ else ⟨(queue k).head, (cells a).next, l.length⟩) :
    Family nil cells K (Function.update queue k q) (Function.update list k l) := by
  have hholds := h.holds k hk
  have hnodup := h.nodup k hk
  rw [hlist] at hholds hnodup
  apply h.update
  · exact fun _ _ _ _ _ => rfl
  · rw [hq]
    split_ifs with hnil
    · rw [hnil]
      exact holds_nil nil cells
    · exact hholds.drop hm hnil
  · exact (List.nodup_append.mp hnodup).2.1
  · intro b hb k' hk' hne hb'
    apply hne
    exact h.unique hk' hk hb' (hlist ▸ List.mem_append_right m hb)

variable [DecidableEq α]

/-- Chained elements that are in none of the queues go to the head of one of them. -/
theorem Family.splice (h : Family nil cells K queue list) (hk : K k)
    (hm : m.IsChain (Linked cells)) (htail : m.head? = some tail) (hhead : m.getLast? = some head)
    (hproper : nil ∉ m) (hnodup : m.Nodup) (hfresh : ∀ a ∈ m, ∀ k', K k' → a ∉ list k') :
    Family nil (splice nil cells (queue k) tail head m.length).1 K
      (Function.update queue k (splice nil cells (queue k) tail head m.length).2)
      (Function.update list k (list k ++ m)) := by
  have hholds := h.holds k hk
  have hboth : (list k ++ m).Nodup := by
    apply (h.nodup k hk).append hnodup
    intro b hb hb'
    exact hfresh b hb' k hk hb
  apply h.update
  · intro k' hk' hne b hb
    have hfresh' {c : α} (hc : c ∈ m) : b ≠ c := by
      rintro rfl
      exact hfresh b hc k' hk' hb
    apply splice_cells_of_ne (hfresh' (List.mem_of_mem_head? htail))
      (hfresh' (List.mem_of_getLast? hhead))
    rintro rfl
    by_cases hempty : list k = []
    · rw [hholds.head_eq_nil_iff.mpr hempty] at hb
      exact (h.holds k' hk').proper hb
    · have hmem := List.mem_of_getLast? (hholds.getLast?_of_ne_nil hempty)
      exact hne (h.unique hk' hk hb hmem)
  · exact hholds.splice hm htail hhead hproper hboth
  · exact hboth
  · intro b hb k' hk' hne hb'
    rcases List.mem_append.mp hb with hb | hb
    · exact hne (h.unique hk' hk hb' hb)
    · exact hfresh b hb k' hk' hb'

theorem Family.unlink (h : Family nil cells K queue list) (hk : K k) (hlist : list k = a :: l) :
    Family nil (unlink nil cells (queue k)).1 K
      (Function.update queue k (unlink nil cells (queue k)).2) (Function.update list k l) := by
  have hholds := h.holds k hk
  have hnodup := h.nodup k hk
  rw [hlist] at hholds hnodup
  have hmem {b : α} (hb : b ∈ l) : b ∈ list k := hlist ▸ List.mem_cons_of_mem a hb
  apply h.update
  · intro k' hk' hne b hb
    exact unlink_cells_of_ne (fun hb' => hne (h.unique hk' hk hb (hmem hb'))) hholds
  · exact hholds.unlink hnodup
  · exact (List.nodup_cons.mp hnodup).2
  · intro b hb k' hk' hne hb'
    exact hne (h.unique hk' hk hb' (hmem hb))

/-- The first elements of one queue go to the head of another one. -/
theorem Family.transfer (h : Family nil cells K queue list) {k' : κ} (hk : K k) (hk' : K k')
    (hne : k ≠ k') (hlist : list k = m ++ l) (htail : m.head? = some tail)
    (hhead : m.getLast? = some head) {q : Queue α}
    (hq : q = if l = [] then ⟨nil, nil, 0⟩ else ⟨(queue k).head, (cells head).next, l.length⟩) :
    Family nil (LinkedQueue.splice nil cells (queue k') tail head m.length).1 K
      (Function.update (Function.update queue k q) k'
        (LinkedQueue.splice nil cells (queue k') tail head m.length).2)
      (Function.update (Function.update list k l) k' (list k' ++ m)) := by
  have hholds := h.holds k hk
  have hnodup := h.nodup k hk
  rw [hlist] at hholds hnodup
  obtain ⟨hm, -, hdisjoint⟩ := List.nodup_append.mp hnodup
  have hsplice := (h.drop hk hlist hhead hq).splice hk' (List.isChain_append.mp hholds.chain).1 htail
    hhead (fun hmem => hholds.proper (List.mem_append_left l hmem)) hm ?_
  · rwa [Function.update_of_ne hne.symm, Function.update_of_ne hne.symm] at hsplice
  · intro b hb k'' hk''
    by_cases hkk : k'' = k
    · rw [hkk, Function.update_self]
      exact fun hb' => hdisjoint b hb b hb' rfl
    · rw [Function.update_of_ne hkk]
      exact fun hb' => hkk (h.unique hk'' hk hb' (hlist ▸ List.mem_append_left l hb))

end Family

end LinkedQueue
