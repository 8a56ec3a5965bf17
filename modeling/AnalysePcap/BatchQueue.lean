import AnalysePcap.Footprint
import Mathlib.Data.List.Nodup
import Mathlib.Logic.Function.Basic
import Mathlib.Tactic.SplitIfs

/-! Parties pass items to each other through common queues. To a common queue each party has two
queues of its own, one in front of it for what the party pushes and one behind it for what the
party pulls, so that items go to and from the common queues in batches. -/

namespace BatchQueue

open Footprint

section Moves

variable {κ α : Type*} {items : α → Prop} {c c' : κ → List α} {src dst : κ}

/-- Every item is at exactly one place, and there once. -/
structure Partition (items : α → Prop) (c : κ → List α) : Prop where
  nodup : ∀ x, (c x).Nodup
  unique : ∀ {a x y}, a ∈ c x → a ∈ c y → x = y
  mem_iff : ∀ {a}, items a ↔ ∃ x, a ∈ c x

theorem Partition.perm (h : Partition items c) (hperm : ∀ x, (c' x).Perm (c x)) :
    Partition items c' where
  nodup x := (hperm x).nodup_iff.mpr (h.nodup x)
  unique ha hb := h.unique ((hperm _).mem_iff.mp ha) ((hperm _).mem_iff.mp hb)
  mem_iff {a} := by
    rw [h.mem_iff]
    exact exists_congr fun x => (hperm x).mem_iff.symm

variable [DecidableEq κ]

/-- The first elements of one list go to the end of another one. -/
def move (c : κ → List α) (src dst : κ) (n : Nat) : κ → List α :=
  Function.update (Function.update c src ((c src).drop n)) dst (c dst ++ (c src).take n)

theorem move_dst (n : Nat) : move c src dst n dst = c dst ++ (c src).take n :=
  Function.update_self _ _ _

theorem move_src (hne : src ≠ dst) (n : Nat) : move c src dst n src = (c src).drop n := by
  rw [move, Function.update_of_ne hne, Function.update_self]

theorem move_of_ne {x : κ} (hsrc : x ≠ src) (hdst : x ≠ dst) (n : Nat) :
    move c src dst n x = c x := by
  rw [move, Function.update_of_ne hdst, Function.update_of_ne hsrc]

theorem move_of_not_mem {A : Set κ} {x : κ} (hsrc : src ∈ A) (hdst : dst ∈ A) (hx : x ∉ A) (n : Nat) :
    move c src dst n x = c x := by
  apply move_of_ne
  · rintro rfl
    exact hx hsrc
  · rintro rfl
    exact hx hdst

theorem move_of_eq_nil (hsrc : c src = []) (n : Nat) : move c src dst n = c := by
  rw [move, hsrc, List.drop_nil, List.take_nil, List.append_nil, ← hsrc, Function.update_eq_self,
    Function.update_eq_self]

theorem mem_move_iff (h : Partition items c) (hne : src ≠ dst) {n : Nat} {a : α} {x : κ} :
    a ∈ move c src dst n x ↔ a ∈ (c src).take n ∧ x = dst ∨ a ∉ (c src).take n ∧ a ∈ c x := by
  have hsplit : a ∈ c src ↔ a ∈ (c src).take n ∨ a ∈ (c src).drop n := by
    rw [← List.mem_append, List.take_append_drop]
  have hdisjoint : a ∈ (c src).take n → a ∉ (c src).drop n := by
    have hnodup := h.nodup src
    rw [← List.take_append_drop n (c src), List.nodup_append] at hnodup
    exact fun ha hb => hnodup.2.2 a ha a hb rfl
  by_cases hx : x = dst
  · subst hx
    rw [move_dst, List.mem_append]
    have hsrc : a ∈ (c src).take n → a ∉ c x :=
      fun ha hb => hne (h.unique (List.mem_of_mem_take ha) hb)
    tauto
  · by_cases hx' : x = src
    · subst hx'
      rw [move_src hne]
      tauto
    · rw [move_of_ne hx' hx]
      have hsrc : a ∈ (c src).take n → a ∉ c x :=
        fun ha hb => hx' (h.unique hb (List.mem_of_mem_take ha))
      tauto

theorem Partition.move (h : Partition items c) (hne : src ≠ dst) (n : Nat) :
    Partition items (move c src dst n) where
  nodup x := by
    by_cases hx : x = dst
    · subst hx
      rw [move_dst]
      apply (h.nodup x).append ((h.nodup src).sublist (List.take_sublist n _))
      intro a ha hb
      exact hne (h.unique (List.mem_of_mem_take hb) ha)
    · by_cases hx' : x = src
      · subst hx'
        rw [move_src hne]
        exact (h.nodup x).sublist (List.drop_sublist n _)
      · rw [move_of_ne hx' hx]
        exact h.nodup x
  unique ha hb := by
    rw [mem_move_iff h hne] at ha hb
    rcases ha with ⟨ha, rfl⟩ | ⟨ha, hax⟩
    · rcases hb with ⟨-, rfl⟩ | ⟨hb, -⟩
      · rfl
      · exact absurd ha hb
    · rcases hb with ⟨hb, -⟩ | ⟨-, hby⟩
      · exact absurd hb ha
      · exact h.unique hax hby
  mem_iff {a} := by
    rw [h.mem_iff]
    constructor
    · rintro ⟨x, hx⟩
      by_cases ha : a ∈ (c src).take n
      · exact ⟨dst, (mem_move_iff h hne).mpr (.inl ⟨ha, rfl⟩)⟩
      · exact ⟨x, (mem_move_iff h hne).mpr (.inr ⟨ha, hx⟩)⟩
    · rintro ⟨x, hx⟩
      rcases (mem_move_iff h hne).mp hx with ⟨ha, -⟩ | ⟨-, ha⟩
      · exact ⟨src, List.mem_of_mem_take ha⟩
      · exact ⟨x, ha⟩

end Moves

inductive Side (ι : Type*) where
  | shared
  | push (p : ι)
  | pull (p : ι)
  deriving DecidableEq

/-- A party has in its hand what it has pulled and not pushed again. -/
inductive Place (ι : Type*) where
  | queue (side : Side ι) (q : Nat)
  | hand (p : ι)
  deriving DecidableEq

inductive QueueCall (α : Type*) where
  | push (q : Nat) (x : Option α)
  | pull (r : Nat)
  | pushPull (q : Nat) (x : Option α) (r : Nat)

section Machine

variable {ι α : Type*} [DecidableEq ι]

/-- The party empties its queues in front of the first `qs` common ones. -/
def publish (qs : Nat) (p : ι) (c : Place ι → List α) : Place ι → List α :=
  (List.range qs).foldl
    (fun c q => move c (.queue (.push p) q) (.queue .shared q) (c (.queue (.push p) q)).length) c

def refill (max : Nat) (p : ι) (r : Nat) (c : Place ι → List α) : Place ι → List α :=
  move c (.queue .shared r) (.queue (.pull p) r)
    (min (c (.queue .shared r)).length (max - (c (.queue (.pull p) r)).length))

def pop (p : ι) (r : Nat) (c : Place ι → List α) : Option α × (Place ι → List α) :=
  ((c (.queue (.pull p) r)).head?, move c (.queue (.pull p) r) (.hand p) 1)

/-- The party takes an item, after its queues have been flushed or not. -/
def take (qs max : Nat) (p : ι) (r : Nat) (flush : Bool) (c : Place ι → List α) :
    Option α × (Place ι → List α) :=
  pop p r (if flush then refill max p r (publish qs p c) else c)

section Parts

variable {qs max : Nat} {p : ι} {q r : Nat} {c : Place ι → List α} {items : α → Prop}

theorem publish_succ : publish (qs + 1) p c = move (publish qs p c) (.queue (.push p) qs)
    (.queue .shared qs) (publish qs p c (.queue (.push p) qs)).length := by
  rw [publish, List.range_succ, List.foldl_append]
  rfl

theorem publish_of_ne {a : Place ι} (hshared : ∀ q < qs, a ≠ .queue .shared q)
    (hpush : ∀ q < qs, a ≠ .queue (.push p) q) : publish qs p c a = c a := by
  induction qs with
  | zero => rfl
  | succ qs ih =>
    rw [publish_succ, move_of_ne (hpush qs (Nat.lt_succ_self qs)) (hshared qs (Nat.lt_succ_self qs))]
    exact ih (fun q hq => hshared q (Nat.lt_succ_of_lt hq)) (fun q hq => hpush q (Nat.lt_succ_of_lt hq))

theorem publish_push (hq : q < qs) : publish qs p c (.queue (.push p) q) = [] := by
  induction qs with
  | zero => cases hq
  | succ qs ih =>
    rw [publish_succ]
    rcases Nat.lt_succ_iff_lt_or_eq.mp hq with hlt | rfl
    · rw [move_of_ne (by simp [Nat.ne_of_lt hlt]) (by simp)]
      exact ih hlt
    · rw [move_src (by simp), List.drop_length]

theorem publish_shared (hq : q < qs) : publish qs p c (.queue .shared q) =
    c (.queue .shared q) ++ c (.queue (.push p) q) := by
  induction qs with
  | zero => cases hq
  | succ qs ih =>
    rw [publish_succ]
    rcases Nat.lt_succ_iff_lt_or_eq.mp hq with hlt | rfl
    · rw [move_of_ne (by simp) (by simp [Nat.ne_of_lt hlt])]
      exact ih hlt
    · rw [move_dst, List.take_length]
      have hne (k : Nat) (hk : k < q) (side : Side ι) :
          (Place.queue side q : Place ι) ≠ .queue side k := by simp [Nat.ne_of_gt hk]
      rw [publish_of_ne (fun k hk => hne k hk _) (by simp),
        publish_of_ne (by simp) (fun k hk => hne k hk _)]

theorem publish_pull (s : ι) : publish qs p c (.queue (.pull s) q) = c (.queue (.pull s) q) :=
  publish_of_ne (by simp) (by simp)

theorem publish_push_of_ne {s : ι} (hs : s ≠ p) :
    publish qs p c (.queue (.push s) q) = c (.queue (.push s) q) :=
  publish_of_ne (by simp) (by simp [hs])

theorem Partition.pop (h : Partition items c) : Partition items (pop p r c).2 :=
  h.move (by simp) _

theorem take_eq_none_iff (hmax : 0 < max) (hr : r < qs) {flush : Bool}
    (hflush : c (.queue (.pull p) r) = [] → flush = true) :
    (take qs max p r flush c).1 = none ↔ c (.queue (.pull p) r) = [] ∧
      c (.queue .shared r) = [] ∧ c (.queue (.push p) r) = [] := by
  rw [BatchQueue.take, BatchQueue.pop, List.head?_eq_none_iff]
  cases flush with
  | false =>
    have hpull : c (.queue (.pull p) r) ≠ [] := fun hnil => by cases hflush hnil
    simp [hpull]
  | true =>
    rw [if_pos rfl, BatchQueue.refill, move_dst, publish_pull, publish_shared hr,
      List.append_eq_nil_iff, List.take_eq_nil_iff, List.append_eq_nil_iff]
    constructor
    · rintro ⟨hpull, hzero | hnil⟩
      · rw [hpull, List.length_append, List.length_nil] at hzero
        have hshared : (c (.queue .shared r)).length = 0 := by omega
        have hpush : (c (.queue (.push p) r)).length = 0 := by omega
        exact ⟨hpull, List.length_eq_zero_iff.mp hshared, List.length_eq_zero_iff.mp hpush⟩
      · exact ⟨hpull, hnil⟩
    · exact fun h => ⟨h.1, .inr h.2⟩

theorem pop_hand (p s : ι) (r : Nat) (c : Place ι → List α) :
    (pop s r c).2 (.hand p) =
    if s = p then c (.hand p) ++ (pop s r c).1.toList else c (.hand p) := by
  unfold BatchQueue.pop
  dsimp only
  split_ifs with hs
  · rw [hs, move_dst]
    cases c (.queue (.pull p) r) with
    | nil => rfl
    | cons a l => rfl
  · exact move_of_ne (by simp) (by simp [Ne.symm hs]) 1

theorem take_hand (qs max : Nat) (p s : ι) (r : Nat) (flush : Bool) (c : Place ι → List α) :
    (take qs max s r flush c).2 (.hand p) =
    if s = p then c (.hand p) ++ (take qs max s r flush c).1.toList else c (.hand p) := by
  rw [BatchQueue.take, pop_hand]
  have hflush : (if flush then BatchQueue.refill max s r (BatchQueue.publish qs s c) else c)
      (.hand p) = c (.hand p) := by
    split_ifs
    · rw [BatchQueue.refill, move_of_ne (by simp) (by simp), publish_of_ne (by simp) (by simp)]
    · rfl
  rw [hflush]

end Parts

section Lanes

variable {qs max : Nat} {p r s : ι} {q k : Nat} {c c' : Place ι → List α}

/-- Nobody but `p` has pushed to the queue, and nobody but `r` has pulled from it. -/
structure Lane (p r : ι) (q : Nat) (c : Place ι → List α) : Prop where
  push : ∀ s ≠ p, c (.queue (.push s) q) = []
  pull : ∀ s ≠ r, c (.queue (.pull s) q) = []

/-- What is on its way from `p` to `r`, the oldest item first. -/
def transit (p r : ι) (q : Nat) (c : Place ι → List α) : List α :=
  c (.queue (.pull r) q) ++ c (.queue .shared q) ++ c (.queue (.push p) q)

omit [DecidableEq ι] in
theorem Lane.congr (h : Lane p r q c) (hc : ∀ side, c' (.queue side q) = c (.queue side q)) :
    Lane p r q c' ∧ transit p r q c' = transit p r q c := by
  refine ⟨⟨fun t ht => ?_, fun t ht => ?_⟩, ?_⟩
  · rw [hc]
    exact h.push t ht
  · rw [hc]
    exact h.pull t ht
  · rw [transit, hc, hc, hc]
    rfl

theorem Lane.publish (h : Lane p r q c) (hq : q < qs) : Lane p r q (publish qs s c) ∧
    transit p r q (publish qs s c) = transit p r q c := by
  refine ⟨⟨fun t ht => ?_, fun t ht => ?_⟩, ?_⟩
  · by_cases hts : t = s
    · rw [hts, publish_push hq]
    · rw [publish_push_of_ne hts]
      exact h.push t ht
  · rw [publish_pull]
    exact h.pull t ht
  · rw [transit, publish_pull, publish_shared hq]
    by_cases hs : p = s
    · subst hs
      rw [publish_push hq, List.append_nil, transit, List.append_assoc]
    · rw [publish_push_of_ne hs, h.push s (Ne.symm hs), List.append_nil]
      rfl

theorem Lane.refill (h : Lane p r q c) (hs : k = q → s = r) : Lane p r q (refill max s k c) ∧
    transit p r q (refill max s k c) = transit p r q c := by
  by_cases hk : k = q
  · obtain rfl := hs hk
    subst hk
    refine ⟨⟨fun t ht => ?_, fun t ht => ?_⟩, ?_⟩
    · rw [BatchQueue.refill, move_of_ne (by simp) (by simp)]
      exact h.push t ht
    · rw [BatchQueue.refill, move_of_ne (by simp) (by simp [ht])]
      exact h.pull t ht
    · rw [transit, BatchQueue.refill, move_dst, move_src (by simp), move_of_ne (by simp) (by simp),
        List.append_assoc (c _), List.take_append_drop]
      rfl
  · apply h.congr
    intro side
    exact move_of_ne (by simp [Ne.symm hk]) (by simp [Ne.symm hk]) _

theorem Lane.pop (h : Lane p r q c) (hs : k = q → s = r) : Lane p r q (pop s k c).2 ∧
    transit p r q c = (if k = q then (pop s k c).1.toList else []) ++
      transit p r q (pop s k c).2 := by
  unfold BatchQueue.pop
  dsimp only
  by_cases hk : k = q
  · obtain rfl := hs hk
    subst hk
    refine ⟨⟨fun t ht => ?_, fun t ht => ?_⟩, ?_⟩
    · rw [move_of_ne (by simp) (by simp)]
      exact h.push t ht
    · rw [move_of_ne (by simp [ht]) (by simp)]
      exact h.pull t ht
    · rw [if_pos rfl, transit, transit, move_src (by simp), move_of_ne (by simp) (by simp),
        move_of_ne (by simp) (by simp)]
      cases c (.queue (.pull s) k) with
      | nil => rfl
      | cons a l => rfl
  · have hother : ∀ side, move c (.queue (.pull s) k) (.hand s) 1 (.queue side q) =
        c (.queue side q) := fun side => move_of_ne (by simp [Ne.symm hk]) (by simp) 1
    rw [if_neg hk, List.nil_append, (h.congr hother).2]
    exact ⟨(h.congr hother).1, rfl⟩

theorem Lane.take (h : Lane p r q c) (hq : q < qs) (hs : k = q → s = r) (flush : Bool) :
    Lane p r q (take qs max s k flush c).2 ∧
      transit p r q c = (if k = q then (take qs max s k flush c).1.toList else []) ++
        transit p r q (take qs max s k flush c).2 := by
  cases flush with
  | false => exact h.pop hs
  | true =>
    obtain ⟨hpublish, htransit⟩ := h.publish (s := s) hq
    obtain ⟨hrefill, htransit'⟩ := hpublish.refill hs
    rw [← htransit, ← htransit']
    exact hrefill.pop hs

end Lanes

variable [DecidableEq α]

def put (p : ι) (q : Nat) (x : α) (c : Place ι → List α) : Place ι → List α :=
  Function.update (Function.update c (.hand p) ((c (.hand p)).erase x)) (.queue (.push p) q)
    (c (.queue (.push p) q) ++ [x])

def call (qs max : Nat) (c : Place ι → List α) (p : ι) :
    QueueCall α → Option α × (Place ι → List α)
  | .push _ none => (none, c)
  | .push q (some x) =>
    let c := put p q x c
    (none, if max ≤ (c (.queue (.push p) q)).length then publish qs p c else c)
  | .pull r => take qs max p r (decide (c (.queue (.pull p) r) = [])) c
  | .pushPull q x r =>
    let c := x.elim c fun x => put p q x c
    take qs max p r
      (decide (max ≤ (c (.queue (.push p) q)).length ∨ c (.queue (.pull p) r) = [])) c

def run (qs max : Nat) : (Place ι → List α) → List (ι × QueueCall α) →
    List (Option α) × (Place ι → List α)
  | c, [] => ([], c)
  | c, (p, a) :: events =>
    let (answer, c) := call qs max c p a
    let (answers, c) := run qs max c events
    (answer :: answers, c)

/-- The queues exist, and a party pushes only what it has in its hand. -/
def Legal (qs : Nat) (c : Place ι → List α) (p : ι) : QueueCall α → Prop
  | .push q x => q < qs ∧ ∀ y ∈ x, y ∈ c (.hand p)
  | .pull r => r < qs
  | .pushPull q x r => q < qs ∧ r < qs ∧ ∀ y ∈ x, y ∈ c (.hand p)

def LegalRun (qs max : Nat) : (Place ι → List α) → List (ι × QueueCall α) → Prop
  | _, [] => True
  | c, (p, a) :: events => Legal qs c p a ∧ LegalRun qs max (call qs max c p a).2 events

section Calls

variable {qs max : Nat} {p : ι} {q r : Nat} {x : α} {c : Place ι → List α} {items : α → Prop}

theorem put_hand : put p q x c (.hand p) = (c (.hand p)).erase x := by
  rw [put, Function.update_of_ne (by simp), Function.update_self]

theorem put_push : put p q x c (.queue (.push p) q) = c (.queue (.push p) q) ++ [x] :=
  Function.update_self _ _ _

theorem put_of_ne {a : Place ι} (hhand : a ≠ .hand p) (hpush : a ≠ .queue (.push p) q) :
    put p q x c a = c a := by
  rw [put, Function.update_of_ne hpush, Function.update_of_ne hhand]

/-- To put an item is to move it, once it has come to the front of the hand. -/
theorem Partition.put (h : Partition items c) (hx : x ∈ c (.hand p)) :
    Partition items (put p q x c) := by
  have hfront : Partition items
      (Function.update c (.hand p) (x :: (c (.hand p)).erase x)) := by
    apply h.perm
    intro a
    by_cases ha : a = .hand p
    · rw [ha, Function.update_self]
      exact (List.perm_cons_erase hx).symm
    · rw [Function.update_of_ne ha]
  have hne : (Place.hand p : Place ι) ≠ .queue (.push p) q := by simp
  have hmoved := hfront.move hne 1
  convert hmoved using 1
  simp [BatchQueue.put, BatchQueue.move]

end Calls

def QueueCall.pushed (q : Nat) : QueueCall α → List α
  | .push k x => if k = q then x.toList else []
  | .pull _ => []
  | .pushPull k x _ => if k = q then x.toList else []

def QueueCall.source : QueueCall α → Option Nat
  | .push _ _ => none
  | .pull k => some k
  | .pushPull _ _ k => some k

def QueueCall.pulled (q : Nat) : QueueCall α → Option α → List α
  | .push _ _, _ => []
  | .pull k, answer => if k = q then answer.toList else []
  | .pushPull _ _ k, answer => if k = q then answer.toList else []

section LaneRuns

variable {qs max : Nat} {p r s : ι} {q k : Nat} {x : α} {c : Place ι → List α}

theorem Lane.put (h : Lane p r q c) (hs : k = q → s = p) : Lane p r q (put s k x c) ∧
    transit p r q (put s k x c) = transit p r q c ++ if k = q then [x] else [] := by
  by_cases hk : k = q
  · obtain rfl := hs hk
    subst hk
    refine ⟨⟨fun t ht => ?_, fun t ht => ?_⟩, ?_⟩
    · rw [put_of_ne (by simp) (by simp [ht])]
      exact h.push t ht
    · rw [put_of_ne (by simp) (by simp)]
      exact h.pull t ht
    · rw [transit, put_push, put_of_ne (by simp) (by simp), put_of_ne (by simp) (by simp), if_pos rfl,
        ← List.append_assoc]
      rfl
  · rw [if_neg hk, List.append_nil]
    apply h.congr
    intro side
    exact put_of_ne (by simp) (by simp [Ne.symm hk])

/-- The items of a lane leave it in the order in which they came. -/
theorem Lane.call (h : Lane p r q c) (hq : q < qs) {a : QueueCall α} (hpush : a.pushed q ≠ [] → s = p)
    (hpull : a.source = some q → s = r) :
    Lane p r q (call qs max c s a).2 ∧
      transit p r q c ++ a.pushed q =
        a.pulled q (call qs max c s a).1 ++ transit p r q (call qs max c s a).2 := by
  cases a with
  | push k x =>
    cases x with
    | none => exact ⟨h, by simp [QueueCall.pushed, QueueCall.pulled, BatchQueue.call]⟩
    | some x =>
      have hk : k = q → s = p := fun hk => hpush (by simp [QueueCall.pushed, hk])
      obtain ⟨hput, htransit⟩ := h.put (x := x) hk
      have hpushed : (QueueCall.push k (some x)).pushed q = if k = q then [x] else [] := rfl
      rw [hpushed, ← htransit, QueueCall.pulled, List.nil_append]
      dsimp only [BatchQueue.call]
      split_ifs
      · obtain ⟨hpublish, htransit'⟩ := hput.publish (s := s) hq
        exact ⟨hpublish, htransit'.symm⟩
      · exact ⟨hput, rfl⟩
  | pull k =>
    have hk : k = q → s = r := fun hk => hpull (congrArg some hk)
    rw [QueueCall.pushed, List.append_nil]
    exact h.take hq hk _
  | pushPull k x k' =>
    have hk' : k' = q → s = r := fun hk => hpull (congrArg some hk)
    cases x with
    | none =>
      have hpushed : (QueueCall.pushPull k (none : Option α) k').pushed q = [] := by simp [QueueCall.pushed]
      rw [hpushed, List.append_nil]
      exact h.take hq hk' _
    | some x =>
      have hk : k = q → s = p := fun hk => hpush (by simp [QueueCall.pushed, hk])
      obtain ⟨hput, htransit⟩ := h.put (x := x) hk
      have hpushed : (QueueCall.pushPull k (some x) k').pushed q = if k = q then [x] else [] := rfl
      rw [hpushed, ← htransit]
      exact hput.take hq hk' _

def pushed (q : Nat) (events : List (ι × QueueCall α)) : List α :=
  events.flatMap fun e => e.2.pushed q

def pulled (q : Nat) (events : List (ι × QueueCall α)) (answers : List (Option α)) : List α :=
  (List.zipWith (fun e answer => e.2.pulled q answer) events answers).flatten

theorem Lane.run (h : Lane p r q c) (hq : q < qs) {events : List (ι × QueueCall α)}
    (hpush : ∀ e ∈ events, e.2.pushed q ≠ [] → e.1 = p)
    (hpull : ∀ e ∈ events, e.2.source = some q → e.1 = r) :
    transit p r q c ++ pushed q events =
      pulled q events (run qs max c events).1 ++ transit p r q (run qs max c events).2 := by
  induction events generalizing c with
  | nil => exact List.append_nil _
  | cons e events ih =>
    obtain ⟨hcall, htransit⟩ := h.call hq (hpush e (by simp)) (hpull e (by simp))
    have hrest := ih hcall (fun e he => hpush e (List.mem_cons_of_mem _ he))
      (fun e he => hpull e (List.mem_cons_of_mem _ he))
    have hpushed : pushed q (e :: events) = e.2.pushed q ++ pushed q events := rfl
    rw [hpushed, ← List.append_assoc, htransit, List.append_assoc, hrest, ← List.append_assoc]
    rfl

end LaneRuns

/-- What a party has in its hand after it had `hand` and the events were answered. -/
def held (p : ι) : List α → List (ι × QueueCall α) → List (Option α) → List α
  | hand, e :: events, answer :: answers =>
    held p (if e.1 = p then
      (match e.2 with
        | .push _ (some x) => hand.erase x
        | .pushPull _ (some x) _ => hand.erase x
        | _ => hand) ++ answer.toList else hand) events answers
  | hand, _, _ => hand

section Hands

variable {qs max : Nat} {p s : ι} {q : Nat} {x : α} {c : Place ι → List α} {a : QueueCall α}

theorem call_hand (qs max : Nat) (p s : ι) (c : Place ι → List α) (a : QueueCall α) :
    (call qs max c s a).2 (.hand p) =
    if s = p then (match a with
        | .push _ (some x) => (c (.hand p)).erase x
        | .pushPull _ (some x) _ => (c (.hand p)).erase x
        | _ => c (.hand p)) ++ (call qs max c s a).1.toList else c (.hand p) := by
  have hput (q : Nat) (x : α) : put s q x c (.hand p) =
      if s = p then (c (.hand p)).erase x else c (.hand p) := by
    split_ifs with hs
    · rw [hs, put_hand]
    · exact put_of_ne (by simp [Ne.symm hs]) (by simp)
  cases a with
  | push q x =>
    cases x with
    | none => simp [call]
    | some x =>
      have hpublish : (call qs max c s (.push q (some x))).2 (.hand p) = put s q x c (.hand p) := by
        dsimp only [call]
        split_ifs
        · exact publish_of_ne (by simp) (by simp)
        · rfl
      rw [hpublish, hput]
      simp [call]
  | pull r => exact take_hand qs max p s r _ c
  | pushPull q x r =>
    cases x with
    | none => exact take_hand qs max p s r _ c
    | some x =>
      have htake := take_hand qs max p s r
        (decide (max ≤ (put s q x c (.queue (.push s) q)).length ∨ put s q x c (.queue (.pull s) r) = []))
        (put s q x c)
      rw [hput] at htake
      refine htake.trans ?_
      split_ifs
      · rfl
      · rfl

theorem run_hand (events : List (ι × QueueCall α)) : (run qs max c events).2 (.hand p) =
    held p (c (.hand p)) events (run qs max c events).1 := by
  induction events generalizing c with
  | nil => rfl
  | cons e events ih =>
    have hcall := call_hand qs max p e.1 c e.2
    exact (ih (c := (call qs max c e.1 e.2).2)).trans (by rw [hcall]; rfl)

end Hands

section Bounds

variable {qs max : Nat} {p : ι} {q : Nat} {c : Place ι → List α} {a : QueueCall α}

theorem call_of_le (ha : Legal qs c p a) (side : Side ι) (hq : qs ≤ q) :
    (call qs max c p a).2 (.queue side q) = c (.queue side q) := by
  have hpublish (c : Place ι → List α) : publish qs p c (.queue side q) = c (.queue side q) :=
    publish_of_ne (fun k hk => by simp [Nat.ne_of_gt (Nat.lt_of_lt_of_le hk hq)])
      (fun k hk => by simp [Nat.ne_of_gt (Nat.lt_of_lt_of_le hk hq)])
  have htake {r : Nat} (hr : r < qs) (flush : Bool) (c : Place ι → List α) :
      (take qs max p r flush c).2 (.queue side q) = c (.queue side q) := by
    have hne : q ≠ r := Nat.ne_of_gt (Nat.lt_of_lt_of_le hr hq)
    unfold take pop
    dsimp only
    rw [move_of_ne (by simp [hne]) (by simp)]
    split_ifs
    · rw [refill, move_of_ne (by simp [hne]) (by simp [hne]), hpublish]
    · rfl
  have hput {k : Nat} (hk : k < qs) (x : α) : put p k x c (.queue side q) = c (.queue side q) :=
    put_of_ne (by simp) (by simp [Nat.ne_of_gt (Nat.lt_of_lt_of_le hk hq)])
  cases a with
  | push k x =>
    cases x with
    | none => rfl
    | some x =>
      dsimp only [call]
      split_ifs
      · rw [hpublish, hput ha.1]
      · exact hput ha.1 x
  | pull r => exact htake ha _ c
  | pushPull k x r =>
    cases x with
    | none => exact htake ha.2.1 _ c
    | some x => exact (htake ha.2.1 _ _).trans (hput ha.1 x)

end Bounds

section Footprints

variable {qs max : Nat} {p s : ι} {q r : Nat} {A : Set (Place ι)}

/-- What a party reaches, with the lock of the common queues or without it. -/
def reach (p : ι) (locked : Prop) : Set (Place ι) :=
  {a | match a with
    | .queue .shared _ => locked
    | .queue (.push s) _ => s = p
    | .queue (.pull s) _ => s = p
    | .hand s => s = p}

omit [DecidableEq ι] in
theorem push_mem_reach (p : ι) (locked : Prop) (q : Nat) : .queue (.push p) q ∈ reach p locked := rfl

omit [DecidableEq ι] in
theorem pull_mem_reach (p : ι) (locked : Prop) (q : Nat) : .queue (.pull p) q ∈ reach p locked := rfl

omit [DecidableEq ι] in
theorem hand_mem_reach (p : ι) (locked : Prop) : .hand p ∈ reach p locked := rfl

omit [DecidableEq ι] in
theorem shared_mem_reach (p : ι) (q : Nat) : .queue .shared q ∈ reach p True := trivial

omit [DecidableEq ι] in
theorem reach_mono {locked locked' : Prop} (h : locked → locked') :
    reach p locked ⊆ reach p locked' := by
  intro a ha
  match a with
  | .queue .shared _ => exact h ha
  | .queue (.push _) _ => exact ha
  | .queue (.pull _) _ => exact ha
  | .hand _ => exact ha

omit [DecidableEq ι] in
theorem not_mem_reach (hps : p ≠ s) (locked : Prop) : ∀ a ∈ reach p False, a ∉ reach s locked := by
  intro a ha hs
  match a with
  | .queue .shared _ => exact ha
  | .queue (.push _) _ => exact hps (ha.symm.trans hs)
  | .queue (.pull _) _ => exact hps (ha.symm.trans hs)
  | .hand _ => exact hps (ha.symm.trans hs)

omit [DecidableEq ι] [DecidableEq α] in
theorem dependsOn_apply {a : Place ι} (ha : a ∈ A) {γ : Type*} (f : List α → γ) :
    DependsOn (fun c : Place ι → List α => f (c a)) A := fun _ _ h => congrArg f (h a ha)

omit [DecidableEq α] in
theorem within_move {src dst : Place ι} (hsrc : src ∈ A) (hdst : dst ∈ A)
    {n : (Place ι → List α) → Nat} (hn : DependsOn n A) :
    Within A fun c => move c src dst (n c) := by
  have hn' {c c' : Place ι → List α} (h : ∀ a ∈ A, c a = c' a) : n c = n c' := hn h
  refine ((within_id A).update hsrc fun c c' h => ?_).update hdst fun c c' h => ?_
  · rw [h src hsrc, hn' h]
  · rw [h src hsrc, h dst hdst, hn' h]

omit [DecidableEq α] in
theorem within_publish : Within (reach p True) (publish qs p : (Place ι → List α) → _) :=
  within_foldl (fun q => within_move (push_mem_reach p True q) (shared_mem_reach p q)
    (dependsOn_apply (push_mem_reach p True q) List.length)) _

omit [DecidableEq α] in
theorem within_refill : Within (reach p True) (refill max p r : (Place ι → List α) → _) := by
  apply within_move (shared_mem_reach p r) (pull_mem_reach p True r)
  intro c c' h
  dsimp only
  rw [h _ (shared_mem_reach p r), h _ (pull_mem_reach p True r)]

omit [DecidableEq α] in
theorem within_pop (locked : Prop) :
    Within (reach p locked) fun c : Place ι → List α => (pop p r c).2 :=
  within_move (pull_mem_reach p locked r) (hand_mem_reach p locked) fun _ _ _ => rfl

omit [DecidableEq α] in
theorem dependsOn_pop (locked : Prop) :
    DependsOn (fun c : Place ι → List α => (pop p r c).1) (reach p locked) :=
  dependsOn_apply (pull_mem_reach p locked r) List.head?

theorem within_put (locked : Prop) (x : Option α) :
    Within (reach p locked) fun c => x.elim c fun x => put p q x c := by
  cases x with
  | none => exact within_id _
  | some x =>
    exact ((within_id _).update (hand_mem_reach p locked)
      (dependsOn_apply (hand_mem_reach p locked) (List.erase · x))).update (push_mem_reach p locked q)
      (dependsOn_apply (push_mem_reach p locked q) (· ++ [x]))

/-- Whether a call flushes the queues of the party. -/
def flushes (max : Nat) (p : ι) (c : Place ι → List α) : QueueCall α → Prop
  | .push q x => x.isSome ∧ max ≤ (x.elim c (fun x => put p q x c) (.queue (.push p) q)).length
  | .pull r => c (.queue (.pull p) r) = []
  | .pushPull q x r => max ≤ (x.elim c (fun x => put p q x c) (.queue (.push p) q)).length ∨
      x.elim c (fun x => put p q x c) (.queue (.pull p) r) = []

/-- A call that does not flush. -/
def callOwn (p : ι) (c : Place ι → List α) : QueueCall α → Option α × (Place ι → List α)
  | .push q x => (none, x.elim c fun x => put p q x c)
  | .pull r => pop p r c
  | .pushPull q x r => pop p r (x.elim c fun x => put p q x c)

variable {c : Place ι → List α} {a b : QueueCall α}

theorem call_eq_callOwn (h : ¬ flushes max p c a) : call qs max c p a = callOwn p c a := by
  match a with
  | .push _ none => rfl
  | .push q (some x) =>
    have hmax : ¬ max ≤ (put p q x c (.queue (.push p) q)).length := fun hmax => h ⟨rfl, hmax⟩
    dsimp only [call]
    rw [if_neg hmax]
    rfl
  | .pull r =>
    have hpull : ¬ c (.queue (.pull p) r) = [] := h
    dsimp only [call]
    rw [decide_eq_false hpull]
    rfl
  | .pushPull q x r =>
    dsimp only [flushes] at h
    dsimp only [call]
    rw [decide_eq_false h]
    rfl

theorem within_callOwn (a : QueueCall α) : Within (reach p False) fun c => (callOwn p c a).2 := by
  cases a with
  | push q x => exact within_put False x
  | pull r => exact within_pop False
  | pushPull q x r => exact (within_pop False).comp (within_put False x)

theorem dependsOn_callOwn (a : QueueCall α) :
    DependsOn (fun c => (callOwn p c a).1) (reach p False) := by
  cases a with
  | push q x => exact fun _ _ _ => rfl
  | pull r => exact dependsOn_pop False
  | pushPull q x r => exact (within_put False x).dependsOn_comp (dependsOn_pop False)

omit [DecidableEq ι] [DecidableEq α] in
theorem dependsOn_full (max : Nat) (p : ι) (q r : Nat) (locked : Prop) :
    DependsOn (fun c : Place ι → List α => max ≤ (c (.queue (.push p) q)).length ∨
      c (.queue (.pull p) r) = []) (reach p locked) := by
  intro c c' h
  dsimp only
  rw [h _ (push_mem_reach p locked q), h _ (pull_mem_reach p locked r)]

theorem dependsOn_flushes (a : QueueCall α) :
    DependsOn (fun c => flushes max p c a) (reach p False) := by
  cases a with
  | push q x =>
    exact (within_put False x).dependsOn_comp
      (dependsOn_apply (push_mem_reach p False q) fun l => x.isSome ∧ max ≤ l.length)
  | pull r => exact dependsOn_apply (pull_mem_reach p False r) (· = [])
  | pushPull q x r => exact (within_put False x).dependsOn_comp (dependsOn_full max p q r False)

section Take

variable {P : (Place ι → List α) → Prop} [DecidablePred P]

omit [DecidableEq α] in
theorem within_flush (hP : DependsOn P (reach p True)) : Within (reach p True)
    fun c => if decide (P c) = true then refill max p r (publish qs p c) else c := by
  apply Within.ite _ (within_refill.comp within_publish) (within_id _)
  intro c c' h
  dsimp only
  rw [decide_eq_true_eq, decide_eq_true_eq]
  exact hP h

omit [DecidableEq α] in
theorem within_take (hP : DependsOn P (reach p True)) : Within (reach p True)
    fun c => (take qs max p r (decide (P c)) c).2 := (within_pop True).comp (within_flush hP)

omit [DecidableEq α] in
theorem dependsOn_take (hP : DependsOn P (reach p True)) :
    DependsOn (fun c => (take qs max p r (decide (P c)) c).1) (reach p True) :=
  (within_flush hP).dependsOn_comp (dependsOn_pop True)

end Take

theorem within_call (a : QueueCall α) : Within (reach p True) fun c => (call qs max c p a).2 := by
  match a with
  | .push _ none => exact within_id _
  | .push q (some x) =>
    exact (Within.ite (dependsOn_apply (push_mem_reach p True q) (max ≤ List.length ·))
      within_publish (within_id _)).comp (within_put True (some x))
  | .pull r => exact within_take (dependsOn_apply (pull_mem_reach p True r) (· = []))
  | .pushPull q x r =>
    exact (within_take (dependsOn_full max p q r True)).comp (within_put True x)

theorem dependsOn_call (a : QueueCall α) :
    DependsOn (fun c => (call qs max c p a).1) (reach p True) := by
  match a with
  | .push _ none => exact fun _ _ _ => rfl
  | .push q (some x) => exact fun _ _ _ => rfl
  | .pull r => exact dependsOn_take (dependsOn_apply (pull_mem_reach p True r) (· = []))
  | .pushPull q x r =>
    exact (within_put True x).dependsOn_comp (dependsOn_take (dependsOn_full max p q r True))

omit [DecidableEq ι] [DecidableEq α] in
theorem dependsOn_legal (a : QueueCall α) (locked : Prop) :
    DependsOn (fun c => Legal qs c p a) (reach p locked) := by
  cases a with
  | push q x =>
    exact dependsOn_apply (hand_mem_reach p locked) fun l => q < qs ∧ ∀ y ∈ x, y ∈ l
  | pull r => exact fun _ _ _ => rfl
  | pushPull q x r =>
    exact dependsOn_apply (hand_mem_reach p locked) fun l => q < qs ∧ r < qs ∧ ∀ y ∈ x, y ∈ l

/-- A call that does not flush can be made before or after a call of another party. -/
theorem call_swap (qs : Nat) (b : QueueCall α) (hps : p ≠ s) (h : ¬ flushes max p c a) :
    (call qs max (call qs max c s b).2 p a).1 = (call qs max c p a).1 ∧
      (call qs max (call qs max c p a).2 s b).1 = (call qs max c s b).1 ∧
      (call qs max (call qs max c s b).2 p a).2 = (call qs max (call qs max c p a).2 s b).2 := by
  have hdisj := not_mem_reach hps True
  have hb : Within (reach s True) fun c => (call qs max c s b).2 := within_call b
  have h' : ¬ flushes max p (call qs max c s b).2 a := by
    rw [hb.apply_of_disjoint hdisj (dependsOn_flushes a) c]
    exact h
  rw [call_eq_callOwn h, call_eq_callOwn h']
  refine ⟨hb.apply_of_disjoint hdisj (dependsOn_callOwn a) c, ?_, ?_⟩
  · exact (within_callOwn a).apply_of_disjoint (fun a hs hp => hdisj a hp hs) (dependsOn_call b) c
  · exact (within_callOwn a).commute hb hdisj c

theorem legal_swap (hps : p ≠ s) (h : ¬ flushes max p c a) (ha : Legal qs c p a)
    (hb : Legal qs (call qs max c p a).2 s b) :
    Legal qs c s b ∧ Legal qs (call qs max c s b).2 p a := by
  have hdisj := not_mem_reach hps True
  rw [call_eq_callOwn h, (within_callOwn a).apply_of_disjoint (fun a hs hp => hdisj a hp hs)
    (dependsOn_legal b True) c] at hb
  refine ⟨hb, ?_⟩
  rw [(within_call b).apply_of_disjoint hdisj (dependsOn_legal a False) c]
  exact ha

theorem run_cons (e : ι × QueueCall α) (events : List (ι × QueueCall α)) : run qs max c (e :: events) =
    ((call qs max c e.1 e.2).1 :: (run qs max (call qs max c e.1 e.2).2 events).1,
      (run qs max (call qs max c e.1 e.2).2 events).2) := rfl

theorem run_append (events rest : List (ι × QueueCall α)) :
    run qs max c (events ++ rest) =
      ((run qs max c events).1 ++ (run qs max (run qs max c events).2 rest).1,
        (run qs max (run qs max c events).2 rest).2) := by
  induction events generalizing c with
  | nil => rfl
  | cons e events ih =>
    rw [List.cons_append, run_cons, run_cons, ih, List.cons_append]

theorem legalRun_append {events rest : List (ι × QueueCall α)} :
    LegalRun qs max c (events ++ rest) ↔
      LegalRun qs max c events ∧ LegalRun qs max (run qs max c events).2 rest := by
  induction events generalizing c with
  | nil => exact (and_iff_right trivial).symm
  | cons e events ih =>
    rw [List.cons_append, LegalRun, LegalRun, ih, and_assoc]
    rfl

theorem legalRun_swap {rest : List (ι × QueueCall α)} (hps : p ≠ s) (h : ¬ flushes max p c a)
    (hlegal : LegalRun qs max c ((p, a) :: (s, b) :: rest)) :
    LegalRun qs max c ((s, b) :: (p, a) :: rest) := by
  obtain ⟨ha, hb, hrest⟩ := hlegal
  obtain ⟨hb', ha'⟩ := legal_swap hps h ha hb
  refine ⟨hb', ha', ?_⟩
  rw [(call_swap qs b hps h).2.2]
  exact hrest

/-- So it can in a run, whose end is then the same. -/
theorem run_swap (qs : Nat) (b : QueueCall α) (rest : List (ι × QueueCall α)) (hps : p ≠ s)
    (h : ¬ flushes max p c a) :
    ∃ x y answers c', run qs max c ((p, a) :: (s, b) :: rest) = (x :: y :: answers, c') ∧
      run qs max c ((s, b) :: (p, a) :: rest) = (y :: x :: answers, c') := by
  obtain ⟨hx, hy, hc⟩ := call_swap qs b hps h
  refine ⟨_, _, _, _, rfl, ?_⟩
  rw [run_cons, run_cons, hx, hc]
  exact congrArg (fun y => (y :: _, _)) hy.symm

end Footprints

end Machine

end BatchQueue
