import AnalysePcap.LinkedQueue
import AnalysePcap.BatchQueue
import AnalysePcap.ShfTab

/-! The queues of a shared hash file, `shf.c`. The items are numbers, and all queues are linked
through one array in the file. A process pushes to and pulls from queues of its own without a lock;
`shf_q_flush` moves items between these and the queues in the file, with the lock. -/

namespace AnalysePcap

open BatchQueue LinkedQueue Postcondition

def SHF_QID_NONE : Nat := 4294967295

def SHF_QIID_NONE : Nat := 4294967295

/-- The checks of the queue functions. From `pushQid` on they are compiled into the debug version
only. -/
inductive ShfQExit where
  | qs
  | qItems
  | nolockMaxZero
  | nolockMax
  | qItemSize
  | pushQid
  | pushQiid
  | pullQid
  | flushPushTailNone
  | flushPushHeadNone
  | flushPushTail
  | flushPushHead
  | flushPullTailNone
  | flushPullTail
  | walkNone
  | walk
  | pullTail
  deriving DecidableEq

structure ShfQSizes where
  qs : Nat
  q_items : Nat
  q_item_size : Nat
  qids_nolock_max : Nat

/-- `qid` has `qids` at the side `shared`, and `qids_nolock_push` and `qids_nolock_pull` of every
process. -/
structure ShfQ (ι : Type) where
  qid : Place ι → Queue Nat
  qiids : Nat → Cell Nat

/-- The fields of an empty queue. -/
def noQiid : Queue Nat := ⟨SHF_QIID_NONE, SHF_QIID_NONE, 0⟩

/-- The items one after the other. -/
def newQiids (z : ShfQSizes) (i : Nat) : Cell Nat where
  last := if i = 0 then SHF_QIID_NONE else i - 1
  next := if i = z.q_items - 1 then SHF_QIID_NONE else i + 1

/-- `shf_q_new`, and `shf_q_get` in the other processes. -/
def shf_q_new {ι : Type} [DecidableEq ι] (z : ShfQSizes) : Except ShfQExit (ShfQ ι) := do
  SHF_ASSERT (z.qs > 2) .qs
  SHF_ASSERT (z.q_items > 1) .qItems
  SHF_ASSERT (z.qids_nolock_max > 0) .nolockMaxZero
  SHF_ASSERT (z.qids_nolock_max < z.q_items) .nolockMax
  SHF_ASSERT (z.q_item_size ≥ 9) .qItemSize
  return ⟨Function.update (fun _ => noQiid) (.queue .shared 0) ⟨z.q_items - 1, 0, z.q_items⟩,
    newQiids z⟩

namespace ShfQ

variable {ι : Type} [DecidableEq ι] (z : ShfQSizes) (p : ι)

/-- A round of the loop that empties the push queues of the process. -/
def flushPush (s : ShfQ ι) (push_qid : Nat) : Except ShfQExit (ShfQ ι) :=
  let push := s.qid (.queue (.push p) push_qid)
  if push.size > 0 then do
    SHF_ASSERT (SHF_QIID_NONE ≠ push.tail) .flushPushTailNone
    SHF_ASSERT (SHF_QIID_NONE ≠ push.head) .flushPushHeadNone
    SHF_ASSERT (z.q_items > push.tail) .flushPushTail
    SHF_ASSERT (z.q_items > push.head) .flushPushHead
    let (qiids, qid) := splice SHF_QIID_NONE s.qiids (s.qid (.queue .shared push_qid)) push.tail
      push.head push.size
    return ⟨Function.update (Function.update s.qid (.queue (.push p) push_qid) noQiid)
      (.queue .shared push_qid) qid, qiids⟩
  else return s

/-- A step along the items that are pulled. -/
def walk (qiids : Nat → Cell Nat) (qiid_this_head : Nat) (_ : Nat) : Except ShfQExit Nat := do
  let qiid_this_next := (qiids qiid_this_head).next
  SHF_ASSERT (SHF_QIID_NONE ≠ qiid_this_next) .walkNone
  SHF_ASSERT (z.q_items > qiid_this_next) .walk
  return qiid_this_next

def qiidsToPull (pull locked : Queue Nat) : Nat :=
  let qiids_to_pull_max :=
    if pull.size < z.qids_nolock_max then z.qids_nolock_max - pull.size else 0
  if locked.size < qiids_to_pull_max then locked.size else qiids_to_pull_max

/-- The pull queue of the process is filled. -/
def flushPull (pull_qid : Nat) (s : ShfQ ι) : Except ShfQExit (ShfQ ι) :=
  let pull := s.qid (.queue (.pull p) pull_qid)
  let locked := s.qid (.queue .shared pull_qid)
  let qiids_to_pull := qiidsToPull z pull locked
  if qiids_to_pull > 0 then do
    SHF_ASSERT (SHF_QIID_NONE ≠ locked.tail) .flushPullTailNone
    SHF_ASSERT (z.q_items > locked.tail) .flushPullTail
    let qiid_this_head ← (List.range (qiids_to_pull - 1)).foldlM (walk z s.qiids) locked.tail
    let qiid_next_locked := (s.qiids qiid_this_head).next
    let (qiids, qid) := splice SHF_QIID_NONE s.qiids pull locked.tail qiid_this_head qiids_to_pull
    let size := locked.size - qiids_to_pull
    let locked := if size ≠ 0 then ⟨locked.head, qiid_next_locked, size⟩ else noQiid
    return ⟨Function.update (Function.update s.qid (.queue .shared pull_qid) locked)
      (.queue (.pull p) pull_qid) qid, qiids⟩
  else return s

/-- All of it is done under the lock of the queues. -/
def shf_q_flush (pull_qid : Nat) (s : ShfQ ι) : Except ShfQExit (ShfQ ι) := do
  let s ← (List.range z.qs).foldlM (flushPush z p) s
  if SHF_QID_NONE ≠ pull_qid then flushPull z p pull_qid s else return s

/-- What both functions that push begin with. -/
def pushNolock (push_qid push_qiid : Nat) (s : ShfQ ι) : ShfQ ι :=
  if SHF_QIID_NONE ≠ push_qiid then
    let (qiids, qid) := splice SHF_QIID_NONE s.qiids (s.qid (.queue (.push p) push_qid)) push_qiid
      push_qiid 1
    ⟨Function.update s.qid (.queue (.push p) push_qid) qid, qiids⟩
  else s

/-- What both functions that pull end with. -/
def pullNolock (pull_qid : Nat) (s : ShfQ ι) : Except ShfQExit (Nat × ShfQ ι) :=
  let pull := s.qid (.queue (.pull p) pull_qid)
  if pull.size = 0 then return (SHF_QIID_NONE, s)
  else do
    SHF_ASSERT (pull.tail < z.q_items) .pullTail
    let (qiids, qid) := unlink SHF_QIID_NONE s.qiids pull
    return (pull.tail, ⟨Function.update s.qid (.queue (.pull p) pull_qid) qid, qiids⟩)

def shf_q_pull_tail (pull_qid : Nat) (s : ShfQ ι) : Except ShfQExit (Nat × ShfQ ι) := do
  SHF_ASSERT (pull_qid < z.qs) .pullQid
  let s ← if (s.qid (.queue (.pull p) pull_qid)).size = 0 then shf_q_flush z p pull_qid s else pure s
  pullNolock z p pull_qid s

def shf_q_push_head (push_qid push_qiid : Nat) (s : ShfQ ι) : Except ShfQExit (ShfQ ι) := do
  SHF_ASSERT (push_qid < z.qs) .pushQid
  SHF_ASSERT (SHF_QIID_NONE ≠ push_qiid → push_qiid < z.q_items) .pushQiid
  if SHF_QIID_NONE ≠ push_qiid then
    let s := pushNolock p push_qid push_qiid s
    if (s.qid (.queue (.push p) push_qid)).size ≥ z.qids_nolock_max then
      shf_q_flush z p SHF_QID_NONE s
    else return s
  else return s

def shf_q_push_head_pull_tail (push_qid push_qiid pull_qid : Nat) (s : ShfQ ι) :
    Except ShfQExit (Nat × ShfQ ι) := do
  SHF_ASSERT (push_qid < z.qs) .pushQid
  SHF_ASSERT (SHF_QIID_NONE ≠ push_qiid → push_qiid < z.q_items) .pushQiid
  SHF_ASSERT (pull_qid < z.qs) .pullQid
  let s := pushNolock p push_qid push_qiid s
  let s ← if (s.qid (.queue (.push p) push_qid)).size ≥ z.qids_nolock_max ∨
      (s.qid (.queue (.pull p) pull_qid)).size = 0 then shf_q_flush z p pull_qid s else pure s
  pullNolock z p pull_qid s

/-- A number of an item that a function returns. -/
def qiid? (qiid : Nat) : Option Nat := if qiid = SHF_QIID_NONE then none else some qiid

def call (s : ShfQ ι) : QueueCall Nat → Except ShfQExit (Option Nat × ShfQ ι)
  | .push q x => do
    let s ← shf_q_push_head z p q (x.getD SHF_QIID_NONE) s
    return (none, s)
  | .pull r => do
    let (qiid, s) ← shf_q_pull_tail z p r s
    return (qiid? qiid, s)
  | .pushPull q x r => do
    let (qiid, s) ← shf_q_push_head_pull_tail z p q (x.getD SHF_QIID_NONE) r s
    return (qiid? qiid, s)

/-- Calls of the processes, one after the other. -/
def run : ShfQ ι → List (ι × QueueCall Nat) → Except ShfQExit (List (Option Nat) × ShfQ ι)
  | s, [] => return ([], s)
  | s, (p, a) :: events => do
    let (answer, s) ← s.call z p a
    let (answers, s) ← run s events
    return (answer :: answers, s)

end ShfQ

/-- The sizes are numbers of 32 bits. -/
structure ShfQSizes.Valid (z : ShfQSizes) : Prop where
  qs : z.qs ≤ SHF_QID_NONE
  qs_pos : 0 < z.qs
  q_items : z.q_items ≤ SHF_QIID_NONE
  nolock_max : 0 < z.qids_nolock_max

def ShfQSizes.InUse {ι : Type} (z : ShfQSizes) : Place ι → Prop
  | .queue _ q => q < z.qs
  | .hand _ => False

namespace ShfQ

variable {ι : Type} {z : ShfQSizes} {s : ShfQ ι} {stock : Place ι → List Nat} {p : ι} {q r : Nat}

structure Refines (z : ShfQSizes) (s : ShfQ ι) (stock : Place ι → List Nat) : Prop where
  family : Family SHF_QIID_NONE s.qiids z.InUse s.qid stock
  partition : Partition (· < z.q_items) stock

theorem inUse_queue (side : Side ι) (hq : q < z.qs) : z.InUse (.queue side q : Place ι) := hq

theorem Refines.holds (h : Refines z s stock) (side : Side ι) (hq : q < z.qs) :
    LinkedQueue.Holds SHF_QIID_NONE s.qiids (s.qid (.queue side q)) (stock (.queue side q)) :=
  h.family.holds _ hq

theorem Refines.lt (h : Refines z s stock) {a : Place ι} {x : Nat} (hx : x ∈ stock a) :
    x < z.q_items := h.partition.mem_iff.mpr ⟨a, hx⟩

theorem Refines.ne_none (h : Refines z s stock) (hz : z.Valid) {a : Place ι} {x : Nat}
    (hx : x ∈ stock a) : SHF_QIID_NONE ≠ x :=
  Nat.ne_of_gt ((h.lt hx).trans_le hz.q_items)

theorem Refines.item (h : Refines z s stock) {x : Option Nat}
    (hx : ∀ y ∈ x, y ∈ stock (.hand p)) :
    SHF_QIID_NONE ≠ x.getD SHF_QIID_NONE → x.getD SHF_QIID_NONE < z.q_items := by
  cases x with
  | none => exact fun hne => absurd rfl hne
  | some x => exact fun _ => h.lt (hx x rfl)

/-- The walk ends at the last of the items that are pulled. -/
theorem Refines.walk (h : Refines z s stock) (hz : z.Valid) (hq : q < z.qs) {n : Nat} (hn : 0 < n)
    (hle : n ≤ (stock (.queue .shared q)).length) :
    Ensures (fun _ => False) (fun x => ((stock (.queue .shared q)).take n).getLast? = some x)
      ((List.range (n - 1)).foldlM (ShfQ.walk z s.qiids) (s.qid (.queue .shared q)).tail) := by
  have hholds := h.holds .shared hq
  have hchain := List.isChain_iff_getElem.mp hholds.chain
  have hne : stock (.queue .shared q) ≠ [] := by
    rintro hnil
    rw [hnil] at hle
    exact absurd hle (Nat.not_le.mpr hn)
  have hwalk : Ensures (fun _ => False)
      (fun x => (stock (.queue .shared q))[(List.range (n - 1)).length]? = some x)
      ((List.range (n - 1)).foldlM (ShfQ.walk z s.qiids) (s.qid (.queue .shared q)).tail) := by
    refine Ensures.foldlM (I := fun done x => (stock (.queue .shared q))[done.length]? = some x) ?_ ?_
    · intro done i rest x hrange hx
      have hlen : done.length + 1 < (stock (.queue .shared q)).length := by
        have := congrArg List.length hrange
        simp only [List.length_range, List.length_append, List.length_cons] at this
        omega
      obtain ⟨hlt, rfl⟩ := List.getElem?_eq_some_iff.mp hx
      have hnext := (hchain done.length hlen).1
      have hmem : (stock (.queue .shared q))[done.length + 1] ∈ stock (.queue .shared q) :=
        List.getElem_mem hlen
      unfold ShfQ.walk
      rw [hnext]
      refine (ensures_assert (h.ne_none hz hmem)).bind fun _ _ => ?_
      refine (ensures_assert (h.lt hmem)).bind fun _ _ => ?_
      apply ensures_ok
      rw [List.length_append, List.length_singleton]
      exact List.getElem?_eq_getElem hlen
    · rw [List.length_nil, ← List.head?_eq_getElem?]
      exact hholds.head?_of_ne_nil hne
  refine hwalk.imp fun x hx => ?_
  rw [List.getLast?_eq_getElem?, List.length_take_of_le hle, List.getElem?_take_of_lt (by omega)]
  rw [List.length_range] at hx
  exact hx

theorem Refines.qiidsToPull_eq (h : Refines z s stock) (hr : r < z.qs) :
    qiidsToPull z (s.qid (.queue (.pull p) r)) (s.qid (.queue .shared r)) =
      min (stock (.queue .shared r)).length
        (z.qids_nolock_max - (stock (.queue (.pull p) r)).length) := by
  rw [qiidsToPull, (h.holds (.pull p) hr).size, (h.holds .shared hr).size]
  split_ifs
  all_goals omega

variable [DecidableEq ι]

theorem Refines.flushPush (h : Refines z s stock) (hz : z.Valid) (hq : q < z.qs) :
    Ensures (fun _ => False)
      (fun s' => Refines z s' (move stock (.queue (.push p) q) (.queue .shared q)
        (stock (.queue (.push p) q)).length)) (flushPush z p s q) := by
  have hpush := h.holds (.push p) hq
  unfold ShfQ.flushPush
  dsimp only
  by_cases hsize : (s.qid (.queue (.push p) q)).size > 0
  · have hne := hpush.ne_nil_of_size (Nat.ne_of_gt hsize)
    have htail := hpush.head?_of_ne_nil hne
    have hhead := hpush.getLast?_of_ne_nil hne
    have htailmem := List.mem_of_mem_head? htail
    have hheadmem := List.mem_of_getLast? hhead
    rw [if_pos hsize]
    refine (ensures_assert (h.ne_none hz htailmem)).bind fun _ _ => ?_
    refine (ensures_assert (h.ne_none hz hheadmem)).bind fun _ _ => ?_
    refine (ensures_assert (h.lt htailmem)).bind fun _ _ => ?_
    refine (ensures_assert (h.lt hheadmem)).bind fun _ _ => ?_
    refine ensures_ok ⟨?_, h.partition.move (by simp) _⟩
    rw [move, List.drop_length, List.take_length, hpush.size]
    exact h.family.transfer (inUse_queue _ hq) (inUse_queue _ hq) (by simp)
      (List.append_nil _).symm htail hhead (if_pos rfl).symm
  · rw [if_neg hsize]
    have hnil := hpush.eq_nil_of_size (Nat.eq_zero_of_not_pos hsize)
    rw [move_of_eq_nil hnil]
    exact ensures_ok h

theorem Refines.publish (h : Refines z s stock) (hz : z.Valid) :
    Ensures (fun _ => False) (fun s' => Refines z s' (publish z.qs p stock))
      ((List.range z.qs).foldlM (ShfQ.flushPush z p) s) := by
  refine Ensures.foldlM (I := fun done s' => Refines z s' (done.foldl (fun c q =>
    move c (.queue (.push p) q) (.queue .shared q) (c (.queue (.push p) q)).length) stock)) ?_ h
  intro done q rest s' hrange hs'
  have hq : q < z.qs := List.mem_range.mp (hrange ▸ by simp)
  rw [List.foldl_append]
  exact hs'.flushPush hz hq

theorem Refines.flushPull (h : Refines z s stock) (hz : z.Valid) (hr : r < z.qs) :
    Ensures (fun _ => False)
      (fun s' => Refines z s' (refill z.qids_nolock_max p r stock)) (flushPull z p r s) := by
  have hpull := h.holds (.pull p) hr
  have hlocked := h.holds .shared hr
  unfold ShfQ.flushPull refill
  dsimp only
  rw [h.qiidsToPull_eq hr]
  generalize hn : min (stock (.queue .shared r)).length
    (z.qids_nolock_max - (stock (.queue (.pull p) r)).length) = n
  have hle : n ≤ (stock (.queue .shared r)).length := by omega
  by_cases hpos : n > 0
  · rw [if_pos hpos]
    have hne : stock (.queue .shared r) ≠ [] := by
      rintro hnil
      rw [hnil] at hle
      exact absurd hle (Nat.not_le.mpr hpos)
    have htail := hlocked.head?_of_ne_nil hne
    have htailmem := List.mem_of_mem_head? htail
    refine (ensures_assert (h.ne_none hz htailmem)).bind fun _ _ => ?_
    refine (ensures_assert (h.lt htailmem)).bind fun _ _ => ?_
    refine (h.walk hz hr hpos hle).bind fun head hhead => ?_
    refine ensures_ok ⟨?_, h.partition.move (by simp) _⟩
    have hlen : ((stock (.queue .shared r)).take n).length = n := List.length_take_of_le hle
    have htail' : ((stock (.queue .shared r)).take n).head? = some (s.qid (.queue .shared r)).tail := by
      rw [List.head?_take, if_neg (Nat.ne_of_gt hpos), htail]
    have hsize : (s.qid (.queue .shared r)).size - n = ((stock (.queue .shared r)).drop n).length := by
      rw [hlocked.size, List.length_drop]
    have htransfer := h.family.transfer (inUse_queue .shared hr) (inUse_queue (.pull p) hr) (by simp)
      (List.take_append_drop n (stock (.queue .shared r))).symm htail' hhead
      (q := if (s.qid (.queue .shared r)).size - n ≠ 0 then
        ⟨(s.qid (.queue .shared r)).head, (s.qiids head).next, (s.qid (.queue .shared r)).size - n⟩
        else noQiid) (by
        rw [hsize]
        by_cases hnil : (stock (.queue .shared r)).drop n = []
        · rw [if_pos hnil, hnil]
          rfl
        · rw [if_neg hnil, if_pos (fun hzero => hnil (List.length_eq_zero_iff.mp hzero))])
    rw [hlen] at htransfer
    exact htransfer
  · rw [if_neg hpos, Nat.eq_zero_of_not_pos hpos]
    have hsame : move stock (.queue .shared r) (.queue (.pull p) r) 0 = stock := by
      rw [move, List.drop_zero, List.take_zero, List.append_nil, Function.update_eq_self,
        Function.update_eq_self]
    rw [hsame]
    exact ensures_ok h

theorem Refines.shf_q_flush (h : Refines z s stock) (hz : z.Valid) (hr : r < z.qs) :
    Ensures (fun _ => False)
      (fun s' => Refines z s' (refill z.qids_nolock_max p r (BatchQueue.publish z.qs p stock)))
      (shf_q_flush z p r s) := by
  refine (h.publish hz).bind fun s' h' => ?_
  rw [if_pos (Nat.ne_of_gt (hr.trans_le hz.qs))]
  exact h'.flushPull hz hr

theorem Refines.shf_q_flush_none (h : Refines z s stock) (hz : z.Valid) :
    Ensures (fun _ => False) (fun s' => Refines z s' (BatchQueue.publish z.qs p stock))
      (ShfQ.shf_q_flush z p SHF_QID_NONE s) := by
  refine (h.publish hz).bind fun s' h' => ?_
  rw [if_neg (fun hne => hne rfl)]
  exact ensures_ok h'

theorem Refines.pushNolock (h : Refines z s stock) (hz : z.Valid) (hq : q < z.qs) {x : Nat}
    (hx : x ∈ stock (.hand p)) : Refines z (pushNolock p q x s) (put p q x stock) := by
  unfold ShfQ.pushNolock
  rw [if_pos (h.ne_none hz hx)]
  have hfresh : ∀ y ∈ [x], ∀ a, z.InUse a → y ∉ stock a := by
    intro y hy a ha hmem
    rw [List.mem_singleton.mp hy] at hmem
    rw [h.partition.unique hmem hx] at ha
    exact ha
  have hsplice := h.family.splice (inUse_queue (.push p) hq) (.singleton x) rfl rfl
    (by simpa using h.ne_none hz hx) (List.nodup_singleton x) hfresh
  refine ⟨hsplice.congr fun a ha => ?_, h.partition.put hx⟩
  rw [put]
  by_cases hpush : a = .queue (.push p) q
  · rw [hpush, Function.update_self, Function.update_self]
  · have hhand : a ≠ .hand p := by
      rintro rfl
      exact ha
    rw [Function.update_of_ne hpush, Function.update_of_ne hpush, Function.update_of_ne hhand]

theorem Refines.pushNolock_elim (h : Refines z s stock) (hz : z.Valid) (hq : q < z.qs)
    {x : Option Nat} (hx : ∀ y ∈ x, y ∈ stock (.hand p)) :
    Refines z (ShfQ.pushNolock p q (x.getD SHF_QIID_NONE) s)
      (x.elim stock fun x => put p q x stock) := by
  cases x with
  | none =>
    rw [ShfQ.pushNolock, if_neg (fun hne => hne rfl)]
    exact h
  | some x => exact h.pushNolock hz hq (hx x rfl)

theorem Refines.pullNolock (h : Refines z s stock) (hr : r < z.qs) :
    Ensures (fun _ => False)
      (fun a => a.1 = (pop p r stock).1.getD SHF_QIID_NONE ∧ Refines z a.2 (pop p r stock).2)
      (pullNolock z p r s) := by
  have hpull := h.holds (.pull p) hr
  have hget : ∀ a, z.InUse a → a ≠ .queue (.pull p) r → (pop p r stock).2 a = stock a := by
    intro a ha hne
    refine move_of_ne hne ?_ 1
    rintro rfl
    exact ha
  unfold ShfQ.pullNolock
  dsimp only
  by_cases hsize : (s.qid (.queue (.pull p) r)).size = 0
  · rw [if_pos hsize]
    have hnil := hpull.eq_nil_of_size hsize
    have hsame : (pop p r stock).2 = stock := move_of_eq_nil hnil 1
    refine ensures_ok ⟨?_, hsame.symm ▸ h⟩
    rw [pop, hnil]
    rfl
  · rw [if_neg hsize]
    obtain ⟨x, l, hxl⟩ := List.exists_cons_of_ne_nil (hpull.ne_nil_of_size hsize)
    have htail : (s.qid (.queue (.pull p) r)).tail = x := by rw [hpull.tail, hxl]; rfl
    have hmem : x ∈ stock (.queue (.pull p) r) := by rw [hxl]; exact List.mem_cons_self
    rw [htail]
    refine (ensures_assert (h.lt hmem)).bind fun _ _ => ?_
    refine ensures_ok ⟨by rw [pop, hxl]; rfl, ?_, h.partition.pop⟩
    refine (h.family.unlink (inUse_queue (.pull p) hr) hxl).congr fun a ha => ?_
    by_cases hne : a = .queue (.pull p) r
    · rw [hne, Function.update_self, pop]
      dsimp only
      rw [move_src (by simp), hxl]
      rfl
    · rw [Function.update_of_ne hne]
      exact hget a ha hne

theorem Refines.take (h : Refines z s stock) (hz : z.Valid) (hr : r < z.qs) {flush : Bool}
    {condition : Prop} [Decidable condition] (hflush : condition ↔ flush = true) :
    Ensures (fun _ => False)
      (fun a => qiid? a.1 = (take z.qs z.qids_nolock_max p r flush stock).1 ∧
        Refines z a.2 (take z.qs z.qids_nolock_max p r flush stock).2)
      (do
        let s ← if condition then ShfQ.shf_q_flush z p r s else pure s
        ShfQ.pullNolock z p r s) := by
  have hpop {s' : ShfQ ι} {stock' : Place ι → List Nat} (h' : Refines z s' stock') :
      Ensures (fun _ => False)
        (fun a => qiid? a.1 = (pop p r stock').1 ∧ Refines z a.2 (pop p r stock').2)
        (ShfQ.pullNolock z p r s') := by
    refine (h'.pullNolock hr).imp fun a ha => ⟨?_, ha.2⟩
    rw [ha.1]
    cases hx : (pop p r stock').1 with
    | none => rfl
    | some x => exact if_neg (h'.ne_none hz (List.mem_of_mem_head? hx)).symm
  unfold BatchQueue.take
  by_cases hc : condition
  · rw [if_pos hc, hflush.mp hc]
    exact (h.shf_q_flush hz hr).bind fun s' h' => hpop h'
  · rw [if_neg hc, Bool.eq_false_iff.mpr (fun htrue => hc (hflush.mpr htrue))]
    exact hpop h

theorem Refines.shf_q_push_head (h : Refines z s stock) (hz : z.Valid) {x : Option Nat}
    (ha : Legal z.qs stock p (.push q x)) :
    Ensures (fun _ => False)
      (fun s' => Refines z s' (BatchQueue.call z.qs z.qids_nolock_max stock p (.push q x)).2)
      (shf_q_push_head z p q (x.getD SHF_QIID_NONE) s) := by
  refine (ensures_assert ha.1).bind fun _ _ => ?_
  refine (ensures_assert (h.item ha.2)).bind fun _ _ => ?_
  cases x with
  | none =>
    rw [if_neg (fun hne => hne rfl)]
    exact ensures_ok h
  | some x =>
    have hpush := h.pushNolock hz ha.1 (ha.2 x rfl)
    have hsize := (hpush.holds (.push p) ha.1).size
    rw [Option.getD_some, if_pos (h.ne_none hz (ha.2 x rfl))]
    dsimp only [BatchQueue.call]
    rw [hsize]
    split_ifs
    · exact hpush.shf_q_flush_none hz
    · exact ensures_ok hpush

theorem Refines.shf_q_pull_tail (h : Refines z s stock) (hz : z.Valid) (hr : r < z.qs) :
    Ensures (fun _ => False)
      (fun b => qiid? b.1 = (BatchQueue.call z.qs z.qids_nolock_max stock p (.pull r)).1 ∧
        Refines z b.2 (BatchQueue.call z.qs z.qids_nolock_max stock p (.pull r)).2)
      (shf_q_pull_tail z p r s) := by
  refine (ensures_assert hr).bind fun _ _ => h.take hz hr ?_
  rw [(h.holds (.pull p) hr).size, List.length_eq_zero_iff, decide_eq_true_eq]

theorem Refines.shf_q_push_head_pull_tail (h : Refines z s stock) (hz : z.Valid) {x : Option Nat}
    (ha : Legal z.qs stock p (.pushPull q x r)) :
    Ensures (fun _ => False)
      (fun b => qiid? b.1 = (BatchQueue.call z.qs z.qids_nolock_max stock p (.pushPull q x r)).1 ∧
        Refines z b.2 (BatchQueue.call z.qs z.qids_nolock_max stock p (.pushPull q x r)).2)
      (shf_q_push_head_pull_tail z p q (x.getD SHF_QIID_NONE) r s) := by
  refine (ensures_assert ha.1).bind fun _ _ => ?_
  refine (ensures_assert (h.item ha.2.2)).bind fun _ _ => ?_
  refine (ensures_assert ha.2.1).bind fun _ _ => ?_
  have hpush := h.pushNolock_elim hz ha.1 ha.2.2
  refine hpush.take hz ha.2.1 ?_
  rw [(hpush.holds (.push p) ha.1).size, (hpush.holds (.pull p) ha.2.1).size,
    List.length_eq_zero_iff, decide_eq_true_eq]

theorem Refines.call (h : Refines z s stock) (hz : z.Valid) {a : QueueCall Nat}
    (ha : Legal z.qs stock p a) :
    Ensures (fun _ => False)
      (fun b => b.1 = (BatchQueue.call z.qs z.qids_nolock_max stock p a).1 ∧
        Refines z b.2 (BatchQueue.call z.qs z.qids_nolock_max stock p a).2)
      (s.call z p a) := by
  cases a with
  | push q x =>
    refine (h.shf_q_push_head hz ha).bind fun s' h' => ensures_ok ⟨?_, h'⟩
    cases x with
    | none => rfl
    | some x => rfl
  | pull r => exact (h.shf_q_pull_tail hz ha).bind fun b hb => ensures_ok hb
  | pushPull q x r => exact (h.shf_q_push_head_pull_tail hz ha).bind fun b hb => ensures_ok hb

theorem Refines.run (h : Refines z s stock) (hz : z.Valid) {events : List (ι × QueueCall Nat)}
    (hlegal : LegalRun z.qs z.qids_nolock_max stock events) :
    Ensures (fun _ => False)
      (fun b => b.1 = (BatchQueue.run z.qs z.qids_nolock_max stock events).1 ∧
        Refines z b.2 (BatchQueue.run z.qs z.qids_nolock_max stock events).2)
      (s.run z events) := by
  induction events generalizing s stock with
  | nil => exact ensures_ok ⟨rfl, h⟩
  | cons e events ih =>
    refine (h.call hz hlegal.1).bind fun b hb => ?_
    refine (ih hb.2 hlegal.2).bind fun b' hb' => ?_
    exact ensures_ok ⟨by rw [hb.1, hb'.1]; rfl, hb'.2⟩

section Creation

theorem holds_new (hitems : 1 < z.q_items) (hz : z.q_items ≤ SHF_QIID_NONE) :
    LinkedQueue.Holds SHF_QIID_NONE (newQiids z) ⟨z.q_items - 1, 0, z.q_items⟩ (List.range z.q_items) := by
  have hlast : (List.range z.q_items).getLast? = some (z.q_items - 1) := by
    rw [List.getLast?_range, if_neg (by omega)]
  have hhead : (List.range z.q_items).head? = some 0 := by
    rw [List.head?_range, if_neg (by omega)]
  refine ⟨List.length_range.symm, by rw [hhead]; rfl, by rw [hlast]; rfl, ?_, ?_, ?_⟩
  · apply List.isChain_iff_getElem.mpr
    intro i hi
    rw [List.length_range] at hi
    rw [List.getElem_range, List.getElem_range]
    have hi' : i ≠ z.q_items - 1 := by omega
    exact ⟨if_neg hi', by rw [newQiids, if_neg (Nat.succ_ne_zero i), Nat.add_sub_cancel]⟩
  · intro a ha
    rw [hlast, Option.mem_some] at ha
    rw [newQiids, if_pos ha.symm]
  · rw [List.mem_range]
    exact Nat.not_lt.mpr hz

/-- All items are in the first queue. -/
def startStock (z : ShfQSizes) : Place ι → List Nat :=
  Function.update (fun _ => []) (.queue .shared 0) (List.range z.q_items)

theorem mem_startStock {x : Nat} {a : Place ι} :
    x ∈ startStock z a ↔ a = .queue .shared 0 ∧ x < z.q_items := by
  by_cases ha : a = .queue .shared 0
  · rw [ha, startStock, Function.update_self, List.mem_range]
    exact (and_iff_right rfl).symm
  · rw [startStock, Function.update_of_ne ha]
    simp [ha]

theorem startStock_partition (z : ShfQSizes) :
    Partition (· < z.q_items) (startStock z : Place ι → List Nat) where
  nodup a := by
    by_cases ha : a = .queue .shared 0
    · rw [ha, startStock, Function.update_self]
      exact List.nodup_range
    · rw [startStock, Function.update_of_ne ha]
      exact List.nodup_nil
  unique ha hb := (mem_startStock.mp ha).1.trans (mem_startStock.mp hb).1.symm
  mem_iff {x} := by
    constructor
    · intro hx
      exact ⟨.queue .shared 0, mem_startStock.mpr ⟨rfl, hx⟩⟩
    · rintro ⟨a, ha⟩
      exact (mem_startStock.mp ha).2

theorem of_assert_eq_ok {α : Type} {condition : Prop} [Decidable condition] {e : ShfQExit}
    {f : Unit → Except ShfQExit α} {a : α} (h : (SHF_ASSERT condition e >>= f) = .ok a) :
    condition ∧ f () = .ok a := by
  by_cases hc : condition
  · rw [SHF_ASSERT, if_pos hc] at h
    exact ⟨hc, h⟩
  · rw [SHF_ASSERT, if_neg hc] at h
    cases h

structure Created (z : ShfQSizes) (s : ShfQ ι) : Prop where
  new : shf_q_new z = .ok s
  qs : z.qs < 2 ^ 32
  q_items : z.q_items < 2 ^ 32

theorem Created.valid (h : Created z s) : z.Valid := by
  obtain ⟨hqs, h₁⟩ := of_assert_eq_ok h.new
  obtain ⟨-, h₂⟩ := of_assert_eq_ok h₁
  obtain ⟨hmax, -⟩ := of_assert_eq_ok h₂
  exact ⟨Nat.le_of_lt_succ h.qs, Nat.zero_lt_of_lt hqs, Nat.le_of_lt_succ h.q_items, hmax⟩

theorem Created.refines (h : Created z s) : Refines z s (startStock z) := by
  have hz := h.valid
  obtain ⟨-, h₁⟩ := of_assert_eq_ok h.new
  obtain ⟨hitems, h₂⟩ := of_assert_eq_ok h₁
  obtain ⟨-, h₃⟩ := of_assert_eq_ok h₂
  obtain ⟨-, h₄⟩ := of_assert_eq_ok h₃
  obtain ⟨-, h₅⟩ := of_assert_eq_ok h₄
  cases h₅
  have hempty : Family SHF_QIID_NONE (newQiids z) z.InUse (fun _ : Place ι => noQiid) (fun _ => []) :=
    ⟨fun _ _ => holds_nil _ _, fun _ _ => List.nodup_nil, fun _ _ ha => by cases ha⟩
  refine ⟨hempty.update ?_ (holds_new hitems hz.q_items) List.nodup_range ?_, startStock_partition z⟩
  · intro _ _ _ a ha
    cases ha
  · intro _ _ _ _ _ ha
    cases ha

end Creation

section Results

variable {events : List (ι × QueueCall Nat)}

/-- Whatever the processes call, as long as they push what they hold: every call returns, and what
it returns is what the queues as lists give. -/
theorem run_on_lists (h : Created z s)
    (hlegal : LegalRun z.qs z.qids_nolock_max (startStock z) events) :
    ∃ s', s.run z events =
      .ok ((BatchQueue.run z.qs z.qids_nolock_max (startStock z) events).1, s') := by
  obtain ⟨b, hs, hb, -⟩ := (h.refines.run h.valid hlegal).exists_ok
  exact ⟨b.2, by rw [hs, ← hb]⟩

/-- Three queues and three items that are passed on one by one. -/
def tinyQ : ShfQSizes := ⟨3, 3, 9, 1⟩

def tinyNew : ShfQ Bool :=
  ⟨Function.update (fun _ => noQiid) (.queue .shared 0) ⟨2, 0, 3⟩, newQiids tinyQ⟩

def tinyEvents : List (Bool × QueueCall Nat) :=
  [(true, .pull 0), (true, .pushPull 1 (some 0) 0), (false, .pull 1), (true, .push 1 (some 1)),
    (false, .pushPull 0 (some 0) 1)]

theorem tinyNew_created : Created tinyQ tinyNew := ⟨rfl, by decide, by decide⟩

theorem tinyEvents_legal : LegalRun 3 1 (startStock tinyQ) tinyEvents :=
  ⟨(by decide : 0 < 3), ⟨by decide, by decide, by decide⟩, (by decide : 1 < 3),
    ⟨by decide, by decide⟩, ⟨by decide, by decide, by decide⟩, trivial⟩

theorem tinyEvents_run : ∃ answers s', tinyNew.run tinyQ tinyEvents = .ok (answers, s') := ⟨_, _, rfl⟩

theorem run_on_lists_tiny : ∃ s', tinyNew.run tinyQ tinyEvents =
    .ok ([some 0, some 1, some 0, none, some 1], s') :=
  run_on_lists tinyNew_created tinyEvents_legal

/-- The items of a queue as its links lead to them, and those in the hands of the processes. -/
def items (z : ShfQSizes) (s : ShfQ ι) (hand : ι → List Nat) : Place ι → List Nat
  | .queue side q =>
    if q < z.qs then
      elements s.qiids (s.qid (.queue side q)).tail (s.qid (.queue side q)).size
    else []
  | .hand p => hand p

omit [DecidableEq ι] in
theorem Refines.items_eq (h : Refines z s stock)
    (hoff : ∀ side q, z.qs ≤ q → stock (.queue side q) = []) :
    s.items z (fun p => stock (.hand p)) = stock := by
  funext a
  cases a with
  | hand p => rfl
  | queue side q =>
    rw [items]
    split_ifs with hq
    · exact (h.holds side hq).elements_eq
    · exact (hoff side q (Nat.not_lt.mp hq)).symm

theorem run_off {c : Place ι → List Nat} (max : Nat) {side : Side ι} (hq : z.qs ≤ q)
    (hlegal : LegalRun z.qs max c events) :
    (BatchQueue.run z.qs max c events).2 (.queue side q) = c (.queue side q) := by
  induction events generalizing c with
  | nil => rfl
  | cons e events ih => exact (ih hlegal.2).trans (call_of_le hlegal.1 side hq)

theorem Created.items_run (h : Created z s)
    (hlegal : LegalRun z.qs z.qids_nolock_max (startStock z) events) {answers : List (Option Nat)}
    {s' : ShfQ ι} (hrun : s.run z events = .ok (answers, s')) :
    s'.items z (fun p => held p [] events answers) =
      (BatchQueue.run z.qs z.qids_nolock_max (startStock z) events).2 := by
  obtain ⟨hanswers, hrefines⟩ := (h.refines.run h.valid hlegal).of_eq_ok hrun
  dsimp only at hanswers hrefines
  have hhand : (fun p => held p [] events answers) = fun p =>
      (BatchQueue.run z.qs z.qids_nolock_max (startStock z) events).2 (.hand p) := by
    funext p
    rw [run_hand, hanswers]
    rfl
  rw [hhand]
  apply hrefines.items_eq
  intro side q hq
  rw [run_off _ hq hlegal, startStock, Function.update_of_ne]
  intro heq
  cases heq
  exact absurd h.valid.qs_pos (Nat.not_lt.mpr hq)

/-- Every item is in exactly one queue, once, or in the hand of exactly one process, which has
pulled it and not pushed it since. -/
theorem items_partition (h : Created z s)
    (hlegal : LegalRun z.qs z.qids_nolock_max (startStock z) events) {answers : List (Option Nat)}
    {s' : ShfQ ι} (hrun : s.run z events = .ok (answers, s')) :
    Partition (· < z.q_items) (s'.items z fun p => held p [] events answers) := by
  rw [h.items_run hlegal hrun]
  exact ((h.refines.run h.valid hlegal).of_eq_ok hrun).2.partition

theorem items_partition_tiny : ∃ answers s', tinyNew.run tinyQ tinyEvents = .ok (answers, s') ∧
    Partition (· < 3) (s'.items tinyQ fun p => held p [] tinyEvents answers) :=
  have ⟨answers, s', hrun⟩ := tinyEvents_run
  ⟨answers, s', hrun, items_partition tinyNew_created tinyEvents_legal hrun⟩

/-- If one process pushes to a queue and one process pulls from it, then the items come out in the
order in which they went in, and those that have not come out are on their way in that order. -/
theorem first_in_first_out (h : Created z s)
    (hlegal : LegalRun z.qs z.qids_nolock_max (startStock z) events) {answers : List (Option Nat)}
    {s' : ShfQ ι} (hrun : s.run z events = .ok (answers, s')) {p r : ι} (hq : q < z.qs)
    (hpush : ∀ e ∈ events, e.2.pushed q ≠ [] → e.1 = p)
    (hpull : ∀ e ∈ events, e.2.source = some q → e.1 = r) :
    (if q = 0 then List.range z.q_items else []) ++ pushed q events =
      pulled q events answers ++ transit p r q (s'.items z fun _ => []) := by
  obtain ⟨hanswers, hrefines⟩ := (h.refines.run h.valid hlegal).of_eq_ok hrun
  dsimp only at hanswers hrefines
  have hside (side : Side ι) : s'.items z (fun _ => []) (.queue side q) =
      (BatchQueue.run z.qs z.qids_nolock_max (startStock z) events).2 (.queue side q) := by
    rw [items, if_pos hq]
    exact (hrefines.holds side hq).elements_eq
  have hlane : Lane p r q (startStock z) :=
    ⟨fun t _ => Function.update_of_ne (by simp) _ _, fun t _ => Function.update_of_ne (by simp) _ _⟩
  have hpulls : startStock z (.queue (.pull r) q) = [] := Function.update_of_ne (by simp) _ _
  have hpushes : startStock z (.queue (.push p) q) = [] := Function.update_of_ne (by simp) _ _
  have hstart : transit p r q (startStock z) = if q = 0 then List.range z.q_items else [] := by
    rw [transit, hpulls, hpushes, List.nil_append, List.append_nil]
    split_ifs with hzero
    · rw [hzero, startStock, Function.update_self]
    · exact Function.update_of_ne (by simp [hzero]) _ _
  rw [← hstart, hanswers, transit, transit, hside, hside, hside]
  exact hlane.run hq hpush hpull

theorem first_in_first_out_tiny : ∃ answers s', tinyNew.run tinyQ tinyEvents = .ok (answers, s') ∧
    [0, 1] = pulled 1 tinyEvents answers ++ transit true false 1 (s'.items tinyQ fun _ => []) :=
  have ⟨answers, s', hrun⟩ := tinyEvents_run
  ⟨answers, s', hrun, first_in_first_out (q := 1) (p := true) (r := false) tinyNew_created
    tinyEvents_legal hrun (by decide) (by decide) (by decide)⟩

/-- A process that pulls gets nothing only if there is nothing in the queue of the file and nothing
in its own two queues to it. -/
theorem pull_none_iff (h : Created z s)
    (hlegal : LegalRun z.qs z.qids_nolock_max (startStock z) events) {answers : List (Option Nat)}
    {s' : ShfQ ι} (hrun : s.run z events = .ok (answers, s')) (p : ι) (hr : r < z.qs) :
    (∃ s'', s'.shf_q_pull_tail z p r = .ok (SHF_QIID_NONE, s'')) ↔
      (s'.qid (.queue (.pull p) r)).size = 0 ∧ (s'.qid (.queue .shared r)).size = 0 ∧
        (s'.qid (.queue (.push p) r)).size = 0 := by
  have hz := h.valid
  obtain ⟨-, hrefines⟩ := (h.refines.run hz hlegal).of_eq_ok hrun
  dsimp only at hrefines
  have hpull := hrefines.shf_q_pull_tail (p := p) hz hr
  rw [(hrefines.holds (.pull p) hr).size, (hrefines.holds .shared hr).size,
    (hrefines.holds (.push p) hr).size, List.length_eq_zero_iff, List.length_eq_zero_iff,
    List.length_eq_zero_iff, ← take_eq_none_iff hz.nolock_max hr decide_eq_true]
  constructor
  · rintro ⟨s'', hs''⟩
    exact (hpull.of_eq_ok hs'').1.symm
  · intro hnone
    obtain ⟨b, hs, hb, -⟩ := hpull.exists_ok
    have hb' : b.1 = SHF_QIID_NONE := by
      by_contra hne
      have hsome := hb.trans hnone
      rw [qiid?, if_neg hne] at hsome
      cases hsome
    exact ⟨b.2, by rw [hs, ← hb']⟩

theorem pull_none_iff_tiny : ∃ answers s', tinyNew.run tinyQ tinyEvents = .ok (answers, s') ∧
    ((∃ s'', s'.shf_q_pull_tail tinyQ true 2 = .ok (SHF_QIID_NONE, s'')) ↔
      (s'.qid (.queue (.pull true) 2)).size = 0 ∧ (s'.qid (.queue .shared 2)).size = 0 ∧
        (s'.qid (.queue (.push true) 2)).size = 0) :=
  have ⟨answers, s', hrun⟩ := tinyEvents_run
  ⟨answers, s', hrun, pull_none_iff tinyNew_created tinyEvents_legal hrun true (by decide)⟩

end Results

end ShfQ

end AnalysePcap
