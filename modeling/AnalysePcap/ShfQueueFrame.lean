import AnalysePcap.ShfQueue

/-! What a process leaves alone in the queues of a shared hash file. Without the lock it writes only
its own queues and the links of its own items, and with the lock also those of the file. So calls
that do not take the lock do not need it. -/

namespace AnalysePcap

open BatchQueue LinkedQueue Postcondition

namespace ShfQ

variable {ι : Type} {z : ShfQSizes} {s s' s'' : ShfQ ι} {stock stock' stock'' : Place ι → List Nat}
  {p : ι} {q r : Nat} {A B : Set (Place ι)}

/-- Only the queues at the places `A` and the links of the items there are written. -/
structure Untouched (A : Set (Place ι)) (stock : Place ι → List Nat) (s s' : ShfQ ι) : Prop where
  qid : ∀ a ∉ A, s'.qid a = s.qid a
  qiids : ∀ {a x}, a ∉ A → x ∈ stock a → s'.qiids x = s.qiids x

theorem Untouched.refl (A : Set (Place ι)) (stock : Place ι → List Nat) (s : ShfQ ι) :
    Untouched A stock s s := ⟨fun _ _ => rfl, fun _ _ => rfl⟩

theorem Untouched.mono (h : Untouched A stock s s') (hAB : A ⊆ B) :
    Untouched B stock s s' where
  qid a ha := h.qid a fun hA => ha (hAB hA)
  qiids ha hx := h.qiids (fun hA => ha (hAB hA)) hx

theorem Untouched.trans (h : Untouched A stock s s') (h' : Untouched A stock' s' s'')
    (hstock : ∀ a ∉ A, stock' a = stock a) : Untouched A stock s s'' where
  qid a ha := (h'.qid a ha).trans (h.qid a ha)
  qiids ha hx := (h'.qiids ha (by rw [hstock _ ha]; exact hx)).trans (h.qiids ha hx)

theorem Refines.untouched_splice (h : Refines z s stock) (hz : z.Valid) {side : Side ι}
    (hq : q < z.qs) {src : Place ι} {tail head n : Nat} (htail : tail ∈ stock src)
    (hhead : head ∈ stock src) (hsrc : src ∈ A) (hdst : .queue side q ∈ A) {qid : Place ι → Queue Nat}
    (hqid : ∀ a ∉ A, qid a = s.qid a) :
    Untouched A stock s
      ⟨qid, (splice SHF_QIID_NONE s.qiids (s.qid (.queue side q)) tail head n).1⟩ where
  qid := hqid
  qiids {a x} ha hx := by
    have hne {b : Place ι} (hb : b ∈ A) {y : Nat} (hy : y ∈ stock b) : x ≠ y := by
      rintro rfl
      rw [h.partition.unique hx hy] at ha
      exact ha hb
    apply splice_cells_of_ne (hne hsrc htail) (hne hsrc hhead)
    have hholds := h.holds side hq
    by_cases hnil : stock (.queue side q) = []
    · rw [hholds.head_eq_nil_iff.mpr hnil]
      exact (h.ne_none hz hx).symm
    · exact hne hdst (List.mem_of_getLast? (hholds.getLast?_of_ne_nil hnil))

variable [DecidableEq ι]

theorem update_of_not_mem {f : Place ι → Queue Nat} {a b : Place ι} {v : Queue Nat} (hb : b ∈ A)
    (ha : a ∉ A) : Function.update f b v a = f a := by
  apply Function.update_of_ne
  rintro rfl
  exact ha hb

theorem Refines.untouched_flushPush (h : Refines z s stock) (hz : z.Valid) (hq : q < z.qs) :
    Ensures (fun _ => False) (Untouched (reach p True) stock s) (ShfQ.flushPush z p s q) := by
  have hpush := h.holds (.push p) hq
  have hown : (.queue (.push p) q : Place ι) ∈ reach p True := push_mem_reach p True q
  have hshared : (.queue .shared q : Place ι) ∈ reach p True := shared_mem_reach p q
  unfold ShfQ.flushPush
  dsimp only
  by_cases hsize : (s.qid (.queue (.push p) q)).size > 0
  · have hne := hpush.ne_nil_of_size (Nat.ne_of_gt hsize)
    have htailmem := List.mem_of_mem_head? (hpush.head?_of_ne_nil hne)
    have hheadmem := List.mem_of_getLast? (hpush.getLast?_of_ne_nil hne)
    rw [if_pos hsize]
    refine (ensures_assert (h.ne_none hz htailmem)).bind fun _ _ => ?_
    refine (ensures_assert (h.ne_none hz hheadmem)).bind fun _ _ => ?_
    refine (ensures_assert (h.lt htailmem)).bind fun _ _ => ?_
    refine (ensures_assert (h.lt hheadmem)).bind fun _ _ => ?_
    apply ensures_ok
    apply h.untouched_splice hz hq htailmem hheadmem hown hshared
    intro a ha
    rw [update_of_not_mem hshared ha, update_of_not_mem hown ha]
  · rw [if_neg hsize]
    exact ensures_ok (.refl _ _ _)

theorem Refines.untouched_publish (h : Refines z s stock) (hz : z.Valid) :
    Ensures (fun _ => False) (Untouched (reach p True) stock s)
      ((List.range z.qs).foldlM (ShfQ.flushPush z p) s) := by
  -- The items of the other processes stay where they are, whatever the rounds so far have moved.
  suffices hall : Ensures (fun _ => False)
      (fun s' => ∃ stock', Refines z s' stock' ∧ Untouched (reach p True) stock s s' ∧
        ∀ a ∉ reach p True, stock' a = stock a)
      ((List.range z.qs).foldlM (ShfQ.flushPush z p) s) by
    exact hall.imp fun s' ⟨_, _, huntouched, _⟩ => huntouched
  refine Ensures.foldlM (I := fun _ s' => ∃ stock', Refines z s' stock' ∧
    Untouched (reach p True) stock s s' ∧ ∀ a ∉ reach p True, stock' a = stock a) ?_
    ⟨stock, h, .refl _ _ _, fun _ _ => rfl⟩
  rintro done q rest s' hrange ⟨stock', h', huntouched, hsame⟩
  have hq : q < z.qs := List.mem_range.mp (hrange ▸ by simp)
  refine ((h'.flushPush hz hq).and (h'.untouched_flushPush hz hq)).imp ?_
  rintro s'' ⟨h'', huntouched'⟩
  refine ⟨_, h'', huntouched.trans huntouched' hsame, fun a ha => ?_⟩
  have hown : (.queue (.push p) q : Place ι) ∈ reach p True := push_mem_reach p True q
  have hshared : (.queue .shared q : Place ι) ∈ reach p True := shared_mem_reach p q
  exact (move_of_not_mem hown hshared ha _).trans (hsame a ha)

theorem Refines.untouched_flushPull (h : Refines z s stock) (hz : z.Valid) (hr : r < z.qs) :
    Ensures (fun _ => False) (Untouched (reach p True) stock s) (ShfQ.flushPull z p r s) := by
  have hlocked := h.holds .shared hr
  have hown : (.queue (.pull p) r : Place ι) ∈ reach p True := pull_mem_reach p True r
  have hshared : (.queue .shared r : Place ι) ∈ reach p True := shared_mem_reach p r
  unfold ShfQ.flushPull
  dsimp only
  generalize hn : qiidsToPull z (s.qid (.queue (.pull p) r)) (s.qid (.queue .shared r)) = n
  have hle : n ≤ (stock (.queue .shared r)).length := by
    rw [← hn, h.qiidsToPull_eq hr]
    exact Nat.min_le_left _ _
  by_cases hpos : n > 0
  · rw [if_pos hpos]
    have hne : stock (.queue .shared r) ≠ [] := by
      rintro hnil
      rw [hnil] at hle
      exact absurd hle (Nat.not_le.mpr hpos)
    have htailmem := List.mem_of_mem_head? (hlocked.head?_of_ne_nil hne)
    refine (ensures_assert (h.ne_none hz htailmem)).bind fun _ _ => ?_
    refine (ensures_assert (h.lt htailmem)).bind fun _ _ => ?_
    refine (h.walk hz hr hpos hle).bind fun head hhead => ?_
    apply ensures_ok
    apply h.untouched_splice hz hr htailmem (List.mem_of_mem_take (List.mem_of_getLast? hhead))
      hshared hown
    intro a ha
    rw [update_of_not_mem hown ha, update_of_not_mem hshared ha]
  · rw [if_neg hpos]
    exact ensures_ok (.refl _ _ _)

theorem Refines.untouched_flush (h : Refines z s stock) (hz : z.Valid)
    (hr : r < z.qs ∨ r = SHF_QID_NONE) :
    Ensures (fun _ => False) (Untouched (reach p True) stock s) (ShfQ.shf_q_flush z p r s) := by
  refine ((h.publish hz).and (h.untouched_publish hz)).bind fun s' ⟨h', huntouched⟩ => ?_
  rcases hr with hr | rfl
  · rw [if_pos (Nat.ne_of_gt (hr.trans_le hz.qs))]
    exact (h'.untouched_flushPull hz hr).imp fun s'' huntouched' =>
      huntouched.trans huntouched' (within_publish.outside stock)
  · rw [if_neg (fun hne => hne rfl)]
    exact ensures_ok huntouched

theorem Refines.untouched_pushNolock (h : Refines z s stock) (hz : z.Valid) (hq : q < z.qs)
    {x : Option Nat} (hx : ∀ y ∈ x, y ∈ stock (.hand p)) :
    Untouched (reach p False) stock s (ShfQ.pushNolock p q (x.getD SHF_QIID_NONE) s) := by
  have hown : (.queue (.push p) q : Place ι) ∈ reach p False := push_mem_reach p False q
  have hhand : (.hand p : Place ι) ∈ reach p False := hand_mem_reach p False
  cases x with
  | none =>
    rw [ShfQ.pushNolock, if_neg (fun hne => hne rfl)]
    exact .refl _ _ _
  | some x =>
    have hmem := hx x rfl
    rw [Option.getD_some, ShfQ.pushNolock, if_pos (h.ne_none hz hmem)]
    apply h.untouched_splice hz hq hmem hmem hhand hown
    intro a ha
    exact update_of_not_mem hown ha

theorem Refines.untouched_pullNolock (h : Refines z s stock) (hr : r < z.qs) :
    Ensures (fun _ => False) (fun b => Untouched (reach p False) stock s b.2)
      (ShfQ.pullNolock z p r s) := by
  have hpull := h.holds (.pull p) hr
  have hown : (.queue (.pull p) r : Place ι) ∈ reach p False := pull_mem_reach p False r
  unfold ShfQ.pullNolock
  dsimp only
  by_cases hsize : (s.qid (.queue (.pull p) r)).size = 0
  · rw [if_pos hsize]
    exact ensures_ok (.refl _ _ _)
  · rw [if_neg hsize]
    have hne := hpull.ne_nil_of_size hsize
    have htailmem := List.mem_of_mem_head? (hpull.head?_of_ne_nil hne)
    refine (ensures_assert (h.lt htailmem)).bind fun _ _ => ?_
    obtain ⟨x, l, hxl⟩ := List.exists_cons_of_ne_nil hne
    refine ensures_ok ⟨fun a ha => update_of_not_mem hown ha, fun {a y} ha hy => ?_⟩
    refine unlink_cells_of_ne (l := l) ?_ (hxl ▸ hpull)
    intro hyl
    have hy' : y ∈ stock (.queue (.pull p) r) := hxl ▸ List.mem_cons_of_mem x hyl
    rw [h.partition.unique hy hy'] at ha
    exact ha hown

/-- Whether a call comes to the lock of the queues. -/
def flushes (z : ShfQSizes) (p : ι) (s : ShfQ ι) : QueueCall Nat → Prop
  | .push q x => x.isSome ∧ z.qids_nolock_max ≤
      ((ShfQ.pushNolock p q (x.getD SHF_QIID_NONE) s).qid (.queue (.push p) q)).size
  | .pull r => (s.qid (.queue (.pull p) r)).size = 0
  | .pushPull q x r =>
    z.qids_nolock_max ≤
        ((ShfQ.pushNolock p q (x.getD SHF_QIID_NONE) s).qid (.queue (.push p) q)).size ∨
      ((ShfQ.pushNolock p q (x.getD SHF_QIID_NONE) s).qid (.queue (.pull p) r)).size = 0

theorem Refines.flushes_iff (h : Refines z s stock) (hz : z.Valid) {a : QueueCall Nat}
    (ha : Legal z.qs stock p a) :
    s.flushes z p a ↔ BatchQueue.flushes z.qids_nolock_max p stock a := by
  cases a with
  | push q x =>
    have hpush := h.pushNolock_elim hz ha.1 ha.2
    rw [ShfQ.flushes, BatchQueue.flushes, (hpush.holds (.push p) ha.1).size]
  | pull r =>
    have hr : r < z.qs := ha
    rw [ShfQ.flushes, BatchQueue.flushes, (h.holds (.pull p) hr).size, List.length_eq_zero_iff]
  | pushPull q x r =>
    have hpush := h.pushNolock_elim hz ha.1 ha.2.2
    rw [ShfQ.flushes, BatchQueue.flushes, (hpush.holds (.push p) ha.1).size,
      (hpush.holds (.pull p) ha.2.1).size, List.length_eq_zero_iff]

theorem Refines.untouched_take (h : Refines z s stock) (hz : z.Valid) (hr : r < z.qs)
    (condition : Prop) [Decidable condition] :
    Ensures (fun _ => False) (fun b => Untouched (reach p condition) stock s b.2)
      (do
        let s ← if condition then ShfQ.shf_q_flush z p r s else pure s
        ShfQ.pullNolock z p r s) := by
  by_cases hc : condition
  · rw [if_pos hc]
    refine ((h.shf_q_flush hz hr).and (h.untouched_flush hz (.inl hr))).bind ?_
    rintro s' ⟨h', huntouched⟩
    refine (h'.untouched_pullNolock hr).imp fun b huntouched' => ?_
    refine (huntouched.trans (huntouched'.mono (reach_mono False.elim)) ?_).mono
      (reach_mono fun _ => hc)
    exact (within_refill.comp within_publish).outside stock
  · rw [if_neg hc]
    exact (h.untouched_pullNolock hr).imp fun b huntouched => huntouched.mono (reach_mono False.elim)

theorem Refines.untouched_call (h : Refines z s stock) (hz : z.Valid) {a : QueueCall Nat}
    (ha : Legal z.qs stock p a) :
    Ensures (fun _ => False) (fun b => Untouched (reach p (s.flushes z p a)) stock s b.2)
      (s.call z p a) := by
  cases a with
  | push q x =>
    have hpush := h.pushNolock_elim hz ha.1 ha.2
    have huntouched := h.untouched_pushNolock hz ha.1 ha.2
    suffices hcall : Ensures (fun _ => False)
        (Untouched (reach p (s.flushes z p (.push q x))) stock s)
        (ShfQ.shf_q_push_head z p q (x.getD SHF_QIID_NONE) s) by
      exact hcall.bind fun s' h' => ensures_ok h'
    refine (ensures_assert ha.1).bind fun _ _ => ?_
    refine (ensures_assert (h.item ha.2)).bind fun _ _ => ?_
    cases x with
    | none =>
      rw [if_neg (fun hne => hne rfl)]
      exact ensures_ok (.refl _ _ _)
    | some x =>
      rw [Option.getD_some] at huntouched
      rw [Option.getD_some, if_pos (h.ne_none hz (ha.2 x rfl))]
      dsimp only
      split_ifs with hmax
      · refine (hpush.untouched_flush hz (.inr rfl)).imp fun s' huntouched' => ?_
        refine ((huntouched.mono (reach_mono False.elim)).trans huntouched' ?_).mono
          (reach_mono fun _ => ⟨rfl, hmax⟩)
        exact (within_put True (some x)).outside stock
      · exact ensures_ok (huntouched.mono (reach_mono False.elim))
  | pull r =>
    have hr : r < z.qs := ha
    suffices hcall : Ensures (fun _ => False)
        (fun b => Untouched (reach p (s.flushes z p (.pull r))) stock s b.2)
        (ShfQ.shf_q_pull_tail z p r s) by
      exact hcall.bind fun b hb => ensures_ok hb
    exact (ensures_assert hr).bind fun _ _ =>
      h.untouched_take hz hr ((s.qid (.queue (.pull p) r)).size = 0)
  | pushPull q x r =>
    have hpush := h.pushNolock_elim hz ha.1 ha.2.2
    have huntouched := h.untouched_pushNolock hz ha.1 ha.2.2
    suffices hcall : Ensures (fun _ => False)
        (fun b => Untouched (reach p (s.flushes z p (.pushPull q x r))) stock s b.2)
        (ShfQ.shf_q_push_head_pull_tail z p q (x.getD SHF_QIID_NONE) r s) by
      exact hcall.bind fun b hb => ensures_ok hb
    refine (ensures_assert ha.1).bind fun _ _ => ?_
    refine (ensures_assert (h.item ha.2.2)).bind fun _ _ => ?_
    refine (ensures_assert ha.2.1).bind fun _ _ => ?_
    refine (hpush.untouched_take hz ha.2.1 _).imp fun b huntouched' => ?_
    refine (huntouched.mono (reach_mono False.elim)).trans huntouched' ?_
    exact (within_put _ x).outside stock

section Results

variable {events rest : List (ι × QueueCall Nat)} {a b : QueueCall Nat} {t : ι}

/-- A call writes only the queues of the process itself and the links of items in them or in its
hand. If it comes to the lock, it also writes those of the file, and never those of another
process. -/
theorem call_writes_own (h : Created z s) (p : ι)
    (hlegal : LegalRun z.qs z.qids_nolock_max (startStock z) (events ++ [(p, a)]))
    {answers : List (Option Nat)} (hrun : s.run z events = .ok (answers, s')) :
    ∃ answer s'', s'.call z p a = .ok (answer, s'') ∧
      Untouched (reach p (s'.flushes z p a)) (s'.items z fun p => held p [] events answers) s' s'' := by
  obtain ⟨hevents, ha, -⟩ := legalRun_append.mp hlegal
  have hrefines := ((h.refines.run h.valid hevents).of_eq_ok hrun).2
  have huntouched := hrefines.untouched_call h.valid ha
  rw [h.items_run hevents hrun]
  obtain ⟨b, hcall, hb⟩ := huntouched.exists_ok
  exact ⟨b.1, b.2, hcall, hb⟩

theorem call_writes_own_tiny : ∃ answers s', tinyNew.run tinyQ tinyEvents = .ok (answers, s') ∧
    ∃ answer s'', s'.call tinyQ true (.pull 0) = .ok (answer, s'') ∧
      Untouched (reach true (s'.flushes tinyQ true (.pull 0)))
        (s'.items tinyQ fun p => held p [] tinyEvents answers) s' s'' :=
  have ⟨answers, s', hrun⟩ := tinyEvents_run
  ⟨answers, s', hrun, call_writes_own (a := .pull 0) tinyNew_created true
    (legalRun_append.mpr ⟨tinyEvents_legal, (by decide : 0 < 3), trivial⟩) hrun⟩

/-- A call that does not come to the lock can be made before or after the next call of another
process: both calls return what they returned, and so do all later ones, and all queues hold the
same items in the end. -/
theorem run_swap_unlocked (h : Created z s) (hpt : p ≠ t)
    (hlegal : LegalRun z.qs z.qids_nolock_max (startStock z) (events ++ (p, a) :: (t, b) :: rest))
    {answers : List (Option Nat)} (hrun : s.run z events = .ok (answers, s'))
    (hunlocked : ¬ s'.flushes z p a) :
    ∃ x y answers' s₁ s₂,
      s.run z (events ++ (p, a) :: (t, b) :: rest) = .ok (answers ++ x :: y :: answers', s₁) ∧
      s.run z (events ++ (t, b) :: (p, a) :: rest) = .ok (answers ++ y :: x :: answers', s₂) ∧
      s₁.items z (fun _ => []) = s₂.items z fun _ => [] := by
  have hz := h.valid
  obtain ⟨hevents, hnext⟩ := legalRun_append.mp hlegal
  obtain ⟨hanswers, hrefines⟩ := (h.refines.run hz hevents).of_eq_ok hrun
  dsimp only at hanswers hrefines
  rw [hrefines.flushes_iff hz hnext.1] at hunlocked
  have hlegal' := legalRun_append.mpr ⟨hevents, legalRun_swap hpt hunlocked hnext⟩
  obtain ⟨x, y, answers', c, hpab, hbpa⟩ :=
    BatchQueue.run_swap z.qs b rest hpt hunlocked
  have hrun₁ := h.refines.run hz hlegal
  have hrun₂ := h.refines.run hz hlegal'
  rw [run_append, hpab, ← hanswers] at hrun₁
  rw [run_append, hbpa, ← hanswers] at hrun₂
  obtain ⟨⟨answers₁, s₁⟩, hs₁, rfl, h₁⟩ := hrun₁.exists_ok
  obtain ⟨⟨answers₂, s₂⟩, hs₂, rfl, h₂⟩ := hrun₂.exists_ok
  refine ⟨x, y, answers', s₁, s₂, hs₁, hs₂, ?_⟩
  funext a
  cases a with
  | hand p => rfl
  | queue side q =>
    rw [items, items]
    split_ifs with hq
    · rw [(h₁.holds side hq).elements_eq, (h₂.holds side hq).elements_eq]
    · rfl

/-- Three queues and three items that are passed on in pairs. -/
def pairQ : ShfQSizes := ⟨3, 3, 9, 2⟩

def pairNew : ShfQ Bool :=
  ⟨Function.update (fun _ => noQiid) (.queue .shared 0) ⟨2, 0, 3⟩, newQiids pairQ⟩

theorem pairNew_created : Created pairQ pairNew := ⟨rfl, by decide, by decide⟩

theorem pairNew_legal : LegalRun 3 2 (startStock pairQ)
    ([(true, .pull 0)] ++ (true, .pull 0) :: (false, .pull 0) :: []) :=
  ⟨(by decide : 0 < 3), (by decide : 0 < 3), (by decide : 0 < 3), trivial⟩

theorem pairNew_run : ∃ answers s', pairNew.run pairQ [(true, .pull 0)] = .ok (answers, s') ∧
    ¬ s'.flushes pairQ true (.pull 0) := ⟨_, _, rfl, Nat.succ_ne_zero 0⟩

theorem run_swap_unlocked_pair : ∃ answers x y answers' s₁ s₂,
    pairNew.run pairQ [(true, .pull 0), (true, .pull 0), (false, .pull 0)] =
      .ok (answers ++ x :: y :: answers', s₁) ∧
    pairNew.run pairQ [(true, .pull 0), (false, .pull 0), (true, .pull 0)] =
      .ok (answers ++ y :: x :: answers', s₂) ∧
    s₁.items pairQ (fun _ => []) = s₂.items pairQ fun _ => [] :=
  have ⟨answers, _, hrun, hunlocked⟩ := pairNew_run
  ⟨answers, run_swap_unlocked pairNew_created (by decide) pairNew_legal hrun hunlocked⟩

end Results

end ShfQ

end AnalysePcap
