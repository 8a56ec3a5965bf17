import AnalysePcap.Outcome
import AnalysePcap.Substream

/-! What `addPkt` alone counts in a short trace. A cell that holds zero counts as absent,
and seen in this way the table has, for each type and hop, the request that was seen last,
until its answer. -/

namespace AnalysePcap

open DiameterInterface Substream

variable {K : InterfaceKind}

namespace Diameter

def isRequest (pkt : Diameter) : Bool := pkt.request = 1

def isAnswer (pkt : Diameter) : Bool := pkt.request = 0

def succeeded (pkt : Diameter) : Bool := pkt.resCode < 3000 ∨ pkt.resCode = 70001

theorem hopKey_lt (pkt : Diameter) : pkt.hopKey < 2 ^ 32 := by
  unfold hopKey
  omega

end Diameter

/-- The hop of a request or an answer of type `k`. -/
def InterfaceKind.hopOf (K : InterfaceKind) (k : Nat) (pkt : Diameter) : Option Nat :=
  if K.msgKey pkt = some k ∧ (pkt.isRequest || pkt.isAnswer) then some pkt.hopKey else none

/-- The requests of type `k` that are immediately followed by an answer with `q` among
the packets with their type and hop, over all hops. -/
def pairs (K : InterfaceKind) (k : Nat) (q : Diameter → Bool) (pkts : List Diameter) : Nat :=
  ∑ h ∈ Finset.range (2 ^ 32),
    adjacent Diameter.isRequest (fun pkt => pkt.isAnswer && q pkt) (substream (K.hopOf k) h pkts)

def answers (K : InterfaceKind) (k : Nat) (pkts : List Diameter) : Nat :=
  pkts.countP fun pkt => K.msgKey pkt = some k ∧ pkt.isAnswer

/-- The last packet of the type and hop, if it is a request that waits for its answer. -/
def lastRequest (K : InterfaceKind) (k h : Nat) (pkts : List Diameter) : Option Diameter :=
  (substream (K.hopOf k) h pkts).getLast?.filter Diameter.isRequest

theorem hopOf_eq_some_iff {pkt : Diameter} {k h : Nat} :
    K.hopOf k pkt = some h ↔ IsRequest K pkt k h ∨ IsAnswer K pkt k h := by
  simp only [InterfaceKind.hopOf, IsRequest, IsAnswer, Diameter.isRequest, Diameter.isAnswer]
  split_ifs with hc <;> simp at hc ⊢ <;> tauto

theorem lastRequest_eq_some {pkts : List Diameter} {pkt : Diameter} {k h : Nat} :
    lastRequest K k h pkts = some pkt ↔
      (substream (K.hopOf k) h pkts).getLast? = some pkt ∧ pkt.request = 1 := by
  simp [lastRequest, Option.filter_eq_some_iff, Diameter.isRequest]

theorem mem_range_of_hopOf {pkt : Diameter} {k h : Nat} (hp : K.hopOf k pkt = some h) :
    h ∈ Finset.range (2 ^ 32) := by
  have hhop : pkt.hopKey = h := by
    rcases hopOf_eq_some_iff.mp hp with hr | ha
    · exact hr.2.2
    · exact ha.2.2
  exact Finset.mem_range.mpr (hhop ▸ pkt.hopKey_lt)

theorem hopOf_unique {pkt : Diameter} {k k' h h' : Nat} (hp : K.hopOf k pkt = some h)
    (hp' : K.hopOf k' pkt = some h') : k' = k ∧ h' = h := by
  simp only [InterfaceKind.hopOf] at hp hp'
  split_ifs at hp hp' with hc hc'
  exact ⟨Option.some.inj (hc'.1.symm.trans hc.1), Option.some.inj (hp'.symm.trans hp)⟩

section Concat

variable {pkts : List Diameter} {pkt : Diameter} {k h : Nat}

theorem lastRequest_concat_of_request (hp : IsRequest K pkt k h) :
    lastRequest K k h (pkts ++ [pkt]) = some pkt := by
  rw [lastRequest, substream_concat_self (hopOf_eq_some_iff.mpr (.inl hp))]
  simp [Diameter.isRequest, hp.2.1]

theorem lastRequest_concat_of_answer (hp : IsAnswer K pkt k h) :
    lastRequest K k h (pkts ++ [pkt]) = none := by
  rw [lastRequest, substream_concat_self (hopOf_eq_some_iff.mpr (.inr hp))]
  simp [Diameter.isRequest, hp.2.1]

theorem lastRequest_concat_of_ne (hp : K.hopOf k pkt ≠ some h) :
    lastRequest K k h (pkts ++ [pkt]) = lastRequest K k h pkts := by
  rw [lastRequest, substream_concat_of_ne hp, lastRequest]

theorem pairs_concat_of_answer (q : Diameter → Bool) (hp : IsAnswer K pkt k h) (k' : Nat) :
    pairs K k' q (pkts ++ [pkt]) = pairs K k' q pkts +
      if k = k' ∧ (lastRequest K k h pkts).isSome ∧ q pkt then 1 else 0 := by
  by_cases hk : k = k'
  · subst hk
    have hhop := hopOf_eq_some_iff.mpr (.inr hp)
    have hanswer : pkt.isAnswer = true := by simp [Diameter.isAnswer, hp.2.1]
    rw [pairs, sum_adjacent_concat _ _ hhop (mem_range_of_hopOf hhop), ← pairs]
    simp [hanswer, lastRequest]
  · have hnone : K.hopOf k' pkt = none := by
      simp [InterfaceKind.hopOf, hp.1, hk]
    rw [pairs, sum_adjacent_concat_of_none _ _ _ hnone, ← pairs]
    simp [hk]

theorem pairs_concat_of_not_answer (q : Diameter → Bool) (hp : ∀ h, ¬ IsAnswer K pkt k h) :
    pairs K k q (pkts ++ [pkt]) = pairs K k q pkts := by
  cases hhop : K.hopOf k pkt with
  | none => exact sum_adjacent_concat_of_none _ _ _ hhop pkts
  | some h =>
    have hrequest : IsRequest K pkt k h := (hopOf_eq_some_iff.mp hhop).resolve_right (hp h)
    have hanswer : pkt.isAnswer = false := by simp [Diameter.isAnswer, hrequest.2.1]
    rw [pairs, sum_adjacent_concat _ _ hhop (mem_range_of_hopOf hhop), ← pairs]
    simp [hanswer]

theorem answers_concat_of_answer (hp : IsAnswer K pkt k h) (k' : Nat) :
    answers K k' (pkts ++ [pkt]) = answers K k' pkts + if k = k' then 1 else 0 := by
  have hanswer : pkt.isAnswer = true := by simp [Diameter.isAnswer, hp.2.1]
  simp [answers, List.countP_append, List.countP_singleton, hp.1, hanswer]

theorem answers_concat_of_not_answer (hp : ∀ h, ¬ IsAnswer K pkt k h) :
    answers K k (pkts ++ [pkt]) = answers K k pkts := by
  have hnot : ¬ (K.msgKey pkt = some k ∧ pkt.isAnswer = true) :=
    fun hc => hp pkt.hopKey ⟨hc.1, of_decide_eq_true hc.2, rfl⟩
  simp [answers, List.countP_append, hnot]

end Concat

namespace DiameterInterface

/-- The time stamp of a pending request; zero stands for no request. -/
def waiting (s : DiameterInterface K) (k h : Nat) : Option ℚ :=
  (s.req.get? k h).filter fun ts => ts ≠ 0

theorem waiting_eq_some {s : DiameterInterface K} {k h : Nat} {ts : ℚ} :
    s.waiting k h = some ts ↔ s.req.get? k h = some ts ∧ ts ≠ 0 := by
  simp [waiting, Option.filter_eq_some_iff]

theorem waiting_after (s : DiameterInterface K) (pkt : Diameter) (o : Outcome) (k h : Nat) :
    (s.after pkt o).waiting k h = match o with
      | .stored k' h' ts =>
        if k = k' ∧ h = h' then (some ts).filter fun ts => ts ≠ 0 else s.waiting k h
      | .matched k' h' _ => if k = k' ∧ h = h' then none else s.waiting k h
      | _ => s.waiting k h := by
  rw [waiting, get?_after]
  cases o with
  | rejected => rfl
  | stored k' h' ts =>
    dsimp only
    split_ifs <;> rfl
  | unknown k' h' =>
    dsimp only
    split_ifs with hc
    · -- the zero that the lookup may leave behind makes no difference
      obtain ⟨rfl, rfl⟩ := hc
      rw [waiting]
      cases s.req.get? k h <;> simp
    · rfl
  | late k' h' ts => rfl
  | matched k' h' ts =>
    dsimp only
    split_ifs <;> rfl

theorem outcome_of_not_waiting {s : DiameterInterface K} {pkt : Diameter} {k h : Nat}
    (hp : IsAnswer K pkt k h) (hw : s.waiting k h = none) : outcome s pkt = .unknown k h := by
  rw [outcome_of_answer hp]
  cases hget : s.req.get? k h with
  | none => rfl
  | some ts =>
    have hz : ts = 0 := by
      by_contra hne
      exact absurd (waiting_eq_some.mpr ⟨hget, hne⟩) (by simp [hw])
    simp [hz]

theorem outcome_of_waiting {s : DiameterInterface K} {pkt : Diameter} {k h : Nat} {ts : ℚ}
    (hp : IsAnswer K pkt k h) (hw : s.waiting k h = some ts) (hle : ts ≤ pkt.timeStamp)
    (hspan : pkt.timeStamp - ts ≤ 40) : outcome s pkt = .matched k h ts := by
  obtain ⟨hget, hne⟩ := waiting_eq_some.mp hw
  have hrange : ¬ (pkt.timeStamp - ts < 0 ∨ 40 < pkt.timeStamp - ts) := by
    rintro (hlt | hlt) <;> linarith
  rw [outcome_of_answer hp, hget]
  simp only [if_neg hne, if_neg hrange]

end DiameterInterface

theorem Stats.answered_succCount {n : Nat} (st : Stats n) (i : Nat) (rtt : ℚ) (pkt : Diameter) :
    (st.answered i rtt pkt.resCode).succCount =
      if pkt.succeeded then addAt st.succCount i 1 else st.succCount := by
  unfold Stats.answered Diameter.succeeded
  by_cases h : pkt.resCode < 3000 ∨ pkt.resCode = 70001 <;> simp [h]

theorem Stats.answered_failCount {n : Nat} (st : Stats n) (i : Nat) (rtt : ℚ) (pkt : Diameter) :
    (st.answered i rtt pkt.resCode).failCount =
      if pkt.succeeded then st.failCount else addAt st.failCount i 1 := by
  unfold Stats.answered Diameter.succeeded
  by_cases h : pkt.resCode < 3000 ∨ pkt.resCode = 70001 <;> simp [h]

theorem Stats.answered_unKnwRes {n : Nat} (st : Stats n) (i : Nat) (rtt : ℚ) (resCode : Int) :
    (st.answered i rtt resCode).unKnwRes = st.unKnwRes := by
  unfold Stats.answered
  by_cases h : resCode < 3000 ∨ resCode = 70001 <;> simp [h]

structure ShortTrace (pkts : List Diameter) : Prop where
  positive : ∀ pkt ∈ pkts, 0 < pkt.timeStamp
  ordered : pkts.Pairwise fun p p' => p.timeStamp ≤ p'.timeStamp
  span : ∀ p ∈ pkts, ∀ p' ∈ pkts, p'.timeStamp - p.timeStamp ≤ 40

/-- The counters as counts over the trace. The answers that no request precedes are the
unknown ones. -/
structure PairCounts (pkts : List Diameter) (s : DiameterInterface K) : Prop where
  succCount : ∀ i, s.stats.succCount i = pairs K (K.typeAt i) Diameter.succeeded pkts
  failCount : ∀ i, s.stats.failCount i = pairs K (K.typeAt i) (fun pkt => !pkt.succeeded) pkts
  unKnwRes : ∀ i, s.stats.unKnwRes i + pairs K (K.typeAt i) (fun _ => true) pkts =
    answers K (K.typeAt i) pkts
  timeoutCount : ∀ i, s.stats.timeoutCount i = 0

structure Counted (pkts : List Diameter) (s : DiameterInterface K) : Prop
    extends PairCounts pkts s where
  waiting : ∀ k h, s.waiting k h = (lastRequest K k h pkts).map Diameter.timeStamp

namespace Counted

variable {pkts : List Diameter} {pkt : Diameter} {s : DiameterInterface K} {k h : Nat}

theorem concat_of_not_answer (hc : Counted pkts s) (hp : ∀ k h, ¬ IsAnswer K pkt k h)
    {s' : DiameterInterface K} (hstats : s'.stats = s.stats)
    (hw : ∀ k h, s'.waiting k h = (lastRequest K k h (pkts ++ [pkt])).map Diameter.timeStamp) :
    Counted (pkts ++ [pkt]) s' where
  waiting := hw
  succCount i := by rw [hstats, pairs_concat_of_not_answer _ (hp _), hc.succCount]
  failCount i := by rw [hstats, pairs_concat_of_not_answer _ (hp _), hc.failCount]
  unKnwRes i := by
    rw [hstats, pairs_concat_of_not_answer _ (hp _), answers_concat_of_not_answer (hp _),
      hc.unKnwRes]
  timeoutCount i := by rw [hstats, hc.timeoutCount]

theorem concat_rejected (hc : Counted pkts s) (ho : outcome s pkt = .rejected) :
    Counted (pkts ++ [pkt]) s := by
  have hhop (k h : Nat) : K.hopOf k pkt ≠ some h := by
    intro hk
    rcases hopOf_eq_some_iff.mp hk with hr | ha
    · simp [outcome_of_request hr] at ho
    · rw [outcome_of_answer ha] at ho
      split at ho
      · simp at ho
      · split_ifs at ho
  refine hc.concat_of_not_answer (fun k h ha => hhop k h (hopOf_eq_some_iff.mpr (.inr ha))) rfl ?_
  intro k h
  rw [lastRequest_concat_of_ne (hhop k h), hc.waiting]

theorem concat_request (hc : Counted pkts s) (hp : IsRequest K pkt k h)
    (hpos : 0 < pkt.timeStamp) :
    Counted (pkts ++ [pkt]) (s.after pkt (.stored k h pkt.timeStamp)) := by
  have hhop := hopOf_eq_some_iff.mpr (.inl hp)
  refine hc.concat_of_not_answer (fun k' h' ha => ?_) rfl ?_
  · exact absurd (hp.2.1.symm.trans ha.2.1) (by decide)
  · intro k' h'
    rw [waiting_after]
    dsimp only
    split_ifs with heq
    · obtain ⟨rfl, rfl⟩ := heq
      rw [lastRequest_concat_of_request hp]
      simp [hpos.ne']
    · rw [lastRequest_concat_of_ne fun hk => heq (hopOf_unique hhop hk), hc.waiting]

theorem concat_unknown (hc : Counted pkts s) (hp : IsAnswer K pkt k h)
    (hlast : lastRequest K k h pkts = none) :
    Counted (pkts ++ [pkt]) (s.after pkt (.unknown k h)) := by
  have hhop := hopOf_eq_some_iff.mpr (.inr hp)
  have hk : K.IsType k := InterfaceKind.isType_of_msgKey hp.1
  refine ⟨⟨?_, ?_, ?_, hc.timeoutCount⟩, ?_⟩
  · intro i
    rw [pairs_concat_of_answer _ hp, hlast, ← hc.succCount]
    simp [DiameterInterface.after, Stats.unknown]
  · intro i
    rw [pairs_concat_of_answer _ hp, hlast, ← hc.failCount]
    simp [DiameterInterface.after, Stats.unknown]
  · intro i
    have hi := hc.unKnwRes i
    have hstep : (s.after pkt (.unknown k h)).stats.unKnwRes i =
        s.stats.unKnwRes i + if k = K.typeAt i then 1 else 0 := addAt_index hk _ i
    rw [pairs_concat_of_answer _ hp, answers_concat_of_answer hp, hlast, hstep]
    simp only [Option.isSome_none, Bool.false_eq_true, false_and, and_false, if_false]
    omega
  · intro k' h'
    rw [waiting_after]
    dsimp only
    by_cases heq : k' = k ∧ h' = h
    · obtain ⟨rfl, rfl⟩ := heq
      rw [lastRequest_concat_of_answer hp, hc.waiting, hlast]
    · rw [lastRequest_concat_of_ne fun hk => heq (hopOf_unique hhop hk), hc.waiting]

theorem concat_matched (hc : Counted pkts s) (hp : IsAnswer K pkt k h) {r : Diameter}
    (hlast : lastRequest K k h pkts = some r) :
    Counted (pkts ++ [pkt]) (s.after pkt (.matched k h r.timeStamp)) := by
  have hhop := hopOf_eq_some_iff.mpr (.inr hp)
  have hk : K.IsType k := InterfaceKind.isType_of_msgKey hp.1
  refine ⟨⟨?_, ?_, ?_, ?_⟩, ?_⟩
  · intro i
    rw [pairs_concat_of_answer _ hp, hlast, ← hc.succCount]
    simp only [DiameterInterface.after, Stats.answered_succCount]
    cases pkt.succeeded <;> simp [addAt_index hk]
  · intro i
    rw [pairs_concat_of_answer _ hp, hlast, ← hc.failCount]
    simp only [DiameterInterface.after, Stats.answered_failCount]
    cases pkt.succeeded <;> simp [addAt_index hk]
  · intro i
    have hi := hc.unKnwRes i
    have hstep : (s.after pkt (.matched k h r.timeStamp)).stats.unKnwRes i =
        s.stats.unKnwRes i := congrFun (Stats.answered_unKnwRes _ _ _ _) i
    rw [pairs_concat_of_answer _ hp, answers_concat_of_answer hp, hlast, hstep]
    simp only [Option.isSome_some, and_true]
    omega
  · intro i
    simp only [DiameterInterface.after, Stats.answered_timeoutCount]
    exact hc.timeoutCount i
  · intro k' h'
    rw [waiting_after]
    dsimp only
    split_ifs with heq
    · obtain ⟨rfl, rfl⟩ := heq
      rw [lastRequest_concat_of_answer hp]
      rfl
    · rw [lastRequest_concat_of_ne fun hk => heq (hopOf_unique hhop hk), hc.waiting]

theorem concat (hc : Counted pkts s) (hpos : 0 < pkt.timeStamp)
    (hnear : ∀ r ∈ pkts, r.timeStamp ≤ pkt.timeStamp ∧ pkt.timeStamp - r.timeStamp ≤ 40) :
    Counted (pkts ++ [pkt]) (s.addPkt pkt).1 := by
  rw [addPkt_fst]
  rcases packet_cases K s pkt with ho | ⟨k, h, hr⟩ | ⟨k, h, ha⟩
  · rw [ho]
    exact hc.concat_rejected ho
  · rw [outcome_of_request hr]
    exact hc.concat_request hr hpos
  · have hw := hc.waiting k h
    cases hlast : lastRequest K k h pkts with
    | none =>
      rw [hlast, Option.map_none] at hw
      rw [outcome_of_not_waiting ha hw]
      exact hc.concat_unknown ha hlast
    | some r =>
      rw [hlast, Option.map_some] at hw
      -- the request is one of the earlier packets, so its answer is never late
      have hmem : r ∈ pkts := mem_of_getLast?_substream (lastRequest_eq_some.mp hlast).1
      obtain ⟨hle, hspan⟩ := hnear r hmem
      rw [outcome_of_waiting ha hw hle hspan]
      exact hc.concat_matched ha hlast

end Counted

theorem ShortTrace.of_concat {pkts : List Diameter} {pkt : Diameter}
    (ht : ShortTrace (pkts ++ [pkt])) :
    ShortTrace pkts ∧ 0 < pkt.timeStamp ∧
      ∀ r ∈ pkts, r.timeStamp ≤ pkt.timeStamp ∧ pkt.timeStamp - r.timeStamp ≤ 40 := by
  obtain ⟨hordered, -, hlast⟩ := List.pairwise_append.mp ht.ordered
  have hmem : pkt ∈ pkts ++ [pkt] := by simp
  have hpre : ∀ r ∈ pkts, r ∈ pkts ++ [pkt] := fun r hr => List.mem_append_left _ hr
  refine ⟨⟨fun r hr => ht.positive r (hpre r hr), hordered, ?_⟩, ht.positive pkt hmem, ?_⟩
  · exact fun r hr r' hr' => ht.span r (hpre r hr) r' (hpre r' hr')
  · exact fun r hr => ⟨hlast r hr pkt (by simp), ht.span r (hpre r hr) pkt hmem⟩

namespace DiameterInterface

def cleared (w : Interface) : DiameterInterface K := { w with stats := .zero, req := ∅ }

def addPkts (s : DiameterInterface K) (pkts : List Diameter) : DiameterInterface K :=
  Machine.run (fun s pkt => (s.addPkt pkt).1) s pkts

end DiameterInterface

theorem counted_of_shortTrace (w : Interface) {pkts : List Diameter} (ht : ShortTrace pkts) :
    Counted pkts ((cleared w : DiameterInterface K).addPkts pkts) := by
  induction pkts using List.reverseRecOn with
  | nil =>
    have hnil (k : Nat) (q : Diameter → Bool) : pairs K k q [] = 0 :=
      Finset.sum_eq_zero fun _ _ => rfl
    refine ⟨⟨fun i => (hnil _ _).symm, fun i => (hnil _ _).symm, fun i => ?_, fun i => rfl⟩,
      fun k h => rfl⟩
    rw [hnil]
    rfl
  | append_singleton pkts pkt ih =>
    obtain ⟨hpre, hpos, hnear⟩ := ht.of_concat
    rw [addPkts, Machine.run_concat]
    exact (ih hpre).concat hpos hnear

theorem pairs_succeeded_add_failed (k : Nat) (pkts : List Diameter) :
    pairs K k Diameter.succeeded pkts + pairs K k (fun pkt => !pkt.succeeded) pkts =
      pairs K k (fun _ => true) pkts := by
  simp only [pairs, ← Finset.sum_add_distrib, adjacent_and_add_adjacent_and_not, Bool.and_true]

structure PairsCounted (pkts : List Diameter) (s : DiameterInterface K) : Prop
    extends PairCounts pkts s where
  answered : ∀ i, s.stats.succCount i + s.stats.failCount i =
    pairs K (K.typeAt i) (fun _ => true) pkts
  req : ∀ k h ts, (s.req.get? k h = some ts ∧ 0 < ts) ↔
    ∃ pkt, (substream (K.hopOf k) h pkts).getLast? = some pkt ∧ pkt.request = 1 ∧
      pkt.timeStamp = ts

/-- In a short trace `addPkt` counts the requests that are immediately followed by an
answer among the packets with their type and hop. -/
theorem pairsCounted_of_shortTrace (w : Interface) {pkts : List Diameter} (ht : ShortTrace pkts) :
    PairsCounted pkts ((cleared w : DiameterInterface K).addPkts pkts) := by
  have hc : Counted pkts ((cleared w : DiameterInterface K).addPkts pkts) :=
    counted_of_shortTrace w ht
  refine ⟨hc.toPairCounts, fun i => ?_, fun k h ts => ?_⟩
  · rw [hc.succCount, hc.failCount, pairs_succeeded_add_failed]
  · have hw := hc.waiting k h
    constructor
    · rintro ⟨hget, hpos⟩
      rw [waiting_eq_some.mpr ⟨hget, hpos.ne'⟩] at hw
      obtain ⟨pkt, hlast, hts⟩ := Option.map_eq_some_iff.mp hw.symm
      obtain ⟨hsub, hr⟩ := lastRequest_eq_some.mp hlast
      exact ⟨pkt, hsub, hr, hts⟩
    · rintro ⟨pkt, hsub, hr, rfl⟩
      rw [lastRequest_eq_some.mpr ⟨hsub, hr⟩, Option.map_some] at hw
      exact ⟨(waiting_eq_some.mp hw).1, ht.positive pkt (mem_of_getLast?_substream hsub)⟩

theorem pairsCounted_of_repeated :
    let pkts := [gxRequest 7 25, gxRequest 7 26, gxAnswer 7 27, gxAnswer 7 28, gxRequest 8 65]
    ShortTrace pkts ∧ PairsCounted pkts ((cleared ⟨20, 30⟩ : GxInterface).addPkts pkts) := by
  intro pkts
  have ht : ShortTrace pkts := ⟨by decide +kernel, by decide +kernel, by decide +kernel⟩
  exact ⟨ht, pairsCounted_of_shortTrace _ ht⟩

end AnalysePcap
