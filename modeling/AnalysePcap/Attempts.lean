import Mathlib.Algebra.BigOperators.Fin
import Mathlib.Algebra.Order.BigOperators.Group.Finset
import AnalysePcap.Ledger
import AnalysePcap.Origin
import AnalysePcap.SweepLoops

/-! Attempts against requests. For one message type the table of pending requests
is a row of entries, and a call does one of six things to it. Over a whole run
these events are entered in a ledger with a ticket for every accepted request. -/

namespace AnalysePcap

open DiameterInterface

variable {K : InterfaceKind}

/-- What a call does to the row of one message type. `created` is the zero entry
that the lookup of an answer leaves behind. -/
inductive RowEvent where
  | idle
  | stored (h : Nat) (ts : ℚ)
  | created (h : Nat)
  | late (h : Nat)
  | answered (h : Nat)
  | swept (hs : List Nat)

namespace RowEvent

def row (r : Nat → Option ℚ) : RowEvent → Nat → Option ℚ
  | .idle => r
  | .stored h ts => Function.update r h (some ts)
  | .created h => Function.update r h (some 0)
  | .late _ => r
  | .answered h => Function.update r h none
  | .swept hs => fun h => if h ∈ hs then none else r h

def attempts : RowEvent → Nat
  | .late _ => 1
  | .answered _ => 1
  | .swept hs => hs.length
  | _ => 0

def requests : RowEvent → Nat
  | .stored _ _ => 1
  | _ => 0

def enter (l : Ledger Nat) : RowEvent → Ledger Nat
  | .stored h _ => l.issue h
  | .late h => l.count h
  | .answered h => l.settle h
  | .swept hs => l.settleAll hs
  | _ => l

theorem enter_issued (l : Ledger Nat) (e : RowEvent) :
    (e.enter l).issued = l.issued + e.requests := by
  cases e <;> simp [enter, requests, Ledger.issue, Ledger.count, Ledger.settle]

theorem enter_covers {l : Ledger Nat} (hl : l.Covers) (e : RowEvent) : (e.enter l).Covers := by
  cases e with
  | idle => exact hl
  | stored h ts => exact hl.issue h
  | created h => exact hl
  | late h => exact hl.count h
  | answered h => exact hl.settle h
  | swept hs => exact hl.settleAll hs

theorem enter_once {l : Ledger Nat} (hl : l.Once) {e : RowEvent} (he : ∀ h, e ≠ .late h) :
    (e.enter l).Once := by
  cases e with
  | idle => exact hl
  | stored h ts => exact hl.issue h
  | created h => exact hl
  | late h => exact absurd rfl (he h)
  | answered h => exact hl.settle h
  | swept hs => exact hl.settleAll hs

theorem enter_counted_le (l : Ledger Nat) (e : RowEvent) :
    (e.enter l).counted.length ≤ l.counted.length + e.attempts := by
  have hone (h : Nat) := Ledger.length_toList_le (l.owner h)
  cases e with
  | idle => exact Nat.le_refl _
  | stored h ts => exact Nat.le_refl _
  | created h => exact Nat.le_refl _
  | late h =>
    have := hone h
    simp only [enter, Ledger.count, attempts, List.length_append]
    omega
  | answered h =>
    have := hone h
    simp only [enter, Ledger.settle, attempts, List.length_append]
    omega
  | swept hs => exact l.settleAll_counted_le hs

def Sound (r : Nat → Option ℚ) : RowEvent → Prop
  | .late h => r h ≠ none
  | .answered h => r h ≠ none
  | .swept hs => hs.Nodup ∧ ∀ h ∈ hs, r h ≠ none
  | _ => True

theorem enter_counted_eq {l : Ledger Nat} {r : Nat → Option ℚ}
    (hrow : ∀ h, r h ≠ none → l.owner h ≠ none) {e : RowEvent} (he : e.Sound r) :
    (e.enter l).counted.length = l.counted.length + e.attempts := by
  have hone (h : Nat) (hr : r h ≠ none) : (l.owner h).toList.length = 1 := by
    obtain ⟨j, hj⟩ := Option.ne_none_iff_exists'.mp (hrow h hr)
    simp [hj]
  cases e with
  | idle => rfl
  | stored h ts => rfl
  | created h => rfl
  | late h =>
    simp only [enter, Ledger.count, attempts, List.length_append, hone h he]
    omega
  | answered h =>
    simp only [enter, Ledger.settle, attempts, List.length_append, hone h he]
    omega
  | swept hs => exact l.settleAll_counted_eq hs he.1 fun h hm => hrow h (he.2 h hm)

theorem filed_enter {l : Ledger Nat} {r : Nat → Option ℚ}
    (hfiled : ∀ h, l.owner h ≠ none → r h ≠ none) (e : RowEvent) (h : Nat) :
    (e.enter l).owner h ≠ none → e.row r h ≠ none := by
  have hh := hfiled h
  cases e with
  | idle => exact hh
  | late h' => exact hh
  | stored h' ts =>
    by_cases he : h = h' <;> simp_all [enter, row, Ledger.issue]
  | created h' =>
    by_cases he : h = h' <;> simp_all [enter, row]
  | answered h' =>
    by_cases he : h = h' <;> simp_all [enter, row, Ledger.settle]
  | swept hs =>
    by_cases he : h ∈ hs <;> simp_all [enter, row, Ledger.settleAll_owner]

theorem owned_enter {l : Ledger Nat} {r : Nat → Option ℚ}
    (howned : ∀ h, r h ≠ none → l.owner h ≠ none) {e : RowEvent} (he : ∀ h, e ≠ .created h)
    (h : Nat) : e.row r h ≠ none → (e.enter l).owner h ≠ none := by
  have hh := howned h
  cases e with
  | idle => exact hh
  | late h' => exact hh
  | created h' => exact absurd rfl (he h')
  | stored h' ts =>
    by_cases he : h = h' <;> simp_all [enter, row, Ledger.issue]
  | answered h' =>
    by_cases he : h = h' <;> simp_all [enter, row, Ledger.settle]
  | swept hs =>
    by_cases he : h ∈ hs <;> simp_all [enter, row, Ledger.settleAll_owner]

end RowEvent

def Outcome.rowEvent (i : Fin K.size) (s : DiameterInterface K) : Outcome → RowEvent
  | .rejected => .idle
  | .stored k h ts => if k = K.typeAt i then .stored h ts else .idle
  | .unknown k h => if k = K.typeAt i ∧ s.req.get? k h = none then .created h else .idle
  | .late k h _ => if k = K.typeAt i then .late h else .idle
  | .matched k h _ => if k = K.typeAt i then .answered h else .idle

def rowEvent (i : Fin K.size) (s : DiameterInterface K) : Call → RowEvent
  | .addPkt pkt => (outcome s pkt).rowEvent i s
  | .printStats _ =>
    .swept (NestedTable.selected (expired s.endTime) (s.req.row (K.typeAt i)))
  | _ => .idle

def DiameterInterface.rowOf (s : DiameterInterface K) (i : Fin K.size) (h : Nat) : Option ℚ :=
  s.req.get? (K.typeAt i) h

theorem rowOf_after (i : Fin K.size) (s : DiameterInterface K) (pkt : Diameter) (o : Outcome)
    (h : Nat) : (s.after pkt o).rowOf i h = (o.rowEvent i s).row (s.rowOf i) h := by
  rw [rowOf, get?_after]
  cases o with
  | rejected => rfl
  | stored k h' ts =>
    by_cases hk : k = K.typeAt i
    · by_cases hh : h = h' <;> simp [Outcome.rowEvent, RowEvent.row, rowOf, hk, hh]
    · simp [Outcome.rowEvent, RowEvent.row, rowOf, hk, Ne.symm hk]
  | unknown k h' =>
    by_cases hk : k = K.typeAt i
    · subst hk
      cases hg : s.req.get? (K.typeAt i) h' with
      | none => by_cases hh : h = h' <;> simp [Outcome.rowEvent, RowEvent.row, rowOf, hh, hg]
      | some ts => by_cases hh : h = h' <;> simp [Outcome.rowEvent, RowEvent.row, rowOf, hh, hg]
    · simp [Outcome.rowEvent, RowEvent.row, rowOf, hk, Ne.symm hk]
  | late k h' ts =>
    by_cases hk : k = K.typeAt i <;> simp [Outcome.rowEvent, RowEvent.row, hk] <;> rfl
  | matched k h' ts =>
    by_cases hk : k = K.typeAt i
    · by_cases hh : h = h' <;> simp [Outcome.rowEvent, RowEvent.row, rowOf, hk, hh]
    · simp [Outcome.rowEvent, RowEvent.row, rowOf, hk, Ne.symm hk]

theorem rowOf_exec (i : Fin K.size) (s : DiameterInterface K) (c : Call) (h : Nat) :
    (exec s c).rowOf i h = (rowEvent i s c).row (s.rowOf i) h := by
  cases c with
  | checkTime newTime => rfl
  | clearStats => rfl
  | addPkt pkt =>
    rw [exec, addPkt_fst]
    exact rowOf_after i s pkt _ h
  | printStats node =>
    show (NestedTable.sweep _ _ s.req s.stats).1.get? (K.typeAt i) h = _
    rw [NestedTable.get?_sweep]
    simp only [rowEvent, RowEvent.row, NestedTable.mem_selected, rowOf]
    cases s.req.get? (K.typeAt i) h with
    | none => simp
    | some ts => cases he : expired s.endTime ts <;> simp [he]

def increments (i : Fin K.size) (s : DiameterInterface K) : Call → Nat
  | .clearStats => 0
  | c => (exec s c).stats.attempts i - s.stats.attempts i

theorem attempts_after (i : Fin K.size) (s : DiameterInterface K) (pkt : Diameter) :
    (s.after pkt (outcome s pkt)).stats.attempts i =
      s.stats.attempts i + ((outcome s pkt).rowEvent i s).attempts := by
  -- an increment is seen at `i` only if it belongs to the type counted there
  have hadd {k : Nat} (hk : K.IsType k) (n : Fin K.size → Nat) (e : RowEvent)
      (he : e.attempts = 1) : addAt n (K.index k) 1 i =
        n i + (if k = K.typeAt i then e else .idle).attempts := by
    rw [addAt_index hk, apply_ite RowEvent.attempts, he]
    rfl
  cases ho : outcome s pkt with
  | rejected => rfl
  | stored k h ts => by_cases hk : k = K.typeAt i <;> simp [Outcome.rowEvent, hk] <;> rfl
  | unknown k h =>
    show s.stats.attempts i = _
    simp only [Outcome.rowEvent]
    split_ifs <;> rfl
  | late k h ts =>
    have hk := InterfaceKind.isType_of_msgKey (outcome_late ho).1.1
    exact hadd hk _ (.late h) rfl
  | matched k h ts =>
    have hk := InterfaceKind.isType_of_msgKey (outcome_matched ho).1.1
    show (Stats.answered _ _ _ _).attempts i = _
    rw [Stats.answered_attempts]
    exact hadd hk _ (.answered h) rfl

theorem increments_eq {s : DiameterInterface K} (hs : s.Balanced) (i : Fin K.size) (c : Call) :
    increments i s c = (rowEvent i s c).attempts := by
  cases c with
  | checkTime newTime => exact Nat.sub_self _
  | clearStats => rfl
  | addPkt pkt =>
    simp only [increments, exec, addPkt_fst, attempts_after, rowEvent]
    omega
  | printStats node =>
    have hsweep := (sweep_timedOut hs.keys i).1
    simp only [increments, exec, printStats, rowEvent, RowEvent.attempts, hsweep]
    omega

theorem rowEvent_sound (i : Fin K.size) (s : DiameterInterface K) (c : Call) :
    (rowEvent i s c).Sound (s.rowOf i) := by
  cases c with
  | checkTime newTime => trivial
  | clearStats => trivial
  | printStats node =>
    refine ⟨NestedTable.selected_nodup _ _, fun h hm => ?_⟩
    obtain ⟨ts, hts, _⟩ := NestedTable.mem_selected.mp hm
    simp [rowOf, hts]
  | addPkt pkt =>
    simp only [rowEvent]
    cases ho : outcome s pkt with
    | rejected => trivial
    | stored k h ts => simp only [Outcome.rowEvent]; split_ifs <;> trivial
    | unknown k h => simp only [Outcome.rowEvent]; split_ifs <;> trivial
    | late k h ts =>
      have hget := (outcome_late ho).2.1
      simp only [Outcome.rowEvent]
      split_ifs with hk
      · subst hk
        simp [RowEvent.Sound, rowOf, hget]
      · trivial
    | matched k h ts =>
      have hget := (outcome_matched ho).2.1
      simp only [Outcome.rowEvent]
      split_ifs with hk
      · subst hk
        simp [RowEvent.Sound, rowOf, hget]
      · trivial

theorem Outcome.eq_of_rowEvent_created {i : Fin K.size} {s : DiameterInterface K} {o : Outcome}
    {h : Nat} (he : o.rowEvent i s = .created h) :
    o = .unknown (K.typeAt i) h ∧ s.req.get? (K.typeAt i) h = none := by
  cases o with
  | unknown k h' =>
    simp only [Outcome.rowEvent] at he
    split_ifs at he with hk
    obtain rfl := RowEvent.created.inj he
    exact ⟨by rw [hk.1], hk.1 ▸ hk.2⟩
  | rejected => simp [Outcome.rowEvent] at he
  | stored k h' ts => simp [Outcome.rowEvent, ite_eq_iff] at he
  | late k h' ts => simp [Outcome.rowEvent, ite_eq_iff] at he
  | matched k h' ts => simp [Outcome.rowEvent, ite_eq_iff] at he

theorem Outcome.eq_of_rowEvent_late {i : Fin K.size} {s : DiameterInterface K} {o : Outcome}
    {h : Nat} (he : o.rowEvent i s = .late h) : ∃ ts, o = .late (K.typeAt i) h ts := by
  cases o with
  | late k h' ts =>
    simp only [Outcome.rowEvent] at he
    split_ifs at he with hk
    obtain rfl := RowEvent.late.inj he
    exact ⟨ts, by rw [hk]⟩
  | rejected => simp [Outcome.rowEvent] at he
  | stored k h' ts => simp [Outcome.rowEvent, ite_eq_iff] at he
  | unknown k h' => simp [Outcome.rowEvent, ite_eq_iff] at he
  | matched k h' ts => simp [Outcome.rowEvent, ite_eq_iff] at he

theorem rowEvent_ne_created {s : DiameterInterface K} {c : Call} (hf : AnswerFound s c)
    (i : Fin K.size) (h : Nat) : rowEvent i s c ≠ .created h := by
  intro he
  cases c with
  | addPkt pkt =>
    obtain ⟨ho, hnone⟩ := Outcome.eq_of_rowEvent_created he
    exact answerFound_get? hf (outcome_unknown ho).1 hnone
  | _ => simp [rowEvent] at he

def InRange (s : DiameterInterface K) : Call → Prop
  | .addPkt pkt => ∀ k ∈ K.msgKey pkt, pkt.request = 0 → ∀ ts ∈ s.req.get? k pkt.hopKey,
      ts ≠ 0 → ts ≤ pkt.timeStamp ∧ pkt.timeStamp ≤ ts + 40
  | _ => True

instance (s : DiameterInterface K) : (c : Call) → Decidable (InRange s c)
  | .addPkt _ => inferInstanceAs (Decidable (∀ k ∈ _, _ → ∀ ts ∈ _, _ → _))
  | .checkTime _ => inferInstanceAs (Decidable True)
  | .printStats _ => inferInstanceAs (Decidable True)
  | .clearStats => inferInstanceAs (Decidable True)

theorem rowEvent_ne_late {s : DiameterInterface K} {c : Call} (hf : InRange s c)
    (i : Fin K.size) (h : Nat) : rowEvent i s c ≠ .late h := by
  intro he
  cases c with
  | addPkt pkt =>
    obtain ⟨ts, ho⟩ := Outcome.eq_of_rowEvent_late he
    obtain ⟨⟨hk, hr, rfl⟩, hget, hne, hrtt⟩ := outcome_late ho
    have hin := hf _ hk hr ts hget hne
    rcases hrtt with hrtt | hrtt <;> linarith [hin.1, hin.2]
  | _ => simp [rowEvent] at he

def isRequestOf (K : InterfaceKind) (i : Fin K.size) : Call → Bool
  | .addPkt pkt => decide (K.msgKey pkt = some (K.typeAt i) ∧ pkt.request = 1)
  | _ => false

theorem rowEvent_requests (i : Fin K.size) (s : DiameterInterface K) (c : Call) :
    (rowEvent i s c).requests = if isRequestOf K i c then 1 else 0 := by
  cases c with
  | checkTime newTime => rfl
  | clearStats => rfl
  | printStats node => rfl
  | addPkt pkt =>
    simp only [rowEvent, isRequestOf, decide_eq_true_eq]
    split_ifs with hp
    · have hr : IsRequest K pkt (K.typeAt i) pkt.hopKey := ⟨hp.1, hp.2, rfl⟩
      simp [outcome_of_request hr, Outcome.rowEvent, RowEvent.requests]
    · cases ho : outcome s pkt with
      | stored k h ts =>
        have hr := (outcome_stored ho).1
        have hk : k ≠ K.typeAt i := fun he => hp ⟨he ▸ hr.1, hr.2.1⟩
        simp [Outcome.rowEvent, hk, RowEvent.requests]
      | rejected => rfl
      | unknown k h => simp only [Outcome.rowEvent]; split_ifs <;> rfl
      | late k h ts => simp only [Outcome.rowEvent]; split_ifs <;> rfl
      | matched k h ts => simp only [Outcome.rowEvent]; split_ifs <;> rfl

def requests (K : InterfaceKind) (i : Fin K.size) (calls : List Call) : Nat :=
  calls.countP (isRequestOf K i)

/-- The increments of `attempts[i]` over a whole run, before and after every
`clearStats`. -/
def attemptsOver (K : InterfaceKind) (i : Fin K.size) (calls : List Call) : Nat :=
  Machine.tally exec (increments i) (initial : DiameterInterface K) calls

/-- The ledger of a run. Every accepted request has a ticket. -/
def ledger (K : InterfaceKind) (i : Fin K.size) (calls : List Call) : Ledger Nat :=
  (Machine.run (Machine.recorded exec fun s l c => (rowEvent i s c).enter l)
    ((initial : DiameterInterface K), Ledger.empty) calls).2

theorem ledger_concat (K : InterfaceKind) (i : Fin K.size) (calls : List Call) (c : Call) :
    ledger K i (calls ++ [c]) = (rowEvent i (runCalls K calls) c).enter (ledger K i calls) := by
  simp only [ledger, Machine.run_concat, Machine.recorded, Machine.run_recorded_fst]
  rfl

theorem attemptsOver_concat (K : InterfaceKind) (i : Fin K.size) (calls : List Call) (c : Call) :
    attemptsOver K i (calls ++ [c]) =
      attemptsOver K i calls + (rowEvent i (runCalls K calls) c).attempts := by
  rw [attemptsOver, Machine.tally_concat, ← increments_eq (runCalls_balanced K calls)]
  rfl

theorem rowOf_concat (K : InterfaceKind) (i : Fin K.size) (calls : List Call) (c : Call) (h : Nat) :
    (runCalls K (calls ++ [c])).rowOf i h =
      (rowEvent i (runCalls K calls) c).row ((runCalls K calls).rowOf i) h := by
  rw [runCalls, Machine.run_concat]
  exact rowOf_exec i _ c h

theorem ledger_issued (K : InterfaceKind) (i : Fin K.size) (calls : List Call) :
    (ledger K i calls).issued = requests K i calls := by
  induction calls using List.reverseRecOn with
  | nil => rfl
  | append_singleton calls c ih =>
    rw [ledger_concat, RowEvent.enter_issued, ih, rowEvent_requests, requests, requests,
      List.countP_append, List.countP_singleton]

theorem ledger_covers (K : InterfaceKind) (i : Fin K.size) (calls : List Call) :
    (ledger K i calls).Covers := by
  induction calls using List.reverseRecOn with
  | nil => exact Ledger.covers_empty
  | append_singleton calls c ih =>
    rw [ledger_concat]
    exact RowEvent.enter_covers ih _

theorem ledger_counted_le (K : InterfaceKind) (i : Fin K.size) (calls : List Call) :
    (ledger K i calls).counted.length ≤ attemptsOver K i calls := by
  induction calls using List.reverseRecOn with
  | nil => exact Nat.le_refl _
  | append_singleton calls c ih =>
    have hc := RowEvent.enter_counted_le (ledger K i calls) (rowEvent i (runCalls K calls) c)
    rw [ledger_concat, attemptsOver_concat]
    omega

theorem ledger_filed (K : InterfaceKind) (i : Fin K.size) (calls : List Call) :
    ∀ h, (ledger K i calls).owner h ≠ none → (runCalls K calls).rowOf i h ≠ none := by
  induction calls using List.reverseRecOn with
  | nil => exact fun h ho => absurd rfl ho
  | append_singleton calls c ih =>
    intro h
    rw [ledger_concat, rowOf_concat]
    exact RowEvent.filed_enter ih _ h

theorem ledger_owned {K : InterfaceKind} (i : Fin K.size) {calls : List Call}
    (hf : Machine.Along exec AnswerFound (initial : DiameterInterface K) calls) :
    ∀ h, (runCalls K calls).rowOf i h ≠ none → (ledger K i calls).owner h ≠ none := by
  induction calls using List.reverseRecOn with
  | nil => exact fun h ho => absurd rfl ho
  | append_singleton calls c ih =>
    obtain ⟨hpre, hc⟩ := Machine.along_concat.mp hf
    intro h
    rw [ledger_concat, rowOf_concat]
    exact RowEvent.owned_enter (ih hpre) (rowEvent_ne_created hc i) h

theorem ledger_counted_eq {K : InterfaceKind} (i : Fin K.size) {calls : List Call}
    (hf : Machine.Along exec AnswerFound (initial : DiameterInterface K) calls) :
    (ledger K i calls).counted.length = attemptsOver K i calls := by
  induction calls using List.reverseRecOn with
  | nil => rfl
  | append_singleton calls c ih =>
    have hpre := (Machine.along_concat.mp hf).1
    rw [ledger_concat, attemptsOver_concat, ← ih hpre]
    exact RowEvent.enter_counted_eq (ledger_owned i hpre) (rowEvent_sound i _ c)

theorem ledger_once {K : InterfaceKind} (i : Fin K.size) {calls : List Call}
    (hr : Machine.Along exec InRange (initial : DiameterInterface K) calls) :
    (ledger K i calls).Once := by
  induction calls using List.reverseRecOn with
  | nil => exact Ledger.once_empty
  | append_singleton calls c ih =>
    obtain ⟨hpre, hc⟩ := Machine.along_concat.mp hr
    rw [ledger_concat]
    exact RowEvent.enter_once (ih hpre) (rowEvent_ne_late hc i)

def isRequest (K : InterfaceKind) : Call → Bool
  | .addPkt pkt => decide ((K.msgKey pkt).isSome ∧ pkt.request = 1)
  | _ => false

def accepted (K : InterfaceKind) (calls : List Call) : Nat := calls.countP (isRequest K)

theorem sum_isRequestOf (K : InterfaceKind) (c : Call) :
    ∑ i, (if isRequestOf K i c then 1 else 0) = if isRequest K c then 1 else 0 := by
  cases c with
  | addPkt pkt =>
    cases hk : K.msgKey pkt with
    | none => simp [isRequestOf, isRequest, hk]
    | some k =>
      have hty := InterfaceKind.isType_of_msgKey hk
      have hi (i : Fin K.size) :
          k = K.typeAt i ↔ (⟨K.index k, InterfaceKind.index_lt hty⟩ : Fin _) = i := by
        rw [← index_eq_iff hty, Fin.ext_iff, eq_comm]
      by_cases hr : pkt.request = 1
      · simp [isRequestOf, isRequest, hk, hr, hi]
      · simp [isRequestOf, isRequest, hk, hr]
  | _ => simp [isRequestOf, isRequest]

theorem sum_requests (K : InterfaceKind) (calls : List Call) :
    ∑ i, requests K i calls = accepted K calls := by
  induction calls with
  | nil => simp [requests, accepted]
  | cons c calls ih =>
    simp only [requests, accepted, List.countP_cons] at ih ⊢
    rw [Finset.sum_add_distrib, ih, sum_isRequestOf]

/-- In a run in which every answer finds an entry and no round trip time is out of
range, each request is counted as an attempt at most once. -/
theorem attempts_le_accepted {K : InterfaceKind} {calls : List Call}
    (hf : Machine.Along exec AnswerFound (initial : DiameterInterface K) calls)
    (hr : Machine.Along exec InRange (initial : DiameterInterface K) calls) :
    ∑ i, attemptsOver K i calls ≤ accepted K calls ∧
    ∀ i, attemptsOver K i calls ≤ requests K i calls ∧
      (ledger K i calls).counted.length = attemptsOver K i calls ∧
      (ledger K i calls).counted.Nodup := by
  have hle (i : Fin K.size) : attemptsOver K i calls ≤ requests K i calls := by
    rw [← ledger_counted_eq i hf, ← ledger_issued K i calls]
    exact (ledger_once i hr).counted_le_issued
  refine ⟨?_, fun i => ⟨hle i, ledger_counted_eq i hf, (ledger_once i hr).counted_nodup⟩⟩
  rw [← sum_requests]
  exact Finset.sum_le_sum fun i _ => hle i

theorem attempts_le_accepted_two :
    let calls := driverTrace [] (initial : GxInterface)
      [gxRequest 1 25, gxRequest 2 26, gxAnswer 1 27, gxRequest 3 44]
    Machine.Along exec AnswerFound (initial : GxInterface) calls ∧
      Machine.Along exec InRange (initial : GxInterface) calls ∧
      ∑ i, attemptsOver .gx i calls ≤ accepted .gx calls := by
  intro calls
  have hf : Machine.Along exec AnswerFound (initial : GxInterface) calls := by decide +kernel
  have hr : Machine.Along exec InRange (initial : GxInterface) calls := by decide +kernel
  exact ⟨hf, hr, (attempts_le_accepted hf hr).1⟩

/-- An answer stamped before its request is counted as an attempt, and so is the
next answer, although there was one request. -/
theorem late_answer_counted_twice :
    let calls := driverTrace [] (initial : GxInterface)
      [gxRequest 1 25, gxAnswer 1 24, gxAnswer 1 26]
    Machine.Along exec AnswerFound (initial : GxInterface) calls ∧
      accepted .gx calls = 1 ∧ ∑ i, attemptsOver .gx i calls = 2 := by
  decide +kernel

end AnalysePcap
