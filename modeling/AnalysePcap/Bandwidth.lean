import AnalysePcap.Run
import AnalysePcap.Totals

/-! The interval of `displayStats`. It is opened by the first packet that passes the time
check, with an end of 0 as the mark that it is not open, and every flow object divides by
the length of its own copy. -/

namespace AnalysePcap

open Machine

/-- Conversion to `unsigned long`. -/
def ulong (n : Int) : Nat := (n % 2 ^ 64).toNat

/-- `bandWidthCalc` of `protocolTCP` and of `protocolUDP`, `none` where it divides by zero. -/
def Flow.bandWidthCalc (flow : Flow) : Option Nat :=
  let interval := ulong (flow.m_endtime - flow.m_starttime)
  if interval = 0 then none else some (flow.m_totaldata * 8 % 2 ^ 64 / interval)

theorem Flow.bandWidthCalc_eq {flow : Flow} (h : flow.m_endtime - flow.m_starttime = TIMEINT) :
    flow.bandWidthCalc = some (flow.m_totaldata * 8 % 2 ^ 64 / 60) := by
  have hlong : ulong (flow.m_endtime - flow.m_starttime) = 60 := by
    rw [h]
    decide
  simp only [Flow.bandWidthCalc, hlong]
  rfl

namespace DisplayStats

/-- The time in whole seconds that a call gives to `addPkt`, if it gets there. -/
def Call.pktTime? : Call → Option Int
  | .ParsePkt _ pkt => pkt.passes.map fun _ => toInt pkt.seconds
  | .addPkt _ _ _ pktTime => some pktTime

def Call.InTime (c : Call) (b : DisplayStats) : Prop :=
  ∃ pktTime ∈ c.pktTime?, b.curIntStarttime ≤ pktTime

/-- The end of an interval that is opened now is an `int`. -/
def Call.Fits (c : Call) : Prop := ∀ pktTime ∈ c.pktTime?, pktTime ≤ 2 ^ 31 - 1 - TIMEINT

structure IntervalOpen (b : DisplayStats) : Prop where
  start_nonneg : 0 ≤ b.curIntStarttime
  length : b.curIntEndtime = b.curIntStarttime + TIMEINT
  fits : b.curIntEndtime ≤ 2 ^ 31 - 1

theorem IntervalOpen.congr {b b' : DisplayStats} (h : b.IntervalOpen)
    (hstart : b'.curIntStarttime = b.curIntStarttime) (hend : b'.curIntEndtime = b.curIntEndtime) :
    b'.IntervalOpen :=
  ⟨hstart ▸ h.start_nonneg, by rw [hstart, hend, h.length], hend ▸ h.fits⟩

/-- The interval is open or has never been, and all objects have been made with an open
one. -/
structure Timed (b : DisplayStats) : Prop where
  wellKept : b.WellKept
  interval : b.curIntStarttime = 0 ∧ b.curIntEndtime = 0 ∨ b.IntervalOpen
  flows : ∀ flow ∈ b.heap, flow.m_endtime - flow.m_starttime = TIMEINT

theorem timed_initial (ppkt : MPacket) : (initial ppkt).Timed where
  wellKept := wellKept_initial ppkt
  interval := .inl ⟨rfl, rfl⟩
  flows _ h := by cases h

section Step

variable {b : DisplayStats} {pktTime : Int}

theorem Timed.intervalOpen_openInterval (hb : b.Timed) (hin : b.curIntStarttime ≤ pktTime)
    (hfit : pktTime ≤ 2 ^ 31 - 1 - TIMEINT) : (b.openInterval pktTime).IntervalOpen := by
  rcases hb.interval with ⟨hstart, hend⟩ | hopen
  · rw [openInterval, if_pos hend]
    exact ⟨hstart ▸ hin, rfl, by dsimp only; omega⟩
  -- 0 marks an interval that is not open, and the end of an open one is at least `TIMEINT`
  · have hpos : b.curIntEndtime ≠ 0 := by
      have hstart := hopen.start_nonneg
      have hlength := hopen.length
      unfold TIMEINT at hlength
      omega
    rwa [openInterval, if_neg hpos]

theorem mem_heap_fetched {b' : DisplayStats} {t : Transport} {src dst : BitVec 32} {p : Nat}
    (hf : Fetched b t src dst b' p) {flow : Flow} (h : flow ∈ b'.heap) :
    flow ∈ b.heap ∨ flow = Flow.new t.proto b.curIntStarttime b.curIntEndtime := by
  rcases hf.heap with heap | heap
  · exact .inl (heap ▸ h)
  · rw [heap] at h
    simpa using h

theorem forall_mem_modify {α : Type*} {P : α → Prop} {f : α → α} (hf : ∀ a, P a → P (f a))
    {l : List α} (hl : ∀ a ∈ l, P a) (p : Nat) : ∀ a ∈ l.modify p f, P a := by
  induction l generalizing p with
  | nil => simp
  | cons a l ih =>
    rw [List.forall_mem_cons] at hl
    cases p with
    | zero => simpa using ⟨hf a hl.1, hl.2⟩
    | succ p => simpa using ⟨hl.1, ih hl.2 p⟩

/-- A packet in time leaves the interval open, and the object that it makes or finds has a
copy of an open one. -/
theorem Timed.addPkt_inTime (hb : b.Timed) (env : Platform) (locals : Locals) (pkt : TracePacket)
    (type : IPProto) (hin : b.curIntStarttime ≤ pktTime) (hfit : pktTime ≤ 2 ^ 31 - 1 - TIMEINT) :
    (b.addPkt env locals pkt type pktTime).1.Timed ∧
      (b.addPkt env locals pkt type pktTime).1.IntervalOpen := by
  have hopen := hb.intervalOpen_openInterval hin hfit
  have hkept := hb.wellKept.addPkt env locals pkt type pktTime
  have hheap : (b.openInterval pktTime).heap = b.heap := by rw [openInterval_eq]
  cases ht : Transport.ofProto type with
  | none =>
    rw [addPkt_unsupported (not_lt.mpr hin) ht] at hkept ⊢
    exact ⟨⟨hkept, .inr hopen, hheap ▸ hb.flows⟩, hopen⟩
  | some t =>
    obtain rfl := Transport.eq_proto_of_ofProto ht
    obtain ⟨b₁, p, -, hf, hadd⟩ :=
      addPkt_delivered env locals pkt hb.wellKept (not_lt.mpr hin) t
    have hopen₁ : b₁.IntervalOpen := by
      rw [hf.rest]
      exact hopen.congr rfl rfl
    have hflows₁ : ∀ flow ∈ b₁.heap, flow.m_endtime - flow.m_starttime = TIMEINT := by
      intro flow hflow
      rcases mem_heap_fetched hf hflow with hold | rfl
      · exact hb.flows flow (hheap ▸ hold)
      · have hlength := hopen.length
        simp only [Flow.new]
        omega
    have hcounted : ∀ flow ∈ b₁.heap.modify p fun flow => flow.count pkt b.ppkt,
        flow.m_endtime - flow.m_starttime = TIMEINT :=
      forall_mem_modify (f := fun flow => flow.count pkt b.ppkt) (fun _ h => h) hflows₁ p
    rw [hadd] at hkept ⊢
    exact ⟨⟨hkept, .inr (hopen₁.congr rfl rfl), hcounted⟩, hopen₁.congr rfl rfl⟩

theorem Timed.withPpkt (hb : b.Timed) (ppkt : MPacket) : { b with ppkt := ppkt }.Timed where
  wellKept :=
    ⟨hb.wellKept.row_pos, hb.wellKept.stored, hb.wellKept.stored_inj, hb.wellKept.stored_all⟩
  interval := hb.interval.imp id fun h => h.congr rfl rfl
  flows := hb.flows

/-- A call either leaves the interval and the objects alone or passes the time check. -/
theorem next_of_not_inTime (env : Platform) {c : Call} (h : ¬ c.InTime b) :
    ∃ ppkt, b.next env c = { b with ppkt := ppkt } := by
  cases c with
  | addPkt locals ptrpkt prototype pktTime =>
    have hlate : pktTime < b.curIntStarttime := by simpa [Call.InTime, Call.pktTime?] using h
    exact ⟨b.ppkt, by rw [DisplayStats.next, call, addPkt_late hlate]⟩
  | ParsePkt locals pkt =>
    cases hpass : pkt.passes with
    | none =>
      exact ⟨_, by rw [DisplayStats.next, call, ParsePkt_of_none hpass]; exact fillPkt_eq locals b pkt⟩
    | some passed =>
      have hlate : toInt pkt.seconds < b.curIntStarttime := by
        simpa [Call.InTime, Call.pktTime?, hpass] using h
      refine ⟨(b.ppkt.fill pkt passed.1 passed.2).fillPayload locals pkt passed.2, ?_⟩
      rw [DisplayStats.next, call, ParsePkt_of_some hpass]
      rw [addPkt_late (by exact hlate)]

theorem Timed.next_inTime (hb : b.Timed) (env : Platform) {c : Call} (hin : c.InTime b)
    (hfit : c.Fits) : (b.next env c).Timed ∧ (b.next env c).IntervalOpen := by
  obtain ⟨pktTime, htime, hin⟩ := hin
  have hle : pktTime ≤ 2 ^ 31 - 1 - TIMEINT := hfit pktTime htime
  cases c with
  | addPkt locals ptrpkt prototype pktTime' =>
    cases htime
    exact hb.addPkt_inTime env locals ptrpkt prototype hin hle
  | ParsePkt locals pkt =>
    cases hpass : pkt.passes with
    | none => simp [Call.pktTime?, hpass] at htime
    | some passed =>
      obtain rfl : toInt pkt.seconds = pktTime := by simpa [Call.pktTime?, hpass] using htime
      rw [DisplayStats.next, call, ParsePkt_of_some hpass]
      exact (hb.withPpkt _).addPkt_inTime env locals pkt passed.2 hin hle

theorem Timed.next (hb : b.Timed) (env : Platform) {c : Call} (hfit : c.Fits) :
    (b.next env c).Timed ∧ (b.IntervalOpen → (b.next env c).IntervalOpen) := by
  by_cases hin : c.InTime b
  · have hnext := hb.next_inTime env hin hfit
    exact ⟨hnext.1, fun _ => hnext.2⟩
  · obtain ⟨ppkt, hnext⟩ := next_of_not_inTime env hin
    rw [hnext]
    exact ⟨hb.withPpkt ppkt, fun h => h.congr rfl rfl⟩

end Step

section Run

variable (env : Platform) {b : DisplayStats} {calls : List Call}

theorem Timed.run (hb : b.Timed) (hfits : ∀ c ∈ calls, c.Fits) :
    (run (DisplayStats.next env) b calls).Timed ∧
      (b.IntervalOpen → (run (DisplayStats.next env) b calls).IntervalOpen) :=
  run_history (I := fun _ (b' : DisplayStats) => b'.Timed ∧ (b.IntervalOpen → b'.IntervalOpen)) ⟨hb, id⟩
    (fun _ _ hI hfit => ⟨(hI.1.next env hfit).1, fun h => (hI.1.next env hfit).2 (hI.2 h)⟩)
    (along_const_iff.mpr hfits)

end Run

/-- Once a packet has been in time the interval stays open, and no object divides by
anything but its length. -/
theorem interval_open_for_ever (env : Platform) (ppkt : MPacket) (calls : List Call)
    (hfits : ∀ c ∈ calls, c.Fits) :
    (∀ before c after, calls = before ++ c :: after →
        c.InTime (run (DisplayStats.next env) (initial ppkt) before) →
        (run (DisplayStats.next env) (initial ppkt) calls).IntervalOpen) ∧
      ∀ flow ∈ (run (DisplayStats.next env) (initial ppkt) calls).heap,
        flow.m_endtime - flow.m_starttime = TIMEINT ∧
          flow.bandWidthCalc = some (flow.m_totaldata * 8 % 2 ^ 64 / 60) := by
  constructor
  · rintro before c after rfl hin
    rw [List.forall_mem_append, List.forall_mem_cons] at hfits
    have hbefore := ((timed_initial ppkt).run env hfits.1).1
    obtain ⟨htimed, hopen⟩ := hbefore.next_inTime env hin hfits.2.1
    rw [run_append, run_cons]
    exact (htimed.run env hfits.2.2).2 hopen
  · intro flow hflow
    have hlength := ((timed_initial ppkt).run env hfits).1.flows flow hflow
    exact ⟨hlength, Flow.bandWidthCalc_eq hlength⟩

/-- The first packet has a negative time, the second one opens the interval at 0, and the
last one has the largest time that fits. -/
theorem interval_open_for_ever_extremes :
    let pkt := TracePacket.sample (.ip 0x0A000001 0x0A000002) .UDP 53 (fun _ => 0) 0
    let calls : List Call := [.addPkt .zero pkt .UDP (-1), .addPkt .zero pkt .UDP 0,
      .addPkt .zero pkt .TCP (2 ^ 31 - 1 - TIMEINT)]
    let b := run (DisplayStats.next .plain) (initial .zero) calls
    (∀ c ∈ calls, c.Fits) ∧ b.heap.length = 2 ∧ b.curIntStarttime = 0 ∧ b.IntervalOpen ∧
      ∀ flow ∈ b.heap, flow.bandWidthCalc = some (flow.m_totaldata * 8 % 2 ^ 64 / 60) := by
  intro pkt calls b
  have hfits : ∀ c ∈ calls, c.Fits := by
    simp [calls, Call.Fits, Call.pktTime?, TIMEINT]
  obtain ⟨hopen, hflows⟩ := interval_open_for_ever .plain .zero calls hfits
  refine ⟨hfits, by decide +kernel, by decide +kernel, ?_, fun flow hflow => (hflows flow hflow).2⟩
  exact hopen [.addPkt .zero pkt .UDP (-1)] (.addPkt .zero pkt .UDP 0) _ rfl
    ⟨0, rfl, by decide +kernel⟩

end DisplayStats

end AnalysePcap
