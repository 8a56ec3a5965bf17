import AnalysePcap.Window

/-! The counters of an interface agree with each other after every sequence of
member function calls, and the table of pending requests holds no message type
that would index a statistics array out of bounds. -/

namespace AnalysePcap

open DiameterInterface

structure Stats.Balanced {n : Nat} (st : Stats n) : Prop where
  attempts : ∀ i, st.attempts i = st.succCount i + st.failCount i + st.timeoutCount i
  samples : ∀ i, st.latencySize i = st.succCount i + st.failCount i
  latency_nonneg : ∀ i, 0 ≤ st.latency i
  latency_le : ∀ i, st.latency i ≤ 40 * st.latencySize i

namespace Stats.Balanced

variable {n : Nat} {st : Stats n}

theorem zero : (Stats.zero : Stats n).Balanced :=
  ⟨fun _ => rfl, fun _ => rfl, fun _ => le_refl _, fun _ => by simp [Stats.zero]⟩

theorem unknown (h : st.Balanced) (i : Nat) : (st.unknown i).Balanced :=
  ⟨h.attempts, h.samples, h.latency_nonneg, h.latency_le⟩

theorem timeOut (h : st.Balanced) (i : Nat) : (st.timeOut i).Balanced := by
  refine ⟨fun j => ?_, h.samples, h.latency_nonneg, h.latency_le⟩
  have hj := h.attempts j
  simp only [Stats.timeOut, addAt]
  split_ifs <;> omega

theorem answered (h : st.Balanced) (i : Nat) {rtt : ℚ} (hlow : 0 ≤ rtt) (hhigh : rtt ≤ 40)
    (resCode : Int) : (st.answered i rtt resCode).Balanced := by
  have hsum (j : Fin n) := st.answered_succ_add_fail i rtt resCode j
  refine ⟨fun j => ?_, fun j => ?_, fun j => ?_, fun j => ?_⟩
  · have hj := h.attempts j
    rw [hsum j]
    simp only [Stats.answered_attempts, Stats.answered_timeoutCount, addAt]
    split_ifs <;> omega
  · have hj := h.samples j
    rw [hsum j]
    simp only [Stats.answered_latencySize, addAt]
    split_ifs <;> omega
  · have hj := h.latency_nonneg j
    simp only [Stats.answered_latency, addAt]
    split_ifs <;> linarith
  · have hj := h.latency_le j
    simp only [Stats.answered_latency, Stats.answered_latencySize, addAt]
    split_ifs
    · push_cast
      linarith
    · exact hj

end Stats.Balanced

variable {K : InterfaceKind}

structure DiameterInterface.Balanced (s : DiameterInterface K) : Prop where
  stats : s.stats.Balanced
  keys : ∀ k ∈ s.req, K.IsType k

theorem balanced_initial : (initial : DiameterInterface K).Balanced :=
  ⟨Stats.Balanced.zero, fun k hk => absurd hk (AList.notMem_empty k)⟩

theorem Balanced.addPkt {s : DiameterInterface K} (h : s.Balanced) (pkt : Diameter) :
    (s.addPkt pkt).1.Balanced := by
  rw [addPkt_fst]
  cases ho : outcome s pkt with
  | rejected => exact h
  | stored k hop ts =>
    have hk := InterfaceKind.isType_of_msgKey (outcome_stored ho).1.1
    refine ⟨h.stats, fun k' hk' => ?_⟩
    rcases NestedTable.mem_set.mp hk' with rfl | hk'
    · exact hk
    · exact h.keys k' hk'
  | unknown k hop =>
    have hk := InterfaceKind.isType_of_msgKey (outcome_unknown ho).1.1
    refine ⟨h.stats.unknown _, fun k' hk' => ?_⟩
    rcases NestedTable.mem_fetch_iff.mp hk' with rfl | hk'
    · exact hk
    · exact h.keys k' hk'
  | late k hop ts => exact ⟨h.stats.timeOut _, h.keys⟩
  | matched k hop ts =>
    obtain ⟨ha, _, _, hlow, hhigh⟩ := outcome_matched ho
    have hk := InterfaceKind.isType_of_msgKey ha.1
    refine ⟨h.stats.answered _ hlow hhigh _, fun k' hk' => ?_⟩
    rcases NestedTable.mem_remove.mp hk' with rfl | hk'
    · exact hk
    · exact h.keys k' hk'

theorem Balanced.sweep {s : DiameterInterface K} (h : s.Balanced) : s.sweep.Balanced :=
  ⟨NestedTable.sweep_invariant (P := Stats.Balanced) (fun k _ _ hst => hst.timeOut (K.index k))
    h.stats, fun k hk => h.keys k (NestedTable.mem_sweep.mp hk)⟩

theorem Balanced.exec {s : DiameterInterface K} (h : s.Balanced) (c : Call) :
    (exec s c).Balanced := by
  cases c with
  | checkTime newTime => exact ⟨h.stats, h.keys⟩
  | addPkt pkt => exact Balanced.addPkt h pkt
  | printStats node => exact Balanced.sweep h
  | clearStats => exact ⟨Stats.Balanced.zero, h.keys⟩

theorem runCalls_balanced (K : InterfaceKind) (calls : List Call) : (runCalls K calls).Balanced :=
  Machine.run_invariant (P := DiameterInterface.Balanced) (fun _ c h => Balanced.exec h c)
    balanced_initial calls

theorem toInt_eq_floor {q : ℚ} (hq : 0 ≤ q) : toInt q = ⌊q⌋ := by
  rw [toInt, Int.tdiv_eq_ediv_of_nonneg (Rat.num_nonneg.mpr hq), Rat.floor_def']

theorem Stats.Balanced.mean_le {n : Nat} {st : Stats n} (h : st.Balanced) {i : Fin n}
    (hpos : 0 < st.latencySize i) :
    0 ≤ toInt (st.latency i / st.latencySize i * 1000) ∧
      toInt (st.latency i / st.latencySize i * 1000) ≤ 40000 := by
  have hsize : (0 : ℚ) < st.latencySize i := by exact_mod_cast hpos
  have hlow : 0 ≤ st.latency i / st.latencySize i * 1000 := by
    have := div_nonneg (h.latency_nonneg i) hsize.le
    linarith
  have hmean : st.latency i / st.latencySize i ≤ 40 := (div_le_iff₀ hsize).mpr (h.latency_le i)
  rw [toInt_eq_floor hlow]
  refine ⟨Int.floor_nonneg.mpr hlow, ?_⟩
  have hfloor := Int.floor_le (st.latency i / st.latencySize i * 1000)
  have hle : ((⌊st.latency i / st.latencySize i * 1000⌋ : Int) : ℚ) ≤ (40000 : Int) := by
    push_cast
    linarith
  exact_mod_cast hle

/-- After any sequence of calls on a new object of any of the interface classes
the counters agree, every array index used by `addPkt` and by the sweep is in
bounds, and a latency that is printed lies between 0 and 40000 milliseconds. -/
theorem counters_agree (K : InterfaceKind) (calls : List Call) :
    let s := runCalls K calls
    (∀ i, s.stats.attempts i =
        s.stats.succCount i + s.stats.failCount i + s.stats.timeoutCount i ∧
      s.stats.latencySize i = s.stats.succCount i + s.stats.failCount i ∧
      0 ≤ s.stats.latency i ∧ s.stats.latency i ≤ 40 * s.stats.latencySize i) ∧
    (∀ k ∈ s.req, K.IsType k ∧ K.index k < K.size) ∧
    (∀ pkt k, K.msgKey pkt = some k → K.IsType k ∧ K.index k < K.size) ∧
    (∀ node i v, ((s.printStats node).2.rows i).laty = some v → 0 ≤ v ∧ v ≤ 40000) := by
  intro s
  have h : s.Balanced := runCalls_balanced K calls
  refine ⟨fun i => ⟨h.stats.attempts i, h.stats.samples i, h.stats.latency_nonneg i,
    h.stats.latency_le i⟩, fun k hk => ⟨h.keys k hk, InterfaceKind.index_lt (h.keys k hk)⟩,
    fun pkt k hk => ⟨InterfaceKind.isType_of_msgKey hk,
      InterfaceKind.index_lt (InterfaceKind.isType_of_msgKey hk)⟩, ?_⟩
  intro node i v hv
  have hs := Balanced.sweep h
  simp only [printStats, DiameterInterface.row, Option.ite_none_right_eq_some,
    Option.some.injEq] at hv
  obtain ⟨hpos, rfl⟩ := hv
  exact hs.stats.mean_le hpos

end AnalysePcap
