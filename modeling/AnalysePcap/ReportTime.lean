import AnalysePcap.Rollover

/-! The time printed in a report. The window moves before the report is printed, so
a report about the packets of one window carries the start of a later one. -/

namespace AnalysePcap

open DiameterInterface

variable {K : InterfaceKind}

/-- Records the start of the window in force for each packet that `addPkt` accepts
since the counters were last cleared. -/
def recordStart (node : Text) (s : DiameterInterface K) (starts : List Nat) (dPkt : Diameter) :
    List Nat :=
  let starts := if RollsOver s dPkt then [] else starts
  if Passed s dPkt ∧ ((prepared node s dPkt).addPkt dPkt).2 = 0 then
    starts ++ [(prepared node s dPkt).startTime]
  else starts

def startsCounted (K : InterfaceKind) (node : Text) (dPkts : List Diameter) : List Nat :=
  (Machine.run (Machine.recorded (driven node) (recordStart node))
    ((initial : DiameterInterface K), []) dPkts).2

theorem startsCounted_concat (K : InterfaceKind) (node : Text) (pre : List Diameter)
    (dPkt : Diameter) : startsCounted K node (pre ++ [dPkt]) =
      recordStart node (runDriver K node pre) (startsCounted K node pre) dPkt := by
  simp only [startsCounted, Machine.run_concat, Machine.recorded, Machine.run_recorded_fst]
  rfl

theorem mem_recordStart {node : Text} {s : DiameterInterface K} {starts : List Nat}
    {dPkt : Diameter} {m : Nat} (hm : m ∈ recordStart node s starts dPkt) :
    m ∈ starts ∧ ¬ RollsOver s dPkt ∨
      Passed s dPkt ∧ m = (s.checkTime dPkt.seconds).1.startTime := by
  have hold : m ∈ (if RollsOver s dPkt then [] else starts) → m ∈ starts ∧ ¬ RollsOver s dPkt := by
    intro h
    split_ifs at h with hr
    · simp at h
    · exact ⟨h, hr⟩
  by_cases hp : Passed s dPkt ∧ ((prepared node s dPkt).addPkt dPkt).2 = 0
  · simp only [recordStart, if_pos hp] at hm
    rcases List.mem_append.mp hm with hm | hm
    · exact .inl (hold hm)
    · rw [List.mem_singleton] at hm
      exact .inr ⟨hp.1, hm.trans (congrArg Interface.startTime (prepared_window node s dPkt))⟩
  · simp only [recordStart, if_neg hp] at hm
    exact .inl (hold hm)

theorem checkTime_length {w : Interface} (hw : w.endTime = w.startTime + 10) (t : Nat) :
    (w.checkTime t).1.endTime = (w.checkTime t).1.startTime + 10 := by
  rcases checkTime_cases w t with ⟨_, h⟩ | ⟨_, _, h⟩ | ⟨_, _, h⟩ | ⟨_, _, h⟩ | ⟨_, _, _, h⟩ <;>
    rw [h] <;> exact hw

theorem startsCounted_le (K : InterfaceKind) (node : Text) (dPkts : List Diameter) :
    ∀ m ∈ startsCounted K node dPkts, m ≤ (runDriver K node dPkts).startTime ∧
      (runDriver K node dPkts).endTime = (runDriver K node dPkts).startTime + 10 := by
  induction dPkts using List.reverseRecOn with
  | nil => simp [startsCounted]
  | append_singleton pre dPkt ih =>
    intro m hm
    have hgrid := (runDriver_timely K node pre).onGrid
    have hw := driven_window node (runDriver K node pre) dPkt
    rw [startsCounted_concat] at hm
    rw [runDriver, Machine.run_concat, ← runDriver, congrArg Interface.startTime hw,
      congrArg Interface.endTime hw]
    rcases mem_recordStart hm with ⟨hm, _⟩ | ⟨hp, rfl⟩
    · obtain ⟨hle, hlen⟩ := ih m hm
      exact ⟨hle.trans (checkTime_mono hgrid _).1, checkTime_length hlen _⟩
    · exact ⟨le_refl _, (passed_bounds hgrid hp).2.2⟩

theorem report_time {s : DiameterInterface K} {node : Text} {dPkt : Diameter} {report : Report K}
    (hr : (s.drive node dPkt).2 = some report) :
    RollsOver s dPkt ∧ report.time = (s.checkTime dPkt.seconds).1.startTime := by
  rcases drive_cases s node dPkt with ⟨_, hd, _⟩ | ⟨_, hd, _⟩ | ⟨h, hd, _⟩
  · simp [hd] at hr
  · simp [hd] at hr
  · rw [hd] at hr
    obtain rfl := Option.some.inj hr
    exact ⟨h, rfl⟩

theorem report_of_rollsOver {s : DiameterInterface K} {dPkt : Diameter} (hr : RollsOver s dPkt)
    (node : Text) : ∃ report, (s.drive node dPkt).2 = some report := by
  rcases drive_cases s node dPkt with ⟨h, _⟩ | ⟨h, _⟩ | ⟨_, hd, _⟩
  · exact absurd (h.symm.trans hr) (by decide)
  · exact absurd (h.symm.trans hr) (by decide)
  · exact ⟨_, by rw [hd]⟩

def CarriesOwnWindow (K : InterfaceKind) (node : Text) (dPkts : List Diameter) : Prop :=
  ∀ pre dPkt post, dPkts = pre ++ dPkt :: post → ∀ report,
    ((runDriver K node pre).drive node dPkt).2 = some report →
      ∀ m ∈ startsCounted K node pre, report.time = m

/-- A report carries the window of its packets only when it counts no packet. -/
theorem carriesOwnWindow_iff (K : InterfaceKind) (node : Text) (dPkts : List Diameter) :
    CarriesOwnWindow K node dPkts ↔
      ∀ pre dPkt post, dPkts = pre ++ dPkt :: post → RollsOver (runDriver K node pre) dPkt →
        startsCounted K node pre = [] := by
  constructor
  · intro hp pre dPkt post he hr
    by_contra hne
    obtain ⟨m, hm⟩ := List.exists_mem_of_ne_nil _ hne
    obtain ⟨report, hreport⟩ := report_of_rollsOver hr node
    have heq := hp pre dPkt post he report hreport m hm
    have htime := (report_time hreport).2
    -- the start moves past every start recorded so far
    have hbounds := rollsOver_bounds (runDriver_timely K node pre).onGrid hr
    obtain ⟨hle, hlen⟩ := startsCounted_le K node pre m hm
    omega
  · intro hempty pre dPkt post he report hreport m hm
    rw [hempty pre dPkt post he (report_time hreport).1] at hm
    simp at hm

theorem report_carries_next_window :
    let dPkts := [gxRequest 1 25, gxRequest 2 31]
    ¬ CarriesOwnWindow .gx [] dPkts ∧ startsCounted .gx [] [gxRequest 1 25] = [20] ∧
      ((runDriver .gx [] [gxRequest 1 25]).drive [] (gxRequest 2 31)).2.map
        (fun report => (report.time, (report.rows ⟨0, by decide⟩).att)) = some (30, 1) := by
  intro dPkts
  have hstarts : startsCounted .gx [] [gxRequest 1 25] = [20] := by decide +kernel
  refine ⟨?_, hstarts, by decide +kernel⟩
  rw [carriesOwnWindow_iff]
  intro hempty
  have hnil := hempty [gxRequest 1 25] (gxRequest 2 31) [] rfl (by decide +kernel)
  rw [hstarts] at hnil
  exact absurd hnil (by decide)

end AnalysePcap
