import AnalysePcap.Attempts

/-! No request is lost under the driver: what is not counted in a report or in
the current counters was overwritten or is still pending. -/

namespace AnalysePcap

open DiameterInterface

variable {K : InterfaceKind}

def reportsOf (node : Text) : DiameterInterface K → List Diameter → List (Report K)
  | _, [] => []
  | s, dPkt :: dPkts => (s.drive node dPkt).2.toList ++ reportsOf node (driven node s dPkt) dPkts

def reported (i : Fin K.size) (reports : List (Report K)) : Nat :=
  (reports.map fun report => (report.rows i).att).sum

theorem reported_append (i : Fin K.size) (rs rs' : List (Report K)) :
    reported i (rs ++ rs') = reported i rs + reported i rs' := by
  simp [reported]

theorem attempts_add_increments {s : DiameterInterface K} (hs : s.Balanced) (i : Fin K.size)
    {c : Call} (hc : c ≠ .clearStats) :
    (exec s c).stats.attempts i = s.stats.attempts i + increments i s c := by
  rw [increments_eq hs]
  cases c with
  | checkTime newTime => rfl
  | clearStats => exact absurd rfl hc
  | addPkt pkt =>
    rw [exec, addPkt_fst]
    exact attempts_after i s pkt
  | printStats node => exact (sweep_timedOut hs.keys i).1

theorem reported_drive {s : DiameterInterface K} (hs : s.Balanced) (node : Text) (dPkt : Diameter)
    (i : Fin K.size) :
    reported i (s.drive node dPkt).2.toList + (driven node s dPkt).stats.attempts i =
      s.stats.attempts i + Machine.tally exec (increments i) s (driverCalls s node dPkt) := by
  have hb := Balanced.exec hs (.checkTime dPkt.seconds)
  have hcheck := attempts_add_increments hs i (c := .checkTime dPkt.seconds) (by simp)
  rcases drive_cases s node dPkt with ⟨_, hd, hc⟩ | ⟨_, hd, hc⟩ | ⟨_, hd, hc⟩
  · rw [driven, hd, hc, hcheck]
    simp [reported, Machine.tally]
  · have hadd := attempts_add_increments hb i (c := .addPkt dPkt) (by simp)
    rw [driven, hd, hc, hadd, hcheck]
    simp [reported, Machine.tally, Nat.add_assoc]
  · have hb' := Balanced.exec hb (.printStats node)
    have hprint := attempts_add_increments hb i (c := .printStats node) (by simp)
    have hadd := attempts_add_increments (Balanced.exec hb' .clearStats) i (c := .addPkt dPkt)
      (by simp)
    -- the report holds the counters after the sweep, and the next count starts from zero
    have hrow : ((((exec s (.checkTime dPkt.seconds)).printStats node).2).rows i).att =
        (exec (exec s (.checkTime dPkt.seconds)) (.printStats node)).stats.attempts i := rfl
    have hzero : (exec (exec (exec s (.checkTime dPkt.seconds)) (.printStats node))
        .clearStats).stats.attempts i = 0 := rfl
    rw [driven, hd, hc, hadd, hzero]
    simp only [reported, Option.toList_some, List.map_cons, List.map_nil, List.sum_cons,
      List.sum_nil, hrow, hprint, hcheck, Machine.tally]
    simp only [increments]
    omega

theorem reported_driverTrace {s : DiameterInterface K} (hs : s.Balanced) (node : Text)
    (dPkts : List Diameter) (i : Fin K.size) :
    reported i (reportsOf node s dPkts) + (Machine.run (driven node) s dPkts).stats.attempts i =
      s.stats.attempts i + Machine.tally exec (increments i) s (driverTrace node s dPkts) := by
  induction dPkts generalizing s with
  | nil => simp [reportsOf, reported, driverTrace, Machine.tally]
  | cons dPkt dPkts ih =>
    have hstep := reported_drive hs node dPkt i
    have hb : (driven node s dPkt).Balanced := by
      rw [driven, drive_eq_run]
      exact Machine.run_invariant (P := DiameterInterface.Balanced)
        (fun _ c h => Balanced.exec h c) hs _
    have hrest := ih hb
    rw [reportsOf, reported_append, Machine.run_cons, driverTrace, Machine.tally_append,
      ← drive_eq_run]
    show _ = _ + (_ + Machine.tally exec (increments i) (driven node s dPkt) _)
    omega

def attemptsCounted (K : InterfaceKind) (node : Text) (dPkts : List Diameter) (i : Fin K.size) :
    Nat :=
  reported i (reportsOf node (initial : DiameterInterface K) dPkts) +
    (runDriver K node dPkts).stats.attempts i

theorem attemptsCounted_eq (K : InterfaceKind) (node : Text) (dPkts : List Diameter)
    (i : Fin K.size) : attemptsCounted K node dPkts i =
      attemptsOver K i (driverTrace node (initial : DiameterInterface K) dPkts) := by
  have h := reported_driverTrace (balanced_initial (K := K)) node dPkts i
  rw [show (initial : DiameterInterface K).stats.attempts i = 0 from rfl, Nat.zero_add] at h
  exact h

/-- The requests of the type counted at `i` that a later request with the same hop
displaced while they were pending. -/
def overwritten (K : InterfaceKind) (i : Fin K.size) (calls : List Call) : List Nat :=
  (ledger K i calls).displaced

/-- The hops of the requests of the type counted at `i` still in the table. The
zero entries that answers leave behind are not among them. -/
def stillPending (K : InterfaceKind) (i : Fin K.size) (calls : List Call) : List Nat :=
  ((runCalls K calls).req.row (K.typeAt i)).keys.filter fun h =>
    ((ledger K i calls).owner h).isSome

/-- No accepted request is lost uncounted under the driver. -/
theorem requests_le_counted (K : InterfaceKind) (node : Text) (dPkts : List Diameter)
    (i : Fin K.size) :
    let calls := driverTrace node (initial : DiameterInterface K) dPkts
    requests K i calls ≤ attemptsCounted K node dPkts i +
      (overwritten K i calls).length + (stillPending K i calls).length := by
  intro calls
  have hkeys : ∀ h, (ledger K i calls).owner h ≠ none →
      h ∈ ((runCalls K calls).req.row (K.typeAt i)).keys := by
    intro h ho
    obtain ⟨ts, hts⟩ := Option.ne_none_iff_exists'.mp (ledger_filed K i calls h ho)
    exact NestedTable.mem_row_iff.mpr ⟨ts, hts⟩
  have hcover := (ledger_covers K i calls).issued_le hkeys
  have hcounted : (ledger K i calls).counted.length ≤ attemptsCounted K node dPkts i := by
    rw [attemptsCounted_eq]
    exact ledger_counted_le K i calls
  rw [ledger_issued] at hcover
  unfold overwritten stillPending
  omega

end AnalysePcap
