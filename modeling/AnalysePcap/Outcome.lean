import AnalysePcap.Interface
import AnalysePcap.Run

/-! What one call of `addPkt` can do, and the machine whose inputs are calls of
the member functions of an interface in any order. -/

namespace AnalysePcap

open DiameterInterface

variable {K : InterfaceKind}

/-- What `addPkt` does with a packet. `late` is the branch for a round trip time
out of range. -/
inductive Outcome where
  | rejected
  | stored (k h : Nat) (ts : ℚ)
  | unknown (k h : Nat)
  | late (k h : Nat) (ts : ℚ)
  | matched (k h : Nat) (ts : ℚ)
  deriving DecidableEq, Repr

def outcome (s : DiameterInterface K) (pkt : Diameter) : Outcome :=
  match K.msgKey pkt with
  | none => .rejected
  | some k =>
    if pkt.request = 1 then .stored k pkt.hopKey pkt.timeStamp
    else if pkt.request = 0 then
      match s.req.get? k pkt.hopKey with
      | none => .unknown k pkt.hopKey
      | some ts =>
        if ts = 0 then .unknown k pkt.hopKey
        else if pkt.timeStamp - ts < 0 ∨ 40 < pkt.timeStamp - ts then .late k pkt.hopKey ts
        else .matched k pkt.hopKey ts
    else .rejected

def DiameterInterface.after (s : DiameterInterface K) (pkt : Diameter) :
    Outcome → DiameterInterface K
  | .rejected => s
  | .stored k h ts => { s with req := s.req.set k h ts }
  | .unknown k h =>
    { s with req := (s.req.fetch k h 0).2, stats := s.stats.unknown (K.index k) }
  | .late k _ _ => { s with stats := s.stats.timeOut (K.index k) }
  | .matched k h ts =>
    { s with
      stats := s.stats.answered (K.index k) (pkt.timeStamp - ts) pkt.resCode
      req := s.req.remove k h }

theorem addPkt_eq_after (s : DiameterInterface K) (pkt : Diameter) :
    s.addPkt pkt = (s.after pkt (outcome s pkt), if outcome s pkt = .rejected then 1 else 0) := by
  unfold addPkt outcome
  cases K.msgKey pkt with
  | none => rfl
  | some k =>
    by_cases h1 : pkt.request = 1
    · simp [h1, after]
    · by_cases h0 : pkt.request = 0
      · cases hts : s.req.get? k pkt.hopKey with
        | none => simp [h0, hts, after, NestedTable.fetch_of_none hts]
        | some ts =>
          by_cases hz : ts = 0
          · subst hz
            simp [h0, hts, after, NestedTable.fetch_of_some hts]
          · by_cases hr : pkt.timeStamp - ts < 0 ∨ 40 < pkt.timeStamp - ts
            · simp only [h0, hts, NestedTable.fetch_of_some hts, if_neg hz, if_pos hr]
              rfl
            · simp only [h0, hts, NestedTable.fetch_of_some hts, if_neg hz, if_neg hr]
              rfl
      · simp [h1, h0, after]

theorem get?_after (s : DiameterInterface K) (pkt : Diameter) (o : Outcome) (k h : Nat) :
    (s.after pkt o).req.get? k h = match o with
      | .stored k' h' ts => if k = k' ∧ h = h' then some ts else s.req.get? k h
      | .unknown k' h' =>
        if k = k' ∧ h = h' then some ((s.req.get? k' h').getD 0) else s.req.get? k h
      | .matched k' h' _ => if k = k' ∧ h = h' then none else s.req.get? k h
      | _ => s.req.get? k h := by
  cases o with
  | rejected => rfl
  | stored k' h' ts => exact NestedTable.get?_set s.req k' k h' h ts
  | unknown k' h' => exact NestedTable.get?_fetch s.req k' k h' h 0
  | late k' h' ts => rfl
  | matched k' h' ts => exact NestedTable.get?_remove s.req k' k h' h

theorem addPkt_fst (s : DiameterInterface K) (pkt : Diameter) :
    (s.addPkt pkt).1 = s.after pkt (outcome s pkt) := by
  rw [addPkt_eq_after]

def gxRequest (hop : Int) (ts : ℚ) : Diameter :=
  { request := 1, cc := CC.CCRorA.code, appId := Iface.GX.appId, hopIdentifier := hop,
    resCode := 0, reqType := ReqType.INITIAL.code, timeStamp := ts, valid := true }

def gxAnswer (hop : Int) (ts : ℚ) : Diameter :=
  { gxRequest hop ts with request := 0, resCode := 2001 }

def IsRequest (K : InterfaceKind) (pkt : Diameter) (k h : Nat) : Prop :=
  K.msgKey pkt = some k ∧ pkt.request = 1 ∧ pkt.hopKey = h

def IsAnswer (K : InterfaceKind) (pkt : Diameter) (k h : Nat) : Prop :=
  K.msgKey pkt = some k ∧ pkt.request = 0 ∧ pkt.hopKey = h

instance (K : InterfaceKind) (pkt : Diameter) (k h : Nat) : Decidable (IsRequest K pkt k h) :=
  inferInstanceAs (Decidable (_ ∧ _ ∧ _))

instance (K : InterfaceKind) (pkt : Diameter) (k h : Nat) : Decidable (IsAnswer K pkt k h) :=
  inferInstanceAs (Decidable (_ ∧ _ ∧ _))

theorem outcome_of_request {s : DiameterInterface K} {pkt : Diameter} {k h : Nat}
    (hp : IsRequest K pkt k h) : outcome s pkt = .stored k h pkt.timeStamp := by
  obtain ⟨hk, hr, rfl⟩ := hp
  simp [outcome, hk, hr]

theorem outcome_of_answer {s : DiameterInterface K} {pkt : Diameter} {k h : Nat}
    (hp : IsAnswer K pkt k h) :
    outcome s pkt = match s.req.get? k h with
      | none => .unknown k h
      | some ts =>
        if ts = 0 then .unknown k h
        else if pkt.timeStamp - ts < 0 ∨ 40 < pkt.timeStamp - ts then .late k h ts
        else .matched k h ts := by
  obtain ⟨hk, hr, rfl⟩ := hp
  simp only [outcome, hk, hr]
  rfl

theorem packet_cases (K : InterfaceKind) (s : DiameterInterface K) (pkt : Diameter) :
    outcome s pkt = .rejected ∨ (∃ k h, IsRequest K pkt k h) ∨ ∃ k h, IsAnswer K pkt k h := by
  cases hk : K.msgKey pkt with
  | none => exact .inl (by simp [outcome, hk])
  | some k =>
    by_cases h1 : pkt.request = 1
    · exact .inr (.inl ⟨k, _, hk, h1, rfl⟩)
    · by_cases h0 : pkt.request = 0
      · exact .inr (.inr ⟨k, _, hk, h0, rfl⟩)
      · exact .inl (by simp [outcome, hk, h1, h0])

theorem outcome_spec (s : DiameterInterface K) (pkt : Diameter) :
    match outcome s pkt with
    | .rejected => True
    | .stored k h ts => IsRequest K pkt k h ∧ pkt.timeStamp = ts
    | .unknown k h =>
      IsAnswer K pkt k h ∧ (s.req.get? k h = none ∨ s.req.get? k h = some 0)
    | .late k h ts => IsAnswer K pkt k h ∧ s.req.get? k h = some ts ∧ ts ≠ 0 ∧
      (pkt.timeStamp - ts < 0 ∨ 40 < pkt.timeStamp - ts)
    | .matched k h ts => IsAnswer K pkt k h ∧ s.req.get? k h = some ts ∧ ts ≠ 0 ∧
      0 ≤ pkt.timeStamp - ts ∧ pkt.timeStamp - ts ≤ 40 := by
  rcases packet_cases K s pkt with hr | ⟨k, h, hr⟩ | ⟨k, h, ha⟩
  · rw [hr]
    trivial
  · rw [outcome_of_request hr]
    exact ⟨hr, rfl⟩
  · rw [outcome_of_answer ha]
    cases hget : s.req.get? k h with
    | none => exact ⟨ha, .inl hget⟩
    | some ts =>
      by_cases hz : ts = 0
      · subst hz
        simpa using ⟨ha, Or.inr hget⟩
      · by_cases hrtt : pkt.timeStamp - ts < 0 ∨ 40 < pkt.timeStamp - ts
        · simp only [if_neg hz, if_pos hrtt]
          exact ⟨ha, hget, hz, hrtt⟩
        · simp only [if_neg hz, if_neg hrtt]
          push Not at hrtt
          exact ⟨ha, hget, hz, hrtt⟩

theorem outcome_stored {s : DiameterInterface K} {pkt : Diameter} {k h : Nat} {ts : ℚ}
    (ho : outcome s pkt = .stored k h ts) : IsRequest K pkt k h ∧ pkt.timeStamp = ts := by
  simpa only [ho] using outcome_spec s pkt

theorem outcome_unknown {s : DiameterInterface K} {pkt : Diameter} {k h : Nat}
    (ho : outcome s pkt = .unknown k h) :
    IsAnswer K pkt k h ∧ (s.req.get? k h = none ∨ s.req.get? k h = some 0) := by
  simpa only [ho] using outcome_spec s pkt

theorem outcome_late {s : DiameterInterface K} {pkt : Diameter} {k h : Nat} {ts : ℚ}
    (ho : outcome s pkt = .late k h ts) :
    IsAnswer K pkt k h ∧ s.req.get? k h = some ts ∧ ts ≠ 0 ∧
      (pkt.timeStamp - ts < 0 ∨ 40 < pkt.timeStamp - ts) := by
  simpa only [ho] using outcome_spec s pkt

theorem outcome_matched {s : DiameterInterface K} {pkt : Diameter} {k h : Nat} {ts : ℚ}
    (ho : outcome s pkt = .matched k h ts) :
    IsAnswer K pkt k h ∧ s.req.get? k h = some ts ∧ ts ≠ 0 ∧
      0 ≤ pkt.timeStamp - ts ∧ pkt.timeStamp - ts ≤ 40 := by
  simpa only [ho] using outcome_spec s pkt

inductive Call where
  | checkTime (newTime : Nat)
  | addPkt (pkt : Diameter)
  | printStats (node : Text)
  | clearStats

def exec (s : DiameterInterface K) : Call → DiameterInterface K
  | .checkTime newTime => { s with toInterface := (s.checkTime newTime).1 }
  | .addPkt pkt => (s.addPkt pkt).1
  | .printStats node => (s.printStats node).1
  | .clearStats => s.clearStats

def runCalls (K : InterfaceKind) (calls : List Call) : DiameterInterface K :=
  Machine.run exec initial calls

def driverCalls (s : DiameterInterface K) (node : Text) (dPkt : Diameter) : List Call :=
  .checkTime dPkt.seconds ::
    match (s.checkTime dPkt.seconds).2 with
    | 1 => [.addPkt dPkt]
    | 2 => [.printStats node, .clearStats, .addPkt dPkt]
    | _ => []

/-- The driver drops the packet, or passes it to `addPkt`, or prints and clears the
statistics first. -/
theorem drive_cases (s : DiameterInterface K) (node : Text) (dPkt : Diameter) :
    let s' := exec s (.checkTime dPkt.seconds)
    ((s.checkTime dPkt.seconds).2 = 0 ∧ s.drive node dPkt = (s', none) ∧
      driverCalls s node dPkt = [.checkTime dPkt.seconds]) ∨
    ((s.checkTime dPkt.seconds).2 = 1 ∧ s.drive node dPkt = (exec s' (.addPkt dPkt), none) ∧
      driverCalls s node dPkt = [.checkTime dPkt.seconds, .addPkt dPkt]) ∨
    ((s.checkTime dPkt.seconds).2 = 2 ∧
      s.drive node dPkt = (exec (exec (exec s' (.printStats node)) .clearStats) (.addPkt dPkt),
        some (s'.printStats node).2) ∧
      driverCalls s node dPkt =
        [.checkTime dPkt.seconds, .printStats node, .clearStats, .addPkt dPkt]) := by
  have hres : (s.checkTime dPkt.seconds).2 = 0 ∨ (s.checkTime dPkt.seconds).2 = 1 ∨
      (s.checkTime dPkt.seconds).2 = 2 := by
    unfold Interface.checkTime
    split_ifs <;> simp
  rcases hres with h | h | h
  · exact .inl ⟨h, by simp only [drive, h]; rfl, by simp only [driverCalls, h]⟩
  · exact .inr (.inl ⟨h, by simp only [drive, h]; rfl, by simp only [driverCalls, h]⟩)
  · exact .inr (.inr ⟨h, by simp only [drive, h]; rfl, by simp only [driverCalls, h]⟩)

theorem drive_eq_run (s : DiameterInterface K) (node : Text) (dPkt : Diameter) :
    (s.drive node dPkt).1 = Machine.run exec s (driverCalls s node dPkt) := by
  rcases drive_cases s node dPkt with ⟨_, hd, hc⟩ | ⟨_, hd, hc⟩ | ⟨_, hd, hc⟩ <;>
    rw [hd, hc] <;> rfl

def driven (node : Text) (s : DiameterInterface K) (dPkt : Diameter) : DiameterInterface K :=
  (s.drive node dPkt).1

def runDriver (K : InterfaceKind) (node : Text) (dPkts : List Diameter) : DiameterInterface K :=
  Machine.run (driven node) initial dPkts

def driverTrace (node : Text) : DiameterInterface K → List Diameter → List Call
  | _, [] => []
  | s, dPkt :: dPkts => driverCalls s node dPkt ++ driverTrace node (driven node s dPkt) dPkts

end AnalysePcap
