import AnalysePcap.Origin

/-! The table of pending requests under the driver. The sweep compares with the
end of the window that the packet has just opened, so a rollover counts and
erases everything that is pending, however young it is. -/

namespace AnalysePcap

open DiameterInterface

variable {K : InterfaceKind}

def RollsOver (s : DiameterInterface K) (dPkt : Diameter) : Prop :=
  (s.checkTime dPkt.seconds).2 = 2

def Passed (s : DiameterInterface K) (dPkt : Diameter) : Prop :=
  (s.checkTime dPkt.seconds).2 ≠ 0

instance (s : DiameterInterface K) (dPkt : Diameter) : Decidable (RollsOver s dPkt) :=
  inferInstanceAs (Decidable (_ = 2))

instance (s : DiameterInterface K) (dPkt : Diameter) : Decidable (Passed s dPkt) :=
  inferInstanceAs (Decidable (_ ≠ 0))

/-- The object on which the driver calls `addPkt`. -/
def prepared (node : Text) (s : DiameterInterface K) (dPkt : Diameter) : DiameterInterface K :=
  let s' := exec s (.checkTime dPkt.seconds)
  if RollsOver s dPkt then exec (exec s' (.printStats node)) .clearStats else s'

theorem driven_eq (node : Text) (s : DiameterInterface K) (dPkt : Diameter) :
    driven node s dPkt =
      if Passed s dPkt then ((prepared node s dPkt).addPkt dPkt).1 else prepared node s dPkt := by
  rcases drive_cases s node dPkt with ⟨h, hd, _⟩ | ⟨h, hd, _⟩ | ⟨h, hd, _⟩ <;>
    simp [driven, hd, prepared, Passed, RollsOver, h, exec]

theorem prepared_window (node : Text) (s : DiameterInterface K) (dPkt : Diameter) :
    (prepared node s dPkt).toInterface = (s.checkTime dPkt.seconds).1 := by
  simp only [prepared]
  split_ifs <;> rfl

theorem addPkt_window (s : DiameterInterface K) (pkt : Diameter) :
    (s.addPkt pkt).1.toInterface = s.toInterface := by
  rw [addPkt_fst]
  cases outcome s pkt <;> rfl

theorem driven_window (node : Text) (s : DiameterInterface K) (dPkt : Diameter) :
    (driven node s dPkt).toInterface = (s.checkTime dPkt.seconds).1 := by
  rw [driven_eq]
  split_ifs
  · rw [addPkt_window, prepared_window]
  · exact prepared_window node s dPkt

theorem get?_prepared (node : Text) (s : DiameterInterface K) (dPkt : Diameter) (k h : Nat) :
    (prepared node s dPkt).req.get? k h =
      if RollsOver s dPkt then
        (s.req.get? k h).filter fun ts => !expired (s.checkTime dPkt.seconds).1.endTime ts
      else s.req.get? k h := by
  simp only [prepared]
  split_ifs
  · exact NestedTable.get?_sweep _ _ s.req s.stats k h
  · rfl

theorem get?_driven {node : Text} {s : DiameterInterface K} {dPkt : Diameter} {k h : Nat} {ts : ℚ}
    (hget : (driven node s dPkt).req.get? k h = some ts) :
    (prepared node s dPkt).req.get? k h = some ts ∧ (Passed s dPkt → ¬ IsRequest K dPkt k h) ∨
      Passed s dPkt ∧
        (IsRequest K dPkt k h ∧ dPkt.timeStamp = ts ∨ IsAnswer K dPkt k h ∧ ts = 0) := by
  rw [driven_eq] at hget
  split_ifs at hget with hp
  · have hcases := get?_exec (c := .addPkt dPkt) hget
    rcases hcases with ⟨hold, hno⟩ | ⟨pkt, he, hr, hts⟩ | ⟨h0, _, pkt, he, ha⟩
    · exact .inl ⟨hold, fun _ => hno dPkt rfl⟩
    · obtain rfl := Call.addPkt.inj he
      exact .inr ⟨hp, .inl ⟨hr, hts⟩⟩
    · obtain rfl := Call.addPkt.inj he
      exact .inr ⟨hp, .inr ⟨ha, h0⟩⟩
  · exact .inl ⟨hget, fun h => absurd h hp⟩

theorem of_get?_prepared {node : Text} {s : DiameterInterface K} {dPkt : Diameter} {k h : Nat}
    {ts : ℚ} (hget : (prepared node s dPkt).req.get? k h = some ts) :
    s.req.get? k h = some ts := by
  rw [get?_prepared] at hget
  split_ifs at hget
  · exact (Option.filter_eq_some_iff.mp hget).1
  · exact hget

theorem passed_bounds {w : Interface} (hw : OnGrid w) {t : Nat} (hp : (w.checkTime t).2 ≠ 0) :
    (w.checkTime t).1.startTime ≤ t ∧ t ≤ (w.checkTime t).1.endTime ∧
      (w.checkTime t).1.endTime = (w.checkTime t).1.startTime + 10 := by
  have hs := hw.1
  have he := hw.2
  rcases checkTime_cases w t with ⟨_, h⟩ | ⟨_, _, h⟩ | ⟨_, _, h⟩ | ⟨_, _, h⟩ | ⟨_, _, _, h⟩ <;>
    rw [h] at hp ⊢ <;> dsimp only at hp ⊢ <;> omega

theorem checkTime_mono {w : Interface} (hw : OnGrid w) (t : Nat) :
    w.startTime ≤ (w.checkTime t).1.startTime ∧ w.endTime ≤ (w.checkTime t).1.endTime := by
  have hs := hw.1
  have he := hw.2
  rcases checkTime_cases w t with ⟨_, h⟩ | ⟨_, _, h⟩ | ⟨_, _, h⟩ | ⟨_, _, h⟩ | ⟨_, _, _, h⟩ <;>
    rw [h] <;> dsimp only <;> omega

theorem rollsOver_bounds {w : Interface} (hw : OnGrid w) {t : Nat} (hr : (w.checkTime t).2 = 2) :
    w.endTime < t ∧ w.endTime ≤ (w.checkTime t).1.startTime ∧
      w.endTime + 10 ≤ (w.checkTime t).1.endTime := by
  have hs := hw.1
  have he := hw.2
  rcases checkTime_cases w t with ⟨_, h⟩ | ⟨_, _, h⟩ | ⟨_, _, h⟩ | ⟨_, _, h⟩ | ⟨_, _, _, h⟩ <;>
    rw [h] at hr ⊢ <;> dsimp only at hr ⊢ <;> omega

structure Timely (s : DiameterInterface K) : Prop where
  onGrid : OnGrid s.toInterface
  before : ∀ k h ts, s.req.get? k h = some ts → ts < s.endTime + 1

theorem timely_initial : Timely (initial : DiameterInterface K) :=
  ⟨⟨rfl, .inr ⟨rfl, rfl⟩⟩, by simp [initial]⟩

theorem timeStamp_lt (dPkt : Diameter) : dPkt.timeStamp < dPkt.seconds + 1 :=
  Nat.lt_floor_add_one dPkt.timeStamp

theorem Timely.driven {s : DiameterInterface K} (hs : Timely s) (node : Text) (dPkt : Diameter) :
    Timely (driven node s dPkt) := by
  have hw := driven_window node s dPkt
  refine ⟨hw ▸ checkTime_onGrid hs.onGrid _, ?_⟩
  intro k h ts hget
  rw [show (AnalysePcap.driven node s dPkt).endTime = (s.checkTime dPkt.seconds).1.endTime from
    congrArg Interface.endTime hw]
  rcases get?_driven hget with ⟨hold, _⟩ | ⟨hp, ⟨_, rfl⟩ | ⟨_, rfl⟩⟩
  · have hlt := hs.before k h ts (of_get?_prepared hold)
    have hmono : (s.endTime : ℚ) ≤ (s.checkTime dPkt.seconds).1.endTime := by
      exact_mod_cast (checkTime_mono hs.onGrid dPkt.seconds).2
    linarith
  -- a request that is passed lies in the window then in force, the end included
  · have hle : (dPkt.seconds : ℚ) ≤ (s.checkTime dPkt.seconds).1.endTime := by
      exact_mod_cast (passed_bounds hs.onGrid hp).2.1
    have := timeStamp_lt dPkt
    linarith
  · positivity

theorem runDriver_timely (K : InterfaceKind) (node : Text) (dPkts : List Diameter) :
    Timely (runDriver K node dPkts) :=
  Machine.run_invariant (P := Timely) (fun _ dPkt hs => hs.driven node dPkt) timely_initial dPkts

/-- A rollover sweeps everything. -/
theorem expired_of_rollsOver {s : DiameterInterface K} (hs : Timely s) {dPkt : Diameter}
    (hr : RollsOver s dPkt) {k h : Nat} {ts : ℚ} (hget : s.req.get? k h = some ts) :
    expired (s.checkTime dPkt.seconds).1.endTime ts = true := by
  have hlt := hs.before k h ts hget
  have hend : (s.endTime : ℚ) + 10 ≤ (s.checkTime dPkt.seconds).1.endTime := by
    exact_mod_cast (rollsOver_bounds hs.onGrid hr).2.2
  have hold : ts + DIAMETER_TIMEOUT < (s.checkTime dPkt.seconds).1.endTime := by
    rw [DIAMETER_TIMEOUT]
    linarith
  exact decide_eq_true hold

theorem get?_prepared_of_rollsOver {s : DiameterInterface K} (hs : Timely s) {dPkt : Diameter}
    (hr : RollsOver s dPkt) (node : Text) (k h : Nat) :
    (prepared node s dPkt).req.get? k h = none := by
  rw [get?_prepared, if_pos hr]
  cases hget : s.req.get? k h with
  | none => rfl
  | some ts => simp [expired_of_rollsOver hs hr hget]

theorem get?_addPkt_of_other {s : DiameterInterface K} {pkt : Diameter} {k h : Nat}
    (hr : ¬ IsRequest K pkt k h) (ha : ¬ IsAnswer K pkt k h) :
    (s.addPkt pkt).1.req.get? k h = s.req.get? k h := by
  rw [addPkt_fst, get?_after]
  cases ho : outcome s pkt with
  | rejected => rfl
  | late k' h' ts => rfl
  | stored k' h' ts =>
    have hne : ¬ (k = k' ∧ h = h') := by
      rintro ⟨rfl, rfl⟩
      exact hr (outcome_stored ho).1
    exact if_neg hne
  | unknown k' h' =>
    have hne : ¬ (k = k' ∧ h = h') := by
      rintro ⟨rfl, rfl⟩
      exact ha (outcome_unknown ho).1
    exact if_neg hne
  | matched k' h' ts =>
    have hne : ¬ (k = k' ∧ h = h') := by
      rintro ⟨rfl, rfl⟩
      exact ha (outcome_matched ho).1
    exact if_neg hne

theorem get?_driven_of_other {node : Text} {s : DiameterInterface K} {dPkt : Diameter} {k h : Nat}
    (hr : ¬ IsRequest K dPkt k h) (ha : ¬ IsAnswer K dPkt k h) :
    (driven node s dPkt).req.get? k h = (prepared node s dPkt).req.get? k h := by
  rw [driven_eq]
  split_ifs
  · exact get?_addPkt_of_other hr ha
  · rfl

theorem get?_driven_of_request (node : Text) {s : DiameterInterface K} {dPkt : Diameter} {k h : Nat}
    (hp : Passed s dPkt) (hr : IsRequest K dPkt k h) :
    (driven node s dPkt).req.get? k h = some dPkt.timeStamp := by
  rw [driven_eq, if_pos hp, addPkt_fst, outcome_of_request hr, get?_after]
  exact if_pos ⟨rfl, rfl⟩

def PendingTimedOut (s : DiameterInterface K) (dPkt : Diameter) : Prop :=
  RollsOver s dPkt → ∀ k h ts, s.req.get? k h = some ts → ts + DIAMETER_TIMEOUT < dPkt.timeStamp

theorem get?_prepared_of_young {node : Text} {s : DiameterInterface K} {dPkt : Diameter} {k h : Nat}
    {ts : ℚ} (hs : PendingTimedOut s dPkt) (hget : s.req.get? k h = some ts)
    (hyoung : dPkt.timeStamp < ts + DIAMETER_TIMEOUT) :
    (prepared node s dPkt).req.get? k h = some ts := by
  -- a rollover would have swept the entry, so there was none
  have hno : ¬ RollsOver s dPkt := fun hr => by
    have := hs hr k h ts hget
    linarith
  rw [get?_prepared, if_neg hno, hget]

/-- The sweep counts only requests that have timed out when the packet arrives, and
the request of an answer that arrives in order and in time is still there. -/
structure SweepsTimedOutOnly (K : InterfaceKind) (node : Text) (dPkts : List Diameter) : Prop where
  aged : ∀ pre dPkt post, dPkts = pre ++ dPkt :: post →
    RollsOver (runDriver K node pre) dPkt → ∀ k h ts,
      (runDriver K node pre).req.get? k h = some ts →
      expired ((runDriver K node pre).checkTime dPkt.seconds).1.endTime ts = true →
        ts + DIAMETER_TIMEOUT < dPkt.timeStamp
  in_time : ∀ pre rqst mid ans post k h, dPkts = pre ++ rqst :: (mid ++ ans :: post) →
    Passed (runDriver K node pre) rqst → IsRequest K rqst k h → IsAnswer K ans k h →
    (∀ p ∈ mid, p.timeStamp ≤ ans.timeStamp ∧ ¬ IsRequest K p k h ∧ ¬ IsAnswer K p k h) →
    ans.timeStamp < rqst.timeStamp + DIAMETER_TIMEOUT →
      (prepared node (runDriver K node (pre ++ rqst :: mid)) ans).req.get? k h =
        some rqst.timeStamp

theorem get?_run_of_young {node : Text} {s : DiameterInterface K} {mid : List Diameter} {k h : Nat}
    {ts last : ℚ} (hs : Machine.Along (driven node) PendingTimedOut s mid)
    (hget : s.req.get? k h = some ts) (hlast : last < ts + DIAMETER_TIMEOUT)
    (hmid : ∀ p ∈ mid, p.timeStamp ≤ last ∧ ¬ IsRequest K p k h ∧ ¬ IsAnswer K p k h) :
    (Machine.run (driven node) s mid).req.get? k h = some ts := by
  induction mid generalizing s with
  | nil => exact hget
  | cons p mid ih =>
    obtain ⟨hle, hr, ha⟩ := hmid p (by simp)
    refine ih hs.2 ?_ fun q hq => hmid q (by simp [hq])
    rw [get?_driven_of_other hr ha]
    exact get?_prepared_of_young hs.1 hget (by linarith)

/-- The sweep is right exactly in the runs in which everything pending at a
rollover has timed out. -/
theorem sweepsTimedOutOnly_iff (K : InterfaceKind) (node : Text) (dPkts : List Diameter) :
    SweepsTimedOutOnly K node dPkts ↔
      Machine.Along (driven node) PendingTimedOut (initial : DiameterInterface K) dPkts := by
  constructor
  · intro hp
    apply Machine.along_iff_split.mpr
    intro pre dPkt post he hr k h ts hget
    exact hp.aged pre dPkt post he hr k h ts hget
      (expired_of_rollsOver (runDriver_timely K node pre) hr hget)
  · intro hs
    refine ⟨?_, ?_⟩
    · intro pre dPkt post he hr k h ts hget _
      exact Machine.along_iff_split.mp hs pre dPkt post he hr k h ts hget
    · intro pre rqst mid ans post k h he hp hr ha hmid hlast
      subst he
      have hrest := (Machine.along_append.mp hs).2.2
      obtain ⟨hsmid, hsans, _⟩ := Machine.along_append.mp hrest
      have hstored := get?_driven_of_request node hp hr
      have hkept := get?_run_of_young hsmid hstored hlast hmid
      rw [runDriver, Machine.run_append, Machine.run_cons]
      exact get?_prepared_of_young hsans hkept hlast

theorem young_request_swept :
    let dPkts := [gxRequest 1 (199 / 10), gxAnswer 1 21]
    ¬ SweepsTimedOutOnly .gx [] dPkts ∧
      (runDriver .gx [] dPkts).stats.unKnwRes ⟨0, by decide⟩ = 1 := by
  intro dPkts
  refine ⟨fun hp => ?_, by decide +kernel⟩
  have hlt := hp.aged [gxRequest 1 (199 / 10)] (gxAnswer 1 21) [] rfl (by decide +kernel) 1 1
    (199 / 10) (by decide +kernel) (by decide +kernel)
  exact absurd hlt (by decide +kernel)

theorem window_of_not_rollsOver {w : Interface} (hw : OnGrid w) {t : Nat} (ht : 20 ≤ t)
    (hr : (w.checkTime t).2 ≠ 2) : (w.checkTime t).1 = w := by
  have he := hw.2
  rcases checkTime_cases w t with ⟨_, h⟩ | ⟨_, _, h⟩ | ⟨_, _, h⟩ | ⟨_, _, h⟩ | ⟨_, _, _, h⟩
  · rw [h]
  · rw [h]
  · exact absurd (by rw [h]) hr
  · omega
  · rw [h]

structure Recent (s : DiameterInterface K) : Prop extends Timely s where
  after : ∀ k h ts, s.req.get? k h = some ts → ts = 0 ∨ (s.startTime : ℚ) ≤ ts

theorem twenty_le_seconds {dPkt : Diameter} (ht : 20 ≤ dPkt.timeStamp) : 20 ≤ dPkt.seconds :=
  Nat.le_floor (by exact_mod_cast ht)

theorem seconds_le {dPkt : Diameter} (ht : 20 ≤ dPkt.timeStamp) :
    (dPkt.seconds : ℚ) ≤ dPkt.timeStamp :=
  Nat.floor_le (by linarith)

theorem Recent.prepared {s : DiameterInterface K} (hs : Recent s) (node : Text) {dPkt : Diameter}
    (ht : 20 ≤ dPkt.timeStamp) {k h : Nat} {ts : ℚ}
    (hget : (prepared node s dPkt).req.get? k h = some ts) :
    ts = 0 ∨ ((s.checkTime dPkt.seconds).1.startTime : ℚ) ≤ ts := by
  by_cases hr : RollsOver s dPkt
  · rw [get?_prepared_of_rollsOver hs.toTimely hr] at hget
    exact absurd hget (by simp)
  · rw [window_of_not_rollsOver hs.onGrid (twenty_le_seconds ht) hr]
    exact hs.after k h ts (of_get?_prepared hget)

theorem Recent.driven {s : DiameterInterface K} (hs : Recent s) (node : Text) {dPkt : Diameter}
    (ht : 20 ≤ dPkt.timeStamp) : Recent (driven node s dPkt) := by
  refine ⟨hs.toTimely.driven node dPkt, ?_⟩
  intro k h ts hget
  rw [show (AnalysePcap.driven node s dPkt).startTime = (s.checkTime dPkt.seconds).1.startTime from
    congrArg Interface.startTime (driven_window node s dPkt)]
  rcases get?_driven hget with ⟨hold, _⟩ | ⟨hp, ⟨_, rfl⟩ | ⟨_, rfl⟩⟩
  · exact hs.prepared node ht hold
  · have hle : ((s.checkTime dPkt.seconds).1.startTime : ℚ) ≤ dPkt.seconds := by
      exact_mod_cast (passed_bounds hs.onGrid hp).1
    exact .inr (hle.trans (seconds_le ht))
  · exact .inl rfl

theorem runDriver_recent (K : InterfaceKind) (node : Text) {dPkts : List Diameter}
    (ht : ∀ p ∈ dPkts, 20 ≤ p.timeStamp) : Recent (runDriver K node dPkts) := by
  induction dPkts using List.reverseRecOn with
  | nil => exact ⟨timely_initial, by simp [runDriver, initial]⟩
  | append_singleton pre p ih =>
    rw [runDriver, Machine.run_concat]
    exact (ih fun q hq => ht q (by simp [hq])).driven node (ht p (by simp))

theorem Recent.rtt_lt {s : DiameterInterface K} (hs : Recent s) {node : Text} {dPkt : Diameter}
    (ht : 20 ≤ dPkt.timeStamp) (hp : Passed s dPkt) {k h : Nat} {ts : ℚ}
    (hget : (AnalysePcap.prepared node s dPkt).req.get? k h = some ts) (hne : ts ≠ 0) :
    dPkt.timeStamp - ts < 11 := by
  obtain ⟨_, hend, hlen⟩ := passed_bounds hs.onGrid hp
  have hstart := (hs.prepared node ht hget).resolve_left hne
  have hlast : (dPkt.seconds : ℚ) ≤ (s.checkTime dPkt.seconds).1.startTime + 10 := by
    exact_mod_cast hend.trans_eq hlen
  have := timeStamp_lt dPkt
  linarith

theorem latency_addPkt (s : DiameterInterface K) (pkt : Diameter) (i : Fin K.size) :
    (s.addPkt pkt).1.stats.latency i = s.stats.latency i ∨
      ∃ k h ts, outcome s pkt = .matched k h ts ∧
        (s.addPkt pkt).1.stats.latency i = s.stats.latency i + (pkt.timeStamp - ts) := by
  rw [addPkt_fst]
  cases ho : outcome s pkt with
  | matched k h ts =>
    show (Stats.answered _ _ _ _).latency i = _ ∨ _
    rw [Stats.answered_latency, addAt]
    split_ifs with hi
    · refine .inr ⟨k, h, ts, rfl, ?_⟩
      show (Stats.answered _ _ _ _).latency i = _
      rw [Stats.answered_latency, addAt, if_pos hi]
    · exact .inl rfl
  | _ => exact .inl rfl

/-- Twenty seconds after the epoch and later, only the packets of the window in
force are pending, so every sample of the latency is shorter than 11 seconds. -/
theorem pending_in_window (K : InterfaceKind) (node : Text) {dPkts : List Diameter}
    (ht : ∀ p ∈ dPkts, 20 ≤ p.timeStamp) :
    (∀ pre post, dPkts = pre ++ post → ∀ k h ts,
      (runDriver K node pre).req.get? k h = some ts → 0 < ts →
        (runDriver K node pre).startTime ≤ ts ∧ ts < (runDriver K node pre).endTime + 1) ∧
    (∀ pre p post, dPkts = pre ++ p :: post → RollsOver (runDriver K node pre) p → ∀ k h,
      (driven node (runDriver K node pre) p).req.get? k h ≠ none →
        K.msgKey p = some k ∧ p.hopKey = h) ∧
    (∀ pre p post, dPkts = pre ++ p :: post → Passed (runDriver K node pre) p →
      let s := prepared node (runDriver K node pre) p
      (∀ k h ts, IsAnswer K p k h → s.req.get? k h = some ts → ts ≠ 0 →
        ¬ 40 < p.timeStamp - ts) ∧
      ∀ i, (s.addPkt p).1.stats.latency i - s.stats.latency i < 11) := by
  have hrecent : ∀ pre post, dPkts = pre ++ post → Recent (runDriver K node pre) := by
    rintro pre post rfl
    exact runDriver_recent K node fun p hp => ht p (by simp [hp])
  refine ⟨?_, ?_, ?_⟩
  · intro pre post he k h ts hget hpos
    have hs := hrecent pre post he
    exact ⟨(hs.after k h ts hget).resolve_left hpos.ne', hs.before k h ts hget⟩
  · intro pre p post he hr k h hsome
    obtain ⟨ts, hget⟩ := Option.ne_none_iff_exists'.mp hsome
    rcases get?_driven hget with ⟨hold, _⟩ | ⟨_, ⟨hq, _⟩ | ⟨hq, _⟩⟩
    · rw [get?_prepared_of_rollsOver (hrecent pre _ he).toTimely hr] at hold
      exact absurd hold (by simp)
    · exact ⟨hq.1, hq.2.2⟩
    · exact ⟨hq.1, hq.2.2⟩
  · intro pre p post he hp s
    have hs := hrecent pre _ he
    have hp20 : 20 ≤ p.timeStamp := ht p (by simp [he])
    refine ⟨?_, ?_⟩
    · intro k h ts _ hget hne
      have := hs.rtt_lt hp20 hp hget hne
      linarith
    · intro i
      rcases latency_addPkt s p i with hsame | ⟨k, h, ts, ho, hadd⟩
      · rw [hsame, sub_self]
        norm_num
      · obtain ⟨_, hget, hne, _⟩ := outcome_matched ho
        have := hs.rtt_lt hp20 hp hget hne
        rw [hadd]
        linarith

theorem pending_in_window_two :
    let dPkts := [gxRequest 1 25, gxAnswer 1 30]
    (∀ p ∈ dPkts, 20 ≤ p.timeStamp) ∧
      (runDriver .gx [] [gxRequest 1 25]).req.get? 1 1 = some 25 ∧
      ((runDriver .gx [] [gxRequest 1 25]).startTime : ℚ) ≤ 25 ∧
      (25 : ℚ) < (runDriver .gx [] [gxRequest 1 25]).endTime + 1 := by
  intro dPkts
  have ht : ∀ p ∈ dPkts, 20 ≤ p.timeStamp := by decide +kernel
  have hget : (runDriver .gx [] [gxRequest 1 25]).req.get? 1 1 = some 25 := by decide +kernel
  exact ⟨ht, hget, (pending_in_window .gx [] ht).1 [gxRequest 1 25] [gxAnswer 1 30] rfl 1 1 25 hget
    (by norm_num)⟩

end AnalysePcap
