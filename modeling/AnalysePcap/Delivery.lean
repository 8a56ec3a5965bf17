import AnalysePcap.FlowKey
import AnalysePcap.Rollover

/-! What one packet does to the two times that decide about later packets: the interval of
`displayStats` and the window of the interface that the packet is for. -/

namespace AnalysePcap

open DisplayStats

namespace TracePacket

def pktTime (pkt : TracePacket) : Int := toInt pkt.seconds

def newTime (pkt : TracePacket) : Nat := ⌊pkt.seconds⌋₊

/-- What `protocolTCP::addPkt` sees of a packet. -/
def seen (env : Platform) (ppkt : MPacket) (locals : Locals) (pkt : TracePacket)
    (header : Layer3) : Packet :=
  ((ppkt.fill pkt header .TCP).fillPayload locals pkt .TCP).packet env.undef locals

/-- The interface object that a packet is for, if it is a Diameter message. -/
def site (env : Platform) (pkt : TracePacket) : Option Site :=
  match pkt.passes with
  | some (header, .TCP) => ((pkt.seen env .zero .zero header).message env.inet).map Prod.fst
  | _ => none

end TracePacket

theorem message_congr {inet : Inet} {p q : Packet} (hport : p.srcPort = q.srcPort)
    (hport' : p.dstPort = q.dstPort) (hvalid : p.dPkt.valid = q.dPkt.valid)
    (hnode : p.dPkt.valid = true →
      Analyser.nodeOf inet p p.dPkt.request = Analyser.nodeOf inet q q.dPkt.request)
    (happ : p.dPkt.valid = true → p.dPkt.appId = q.dPkt.appId) :
    (p.message inet).map Prod.fst = (q.message inet).map Prod.fst := by
  unfold Packet.message
  rw [← hport, ← hport', ← hvalid]
  by_cases h : (p.srcPort = 3868 ∨ p.dstPort = 3868) ∧ p.dPkt.valid = true
  · rw [if_pos h, if_pos h, ← hnode h.2, ← happ h.2]
    cases Analyser.nodeOf inet p p.dPkt.request with
    | none => rfl
    | some node =>
      cases Iface.ofAppId p.dPkt.appId with
      | none => rfl
      | some a => rfl
  · rw [if_neg h, if_neg h]

theorem seconds_of_message {env : Platform} {pkt : TracePacket} {ppkt : MPacket} {locals : Locals}
    {header : Layer3} {m : Site × Diameter}
    (h : (pkt.seen env ppkt locals header).message env.inet = some m) :
    m.2.seconds = pkt.newTime := by
  unfold Packet.message at h
  split_ifs at h
  split at h
  · cases h
    rfl
  · cases h

theorem site_of_passes {env : Platform} {pkt : TracePacket} {header : Layer3} {proto : IPProto}
    (hpass : pkt.passes = some (header, proto)) (hproto : proto ≠ .TCP) : pkt.site env = none := by
  simp only [TracePacket.site, hpass]
  split
  · rename_i heq
    simp [hproto] at heq
  · rfl

theorem nodeOf_seen {env : Platform} {pkt : TracePacket} {header : Layer3}
    (hother : ∀ ethertype, header ≠ .other ethertype) (ppkt : MPacket) (locals : Locals)
    (request : Int) :
    Analyser.nodeOf env.inet (pkt.seen env ppkt locals header) request =
      Analyser.nodeOf env.inet (pkt.seen env .zero .zero header) request := by
  cases header with
  | ip src dst => rfl
  | ip6 src dst => rfl
  | other ethertype => exact absurd rfl (hother ethertype)

/-- Neither the rest of `m_Packet` nor uninitialised memory decides which object a
packet is for. -/
theorem message_seen {env : Platform} {pkt : TracePacket} {header : Layer3}
    (h : pkt.passes = some (header, .TCP)) (ppkt : MPacket) (locals : Locals) :
    ((pkt.seen env ppkt locals header).message env.inet).map Prod.fst = pkt.site env := by
  obtain ⟨hother, htcp⟩ := TracePacket.header_of_passes h
  obtain ⟨payload, rem, hpayload⟩ := htcp rfl
  have hload (ppkt : MPacket) (locals : Locals) :
      ((ppkt.fill pkt header .TCP).fillPayload locals pkt .TCP).pay_load = payload := by
    simp [MPacket.fillPayload, hpayload]
  have hdPkt (ppkt : MPacket) (locals : Locals) : (pkt.seen env ppkt locals header).dPkt =
      (locals.dPkt.construct env.undef payload).toDiameter := by
    rw [← hload ppkt locals]
    rfl
  have hvalid (locals : Locals) : (locals.dPkt.construct env.undef payload).valid = true ↔
      Accepts env.undef payload := valid_construct locals.dPkt
  simp only [TracePacket.site, h]
  refine message_congr rfl rfl ?_ ?_ ?_
  · rw [hdPkt, hdPkt, Bool.eq_iff_iff]
    exact (hvalid locals).trans (hvalid .zero).symm
  · intro hv
    rw [hdPkt] at hv
    have haccepts := (hvalid locals).mp hv
    rw [hdPkt, hdPkt, construct_of_accepts locals.dPkt haccepts,
      construct_of_accepts Locals.zero.dPkt haccepts]
    exact nodeOf_seen hother ppkt locals _
  · intro hv
    rw [hdPkt] at hv
    have haccepts := (hvalid locals).mp hv
    rw [hdPkt, hdPkt, construct_of_accepts locals.dPkt haccepts,
      construct_of_accepts Locals.zero.dPkt haccepts]

def Analyser.window (t : Analyser) (site : Site) : Interface :=
  (((t.map site.1).lookup site.2).getD DiameterInterface.initial).toInterface

theorem Analyser.window_deliver (t : Analyser) (site s : Site) (dPkt : Diameter) :
    (t.deliver site dPkt).window s =
      if s = site then (t.window s).tick dPkt.seconds else t.window s := by
  obtain ⟨a, node⟩ := site
  obtain ⟨a', node'⟩ := s
  by_cases ha : a' = a
  · subst ha
    by_cases hnode : node' = node
    · subst hnode
      simp only [window, deliver, Function.update_self, AList.lookup_insert, Option.getD_some,
        if_true]
      exact driven_window _ _ _
    · have hne : ¬ ((a', node') = (a', node)) := by simp [hnode]
      simp only [window, deliver, Function.update_self, AList.lookup_insert_ne hnode, if_neg hne]
  · have hne : ¬ ((a', node') = (a, node)) := by simp [ha]
    simp only [window, deliver, Function.update_of_ne ha, if_neg hne]

namespace DisplayStats

def window (b : DisplayStats) (site : Site) : Interface := b.analyser.window site

/-- What `checkTime` returns for the packet, `none` if it is not called. -/
def checked (env : Platform) (b : DisplayStats) (locals : Locals) (pkt : TracePacket) : Option Nat :=
  match b.fillPkt locals pkt with
  | (b, some .TCP) =>
    if toInt pkt.seconds < b.curIntStarttime then none
    else
      ((b.ppkt.packet env.undef locals).message env.inet).map fun m =>
        ((b.window m.1).checkTime m.2.seconds).2
  | _ => none

/-- The packet gets past the first test of `displayStats::addPkt`. -/
def Opens (b : DisplayStats) (pkt : TracePacket) : Prop :=
  pkt.passes.isSome = true ∧ b.curIntStarttime ≤ pkt.pktTime

instance (b : DisplayStats) (pkt : TracePacket) : Decidable (b.Opens pkt) :=
  inferInstanceAs (Decidable (_ ∧ _))

section Step

variable {env : Platform} {b : DisplayStats} {locals : Locals} {pkt : TracePacket}

/-- The state in which `ParsePkt` calls `addPkt`. -/
def filled (b : DisplayStats) (locals : Locals) (pkt : TracePacket) (passed : Layer3 × IPProto) :
    DisplayStats :=
  { b with ppkt := (b.ppkt.fill pkt passed.1 passed.2).fillPayload locals pkt passed.2 }

theorem parse_of_some {passed : Layer3 × IPProto} (h : pkt.passes = some passed) :
    b.parse env (locals, pkt) =
      ((b.filled locals pkt passed).addPkt env locals pkt passed.2 pkt.pktTime).1 := by
  rw [parse, next, call, ParsePkt_of_some h]
  rfl

theorem parse_of_not_opens (env : Platform) (locals : Locals) (h : ¬ b.Opens pkt) :
    (b.parse env (locals, pkt)).curIntStarttime = b.curIntStarttime ∧
      (b.parse env (locals, pkt)).curIntEndtime = b.curIntEndtime ∧
      (b.parse env (locals, pkt)).analyser = b.analyser := by
  cases hpass : pkt.passes with
  | none =>
    rw [parse, next, call, ParsePkt_of_none hpass, fillPkt_eq]
    exact ⟨rfl, rfl, rfl⟩
  | some passed =>
    have hlate : pkt.pktTime < (b.filled locals pkt passed).curIntStarttime := by
      by_contra hlate
      exact h ⟨by simp [hpass], not_lt.mp hlate⟩
    rw [parse_of_some hpass, addPkt_late hlate]
    exact ⟨rfl, rfl, rfl⟩

theorem addPkt_opens (env : Platform) (locals : Locals) (pkt : TracePacket) (hb : b.WellKept)
    {t : Int} (h : b.curIntStarttime ≤ t) (type : IPProto) :
    (b.addPkt env locals pkt type t).1.curIntStarttime = (b.openInterval t).curIntStarttime ∧
      (b.addPkt env locals pkt type t).1.curIntEndtime = (b.openInterval t).curIntEndtime ∧
      (b.addPkt env locals pkt type t).1.analyser =
        if type = .TCP then (b.returned env locals .tcp).1 else b.analyser := by
  cases ht : Transport.ofProto type with
  | none =>
    have htype : type ≠ .TCP := by
      rintro rfl
      cases ht
    rw [addPkt_unsupported (not_lt.mpr h) ht, if_neg htype]
    refine ⟨rfl, rfl, ?_⟩
    rw [openInterval_eq]
  | some transport =>
    obtain rfl := Transport.eq_proto_of_ofProto ht
    obtain ⟨b₁, p, -, hf, hadd⟩ := addPkt_delivered env locals pkt hb (not_lt.mpr h) transport
    have hrest := hf.rest
    rw [hadd]
    refine ⟨?_, ?_, ?_⟩
    · rw [hrest]
    · rw [hrest]
    · cases transport <;> rfl

theorem returned_window (s : Site) :
    (b.returned env locals .tcp).1.window s =
      match (b.ppkt.packet env.undef locals).message env.inet with
      | some (site, dPkt) => if s = site then (b.window s).tick dPkt.seconds else b.window s
      | none => b.window s := by
  simp only [returned, Analyser.addPkt_eq_deliver]
  cases hmessage : (b.ppkt.packet env.undef locals).message env.inet with
  | none => rfl
  | some m => exact Analyser.window_deliver b.analyser m.1 s m.2

theorem parse_of_opens (env : Platform) (locals : Locals) (hb : b.WellKept) (h : b.Opens pkt) :
    (b.parse env (locals, pkt)).curIntStarttime = (b.openInterval pkt.pktTime).curIntStarttime ∧
      (b.parse env (locals, pkt)).curIntEndtime = (b.openInterval pkt.pktTime).curIntEndtime ∧
      ∀ s, (b.parse env (locals, pkt)).window s =
        if pkt.site env = some s then (b.window s).tick pkt.newTime else b.window s := by
  obtain ⟨⟨header, proto⟩, hpass⟩ := Option.isSome_iff_exists.mp h.1
  have hfilled : (b.filled locals pkt (header, proto)).WellKept :=
    ⟨hb.row_pos, hb.stored, hb.stored_inj, hb.stored_all⟩
  obtain ⟨hstart, hend, hanalyser⟩ := addPkt_opens env locals pkt hfilled h.2 proto
  have hinterval : (b.filled locals pkt (header, proto)).openInterval pkt.pktTime =
      (b.openInterval pkt.pktTime).filled locals pkt (header, proto) := by
    by_cases hzero : b.curIntEndtime = 0
    · have hzero' : (b.filled locals pkt (header, proto)).curIntEndtime = 0 := hzero
      rw [openInterval, openInterval, if_pos hzero, if_pos hzero']
      rfl
    · have hzero' : (b.filled locals pkt (header, proto)).curIntEndtime ≠ 0 := hzero
      rw [openInterval, openInterval, if_neg hzero, if_neg hzero']
  rw [hinterval] at hstart hend
  rw [parse_of_some hpass]
  refine ⟨hstart, hend, fun s => ?_⟩
  rw [window, hanalyser]
  by_cases hproto : proto = .TCP
  · subst hproto
    rw [if_pos rfl, returned_window]
    change (match (pkt.seen env b.ppkt locals header).message env.inet with
      | some (site, dPkt) => if s = site then (b.window s).tick dPkt.seconds else b.window s
      | none => b.window s) = _
    rw [← message_seen hpass b.ppkt locals]
    cases hmessage : (pkt.seen env b.ppkt locals header).message env.inet with
    | none => rfl
    | some m =>
      simp only [Option.map_some, Option.some.injEq, seconds_of_message hmessage, eq_comm]
  · rw [if_neg hproto, site_of_passes hpass hproto]
    rfl

theorem checked_eq (env : Platform) (b : DisplayStats) (locals : Locals) (pkt : TracePacket) :
    b.checked env locals pkt =
      if b.Opens pkt then (pkt.site env).map fun s => ((b.window s).checkTime pkt.newTime).2
      else none := by
  cases hpass : pkt.passes with
  | none =>
    have hopens : ¬ b.Opens pkt := by simp [Opens, hpass]
    obtain ⟨_, hfill⟩ := fillPkt_eq_of_none locals b hpass
    rw [if_neg hopens, checked, hfill]
  | some passed =>
    obtain ⟨header, proto⟩ := passed
    by_cases hproto : proto = .TCP
    · subst hproto
      simp only [checked, fillPkt_of_some hpass]
      by_cases hlate : toInt pkt.seconds < b.curIntStarttime
      · have hopens : ¬ b.Opens pkt := fun h => not_le.mpr hlate h.2
        rw [if_pos hlate, if_neg hopens]
      · have hopens : b.Opens pkt := ⟨by simp [hpass], not_lt.mp hlate⟩
        rw [if_neg hlate, if_pos hopens, ← message_seen hpass b.ppkt locals, Option.map_map]
        change ((pkt.seen env b.ppkt locals header).message env.inet).map _ = _
        cases hmessage : (pkt.seen env b.ppkt locals header).message env.inet with
        | none => rfl
        | some m =>
          rw [Option.map_some, Option.map_some, seconds_of_message hmessage]
          rfl
    · rw [site_of_passes hpass hproto, Option.map_none, ite_self, checked, fillPkt_of_some hpass]
      split
      · rename_i heq
        cases heq
        exact absurd rfl hproto
      · rfl

end Step

theorem checkTime_passes_iff (w : Interface) (t : Nat) :
    (w.checkTime t).2 = 1 ∨ (w.checkTime t).2 = 2 ↔ w.startTime ≤ t := by
  rcases checkTime_cases w t with
    ⟨ht, h⟩ | ⟨ht, _, h⟩ | ⟨ht, _, h⟩ | ⟨_, h0, h⟩ | ⟨_, _, ht, h⟩
  · simp [h, ht]
  · simp [h, ht]
  · simp [h, ht]
  · simp [h, h0]
  · simp [h, ht]

/-- The packet may move the window. One that is open stays where it is for packets up to its end,
the end itself included. -/
def Moves (w : Interface) (t : Nat) : Prop := w.startTime = 0 ∨ w.endTime < t

theorem tick_cases {w : Interface} (hw : OnGrid w) (t : Nat) :
    (w.tick t).startTime = w.startTime ∨
      w.startTime ≤ t ∧ Moves w t ∧ (w.tick t).startTime = t - t % 10 := by
  have hend := hw.2
  have hstart := hw.1
  rcases checkTime_cases w t with
    ⟨_, h⟩ | ⟨_, _, h⟩ | ⟨ht, hlt, h⟩ | ⟨ht, h0, h⟩ | ⟨_, _, _, h⟩ <;> rw [Interface.tick, h]
  · exact .inl rfl
  · exact .inl rfl
  · exact .inr ⟨ht, .inr hlt, rfl⟩
  · exact .inr ⟨by omega, .inl h0, by dsimp only; omega⟩
  · exact .inl rfl

/-- What holds of every `displayStats` object between two packets. -/
structure Sane (b : DisplayStats) : Prop where
  wellKept : b.WellKept
  nonneg : 0 ≤ b.curIntStarttime
  onGrid : ∀ site, OnGrid (b.window site)

theorem sane_initial (ppkt : MPacket) : (initial ppkt).Sane :=
  ⟨wellKept_initial ppkt, le_rfl, fun _ => ⟨rfl, .inr ⟨rfl, rfl⟩⟩⟩

/-- A Diameter packet that is neither older than the interval nor than its window. -/
def Eligible (env : Platform) (b : DisplayStats) (pkt : TracePacket) : Prop :=
  b.Opens pkt ∧ ∃ site ∈ pkt.site env, (b.window site).startTime ≤ pkt.newTime

instance (env : Platform) (b : DisplayStats) (pkt : TracePacket) : Decidable (b.Eligible env pkt) :=
  inferInstanceAs (Decidable (_ ∧ _))

/-- The packet reaches `addPkt` of its interface. -/
def Accepted (env : Platform) (b : DisplayStats) (x : Locals × TracePacket) : Prop :=
  b.checked env x.1 x.2 = some 1 ∨ b.checked env x.1 x.2 = some 2

instance (env : Platform) (b : DisplayStats) (x : Locals × TracePacket) :
    Decidable (b.Accepted env x) :=
  inferInstanceAs (Decidable (_ ∨ _))

theorem accepted_iff (env : Platform) (b : DisplayStats) (x : Locals × TracePacket) :
    b.Accepted env x ↔ b.Eligible env x.2 := by
  rw [Accepted, checked_eq, Eligible]
  by_cases hopens : b.Opens x.2
  · rw [if_pos hopens]
    cases hsite : x.2.site env with
    | none => simp
    | some site => simpa [hopens] using checkTime_passes_iff (b.window site) x.2.newTime
  · simp [hopens]

section Step

variable {env : Platform} {b : DisplayStats}

theorem window_parse (env : Platform) (hb : b.WellKept) (x : Locals × TracePacket) (site : Site) :
    (b.parse env x).window site = b.window site ∨
      b.Opens x.2 ∧ x.2.site env = some site ∧
        (b.parse env x).window site = (b.window site).tick x.2.newTime := by
  obtain ⟨locals, pkt⟩ := x
  by_cases hopens : b.Opens pkt
  · have hwindow := (parse_of_opens env locals hb hopens).2.2 site
    by_cases hsite : pkt.site env = some site
    · rw [if_pos hsite] at hwindow
      exact .inr ⟨hopens, hsite, hwindow⟩
    · rw [if_neg hsite] at hwindow
      exact .inl hwindow
  · obtain ⟨-, -, hanalyser⟩ := parse_of_not_opens env locals hopens
    exact .inl (congrArg (Analyser.window · site) hanalyser)

theorem interval_parse (env : Platform) (hb : b.WellKept) (x : Locals × TracePacket) :
    ((b.parse env x).curIntStarttime = b.curIntStarttime ∧
      (b.parse env x).curIntEndtime = b.curIntEndtime ∧
      (b.curIntEndtime = 0 → ¬ b.Opens x.2)) ∨
    b.curIntEndtime = 0 ∧ b.Opens x.2 ∧ (b.parse env x).curIntStarttime = x.2.pktTime ∧
      (b.parse env x).curIntEndtime = x.2.pktTime + TIMEINT := by
  obtain ⟨locals, pkt⟩ := x
  by_cases hopens : b.Opens pkt
  · obtain ⟨hstart, hend, -⟩ := parse_of_opens env locals hb hopens
    rw [hstart, hend, openInterval]
    by_cases hzero : b.curIntEndtime = 0
    · rw [if_pos hzero]
      exact .inr ⟨hzero, hopens, rfl, rfl⟩
    · rw [if_neg hzero]
      exact .inl ⟨rfl, rfl, fun h => absurd h hzero⟩
  · obtain ⟨hstart, hend, -⟩ := parse_of_not_opens env locals hopens
    exact .inl ⟨hstart, hend, fun _ => hopens⟩

end Step

end DisplayStats

end AnalysePcap
