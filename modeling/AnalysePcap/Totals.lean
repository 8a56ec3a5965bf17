import AnalysePcap.DisplayStats
import AnalysePcap.Isolation
import Mathlib.Algebra.BigOperators.Group.List.Basic

/-! The two levels of statistics: the totals of `displayStats` and the counters of the
flow objects in its two maps. -/

namespace AnalysePcap

open DisplayStats

namespace DisplayStats

def objects (b : DisplayStats) : List Flow :=
  ((b.dashboard .tcp).values ++ (b.dashboard .udp).values).filterMap fun q => q.bind (b.heap[·]?)

def Agree (b : DisplayStats) : Prop :=
  b.totalpkts = (b.objects.map Flow.m_totalpkts).sum ∧
    b.totaldatalen = (b.objects.map Flow.m_totaldata).sum

theorem filterMap_getElem?_range {α : Type*} (l : List α) :
    (List.range l.length).filterMap (l[·]?) = l := by
  induction l using List.reverseRecOn with
  | nil => rfl
  | append_singleton l a ih =>
    have hold : (List.range l.length).filterMap ((l ++ [a])[·]?) = l := by
      refine (List.filterMap_congr fun i hi => ?_).trans ih
      exact List.getElem?_append_left (List.mem_range.mp hi)
    rw [List.length_append, List.length_singleton, List.range_succ, List.filterMap_append, hold]
    simp

theorem WellKept.values_perm {b : DisplayStats} (hb : b.WellKept) :
    ((b.dashboard .tcp).values ++ (b.dashboard .udp).values).Perm
      ((List.range b.heap.length).map some) := by
  have hlt {t src dst q} (h : (b.dashboard t).get? src dst = some q) :
      ∃ p, q = some p ∧ p < b.heap.length := by
    obtain ⟨p, flow, rfl, hflow, -⟩ := hb.stored h
    exact ⟨p, rfl, (List.getElem?_eq_some_iff.mp hflow).1⟩
  have hnodup (t : Transport) : (b.dashboard t).values.Nodup := by
    refine NestedTable.values_nodup fun {k k' h h' v} hv hv' => ?_
    obtain ⟨p, rfl, -⟩ := hlt hv
    exact (hb.stored_inj hv hv').2
  have hdisjoint : (b.dashboard .tcp).values.Disjoint (b.dashboard .udp).values := by
    intro q hq hq'
    obtain ⟨src, dst, h⟩ := NestedTable.mem_values.mp hq
    obtain ⟨src', dst', h'⟩ := NestedTable.mem_values.mp hq'
    obtain ⟨p, rfl, -⟩ := hlt h
    cases (hb.stored_inj h h').1
  have hrange : ((List.range b.heap.length).map some).Nodup :=
    List.nodup_range.map (Option.some_injective _)
  refine (List.perm_ext_iff_of_nodup
    ((hnodup .tcp).append (hnodup .udp) hdisjoint) hrange).mpr fun q => ?_
  simp only [List.mem_append, NestedTable.mem_values, List.mem_map, List.mem_range]
  constructor
  · rintro (⟨src, dst, h⟩ | ⟨src, dst, h⟩)
    · obtain ⟨p, rfl, hp⟩ := hlt h
      exact ⟨p, hp, rfl⟩
    · obtain ⟨p, rfl, hp⟩ := hlt h
      exact ⟨p, hp, rfl⟩
  · rintro ⟨p, hp, rfl⟩
    obtain ⟨t, src, dst, h⟩ := hb.stored_all hp
    cases t with
    | tcp => exact .inl ⟨src, dst, h⟩
    | udp => exact .inr ⟨src, dst, h⟩

/-- Every object that has been made is in exactly one place of the two maps. -/
theorem WellKept.objects_perm {b : DisplayStats} (hb : b.WellKept) : b.objects.Perm b.heap := by
  have h := hb.values_perm.filterMap fun q => q.bind (b.heap[·]?)
  have hheap : (List.range b.heap.length).filterMap ((fun q => q.bind (b.heap[·]?)) ∘ some) =
      b.heap := filterMap_getElem?_range b.heap
  rwa [List.filterMap_map, hheap] at h

theorem WellKept.agree_iff {b : DisplayStats} (hb : b.WellKept) :
    b.Agree ↔ b.totalpkts = (b.heap.map Flow.m_totalpkts).sum ∧
      b.totaldatalen = (b.heap.map Flow.m_totaldata).sum := by
  rw [Agree, (hb.objects_perm.map Flow.m_totalpkts).sum_eq,
    (hb.objects_perm.map Flow.m_totaldata).sum_eq]

theorem sum_map_modify {α : Type*} {g : α → Nat} {f : α → α} {n : Nat}
    (hf : ∀ a, g (f a) = g a + n) {l : List α} {p : Nat} (hp : p < l.length) :
    ((l.modify p f).map g).sum = (l.map g).sum + n := by
  induction l generalizing p with
  | nil => simp at hp
  | cons a l ih =>
    cases p with
    | zero =>
      simp only [List.modify_zero_cons, List.map_cons, List.sum_cons, hf]
      omega
    | succ p =>
      have hlen : p < l.length := by simpa using hp
      simp only [List.modify_succ_cons, List.map_cons, List.sum_cons, ih hlen]
      omega

/-- A packet that `protocolTCP::addPkt` returns -1 for. -/
def Rejects (undef : Undefined) (ppkt : MPacket) : Prop :=
  (ppkt.srcPort = 3868 ∨ ppkt.dstPort = 3868) ∧
    (¬ Accepts undef ppkt.pay_load ∨ ppkt.ipv ≠ 4 ∧ ppkt.ipv ≠ 6)

theorem nodeOf_eq_none {inet : Inet} {p : Packet} {request : Int} :
    Analyser.nodeOf inet p request = none ↔ p.ipv ≠ 4 ∧ p.ipv ≠ 6 := by
  unfold Analyser.nodeOf
  split
  · rename_i h
    simp [h]
  · rename_i h
    simp [h]
  · rename_i h4 h6
    exact iff_of_true rfl ⟨h4, h6⟩

theorem message_eq_none {undef : Undefined} {locals : Locals} {ppkt : MPacket} (inet : Inet)
    (hport : ppkt.srcPort = 3868 ∨ ppkt.dstPort = 3868) :
    (ppkt.packet undef locals).message inet = none ↔
      ¬ Accepts undef ppkt.pay_load ∨ ppkt.ipv ≠ 4 ∧ ppkt.ipv ≠ 6 := by
  have hvalid : (ppkt.packet undef locals).dPkt.valid = true ↔ Accepts undef ppkt.pay_load :=
    valid_construct locals.dPkt
  have hport' : (ppkt.packet undef locals).srcPort = 3868 ∨
      (ppkt.packet undef locals).dstPort = 3868 := hport
  by_cases haccepts : Accepts undef ppkt.pay_load
  · have happ : Iface.ofAppId (ppkt.packet undef locals).dPkt.appId ≠ none := by
      rw [MPacket.packet, construct_of_accepts locals.dPkt haccepts]
      exact haccepts.1
    obtain ⟨a, ha⟩ := Option.ne_none_iff_exists'.mp happ
    rw [Packet.message, if_pos ⟨hport', hvalid.mpr haccepts⟩, ha]
    cases hnode : Analyser.nodeOf inet (ppkt.packet undef locals)
        (ppkt.packet undef locals).dPkt.request with
    | none => exact iff_of_true rfl (.inr (nodeOf_eq_none.mp hnode))
    | some node =>
      have hipv : ¬ (ppkt.ipv ≠ 4 ∧ ppkt.ipv ≠ 6) := by
        intro h
        rw [(nodeOf_eq_none (p := ppkt.packet undef locals)).mpr h] at hnode
        cases hnode
      exact iff_of_false (by simp) (fun h => h.elim (fun h => h haccepts) hipv)
  · have hno : ¬ (ppkt.packet undef locals).dPkt.valid = true := fun h => haccepts (hvalid.mp h)
    simp [Packet.message, hno, haccepts]

theorem returned_tcp {env : Platform} {locals : Locals} {b : DisplayStats} :
    (b.returned env locals .tcp).2 = some (-1) ↔ Rejects env.undef b.ppkt := by
  rw [returned, Analyser.addPkt_eq_error, Rejects]
  exact and_congr_right fun hport => message_eq_none env.inet hport

section Step

variable {env : Platform} {locals : Locals} {b : DisplayStats} {pkt : TracePacket} {pktTime : Int}

def Unchanged (b b' : DisplayStats) : Prop :=
  b'.totalpkts = b.totalpkts ∧ b'.totaldatalen = b.totaldatalen ∧ b'.heap = b.heap

theorem Fetched.sum_heap {t : Transport} {src dst : BitVec 32} {b' : DisplayStats} {p : Nat}
    (hf : Fetched b t src dst b' p) {g : Flow → Nat}
    (hg : ∀ type start endd, g (Flow.new type start endd) = 0) :
    (b'.heap.map g).sum = (b.heap.map g).sum := by
  rcases hf.heap with h | h
  · rw [h]
  · simp [h, hg]

/-- A packet that reaches a flow object is counted there, whatever the object returns,
but in the totals only if that is not -1. -/
theorem addPkt_effect (env : Platform) (locals : Locals) (pkt : TracePacket) (hb : b.WellKept)
    (h : ¬ pktTime < b.curIntStarttime) (t : Transport) {r : DisplayStats × Int}
    (hr : b.addPkt env locals pkt t.proto pktTime = r) :
    let rejected := (b.returned env locals t).2 = some (-1)
    r.2 = (if rejected then -1 else 0) ∧
      r.1.totalpkts = b.totalpkts + (if rejected then 0 else 1) ∧
      r.1.totaldatalen = b.totaldatalen + (if rejected then 0 else b.ppkt.dataLen) ∧
      (r.1.heap.map Flow.m_totalpkts).sum = (b.heap.map Flow.m_totalpkts).sum + 1 ∧
      (r.1.heap.map Flow.m_totaldata).sum = (b.heap.map Flow.m_totaldata).sum + b.ppkt.dataLen := by
  obtain ⟨b₁, p, -, hf, hadd⟩ := addPkt_delivered env locals pkt hb h t
  have hheap : (b.openInterval pktTime).heap = b.heap := by rw [openInterval_eq]
  have hlt : p < b₁.heap.length := by
    obtain ⟨p', flow, hp', hflow, -⟩ := hf.wellKept.stored hf.stored
    cases hp'
    exact (List.getElem?_eq_some_iff.mp hflow).1
  have hpkts : (b₁.heap.map Flow.m_totalpkts).sum = (b.heap.map Flow.m_totalpkts).sum := by
    rw [hf.sum_heap fun _ _ _ => rfl, hheap]
  have hdata : (b₁.heap.map Flow.m_totaldata).sum = (b.heap.map Flow.m_totaldata).sum := by
    rw [hf.sum_heap fun _ _ _ => rfl, hheap]
  have hcount (flow : Flow) : (flow.count pkt b.ppkt).m_totalpkts = flow.m_totalpkts + 1 := rfl
  have hcountData (flow : Flow) :
      (flow.count pkt b.ppkt).m_totaldata = flow.m_totaldata + b.ppkt.dataLen := rfl
  rw [← hr, hadd]
  refine ⟨rfl, rfl, rfl, ?_, ?_⟩
  · rw [sum_map_modify hcount hlt, hpkts]
  · rw [sum_map_modify hcountData hlt, hdata]

/-- From a state in which the levels agree, one call keeps the agreement exactly when it
does not bring a rejected packet to an object of `protocolTCP`. -/
theorem addPkt_agree_iff (env : Platform) (locals : Locals) (pkt : TracePacket) (hb : b.WellKept)
    (hagree : b.Agree) {type : IPProto} {pktTime : Int} {r : DisplayStats × Int}
    (hr : b.addPkt env locals pkt type pktTime = r) :
    (r.1.Agree ∧ (r.2 = -1 → Unchanged b r.1)) ↔
      ¬ (¬ pktTime < b.curIntStarttime ∧ type = .TCP ∧ Rejects env.undef b.ppkt) := by
  have hkept : r.1.WellKept := hr ▸ hb.addPkt env locals pkt type pktTime
  rw [hb.agree_iff] at hagree
  rw [hkept.agree_iff]
  by_cases hlate : pktTime < b.curIntStarttime
  · rw [← hr, addPkt_late hlate]
    exact iff_of_true ⟨hagree, fun _ => ⟨rfl, rfl, rfl⟩⟩ (fun h => h.1 hlate)
  · cases ht : Transport.ofProto type with
    | none =>
      have htype : type ≠ .TCP := by
        rintro rfl
        cases ht
      rw [← hr, addPkt_unsupported hlate ht, openInterval_eq]
      exact iff_of_true ⟨hagree, fun _ => ⟨rfl, rfl, rfl⟩⟩ (fun h => htype h.2.1)
    | some t =>
      obtain rfl := Transport.eq_proto_of_ofProto ht
      obtain ⟨hret, hpkts, hdata, hsum, hsumData⟩ := addPkt_effect env locals pkt hb hlate t hr
      by_cases hrej : (b.returned env locals t).2 = some (-1)
      · have htcp : t = .tcp := by
          cases t with
          | tcp => rfl
          | udp => simp [returned] at hrej
        subst htcp
        rw [if_pos hrej] at hpkts
        refine iff_of_false (fun h => ?_) (fun h => h ⟨hlate, rfl, returned_tcp.mp hrej⟩)
        have := h.1.1
        omega
      · rw [if_neg hrej] at hret hpkts hdata
        refine iff_of_true ⟨⟨by omega, by omega⟩, fun h => ?_⟩ (fun h => ?_)
        · rw [hret] at h
          cases h
        · have htcp : t = .tcp := by
            cases t with
            | tcp => rfl
            | udp => cases h.2.1
          subst htcp
          exact hrej (returned_tcp.mpr h.2.2)

end Step

/-- The call brings to `protocolTCP::addPkt` a packet on the Diameter port that is not a
message of the three applications. -/
def Malformed (env : Platform) (b : DisplayStats) : Call → Prop
  | .ParsePkt _ pkt =>
    ¬ toInt pkt.seconds < b.curIntStarttime ∧
      (pkt.sourcePort = 3868 ∨ pkt.destinationPort = 3868) ∧
      ∃ header payload rem, pkt.passes = some (header, .TCP) ∧
        pkt.payload = some (payload, rem) ∧ ¬ Accepts env.undef payload
  | .addPkt _ _ prototype pktTime =>
    ¬ pktTime < b.curIntStarttime ∧ prototype = .TCP ∧ Rejects env.undef b.ppkt

theorem rejects_fill {undef : Undefined} (locals : Locals) {ppkt : MPacket} {pkt : TracePacket}
    {header : Layer3} {payload : Buffer} {rem : Nat} (hother : ∀ ethertype, header ≠ .other ethertype)
    (hpayload : pkt.payload = some (payload, rem)) :
    Rejects undef ((ppkt.fill pkt header .TCP).fillPayload locals pkt .TCP) ↔
      (pkt.sourcePort = 3868 ∨ pkt.destinationPort = 3868) ∧ ¬ Accepts undef payload := by
  have hipv : ¬ ((ppkt.fill pkt header .TCP).ipv ≠ 4 ∧ (ppkt.fill pkt header .TCP).ipv ≠ 6) := by
    cases header with
    | ip src dst => exact fun h => h.1 rfl
    | ip6 src dst => exact fun h => h.2 rfl
    | other ethertype => exact absurd rfl (hother ethertype)
  simp only [Rejects, MPacket.fillPayload, hpayload, Option.map_some, Option.getD_some, hipv,
    or_false]
  rfl

/-- The levels agree after the call, and a call that returns -1 has changed neither. -/
def Consistent (env : Platform) (b : DisplayStats) (c : Call) : Prop :=
  (b.next env c).Agree ∧ ((b.call env c).2 = -1 → Unchanged b (b.next env c))

theorem consistent_iff {b : DisplayStats} (hb : b.WellKept) (hagree : b.Agree) (env : Platform)
    (c : Call) : Consistent env b c ↔ ¬ Malformed env b c := by
  cases c with
  | addPkt locals ptrpkt prototype pktTime =>
    exact addPkt_agree_iff env locals ptrpkt hb hagree rfl
  | ParsePkt locals pkt =>
    have hfilled := hb.fillPkt locals pkt
    cases hpass : pkt.passes with
    | none =>
      have hcall : b.call env (.ParsePkt locals pkt) = ((b.fillPkt locals pkt).1, -1) :=
        ParsePkt_of_none hpass
      rw [Consistent, DisplayStats.next, hcall, fillPkt_eq]
      refine iff_of_true ⟨hagree, fun _ => ⟨rfl, rfl, rfl⟩⟩ ?_
      rintro ⟨-, -, header, payload, rem, h, -⟩
      rw [hpass] at h
      cases h
    | some passed =>
      obtain ⟨header, proto⟩ := passed
      rw [fillPkt_of_some hpass] at hfilled
      have hcall : b.call env (.ParsePkt locals pkt) = _ := ParsePkt_of_some hpass
      have hiff := addPkt_agree_iff env locals pkt hfilled hagree hcall.symm
      refine hiff.trans (not_congr ⟨?_, ?_⟩)
      · rintro ⟨hlate, rfl, hrej⟩
        obtain ⟨hother, htcp⟩ := TracePacket.header_of_passes hpass
        obtain ⟨payload, rem, hpayload⟩ := htcp rfl
        obtain ⟨hport, haccepts⟩ := (rejects_fill locals hother hpayload).mp hrej
        exact ⟨hlate, hport, header, payload, rem, hpass, hpayload, haccepts⟩
      · rintro ⟨hlate, hport, header', payload, rem, hpass', hpayload, haccepts⟩
        obtain ⟨rfl, rfl⟩ : header = header' ∧ proto = .TCP := by
          simpa [hpass] using hpass'
        have hother := (TracePacket.header_of_passes hpass).1
        exact ⟨hlate, rfl, (rejects_fill locals hother hpayload).mpr ⟨hport, haccepts⟩⟩

theorem agree_initial (ppkt : MPacket) : (initial ppkt).Agree := ⟨rfl, rfl⟩

/-- The levels agree throughout a run exactly when no malformed packet reaches an object
of `protocolTCP`. -/
theorem levels_agree_iff (env : Platform) (ppkt : MPacket) (calls : List Call) :
    Machine.Along (next env) (Consistent env) (initial ppkt) calls ↔
      Machine.Along (next env) (fun b c => ¬ Malformed env b c) (initial ppkt) calls :=
  Machine.along_iff_of_invariant (I := fun b : DisplayStats => b.WellKept ∧ b.Agree)
    (fun _ c hb => consistent_iff hb.1 hb.2 env c) (fun _ c hb hc => ⟨hb.1.next env c, hc.1⟩)
    ⟨wellKept_initial ppkt, agree_initial ppkt⟩ calls

end DisplayStats

def Platform.plain : Platform := ⟨.plain, fun _ _ => 0⟩

def Locals.zero : Locals := ⟨fun _ => 0, ⟨⟨0, 0, 0, 0, 0, 0, 0, false⟩, 0, 0⟩⟩

def MPacket.zero : MPacket := ⟨0, 0, 0, 0, 0, [], [], .other 0, 0, 0, 0, false, fun _ => 0, 0, 0⟩

/-- A packet of 114 bytes whose headers are all there. -/
def TracePacket.sample (header : Layer3) (proto : IPProto) (port : Nat) (payload : Buffer)
    (seconds : ℚ) : TracePacket where
  wireLength := 114
  layer3 := some (header, 100)
  transport := some (proto, 80)
  transportHeader := fun _ => 0
  seconds := seconds
  sourcePort := 50000
  destinationPort := port
  payload := some (payload, 60)
  direction := 0

/-- A keep-alive of zeros to the Diameter port is counted by the flow object only. -/
theorem levels_differ_after_zeros :
    let pkt := TracePacket.sample (.ip 0x0A000001 0x0A000002) .TCP 3868 (fun _ => 0) 100
    let b := (initial .zero).ParsePkt .plain .zero pkt
    b.2 = -1 ∧ b.1.totalpkts = 0 ∧ b.1.totaldatalen = 0 ∧
      (b.1.objects.map Flow.m_totalpkts).sum = 1 ∧ (b.1.objects.map Flow.m_totaldata).sum = 114 ∧
      ¬ Machine.Along (next .plain) (Consistent .plain) (initial .zero) [.ParsePkt .zero pkt] := by
  intro pkt b
  have hpkts : b.1.totalpkts = 0 := by decide +kernel
  have hsum : (b.1.objects.map Flow.m_totalpkts).sum = 1 := by decide +kernel
  refine ⟨by decide +kernel, hpkts, by decide +kernel, hsum, by decide +kernel, fun h => ?_⟩
  have hagree : b.1.totalpkts = (b.1.objects.map Flow.m_totalpkts).sum := h.1.1.1
  rw [hpkts, hsum] at hagree
  exact absurd hagree (by decide)

end AnalysePcap
