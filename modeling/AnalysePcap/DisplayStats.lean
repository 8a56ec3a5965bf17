import AnalysePcap.Decode
import AnalysePcap.ProtocolTCP

/-! `displayStats`: from a packet as libtrace gives it to the flow object that counts it
and, for Diameter, to the interface objects. All packets go through one `m_Packet`. -/

namespace AnalysePcap

inductive IPProto where
  | TCP
  | UDP
  | SCTP
  | other (proto : Nat)
  deriving DecidableEq, Repr

def TRACE_ETHERTYPE_IP : Nat := 0x0800

def TRACE_ETHERTYPE_IPV6 : Nat := 0x86DD

def TIMEINT : Int := 60

inductive Layer3 where
  | ip (src dst : BitVec 32)
  | ip6 (src dst : BitVec 128)
  | other (ethertype : Nat)

/-- What libtrace tells about a packet: `none` is a null pointer, and a header or a
payload comes with the number of bytes that remain. -/
structure TracePacket where
  wireLength : Int
  layer3 : Option (Layer3 × Nat)
  transport : Option (IPProto × Nat)
  transportHeader : Buffer
  seconds : ℚ
  sourcePort : Nat
  destinationPort : Nat
  payload : Option (Buffer × Nat)
  direction : Int

structure MPacket where
  ether_type : Nat
  ip4_src : BitVec 32
  ip4_dst : BitVec 32
  ipv6_src : BitVec 128
  ipv6_dst : BitVec 128
  udp : List (BitVec 8)
  tcp : List (BitVec 8)
  type : IPProto
  timeStamp : ℚ
  ipv : Nat
  dataLen : Nat
  Downlink : Bool
  pay_load : Buffer
  srcPort : Nat
  dstPort : Nat

/-- The counters that `protocolTCP` and `protocolUDP` both have. -/
structure Flow where
  m_protocoltyp : IPProto
  m_starttime : Int
  m_endtime : Int
  m_totalpkts : Nat
  m_totaldata : Nat
  m_totalipv4 : Nat
  m_totalip6 : Nat
  m_totaldownlink : Nat
  m_totaluplink : Nat

def Flow.new (type : IPProto) (start endd : Int) : Flow := ⟨type, start, endd, 0, 0, 0, 0, 0, 0⟩

/-- The beginning of `addPkt` in both classes. -/
def Flow.count (flow : Flow) (pkt : TracePacket) (ppkt : MPacket) : Flow :=
  { flow with
    m_totalpkts := flow.m_totalpkts + 1
    m_totaldata := flow.m_totaldata + ppkt.dataLen
    m_totalipv4 := flow.m_totalipv4 + if ppkt.ether_type = TRACE_ETHERTYPE_IP then 1 else 0
    m_totalip6 := flow.m_totalip6 + if ppkt.ether_type = TRACE_ETHERTYPE_IPV6 then 1 else 0
    m_totaldownlink := flow.m_totaldownlink + if pkt.direction = 0 then ppkt.dataLen else 0
    m_totaluplink := flow.m_totaluplink + if pkt.direction = 0 then 0 else ppkt.dataLen }

/-- What the program runs on: the library functions for addresses, and what it computes
where the language does not say. -/
structure Platform where
  inet : Inet
  undef : Undefined

/-- The local variables that are read before they are set: `payload` of `ParsePkt` and
the memory of `dPkt` in `protocolTCP::addPkt`. -/
structure Locals where
  payload : Buffer
  dPkt : DiameterObject

def MPacket.packet (undef : Undefined) (locals : Locals) (tcppkt : MPacket) : Packet where
  srcPort := tcppkt.srcPort
  dstPort := tcppkt.dstPort
  ipv := tcppkt.ipv
  ip4_src := tcppkt.ip4_src
  ip4_dst := tcppkt.ip4_dst
  ipv6_src := tcppkt.ipv6_src
  ipv6_dst := tcppkt.ipv6_dst
  dPkt := (locals.dPkt.construct undef tcppkt.pay_load).toDiameter
  timeStamp := tcppkt.timeStamp

inductive Transport where
  | tcp
  | udp
  deriving DecidableEq, Repr

def Transport.proto : Transport → IPProto
  | .tcp => .TCP
  | .udp => .UDP

def Transport.ofProto : IPProto → Option Transport
  | .TCP => some .tcp
  | .UDP => some .udp
  | _ => none

theorem Transport.eq_proto_of_ofProto {type : IPProto} {t : Transport}
    (h : Transport.ofProto type = some t) : type = t.proto := by
  cases type <;> cases h <;> rfl

/-- An iterator over an inner map: the map it belongs to and its element, `none` at
the end. -/
structure Iterator where
  map : Transport × BitVec 32
  at? : Option (BitVec 32)

/-- The members of `displayStats`, with `tcpDashboard` and `udpDashboard` as the two
values of `dashboard`, the flow objects on the heap and the global variables. A stored
pointer is `none` if it is null. -/
structure DisplayStats where
  curIntStarttime : Int
  curIntEndtime : Int
  totalpkts : Nat
  totaldatalen : Nat
  dashboard : Transport → NestedTable (BitVec 32) (BitVec 32) (Option Nat)
  it2 : Option Iterator
  heap : List Flow
  ppkt : MPacket
  analyser : Analyser

/-- The header and the protocol of a packet that `ParsePkt` passes on to `addPkt`. -/
def TracePacket.passes (pkt : TracePacket) : Option (Layer3 × IPProto) :=
  match pkt.layer3, pkt.transport with
  | some (header, rem), some (proto, rem') =>
    if rem = 0 ∨ rem' = 0 then none
    else
      match header, proto, pkt.payload with
      | .other _, _, _ => none
      | header, .TCP, some (_, rem'') => if rem'' = 0 then none else some (header, .TCP)
      | header, .UDP, some (_, rem'') => if rem'' = 0 then none else some (header, .UDP)
      | header, .SCTP, _ => some (header, .SCTP)
      | _, _, _ => none
  | _, _ => none

theorem TracePacket.header_of_passes {pkt : TracePacket} {header : Layer3} {proto : IPProto}
    (h : pkt.passes = some (header, proto)) :
    (∀ ethertype, header ≠ .other ethertype) ∧
      (proto = .TCP → ∃ payload rem, pkt.payload = some (payload, rem)) := by
  unfold TracePacket.passes at h
  split at h
  · split_ifs at h
    split at h
    · cases h
    · split_ifs at h
      cases h
      exact ⟨by assumption, fun _ => ⟨_, _, by assumption⟩⟩
    · split_ifs at h
      cases h
      exact ⟨by assumption, fun htcp => by cases htcp⟩
    · cases h
      exact ⟨by assumption, fun htcp => by cases htcp⟩
    · cases h
  · cases h

/-- What is copied of the transport header: as many bytes as `libtrace_tcp_t` and
`libtrace_udp_t` have. -/
def TracePacket.headerBytes (pkt : TracePacket) : Transport → List (BitVec 8)
  | .tcp => (List.range 20).map pkt.transportHeader
  | .udp => (List.range 8).map pkt.transportHeader

namespace MPacket

/-- The parts of `ppkt` that hold the addresses of one family are left as they were when
a packet of the other family is filled in. -/
def fillAddresses (ppkt : MPacket) : Layer3 → MPacket
  | .ip src dst =>
    { ppkt with ether_type := TRACE_ETHERTYPE_IP, ip4_src := src, ip4_dst := dst, ipv := 4 }
  | .ip6 src dst =>
    { ppkt with ether_type := TRACE_ETHERTYPE_IPV6, ipv6_src := src, ipv6_dst := dst, ipv := 6 }
  | .other _ => ppkt

def fillPayload (ppkt : MPacket) (locals : Locals) (pkt : TracePacket) : IPProto → MPacket
  | .TCP => { ppkt with pay_load := (pkt.payload.map Prod.fst).getD ppkt.pay_load }
  -- the payload found is not the variable that is stored
  | .UDP => { ppkt with pay_load := locals.payload }
  | _ => ppkt

def fill (ppkt : MPacket) (pkt : TracePacket) (header : Layer3) (proto : IPProto) : MPacket :=
  { ppkt.fillAddresses header with
    udp := if proto = .UDP then pkt.headerBytes .udp else ppkt.udp
    tcp := if proto = .TCP then pkt.headerBytes .tcp else ppkt.tcp
    dataLen := pkt.wireLength.toNat
    timeStamp := pkt.seconds
    type := proto
    srcPort := pkt.sourcePort
    dstPort := pkt.destinationPort }

end MPacket

namespace DisplayStats

def initial (ppkt : MPacket) : DisplayStats where
  curIntStarttime := 0
  curIntEndtime := 0
  totalpkts := 0
  totaldatalen := 0
  dashboard _ := ∅
  it2 := none
  heap := []
  ppkt := ppkt
  analyser := .initial

def store (b : DisplayStats) (type : Transport) (srcIp dstIp : BitVec 32) (p : Nat) : DisplayStats :=
  { b with
    dashboard := Function.update b.dashboard type ((b.dashboard type).set srcIp dstIp (some p)) }

def getProtoBase (b : DisplayStats) (srcIp dstIp : BitVec 32) (type : IPProto) :
    DisplayStats × Option Nat :=
  match Transport.ofProto type with
  | none => (b, none)
  | some transport =>
    let it1 := (b.dashboard transport).lookup srcIp
    -- `it2` is left as it was if there is no inner map or if it is empty
    let found : Option Iterator × Option Nat :=
      match it1 with
      | some row =>
        if 0 < row.entries.length then
          match row.lookup dstIp with
          | some p => (some ⟨(transport, srcIp), some dstIp⟩, p)
          | none => (some ⟨(transport, srcIp), none⟩, none)
        else (b.it2, none)
      | none => (b.it2, none)
    let b := { b with it2 := found.1 }
    match found.2 with
    | some p => (b, some p)
    | none =>
      let p := b.heap.length
      let b := { b with heap := b.heap ++ [Flow.new type b.curIntStarttime b.curIntEndtime] }
      match it1 with
      | some row =>
        match b.it2.bind Iterator.at? with
        -- nothing is returned here although an object has been made
        | some at2 => (if row.lookup at2 = some none then b.store transport srcIp at2 p else b, none)
        | none => (b.store transport srcIp dstIp p, some p)
      | none => (b.store transport srcIp dstIp p, some p)

/-- The virtual call `protoBase->addPkt(ptrpkt, ppkt)`. The value is `none` where
`protocolTCP::addPkt` ends without a return statement. -/
def protoAddPkt (env : Platform) (locals : Locals) (b : DisplayStats) (p : Nat)
    (pkt : TracePacket) : DisplayStats × Option Int :=
  match b.heap[p]? with
  | none => (b, some 0)
  | some flow =>
    let b := { b with
      heap := b.heap.modify p fun flow => flow.count pkt b.ppkt
      ppkt := { b.ppkt with Downlink := pkt.direction = 0 } }
    match flow.m_protocoltyp with
    | .TCP =>
      let added := b.analyser.addPkt env.inet (b.ppkt.packet env.undef locals)
      ({ b with analyser := added.1 }, added.2)
    | _ => (b, some 0)

/-- The first packet opens the interval. A later packet beyond its end changes nothing. -/
def openInterval (b : DisplayStats) (pktTime : Int) : DisplayStats :=
  if b.curIntEndtime = 0 then
    { b with curIntStarttime := pktTime, curIntEndtime := pktTime + TIMEINT }
  else b

def addPkt (env : Platform) (locals : Locals) (b : DisplayStats) (ptrpkt : TracePacket)
    (prototype : IPProto) (pktTime : Int) : DisplayStats × Int :=
  if pktTime < b.curIntStarttime then (b, -1)
  else
    let b := b.openInterval pktTime
    match b.getProtoBase b.ppkt.ip4_src b.ppkt.ip4_dst prototype with
    | (b, none) => (b, -1)
    | (b, some protoBase) =>
      match b.protoAddPkt env locals protoBase ptrpkt with
      | (b, some (-1)) => (b, -1)
      | (b, _) =>
        ({ b with
            totaldatalen := b.totaldatalen + b.ppkt.dataLen
            totalpkts := b.totalpkts + 1 }, 0)

/-- `ParsePkt` up to its call of `addPkt`: the filled `ppkt`, and `none` where it
returns -1 before the call. -/
def fillPkt (locals : Locals) (b : DisplayStats) (pkt : TracePacket) :
    DisplayStats × Option IPProto :=
  match pkt.layer3 with
  | none => (b, none)
  | some (header, rem) =>
    if rem = 0 then (b, none)
    else
      match header, pkt.transport with
      | .other _, _ => (b, none)
      | _, none => (b, none)
      | header, some (proto, rem) =>
        if rem = 0 then (b, none)
        else
          let b := { b with ppkt := b.ppkt.fill pkt header proto }
          match proto, pkt.payload with
          | .TCP, some (_, rem) =>
            if rem = 0 then (b, none)
            else ({ b with ppkt := b.ppkt.fillPayload locals pkt proto }, some proto)
          | .UDP, some (_, rem) =>
            if rem = 0 then (b, none)
            else ({ b with ppkt := b.ppkt.fillPayload locals pkt proto }, some proto)
          | .SCTP, _ => (b, some proto)
          | _, _ => (b, none)

def ParsePkt (env : Platform) (locals : Locals) (b : DisplayStats) (pkt : TracePacket) :
    DisplayStats × Int :=
  match b.fillPkt locals pkt with
  | (b, none) => (b, -1)
  | (b, some proto) => b.addPkt env locals pkt proto (toInt pkt.seconds)

/-- The calls of the two public functions, with the contents of the uninitialised
variables at the time of the call. -/
inductive Call where
  | ParsePkt (locals : Locals) (pkt : TracePacket)
  | addPkt (locals : Locals) (ptrpkt : TracePacket) (prototype : IPProto) (pktTime : Int)

def call (env : Platform) (b : DisplayStats) : Call → DisplayStats × Int
  | .ParsePkt locals pkt => b.ParsePkt env locals pkt
  | .addPkt locals ptrpkt prototype pktTime => b.addPkt env locals ptrpkt prototype pktTime

def next (env : Platform) (b : DisplayStats) (c : Call) : DisplayStats := (b.call env c).1

/-- What `getProtoBase` relies on: every inner map has an element, and the stored
pointers are the addresses of the objects, each one stored once, of the right class. -/
structure WellKept (b : DisplayStats) : Prop where
  row_pos : ∀ {t src row}, (b.dashboard t).lookup src = some row → 0 < row.entries.length
  stored : ∀ {t src dst q}, (b.dashboard t).get? src dst = some q →
    ∃ p flow, q = some p ∧ b.heap[p]? = some flow ∧ flow.m_protocoltyp = t.proto
  stored_inj : ∀ {t t' src src' dst dst' p}, (b.dashboard t).get? src dst = some (some p) →
    (b.dashboard t').get? src' dst' = some (some p) → t = t' ∧ src = src' ∧ dst = dst'
  stored_all : ∀ {p}, p < b.heap.length → ∃ t src dst, (b.dashboard t).get? src dst = some (some p)

theorem wellKept_initial (ppkt : MPacket) : (initial ppkt).WellKept where
  row_pos h := by simp [initial] at h
  stored h := by simp [initial] at h
  stored_inj h := by simp [initial] at h
  stored_all h := by simp [initial] at h

section GetProtoBase

variable {b : DisplayStats} {t : Transport} {src dst : BitVec 32} {type : IPProto}

theorem getProtoBase_of_some (hb : b.WellKept) (ht : Transport.ofProto type = some t) {p : Nat}
    (hp : (b.dashboard t).get? src dst = some (some p)) :
    ∃ it2, b.getProtoBase src dst type = ({ b with it2 := it2 }, some p) := by
  cases hrow : (b.dashboard t).lookup src with
  | none => simp [NestedTable.get?, NestedTable.row, hrow] at hp
  | some row =>
    have hpos := hb.row_pos hrow
    have hlookup : row.lookup dst = some (some p) := by
      simpa [NestedTable.get?, NestedTable.row, hrow] using hp
    exact ⟨some ⟨(t, src), some dst⟩, by simp only [getProtoBase, ht, hrow, hpos, hlookup, if_true]⟩

theorem getProtoBase_of_none (hb : b.WellKept) (ht : Transport.ofProto type = some t)
    (hp : (b.dashboard t).get? src dst = none) :
    ∃ it2, b.getProtoBase src dst type =
      ({ b with
          it2 := it2
          heap := b.heap ++ [Flow.new type b.curIntStarttime b.curIntEndtime] }.store t src dst
        b.heap.length, some b.heap.length) := by
  cases hrow : (b.dashboard t).lookup src with
  | none => exact ⟨b.it2, by simp only [getProtoBase, ht, hrow]⟩
  | some row =>
    have hpos := hb.row_pos hrow
    have hlookup : row.lookup dst = none := by
      simpa [NestedTable.get?, NestedTable.row, hrow] using hp
    exact ⟨some ⟨(t, src), none⟩, by
      simp only [getProtoBase, ht, hrow, hpos, hlookup, if_true, Option.bind]⟩

/-- The object for a key has been found or made, and nothing else has changed. -/
structure Fetched (b : DisplayStats) (t : Transport) (src dst : BitVec 32) (b' : DisplayStats)
    (p : Nat) : Prop where
  wellKept : b'.WellKept
  stored : (b'.dashboard t).get? src dst = some (some p)
  kept : ∀ {t' src' dst' q}, (b.dashboard t').get? src' dst' = some q →
    (b'.dashboard t').get? src' dst' = some q
  heap : b'.heap = b.heap ∨
    b'.heap = b.heap ++ [Flow.new t.proto b.curIntStarttime b.curIntEndtime]
  rest : b' = { b with dashboard := b'.dashboard, it2 := b'.it2, heap := b'.heap }

theorem get?_store (b : DisplayStats) (t t' : Transport) (src src' dst dst' : BitVec 32) (p : Nat) :
    ((b.store t src dst p).dashboard t').get? src' dst' =
      if t' = t ∧ src' = src ∧ dst' = dst then some (some p)
      else (b.dashboard t').get? src' dst' := by
  by_cases ht : t' = t
  · subst ht
    simp [store, NestedTable.get?_set]
  · simp [store, ht]

theorem WellKept.create (hb : b.WellKept) (hp : (b.dashboard t).get? src dst = none)
    (it2 : Option Iterator) {flow : Flow} (hflow : flow.m_protocoltyp = t.proto) :
    ({ b with it2 := it2, heap := b.heap ++ [flow] }.store t src dst b.heap.length).WellKept := by
  have hlt {t' src' dst' p} (h : (b.dashboard t').get? src' dst' = some (some p)) :
      p < b.heap.length := by
    obtain ⟨p', flow, hp', hflow, -⟩ := hb.stored h
    cases hp'
    exact (List.getElem?_eq_some_iff.mp hflow).1
  constructor
  · intro t' src' row hrow
    by_cases ht : t' = t
    · subst ht
      by_cases hs : src' = src
      · subst hs
        simp only [store, Function.update_self, NestedTable.set, AList.lookup_insert,
          Option.some.injEq] at hrow
        rw [← hrow, AList.entries_insert]
        exact Nat.succ_pos _
      · simp only [store, Function.update_self, NestedTable.set, AList.lookup_insert_ne hs] at hrow
        exact hb.row_pos hrow
    · simp only [store, Function.update_of_ne ht] at hrow
      exact hb.row_pos hrow
  · intro t' src' dst' q hq
    rw [get?_store] at hq
    split_ifs at hq with hkey
    · obtain ⟨rfl, rfl, rfl⟩ := hkey
      cases hq
      exact ⟨b.heap.length, flow, rfl, by simp [store], hflow⟩
    · obtain ⟨p, flow', rfl, hflow', htype⟩ := hb.stored hq
      refine ⟨p, flow', rfl, ?_, htype⟩
      have hlen := (List.getElem?_eq_some_iff.mp hflow').1
      simpa [store, List.getElem?_append_left hlen] using hflow'
  · intro t₁ t₂ src₁ src₂ dst₁ dst₂ p h₁ h₂
    rw [get?_store] at h₁ h₂
    split_ifs at h₁ h₂ with hkey₁ hkey₂ hkey₂
    · exact ⟨hkey₁.1.trans hkey₂.1.symm, hkey₁.2.1.trans hkey₂.2.1.symm,
        hkey₁.2.2.trans hkey₂.2.2.symm⟩
    · cases h₁
      exact absurd (hlt h₂) (lt_irrefl _)
    · cases h₂
      exact absurd (hlt h₁) (lt_irrefl _)
    · exact hb.stored_inj h₁ h₂
  · intro p hlen
    have hlen' : p < b.heap.length + 1 := by simpa [store] using hlen
    rcases Nat.lt_succ_iff_lt_or_eq.mp hlen' with hold | rfl
    · obtain ⟨t', src', dst', h⟩ := hb.stored_all hold
      refine ⟨t', src', dst', ?_⟩
      rw [get?_store, if_neg]
      · exact h
      · rintro ⟨rfl, rfl, rfl⟩
        rw [hp] at h
        cases h
    · exact ⟨t, src, dst, by rw [get?_store, if_pos ⟨rfl, rfl, rfl⟩]⟩

theorem getProtoBase_spec (hb : b.WellKept) (t : Transport) (src dst : BitVec 32) :
    ∃ b' p, b.getProtoBase src dst t.proto = (b', some p) ∧ Fetched b t src dst b' p := by
  have ht : Transport.ofProto t.proto = some t := by cases t <;> rfl
  cases hq : (b.dashboard t).get? src dst with
  | none =>
    obtain ⟨it2, hget⟩ := getProtoBase_of_none hb ht hq
    have hkeep := hb.create hq it2
      (show (Flow.new t.proto b.curIntStarttime b.curIntEndtime).m_protocoltyp = t.proto from rfl)
    refine ⟨_, _, hget, hkeep, ?_, ?_, .inr rfl, rfl⟩
    · rw [get?_store, if_pos ⟨rfl, rfl, rfl⟩]
    · intro t' src' dst' q h
      rw [get?_store, if_neg]
      · exact h
      · rintro ⟨rfl, rfl, rfl⟩
        rw [hq] at h
        cases h
  | some q =>
    obtain ⟨p, flow, rfl, -, -⟩ := hb.stored hq
    obtain ⟨it2, hget⟩ := getProtoBase_of_some hb ht hq
    have hkeep : { b with it2 := it2 }.WellKept :=
      ⟨hb.row_pos, hb.stored, hb.stored_inj, hb.stored_all⟩
    exact ⟨_, p, hget, hkeep, hq, id, .inl rfl, rfl⟩

end GetProtoBase

section AddPkt

variable {env : Platform} {locals : Locals} {b : DisplayStats} {pkt : TracePacket} {pktTime : Int}

theorem WellKept.openInterval (hb : b.WellKept) (pktTime : Int) :
    (b.openInterval pktTime).WellKept := by
  unfold DisplayStats.openInterval
  split_ifs
  · exact ⟨hb.row_pos, hb.stored, hb.stored_inj, hb.stored_all⟩
  · exact hb

theorem openInterval_eq (b : DisplayStats) (pktTime : Int) :
    b.openInterval pktTime =
      { b with
        curIntStarttime := (b.openInterval pktTime).curIntStarttime
        curIntEndtime := (b.openInterval pktTime).curIntEndtime } := by
  unfold DisplayStats.openInterval
  split_ifs <;> rfl

theorem addPkt_late (h : pktTime < b.curIntStarttime) (type : IPProto) :
    b.addPkt env locals pkt type pktTime = (b, -1) := if_pos h

theorem addPkt_unsupported (h : ¬ pktTime < b.curIntStarttime) {type : IPProto}
    (ht : Transport.ofProto type = none) :
    b.addPkt env locals pkt type pktTime = (b.openInterval pktTime, -1) := by
  simp only [addPkt, if_neg h, getProtoBase, ht]

/-- What the flow object returns, and the interfaces after it, by its class. -/
def returned (env : Platform) (locals : Locals) (b : DisplayStats) : Transport → Analyser × Option Int
  | .tcp => b.analyser.addPkt env.inet (b.ppkt.packet env.undef locals)
  | .udp => (b.analyser, some 0)

theorem protoAddPkt_eq {t : Transport} {p : Nat} {flow : Flow} (hflow : b.heap[p]? = some flow)
    (htype : flow.m_protocoltyp = t.proto) :
    b.protoAddPkt env locals p pkt =
      ({ b with
          heap := b.heap.modify p fun flow => flow.count pkt b.ppkt
          ppkt := { b.ppkt with Downlink := pkt.direction = 0 }
          analyser := (b.returned env locals t).1 }, (b.returned env locals t).2) := by
  cases t with
  | tcp =>
    have htcp : flow.m_protocoltyp = .TCP := htype
    simp only [protoAddPkt, hflow, htcp]
    rfl
  | udp =>
    have hudp : flow.m_protocoltyp = .UDP := htype
    simp only [protoAddPkt, hflow, hudp]
    rfl

theorem addPkt_delivered (env : Platform) (locals : Locals) (pkt : TracePacket) (hb : b.WellKept)
    (h : ¬ pktTime < b.curIntStarttime) (t : Transport) :
    ∃ b₁ p, (b.openInterval pktTime).getProtoBase b.ppkt.ip4_src b.ppkt.ip4_dst t.proto =
        (b₁, some p) ∧
      Fetched (b.openInterval pktTime) t b.ppkt.ip4_src b.ppkt.ip4_dst b₁ p ∧
      b.addPkt env locals pkt t.proto pktTime =
        ({ b₁ with
            heap := b₁.heap.modify p fun flow => flow.count pkt b.ppkt
            ppkt := { b.ppkt with Downlink := pkt.direction = 0 }
            analyser := (b.returned env locals t).1
            totaldatalen := b.totaldatalen +
              if (b.returned env locals t).2 = some (-1) then 0 else b.ppkt.dataLen
            totalpkts := b.totalpkts + if (b.returned env locals t).2 = some (-1) then 0 else 1 },
          if (b.returned env locals t).2 = some (-1) then -1 else 0) := by
  obtain ⟨b₁, p, hget, hf⟩ := getProtoBase_spec (hb.openInterval pktTime) t b.ppkt.ip4_src
    b.ppkt.ip4_dst
  refine ⟨b₁, p, hget, hf, ?_⟩
  have hppkt : (b.openInterval pktTime).ppkt = b.ppkt := by rw [openInterval_eq]
  obtain ⟨p', flow, hp', hflow, htype⟩ := hf.wellKept.stored hf.stored
  cases hp'
  have hrest : b₁.ppkt = b.ppkt ∧ b₁.analyser = b.analyser ∧ b₁.totalpkts = b.totalpkts ∧
      b₁.totaldatalen = b.totaldatalen := by
    rw [hf.rest, openInterval_eq]
    exact ⟨rfl, rfl, rfl, rfl⟩
  have hret : b₁.returned env locals t = b.returned env locals t := by
    cases t <;> simp only [returned, hrest.1, hrest.2.1]
  simp only [addPkt, if_neg h, hppkt, hget, protoAddPkt_eq hflow htype, hret, hrest.1]
  by_cases hr : (b.returned env locals t).2 = some (-1)
  · simp [hr, hrest.2.2]
  · simp only [if_neg hr, ← hrest.2.2.1, ← hrest.2.2.2]

theorem WellKept.modify (hb : b.WellKept) (p : Nat) {f : Flow → Flow}
    (hf : ∀ flow, (f flow).m_protocoltyp = flow.m_protocoltyp) {b' : DisplayStats}
    (hdash : b'.dashboard = b.dashboard) (hheap : b'.heap = b.heap.modify p f) : b'.WellKept := by
  constructor
  · rw [hdash]
    exact hb.row_pos
  · intro t src dst q hq
    rw [hdash] at hq
    obtain ⟨p', flow, rfl, hflow, htype⟩ := hb.stored hq
    by_cases hp : p = p'
    · exact ⟨p', f flow, rfl, by simp [hheap, hp, hflow], by rw [hf, htype]⟩
    · exact ⟨p', flow, rfl, by simp [hheap, hp, hflow], htype⟩
  · rw [hdash]
    exact hb.stored_inj
  · intro p' hp'
    rw [hheap, List.length_modify] at hp'
    rw [hdash]
    exact hb.stored_all hp'

theorem WellKept.addPkt (hb : b.WellKept) (env : Platform) (locals : Locals) (pkt : TracePacket)
    (type : IPProto) (pktTime : Int) : (b.addPkt env locals pkt type pktTime).1.WellKept := by
  by_cases hlate : pktTime < b.curIntStarttime
  · rw [addPkt_late hlate]
    exact hb
  · cases ht : Transport.ofProto type with
    | none =>
      rw [addPkt_unsupported hlate ht]
      exact hb.openInterval pktTime
    | some t =>
      obtain rfl := Transport.eq_proto_of_ofProto ht
      obtain ⟨b₁, p, -, hf, hadd⟩ := addPkt_delivered env locals pkt hb hlate t
      rw [hadd]
      exact hf.wellKept.modify p (f := fun flow => flow.count pkt b.ppkt) (fun _ => rfl) rfl rfl

theorem fillPkt_eq (locals : Locals) (b : DisplayStats) (pkt : TracePacket) :
    (b.fillPkt locals pkt).1 = { b with ppkt := (b.fillPkt locals pkt).1.ppkt } := by
  unfold DisplayStats.fillPkt
  split
  · rfl
  · split_ifs
    · rfl
    · split
      · rfl
      · rfl
      · split_ifs
        · rfl
        · dsimp only
          split
          · split_ifs <;> rfl
          · split_ifs <;> rfl
          · rfl
          · rfl

theorem fillPkt_of_none (h : pkt.passes = none) : (b.fillPkt locals pkt).2 = none := by
  unfold DisplayStats.fillPkt
  split
  · rfl
  · rename_i header rem hlayer
    split_ifs with hrem
    · rfl
    · split
      · rfl
      · rfl
      · rename_i proto rem' hother htransport
        split_ifs with hrem'
        · rfl
        · have hrems : ¬ (rem = 0 ∨ rem' = 0) := by tauto
          simp only [TracePacket.passes, hlayer, htransport, if_neg hrems] at h
          dsimp only
          split
          · rename_i hpayload
            simp only [hpayload] at h
            split_ifs with hrem''
            · rfl
            · simp [hrem''] at h
          · rename_i hpayload
            simp only [hpayload] at h
            split_ifs with hrem''
            · rfl
            · simp [hrem''] at h
          · simp at h
          · rfl

theorem fillPkt_eq_of_none (locals : Locals) (b : DisplayStats) (h : pkt.passes = none) :
    ∃ ppkt, b.fillPkt locals pkt = ({ b with ppkt := ppkt }, none) :=
  ⟨(b.fillPkt locals pkt).1.ppkt, Prod.ext (fillPkt_eq locals b pkt) (fillPkt_of_none h)⟩

theorem fillPkt_of_some {header : Layer3} {proto : IPProto}
    (h : pkt.passes = some (header, proto)) :
    b.fillPkt locals pkt =
      ({ b with ppkt := (b.ppkt.fill pkt header proto).fillPayload locals pkt proto }, some proto) := by
  unfold TracePacket.passes at h
  split at h
  · rename_i hlayer htransport
    split_ifs at h with hrem
    rw [not_or] at hrem
    split at h
    · cases h
    · rename_i hother hpayload
      split_ifs at h with hrem''
      cases h
      simp [DisplayStats.fillPkt, hlayer, htransport, hrem, hpayload, hrem'']
    · rename_i hother hpayload
      split_ifs at h with hrem''
      cases h
      simp [DisplayStats.fillPkt, hlayer, htransport, hrem, hpayload, hrem'']
    · rename_i hother
      cases h
      simp [DisplayStats.fillPkt, hlayer, htransport, hrem, MPacket.fillPayload]
    · cases h
  · cases h

theorem WellKept.fillPkt (hb : b.WellKept) (locals : Locals) (pkt : TracePacket) :
    (b.fillPkt locals pkt).1.WellKept := by
  rw [fillPkt_eq]
  exact ⟨hb.row_pos, hb.stored, hb.stored_inj, hb.stored_all⟩

theorem ParsePkt_of_none (h : pkt.passes = none) :
    b.ParsePkt env locals pkt = ((b.fillPkt locals pkt).1, -1) := by
  obtain ⟨ppkt, hfill⟩ := fillPkt_eq_of_none locals b h
  rw [ParsePkt, hfill]

theorem ParsePkt_of_some {header : Layer3} {proto : IPProto}
    (h : pkt.passes = some (header, proto)) :
    b.ParsePkt env locals pkt =
      { b with ppkt := (b.ppkt.fill pkt header proto).fillPayload locals pkt proto }.addPkt env locals
        pkt proto (toInt pkt.seconds) := by
  rw [ParsePkt, fillPkt_of_some h]

theorem WellKept.next (hb : b.WellKept) (env : Platform) (c : Call) : (b.next env c).WellKept := by
  cases c with
  | ParsePkt locals pkt =>
    cases hpass : pkt.passes with
    | none =>
      rw [DisplayStats.next, call, ParsePkt_of_none hpass]
      exact hb.fillPkt locals pkt
    | some passed =>
      have hfilled := hb.fillPkt locals pkt
      rw [fillPkt_of_some hpass] at hfilled
      rw [DisplayStats.next, call, ParsePkt_of_some hpass]
      exact hfilled.addPkt env locals pkt passed.2 _
  | addPkt locals ptrpkt prototype pktTime => exact hb.addPkt env locals ptrpkt prototype pktTime

end AddPkt

end DisplayStats

end AnalysePcap
