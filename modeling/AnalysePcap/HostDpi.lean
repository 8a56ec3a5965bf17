import AnalysePcap.Sip
import AnalysePcap.Totals

/-! `appLayer`: the application protocol of a packet, as nDPI detects it or guesses it from
the addresses and ports, and the counters of the packets of each protocol. The flow that is
guessed from is a local variable, and its addresses and its ports are put in order one after
the other. -/

namespace AnalysePcap

/-- The packet with the header that `ip_ptr` points to. -/
structure DpiPacket extends MPacket where
  ip_ptr : Buffer
  ipSize : Int

/-- The number that a little-endian machine reads. -/
def leNat (bs : List (BitVec 8)) : Nat := beNat bs.reverse

namespace DpiPacket

def saddr (cmPkt : DpiPacket) : Nat := leNat (bytesAt cmPkt.ip_ptr 12 4)

def daddr (cmPkt : DpiPacket) : Nat := leNat (bytesAt cmPkt.ip_ptr 16 4)

end DpiPacket

/-- A port of a transport header, which begins with the two of them. -/
def headerPort (header : List (BitVec 8)) (offset : Nat) : Nat :=
  leNat [header.getD offset 0, header.getD (offset + 1) 0]

def ntohs (n : Nat) : Nat := n % 256 * 256 + n / 256 % 256

def ntohl (n : Nat) : Nat := ntohs (n % 2 ^ 16) * 2 ^ 16 + ntohs (n / 2 ^ 16)

/-- The members of `ndpi_flow_t` that are read. -/
structure NdpiFlow where
  lower_ip : Nat
  upper_ip : Nat
  lower_port : Nat
  upper_port : Nat
  protocol : IPProto
  detected_protocol : Nat
  deriving DecidableEq, Repr

namespace NdpiFlow

/-- The addresses of IPv4. Those of IPv6 are not set. -/
def fillAddresses (dummyFlow : NdpiFlow) (cmPkt : DpiPacket) : NdpiFlow :=
  if cmPkt.ipv = 4 then
    if cmPkt.saddr < cmPkt.daddr then
      { dummyFlow with lower_ip := cmPkt.saddr, upper_ip := cmPkt.daddr }
    else { dummyFlow with lower_ip := cmPkt.daddr, upper_ip := cmPkt.saddr }
  else dummyFlow

/-- The ports, by the addresses that have been put in order already. -/
def fillPorts (dummyFlow : NdpiFlow) (source dest : Nat) : NdpiFlow :=
  if dummyFlow.lower_ip < dummyFlow.upper_ip then
    { dummyFlow with lower_port := source, upper_port := dest }
  else { dummyFlow with lower_port := dest, upper_port := source }

def fill (dummyFlow : NdpiFlow) (cmPkt : DpiPacket) : NdpiFlow :=
  let dummyFlow := { dummyFlow.fillAddresses cmPkt with protocol := cmPkt.type }
  match cmPkt.type with
  | .TCP => dummyFlow.fillPorts (headerPort cmPkt.tcp 0) (headerPort cmPkt.tcp 2)
  | .UDP => dummyFlow.fillPorts (headerPort cmPkt.udp 0) (headerPort cmPkt.udp 2)
  | _ => { dummyFlow with lower_port := 0, upper_port := 0 }

def key (dummyFlow : NdpiFlow) : (Nat × Nat) × (Nat × Nat) :=
  ((dummyFlow.lower_ip, dummyFlow.lower_port), (dummyFlow.upper_ip, dummyFlow.upper_port))

end NdpiFlow

/-- The library: what it makes of a packet with the time in its ticks, its guess from the
protocol and the two endpoints, and its names. -/
structure Ndpi where
  NDPI_PROTOCOL_UNKNOWN : Nat
  NDPI_PROTOCOL_SIP : Nat
  num_supported_protocols : Nat
  detection_process_packet : (ip : Buffer) → (ipSize : Int) → (time : Nat) → Nat
  guess_undetected_protocol : IPProto → (shost sport dhost dport : Nat) → Nat
  proto_name : Nat → Text

def detection_tick_resolution : Nat := 1000

/-- The time of `trace_get_timeval` in the ticks of the library. -/
def TracePacket.ticks (pkt : TracePacket) : Nat :=
  let tv_sec := ⌊pkt.seconds⌋₊
  let tv_usec := ⌊(pkt.seconds - tv_sec) * 1000000⌋₊
  tv_sec * detection_tick_resolution + tv_usec / (1000000 / detection_tick_resolution)

/-- The counters of `appLayer`, and the class `sip`, whose members are static. -/
structure AppLayer where
  protocol_counter : Nat → Nat
  protocol_counter_bytes : Nat → Nat
  sip : Sip

/-- The contents of `dummyFlow` before it is filled, and which of the three blocks of memory
could be had. -/
structure DpiLocals where
  dummyFlow : NdpiFlow
  flow_calloc : Bool
  src_calloc : Bool
  dst_calloc : Bool

namespace AppLayer

def detect (ndpi : Ndpi) (dummyFlow : NdpiFlow) (pkt : TracePacket) (cmPkt : DpiPacket) :
    NdpiFlow :=
  let detected := ndpi.detection_process_packet cmPkt.ip_ptr cmPkt.ipSize pkt.ticks
  let detected :=
    if detected = ndpi.NDPI_PROTOCOL_UNKNOWN then
      ndpi.guess_undetected_protocol dummyFlow.protocol (ntohl dummyFlow.lower_ip)
        (ntohs dummyFlow.lower_port) (ntohl dummyFlow.upper_ip) (ntohs dummyFlow.upper_port)
    else detected
  if detected < 24 ∨ detected = 91 ∨ detected = 92 ∨ detected = 130 ∨ detected = 131 then
    { dummyFlow with detected_protocol := ndpi.NDPI_PROTOCOL_UNKNOWN }
  else { dummyFlow with detected_protocol := detected }

/-- The value is `none` where the function ends without a return statement. -/
def processPkt (ndpi : Ndpi) (locals : DpiLocals) (a : AppLayer) (pkt : TracePacket)
    (cmPkt : DpiPacket) : AppLayer × Option Int :=
  if locals.flow_calloc = false ∨ locals.src_calloc = false ∨ locals.dst_calloc = false then
    (a, some (-1))
  else
    let dummyFlow := detect ndpi (locals.dummyFlow.fill cmPkt) pkt cmPkt
    let proto := dummyFlow.detected_protocol
    ({ protocol_counter := Function.update a.protocol_counter proto (a.protocol_counter proto + 1)
       protocol_counter_bytes := Function.update a.protocol_counter_bytes proto
         (a.protocol_counter_bytes proto + cmPkt.dataLen)
       sip := if proto = ndpi.NDPI_PROTOCOL_SIP then a.sip.processPkt cmPkt.pay_load else a.sip },
      none)

def statLine (ndpi : Ndpi) (a : AppLayer) (splunk : Text) (i : Nat) : Text :=
  splunk ++ " AppLayer=".toList ++ ndpi.proto_name i ++ " Total_pkt=".toList ++
    (toString (a.protocol_counter i)).toList ++ " Total_Datalen=".toList ++
    (toString (a.protocol_counter_bytes i)).toList ++ " bytes  BandWidth=".toList ++
    (toString (a.protocol_counter_bytes i * 8)).toList

/-- The body of the loop of `printStat`. The text in front of the lines is a reference, and it is
made longer before the report of `sip`. -/
def printProtocol (ndpi : Ndpi) :
    AppLayer × Text × List Text → Nat → AppLayer × Text × List Text
  | (a, splunk, lines), i =>
    if 0 < a.protocol_counter i then
      let lines := lines ++ [a.statLine ndpi splunk i]
      if ndpi.proto_name i = "SIP".toList then
        let splunk := splunk ++ " AppLayer=SIP".toList
        let report := a.sip.printStats splunk
        ({ a with sip := report.1 }, splunk, lines ++ report.2)
      else (a, splunk, lines)
    else (a, splunk, lines)

def printStat (ndpi : Ndpi) (a : AppLayer) (splunk : Text) : AppLayer × Text × List Text :=
  (List.range (ndpi.num_supported_protocols + 1)).foldl (printProtocol ndpi) (a, splunk, [])

end AppLayer

namespace DpiPacket

/-- The packets that the addresses and the ports of both directions are taken from. -/
def Keyed (cmPkt : DpiPacket) : Prop := cmPkt.ipv = 4 ∧ (cmPkt.type = .TCP ∨ cmPkt.type = .UDP)

def port (cmPkt : DpiPacket) (offset : Nat) : Nat :=
  match cmPkt.type with
  | .TCP => headerPort cmPkt.tcp offset
  | .UDP => headerPort cmPkt.udp offset
  | _ => 0

def source (cmPkt : DpiPacket) : Nat × Nat := (cmPkt.saddr, cmPkt.port 0)

def destination (cmPkt : DpiPacket) : Nat × Nat := (cmPkt.daddr, cmPkt.port 2)

structure Reverse (cmPkt cmPkt' : DpiPacket) : Prop where
  keyed : cmPkt'.Keyed
  type : cmPkt'.type = cmPkt.type
  source : cmPkt'.source = cmPkt.destination
  destination : cmPkt'.destination = cmPkt.source

/-- The endpoints are kept together, and both directions have the same key, whatever the
variable held before. -/
structure KeyRight (cmPkt : DpiPacket) : Prop where
  together : ∀ dummyFlow : NdpiFlow, (dummyFlow.fill cmPkt).key = (cmPkt.source, cmPkt.destination) ∨
    (dummyFlow.fill cmPkt).key = (cmPkt.destination, cmPkt.source)
  direction : ∀ (cmPkt' : DpiPacket) (dummyFlow dummyFlow' : NdpiFlow), cmPkt.Reverse cmPkt' →
    (dummyFlow'.fill cmPkt').key = (dummyFlow.fill cmPkt).key

/-- The second test finds the addresses in order already, so that it only tells whether they
are equal. -/
theorem key_fill {cmPkt : DpiPacket} (h : cmPkt.Keyed) (dummyFlow : NdpiFlow) :
    (dummyFlow.fill cmPkt).key =
      if cmPkt.saddr < cmPkt.daddr then
        ((cmPkt.saddr, cmPkt.port 0), (cmPkt.daddr, cmPkt.port 2))
      else if cmPkt.daddr < cmPkt.saddr then
        ((cmPkt.daddr, cmPkt.port 0), (cmPkt.saddr, cmPkt.port 2))
      else ((cmPkt.daddr, cmPkt.port 2), (cmPkt.saddr, cmPkt.port 0)) := by
  obtain ⟨hipv, htype⟩ := h
  have hfill : dummyFlow.fill cmPkt =
      { dummyFlow.fillAddresses cmPkt with protocol := cmPkt.type }.fillPorts (cmPkt.port 0)
        (cmPkt.port 2) := by
    rcases htype with htype | htype <;> simp only [NdpiFlow.fill, port, htype]
  simp only [hfill, NdpiFlow.fillAddresses, NdpiFlow.fillPorts, NdpiFlow.key, hipv, if_true]
  split_ifs <;> simp_all

def exchangePorts (header : List (BitVec 8)) : List (BitVec 8) :=
  [header.getD 2 0, header.getD 3 0, header.getD 0 0, header.getD 1 0] ++ header.drop 4

def reversed (cmPkt : DpiPacket) : DpiPacket :=
  { cmPkt with
    ip_ptr := fun i =>
      if 12 ≤ i ∧ i < 16 then cmPkt.ip_ptr (i + 4)
      else if 16 ≤ i ∧ i < 20 then cmPkt.ip_ptr (i - 4)
      else cmPkt.ip_ptr i
    tcp := exchangePorts cmPkt.tcp
    udp := exchangePorts cmPkt.udp }

theorem reverse_reversed {cmPkt : DpiPacket} (h : cmPkt.Keyed) : cmPkt.Reverse cmPkt.reversed where
  keyed := h
  type := rfl
  source := by
    rcases h.2 with htype | htype <;> simp only [source, destination, port, reversed, htype] <;> rfl
  destination := by
    rcases h.2 with htype | htype <;> simp only [source, destination, port, reversed, htype] <;> rfl

section Key

variable {cmPkt cmPkt' : DpiPacket}

theorem Reverse.parts (h : cmPkt.Reverse cmPkt') :
    (cmPkt'.saddr = cmPkt.daddr ∧ cmPkt'.port 0 = cmPkt.port 2) ∧
      cmPkt'.daddr = cmPkt.saddr ∧ cmPkt'.port 2 = cmPkt.port 0 :=
  ⟨Prod.ext_iff.mp h.source, Prod.ext_iff.mp h.destination⟩

theorem keyRight_of_port_eq (h : cmPkt.Keyed) (hport : cmPkt.port 0 = cmPkt.port 2) :
    cmPkt.KeyRight where
  together dummyFlow := by
    rw [key_fill h, source, destination, hport]
    split_ifs
    · exact .inl rfl
    · exact .inr rfl
    · exact .inr rfl
  direction cmPkt' dummyFlow dummyFlow' hrev := by
    obtain ⟨⟨hsaddr, hsource⟩, hdaddr, hdest⟩ := hrev.parts
    rw [key_fill h, key_fill hrev.keyed, hsaddr, hdaddr, hsource, hdest, hport]
    split_ifs
    · omega
    · rfl
    · rfl
    · have haddr : cmPkt.saddr = cmPkt.daddr := by omega
      rw [haddr]

/-- With the addresses in order, the reverse direction exchanges the ports. Out of order, the
ports are exchanged at once. -/
theorem KeyRight.port_eq (hright : cmPkt.KeyRight) (h : cmPkt.Keyed) :
    cmPkt.port 0 = cmPkt.port 2 := by
  have dummyFlow : NdpiFlow := ⟨0, 0, 0, 0, .TCP, 0⟩
  have hrev := reverse_reversed h
  obtain ⟨⟨hsaddr, hsource⟩, hdaddr, hdest⟩ := hrev.parts
  have hdirection := hright.direction _ dummyFlow dummyFlow hrev
  have htogether := hright.together dummyFlow
  rw [key_fill h, key_fill hrev.keyed, hsaddr, hdaddr, hsource, hdest] at hdirection
  rw [key_fill h, source, destination] at htogether
  rcases lt_trichotomy cmPkt.saddr cmPkt.daddr with hlt | heq | hgt
  · simp only [if_pos hlt, if_neg hlt.not_gt, Prod.mk.injEq] at hdirection
    exact hdirection.2.2
  · simp only [heq, lt_irrefl, if_false, Prod.mk.injEq] at hdirection
    exact hdirection.1.2
  · simp only [if_pos hgt, if_neg hgt.not_gt, Prod.mk.injEq] at htogether
    rcases htogether with ⟨⟨haddr, -⟩, -⟩ | ⟨⟨-, hport⟩, -⟩
    · omega
    · exact hport

end Key

/-- The key is right for the packets with the same port at both ends, and for no others. -/
theorem keyRight_iff (cmPkt : DpiPacket) :
    (cmPkt.Keyed → cmPkt.KeyRight) ↔ (cmPkt.Keyed → cmPkt.port 0 = cmPkt.port 2) := by
  constructor
  · intro hright h
    exact (hright h).port_eq h
  · intro hport h
    exact keyRight_of_port_eq h (hport h)

end DpiPacket

/-- A packet from port 5060 of 10.0.0.2 to port 80 of 10.0.0.1. -/
def descendingPacket : DpiPacket where
  toMPacket := { MPacket.zero with ipv := 4, type := .UDP, udp := [0x13, 0xC4, 0x00, 0x50] }
  ip_ptr := fun i =>
    [0x45, 0, 0, 28, 0, 0, 0, 0, 64, 17, 0, 0, 10, 0, 0, 2, 10, 0, 0, 1].getD i 0
  ipSize := 28

/-- The lower address comes with the port of the other end. -/
theorem descendingPacket_mixed :
    let dummyFlow : NdpiFlow := ⟨0, 0, 0, 0, .TCP, 0⟩
    descendingPacket.Keyed ∧
      descendingPacket.source = (leNat [10, 0, 0, 2], leNat [0x13, 0xC4]) ∧
      descendingPacket.destination = (leNat [10, 0, 0, 1], leNat [0x00, 0x50]) ∧
      (dummyFlow.fill descendingPacket).key =
        ((leNat [10, 0, 0, 1], leNat [0x13, 0xC4]), (leNat [10, 0, 0, 2], leNat [0x00, 0x50])) ∧
      ¬ (descendingPacket.Keyed → descendingPacket.KeyRight) := by
  intro dummyFlow
  have hkeyed : descendingPacket.Keyed := ⟨rfl, .inr rfl⟩
  have hsource : descendingPacket.source = (leNat [10, 0, 0, 2], leNat [0x13, 0xC4]) := by
    decide +kernel
  have hdest : descendingPacket.destination = (leNat [10, 0, 0, 1], leNat [0x00, 0x50]) := by
    decide +kernel
  have hkey : (dummyFlow.fill descendingPacket).key =
      ((leNat [10, 0, 0, 1], leNat [0x13, 0xC4]), (leNat [10, 0, 0, 2], leNat [0x00, 0x50])) := by
    decide +kernel
  refine ⟨hkeyed, hsource, hdest, hkey, fun hright => ?_⟩
  have htogether := (hright hkeyed).together dummyFlow
  rw [hkey, hsource, hdest] at htogether
  exact absurd htogether (by decide)

end AnalysePcap
