import AnalysePcap.ScanOrder

/-! What a flow object is given of a packet. It is read from the one `m_Packet`, so it may
depend on earlier packets and on the variables of `ParsePkt` that are not initialised. -/

namespace AnalysePcap

open DisplayStats

/-- What is compared over two histories: `none` is a null pointer. -/
@[ext] structure Receipt where
  pay_load : Option Buffer
  srcPort : Nat
  dstPort : Nat
  dataLen : Nat
  timeStamp : ℚ
  header : List (BitVec 8)

def MPacket.receipt (ppkt : MPacket) (t : Transport) : Receipt where
  pay_load := some ppkt.pay_load
  srcPort := ppkt.srcPort
  dstPort := ppkt.dstPort
  dataLen := ppkt.dataLen
  timeStamp := ppkt.timeStamp
  header :=
    match t with
    | .tcp => ppkt.tcp
    | .udp => ppkt.udp

def TracePacket.receipt (pkt : TracePacket) (t : Transport) : Receipt where
  pay_load := pkt.payload.map Prod.fst
  srcPort := pkt.sourcePort
  dstPort := pkt.destinationPort
  dataLen := pkt.wireLength.toNat
  timeStamp := pkt.seconds
  header := pkt.headerBytes t

namespace DisplayStats

/-- What `ppkt` holds when `addPkt` calls `addPkt` of the chosen object, by the class of
that object. -/
def handed (b : DisplayStats) (prototype : IPProto) (pktTime : Int) : Option Receipt :=
  if pktTime < b.curIntStarttime then none
  else
    let b := b.openInterval pktTime
    match b.getProtoBase b.ppkt.ip4_src b.ppkt.ip4_dst prototype with
    | (_, none) => none
    | (b, some p) =>
      b.heap[p]?.bind fun flow => (Transport.ofProto flow.m_protocoltyp).map b.ppkt.receipt

def received (b : DisplayStats) (locals : Locals) (pkt : TracePacket) : Option Receipt :=
  match b.fillPkt locals pkt with
  | (_, none) => none
  | (b, some proto) => b.handed proto (toInt pkt.seconds)

section Received

variable {b : DisplayStats} {locals : Locals} {pkt : TracePacket} {header : Layer3}

theorem handed_of_le (hb : b.WellKept) {pktTime : Int} (htime : b.curIntStarttime ≤ pktTime)
    (t : Transport) : b.handed t.proto pktTime = some (b.ppkt.receipt t) := by
  obtain ⟨b₁, p, hget, hf⟩ := getProtoBase_spec (hb.openInterval pktTime) t b.ppkt.ip4_src
    b.ppkt.ip4_dst
  obtain ⟨p', flow, hp', hflow, htype⟩ := hf.wellKept.stored hf.stored
  cases hp'
  have hclass : Transport.ofProto flow.m_protocoltyp = some t := by
    rw [htype]
    cases t <;> rfl
  have hppkt : (b.openInterval pktTime).ppkt = b.ppkt := by rw [openInterval_eq]
  have hrest : b₁.ppkt = b.ppkt := by rw [hf.rest, hppkt]
  simp only [handed, if_neg (not_lt.mpr htime), hppkt, hget, hflow, Option.bind_some, hclass,
    Option.map_some, hrest]

theorem received_of_passes (hb : b.WellKept) {t : Transport}
    (hpass : pkt.passes = some (header, t.proto)) (htime : b.curIntStarttime ≤ toInt pkt.seconds)
    (locals : Locals) :
    b.received locals pkt =
      some (((b.ppkt.fill pkt header t.proto).fillPayload locals pkt t.proto).receipt t) := by
  have hfilled := hb.fillPkt locals pkt
  rw [fillPkt_of_some hpass] at hfilled
  rw [received, fillPkt_of_some hpass]
  exact handed_of_le hfilled htime t

theorem passes_of_received {r : Receipt} (h : b.received locals pkt = some r) :
    ∃ header t, pkt.passes = some (header, Transport.proto t) ∧
      b.curIntStarttime ≤ toInt pkt.seconds := by
  cases hpass : pkt.passes with
  | none =>
    obtain ⟨_, hfill⟩ := fillPkt_eq_of_none locals b hpass
    rw [received, hfill] at h
    cases h
  | some passed =>
    obtain ⟨header, proto⟩ := passed
    simp only [received, fillPkt_of_some hpass, handed] at h
    split_ifs at h with hlate
    cases ht : Transport.ofProto proto with
    | none => simp [getProtoBase, ht] at h
    | some t => exact ⟨header, t, by rw [Transport.eq_proto_of_ofProto ht], not_lt.mp hlate⟩

end Received

end DisplayStats

theorem receipt_fill_tcp {pkt : TracePacket} {header : Layer3}
    (h : pkt.passes = some (header, .TCP)) (ppkt : MPacket) (locals : Locals) :
    ((ppkt.fill pkt header .TCP).fillPayload locals pkt .TCP).receipt .tcp = pkt.receipt .tcp := by
  obtain ⟨payload, rem, hpayload⟩ := (TracePacket.header_of_passes h).2 rfl
  simp [MPacket.receipt, TracePacket.receipt, MPacket.fillPayload, MPacket.fill, hpayload]

theorem receipt_fill_udp (pkt : TracePacket) (header : Layer3) (ppkt : MPacket)
    (locals : Locals) :
    ((ppkt.fill pkt header .UDP).fillPayload locals pkt .UDP).receipt .udp =
      { pkt.receipt .udp with pay_load := some locals.payload } := by
  simp [MPacket.receipt, TracePacket.receipt, MPacket.fillPayload, MPacket.fill]

/-- After any two histories an object is given the same of the packet, and what the packet
has. -/
def TracePacket.OwnData (pkt : TracePacket) : Prop :=
  ∀ (env env' : Platform) (ppkt ppkt' : MPacket) (before before' : List (Locals × TracePacket))
    (locals locals' : Locals) (r r' : Receipt),
    (Machine.run (parse env) (initial ppkt) before).received locals pkt = some r →
    (Machine.run (parse env') (initial ppkt') before').received locals' pkt = some r' →
      r = r' ∧ ∀ header t, pkt.passes = some (header, Transport.proto t) → r = pkt.receipt t

theorem sane_run_parse (env : Platform) (ppkt : MPacket) (before : List (Locals × TracePacket)) :
    (Machine.run (parse env) (initial ppkt) before).Sane :=
  Machine.run_invariant (fun _ x h => h.parse env x) (sane_initial ppkt) before

theorem received_initial_udp {pkt : TracePacket} {header : Layer3}
    (hpass : pkt.passes = some (header, .UDP)) (htime : 0 ≤ toInt pkt.seconds) (ppkt : MPacket)
    (locals : Locals) :
    (initial ppkt).received locals pkt =
      some { pkt.receipt .udp with pay_load := some locals.payload } := by
  have h := received_of_passes (wellKept_initial ppkt) (t := .udp) hpass htime locals
  exact h.trans (congrArg some (receipt_fill_udp pkt header ppkt locals))

/-- Exactly the packets that go to a UDP object do not arrive as they are. -/
theorem ownData_iff (pkt : TracePacket) :
    pkt.OwnData ↔ (∀ header, pkt.passes ≠ some (header, .UDP)) ∨ toInt pkt.seconds < 0 := by
  constructor
  · intro h
    by_contra hcond
    rw [not_or, not_forall] at hcond
    obtain ⟨⟨header, hpass⟩, htime⟩ := hcond
    have hpass := not_not.mp hpass
    -- two values of the variable that is not initialised
    have hzero := received_initial_udp hpass (not_lt.mp htime) .zero .zero
    have hone := received_initial_udp hpass (not_lt.mp htime) .zero
      { Locals.zero with payload := fun _ => 1 }
    have hsame := (h .plain .plain .zero .zero [] [] _ _ _ _ hzero hone).1
    have hbuffer := Option.some.inj (congrArg Receipt.pay_load hsame)
    exact absurd (congrFun hbuffer 0) (by decide)
  · intro hcond env env' ppkt ppkt' before before' locals locals' r r' hr hr'
    have hs := sane_run_parse env ppkt before
    have hs' := sane_run_parse env' ppkt' before'
    obtain ⟨header, t, hpass, htime⟩ := passes_of_received hr
    obtain ⟨_, _, _, htime'⟩ := passes_of_received hr'
    cases t with
    | udp =>
      have hnonneg := hs.nonneg
      rcases hcond with hcond | hcond
      · exact absurd hpass (hcond header)
      · omega
    | tcp =>
      rw [received_of_passes hs.wellKept hpass htime locals] at hr
      rw [received_of_passes hs'.wellKept hpass htime' locals'] at hr'
      have hown := receipt_fill_tcp hpass
      obtain rfl := (Option.some.inj hr).symm.trans (hown _ locals)
      obtain rfl := (Option.some.inj hr').symm.trans (hown _ locals')
      refine ⟨rfl, fun header' t' hpass' => ?_⟩
      cases t' with
      | tcp => rfl
      | udp => simp [hpass, Transport.proto] at hpass'

/-- A UDP packet after a TCP packet, where the variable still has the payload of the TCP
packet: this is what the UDP object is given. -/
theorem udp_receives_tcp_payload :
    let tcp := TracePacket.sample (.ip 0x0A000001 0x0A000002) .TCP 80 (fun _ => 0x41) 100
    let udp := TracePacket.sample (.ip 0x0A000001 0x0A000002) .UDP 2152 (fun _ => 0x30) 101
    let locals : Locals := { Locals.zero with payload := fun _ => 0x41 }
    let b := (initial .zero).parse .plain (Locals.zero, tcp)
    (∃ r, b.received locals udp = some r ∧ r.pay_load = tcp.payload.map Prod.fst ∧
      r.pay_load ≠ udp.payload.map Prod.fst) ∧ ¬ udp.OwnData := by
  intro tcp udp locals b
  have hpass : udp.passes = some (.ip 0x0A000001 0x0A000002, .UDP) := rfl
  have htime : b.curIntStarttime ≤ toInt udp.seconds := by decide +kernel
  have hb : b.WellKept := (wellKept_initial .zero).next .plain _
  have hr := received_of_passes hb (t := .udp) hpass htime locals
  have hpayload : (fun _ => 0x41 : Buffer) ≠ fun _ => 0x30 := fun h =>
    absurd (congrFun h 0) (by decide)
  refine ⟨⟨_, hr, rfl, fun h => hpayload (Option.some.inj h)⟩, fun h => ?_⟩
  have hown := (h .plain .plain .zero .zero [(Locals.zero, tcp)] [(Locals.zero, tcp)] locals locals
    _ _ hr hr).2 _ .udp hpass
  exact hpayload (Option.some.inj (congrArg Receipt.pay_load hown))

end AnalysePcap
