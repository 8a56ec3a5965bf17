import AnalysePcap.Totals

/-! Which flow object a packet of a trace is counted in. The key is read from the IPv4
part of the one `m_Packet`, whatever the family of the packet is. -/

namespace AnalysePcap

namespace DisplayStats

/-- What `getProtoBase` returns while `ParsePkt` handles the packet, `none` also where
the packet does not get that far. -/
def protoBase (b : DisplayStats) (locals : Locals) (pkt : TracePacket) : Option Nat :=
  match b.fillPkt locals pkt with
  | (_, none) => none
  | (b, some proto) =>
    if toInt pkt.seconds < b.curIntStarttime then none
    else
      ((b.openInterval (toInt pkt.seconds)).getProtoBase b.ppkt.ip4_src b.ppkt.ip4_dst proto).2

/-- The packets of a trace one after the other, each with the contents of the
uninitialised variables at its time. -/
def parse (env : Platform) (b : DisplayStats) (x : Locals × TracePacket) : DisplayStats :=
  b.next env (.ParsePkt x.1 x.2)

/-- The key that the code uses for a packet with this header. -/
def flowKey (b : DisplayStats) (header : Layer3) (t : Transport) :
    Transport × BitVec 32 × BitVec 32 :=
  (t, (b.ppkt.fillAddresses header).ip4_src, (b.ppkt.fillAddresses header).ip4_dst)

def pointer (b : DisplayStats) (key : Transport × BitVec 32 × BitVec 32) : Option (Option Nat) :=
  (b.dashboard key.1).get? key.2.1 key.2.2

section Step

variable {env : Platform} {locals : Locals} {b : DisplayStats} {pkt : TracePacket}

theorem addPkt_kept (hb : b.WellKept) (env : Platform) (locals : Locals) (pkt : TracePacket)
    (type : IPProto) (pktTime : Int) {key : Transport × BitVec 32 × BitVec 32} {q : Option Nat}
    (h : b.pointer key = some q) : (b.addPkt env locals pkt type pktTime).1.pointer key = some q := by
  by_cases hlate : pktTime < b.curIntStarttime
  · rw [addPkt_late hlate]
    exact h
  have hopen : (b.openInterval pktTime).pointer key = some q := by
    rw [openInterval_eq]
    exact h
  cases ht : Transport.ofProto type with
  | none =>
    rw [addPkt_unsupported hlate ht]
    exact hopen
  | some t =>
    obtain rfl := Transport.eq_proto_of_ofProto ht
    obtain ⟨b₁, p, -, hf, hadd⟩ := addPkt_delivered env locals pkt hb hlate t
    rw [hadd]
    exact hf.kept hopen

theorem parse_kept (hb : b.WellKept) (env : Platform) (x : Locals × TracePacket)
    {key : Transport × BitVec 32 × BitVec 32} {q : Option Nat} (h : b.pointer key = some q) :
    (b.parse env x).pointer key = some q := by
  obtain ⟨locals, pkt⟩ := x
  cases hpass : pkt.passes with
  | none =>
    have hfill : (b.fillPkt locals pkt).1.pointer key = some q := by
      rw [fillPkt_eq]
      exact h
    rw [parse, next, call, ParsePkt_of_none hpass]
    exact hfill
  | some passed =>
    have hfilled := hb.fillPkt locals pkt
    rw [fillPkt_of_some hpass] at hfilled
    rw [parse, next, call, ParsePkt_of_some hpass]
    exact addPkt_kept hfilled env locals pkt passed.2 _ h

theorem run_parse_kept (hb : b.WellKept) (env : Platform) (trace : List (Locals × TracePacket))
    {key : Transport × BitVec 32 × BitVec 32} {q : Option Nat} (h : b.pointer key = some q) :
    (Machine.run (parse env) b trace).pointer key = some q :=
  (Machine.run_invariant (P := fun b : DisplayStats => b.WellKept ∧ b.pointer key = some q)
    (fun _ x hb => ⟨hb.1.next env _, parse_kept hb.1 env x hb.2⟩) ⟨hb, h⟩ trace).2

/-- A packet that is given an object leaves it stored under the key of the code. -/
theorem pointer_of_protoBase (hb : b.WellKept) (env : Platform) {p : Nat}
    (h : b.protoBase locals pkt = some p) :
    ∃ header t, pkt.passes = some (header, t.proto) ∧ ¬ toInt pkt.seconds < b.curIntStarttime ∧
      (b.parse env (locals, pkt)).pointer (b.flowKey header t) = some (some p) := by
  cases hpass : pkt.passes with
  | none =>
    obtain ⟨_, hfill⟩ := fillPkt_eq_of_none locals b hpass
    rw [protoBase, hfill] at h
    cases h
  | some passed =>
    obtain ⟨header, proto⟩ := passed
    have hfilled := hb.fillPkt locals pkt
    rw [fillPkt_of_some hpass] at hfilled
    simp only [protoBase, fillPkt_of_some hpass] at h
    split_ifs at h with hlate
    cases ht : Transport.ofProto proto with
    | none => simp [getProtoBase, ht] at h
    | some t =>
      obtain rfl := Transport.eq_proto_of_ofProto ht
      refine ⟨header, t, rfl, hlate, ?_⟩
      obtain ⟨b₁, q, hget, hf, hadd⟩ := addPkt_delivered env locals pkt hfilled hlate t
      rw [hget] at h
      obtain rfl : q = p := Option.some.inj h
      rw [parse, next, call, ParsePkt_of_some hpass, hadd]
      have hstored := hf.stored
      cases t <;> exact hstored

end Step

/-- The packet is given an object exactly under its own transport and addresses: two
packets of the trace share an object if and only if they agree on both. -/
def OwnFlows (env : Platform) (b : DisplayStats) (trace : List (Locals × TracePacket)) : Prop :=
  ∀ pre x mid y post, trace = pre ++ x :: (mid ++ y :: post) → ∀ p q,
    (Machine.run (parse env) b pre).protoBase x.1 x.2 = some p →
    (Machine.run (parse env) b (pre ++ x :: mid)).protoBase y.1 y.2 = some q →
      (p = q ↔ x.2.passes = y.2.passes)

/-- No IPv6 packet reaches `getProtoBase` in this step. -/
def OnlyIPv4 (b : DisplayStats) (x : Locals × TracePacket) : Prop :=
  ¬ toInt x.2.seconds < b.curIntStarttime → ∀ src dst (t : Transport),
    x.2.passes ≠ some (.ip6 src dst, t.proto)

theorem wellKept_run_parse {b : DisplayStats} (hb : b.WellKept) (env : Platform)
    (trace : List (Locals × TracePacket)) : (Machine.run (parse env) b trace).WellKept :=
  Machine.run_invariant (fun _ _ h => h.next env _) hb trace

/-- Two packets are given the same object exactly when the code has the same key for
them, whatever came before and in between. -/
theorem protoBase_eq_iff {b : DisplayStats} (hb : b.WellKept) (env : Platform)
    {x y : Locals × TracePacket} (mid : List (Locals × TracePacket)) {p q : Nat}
    (hp : b.protoBase x.1 x.2 = some p)
    (hq : (Machine.run (parse env) (b.parse env x) mid).protoBase y.1 y.2 = some q) :
    ∃ header t header' t', x.2.passes = some (header, Transport.proto t) ∧
      y.2.passes = some (header', Transport.proto t') ∧
      ¬ toInt x.2.seconds < b.curIntStarttime ∧
      ¬ toInt y.2.seconds < (Machine.run (parse env) (b.parse env x) mid).curIntStarttime ∧
      (p = q ↔ b.flowKey header t =
        (Machine.run (parse env) (b.parse env x) mid).flowKey header' t') := by
  have hx := hb.next env (.ParsePkt x.1 x.2)
  have hmid := wellKept_run_parse hx env mid
  have hy := hmid.next env (.ParsePkt y.1 y.2)
  obtain ⟨header, t, hpass, hlate, hstored⟩ := pointer_of_protoBase hb env hp
  obtain ⟨header', t', hpass', hlate', hstored'⟩ := pointer_of_protoBase hmid env hq
  have hkept := parse_kept hmid env y (run_parse_kept hx env mid hstored)
  refine ⟨header, t, header', t', hpass, hpass', hlate, hlate', ?_, fun hkey => ?_⟩
  · rintro rfl
    obtain ⟨ht, hsrc, hdst⟩ := hy.stored_inj hkept hstored'
    exact Prod.ext ht (Prod.ext hsrc hdst)
  · rw [hkey] at hkept
    exact Option.some.inj (Option.some.inj (hkept.symm.trans hstored'))

theorem own_flows_of_onlyIPv4 (env : Platform) (ppkt : MPacket)
    {trace : List (Locals × TracePacket)}
    (h : Machine.Along (parse env) OnlyIPv4 (initial ppkt) trace) :
    OwnFlows env (initial ppkt) trace := by
  rintro pre x mid y post rfl p q hp hq
  have hpre := wellKept_run_parse (wellKept_initial ppkt) env pre
  have honly := Machine.along_iff_split.mp h
  have hx := honly pre x _ rfl
  have hy := honly (pre ++ x :: mid) y post (by simp)
  rw [Machine.run_append, Machine.run_cons] at hy hq
  obtain ⟨header, t, header', t', hpass, hpass', hlate, hlate', hiff⟩ :=
    protoBase_eq_iff hpre env mid hp hq
  rw [hiff, hpass, hpass']
  cases header with
  | other ethertype => exact absurd rfl ((TracePacket.header_of_passes hpass).1 ethertype)
  | ip6 src dst => exact absurd hpass (hx hlate src dst t)
  | ip src dst =>
    cases header' with
    | other ethertype => exact absurd rfl ((TracePacket.header_of_passes hpass').1 ethertype)
    | ip6 src' dst' => exact absurd hpass' (hy hlate' src' dst' t')
    | ip src' dst' =>
      have hproto : t = t' ↔ t.proto = t'.proto := by
        cases t <;> cases t' <;> simp [Transport.proto]
      simp only [flowKey, MPacket.fillAddresses, Prod.mk.injEq, Option.some.injEq,
        Layer3.ip.injEq, hproto]
      tauto

theorem own_flows_of_two_IPv4_packets :
    let x := TracePacket.sample (.ip 0x0A000001 0x0A000002) .TCP 80 (fun _ => 0) 100
    let y := TracePacket.sample (.ip 0x0A000001 0x0A000003) .TCP 80 (fun _ => 0) 101
    let trace := [(Locals.zero, x), (Locals.zero, y)]
    Machine.Along (parse .plain) OnlyIPv4 (initial .zero) trace ∧
      OwnFlows .plain (initial .zero) trace := by
  intro x y trace
  have hipv4 : Machine.Along (parse .plain) OnlyIPv4 (initial .zero) trace :=
    ⟨fun _ src dst t h => by simp [x, TracePacket.passes, TracePacket.sample] at h,
      fun _ src dst t h => by simp [y, TracePacket.passes, TracePacket.sample] at h, trivial⟩
  exact ⟨hipv4, own_flows_of_onlyIPv4 .plain .zero hipv4⟩

/-- The IPv6 packet is first counted under 0.0.0.0, and after an IPv4 packet in the
object of that packet. All three are accepted. -/
theorem ipv6_counted_in_flow_of_ipv4 :
    let x := TracePacket.sample (.ip 0x0A000001 0x0A000002) .TCP 80 (fun _ => 0) 101
    let y := TracePacket.sample (.ip6 0x20010db8000000000000000000000001
      0x20010db8000000000000000000000002) .TCP 80 (fun _ => 0) 102
    let b := initial .zero
    let b₁ := b.parse .plain (.zero, { y with seconds := 100 })
    let b₂ := b₁.parse .plain (.zero, x)
    (b.ParsePkt .plain .zero { y with seconds := 100 }).2 = 0 ∧
      (b₁.ParsePkt .plain .zero x).2 = 0 ∧ (b₂.ParsePkt .plain .zero y).2 = 0 ∧
      b.protoBase .zero { y with seconds := 100 } = some 0 ∧ b₁.protoBase .zero x = some 1 ∧
      b₂.protoBase .zero y = some 1 ∧
      ¬ OwnFlows .plain b [(.zero, { y with seconds := 100 }), (.zero, x), (.zero, y)] := by
  intro x y b b₁ b₂
  have hx : b₁.protoBase .zero x = some 1 := by decide +kernel
  have hy : b₂.protoBase .zero y = some 1 := by decide +kernel
  refine ⟨by decide +kernel, by decide +kernel, by decide +kernel, by decide +kernel, hx, hy,
    fun h => ?_⟩
  have hsame := (h [(.zero, { y with seconds := 100 })] (.zero, x) [] (.zero, y) [] rfl 1 1 hx hy).mp
    rfl
  simp [x, y, TracePacket.passes, TracePacket.sample] at hsame

end DisplayStats

end AnalysePcap
