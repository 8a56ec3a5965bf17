import AnalysePcap.Outcome

/-! The Diameter part of `protocolTCP::addPkt`. A packet selects an interface object
by its application and its pair of nodes, and `getInterface` replaces the hop
identifier by the next value of two counters of the application. -/

namespace AnalysePcap

open DiameterInterface

structure Inet where
  inet_ntoa : BitVec 32 → Text
  inet_ntop : BitVec 128 → Text

/-- The fields of `m_Packet` read here. The payload is given by the object that the
constructor of `Diameter` makes of it. -/
structure Packet where
  srcPort : Nat
  dstPort : Nat
  ipv : Nat
  ip4_src : BitVec 32
  ip4_dst : BitVec 32
  ipv6_src : BitVec 128
  ipv6_dst : BitVec 128
  dPkt : Diameter
  timeStamp : ℚ

structure HopIds where
  reqHopid : Nat
  resHopid : Nat

/-- The block marked as a test of distinct identifiers. Both counters are wrapped
before either is used. -/
def HopIds.next (ids : HopIds) (request : Int) : HopIds × Nat :=
  let reqHopid := if ids.reqHopid = 100 then 0 else ids.reqHopid
  let resHopid := if ids.resHopid = 0 then 100 else ids.resHopid
  if request ≠ 0 then (⟨reqHopid + 1, resHopid⟩, reqHopid + 1)
  else (⟨reqHopid, resHopid - 1⟩, resHopid)

namespace Analyser

def nodeOf (inet : Inet) (tcppkt : Packet) (request : Int) : Option Text :=
  match tcppkt.ipv with
  | 4 =>
    let ip := inet.inet_ntoa tcppkt.ip4_src
    let dstip := inet.inet_ntoa tcppkt.ip4_dst
    -- an answer has the key of its request
    some (if request = 1 then ip ++ '-' :: dstip else dstip ++ '-' :: ip)
  | 6 =>
    let ip := inet.inet_ntop tcppkt.ipv6_src
    let dstip := inet.inet_ntop tcppkt.ipv6_dst
    some (if request = 1 then ip ++ '-' :: dstip else dstip ++ '-' :: ip)
  | _ => none

def reportNode (node : Text) : Text :=
  let src := node.takeWhile (· ≠ '-')
  let dst := (node.drop (src.length + 1)).takeWhile (· ≠ '-')
  "sip=".toList ++ src ++ " dip=".toList ++ dst

end Analyser

abbrev Site := Iface × Text

def Packet.message (inet : Inet) (tcppkt : Packet) : Option (Site × Diameter) :=
  if (tcppkt.srcPort = 3868 ∨ tcppkt.dstPort = 3868) ∧ tcppkt.dPkt.valid = true then
    match Analyser.nodeOf inet tcppkt tcppkt.dPkt.request, Iface.ofAppId tcppkt.dPkt.appId with
    | some node, some a => some ((a, node), { tcppkt.dPkt with timeStamp := tcppkt.timeStamp })
    | _, _ => none
  else none

/-- How the objects of an application are kept. `fetch` is `map[nodeip]`, with a new object if
there is none, and the object is read and written by what it returns. -/
structure NodeMap (T : InterfaceKind → Type) (ρ : Type) where
  fetch : {K : InterfaceKind} → T K → Text → T K × ρ
  read : {K : InterfaceKind} → T K → ρ → DiameterInterface K
  write : {K : InterfaceKind} → T K → ρ → DiameterInterface K → T K

/-- The global state: `GxMap`, `GyMap` and `S6bMap`, the counters of `getInterface`
and the reports printed so far with the object that printed them. -/
structure Globals (T : InterfaceKind → Type) where
  map : (a : Iface) → T a.kind
  ids : Iface → HopIds
  printed : List (Σ a : Iface, Text × Report a.kind)

namespace Globals

open Analyser

variable {T : InterfaceKind → Type} {ρ : Type} (m : NodeMap T ρ)

/-- The pointer returned is given with the class of the object. -/
def getInterface (t : Globals T) (dPkt : Diameter) (nodeip : Text) :
    Globals T × Option (Iface × ρ × Diameter) :=
  match Iface.ofAppId dPkt.appId with
  | none => (t, none)
  | some a =>
    let found := m.fetch (t.map a) nodeip
    let hop := (t.ids a).next dPkt.request
    ({ t with
        map := Function.update t.map a found.1
        ids := Function.update t.ids a hop.1 },
      some (a, found.2, { dPkt with hopIdentifier := hop.2 }))

/-- The value returned is `none` where control leaves the function without a return
statement. -/
def addPkt (inet : Inet) (t : Globals T) (tcppkt : Packet) : Globals T × Option Int :=
  if tcppkt.srcPort = 3868 ∨ tcppkt.dstPort = 3868 then
    if tcppkt.dPkt.valid = false then (t, some (-1))
    else
      let dPkt := { tcppkt.dPkt with timeStamp := tcppkt.timeStamp }
      match nodeOf inet tcppkt dPkt.request with
      | none => (t, some (-1))
      | some node =>
        match t.getInterface m dPkt node with
        | (t, none) => (t, some (-1))
        | (t, some (a, interface, dPkt)) =>
          let driven := (m.read (t.map a) interface).drive (reportNode node) dPkt
          ({ t with
              map := Function.update t.map a (m.write (t.map a) interface driven.1)
              printed := t.printed ++ driven.2.toList.map fun report => ⟨a, node, report⟩ }, none)
  else (t, none)

def deliver (t : Globals T) (site : Site) (dPkt : Diameter) : Globals T :=
  let hop := (t.ids site.1).next dPkt.request
  let found := m.fetch (t.map site.1) site.2
  let driven := (m.read found.1 found.2).drive (reportNode site.2)
    { dPkt with hopIdentifier := hop.2 }
  { map := Function.update t.map site.1 (m.write found.1 found.2 driven.1)
    ids := Function.update t.ids site.1 hop.1
    printed := t.printed ++ driven.2.toList.map fun report => ⟨site.1, site.2, report⟩ }

theorem addPkt_eq (inet : Inet) (t : Globals T) (tcppkt : Packet) :
    addPkt m inet t tcppkt = match tcppkt.message inet with
      | none => (t, if tcppkt.srcPort = 3868 ∨ tcppkt.dstPort = 3868 then some (-1) else none)
      | some (site, dPkt) => (t.deliver m site dPkt, none) := by
  unfold addPkt Packet.message
  by_cases hport : tcppkt.srcPort = 3868 ∨ tcppkt.dstPort = 3868
  · by_cases hv : tcppkt.dPkt.valid = false
    · simp [hport, hv]
    · rw [Bool.not_eq_false] at hv
      cases hnode : nodeOf inet tcppkt tcppkt.dPkt.request with
      | none => simp [hport, hv, hnode]
      | some node =>
        cases happ : Iface.ofAppId tcppkt.dPkt.appId with
        | none => simp [hport, hv, hnode, getInterface, happ]
        | some a => simp [hport, hv, hnode, getInterface, happ, deliver]
  · simp [hport]

end Globals

abbrev ObjectMap (K : InterfaceKind) := AList fun _ : Text => DiameterInterface K

/-- The maps with the objects themselves, for all that does not depend on which object is which. -/
def objectMap : NodeMap ObjectMap Text where
  fetch map nodeip := (map.insert nodeip ((map.lookup nodeip).getD DiameterInterface.initial), nodeip)
  read map nodeip := (map.lookup nodeip).getD DiameterInterface.initial
  write map nodeip s := map.insert nodeip s

abbrev Analyser := Globals ObjectMap

namespace Analyser

def initial : Analyser := ⟨fun _ => ∅, fun _ => ⟨0, 100⟩, []⟩

def addPkt (inet : Inet) (t : Analyser) (tcppkt : Packet) : Analyser × Option Int :=
  Globals.addPkt objectMap inet t tcppkt

def deliver (t : Analyser) (site : Site) (dPkt : Diameter) : Analyser :=
  let hop := (t.ids site.1).next dPkt.request
  let s := ((t.map site.1).lookup site.2).getD DiameterInterface.initial
  let driven := s.drive (reportNode site.2) { dPkt with hopIdentifier := hop.2 }
  { map := Function.update t.map site.1 ((t.map site.1).insert site.2 driven.1)
    ids := Function.update t.ids site.1 hop.1
    printed := t.printed ++ driven.2.toList.map fun report => ⟨site.1, site.2, report⟩ }

theorem deliver_objectMap (t : Analyser) (site : Site) (dPkt : Diameter) :
    Globals.deliver objectMap t site dPkt = deliver t site dPkt := by
  simp [Globals.deliver, objectMap, deliver, AList.insert_insert]

theorem addPkt_eq (inet : Inet) (t : Analyser) (tcppkt : Packet) :
    addPkt inet t tcppkt = match tcppkt.message inet with
      | none => (t, if tcppkt.srcPort = 3868 ∨ tcppkt.dstPort = 3868 then some (-1) else none)
      | some (site, dPkt) => (deliver t site dPkt, none) := by
  rw [addPkt, Globals.addPkt_eq]
  cases tcppkt.message inet with
  | none => rfl
  | some msg => exact congrArg (·, none) (deliver_objectMap t msg.1 msg.2)

theorem addPkt_eq_deliver (inet : Inet) (t : Analyser) (tcppkt : Packet) :
    (addPkt inet t tcppkt).1 = match tcppkt.message inet with
      | none => t
      | some (site, dPkt) => deliver t site dPkt := by
  rw [addPkt_eq]
  cases tcppkt.message inet <;> rfl

/-- A packet on the Diameter port is an error exactly when it is not given to an object. -/
theorem addPkt_eq_error {inet : Inet} {t : Analyser} {tcppkt : Packet} :
    (addPkt inet t tcppkt).2 = some (-1) ↔
      (tcppkt.srcPort = 3868 ∨ tcppkt.dstPort = 3868) ∧ tcppkt.message inet = none := by
  rw [addPkt_eq]
  cases tcppkt.message inet with
  | none => by_cases hport : tcppkt.srcPort = 3868 ∨ tcppkt.dstPort = 3868 <;> simp [hport]
  | some msg => simp

def reportAt (site : Site) : ((a : Iface) × Text × Report a.kind) → Option (Report site.1.kind)
  | ⟨a, node, report⟩ =>
    if h : a = site.1 then if node = site.2 then some (h ▸ report) else none else none

def view (t : Analyser) (site : Site) :
    DiameterInterface site.1.kind × List (Report site.1.kind) :=
  (((t.map site.1).lookup site.2).getD DiameterInterface.initial,
    t.printed.filterMap (reportAt site))

def viewStep (site : Site) (v : DiameterInterface site.1.kind × List (Report site.1.kind))
    (dPkt : Diameter) : DiameterInterface site.1.kind × List (Report site.1.kind) :=
  ((v.1.drive (reportNode site.2) dPkt).1, v.2 ++ (v.1.drive (reportNode site.2) dPkt).2.toList)

@[simp] theorem reportAt_self (site : Site) (report : Report site.1.kind) :
    reportAt site ⟨site.1, site.2, report⟩ = some report := by
  simp [reportAt]

theorem reportAt_other {site site' : Site} (h : site' ≠ site) (report : Report site.1.kind) :
    reportAt site' ⟨site.1, site.2, report⟩ = none := by
  have hne : site.1 = site'.1 → site.2 ≠ site'.2 := fun h₁ h₂ => h (Prod.ext h₁ h₂).symm
  by_cases h₁ : site.1 = site'.1
  · simp [reportAt, h₁, hne h₁]
  · simp [reportAt, h₁]

theorem lookup_deliver_other {site site' : Site} (h : site' ≠ site) (t : Analyser)
    (dPkt : Diameter) :
    ((t.deliver site dPkt).map site'.1).lookup site'.2 = (t.map site'.1).lookup site'.2 := by
  obtain ⟨a, node⟩ := site
  obtain ⟨a', node'⟩ := site'
  by_cases ha : a' = a
  · subst ha
    have hne : node' ≠ node := fun hn => h (by rw [hn])
    simp [deliver, AList.lookup_insert_ne hne]
  · simp [deliver, ha]

theorem view_deliver (t : Analyser) (site : Site) (dPkt : Diameter) :
    (t.deliver site dPkt).view = Machine.route viewStep t.view
      (site, { dPkt with hopIdentifier := ((t.ids site.1).next dPkt.request).2 }) := by
  funext site'
  by_cases h : site' = site
  · subst h
    simp [Machine.route, view, deliver, viewStep]
  · simp only [Machine.route, Function.update_of_ne h, view, lookup_deliver_other h]
    simp [deliver, reportAt_other h]

def next (inet : Inet) (t : Analyser) (tcppkt : Packet) : Analyser := (addPkt inet t tcppkt).1

def run (inet : Inet) (pkts : List Packet) : Analyser := Machine.run (next inet) initial pkts

theorem run_concat (inet : Inet) (pkts : List Packet) (p : Packet) :
    run inet (pkts ++ [p]) = match p.message inet with
      | none => run inet pkts
      | some (site, dPkt) => (run inet pkts).deliver site dPkt := by
  rw [run, Machine.run_concat]
  exact addPkt_eq_deliver inet _ p

def isOf (inet : Inet) (a : Iface) (request : Bool) (p : Packet) : Bool :=
  match p.message inet with
  | none => false
  | some (site, dPkt) => site.1 = a ∧ (decide (dPkt.request ≠ 0)) = request

/-- The hop identifier that replaces the one on the wire, by the number of earlier
requests and answers of the application. -/
def hopAfter (inet : Inet) (pre : List Packet) (a : Iface) (request : Int) : Nat :=
  if request ≠ 0 then pre.countP (isOf inet a true) % 100 + 1
  else 100 - pre.countP (isOf inet a false) % 100

structure Counts (ids : HopIds) (n m : Nat) : Prop where
  req_le : ids.reqHopid ≤ 100
  req_mod : ids.reqHopid % 100 = n % 100
  res_le : ids.resHopid ≤ 100
  res_mod : (ids.resHopid + m) % 100 = 0

theorem Counts.next {ids : HopIds} {n m : Nat} (h : Counts ids n m) (request : Int) :
    Counts (ids.next request).1 (n + if request ≠ 0 then 1 else 0)
      (m + if request ≠ 0 then 0 else 1) := by
  obtain ⟨h₁, h₂, h₃, h₄⟩ := h
  rw [HopIds.next]
  by_cases hr : request ≠ 0
  · simp only [if_pos hr]
    constructor <;> dsimp only <;> split_ifs <;> omega
  · simp only [if_neg hr]
    constructor <;> dsimp only <;> split_ifs <;> omega

theorem Counts.next_snd {ids : HopIds} {n m : Nat} (h : Counts ids n m) (request : Int) :
    (ids.next request).2 = if request ≠ 0 then n % 100 + 1 else 100 - m % 100 := by
  obtain ⟨h₁, h₂, h₃, h₄⟩ := h
  rw [HopIds.next]
  by_cases hr : request ≠ 0
  · simp only [if_pos hr]
    split_ifs <;> omega
  · simp only [if_neg hr]
    split_ifs <;> omega

theorem counts_deliver {t : Analyser} {a : Iface} {n m : Nat} (h : Counts (t.ids a) n m)
    (site : Site) (dPkt : Diameter) :
    Counts ((t.deliver site dPkt).ids a)
      (n + if site.1 = a ∧ (decide (dPkt.request ≠ 0)) = true then 1 else 0)
      (m + if site.1 = a ∧ (decide (dPkt.request ≠ 0)) = false then 1 else 0) := by
  by_cases ha : site.1 = a
  · subst ha
    have hnext := h.next dPkt.request
    by_cases hr : dPkt.request = 0 <;> simpa [deliver, hr] using hnext
  · simpa [deliver, ha, Function.update_of_ne (Ne.symm ha)] using h

theorem counts_run (inet : Inet) (a : Iface) (pre : List Packet) :
    Counts ((run inet pre).ids a) (pre.countP (isOf inet a true))
      (pre.countP (isOf inet a false)) := by
  induction pre using List.reverseRecOn with
  | nil => exact ⟨Nat.zero_le _, rfl, le_refl _, by simp [run, initial]⟩
  | append_singleton pre p ih =>
    rw [run_concat, List.countP_append, List.countP_append, List.countP_singleton,
      List.countP_singleton]
    cases hm : p.message inet with
    | none => simpa [isOf, hm] using ih
    | some msg =>
      obtain ⟨site, dPkt⟩ := msg
      have hc := counts_deliver ih site dPkt
      simpa only [isOf, hm, decide_eq_true_eq] using hc

def assigned (inet : Inet) (pre : List Packet) (site : Site) (dPkt : Diameter) : Diameter :=
  { dPkt with hopIdentifier := hopAfter inet pre site.1 dPkt.request }

theorem view_concat (inet : Inet) (pre : List Packet) (p : Packet) :
    (run inet (pre ++ [p])).view = match p.message inet with
      | none => (run inet pre).view
      | some (site, dPkt) =>
        Machine.route viewStep (run inet pre).view (site, assigned inet pre site dPkt) := by
  rw [run_concat]
  cases p.message inet with
  | none => rfl
  | some msg =>
    obtain ⟨site, dPkt⟩ := msg
    have hhop := (counts_run inet site.1 pre).next_snd dPkt.request
    show ((run inet pre).deliver site dPkt).view = _
    rw [view_deliver, hhop]
    rfl

def received (inet : Inet) : List Packet → List Packet → List (Site × Diameter)
  | _, [] => []
  | pre, p :: ps =>
    (p.message inet).toList.map (fun msg => (msg.1, assigned inet pre msg.1 msg.2)) ++
      received inet (pre ++ [p]) ps

/-- Each object runs as if it were alone with the packets it receives. -/
theorem view_run (inet : Inet) (pre ps : List Packet) (site : Site) :
    (run inet (pre ++ ps)).view site =
      Machine.run (viewStep site) ((run inet pre).view site)
        (Machine.inputsAt site (received inet pre ps)) := by
  rw [← Machine.run_route viewStep (run inet pre).view]
  refine congrFun ?_ site
  induction ps generalizing pre with
  | nil => simp [received]
  | cons p ps ih =>
    have hstep := view_concat inet pre p
    rw [show pre ++ p :: ps = (pre ++ [p]) ++ ps by simp, ih, hstep, received, Machine.run_append]
    cases p.message inet <;> rfl

end Analyser

end AnalysePcap
