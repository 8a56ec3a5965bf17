import AnalysePcap.Isolation
import AnalysePcap.ObjectTable
import AnalysePcap.Digits

/-! The object a Diameter packet is given to. The three maps hold pointers, and a node
key is built from the texts of two addresses and taken apart again for a report. -/

namespace AnalysePcap

inductive Address where
  | v4 (addr : BitVec 32)
  | v6 (addr : BitVec 128)
  deriving DecidableEq, Repr

def Address.text (inet : Inet) : Address → Text
  | .v4 addr => inet.inet_ntoa addr
  | .v6 addr => inet.inet_ntop addr

/-- What is known of the two library functions. -/
structure Inet.Faithful (inet : Inet) : Prop where
  ntoa_injective : Function.Injective inet.inet_ntoa
  ntop_injective : Function.Injective inet.inet_ntop
  families_differ : ∀ a b, inet.inet_ntoa a ≠ inet.inet_ntop b
  ntoa_no_dash : ∀ a, '-' ∉ inet.inet_ntoa a
  ntop_no_dash : ∀ a, '-' ∉ inet.inet_ntop a

namespace Inet.Faithful

variable {inet : Inet}

theorem text_injective (h : inet.Faithful) : Function.Injective (Address.text inet) := by
  rintro (a | a) (b | b) hab
  · rw [h.ntoa_injective hab]
  · exact absurd hab (h.families_differ a b)
  · exact absurd hab.symm (h.families_differ b a)
  · rw [h.ntop_injective hab]

theorem text_no_dash (h : inet.Faithful) : ∀ A : Address, '-' ∉ A.text inet
  | .v4 a => h.ntoa_no_dash a
  | .v6 a => h.ntop_no_dash a

end Inet.Faithful

def nodeKey (inet : Inet) (A B : Address) : Text := A.text inet ++ '-' :: B.text inet

theorem nodeKey_inj {inet : Inet} (h : inet.Faithful) {A B A' B' : Address} :
    nodeKey inet A B = nodeKey inet A' B' ↔ A = A' ∧ B = B' := by
  unfold nodeKey
  rw [List.append_cons_inj_of_notMem (h.text_no_dash A) (h.text_no_dash B)]
  simp [h.text_injective.eq_iff]

theorem takeWhile_of_no_dash {l : Text} (hl : '-' ∉ l) (l' : Text) :
    (l ++ l').takeWhile (· ≠ '-') = l ++ l'.takeWhile (· ≠ '-') :=
  List.takeWhile_append_of_pos fun _ hc => decide_eq_true fun he => hl (he ▸ hc)

theorem reportNode_nodeKey {inet : Inet} (h : inet.Faithful) (A B : Address) :
    Analyser.reportNode (nodeKey inet A B) =
      "sip=".toList ++ A.text inet ++ " dip=".toList ++ B.text inet := by
  have hsrc : (nodeKey inet A B).takeWhile (· ≠ '-') = A.text inet := by
    simpa [nodeKey] using takeWhile_of_no_dash (h.text_no_dash A) ('-' :: B.text inet)
  have hdst : (B.text inet).takeWhile (· ≠ '-') = B.text inet := by
    simpa using takeWhile_of_no_dash (h.text_no_dash B) []
  have hdrop : (nodeKey inet A B).drop ((A.text inet).length + 1) = B.text inet := by
    simp [nodeKey, ← List.drop_drop]
  unfold Analyser.reportNode
  simp only [hsrc, hdrop, hdst]

namespace Packet

def source (p : Packet) : Option Address :=
  match p.ipv with
  | 4 => some (.v4 p.ip4_src)
  | 6 => some (.v6 p.ipv6_src)
  | _ => none

def destination (p : Packet) : Option Address :=
  match p.ipv with
  | 4 => some (.v4 p.ip4_dst)
  | 6 => some (.v6 p.ipv6_dst)
  | _ => none

/-- A Diameter packet of the application, sent from `A` to `B`. -/
structure Carries (p : Packet) (a : Iface) (A B : Address) : Prop where
  port : p.srcPort = 3868 ∨ p.dstPort = 3868
  valid : p.dPkt.valid = true
  app : Iface.ofAppId p.dPkt.appId = some a
  source : p.source = some A
  destination : p.destination = some B

/-- A request from `A` to `B` or an answer from `B` to `A`. -/
def InSession (p : Packet) (a : Iface) (A B : Address) : Prop :=
  p.Carries a A B ∧ p.dPkt.request = 1 ∨ p.Carries a B A ∧ p.dPkt.request = 0

theorem Carries.nodeOf {p : Packet} {a : Iface} {A B : Address} (h : p.Carries a A B)
    (inet : Inet) (request : Int) :
    Analyser.nodeOf inet p request =
      some (if request = 1 then nodeKey inet A B else nodeKey inet B A) := by
  have hs := h.source
  have hd := h.destination
  unfold Packet.source at hs
  unfold Packet.destination at hd
  unfold Analyser.nodeOf
  split at hs
  · rename_i h4
    simp only [h4, Option.some.injEq] at hs hd ⊢
    subst hs hd
    rfl
  · rename_i h6
    simp only [h6, Option.some.injEq] at hs hd ⊢
    subst hs hd
    rfl
  · cases hs

theorem InSession.message {p : Packet} {a : Iface} {A B : Address} (h : p.InSession a A B)
    (inet : Inet) :
    p.message inet =
      some ((a, nodeKey inet A B), { p.dPkt with timeStamp := p.timeStamp }) := by
  unfold Packet.message
  rcases h with ⟨h, hr⟩ | ⟨h, hr⟩
  · simp [h.port, h.valid, h.app, h.nodeOf, hr]
  · simp [h.port, h.valid, h.app, h.nodeOf, hr]

end Packet

abbrev PointerMap (K : InterfaceKind) := ObjectTable Text (DiameterInterface K)

/-- The maps with pointers, as the source has them. -/
def pointerMap : NodeMap PointerMap Nat where
  fetch map nodeip := map.fetch nodeip DiameterInterface.initial
  read map interface := (map.heap[interface]?).getD DiameterInterface.initial
  write map interface s := map.modify interface fun _ => s

abbrev Dispatcher := Globals PointerMap

namespace Dispatcher

variable {K : InterfaceKind}

def initial : Dispatcher := ⟨fun _ => .empty, fun _ => ⟨0, 100⟩, []⟩

def addPkt (inet : Inet) (t : Dispatcher) (tcppkt : Packet) : Dispatcher × Option Int :=
  Globals.addPkt pointerMap inet t tcppkt

/-- The object that `getInterface` returns to `addPkt`, if control gets there. -/
def objectOf (inet : Inet) (t : Dispatcher) (tcppkt : Packet) : Option (Iface × Nat) :=
  if (tcppkt.srcPort = 3868 ∨ tcppkt.dstPort = 3868) ∧ tcppkt.dPkt.valid = true then
    let dPkt := { tcppkt.dPkt with timeStamp := tcppkt.timeStamp }
    (Analyser.nodeOf inet tcppkt dPkt.request).bind fun node =>
      (t.getInterface pointerMap dPkt node).2.map fun found => (found.1, found.2.1)
  else none

def deliver (t : Dispatcher) (site : Site) (dPkt : Diameter) : Dispatcher :=
  Globals.deliver pointerMap t site dPkt

theorem addPkt_eq_deliver (inet : Inet) (t : Dispatcher) (tcppkt : Packet) :
    (addPkt inet t tcppkt).1 = match tcppkt.message inet with
      | none => t
      | some (site, dPkt) => deliver t site dPkt := by
  rw [addPkt, Globals.addPkt_eq]
  cases tcppkt.message inet <;> rfl

theorem objectOf_eq (inet : Inet) (t : Dispatcher) (p : Packet) :
    t.objectOf inet p = (p.message inet).map fun msg =>
      (msg.1.1, ((t.map msg.1.1).fetch msg.1.2 DiameterInterface.initial).2) := by
  unfold objectOf Packet.message
  split_ifs with h
  · cases hnode : Analyser.nodeOf inet p p.dPkt.request with
    | none => simp [hnode]
    | some node =>
      cases happ : Iface.ofAppId p.dPkt.appId with
      | none => simp [hnode, Globals.getInterface, happ]
      | some a => simp [hnode, Globals.getInterface, happ, pointerMap]
  · rfl

/-- The analyser that this state stands for when pointers are forgotten. -/
structure Represents (t : Dispatcher) (s : Analyser) : Prop where
  map : ∀ a node, (s.map a).lookup node = (t.map a).view node
  ids : s.ids = t.ids
  printed : s.printed = t.printed

theorem represents_initial : Represents initial .initial where
  map _ _ := rfl
  ids := rfl
  printed := rfl

theorem heap_fetch (t : ObjectTable Text (DiameterInterface K)) (node : Text)
    (new : DiameterInterface K) :
    (t.fetch node new).1.heap[(t.fetch node new).2]? = some ((t.view node).getD new) := by
  have h := t.view_fetch node node new
  rwa [ObjectTable.view, ObjectTable.lookup_fetch, if_pos rfl, if_pos rfl] at h

theorem Represents.deliver {t : Dispatcher} {s : Analyser} (h : Represents t s) (site : Site)
    (dPkt : Diameter) : Represents (t.deliver site dPkt) (s.deliver site dPkt) := by
  have hobj : ((s.map site.1).lookup site.2).getD DiameterInterface.initial =
      ((t.map site.1).view site.2).getD DiameterInterface.initial := by rw [h.map]
  constructor
  · intro a node
    by_cases ha : a = site.1
    · subst ha
      have hptr : ((t.map site.1).fetch site.2 DiameterInterface.initial).1.ptrs.lookup site.2 =
          some ((t.map site.1).fetch site.2 DiameterInterface.initial).2 := by
        rw [ObjectTable.lookup_fetch, if_pos rfl]
      simp only [Dispatcher.deliver, Globals.deliver, pointerMap, Analyser.deliver,
        Function.update_self, hobj, h.ids, heap_fetch, Option.getD_some]
      rw [ObjectTable.view_modify hptr, ObjectTable.view_fetch, ObjectTable.view_fetch]
      by_cases hn : node = site.2
      · subst hn
        simp
      · simp [hn, AList.lookup_insert_ne hn, h.map]
    · simp [Dispatcher.deliver, Globals.deliver, Analyser.deliver, Function.update_of_ne ha, h.map]
  · simp only [Dispatcher.deliver, Globals.deliver, Analyser.deliver, h.ids]
  · simp only [Dispatcher.deliver, Globals.deliver, pointerMap, Analyser.deliver, hobj, h.ids,
      h.printed, heap_fetch, Option.getD_some]

def next (inet : Inet) (t : Dispatcher) (tcppkt : Packet) : Dispatcher := (addPkt inet t tcppkt).1

def run (inet : Inet) (pkts : List Packet) : Dispatcher := Machine.run (next inet) initial pkts

theorem run_concat (inet : Inet) (pkts : List Packet) (p : Packet) :
    run inet (pkts ++ [p]) = match p.message inet with
      | none => run inet pkts
      | some (site, dPkt) => (run inet pkts).deliver site dPkt := by
  rw [run, Machine.run_concat]
  exact addPkt_eq_deliver inet _ p

theorem represents_run (inet : Inet) (pkts : List Packet) :
    Represents (run inet pkts) (Analyser.run inet pkts) := by
  induction pkts using List.reverseRecOn with
  | nil => exact represents_initial
  | append_singleton pkts p ih =>
    rw [run_concat, Analyser.run_concat]
    cases p.message inet with
    | none => exact ih
    | some msg => exact ih.deliver msg.1 msg.2

def pointer (t : Dispatcher) (site : Site) : Option Nat := (t.map site.1).ptrs.lookup site.2

theorem pointer_deliver (t : Dispatcher) (site : Site) (dPkt : Diameter) :
    (t.deliver site dPkt).pointer site =
      some ((t.map site.1).fetch site.2 DiameterInterface.initial).2 := by
  simp [pointer, deliver, Globals.deliver, pointerMap, ObjectTable.lookup_fetch]

theorem pointer_deliver_of_some {t : Dispatcher} {site : Site} {o : Nat}
    (h : t.pointer site = some o) (site' : Site) (dPkt : Diameter) :
    (t.deliver site' dPkt).pointer site = some o := by
  by_cases ha : site.1 = site'.1
  · obtain ⟨a, node⟩ := site
    obtain rfl : a = site'.1 := ha
    have hkept := ObjectTable.lookup_fetch_of_lookup h site'.2 DiameterInterface.initial
    simpa [pointer, deliver, Globals.deliver, pointerMap] using hkept
  · simpa [pointer, deliver, Globals.deliver, Function.update_of_ne ha] using h

theorem pointer_run_of_some {inet : Inet} {pre : List Packet} {site : Site} {o : Nat}
    (h : (run inet pre).pointer site = some o) (ps : List Packet) :
    (run inet (pre ++ ps)).pointer site = some o := by
  induction ps using List.reverseRecOn with
  | nil => simpa using h
  | append_singleton ps p ih =>
    rw [← List.append_assoc, run_concat]
    cases p.message inet with
    | none => exact ih
    | some msg => exact pointer_deliver_of_some ih msg.1 msg.2

/-- Whatever came before and in between, two packets are given to the same object
exactly when they have the same key. -/
theorem objectOf_eq_iff {inet : Inet} {p q : Packet} {site site' : Site} {dPkt dPkt' : Diameter}
    (hp : p.message inet = some (site, dPkt)) (hq : q.message inet = some (site', dPkt'))
    (pre mid : List Packet) :
    (run inet pre).objectOf inet p = (run inet (pre ++ p :: mid)).objectOf inet q ↔
      site = site' := by
  have hmade : (run inet (pre ++ [p])).pointer site =
      some (((run inet pre).map site.1).fetch site.2 DiameterInterface.initial).2 := by
    rw [run_concat, hp]
    exact pointer_deliver _ site dPkt
  have hkept := pointer_run_of_some hmade mid
  rw [List.append_assoc, List.singleton_append] at hkept
  rw [objectOf_eq, objectOf_eq, hp, hq]
  obtain ⟨a, node⟩ := site
  obtain ⟨a', node'⟩ := site'
  simp only [Option.map_some, Option.some.injEq, Prod.mk.injEq]
  constructor
  · rintro ⟨rfl, ho⟩
    exact ⟨rfl, (ObjectTable.fetch_eq_iff hkept DiameterInterface.initial).mp ho⟩
  · rintro ⟨rfl, rfl⟩
    exact ⟨rfl, (ObjectTable.fetch_eq_iff hkept DiameterInterface.initial).mpr rfl⟩

theorem reports_of_drive (s : DiameterInterface K) (node : Text) (dPkt : Diameter) :
    (s.drive node dPkt).2.toList.length = (if (s.checkTime dPkt.seconds).2 = 2 then 1 else 0) ∧
      ∀ report ∈ (s.drive node dPkt).2, report.node = node := by
  rcases drive_cases s node dPkt with ⟨hcheck, hd, _⟩ | ⟨hcheck, hd, _⟩ | ⟨hcheck, hd, _⟩
  · simp [hd, hcheck]
  · simp [hd, hcheck]
  · rw [hd, hcheck]
    refine ⟨rfl, fun report hreport => ?_⟩
    cases hreport
    rfl

/-- The window of the object that the packets of a site are given to. -/
def window (t : Dispatcher) (site : Site) : Interface :=
  (((t.map site.1).view site.2).getD DiameterInterface.initial).toInterface

/-- A rollover prints one report, and nothing else does. -/
theorem printed_deliver (t : Dispatcher) (site : Site) (dPkt : Diameter) :
    ∃ reports, (t.deliver site dPkt).printed = t.printed ++ reports ∧
      reports.length = (if ((t.window site).checkTime dPkt.seconds).2 = 2 then 1 else 0) ∧
      ∀ r ∈ reports, r.2.2.node = Analyser.reportNode site.2 := by
  have hread : pointerMap.read (pointerMap.fetch (t.map site.1) site.2).1
      (pointerMap.fetch (t.map site.1) site.2).2 =
        ((t.map site.1).view site.2).getD DiameterInterface.initial := by
    simp only [pointerMap, heap_fetch, Option.getD_some]
  obtain ⟨hlength, hnode⟩ := reports_of_drive
    (((t.map site.1).view site.2).getD DiameterInterface.initial) (Analyser.reportNode site.2)
    { dPkt with hopIdentifier := ((t.ids site.1).next dPkt.request).2 }
  refine ⟨_, rfl, ?_, fun r hr => ?_⟩
  · rw [List.length_map, hread]
    exact hlength
  · obtain ⟨report, hreport, rfl⟩ := List.mem_map.mp hr
    rw [hread] at hreport
    exact hnode report (Option.mem_toList.mp hreport)

end Dispatcher

open Dispatcher in
/-- Requests from `A` to `B` and answers from `B` to `A` have one object, which no other
packet is given to. Exactly when one of them rolls its window over a report is printed, and it
names `A` and `B`. -/
theorem one_object_for_each_session {inet : Inet} (hinet : inet.Faithful) {p q : Packet}
    {a a' : Iface} {A B A' B' : Address} (hp : p.InSession a A B) (hq : q.InSession a' A' B')
    (pre mid : List Packet) :
    (∃ o o', (run inet pre).objectOf inet p = some o ∧
      (run inet (pre ++ p :: mid)).objectOf inet q = some o' ∧
      (o = o' ↔ a = a' ∧ A = A' ∧ B = B')) ∧
    ∃ reports, (run inet (pre ++ [p])).printed = (run inet pre).printed ++ reports ∧
      reports.length = (if (((run inet pre).window (a, nodeKey inet A B)).checkTime
        ⌊p.timeStamp⌋₊).2 = 2 then 1 else 0) ∧
      ∀ r ∈ reports, r.2.2.node =
        "sip=".toList ++ A.text inet ++ " dip=".toList ++ B.text inet := by
  have hmp := hp.message inet
  have hmq := hq.message inet
  constructor
  · have hiff := objectOf_eq_iff hmp hmq pre mid
    rw [objectOf_eq, objectOf_eq, hmp, hmq] at hiff
    rw [objectOf_eq, objectOf_eq, hmp, hmq]
    refine ⟨_, _, rfl, rfl, ?_⟩
    rw [Prod.mk.injEq a, nodeKey_inj hinet] at hiff
    exact Option.some_inj.symm.trans hiff
  · obtain ⟨reports, hprinted, hlength, hnode⟩ := printed_deliver (run inet pre)
      (a, nodeKey inet A B) { p.dPkt with timeStamp := p.timeStamp }
    refine ⟨reports, ?_, hlength, fun r hr => ?_⟩
    · rw [run_concat, hmp]
      exact hprinted
    · rw [hnode r hr]
      exact reportNode_nodeKey hinet A B

theorem plain_ntoa (a : BitVec 32) :
    Inet.plain.inet_ntoa a = Digits.joined '.' 10 8 [24, 16, 8, 0] a.toNat := rfl

theorem plain_ntop (a : BitVec 128) :
    Inet.plain.inet_ntop a =
      Digits.joined ':' 16 16 [112, 96, 80, 64, 48, 32, 16, 0] a.toNat := rfl

theorem plain_faithful : Inet.plain.Faithful := by
  constructor
  · intro a b hab
    rw [plain_ntoa, plain_ntoa] at hab
    exact BitVec.eq_of_toNat_eq (Digits.joined_inj (n := 4) (by decide) (by decide) (by decide)
      (by decide) (by decide) (by decide) a.isLt b.isLt hab)
  · intro a b hab
    rw [plain_ntop, plain_ntop] at hab
    exact BitVec.eq_of_toNat_eq (Digits.joined_inj (n := 8) (by decide) (by decide) (by decide)
      (by decide) (by decide) (by decide) a.isLt b.isLt hab)
  · intro a b hab
    have hdot : '.' ∈ Inet.plain.inet_ntoa a := by
      rw [plain_ntoa]
      simp [Digits.joined, List.intercalate_cons_cons]
    rw [hab, plain_ntop] at hdot
    exact Digits.notMem_joined (by decide) (by decide) (by decide) (by decide) _ hdot
  · intro a ha
    exact Digits.notMem_joined (by decide) (by decide) (by decide) (by decide) _ ha
  · intro a ha
    exact Digits.notMem_joined (by decide) (by decide) (by decide) (by decide) _ ha

open Dispatcher in
theorem one_object_for_each_session_plain :
    let p := segment client server (gxRequest 7 25)
    let q := segment server client (gxAnswer 7 45)
    let A : Address := .v4 client
    let B : Address := .v4 server
    Inet.plain.Faithful ∧ p.InSession .GX A B ∧ q.InSession .GX A B ∧
      (∃ o o', (run .plain []).objectOf .plain p = some o ∧
        (run .plain [p, q]).objectOf .plain q = some o' ∧
        (o = o' ↔ Iface.GX = .GX ∧ A = A ∧ B = B)) ∧
      ∃ reports, (run .plain [p]).printed = (run .plain []).printed ++ reports ∧
        reports.length = (if (((run .plain []).window (.GX, nodeKey .plain A B)).checkTime
          ⌊p.timeStamp⌋₊).2 = 2 then 1 else 0) ∧
        ∀ r ∈ reports, r.2.2.node =
          "sip=".toList ++ A.text .plain ++ " dip=".toList ++ B.text .plain := by
  intro p q A B
  have hp : p.InSession .GX A B := .inl ⟨⟨.inl rfl, rfl, rfl, rfl, rfl⟩, rfl⟩
  have hq : q.InSession .GX A B := .inr ⟨⟨.inl rfl, rfl, rfl, rfl, rfl⟩, rfl⟩
  exact ⟨plain_faithful, hp, hq, one_object_for_each_session plain_faithful hp hq [] [q]⟩

end AnalysePcap
