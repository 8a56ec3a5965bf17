import AnalysePcap.HostDpi

/-! The reports of `appLayer`. Each object counts its own packets, but the counters of `sip` are
static: a report of one object has the responses of all of them, and takes them from the others.
From the line of SIP on, the lines of a report name two applications. -/

namespace AnalysePcap

open Machine

inductive DpiCall where
  | processPkt (locals : DpiLocals) (pkt : TracePacket) (cmPkt : DpiPacket)
  | printStat (splunk : Text)

/-- The protocol that a packet is counted under and its length; without memory it is not counted. -/
def DpiCall.counted (ndpi : Ndpi) : DpiCall → Option (Nat × Nat)
  | .processPkt locals pkt cmPkt =>
    if locals.flow_calloc = false ∨ locals.src_calloc = false ∨ locals.dst_calloc = false then none
    else some ((AppLayer.detect ndpi (locals.dummyFlow.fill cmPkt) pkt cmPkt).detected_protocol,
      cmPkt.dataLen)
  | .printStat _ => none

/-- The lengths that the call adds to the counters of a protocol. -/
def DpiCall.lengths (ndpi : Ndpi) (c : DpiCall) (proto : Nat) : List Nat :=
  match c.counted ndpi with
  | none => []
  | some (detected, len) => if detected = proto then [len] else []

/-- The protocols that are put with the unknown ones. -/
def Masked (proto : Nat) : Prop :=
  proto < 24 ∨ proto = 91 ∨ proto = 92 ∨ proto = 130 ∨ proto = 131

theorem detected_not_masked (ndpi : Ndpi) (dummyFlow : NdpiFlow) (pkt : TracePacket)
    (cmPkt : DpiPacket) {proto : Nat} (hmasked : Masked proto)
    (hproto : proto ≠ ndpi.NDPI_PROTOCOL_UNKNOWN) :
    (AppLayer.detect ndpi dummyFlow pkt cmPkt).detected_protocol ≠ proto := by
  unfold AppLayer.detect
  dsimp only
  generalize (if ndpi.detection_process_packet cmPkt.ip_ptr cmPkt.ipSize pkt.ticks =
    ndpi.NDPI_PROTOCOL_UNKNOWN then _ else _) = detected
  split_ifs with h
  · exact hproto.symm
  · rintro rfl
    exact h hmasked

theorem lengths_of_masked {ndpi : Ndpi} {proto : Nat} (hmasked : Masked proto)
    (hproto : proto ≠ ndpi.NDPI_PROTOCOL_UNKNOWN) (c : DpiCall) : c.lengths ndpi proto = [] := by
  cases c with
  | printStat splunk => rfl
  | processPkt locals pkt cmPkt =>
    have hne := detected_not_masked ndpi (locals.dummyFlow.fill cmPkt) pkt cmPkt hmasked hproto
    unfold DpiCall.lengths DpiCall.counted
    by_cases hmemory : locals.flow_calloc = false ∨ locals.src_calloc = false ∨
        locals.dst_calloc = false
    · simp only [if_pos hmemory]
    · simp only [if_neg hmemory, if_neg hne]

namespace AppLayer

variable (ndpi : Ndpi)

def initial : AppLayer := ⟨fun _ => 0, fun _ => 0, .initial⟩

def call (a : AppLayer) : DpiCall → AppLayer
  | .processPkt locals pkt cmPkt => (a.processPkt ndpi locals pkt cmPkt).1
  | .printStat splunk => (a.printStat ndpi splunk).1

def sipText (splunk : Text) : Text := splunk ++ " AppLayer=SIP".toList

/-- The report has a line for SIP. -/
def ReportsSip (a : AppLayer) : Prop :=
  ndpi.NDPI_PROTOCOL_SIP ≤ ndpi.num_supported_protocols ∧
    0 < a.protocol_counter ndpi.NDPI_PROTOCOL_SIP

instance (a : AppLayer) : Decidable (a.ReportsSip ndpi) := inferInstanceAs (Decidable (_ ∧ _))

/-- What `sip` is called for. -/
def sipCalls (a : AppLayer) (c : DpiCall) : List Sip.Call :=
  match c with
  | .processPkt _ _ cmPkt =>
    if (c.counted ndpi).map Prod.fst = some ndpi.NDPI_PROTOCOL_SIP then [.processPkt cmPkt.pay_load]
    else []
  | .printStat splunk => if a.ReportsSip ndpi then [.printStats (sipText splunk)] else []

/-- The lines of some protocols. -/
def statLines (a : AppLayer) (splunk : Text) (protos : List Nat) : List Text :=
  (protos.filter fun i => 0 < a.protocol_counter i).map (a.statLine ndpi splunk)

variable {ndpi}

section PrintStat

variable (hname : ∀ i, ndpi.proto_name i = "SIP".toList ↔ i = ndpi.NDPI_PROTOCOL_SIP)

/-- The counters of the packets are not changed by a report. -/
theorem foldl_printProtocol_counters (ndpi : Ndpi) (a : AppLayer) (splunk : Text)
    (lines : List Text) (protos : List Nat) :
    (protos.foldl (printProtocol ndpi) (a, splunk, lines)).1.protocol_counter = a.protocol_counter ∧
      (protos.foldl (printProtocol ndpi) (a, splunk, lines)).1.protocol_counter_bytes =
        a.protocol_counter_bytes := by
  induction protos generalizing a splunk lines with
  | nil => exact ⟨rfl, rfl⟩
  | cons i protos ih =>
    rw [List.foldl_cons, printProtocol]
    split_ifs
    · exact ih _ _ _
    · exact ih _ _ _
    · exact ih _ _ _

include hname

theorem foldl_printProtocol (a : AppLayer) (splunk : Text) (lines : List Text) {protos : List Nat}
    (hprotos : ndpi.NDPI_PROTOCOL_SIP ∈ protos →
      a.protocol_counter ndpi.NDPI_PROTOCOL_SIP = 0) :
    protos.foldl (printProtocol ndpi) (a, splunk, lines) =
      (a, splunk, lines ++ a.statLines ndpi splunk protos) := by
  induction protos generalizing lines with
  | nil => simp [statLines]
  | cons i protos ih =>
    have hrest := fun h => hprotos (List.mem_cons_of_mem i h)
    rw [List.foldl_cons, printProtocol]
    by_cases hpos : 0 < a.protocol_counter i
    · have hi : ¬ ndpi.proto_name i = "SIP".toList := by
        intro h
        obtain rfl := (hname i).mp h
        have := hprotos List.mem_cons_self
        omega
      rw [if_pos hpos, if_neg hi, ih _ hrest]
      simp [statLines, hpos]
    · rw [if_neg hpos, ih _ hrest]
      simp [statLines, hpos]

theorem printStat_of_reportsSip {a : AppLayer} (h : a.ReportsSip ndpi) (splunk : Text) :
    a.printStat ndpi splunk = ({ a with sip := (a.sip.printStats (sipText splunk)).1 },
      sipText splunk,
      a.statLines ndpi splunk (List.range (ndpi.NDPI_PROTOCOL_SIP + 1)) ++
        (a.sip.printStats (sipText splunk)).2 ++
        a.statLines ndpi (sipText splunk) (List.range' (ndpi.NDPI_PROTOCOL_SIP + 1)
          (ndpi.num_supported_protocols - ndpi.NDPI_PROTOCOL_SIP))) := by
  obtain ⟨hle, hpos⟩ := h
  -- the loop before SIP, for SIP and after it
  have hrange : List.range (ndpi.num_supported_protocols + 1) =
      List.range (ndpi.NDPI_PROTOCOL_SIP + 1) ++ List.range' (ndpi.NDPI_PROTOCOL_SIP + 1)
        (ndpi.num_supported_protocols - ndpi.NDPI_PROTOCOL_SIP) := by
    have happend : List.range' 0 (ndpi.NDPI_PROTOCOL_SIP + 1) ++
        List.range' (0 + (ndpi.NDPI_PROTOCOL_SIP + 1))
          (ndpi.num_supported_protocols - ndpi.NDPI_PROTOCOL_SIP) = _ := List.range'_append_1
    rw [Nat.zero_add] at happend
    rw [List.range_eq_range', List.range_eq_range', happend]
    congr 1
    omega
  have hbefore : a.statLines ndpi splunk (List.range (ndpi.NDPI_PROTOCOL_SIP + 1)) =
      a.statLines ndpi splunk (List.range ndpi.NDPI_PROTOCOL_SIP) ++
        [a.statLine ndpi splunk ndpi.NDPI_PROTOCOL_SIP] := by
    simp [statLines, List.range_succ, hpos]
  rw [printStat, hrange, List.foldl_append, List.range_succ, List.foldl_append,
    foldl_printProtocol hname a splunk [] (fun h => by simp at h), List.foldl_cons, List.foldl_nil,
    printProtocol, if_pos hpos, if_pos ((hname _).mpr rfl),
    foldl_printProtocol hname _ _ _ (fun h => by simp at h), ← List.range_succ, hbefore]
  rfl

theorem printStat_of_not_reportsSip {a : AppLayer} (h : ¬ a.ReportsSip ndpi) (splunk : Text) :
    a.printStat ndpi splunk =
      (a, splunk, a.statLines ndpi splunk (List.range (ndpi.num_supported_protocols + 1))) := by
  refine foldl_printProtocol hname a splunk [] fun hmem => ?_
  by_contra hpos
  exact h ⟨Nat.le_of_lt_succ (List.mem_range.mp hmem), Nat.pos_of_ne_zero hpos⟩

end PrintStat

section Call

theorem counters_call (ndpi : Ndpi) (a : AppLayer) (c : DpiCall) (proto : Nat) :
    (a.call ndpi c).protocol_counter proto =
        a.protocol_counter proto + (c.lengths ndpi proto).length ∧
      (a.call ndpi c).protocol_counter_bytes proto =
        a.protocol_counter_bytes proto + (c.lengths ndpi proto).sum := by
  cases c with
  | printStat splunk =>
    obtain ⟨hcounter, hbytes⟩ := foldl_printProtocol_counters ndpi a splunk []
      (List.range (ndpi.num_supported_protocols + 1))
    exact ⟨congrFun hcounter proto, congrFun hbytes proto⟩
  | processPkt locals pkt cmPkt =>
    unfold call processPkt DpiCall.lengths DpiCall.counted
    by_cases hmemory : locals.flow_calloc = false ∨ locals.src_calloc = false ∨
        locals.dst_calloc = false
    · simp only [if_pos hmemory]
      exact ⟨rfl, rfl⟩
    · simp only [if_neg hmemory]
      by_cases hproto : (detect ndpi (locals.dummyFlow.fill cmPkt) pkt cmPkt).detected_protocol = proto
      · simp [hproto]
      · simp [hproto, Function.update_of_ne (Ne.symm hproto)]

theorem sip_call (hname : ∀ i, ndpi.proto_name i = "SIP".toList ↔ i = ndpi.NDPI_PROTOCOL_SIP)
    (a : AppLayer) (c : DpiCall) :
    (a.call ndpi c).sip = Machine.run Sip.next a.sip (a.sipCalls ndpi c) := by
  cases c with
  | printStat splunk =>
    by_cases h : a.ReportsSip ndpi
    · simp only [call, sipCalls, if_pos h, printStat_of_reportsSip hname h]
      rfl
    · simp only [call, sipCalls, if_neg h, printStat_of_not_reportsSip hname h]
      rfl
  | processPkt locals pkt cmPkt =>
    unfold call processPkt sipCalls DpiCall.counted
    by_cases hmemory : locals.flow_calloc = false ∨ locals.src_calloc = false ∨
        locals.dst_calloc = false
    · simp [hmemory]
    · simp only [if_neg hmemory, Option.map_some, Option.some.injEq]
      split_ifs
      · rfl
      · rfl

end Call

end AppLayer

/-- The objects, which share the members of `sip`. -/
abbrev AppLayers (ι : Type*) := ι → AppLayer

namespace AppLayers

variable {ι : Type*} [DecidableEq ι] (ndpi : Ndpi)

def initial : AppLayers ι := fun _ => .initial

/-- A call of one object; the others see what it does to `sip`. -/
def next (s : AppLayers ι) (e : ι × DpiCall) : AppLayers ι :=
  let a := (s e.1).call ndpi e.2
  fun j => if j = e.1 then a else { s j with sip := a.sip }

def run (calls : List (ι × DpiCall)) : AppLayers ι := Machine.run (next ndpi) initial calls

/-- The lengths of the packets that object `i` has counted under a protocol. -/
def lengthsOf (calls : List (ι × DpiCall)) (i : ι) (proto : Nat) : List Nat :=
  calls.flatMap fun e => if e.1 = i then e.2.lengths ndpi proto else []

/-- The calls of `sip` that all objects make. -/
def sipCalls (calls : List (ι × DpiCall)) : List Sip.Call :=
  Machine.trail (next ndpi) (fun s e => (s e.1).sipCalls ndpi e.2) (initial : AppLayers ι) calls

variable {ndpi}

theorem counters_run (ndpi : Ndpi) (calls : List (ι × DpiCall)) (i : ι) (proto : Nat) :
    (run ndpi calls i).protocol_counter proto = (lengthsOf ndpi calls i proto).length ∧
      (run ndpi calls i).protocol_counter_bytes proto = (lengthsOf ndpi calls i proto).sum := by
  induction calls using List.reverseRecOn with
  | nil => exact ⟨rfl, rfl⟩
  | append_singleton calls e ih =>
    have hlengths : lengthsOf ndpi (calls ++ [e]) i proto = lengthsOf ndpi calls i proto ++
        if e.1 = i then e.2.lengths ndpi proto else [] := by
      simp [lengthsOf]
    rw [run, Machine.run_concat, ← run, hlengths, next]
    by_cases hi : i = e.1
    · subst hi
      obtain ⟨hcounter, hbytes⟩ := AppLayer.counters_call ndpi (run ndpi calls e.1) e.2 proto
      simp only [if_pos, List.length_append, List.sum_append]
      rw [hcounter, hbytes, ih.1, ih.2]
      exact ⟨rfl, rfl⟩
    · simpa only [if_neg hi, if_neg (Ne.symm hi), List.append_nil] using ih

theorem sip_run (hname : ∀ i, ndpi.proto_name i = "SIP".toList ↔ i = ndpi.NDPI_PROTOCOL_SIP)
    (calls : List (ι × DpiCall)) (i : ι) :
    (run ndpi calls i).sip = Machine.run Sip.next .initial (sipCalls ndpi calls) := by
  induction calls using List.reverseRecOn generalizing i with
  | nil => rfl
  | append_singleton calls e ih =>
    have hcalls : sipCalls ndpi (calls ++ [e]) =
        sipCalls ndpi calls ++ (run ndpi calls e.1).sipCalls ndpi e.2 :=
      Machine.trail_concat _ _ _ _ _
    have hsip : (run ndpi (calls ++ [e]) i).sip = ((run ndpi calls e.1).call ndpi e.2).sip := by
      rw [run, Machine.run_concat, ← run]
      by_cases hi : i = e.1
      · simp only [next, if_pos hi]
      · simp only [next, if_neg hi]
    rw [hsip, AppLayer.sip_call hname, ih, hcalls, Machine.run_append]

theorem lengthsOf_of_masked (calls : List (ι × DpiCall)) (i : ι) {proto : Nat}
    (hmasked : Masked proto) (hproto : proto ≠ ndpi.NDPI_PROTOCOL_UNKNOWN) :
    lengthsOf ndpi calls i proto = [] := by
  refine List.flatMap_eq_nil_iff.mpr fun e _ => ?_
  split_ifs
  · exact lengths_of_masked hmasked hproto e.2
  · rfl

/-- After any calls of any objects, an object has counted its own packets, none of them under a
masked protocol, and `sip` has counted those of all of them since the last report with a line for
SIP. Behind that line all lines have the application of SIP in front of their own. -/
theorem report_of_run (hname : ∀ i, ndpi.proto_name i = "SIP".toList ↔ i = ndpi.NDPI_PROTOCOL_SIP)
    (calls : List (ι × DpiCall)) (i : ι) (splunk : Text) :
    run ndpi calls i = ⟨fun proto => (lengthsOf ndpi calls i proto).length,
        fun proto => (lengthsOf ndpi calls i proto).sum,
        Machine.run Sip.next .initial (sipCalls ndpi calls)⟩ ∧
      (∀ proto, Masked proto → proto ≠ ndpi.NDPI_PROTOCOL_UNKNOWN →
        lengthsOf ndpi calls i proto = []) ∧
      ((run ndpi calls i).printStat ndpi splunk).2.2 =
        if (run ndpi calls i).ReportsSip ndpi then
          (run ndpi calls i).statLines ndpi splunk (List.range (ndpi.NDPI_PROTOCOL_SIP + 1)) ++
            ((run ndpi calls i).sip.printStats (AppLayer.sipText splunk)).2 ++
            (run ndpi calls i).statLines ndpi (AppLayer.sipText splunk)
              (List.range' (ndpi.NDPI_PROTOCOL_SIP + 1)
                (ndpi.num_supported_protocols - ndpi.NDPI_PROTOCOL_SIP))
        else (run ndpi calls i).statLines ndpi splunk
          (List.range (ndpi.num_supported_protocols + 1)) := by
  refine ⟨?_, fun proto => lengthsOf_of_masked calls i, ?_⟩
  · have hcounter := funext fun proto => (counters_run ndpi calls i proto).1
    have hbytes := funext fun proto => (counters_run ndpi calls i proto).2
    rw [← hcounter, ← hbytes, ← sip_run hname calls i]
  · by_cases h : (run ndpi calls i).ReportsSip ndpi
    · rw [if_pos h, AppLayer.printStat_of_reportsSip hname h]
    · rw [if_neg h, AppLayer.printStat_of_not_reportsSip hname h]

/-- A library that takes every packet for SIP. -/
def sipOnly : Ndpi where
  NDPI_PROTOCOL_UNKNOWN := 0
  NDPI_PROTOCOL_SIP := 100
  num_supported_protocols := 200
  detection_process_packet _ _ _ := 100
  guess_undetected_protocol _ _ _ _ _ := 0
  proto_name i := if i = 100 then "SIP".toList else []

theorem sipOnly_name (i : Nat) :
    sipOnly.proto_name i = "SIP".toList ↔ i = sipOnly.NDPI_PROTOCOL_SIP := by
  unfold sipOnly
  dsimp only
  split_ifs with h
  · simp [h]
  · simp [h]

theorem report_of_run_sipOnly :
    let pkt := TracePacket.sample (.ip 0x0A000002 0x0A000001) .UDP 5060 (fun _ => 0) 25
    let locals : DpiLocals := ⟨⟨0, 0, 0, 0, .TCP, 0⟩, true, true, true⟩
    let calls : List (Bool × DpiCall) := [(true, .processPkt locals pkt descendingPacket)]
    (run sipOnly calls true).ReportsSip sipOnly ∧
      run sipOnly calls true = ⟨fun proto => (lengthsOf sipOnly calls true proto).length,
        fun proto => (lengthsOf sipOnly calls true proto).sum,
        Machine.run Sip.next .initial (sipCalls sipOnly calls)⟩ := by
  intro pkt locals calls
  exact ⟨by decide +kernel, (report_of_run sipOnly_name calls true []).1⟩

end AppLayers

end AnalysePcap
