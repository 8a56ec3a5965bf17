import AnalysePcap.Encode
import AnalysePcap.Outcome

/-! The result of the constructor and the memory it is run on. The loop over the AVPs
reads `request` before it is set, and a field whose AVP is not met keeps what the
memory held. -/

namespace AnalysePcap

def Avp.resultCode? : Avp → Option Nat
  | .resultCode value => some value
  | _ => none

def Avp.requestType? : Avp → Option Nat
  | .requestType value => some value
  | _ => none

def lastResultCode (avps : List Avp) : Option Nat := (avps.filterMap Avp.resultCode?).getLast?

def lastRequestType (avps : List Avp) : Option Nat := (avps.filterMap Avp.requestType?).getLast?

def reqTypeOf (value : Nat) : Nat := if 4 < value then 0 else value

section Fold

variable {request : Int} {avps pre post : List Avp} {f : Found} {value : Nat}

theorem foldl_resCode_of_none (h : lastResultCode avps = none) :
    (avps.foldl Found.record f).resCode = f.resCode := by
  induction avps using List.reverseRecOn with
  | nil => rfl
  | append_singleton avps avp ih =>
    rw [List.foldl_append, List.foldl_cons, List.foldl_nil]
    cases avp with
    | resultCode value => simp [lastResultCode, Avp.resultCode?] at h
    | requestType value => simpa using ih (by simpa [lastResultCode, Avp.resultCode?] using h)
    | other => simpa using ih (by simpa [lastResultCode, Avp.resultCode?] using h)

theorem foldl_resCode_of_some {code : Nat} (h : lastResultCode avps = some code) :
    (avps.foldl Found.record f).resCode = int32 code := by
  induction avps using List.reverseRecOn with
  | nil => cases h
  | append_singleton avps avp ih =>
    rw [List.foldl_append, List.foldl_cons, List.foldl_nil]
    cases avp with
    | resultCode value =>
      obtain rfl : value = code := by simpa [lastResultCode, Avp.resultCode?] using h
      simp
    | requestType value => simpa using ih (by simpa [lastResultCode, Avp.resultCode?] using h)
    | other => simpa using ih (by simpa [lastResultCode, Avp.resultCode?] using h)

theorem foldl_reqType :
    (avps.foldl Found.record f).reqType = (lastRequestType avps).elim f.reqType reqTypeOf := by
  induction avps using List.reverseRecOn with
  | nil => rfl
  | append_singleton avps avp ih =>
    rw [List.foldl_append, List.foldl_cons, List.foldl_nil]
    cases avp with
    | resultCode value => simpa [lastRequestType, Avp.requestType?] using ih
    | requestType value => simp [lastRequestType, Avp.requestType?, reqTypeOf]
    | other => simpa [lastRequestType, Avp.requestType?] using ih

theorem foldl_resCodeAvp :
    (avps.foldl Found.record f).resCodeAvp = (f.resCodeAvp || (lastResultCode avps).isSome) := by
  induction avps using List.reverseRecOn with
  | nil => simp [lastResultCode]
  | append_singleton avps avp ih =>
    rw [List.foldl_append, List.foldl_cons, List.foldl_nil]
    cases avp with
    | resultCode value => simp [lastResultCode, Avp.resultCode?]
    | requestType value => simpa [lastResultCode, Avp.resultCode?] using ih
    | other => simpa [lastResultCode, Avp.resultCode?] using ih

/-- Nothing stops the loop before the first CC-Request-Type. -/
theorem scan_append (hpre : ∀ avp ∈ pre, ¬ avp.IsRequestType) (hreq : f.CCReqAvp = false) :
    scan request (pre ++ post) f = scan request post (pre.foldl Found.record f) := by
  induction pre generalizing f with
  | nil => rfl
  | cons avp pre ih =>
    have hreq' : (f.record avp).CCReqAvp = false :=
      (f.record_of_not_requestType (hpre avp (by simp))).2.trans hreq
    rw [List.cons_append, scan, if_neg (Found.not_stops_of_CCReqAvp hreq'), List.foldl_cons]
    exact ih (fun a ha => hpre a (by simp [ha])) hreq'

theorem scan_of_other_request (h₀ : request ≠ 0) (h₁ : request ≠ 1) :
    scan request avps f = avps.foldl Found.record f := by
  induction avps generalizing f with
  | nil => rfl
  | cons avp avps ih =>
    have hgo : ¬ (f.record avp).Stops request := by
      rintro (⟨h, -⟩ | ⟨h, -⟩)
      · exact h₁ h
      · exact h₀ h
    rw [scan, if_neg hgo, ih, List.foldl_cons]

end Fold

/-- A Result-Code stands before the first CC-Request-Type, and what follows ends with no
other values of the two. -/
def Determined (avps : List Avp) : Prop :=
  ∃ pre value post code, avps = pre ++ .requestType value :: post ∧
    (∀ avp ∈ pre, ¬ avp.IsRequestType) ∧ lastResultCode pre = some code ∧
    (∀ code' ∈ lastResultCode post, int32 code' = int32 code) ∧
    ∀ value' ∈ lastRequestType post, reqTypeOf value' = reqTypeOf value

section Scan

variable {request : Int} {avps pre post : List Avp} {f : Found} {value : Nat}

theorem scan_stopped (hpre : ∀ avp ∈ pre, ¬ avp.IsRequestType) (hreq : f.CCReqAvp = false)
    (h : request = 1 ∨ request = 0 ∧ (lastResultCode pre).isSome = true) :
    scan request (pre ++ .requestType value :: post) f =
      (pre.foldl Found.record f).record (.requestType value) := by
  have hstop : ((pre.foldl Found.record f).record (.requestType value)).Stops request := by
    refine h.imp (fun h => ⟨h, by simp⟩) fun h => ⟨h.1, by simp, ?_⟩
    simp [foldl_resCodeAvp, h.2]
  rw [scan_append hpre hreq, scan, if_pos hstop]

theorem scan_of_determined (h : Determined avps) :
    ∃ resCode reqType, ∀ request f, f.CCReqAvp = false →
      (scan request avps f).resCode = resCode ∧ (scan request avps f).reqType = reqType := by
  obtain ⟨pre, value, post, code, rfl, hpre, hcode, hlaterCode, hlaterType⟩ := h
  refine ⟨int32 code, reqTypeOf value, fun request f hreq => ?_⟩
  have hmid : ((pre.foldl Found.record f).record (.requestType value)).resCode = int32 code ∧
      ((pre.foldl Found.record f).record (.requestType value)).reqType = reqTypeOf value := by
    rw [Found.record_requestType]
    exact ⟨foldl_resCode_of_some hcode, rfl⟩
  by_cases hstop : request = 1 ∨ request = 0
  · rw [scan_stopped hpre hreq (hstop.imp id fun h => ⟨h, by simp [hcode]⟩)]
    exact hmid
  · have h₀ : request ≠ 0 := fun h => hstop (.inr h)
    have h₁ : request ≠ 1 := fun h => hstop (.inl h)
    rw [scan_of_other_request h₀ h₁, List.foldl_append, List.foldl_cons]
    constructor
    · cases hpost : lastResultCode post with
      | none => rw [foldl_resCode_of_none hpost, hmid.1]
      | some code' => rw [foldl_resCode_of_some hpost, hlaterCode code' hpost]
    · rw [foldl_reqType]
      cases hpost : lastRequestType post with
      | none => exact hmid.2
      | some value' => exact hlaterType value' hpost

theorem exists_first_requestType (h : ∃ avp ∈ avps, avp.IsRequestType) :
    ∃ pre value post, avps = pre ++ .requestType value :: post ∧
      ∀ avp ∈ pre, ¬ avp.IsRequestType := by
  induction avps with
  | nil => simp at h
  | cons avp avps ih =>
    by_cases havp : avp.IsRequestType
    · obtain ⟨value, rfl⟩ := havp
      exact ⟨[], value, avps, rfl, by simp⟩
    · obtain ⟨a, ha, hreq⟩ := h
      rcases List.mem_cons.mp ha with rfl | ha
      · exact absurd hreq havp
      · obtain ⟨pre, value, post, rfl, hpre⟩ := ih ⟨a, ha, hreq⟩
        refine ⟨avp :: pre, value, post, rfl, fun b hb => ?_⟩
        rcases List.mem_cons.mp hb with rfl | hb
        · exact havp
        · exact hpre b hb

def leftOver (resCode : Int) (reqType : Nat) : Found := ⟨resCode, reqType, false, false⟩

/-- Stale values of `request` other than 0 and 1 make the loop read the whole message,
and a stale 1 makes it stop at the first CC-Request-Type. -/
theorem determined_of_scan
    (h : ∀ request request' c c' t t',
      (scan request avps (leftOver c t)).resCode = (scan request' avps (leftOver c' t')).resCode ∧
      (scan request avps (leftOver c t)).reqType = (scan request' avps (leftOver c' t')).reqType) :
    Determined avps := by
  have hsome : ∃ avp ∈ avps, avp.IsRequestType := by
    by_contra hnone
    have hnone' : ∀ avp ∈ avps, ¬ avp.IsRequestType := fun avp ha hreq => hnone ⟨avp, ha, hreq⟩
    have hsame := (h 1 1 0 0 0 1).2
    rw [scan_reqType_of_none hnone', scan_reqType_of_none hnone'] at hsame
    cases hsame
  obtain ⟨pre, value, post, rfl, hpre⟩ := exists_first_requestType hsome
  have hone (c : Int) (t : Nat) :
      scan 1 (pre ++ .requestType value :: post) (leftOver c t) =
        (pre.foldl Found.record (leftOver c t)).record (.requestType value) :=
    scan_stopped hpre rfl (.inl rfl)
  have hcode : ∃ code, lastResultCode pre = some code := by
    by_contra hnone
    have hnone' : lastResultCode pre = none := by
      rw [Option.eq_none_iff_forall_ne_some]
      exact fun code hcode => hnone ⟨code, hcode⟩
    have hsame := (h 1 1 0 1 0 0).1
    rw [hone, hone, Found.record_requestType, Found.record_requestType] at hsame
    dsimp only at hsame
    rw [foldl_resCode_of_none hnone', foldl_resCode_of_none hnone'] at hsame
    cases hsame
  obtain ⟨code, hcode⟩ := hcode
  have hwhole := h 2 1 0 0 0 0
  rw [hone, scan_of_other_request (by decide) (by decide), List.foldl_append, List.foldl_cons,
    foldl_reqType, Found.record_requestType] at hwhole
  refine ⟨pre, value, post, code, rfl, hpre, hcode, fun code' hcode' => ?_, fun value' hvalue' => ?_⟩
  · have hlater := hwhole.1
    rw [foldl_resCode_of_some hcode'] at hlater
    exact hlater.trans (foldl_resCode_of_some hcode)
  · have hlater := hwhole.2
    rw [hvalue'] at hlater
    exact hlater

end Scan

/-- The packet that `protocolTCP::addPkt` makes of the object. -/
def DiameterObject.packet (d : DiameterObject) (timeStamp : ℚ) : Diameter :=
  { d.toDiameter with timeStamp := timeStamp }

/-- The fields of the packet do not depend on what the memory held, and neither does
what an interface does with it. -/
def SameForAllMemory (undef : Undefined) (dMsg : Buffer) : Prop :=
  ∀ memory memory' : DiameterObject,
    let d := memory.construct undef dMsg
    let d' := memory'.construct undef dMsg
    (d.request = d'.request ∧ d.cc = d'.cc ∧ d.appId = d'.appId ∧
      d.hopIdentifier = d'.hopIdentifier ∧ d.resCode = d'.resCode ∧ d.reqType = d'.reqType) ∧
    ∀ (K : InterfaceKind) (s : DiameterInterface K) (timeStamp : ℚ),
      s.addPkt (d.packet timeStamp) = s.addPkt (d'.packet timeStamp)

theorem sameForAllMemory_iff {undef : Undefined} {dMsg : Buffer}
    (hvalid : ∀ memory : DiameterObject, (memory.construct undef dMsg).valid = true) :
    SameForAllMemory undef dMsg ↔ Determined (messageAvps undef dMsg) := by
  have haccepts : Accepts undef dMsg :=
    (valid_construct ⟨⟨0, 0, 0, 0, 0, 0, 0, false⟩, 0, 0⟩).mp (hvalid _)
  have hd (memory : DiameterObject) := construct_of_accepts memory haccepts
  constructor
  · intro h
    refine determined_of_scan fun request request' c c' t t' => ?_
    have hsame := (h ⟨⟨request, 0, 0, 0, c, t, 0, false⟩, 0, 0⟩
      ⟨⟨request', 0, 0, 0, c', t', 0, false⟩, 0, 0⟩).1
    rw [hd, hd] at hsame
    exact hsame.2.2.2.2
  · intro h memory memory' d d'
    obtain ⟨resCode, reqType, hscan⟩ := scan_of_determined h
    have hm := hscan memory.request memory.stale rfl
    have hm' := hscan memory'.request memory'.stale rfl
    have hpacket (timeStamp : ℚ) : d.packet timeStamp = d'.packet timeStamp := by
      simp only [d, d', hd, DiameterObject.packet, hm.1, hm.2, hm'.1, hm'.2]
    refine ⟨?_, fun K s timeStamp => by rw [hpacket]⟩
    simp only [d, d', hd, hm.1, hm.2, hm'.1, hm'.2, and_self]

theorem sameForAllMemory_iff_answer :
    let m := gxAnswerMessage [originHostAvp, resultCodeAvp, requestTypeAvp] (by decide)
    (∀ memory : DiameterObject, (memory.construct (fun _ _ => 0) m.buffer).valid = true) ∧
      SameForAllMemory (fun _ _ => 0) m.buffer := by
  intro m
  have hhead := Message.header_of_holds m.holds_buffer fun _ _ => 0
  have hvalid (memory : DiameterObject) := (valid_construct memory).mpr hhead.accepts
  have havps : messageAvps (fun _ _ => 0) m.buffer =
      [.other, .resultCode 2001] ++ .requestType 1 :: [] := by
    rw [Message.messageAvps hhead (by simp [m, gxAnswerMessage, originHostAvp, resultCodeAvp,
      requestTypeAvp, EncodedAvp.WellFormed])]
    decide
  refine ⟨hvalid, (sameForAllMemory_iff hvalid).mpr ?_⟩
  exact ⟨_, _, _, 2001, havps, by simp [Avp.IsRequestType], rfl, by simp [lastResultCode],
    by simp [lastRequestType]⟩

/-- With the CC-Request-Type first, a success is counted as a failure if the memory
holds a request and the result code of a failure. -/
theorem success_counted_as_failure :
    let m := gxAnswerMessage [requestTypeAvp, resultCodeAvp] (by decide)
    let d := { staleRequest with resCode := 5012 }.construct (fun _ _ => 0) m.buffer
    let d' := { staleRequest with request := 0 }.construct (fun _ _ => 0) m.buffer
    let s := ((DiameterInterface.initial : DiameterInterface .gx).addPkt (gxRequest 7 25)).1
    d.valid = true ∧ d'.valid = true ∧ d.resCode = 5012 ∧ d'.resCode = 2001 ∧
      (s.addPkt (d.packet 26)).1.stats.failCount ⟨0, by decide⟩ = 1 ∧
      (s.addPkt (d'.packet 26)).1.stats.failCount ⟨0, by decide⟩ = 0 ∧
      ¬ SameForAllMemory (fun _ _ => 0) m.buffer := by
  intro m d d' s
  have hres : d.resCode = 5012 := by decide +kernel
  have hres' : d'.resCode = 2001 := by decide +kernel
  refine ⟨by decide +kernel, by decide +kernel, hres, hres', by decide +kernel,
    by decide +kernel, fun h => ?_⟩
  have hsame := (h { staleRequest with resCode := 5012 } { staleRequest with request := 0 }).1
  rw [hsame.2.2.2.2.1] at hres
  exact absurd (hres.symm.trans hres') (by decide)

end AnalysePcap
