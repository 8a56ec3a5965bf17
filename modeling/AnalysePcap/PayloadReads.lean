import AnalysePcap.AvpLoop
import AnalysePcap.Encode

/-! The bytes of the payload that the constructor of `Diameter` reads. It follows the
lengths that the payload announces, and the length of the payload itself is not known to
it. -/

namespace AnalysePcap

open WhileLoop

section Reads

variable (undef : Undefined) (dMsg : Buffer)

def avpReads (s : AvpState) : List Nat :=
  let avpCode := extractDword undef dMsg s.avpStartWord 0 32
  let avpLength := extractDword undef dMsg (s.avpStartWord + 2) 8 24
  extractDwordReads dMsg s.avpStartWord 0 32 ++
    (extractDwordReads dMsg (s.avpStartWord + 2) 8 24 ++
      if avpLength ≤ 0 ∨ 5014 < avpLength then []
      else if avpCode = 268 ∨ avpCode = 416 then
        extractDwordReads dMsg (s.avpStartWord + 4) 0 (int32 ((avpLength - 8) * 8))
      else [])

def avpLoopReads (request : Int) : (fuel : Nat) → AvpState → List Nat
  | 0, _ => []
  | fuel + 1, s =>
    if 0 < s.msgRemaining then
      avpReads undef dMsg s ++
        match avpRound undef dMsg request s with
        | (_, true) => []
        | (s', false) => avpLoopReads request fuel s'
    else []

/-- The indices at which `construct` reads the payload, in its order. -/
def DiameterObject.constructReads (memory : DiameterObject) : List Nat :=
  let cc := extractDword undef dMsg 2 8 24
  let appId := extractDword undef dMsg 4 0 32
  extractDwordReads dMsg 2 8 24 ++ (extractDwordReads dMsg 4 0 32 ++
    if Iface.ofAppId appId = none then []
    else if cc ≠ CC.CCRorA.code ∧ cc ≠ CC.S6BAA.code ∧ cc ≠ CC.S6BTERMINATE.code then []
    else
      let msgRemaining := int32 (extractDword undef dMsg 0 8 24 - 20)
      extractDwordReads dMsg 0 8 24 ++ (extractDwordReads dMsg 2 0 8 ++
        (extractDwordReads dMsg 6 0 32 ++
          avpLoopReads undef dMsg memory.request msgRemaining.toNat
            { resCode := memory.resCode, reqType := memory.reqType, resCodeAvp := false,
              CCReqAvp := false, msgRemaining := msgRemaining, avpStartWord := 10 })))

end Reads

section Payload

variable (dMsg : Buffer)

def codeAt (offset : Nat) : Nat := beNat (bytesAt dMsg offset 4)

def lengthAt (offset : Nat) : Nat := beNat (bytesAt dMsg (offset + 5) 3)

def announcedLength : Nat := beNat (bytesAt dMsg 1 3)

def HeaderKnown : Prop :=
  Iface.ofAppId (beNat (bytesAt dMsg 8 4)) ≠ none ∧
    (beNat (bytesAt dMsg 5 3) = CC.CCRorA.code ∨ beNat (bytesAt dMsg 5 3) = CC.S6BAA.code ∨
      beNat (bytesAt dMsg 5 3) = CC.S6BTERMINATE.code)

/-- The offsets of the AVPs, as the payload announces their lengths and its own. -/
inductive AvpOffset : Nat → Prop
  | first (h : 20 < announcedLength dMsg) : AvpOffset 20
  | next {offset : Nat} (h : AvpOffset offset) (hpos : 0 < lengthAt dMsg offset)
      (hle : lengthAt dMsg offset ≤ 5014)
      (hin : offset + avpSize (lengthAt dMsg offset) < announcedLength dMsg) :
      AvpOffset (offset + avpSize (lengthAt dMsg offset))

/-- The bytes of a value, rounded up to whole words, of which there is at least one. -/
def valueBytes (avpLength : Nat) : Nat := max 2 (2 * ((avpLength - 8 + 1) / 2))

/-- The value of this AVP is read. -/
def ValueRead (offset : Nat) : Prop :=
  0 < lengthAt dMsg offset ∧ lengthAt dMsg offset ≤ 5014 ∧
    (codeAt dMsg offset = 268 ∨ codeAt dMsg offset = 416)

/-- The first `L` bytes hold everything that the payload announces. -/
structure Complete (L : Nat) : Prop where
  header : 12 ≤ L
  hop : HeaderKnown dMsg → 16 ≤ L
  avpHeader : HeaderKnown dMsg → ∀ offset, AvpOffset dMsg offset → offset + 8 ≤ L
  avpValue : HeaderKnown dMsg → ∀ offset, AvpOffset dMsg offset → ValueRead dMsg offset →
    offset + 8 + valueBytes (lengthAt dMsg offset) ≤ L

end Payload

/-- The bytes that a round at this offset reads. -/
def AvpRead (dMsg : Buffer) (offset i : Nat) : Prop :=
  offset ≤ i ∧ i < offset + 8 ∨
    ValueRead dMsg offset ∧ offset + 8 ≤ i ∧ i < offset + 8 + valueBytes (lengthAt dMsg offset)

section Bytes

variable (undef : Undefined) (dMsg : Buffer)

theorem codeAt_eq (w : Nat) : extractDword undef dMsg w 0 32 = codeAt dMsg (w * 2) :=
  extractDword_four_bytes undef dMsg w

theorem lengthAt_eq (w : Nat) :
    extractDword undef dMsg (w + 2) 8 24 = lengthAt dMsg (w * 2) := by
  rw [extractDword_three_bytes, show (w + 2) * 2 = w * 2 + 4 by omega]
  rfl

theorem announcedLength_eq : extractDword undef dMsg 0 8 24 = announcedLength dMsg :=
  extractDword_three_bytes undef dMsg 0

theorem announcedLength_lt : announcedLength dMsg < 2 ^ 24 := by
  simpa [announcedLength] using beNat_lt (bytesAt dMsg 1 3)

theorem accepts_iff : Accepts undef dMsg ↔ HeaderKnown dMsg := by
  have happ : extractDword undef dMsg 4 0 32 = beNat (bytesAt dMsg 8 4) :=
    extractDword_four_bytes undef dMsg 4
  have hcc : extractDword undef dMsg 2 8 24 = beNat (bytesAt dMsg 5 3) :=
    extractDword_three_bytes undef dMsg 2
  rw [Accepts, HeaderKnown, happ, hcc]

theorem valueReads_eq {avpLength : Nat} (hle : avpLength ≤ 5014) (w : Nat) :
    extractDwordReads dMsg w 0 (int32 ((avpLength - 8) * 8)) =
      List.range' (w * 2) (valueBytes avpLength) := by
  have hbits : int32 (((avpLength : Int) - 8) * 8) = ((avpLength : Int) - 8) * 8 :=
    int32_eq_self (by omega) (by omega)
  rw [hbits]
  by_cases hshort : avpLength ≤ 10
  · have hcond : ((0 : Nat) : Int) + ((avpLength : Int) - 8) * 8 ≤ 16 := by omega
    have htwo : valueBytes avpLength = 2 := by
      unfold valueBytes
      omega
    rw [extractDwordReads, if_pos hcond, htwo]
    rfl
  · have hlen : ((avpLength : Int) - 8) * 8 = (((avpLength - 8) * 8 : Nat) : Int) := by omega
    have hbytes : 2 * fieldWords 0 ((avpLength - 8) * 8) = valueBytes avpLength := by
      unfold fieldWords valueBytes
      omega
    rw [hlen, extractDwordReads_eq dMsg w (by omega) (by omega), hbytes]

theorem fieldReads_eq (w : Nat) {startBit : Nat} (len : Nat) {n : Nat} (hbit : startBit < 16)
    (hlen : 1 ≤ len) (hn : 2 * fieldWords startBit len = n) :
    extractDwordReads dMsg w startBit len = List.range' (w * 2) n := by
  rw [extractDwordReads_eq dMsg w hbit hlen, hn]

theorem mem_avpReads {s : AvpState} {i : Nat} :
    i ∈ avpReads undef dMsg s ↔ AvpRead dMsg (s.avpStartWord * 2) i := by
  have hcode : extractDwordReads dMsg s.avpStartWord 0 32 = List.range' (s.avpStartWord * 2) 4 :=
    fieldReads_eq dMsg _ 32 (by omega) (by omega) rfl
  have hlength : extractDwordReads dMsg (s.avpStartWord + 2) 8 24 =
      List.range' ((s.avpStartWord + 2) * 2) 4 :=
    fieldReads_eq dMsg _ 24 (by omega) (by omega) rfl
  simp only [avpReads, List.mem_append, hcode, hlength, List.mem_range'_1, codeAt_eq, lengthAt_eq,
    AvpRead, ValueRead]
  generalize codeAt dMsg (s.avpStartWord * 2) = code
  generalize lengthAt dMsg (s.avpStartWord * 2) = avpLength
  by_cases hbad : avpLength ≤ 0 ∨ 5014 < avpLength
  · rw [if_pos hbad]
    simp only [List.not_mem_nil, or_false]
    omega
  · rw [if_neg hbad]
    by_cases hread : code = 268 ∨ code = 416
    · rw [if_pos hread, valueReads_eq dMsg (by omega), List.mem_range'_1]
      omega
    · rw [if_neg hread]
      simp only [List.not_mem_nil, or_false, hread, and_false, false_and]
      omega

end Bytes

/-- The state in which the loop is entered. -/
def AvpState.start (dMsg : Buffer) (memory : DiameterObject) : AvpState where
  resCode := memory.resCode
  reqType := memory.reqType
  resCodeAvp := false
  CCReqAvp := false
  msgRemaining := announcedLength dMsg - 20
  avpStartWord := 10

/-- A state at the head of the loop, with the AVP at its place. -/
structure AtAvp (dMsg : Buffer) (s : AvpState) (offset : Nat) : Prop where
  place : s.avpStartWord * 2 = offset
  inside : 0 < s.msgRemaining
  sum : 2 * (s.avpStartWord : Int) + s.msgRemaining = announcedLength dMsg
  offset : AvpOffset dMsg offset

section Loop

variable {undef : Undefined} {dMsg : Buffer} {request : Int} {s : AvpState} {offset : Nat}

theorem AtAvp.length_eq (h : AtAvp dMsg s offset) :
    extractDword undef dMsg (s.avpStartWord + 2) 8 24 = lengthAt dMsg offset := by
  rw [lengthAt_eq, h.place]

variable (undef) in
/-- A round that goes on comes to the next AVP, or to the end of the message. -/
theorem AtAvp.round_next (h : AtAvp dMsg s offset)
    (hgood : 0 < lengthAt dMsg offset ∧ lengthAt dMsg offset ≤ 5014)
    (hgo : ¬ (s.found.record
      (avpAt undef dMsg s.avpStartWord (lengthAt dMsg offset))).Stops request) :
    ∃ s', avpRound undef dMsg request s = (s', false) ∧
      s'.msgRemaining = s.msgRemaining - avpSize (lengthAt dMsg offset) ∧
      (0 < s'.msgRemaining → AtAvp dMsg s' (offset + avpSize (lengthAt dMsg offset))) := by
  have hL : (announcedLength dMsg : Int) < 2 ^ 24 := by
    exact_mod_cast announcedLength_lt dMsg
  have heven := four_dvd_avpSize (lengthAt dMsg offset)
  have hplace := h.place
  have hsum := h.sum
  refine ⟨_, avpRound_next h.length_eq hgood h.sum hL h.inside hgo, rfl, ?_⟩
  intro hrem
  dsimp only at hrem
  refine ⟨?_, hrem, ?_, h.offset.next hgood.1 hgood.2 ?_⟩
  · dsimp only
    omega
  · dsimp only
    omega
  · omega

theorem AtAvp.of_round (h : AtAvp dMsg s offset) (hhead : AvpHead (announcedLength dMsg) s)
    {s' : AvpState} (hround : Round AvpState.Inside (avpRound undef dMsg request) s s')
    (hin : s'.Inside) : AtAvp dMsg s' (offset + avpSize (lengthAt dMsg offset)) := by
  obtain ⟨hpos, hle, hstep⟩ := hhead.round (announcedLength_lt dMsg) hround
  rw [h.length_eq] at hpos hle hstep
  have hplace := h.place
  have hsum := h.sum
  have hin' : 0 < s'.msgRemaining := hin
  have hdvd := hstep.four_dvd
  have hrem := hstep.msgRemaining
  have hword := hstep.avpStartWord
  exact ⟨by omega, hin, by omega, h.offset.next hpos hle (by omega)⟩

end Loop

section Heads

variable {undef : Undefined} {dMsg : Buffer} {memory : DiameterObject}

theorem loopEntry_eq_start (undef : Undefined) (dMsg : Buffer) (memory : DiameterObject) :
    loopEntry undef dMsg memory = AvpState.start dMsg memory := by
  have hrem := loopEntry_msgRemaining undef dMsg memory
  rw [announcedLength_eq] at hrem
  rw [AvpState.start, ← hrem]
  rfl

theorem avpHead_start (dMsg : Buffer) (memory : DiameterObject) :
    AvpHead (announcedLength dMsg) (AvpState.start dMsg memory) := by
  have hentry := avpHead_loopEntry (fun _ _ => 0) dMsg memory
  rwa [loopEntry_eq_start, announcedLength_eq] at hentry

theorem exists_offset_of_head {s : AvpState}
    (h : Head AvpState.Inside (avpRound undef dMsg memory.request) (AvpState.start dMsg memory) s)
    (hin : s.Inside) : ∃ offset, AtAvp dMsg s offset := by
  induction h with
  | refl =>
    have hlong : 0 < (announcedLength dMsg : Int) - 20 := hin
    exact ⟨20, rfl, hin, by simp [AvpState.start], .first (by omega)⟩
  | tail hs hround ih =>
    obtain ⟨offset, hat⟩ := ih hround.1
    have hhead := (variant_avpRound undef dMsg memory.request (announcedLength_lt dMsg)).head
      (avpHead_start dMsg memory) hs
    exact ⟨_, hat.of_round hhead hround hin⟩

/-- With any other value than 0 and 1 in `request` the loop goes through the whole message. -/
theorem Found.not_stops_two (f : Found) : ¬ f.Stops 2 := by
  simp [Found.Stops]

variable (undef memory) in
/-- A loop that is never left by a `break` after a value comes to every AVP. -/
theorem exists_head_of_offset (hgo : ∀ f : Found, ¬ f.Stops memory.request) {offset : Nat}
    (h : AvpOffset dMsg offset) :
    ∃ s, Head AvpState.Inside (avpRound undef dMsg memory.request) (AvpState.start dMsg memory) s ∧
      AtAvp dMsg s offset := by
  induction h with
  | first h =>
    have hlong : 0 < (announcedLength dMsg : Int) - 20 := by omega
    exact ⟨_, .refl, rfl, hlong, by simp [AvpState.start], .first h⟩
  | @next offset h hpos hle hin ih =>
    obtain ⟨s, hs, hat⟩ := ih
    have hplace := hat.place
    have hsum := hat.sum
    obtain ⟨s', hround, hrem, hat'⟩ := hat.round_next undef ⟨hpos, hle⟩ (hgo _)
    exact ⟨s', hs.tail ⟨hat.inside, hround⟩, hat' (by omega)⟩

theorem avpLoopReads_eq_trace (undef : Undefined) (dMsg : Buffer) (request : Int) (fuel : Nat) (s : AvpState) :
    avpLoopReads undef dMsg request fuel s =
      trace AvpState.Inside (avpRound undef dMsg request) (avpReads undef dMsg) fuel s := by
  induction fuel generalizing s with
  | zero => rfl
  | succ fuel ih =>
    rw [avpLoopReads, trace]
    refine if_congr Iff.rfl (congrArg _ ?_) rfl
    cases avpRound undef dMsg request s with
    | mk s' stop =>
      cases stop with
      | true => rfl
      | false => exact ih s'

theorem mem_avpLoopReads {i : Nat} :
    i ∈ avpLoopReads undef dMsg memory.request (AvpState.start dMsg memory).msgRemaining.toNat
        (AvpState.start dMsg memory) ↔
      ∃ s, Head AvpState.Inside (avpRound undef dMsg memory.request) (AvpState.start dMsg memory) s ∧
        s.Inside ∧ AvpRead dMsg (s.avpStartWord * 2) i := by
  rw [avpLoopReads_eq_trace, (variant_avpRound undef dMsg memory.request
    (announcedLength_lt dMsg)).mem_trace (avpHead_start dMsg memory) le_rfl]
  simp only [mem_avpReads]

end Heads

section Construct

variable {undef : Undefined} {dMsg : Buffer} {memory : DiameterObject} {i : Nat}

theorem mem_constructReads_of_known (h : HeaderKnown dMsg) :
    i ∈ memory.constructReads undef dMsg ↔ i < 16 ∨
      i ∈ avpLoopReads undef dMsg memory.request (AvpState.start dMsg memory).msgRemaining.toNat
        (AvpState.start dMsg memory) := by
  have hacc := (accepts_iff undef dMsg).mpr h
  have hcc := hacc.command
  have hlt := announcedLength_lt dMsg
  have hrem : int32 (extractDword undef dMsg 0 8 24 - 20) = (announcedLength dMsg : Int) - 20 := by
    rw [announcedLength_eq]
    exact int32_eq_self (by omega) (by omega)
  have h24 (w : Nat) : extractDwordReads dMsg w 8 24 = List.range' (w * 2) 4 :=
    fieldReads_eq dMsg w 24 (by omega) (by omega) rfl
  have h32 (w : Nat) : extractDwordReads dMsg w 0 32 = List.range' (w * 2) 4 :=
    fieldReads_eq dMsg w 32 (by omega) (by omega) rfl
  have h8 : extractDwordReads dMsg 2 0 8 = List.range' 4 2 :=
    fieldReads_eq dMsg 2 8 (by omega) (by omega) rfl
  simp only [DiameterObject.constructReads, if_neg hacc.1, if_neg hcc, hrem, h24, h32, h8,
    List.mem_append, List.mem_range'_1, AvpState.start]
  constructor
  · rintro (hi | hi | hi | hi | hi | hi)
    all_goals first | exact .inr hi | exact .inl (by omega)
  · rintro (hi | hi)
    · omega
    · exact .inr (.inr (.inr (.inr (.inr hi))))

theorem mem_constructReads_of_unknown (h : ¬ HeaderKnown dMsg) :
    i ∈ memory.constructReads undef dMsg ↔ 4 ≤ i ∧ i < 12 := by
  have hacc := (accepts_iff undef dMsg).not.mpr h
  have hcc : extractDwordReads dMsg 2 8 24 = List.range' 4 4 :=
    fieldReads_eq dMsg 2 24 (by omega) (by omega) rfl
  have happ : extractDwordReads dMsg 4 0 32 = List.range' 8 4 :=
    fieldReads_eq dMsg 4 32 (by omega) (by omega) rfl
  have hrest : i ∈ memory.constructReads undef dMsg ↔ i ∈ List.range' 4 4 ∨ i ∈ List.range' 8 4 := by
    unfold DiameterObject.constructReads
    rw [hcc, happ]
    by_cases hknown : Iface.ofAppId (extractDword undef dMsg 4 0 32) = none
    · simp [hknown]
    · have hother : extractDword undef dMsg 2 8 24 ≠ CC.CCRorA.code ∧
          extractDword undef dMsg 2 8 24 ≠ CC.S6BAA.code ∧
          extractDword undef dMsg 2 8 24 ≠ CC.S6BTERMINATE.code := by
        unfold Accepts at hacc
        tauto
      simp [hknown, hother]
  rw [hrest, List.mem_range'_1, List.mem_range'_1]
  omega

end Construct

section Congruence

variable {undef : Undefined} {dMsg dMsg' : Buffer} {request : Int}

theorem avpRound_congr {s : AvpState} (h : ∀ i ∈ avpReads undef dMsg s, dMsg i = dMsg' i) :
    avpRound undef dMsg request s = avpRound undef dMsg' request s := by
  simp only [avpReads, List.mem_append] at h
  have hcode : extractDword undef dMsg s.avpStartWord 0 32 =
      extractDword undef dMsg' s.avpStartWord 0 32 :=
    extractDword_congr undef (by omega) fun i hi => h i (.inl hi)
  have hlength : extractDword undef dMsg (s.avpStartWord + 2) 8 24 =
      extractDword undef dMsg' (s.avpStartWord + 2) 8 24 :=
    extractDword_congr undef (by omega) fun i hi => h i (.inr (.inl hi))
  unfold avpRound
  rw [← hlength]
  by_cases hbad : extractDword undef dMsg (s.avpStartWord + 2) 8 24 ≤ 0 ∨
      5014 < extractDword undef dMsg (s.avpStartWord + 2) 8 24
  · simp only [if_pos hbad]
  · have hswitch : avpSwitch undef dMsg s (extractDword undef dMsg (s.avpStartWord + 2) 8 24) =
        avpSwitch undef dMsg' s (extractDword undef dMsg (s.avpStartWord + 2) 8 24) := by
      unfold avpSwitch
      rw [← hcode]
      by_cases hread : extractDword undef dMsg s.avpStartWord 0 32 = 268 ∨
          extractDword undef dMsg s.avpStartWord 0 32 = 416
      · simp only [if_neg hbad, if_pos hread] at h
        have hvalue := extractDword_congr undef (by omega) fun i hi => h i (.inr (.inr hi))
        rw [← hvalue]
      · have hres := fun hc => hread (.inl hc)
        have hreq := fun hc => hread (.inr hc)
        simp only [if_neg hres, if_neg hreq]
    simp only [if_neg hbad, hswitch]

theorem avpLoop_congr {fuel : Nat} {s : AvpState}
    (h : ∀ i ∈ avpLoopReads undef dMsg request fuel s, dMsg i = dMsg' i) :
    avpLoop undef dMsg request fuel s = avpLoop undef dMsg' request fuel s := by
  induction fuel generalizing s with
  | zero => rfl
  | succ fuel ih =>
    rw [avpLoop, avpLoop]
    split_ifs with hrem
    · rw [avpLoopReads, if_pos hrem] at h
      rw [← avpRound_congr fun i hi => h i (List.mem_append_left _ hi)]
      cases hround : avpRound undef dMsg request s with
      | mk s' stop =>
        rw [hround] at h
        cases stop with
        | true => rfl
        | false => exact ih fun i hi => h i (List.mem_append_right _ hi)
    · rfl

/-- Payloads that agree where the constructor reads give the same object. -/
theorem construct_congr {memory : DiameterObject}
    (h : ∀ i ∈ memory.constructReads undef dMsg, dMsg i = dMsg' i) :
    memory.construct undef dMsg = memory.construct undef dMsg' := by
  simp only [DiameterObject.constructReads, List.mem_append] at h
  have hcc : extractDword undef dMsg 2 8 24 = extractDword undef dMsg' 2 8 24 :=
    extractDword_congr undef (by omega) fun i hi => h i (.inl hi)
  have happ : extractDword undef dMsg 4 0 32 = extractDword undef dMsg' 4 0 32 :=
    extractDword_congr undef (by omega) fun i hi => h i (.inr (.inl hi))
  unfold DiameterObject.construct
  rw [← hcc, ← happ]
  by_cases hknown : Iface.ofAppId (extractDword undef dMsg 4 0 32) = none
  · simp only [if_pos hknown]
  by_cases hother : extractDword undef dMsg 2 8 24 ≠ CC.CCRorA.code ∧
      extractDword undef dMsg 2 8 24 ≠ CC.S6BAA.code ∧
      extractDword undef dMsg 2 8 24 ≠ CC.S6BTERMINATE.code
  · simp only [if_neg hknown, if_pos hother]
  · simp only [if_neg hknown, if_neg hother, List.mem_append] at h ⊢
    have hlength : extractDword undef dMsg 0 8 24 = extractDword undef dMsg' 0 8 24 :=
      extractDword_congr undef (by omega) fun i hi => h i (.inr (.inr (.inl hi)))
    have hflag : extractDword undef dMsg 2 0 8 = extractDword undef dMsg' 2 0 8 :=
      extractDword_congr undef (by omega) fun i hi => h i (.inr (.inr (.inr (.inl hi))))
    have hhop : extractDword undef dMsg 6 0 32 = extractDword undef dMsg' 6 0 32 :=
      extractDword_congr undef (by omega) fun i hi => h i (.inr (.inr (.inr (.inr (.inl hi)))))
    have hloop := avpLoop_congr fun i hi => h i (.inr (.inr (.inr (.inr (.inr hi)))))
    rw [← hlength, ← hflag, ← hhop, ← hloop]

end Congruence

/-- Whatever the memory of the object holds, no byte behind the payload is read. -/
def ReadsInside (dMsg : Buffer) (L : Nat) : Prop :=
  ∀ (undef : Undefined) (memory : DiameterObject), ∀ i ∈ memory.constructReads undef dMsg, i < L

section Inside

variable {dMsg : Buffer} {L : Nat}

theorem ReadsInside.avp (h : ReadsInside dMsg L) (hknown : HeaderKnown dMsg) {offset i : Nat}
    (hoff : AvpOffset dMsg offset) (hi : AvpRead dMsg offset i) : i < L := by
  obtain ⟨s, hs, hat⟩ := exists_head_of_offset (fun _ _ => 0) { staleRequest with request := 2 }
    Found.not_stops_two hoff
  refine h (fun _ _ => 0) { staleRequest with request := 2 } i
    ((mem_constructReads_of_known hknown).mpr (.inr (mem_avpLoopReads.mpr ⟨s, hs, hat.inside, ?_⟩)))
  rwa [hat.place]

theorem ReadsInside.complete (h : ReadsInside dMsg L) : Complete dMsg L where
  header := by
    by_cases hknown : HeaderKnown dMsg
    · exact h (fun _ _ => 0) staleRequest 11
        ((mem_constructReads_of_known hknown).mpr (.inl (by omega)))
    · exact h (fun _ _ => 0) staleRequest 11
        ((mem_constructReads_of_unknown hknown).mpr (by omega))
  hop hknown := h (fun _ _ => 0) staleRequest 15
    ((mem_constructReads_of_known hknown).mpr (.inl (by omega)))
  avpHeader hknown offset hoff := h.avp hknown hoff (i := offset + 7) (.inl (by omega))
  avpValue hknown offset hoff hvalue := by
    have htwo : 2 ≤ valueBytes (lengthAt dMsg offset) := le_max_left _ _
    have hlast := h.avp hknown hoff (i := offset + 8 + valueBytes (lengthAt dMsg offset) - 1)
      (.inr ⟨hvalue, by omega, by omega⟩)
    omega

theorem Complete.loop (h : Complete dMsg L) (hknown : HeaderKnown dMsg) {undef : Undefined}
    {memory : DiameterObject} {i : Nat}
    (hi : i ∈ avpLoopReads undef dMsg memory.request
      (AvpState.start dMsg memory).msgRemaining.toNat (AvpState.start dMsg memory)) : i < L := by
  obtain ⟨s, hs, hin, hread⟩ := mem_avpLoopReads.mp hi
  obtain ⟨offset, hat⟩ := exists_offset_of_head hs hin
  rw [hat.place] at hread
  rcases hread with hhead | ⟨hvalue, hval⟩
  · have := h.avpHeader hknown offset hat.offset
    omega
  · have := h.avpValue hknown offset hat.offset hvalue
    omega

end Inside

theorem readsInside_iff (dMsg : Buffer) (L : Nat) : ReadsInside dMsg L ↔ Complete dMsg L := by
  refine ⟨ReadsInside.complete, ?_⟩
  intro h undef memory i hi
  have hheader := h.header
  by_cases hknown : HeaderKnown dMsg
  · have hhop := h.hop hknown
    rcases (mem_constructReads_of_known hknown).mp hi with hi | hi
    · omega
    · exact h.loop hknown hi
  · have := (mem_constructReads_of_unknown hknown).mp hi
    omega

/-- A segment that ends after 24 bytes of an answer: the header of its first AVP is read up
to byte 27. -/
theorem reads_behind_segment :
    let m := gxAnswerMessage [originHostAvp, resultCodeAvp, requestTypeAvp] (by decide)
    ¬ ReadsInside m.buffer 24 := by
  intro m h
  have hlast : 27 ∈ staleRequest.constructReads (fun _ _ => 0) m.buffer := by decide +kernel
  exact absurd (h (fun _ _ => 0) staleRequest 27 hlast) (by decide)

end AnalysePcap
