import AnalysePcap.Diameter
import AnalysePcap.SignedBytes
import Mathlib.Algebra.Order.Ring.Int

/-! The constructor of `Diameter`. It reads bit fields of a buffer and walks over the
AVPs of the message, and it is run on memory whose contents are whatever was there
before. `DWORD` values are naturals below `2 ^ 32`. -/

namespace AnalysePcap

abbrev Buffer := Nat → BitVec 8

def word_masks : List Nat :=
  [0x0000, 0x0001, 0x0003, 0x0007, 0x000F, 0x001F, 0x003F, 0x007F, 0x00FF,
    0x01FF, 0x03FF, 0x07FF, 0x0FFF, 0x1FFF, 0x3FFF, 0x7FFF, 0xFFFF]

def word (buffer : Buffer) (offset : Nat) : Nat :=
  ((buffer offset).toNat <<< 8) ||| (buffer (offset + 1)).toNat

/-- What the compiled program computes in place of a bit field of negative length, for
which both the index into `word_masks` and the shift are undefined. -/
abbrev Undefined := Int → Nat → Nat

/-- The loop of `extractDword`, with the variables it leaves behind. -/
def extractWords (buffer : Buffer) (startBit : Nat) :
    (fuel : Nat) → (firstWord : Bool) → (wordOffset value : Nat) → (lenLeft : Int) →
      Nat × Nat × Int
  | 0, _, wordOffset, value, lenLeft => (wordOffset, value, lenLeft)
  | fuel + 1, firstWord, wordOffset, value, lenLeft =>
    if 16 ≤ lenLeft ∨ firstWord = true then
      let curWord := word buffer wordOffset
      if firstWord = true then
        extractWords buffer startBit fuel false (wordOffset + 2)
          (curWord &&& word_masks.getD (16 - startBit) 0) (lenLeft - (16 - startBit))
      else
        extractWords buffer startBit fuel false (wordOffset + 2)
          (((value <<< 16) ||| curWord) % 2 ^ 32) (lenLeft - 16)
    else (wordOffset, value, lenLeft)

def extractDword (undef : Undefined) (buffer : Buffer) (startWord startBit : Nat) (len : Int) :
    Nat :=
  if startBit + len ≤ 16 then
    match len with
    | .ofNat len =>
      (word buffer (startWord * 2) >>> (16 - startBit - len)) &&& word_masks.getD len 0
    | .negSucc n => undef (.negSucc n) (word buffer (startWord * 2)) % 2 ^ 32
  else
    -- each round but the first takes 16 bits
    let (wordOffset, value, lenLeft) :=
      extractWords buffer startBit (len.toNat + 1) true (startWord * 2) 0 len
    if 0 < lenLeft then
      ((value <<< lenLeft.toNat) ||| (word buffer wordOffset >>> (16 - lenLeft.toNat))) % 2 ^ 32
    else value

/-- Conversion to `int`. -/
@[irreducible] def int32 (n : Int) : Int := n.bmod (2 ^ 32)

/-- The fields of the class, those that only the constructor uses included. -/
structure DiameterObject extends Diameter where
  msgLength : Nat
  commandFlag : Nat

structure AvpState where
  resCode : Int
  reqType : Nat
  resCodeAvp : Bool
  CCReqAvp : Bool
  msgRemaining : Int
  avpStartWord : Nat

section Constructor

variable (undef : Undefined) (dMsg : Buffer)

/-- The `switch` on the code of the AVP. -/
def avpSwitch (s : AvpState) (avpLength : Nat) : AvpState :=
  let avpCode := extractDword undef dMsg s.avpStartWord 0 32
  let value := extractDword undef dMsg (s.avpStartWord + 4) 0 (int32 ((avpLength - 8) * 8))
  if avpCode = 268 then { s with resCode := int32 value, resCodeAvp := true }
  else if avpCode = 416 then
    { s with reqType := if 4 < value then 0 else value, CCReqAvp := true }
  else s

/-- One round of the loop over the AVPs, and whether it leaves the loop by a `break`. -/
def avpRound (request : Int) (s : AvpState) : AvpState × Bool :=
  let avpLength := extractDword undef dMsg (s.avpStartWord + 2) 8 24
  if avpLength ≤ 0 ∨ 5014 < avpLength then (s, true)
  else
    let s := avpSwitch undef dMsg s avpLength
    -- `request` is read here before the constructor sets it
    if request = 1 ∧ s.CCReqAvp = true then (s, true)
    else if request = 0 ∧ s.CCReqAvp = true ∧ s.resCodeAvp = true then (s, true)
    else
      let reminder := avpLength % 4
      let roundoff := if reminder ≠ 0 then 4 - reminder else 0
      ({ s with
          msgRemaining := int32 (s.msgRemaining - (avpLength + roundoff))
          avpStartWord := (s.avpStartWord + (avpLength + roundoff) / 2) % 2 ^ 32 }, false)

def avpLoop (request : Int) : (fuel : Nat) → AvpState → AvpState
  | 0, s => s
  | fuel + 1, s =>
    if 0 < s.msgRemaining then
      match avpRound undef dMsg request s with
      | (s, true) => s
      | (s, false) => avpLoop request fuel s
    else s

def DiameterObject.construct (memory : DiameterObject) : DiameterObject :=
  let cc := extractDword undef dMsg 2 8 24
  let appId := extractDword undef dMsg 4 0 32
  let d := { memory with valid := true, cc := cc, appId := appId }
  if Iface.ofAppId appId = none then { d with valid := false }
  else if cc ≠ CC.CCRorA.code ∧ cc ≠ CC.S6BAA.code ∧ cc ≠ CC.S6BTERMINATE.code then
    { d with valid := false }
  else
    let msgLength := extractDword undef dMsg 0 8 24
    let commandFlag := extractDword undef dMsg 2 0 8 % 2 ^ 8
    let msgRemaining := int32 (msgLength - 20)
    let s := avpLoop undef dMsg memory.request msgRemaining.toNat
      { resCode := memory.resCode, reqType := memory.reqType, resCodeAvp := false,
        CCReqAvp := false, msgRemaining := msgRemaining, avpStartWord := 10 }
    { d with
      msgLength := msgLength
      commandFlag := commandFlag
      hopIdentifier := extractDword undef dMsg 6 0 32
      resCode := s.resCode
      reqType := s.reqType
      request := if commandFlag &&& 0x80 ≠ 0 then 1 else 0 }

end Constructor

/-- The unsigned number whose bytes are given from the most significant one. -/
def beNat (bs : List (BitVec 8)) : Nat := bs.foldl (fun n b => n * 256 + b.toNat) 0

theorem word_eq (buffer : Buffer) (offset : Nat) :
    word buffer offset = (buffer offset).toNat * 256 + (buffer (offset + 1)).toNat := by
  have hlow := (buffer (offset + 1)).isLt
  rw [word, ← Nat.shiftLeft_add_eq_or_of_lt hlow, Nat.shiftLeft_eq]

theorem word_lt (buffer : Buffer) (offset : Nat) : word buffer offset < 2 ^ 16 := by
  have hhigh := (buffer offset).isLt
  have hlow := (buffer (offset + 1)).isLt
  rw [word_eq]
  omega

theorem shift_or_word (buffer : Buffer) (offset value : Nat) :
    value <<< 16 ||| word buffer offset = value * 2 ^ 16 + word buffer offset := by
  rw [← Nat.shiftLeft_add_eq_or_of_lt (word_lt buffer offset), Nat.shiftLeft_eq]

theorem word_and_full (buffer : Buffer) (offset : Nat) :
    word buffer offset &&& 65535 = word buffer offset := by
  rw [show 65535 = 2 ^ 16 - 1 from rfl, Nat.and_two_pow_sub_one_eq_mod]
  exact Nat.mod_eq_of_lt (word_lt buffer offset)

theorem word_and_low (buffer : Buffer) (offset : Nat) :
    word buffer offset &&& 255 = (buffer (offset + 1)).toNat := by
  have hlow := (buffer (offset + 1)).isLt
  rw [show 255 = 2 ^ 8 - 1 from rfl, Nat.and_two_pow_sub_one_eq_mod, word_eq]
  omega

section Fields

variable (undef : Undefined) (buffer : Buffer) (startWord : Nat)

theorem extractDword_byte :
    extractDword undef buffer startWord 0 8 = beNat [buffer (startWord * 2)] := by
  have hhigh := (buffer (startWord * 2)).isLt
  have hlow := (buffer (startWord * 2 + 1)).isLt
  have hshift : word buffer (startWord * 2) >>> 8 = (buffer (startWord * 2)).toNat := by
    rw [Nat.shiftRight_eq_div_pow, word_eq]
    omega
  have hfield : extractDword undef buffer startWord 0 8 =
      (word buffer (startWord * 2) >>> 8) &&& 255 := rfl
  rw [hfield, hshift, show 255 = 2 ^ 8 - 1 from rfl, Nat.and_two_pow_sub_one_eq_mod,
    Nat.mod_eq_of_lt hhigh]
  simp [beNat]

theorem extractDword_three_bytes :
    extractDword undef buffer startWord 8 24 =
      beNat [buffer (startWord * 2 + 1), buffer (startWord * 2 + 2), buffer (startWord * 2 + 3)] := by
  have hfield : extractDword undef buffer startWord 8 24 =
      (((word buffer (startWord * 2) &&& 255) <<< 16) ||| word buffer (startWord * 2 + 2)) %
        2 ^ 32 := rfl
  have hlow := (buffer (startWord * 2 + 1)).isLt
  have hword := word_lt buffer (startWord * 2 + 2)
  rw [hfield, word_and_low, shift_or_word, Nat.mod_eq_of_lt (by omega), word_eq]
  simp only [beNat, List.foldl_cons, List.foldl_nil, Nat.add_assoc, Nat.reduceAdd]
  omega

theorem extractDword_four_bytes :
    extractDword undef buffer startWord 0 32 =
      beNat [buffer (startWord * 2), buffer (startWord * 2 + 1), buffer (startWord * 2 + 2),
        buffer (startWord * 2 + 3)] := by
  have hfield : extractDword undef buffer startWord 0 32 =
      (((word buffer (startWord * 2) &&& 65535) <<< 16) ||| word buffer (startWord * 2 + 2)) %
        2 ^ 32 := rfl
  have hfirst := word_lt buffer (startWord * 2)
  have hsecond := word_lt buffer (startWord * 2 + 2)
  rw [hfield, word_and_full, shift_or_word, Nat.mod_eq_of_lt (by omega), word_eq, word_eq]
  simp only [beNat, List.foldl_cons, List.foldl_nil, Nat.add_assoc, Nat.reduceAdd]
  omega

end Fields

inductive Avp where
  | resultCode (value : Nat)
  | requestType (value : Nat)
  | other
  deriving DecidableEq, Repr

/-- The fields that the AVPs set, and which of them have been set. -/
structure Found where
  resCode : Int
  reqType : Nat
  resCodeAvp : Bool
  CCReqAvp : Bool
  deriving DecidableEq, Repr

def Found.record (f : Found) : Avp → Found
  | .resultCode value => { f with resCode := int32 value, resCodeAvp := true }
  | .requestType value =>
    { f with reqType := if 4 < value then 0 else value, CCReqAvp := true }
  | .other => f

-- not by `rfl`, which would make the kernel compute with `int32`
@[simp] theorem Found.record_resultCode (f : Found) (value : Nat) :
    f.record (.resultCode value) = ⟨int32 value, f.reqType, true, f.CCReqAvp⟩ := by
  simp only [Found.record]

@[simp] theorem Found.record_requestType (f : Found) (value : Nat) :
    f.record (.requestType value) =
      ⟨f.resCode, if 4 < value then 0 else value, f.resCodeAvp, true⟩ := by
  simp only [Found.record]

@[simp] theorem Found.record_other (f : Found) : f.record .other = f := rfl

def Found.Stops (f : Found) (request : Int) : Prop :=
  request = 1 ∧ f.CCReqAvp = true ∨ request = 0 ∧ f.CCReqAvp = true ∧ f.resCodeAvp = true

instance (f : Found) (request : Int) : Decidable (f.Stops request) :=
  inferInstanceAs (Decidable (_ ∨ _))

/-- The loop on the AVPs alone. -/
def scan (request : Int) : List Avp → Found → Found
  | [], f => f
  | avp :: avps, f =>
    if (f.record avp).Stops request then f.record avp else scan request avps (f.record avp)

/-- The length of an AVP with its padding. -/
def avpSize (avpLength : Nat) : Nat :=
  avpLength + if avpLength % 4 ≠ 0 then 4 - avpLength % 4 else 0

theorem four_dvd_avpSize (avpLength : Nat) : 4 ∣ avpSize avpLength := by
  unfold avpSize
  split_ifs <;> omega

theorem le_avpSize (avpLength : Nat) : avpLength ≤ avpSize avpLength := Nat.le_add_right _ _

theorem avpSize_lt (avpLength : Nat) : avpSize avpLength < avpLength + 4 := by
  unfold avpSize
  split_ifs <;> omega

def AvpState.found (s : AvpState) : Found := ⟨s.resCode, s.reqType, s.resCodeAvp, s.CCReqAvp⟩

def AvpState.withFound (s : AvpState) (f : Found) : AvpState :=
  { s with resCode := f.resCode, reqType := f.reqType, resCodeAvp := f.resCodeAvp,
           CCReqAvp := f.CCReqAvp }

@[simp] theorem AvpState.found_withFound (s : AvpState) (f : Found) : (s.withFound f).found = f := rfl

section Walk

variable (undef : Undefined) (dMsg : Buffer)

def avpAt (avpStartWord avpLength : Nat) : Avp :=
  let avpCode := extractDword undef dMsg avpStartWord 0 32
  let value := extractDword undef dMsg (avpStartWord + 4) 0 (int32 ((avpLength - 8) * 8))
  if avpCode = 268 then .resultCode value
  else if avpCode = 416 then .requestType value
  else .other

/-- The AVPs met by a walk over the whole message. -/
def avps : (fuel : Nat) → (avpStartWord : Nat) → (msgRemaining : Int) → List Avp
  | 0, _, _ => []
  | fuel + 1, avpStartWord, msgRemaining =>
    let avpLength := extractDword undef dMsg (avpStartWord + 2) 8 24
    if 0 < msgRemaining ∧ 0 < avpLength ∧ avpLength ≤ 5014 then
      avpAt undef dMsg avpStartWord avpLength ::
        avps fuel (avpStartWord + avpSize avpLength / 2) (msgRemaining - avpSize avpLength)
    else []

variable {undef dMsg}

theorem int32_eq_self {n : Int} (hlow : -2 ^ 31 ≤ n) (hhigh : n < 2 ^ 31) : int32 n = n := by
  unfold int32
  exact Int.bmod_eq_of_le (by simpa using hlow) (by simpa using hhigh)

theorem avpSwitch_eq (s : AvpState) (avpLength : Nat) :
    avpSwitch undef dMsg s avpLength =
      s.withFound (s.found.record (avpAt undef dMsg s.avpStartWord avpLength)) := by
  simp only [avpSwitch, avpAt]
  generalize extractDword undef dMsg s.avpStartWord 0 32 = avpCode
  generalize extractDword undef dMsg (s.avpStartWord + 4) 0 (int32 ((avpLength - 8) * 8)) = value
  by_cases hres : avpCode = 268
  · simp only [if_pos hres, Found.record, AvpState.withFound, AvpState.found]
  · by_cases hreq : avpCode = 416
    · simp only [if_neg hres, if_pos hreq, Found.record, AvpState.withFound, AvpState.found]
    · simp only [if_neg hres, if_neg hreq, Found.record, AvpState.withFound, AvpState.found]

theorem avpRound_of_bad {request : Int} {s : AvpState}
    (h : ¬ (0 < extractDword undef dMsg (s.avpStartWord + 2) 8 24 ∧
      extractDword undef dMsg (s.avpStartWord + 2) 8 24 ≤ 5014)) :
    avpRound undef dMsg request s = (s, true) := by
  rw [avpRound, if_pos (by omega)]

theorem avpRound_of_good {request : Int} {s : AvpState} {avpLength : Nat}
    (hlen : extractDword undef dMsg (s.avpStartWord + 2) 8 24 = avpLength)
    (hgood : 0 < avpLength ∧ avpLength ≤ 5014) :
    avpRound undef dMsg request s =
      let f := s.found.record (avpAt undef dMsg s.avpStartWord avpLength)
      if f.Stops request then (s.withFound f, true)
      else ({ s.withFound f with
          msgRemaining := int32 (s.msgRemaining - avpSize avpLength)
          avpStartWord := (s.avpStartWord + avpSize avpLength / 2) % 2 ^ 32 }, false) := by
  have hbad : ¬ (avpLength ≤ 0 ∨ 5014 < avpLength) := by omega
  have hsize : (avpSize avpLength : Int) =
      avpLength + ↑(if avpLength % 4 ≠ 0 then 4 - avpLength % 4 else 0) := Nat.cast_add _ _
  rw [avpRound, hlen]
  simp only [if_neg hbad, avpSwitch_eq, hsize]
  generalize s.found.record (avpAt undef dMsg s.avpStartWord avpLength) = f
  by_cases hfirst : request = 1 ∧ f.CCReqAvp = true
  · have hstops : f.Stops request := .inl hfirst
    exact (if_pos hfirst).trans (if_pos hstops).symm
  · by_cases hsecond : request = 0 ∧ f.CCReqAvp = true ∧ f.resCodeAvp = true
    · have hstops : f.Stops request := .inr hsecond
      exact ((if_neg hfirst).trans (if_pos hsecond)).trans (if_pos hstops).symm
    · have hstops : ¬ f.Stops request := fun h => h.elim hfirst hsecond
      exact ((if_neg hfirst).trans (if_neg hsecond)).trans (if_neg hstops).symm

/-- A round that goes on moves both counters by the size of the AVP: nothing wraps. -/
theorem avpRound_next {request L : Int} {s : AvpState} {avpLength : Nat}
    (hlen : extractDword undef dMsg (s.avpStartWord + 2) 8 24 = avpLength)
    (hgood : 0 < avpLength ∧ avpLength ≤ 5014)
    (hinv : 2 * (s.avpStartWord : Int) + s.msgRemaining = L) (hL : L < 2 ^ 24)
    (hrem : 0 < s.msgRemaining)
    (hgo : ¬ (s.found.record (avpAt undef dMsg s.avpStartWord avpLength)).Stops request) :
    avpRound undef dMsg request s =
      ({ s.withFound (s.found.record (avpAt undef dMsg s.avpStartWord avpLength)) with
          msgRemaining := s.msgRemaining - avpSize avpLength
          avpStartWord := s.avpStartWord + avpSize avpLength / 2 }, false) := by
  have hsize := avpSize_lt avpLength
  have hrem' : int32 (s.msgRemaining - avpSize avpLength) = s.msgRemaining - avpSize avpLength :=
    int32_eq_self (by omega) (by omega)
  have hword : (s.avpStartWord + avpSize avpLength / 2) % 2 ^ 32 =
      s.avpStartWord + avpSize avpLength / 2 := Nat.mod_eq_of_lt (by omega)
  rw [avpRound_of_good hlen hgood]
  simp only [if_neg hgo, hrem', hword]

theorem avpRound_stop {request : Int} {s : AvpState} {avpLength : Nat}
    (hlen : extractDword undef dMsg (s.avpStartWord + 2) 8 24 = avpLength)
    (hgood : 0 < avpLength ∧ avpLength ≤ 5014)
    (hstop : (s.found.record (avpAt undef dMsg s.avpStartWord avpLength)).Stops request) :
    avpRound undef dMsg request s =
      (s.withFound (s.found.record (avpAt undef dMsg s.avpStartWord avpLength)), true) := by
  rw [avpRound_of_good hlen hgood]
  simp only [if_pos hstop]

theorem avpLoop_found {request L : Int} (hL : L < 2 ^ 24) (fuel : Nat) {s : AvpState}
    (hinv : 2 * (s.avpStartWord : Int) + s.msgRemaining = L) :
    (avpLoop undef dMsg request fuel s).found =
      scan request (avps undef dMsg fuel s.avpStartWord s.msgRemaining) s.found := by
  induction fuel generalizing s with
  | zero => rfl
  | succ fuel ih =>
    rw [avpLoop, avps]
    by_cases hrem : 0 < s.msgRemaining
    · generalize hlen : extractDword undef dMsg (s.avpStartWord + 2) 8 24 = avpLength
      by_cases hgood : 0 < avpLength ∧ avpLength ≤ 5014
      · simp only [hrem, hgood, and_self, if_true, scan]
        by_cases hstop : (s.found.record (avpAt undef dMsg s.avpStartWord avpLength)).Stops request
        · rw [avpRound_stop hlen hgood hstop, if_pos hstop]
          rfl
        · have hnext := avpRound_next hlen hgood hinv hL hrem hstop
          have heven : avpSize avpLength / 2 * 2 = avpSize avpLength := by
            have := four_dvd_avpSize avpLength
            omega
          rw [hnext, if_neg hstop]
          refine ih ?_
          push_cast
          omega
      · have hbad : avpRound undef dMsg request s = (s, true) :=
          avpRound_of_bad (hlen.symm ▸ hgood)
        simp [hrem, hgood, hbad, scan]
    · simp [hrem, scan]

variable (undef dMsg)

/-- The payloads whose header the constructor declares valid. -/
def Accepts : Prop :=
  Iface.ofAppId (extractDword undef dMsg 4 0 32) ≠ none ∧
    (extractDword undef dMsg 2 8 24 = CC.CCRorA.code ∨
      extractDword undef dMsg 2 8 24 = CC.S6BAA.code ∨
      extractDword undef dMsg 2 8 24 = CC.S6BTERMINATE.code)

def messageAvps : List Avp :=
  let msgRemaining : Int := extractDword undef dMsg 0 8 24 - 20
  avps undef dMsg msgRemaining.toNat 10 msgRemaining

def DiameterObject.stale (memory : DiameterObject) : Found :=
  ⟨memory.resCode, memory.reqType, false, false⟩

variable {undef dMsg}

theorem beNat_lt (bs : List (BitVec 8)) : beNat bs < 256 ^ bs.length :=
  SignedBytes.bigEndian_lt bs

theorem extractDword_24_lt (undef : Undefined) (dMsg : Buffer) (w : Nat) :
    extractDword undef dMsg w 8 24 < 2 ^ 24 := by
  rw [extractDword_three_bytes]
  simpa using beNat_lt [dMsg (w * 2 + 1), dMsg (w * 2 + 2), dMsg (w * 2 + 3)]

/-- The second `switch` on the header does not reject it either. -/
theorem Accepts.command (h : Accepts undef dMsg) :
    ¬ (extractDword undef dMsg 2 8 24 ≠ CC.CCRorA.code ∧
      extractDword undef dMsg 2 8 24 ≠ CC.S6BAA.code ∧
      extractDword undef dMsg 2 8 24 ≠ CC.S6BTERMINATE.code) := by
  have := h.2
  tauto

theorem valid_construct (memory : DiameterObject) :
    (memory.construct undef dMsg).valid = true ↔ Accepts undef dMsg := by
  unfold DiameterObject.construct Accepts
  by_cases happ : Iface.ofAppId (extractDword undef dMsg 4 0 32) = none
  · simp [happ]
  · simp only [happ, if_false, ne_eq, not_false_eq_true, true_and]
    by_cases hcc : extractDword undef dMsg 2 8 24 ≠ CC.CCRorA.code ∧
        extractDword undef dMsg 2 8 24 ≠ CC.S6BAA.code ∧
        extractDword undef dMsg 2 8 24 ≠ CC.S6BTERMINATE.code
    · rw [if_pos hcc]
      simp only [Bool.false_eq_true, false_iff]
      tauto
    · rw [if_neg hcc]
      simp only [true_iff]
      tauto

theorem construct_of_accepts (memory : DiameterObject) (h : Accepts undef dMsg) :
    let f := scan memory.request (messageAvps undef dMsg) memory.stale
    memory.construct undef dMsg =
      { memory with
        valid := true
        cc := extractDword undef dMsg 2 8 24
        appId := extractDword undef dMsg 4 0 32
        msgLength := extractDword undef dMsg 0 8 24
        commandFlag := extractDword undef dMsg 2 0 8
        hopIdentifier := extractDword undef dMsg 6 0 32
        resCode := f.resCode
        reqType := f.reqType
        request := if extractDword undef dMsg 2 0 8 &&& 0x80 ≠ 0 then 1 else 0 } := by
  have hcc := h.command
  have hlen := extractDword_24_lt undef dMsg 0
  have hflag : extractDword undef dMsg 2 0 8 % 2 ^ 8 = extractDword undef dMsg 2 0 8 := by
    rw [extractDword_byte]
    exact Nat.mod_eq_of_lt (by simpa using beNat_lt [dMsg 4])
  have hrem : int32 (extractDword undef dMsg 0 8 24 - 20) =
      (extractDword undef dMsg 0 8 24 : Int) - 20 := int32_eq_self (by omega) (by omega)
  have hfound : (avpLoop undef dMsg memory.request
      ((extractDword undef dMsg 0 8 24 : Int) - 20).toNat
      { resCode := memory.resCode, reqType := memory.reqType, resCodeAvp := false,
        CCReqAvp := false, msgRemaining := extractDword undef dMsg 0 8 24 - 20,
        avpStartWord := 10 }).found =
      scan memory.request (messageAvps undef dMsg) memory.stale :=
    avpLoop_found (L := extractDword undef dMsg 0 8 24) (by omega) _ (by push_cast; omega)
  have hres := congrArg Found.resCode hfound
  have hreq := congrArg Found.reqType hfound
  dsimp only [AvpState.found] at hres hreq
  simp only [DiameterObject.construct, if_neg h.1, if_neg hcc, hrem, hflag, hres, hreq]

end Walk

end AnalysePcap
