import AnalysePcap.BitField
import Mathlib.Data.List.TakeWhile

/-! The messages that the constructor is meant for, as bytes, and what it reads back
from them. -/

namespace AnalysePcap

def Holds (dMsg : Buffer) (offset : Nat) (bs : List (BitVec 8)) : Prop :=
  bytesAt dMsg offset bs.length = bs

theorem holds_append {dMsg : Buffer} {offset : Nat} {as bs : List (BitVec 8)} :
    Holds dMsg offset (as ++ bs) ↔
      Holds dMsg offset as ∧ Holds dMsg (offset + as.length) bs := by
  unfold Holds
  rw [List.length_append, bytesAt_add]
  constructor
  · intro h
    exact List.append_inj h (length_bytesAt ..)
  · rintro ⟨has, hbs⟩
    rw [has, hbs]

/-- The `k` bytes of a number, the most significant one first. -/
def be : (k n : Nat) → List (BitVec 8)
  | 0, _ => []
  | k + 1, n => be k (n / 256) ++ [BitVec.ofNat 8 n]

@[simp] theorem length_be (k n : Nat) : (be k n).length = k := by
  induction k generalizing n with
  | zero => rfl
  | succ k ih => simp [be, ih]

theorem beNat_be {k n : Nat} (h : n < 256 ^ k) : beNat (be k n) = n := by
  induction k generalizing n with
  | zero =>
    have hn : n = 0 := by simpa using h
    simp [be, beNat, hn]
  | succ k ih =>
    have hdiv : n / 256 < 256 ^ k := Nat.div_lt_of_lt_mul (by rwa [pow_succ'] at h)
    have hlow : (BitVec.ofNat 8 n).toNat = n % 256 := by simp
    rw [be, beNat_concat, ih hdiv, hlow]
    omega

section Fields

variable {undef : Undefined} {dMsg : Buffer} {startWord : Nat}

theorem extractDword_of_holds_four {bs : List (BitVec 8)} (hlen : bs.length = 4)
    (h : Holds dMsg (startWord * 2) bs) : extractDword undef dMsg startWord 0 32 = beNat bs := by
  rw [extractDword_four_bytes, ← h, hlen]
  rfl

theorem extractDword_of_holds_three {bs : List (BitVec 8)} (hlen : bs.length = 3)
    (h : Holds dMsg (startWord * 2 + 1) bs) :
    extractDword undef dMsg startWord 8 24 = beNat bs := by
  rw [extractDword_three_bytes, ← h, hlen]
  rfl

theorem extractDword_of_holds_one {b : BitVec 8} (h : Holds dMsg (startWord * 2) [b]) :
    extractDword undef dMsg startWord 0 8 = b.toNat := by
  have hb : dMsg (startWord * 2) = b := by simpa [Holds, bytesAt] using h
  rw [extractDword_byte, hb]
  simp [beNat]

end Fields

/-- An AVP with its header, its data and whatever bytes it is padded with. Its length has 24
bits. -/
structure WireAvp where
  code : BitVec 32
  flags : BitVec 8
  data : List (BitVec 8)
  padding : List (BitVec 8)
  length_lt : 8 + data.length < 2 ^ 24
  padding_lt : padding.length < 4
  padded : 4 ∣ 8 + data.length + padding.length

namespace WireAvp

def bytes (avp : WireAvp) : List (BitVec 8) :=
  be 4 avp.code.toNat ++ ([avp.flags] ++ (be 3 (8 + avp.data.length) ++ (avp.data ++ avp.padding)))

/-- The loop of the constructor does not stop at the length of the AVP. -/
def Short (avp : WireAvp) : Prop := 8 + avp.data.length ≤ 5014

instance (avp : WireAvp) : Decidable avp.Short := inferInstanceAs (Decidable (_ ≤ _))

/-- What the constructor makes of an AVP. Only the code is compared, and of longer data it
keeps the last 32 bits. -/
def read (avp : WireAvp) : Avp :=
  if avp.code.toNat = 268 then .resultCode (beNat avp.data % 2 ^ 32)
  else if avp.code.toNat = 416 then .requestType (beNat avp.data % 2 ^ 32)
  else .other

theorem length_bytes (avp : WireAvp) : avp.bytes.length = avpSize (8 + avp.data.length) := by
  have hlt := avp.padding_lt
  have hdvd := avp.padded
  simp only [bytes, avpSize, List.length_append, length_be, List.length_singleton]
  split_ifs with h <;> omega

end WireAvp

/-- An AVP at whose length the constructor does not stop. -/
structure EncodedAvp where
  code : BitVec 32
  flags : BitVec 8
  data : List (BitVec 8)
  padding : List (BitVec 8)
  length_le : 8 + data.length ≤ 5014
  padding_lt : padding.length < 4
  padded : 4 ∣ 8 + data.length + padding.length

namespace EncodedAvp

abbrev wire (avp : EncodedAvp) : WireAvp where
  code := avp.code
  flags := avp.flags
  data := avp.data
  padding := avp.padding
  length_lt := avp.length_le.trans_lt (by norm_num)
  padding_lt := avp.padding_lt
  padded := avp.padded

def bytes (avp : EncodedAvp) : List (BitVec 8) :=
  be 4 avp.code.toNat ++ ([avp.flags] ++ (be 3 (8 + avp.data.length) ++ (avp.data ++ avp.padding)))

def kind (avp : EncodedAvp) : Avp :=
  if avp.code.toNat = 268 then .resultCode (beNat avp.data)
  else if avp.code.toNat = 416 then .requestType (beNat avp.data)
  else .other

/-- The AVPs that the constructor reads have four bytes of data. -/
def WellFormed (avp : EncodedAvp) : Prop :=
  avp.code.toNat = 268 ∨ avp.code.toNat = 416 → avp.data.length = 4

theorem flatMap_bytes_wire (as : List EncodedAvp) :
    (as.map wire).flatMap WireAvp.bytes = as.flatMap bytes := by
  rw [List.flatMap_map]
  rfl

theorem WellFormed.read_eq {avp : EncodedAvp} (h : avp.WellFormed) : avp.wire.read = avp.kind := by
  have hvalue (h4 : avp.data.length = 4) : beNat avp.data % 2 ^ 32 = beNat avp.data := by
    have hlt := beNat_lt avp.data
    rw [h4] at hlt
    exact Nat.mod_eq_of_lt (hlt.trans_le (by norm_num))
  unfold WireAvp.read kind
  by_cases hres : avp.code.toNat = 268
  · rw [if_pos hres, if_pos hres, hvalue (h (.inl hres))]
  · by_cases hreq : avp.code.toNat = 416
    · rw [if_neg hres, if_pos hreq, if_neg hres, if_pos hreq, hvalue (h (.inr hreq))]
    · rw [if_neg hres, if_neg hreq, if_neg hres, if_neg hreq]

end EncodedAvp

theorem avpLength_of_holds (undef : Undefined) {dMsg : Buffer} {w : Nat} {avp : WireAvp}
    (h : Holds dMsg (w * 2) avp.bytes) :
    extractDword undef dMsg (w + 2) 8 24 = 8 + avp.data.length := by
  have hlt := avp.length_lt
  have hpos : w * 2 + 4 = (w + 2) * 2 := by omega
  simp only [WireAvp.bytes, holds_append, length_be, List.length_singleton, hpos] at h
  rw [extractDword_of_holds_three (length_be ..) h.2.2.1]
  exact beNat_be (by norm_num; omega)

theorem avpAt_of_holds {undef : Undefined} {dMsg : Buffer} {w : Nat} {avp : WireAvp}
    (h : Holds dMsg (w * 2) avp.bytes) :
    avpAt undef dMsg w (8 + avp.data.length) = avp.read := by
  have hlt := avp.length_lt
  have hpos : w * 2 + 4 = (w + 2) * 2 := by omega
  have hdata : (w + 2) * 2 + 1 + 3 = (w + 4) * 2 := by omega
  simp only [WireAvp.bytes, holds_append, length_be, List.length_singleton, hpos, hdata] at h
  obtain ⟨hcode, -, -, hval, -⟩ := h
  have hcode' : extractDword undef dMsg w 0 32 = avp.code.toNat := by
    rw [extractDword_of_holds_four (length_be ..) hcode]
    exact beNat_be (by simpa using avp.code.isLt)
  have hbits : int32 (((8 + avp.data.length : Nat) - 8) * 8) = ((avp.data.length * 8 : Nat) : Int) := by
    rw [int32_eq_self (by omega) (by omega)]
    omega
  have hvalue : extractDword undef dMsg (w + 4) 0 (int32 (((8 + avp.data.length : Nat) - 8) * 8)) =
      beNat avp.data % 2 ^ 32 := by
    rw [hbits, extractDword_bytes, hval]
  simp only [avpAt, WireAvp.read, hcode', hvalue]

/-- The loop reads the AVPs up to the first one that is too long for it. -/
theorem avps_of_holds {undef : Undefined} {dMsg : Buffer} {as : List WireAvp} {w fuel : Nat}
    (h : Holds dMsg (w * 2) (as.flatMap WireAvp.bytes))
    (hfuel : (as.flatMap WireAvp.bytes).length ≤ fuel) :
    avps undef dMsg fuel w ((as.flatMap WireAvp.bytes).length : Nat) =
      (as.takeWhile fun avp => avp.Short).map WireAvp.read := by
  induction as generalizing w fuel with
  | nil => cases fuel <;> simp [avps]
  | cons avp as ih =>
    rw [List.flatMap_cons] at h hfuel ⊢
    obtain ⟨hfirst, hrest⟩ := holds_append.mp h
    have hlen := avpLength_of_holds undef hfirst
    have hsize := avp.length_bytes
    have hpos := le_avpSize (8 + avp.data.length)
    have heven := four_dvd_avpSize (8 + avp.data.length)
    rw [List.length_append] at hfuel ⊢
    obtain ⟨fuel, rfl⟩ : ∃ m, fuel = m + 1 := ⟨fuel - 1, by omega⟩
    rw [List.takeWhile_cons]
    by_cases hshort : avp.Short
    · have hnext : (w + avpSize (8 + avp.data.length) / 2) * 2 = w * 2 + avp.bytes.length := by
        omega
      have hremaining : ((avp.bytes.length + (as.flatMap WireAvp.bytes).length : Nat) : Int) -
          avpSize (8 + avp.data.length) = (as.flatMap WireAvp.bytes).length := by
        push_cast
        omega
      have hgo : 0 < ((avp.bytes.length + (as.flatMap WireAvp.bytes).length : Nat) : Int) ∧
          0 < 8 + avp.data.length ∧ 8 + avp.data.length ≤ 5014 :=
        ⟨by omega, by omega, hshort⟩
      have htail : avps undef dMsg fuel (w + avpSize (8 + avp.data.length) / 2)
          ((as.flatMap WireAvp.bytes).length : Nat) =
            (as.takeWhile fun avp => avp.Short).map WireAvp.read :=
        ih (hnext ▸ hrest) (by omega)
      rw [if_pos (by simpa using hshort), List.map_cons]
      simp only [avps, hlen, if_pos hgo, avpAt_of_holds hfirst, hremaining, htail]
    · have hstop : ¬ (0 < ((avp.bytes.length + (as.flatMap WireAvp.bytes).length : Nat) : Int) ∧
          0 < 8 + avp.data.length ∧ 8 + avp.data.length ≤ 5014) := fun hc => hshort hc.2.2
      rw [if_neg (by simpa using hshort)]
      simp only [avps, hlen, if_neg hstop, List.map_nil]

structure WireMessage where
  version : BitVec 8
  flags : BitVec 8
  cc : CC
  app : Iface
  hopByHop : BitVec 32
  endToEnd : BitVec 32
  avps : List WireAvp
  fits : 20 + (avps.flatMap WireAvp.bytes).length < 2 ^ 24

namespace WireMessage

def length (m : WireMessage) : Nat := 20 + (m.avps.flatMap WireAvp.bytes).length

def bytes (m : WireMessage) : List (BitVec 8) :=
  [m.version] ++ (be 3 m.length ++ ([m.flags] ++ (be 3 m.cc.code ++ (be 4 m.app.appId ++
    (be 4 m.hopByHop.toNat ++ (be 4 m.endToEnd.toNat ++ m.avps.flatMap WireAvp.bytes))))))

structure Header (undef : Undefined) (dMsg : Buffer) (m : WireMessage) : Prop where
  msgLength : extractDword undef dMsg 0 8 24 = m.length
  commandFlag : extractDword undef dMsg 2 0 8 = m.flags.toNat
  cc : extractDword undef dMsg 2 8 24 = m.cc.code
  appId : extractDword undef dMsg 4 0 32 = m.app.appId
  hopIdentifier : extractDword undef dMsg 6 0 32 = m.hopByHop.toNat
  avps : Holds dMsg 20 (m.avps.flatMap WireAvp.bytes)

theorem header_of_holds {m : WireMessage} {dMsg : Buffer} (h : Holds dMsg 0 m.bytes)
    (undef : Undefined) : Header undef dMsg m := by
  simp only [bytes, holds_append, length_be, List.length_singleton, Nat.zero_add,
    Nat.reduceAdd] at h
  obtain ⟨-, hlen, hflags, hcc, happ, hhop, -, havps⟩ := h
  have hcode : m.cc.code < 256 ^ 3 := by cases m.cc <;> decide
  have hid : m.app.appId < 256 ^ 4 := by cases m.app <;> decide
  have hfits : m.length < 256 ^ 3 := m.fits.trans_le (by norm_num)
  have hhopId : m.hopByHop.toNat < 256 ^ 4 := by simpa using m.hopByHop.isLt
  constructor
  · rw [extractDword_of_holds_three (length_be ..) hlen, beNat_be hfits]
  · exact extractDword_of_holds_one hflags
  · rw [extractDword_of_holds_three (length_be ..) hcc, beNat_be hcode]
  · rw [extractDword_of_holds_four (length_be ..) happ, beNat_be hid]
  · rw [extractDword_of_holds_four (length_be ..) hhop, beNat_be hhopId]
  · exact havps

variable {undef : Undefined} {dMsg : Buffer} {m : WireMessage}

theorem Header.accepts (h : Header undef dMsg m) : Accepts undef dMsg := by
  constructor
  · rw [h.appId]
    cases m.app <;> decide
  · rw [h.cc]
    cases m.cc <;> simp

/-- The AVPs up to the first one that is too long for the loop. -/
def reached (m : WireMessage) : List WireAvp := m.avps.takeWhile fun avp => avp.Short

theorem Header.messageAvps_read (h : Header undef dMsg m) :
    messageAvps undef dMsg = m.reached.map WireAvp.read := by
  have hrem : (m.length : Int) - 20 = ((m.avps.flatMap WireAvp.bytes).length : Nat) := by
    rw [length]
    push_cast
    omega
  have hstart : Holds dMsg (10 * 2) (m.avps.flatMap WireAvp.bytes) := h.avps
  simp only [messageAvps, h.msgLength, hrem]
  exact avps_of_holds hstart (le_of_eq (Int.toNat_natCast _).symm)

end WireMessage

structure Message where
  version : BitVec 8
  flags : BitVec 8
  cc : CC
  app : Iface
  hopByHop : BitVec 32
  endToEnd : BitVec 32
  avps : List EncodedAvp
  fits : 20 + (avps.flatMap EncodedAvp.bytes).length < 2 ^ 24

namespace Message

def length (m : Message) : Nat := 20 + (m.avps.flatMap EncodedAvp.bytes).length

def bytes (m : Message) : List (BitVec 8) :=
  [m.version] ++ (be 3 m.length ++ ([m.flags] ++ (be 3 m.cc.code ++ (be 4 m.app.appId ++
    (be 4 m.hopByHop.toNat ++ (be 4 m.endToEnd.toNat ++ m.avps.flatMap EncodedAvp.bytes))))))

structure WellFormed (m : Message) : Prop where
  avps : ∀ avp ∈ m.avps, avp.WellFormed
  resultCode_once : m.avps.countP (fun avp => avp.code.toNat = 268) ≤ 1
  requestType_once : m.avps.countP (fun avp => avp.code.toNat = 416) ≤ 1

/-- No Result-Code comes after the CC-Request-Type. -/
def Ordered (m : Message) : Prop :=
  m.avps.Pairwise fun x y => ¬ (x.code.toNat = 416 ∧ y.code.toNat = 268)

abbrev wire (m : Message) : WireMessage where
  version := m.version
  flags := m.flags
  cc := m.cc
  app := m.app
  hopByHop := m.hopByHop
  endToEnd := m.endToEnd
  avps := m.avps.map EncodedAvp.wire
  fits := by
    rw [EncodedAvp.flatMap_bytes_wire]
    exact m.fits

theorem length_wire (m : Message) : m.wire.length = m.length := by
  rw [WireMessage.length, EncodedAvp.flatMap_bytes_wire, length]

theorem bytes_wire (m : Message) : m.wire.bytes = m.bytes := by
  rw [WireMessage.bytes, length_wire, EncodedAvp.flatMap_bytes_wire, bytes]

theorem reached_wire (m : Message) : m.wire.reached = m.avps.map EncodedAvp.wire := by
  unfold WireMessage.reached
  rw [List.takeWhile_eq_self_iff, List.forall_mem_map]
  exact fun avp _ => decide_eq_true avp.length_le

theorem header_of_holds {m : Message} {dMsg : Buffer} (h : Holds dMsg 0 m.bytes)
    (undef : Undefined) : WireMessage.Header undef dMsg m.wire :=
  WireMessage.header_of_holds (m.bytes_wire.symm ▸ h) undef

theorem messageAvps {undef : Undefined} {dMsg : Buffer} {m : Message}
    (h : WireMessage.Header undef dMsg m.wire) (hwf : ∀ avp ∈ m.avps, avp.WellFormed) :
    AnalysePcap.messageAvps undef dMsg = m.avps.map EncodedAvp.kind := by
  rw [h.messageAvps_read, reached_wire, List.map_map]
  exact List.map_congr_left fun avp havp => (hwf avp havp).read_eq

end Message

section Scan

variable {request : Int} {avps pre post : List Avp} {f : Found} {value : Nat}

def Avp.IsResultCode (avp : Avp) : Prop := ∃ value, avp = .resultCode value

def Avp.IsRequestType (avp : Avp) : Prop := ∃ value, avp = .requestType value

theorem Found.record_of_not_resultCode (f : Found) {avp : Avp} (h : ¬ avp.IsResultCode) :
    (f.record avp).resCode = f.resCode ∧ (f.record avp).resCodeAvp = f.resCodeAvp := by
  cases avp with
  | resultCode value => exact absurd ⟨value, rfl⟩ h
  | requestType value => simp
  | other => simp

theorem Found.record_of_not_requestType (f : Found) {avp : Avp} (h : ¬ avp.IsRequestType) :
    (f.record avp).reqType = f.reqType ∧ (f.record avp).CCReqAvp = f.CCReqAvp := by
  cases avp with
  | resultCode value => simp
  | requestType value => exact absurd ⟨value, rfl⟩ h
  | other => simp

theorem Found.not_stops_of_CCReqAvp (h : f.CCReqAvp = false) : ¬ f.Stops request := by
  simp [Found.Stops, h]

theorem scan_resCode_of_none (h : ∀ avp ∈ avps, ¬ avp.IsResultCode) :
    (scan request avps f).resCode = f.resCode := by
  induction avps generalizing f with
  | nil => rfl
  | cons avp avps ih =>
    have hrecord := (f.record_of_not_resultCode (h avp (by simp))).1
    rw [scan]
    split_ifs with hstop
    · exact hrecord
    · rw [ih fun a ha => h a (by simp [ha]), hrecord]

theorem scan_reqType_of_none (h : ∀ avp ∈ avps, ¬ avp.IsRequestType) :
    (scan request avps f).reqType = f.reqType := by
  induction avps generalizing f with
  | nil => rfl
  | cons avp avps ih =>
    have hrecord := (f.record_of_not_requestType (h avp (by simp))).1
    rw [scan]
    split_ifs with hstop
    · exact hrecord
    · rw [ih fun a ha => h a (by simp [ha]), hrecord]

/-- The only Result-Code is found, unless a loop that believes it reads a request has
stopped at a CC-Request-Type before it. -/
theorem scan_resCode (hpre : ∀ avp ∈ pre, ¬ avp.IsResultCode)
    (hpost : ∀ avp ∈ post, ¬ avp.IsResultCode) (hres : f.resCodeAvp = false)
    (hreq : request ≠ 1 ∨ f.CCReqAvp = false ∧ ∀ avp ∈ pre, ¬ avp.IsRequestType) :
    (scan request (pre ++ .resultCode value :: post) f).resCode = int32 value := by
  induction pre generalizing f with
  | nil =>
    rw [List.nil_append, scan]
    split_ifs with hstop
    · simp
    · rw [scan_resCode_of_none hpost]
      simp
  | cons avp pre ih =>
    have hres' : (f.record avp).resCodeAvp = false :=
      (f.record_of_not_resultCode (hpre avp (by simp))).2.trans hres
    have hreq' : request ≠ 1 ∨
        (f.record avp).CCReqAvp = false ∧ ∀ a ∈ pre, ¬ a.IsRequestType := by
      refine hreq.imp id fun h => ⟨?_, fun a ha => h.2 a (by simp [ha])⟩
      exact (f.record_of_not_requestType (h.2 avp (by simp))).2.trans h.1
    have hgo : ¬ (f.record avp).Stops request := by
      rintro (⟨h1, hc⟩ | ⟨-, -, hr⟩)
      · rcases hreq' with h | h
        · exact h h1
        · rw [h.1] at hc
          cases hc
      · rw [hres'] at hr
        cases hr
    rw [List.cons_append, scan, if_neg hgo]
    exact ih (fun a ha => hpre a (by simp [ha])) hres' hreq'

theorem scan_reqType (hpre : ∀ avp ∈ pre, ¬ avp.IsRequestType)
    (hpost : ∀ avp ∈ post, ¬ avp.IsRequestType) (hreq : f.CCReqAvp = false) :
    (scan request (pre ++ .requestType value :: post) f).reqType =
      if 4 < value then 0 else value := by
  induction pre generalizing f with
  | nil =>
    rw [List.nil_append, scan]
    by_cases hstop : (f.record (.requestType value)).Stops request
    · rw [if_pos hstop]
      simp
    · rw [if_neg hstop, scan_reqType_of_none hpost]
      simp
  | cons avp pre ih =>
    have hreq' : (f.record avp).CCReqAvp = false :=
      (f.record_of_not_requestType (hpre avp (by simp))).2.trans hreq
    rw [List.cons_append, scan, if_neg (Found.not_stops_of_CCReqAvp hreq')]
    exact ih (fun a ha => hpre a (by simp [ha])) hreq'

end Scan

theorem EncodedAvp.kind_isResultCode {avp : EncodedAvp} :
    avp.kind.IsResultCode ↔ avp.code.toNat = 268 := by
  unfold EncodedAvp.kind Avp.IsResultCode
  split_ifs with hres hreq
  · exact iff_of_true ⟨_, rfl⟩ hres
  · exact iff_of_false (by simp) hres
  · exact iff_of_false (by simp) hres

theorem EncodedAvp.kind_isRequestType {avp : EncodedAvp} :
    avp.kind.IsRequestType ↔ avp.code.toNat = 416 := by
  unfold EncodedAvp.kind Avp.IsRequestType
  split_ifs with hres hreq
  · exact iff_of_false (by simp) (by omega)
  · exact iff_of_true ⟨_, rfl⟩ hreq
  · exact iff_of_false (by simp) hreq

theorem exists_split_of_countP {α : Type*} {p : α → Bool} {l : List α} {a : α}
    (hcount : l.countP p ≤ 1) (ha : a ∈ l) (hp : p a = true) :
    ∃ pre post, l = pre ++ a :: post ∧ (∀ b ∈ pre, ¬ p b = true) ∧ ∀ b ∈ post, ¬ p b = true := by
  obtain ⟨pre, post, rfl⟩ := List.append_of_mem ha
  rw [List.countP_append, List.countP_cons_of_pos hp] at hcount
  have hpre : pre.countP p = 0 := by omega
  have hpost : post.countP p = 0 := by omega
  exact ⟨pre, post, rfl, List.countP_eq_zero.mp hpre, List.countP_eq_zero.mp hpost⟩

namespace Message

variable {m : Message} {request : Int} {f : Found}

theorem WellFormed.scan_resCode (hwf : m.WellFormed) (hstale : request ≠ 1 ∨ m.Ordered)
    (hres : f.resCodeAvp = false) (hreq : f.CCReqAvp = false) {avp : EncodedAvp}
    (havp : avp ∈ m.avps) (hcode : avp.code.toNat = 268) :
    (scan request (m.avps.map EncodedAvp.kind) f).resCode = int32 (beNat avp.data) := by
  obtain ⟨pre, post, hsplit, hpre, hpost⟩ :=
    exists_split_of_countP hwf.resultCode_once havp (by simpa using hcode)
  have hkind : avp.kind = .resultCode (beNat avp.data) := if_pos hcode
  have hbefore : request ≠ 1 ∨
      f.CCReqAvp = false ∧ ∀ a ∈ pre.map EncodedAvp.kind, ¬ a.IsRequestType := by
    refine hstale.imp id fun hord => ⟨hreq, ?_⟩
    rw [Ordered, hsplit] at hord
    have hord' := (List.pairwise_append.mp hord).2.2
    simp only [List.forall_mem_map, EncodedAvp.kind_isRequestType]
    intro a ha hreqType
    exact hord' a ha avp (by simp) ⟨hreqType, hcode⟩
  rw [hsplit, List.map_append, List.map_cons, hkind]
  refine AnalysePcap.scan_resCode ?_ ?_ hres hbefore
  · simpa only [List.forall_mem_map, EncodedAvp.kind_isResultCode, decide_eq_true_eq] using hpre
  · simpa only [List.forall_mem_map, EncodedAvp.kind_isResultCode, decide_eq_true_eq] using hpost

theorem WellFormed.scan_reqType (hwf : m.WellFormed) (hreq : f.CCReqAvp = false)
    {avp : EncodedAvp} (havp : avp ∈ m.avps) (hcode : avp.code.toNat = 416) :
    (scan request (m.avps.map EncodedAvp.kind) f).reqType =
      if 4 < beNat avp.data then 0 else beNat avp.data := by
  obtain ⟨pre, post, hsplit, hpre, hpost⟩ :=
    exists_split_of_countP hwf.requestType_once havp (by simpa using hcode)
  have hkind : avp.kind = .requestType (beNat avp.data) := by
    rw [EncodedAvp.kind, if_neg (by omega), if_pos hcode]
  rw [hsplit, List.map_append, List.map_cons, hkind]
  refine AnalysePcap.scan_reqType ?_ ?_ hreq
  · simpa only [List.forall_mem_map, EncodedAvp.kind_isRequestType, decide_eq_true_eq] using hpre
  · simpa only [List.forall_mem_map, EncodedAvp.kind_isRequestType, decide_eq_true_eq] using hpost

end Message

/-- The constructor reads back every field of a well formed message, whatever the
memory held, except that a stale `request` of 1 needs the Result-Code to come first. -/
theorem construct_of_message {m : Message} (hwf : m.WellFormed) {dMsg : Buffer}
    (hmsg : Holds dMsg 0 m.bytes) (undef : Undefined) {memory : DiameterObject}
    (hstale : memory.request ≠ 1 ∨ m.Ordered) :
    let d := memory.construct undef dMsg
    d.valid = true ∧ d.cc = m.cc.code ∧ d.appId = m.app.appId ∧ d.msgLength = m.length ∧
      d.hopIdentifier = m.hopByHop.toNat ∧
      d.request = (if m.flags.toNat &&& 0x80 ≠ 0 then 1 else 0) ∧
      (∀ avp ∈ m.avps, avp.code.toNat = 268 → d.resCode = int32 (beNat avp.data)) ∧
      ∀ avp ∈ m.avps, avp.code.toNat = 416 →
        d.reqType = if 4 < beNat avp.data then 0 else beNat avp.data := by
  intro d
  have hhead := Message.header_of_holds hmsg undef
  have hd : d = _ := construct_of_accepts memory hhead.accepts
  have hresCode : d.resCode =
      (scan memory.request (m.avps.map EncodedAvp.kind) memory.stale).resCode := by
    rw [hd, Message.messageAvps hhead hwf.avps]
  have hreqType : d.reqType =
      (scan memory.request (m.avps.map EncodedAvp.kind) memory.stale).reqType := by
    rw [hd, Message.messageAvps hhead hwf.avps]
  refine ⟨?_, ?_, ?_, ?_, ?_, ?_, ?_, ?_⟩
  · rw [hd]
  · rw [hd, hhead.cc]
  · rw [hd, hhead.appId]
  · rw [hd, hhead.msgLength, m.length_wire]
  · rw [hd, hhead.hopIdentifier]
  · rw [hd, hhead.commandFlag]
  · intro avp havp hcode
    rw [hresCode]
    exact hwf.scan_resCode hstale rfl rfl havp hcode
  · intro avp havp hcode
    rw [hreqType]
    exact hwf.scan_reqType rfl havp hcode

def Message.buffer (m : Message) : Buffer := fun i => m.bytes.getD i 0

def WireMessage.buffer (m : WireMessage) : Buffer := fun i => m.bytes.getD i 0

theorem bytesAt_getD (bs : List (BitVec 8)) (n : Nat) :
    bytesAt (fun i => bs.getD i 0) n (bs.length - n) = bs.drop n := by
  induction h : bs.length - n generalizing n with
  | zero => rw [bytesAt, List.drop_eq_nil_of_le (by omega)]
  | succ k ih =>
    have hn : n < bs.length := by omega
    rw [bytesAt, ih (n + 1) (by omega), List.drop_eq_getElem_cons hn]
    simp [hn]

theorem holds_getD (bs : List (BitVec 8)) : Holds (fun i => bs.getD i 0) 0 bs := by
  have h := bytesAt_getD bs 0
  rwa [Nat.sub_zero, List.drop_zero] at h

theorem Message.holds_buffer (m : Message) : Holds m.buffer 0 m.bytes := holds_getD m.bytes

theorem WireMessage.holds_buffer (m : WireMessage) : Holds m.buffer 0 m.bytes := holds_getD m.bytes

def originHostAvp : EncodedAvp where
  code := 264
  flags := 0x40
  data := [0x70, 0x67, 0x77]
  padding := [0]
  length_le := by decide
  padding_lt := by decide
  padded := by decide

theorem padding_nil_lt : ([] : List (BitVec 8)).length < 4 := by decide

def resultCodeAvp : EncodedAvp where
  code := 268
  flags := 0x40
  data := be 4 2001
  padding := []
  length_le := by decide
  padding_lt := padding_nil_lt
  padded := by decide

def requestTypeAvp : EncodedAvp where
  code := 416
  flags := 0x40
  data := be 4 1
  padding := []
  length_le := by decide
  padding_lt := padding_nil_lt
  padded := by decide

theorem gxAnswer_fits :
    20 + ([resultCodeAvp, requestTypeAvp].flatMap EncodedAvp.bytes).length < 2 ^ 24 := by
  decide

def gxAnswerMessage (avps : List EncodedAvp)
    (fits : 20 + (avps.flatMap EncodedAvp.bytes).length < 2 ^ 24) : Message where
  version := 1
  flags := 0x40
  cc := .CCRorA
  app := .GX
  hopByHop := 7
  endToEnd := 9
  avps := avps
  fits := fits

def staleRequest : DiameterObject where
  request := 1
  cc := 0
  appId := 0
  hopIdentifier := 0
  resCode := 0
  reqType := 0
  timeStamp := 0
  valid := false
  msgLength := 0
  commandFlag := 0

theorem construct_of_message_answer :
    let m := gxAnswerMessage [originHostAvp, resultCodeAvp, requestTypeAvp] (by decide)
    m.WellFormed ∧ Holds m.buffer 0 m.bytes ∧ m.Ordered ∧
      (staleRequest.construct (fun _ _ => 0) m.buffer).resCode = int32 2001 ∧
      (staleRequest.construct (fun _ _ => 0) m.buffer).reqType = 1 := by
  intro m
  have hwf : m.WellFormed :=
    ⟨by simp [m, gxAnswerMessage, originHostAvp, resultCodeAvp, requestTypeAvp,
      EncodedAvp.WellFormed], by decide, by decide⟩
  have hmsg : Holds m.buffer 0 m.bytes := m.holds_buffer
  have hord : m.Ordered := by
    simp [Message.Ordered, m, gxAnswerMessage, originHostAvp, resultCodeAvp, requestTypeAvp]
  have hstale : staleRequest.request ≠ 1 ∨ m.Ordered := .inr hord
  have hcode : beNat resultCodeAvp.data = 2001 := by decide
  obtain ⟨-, -, -, -, -, -, hres, hreq⟩ := construct_of_message hwf hmsg (fun _ _ => 0) hstale
  refine ⟨hwf, hmsg, hord, ?_, ?_⟩
  · rw [hres resultCodeAvp (by simp [m, gxAnswerMessage]) (by decide), hcode]
    rfl
  · exact hreq requestTypeAvp (by simp [m, gxAnswerMessage]) (by decide)

end AnalysePcap
