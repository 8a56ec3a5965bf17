import AnalysePcap.StaleMemory
import AnalysePcap.TwoSlots

/-! One more AVP in a message. On memory that holds zeros the loop of the constructor is a
reader with two slots, and the vendor flag of an AVP plays no part in it. -/

namespace AnalysePcap

open TwoSlots

/-- The two fields that AVPs set. -/
inductive AvpField where
  | resCode
  | reqType
  deriving DecidableEq, Repr

namespace AvpField

def code : AvpField → Nat
  | .resCode => 268
  | .reqType => 416

def other : AvpField → AvpField
  | .resCode => .reqType
  | .reqType => .resCode

def get : AvpField → Found → Int
  | .resCode, f => f.resCode
  | .reqType, f => f.reqType

/-- The value that counts: a Result-Code has 32 bits, and types above 4 are taken for 0. -/
def meaning : AvpField → Nat → Nat
  | .resCode, value => value % 2 ^ 32
  | .reqType, value => reqTypeOf value

def stored : AvpField → Nat → Int
  | .resCode, value => int32 value
  | .reqType, value => reqTypeOf value

theorem stored_zero (c : AvpField) : c.stored 0 = 0 := by
  cases c with
  | resCode => exact int32_eq_self (by norm_num) (by norm_num)
  | reqType => rfl

theorem int32_eq_iff (a b : Nat) : int32 a = int32 b ↔ a % 2 ^ 32 = b % 2 ^ 32 := by
  unfold int32
  constructor
  · intro h
    have hmod := congrArg (· % ((2 ^ 32 : Nat) : Int)) h
    simp only [Int.bmod_emod] at hmod
    omega
  · intro h
    rw [← Int.emod_bmod, ← Int.emod_bmod (x := (b : Int))]
    congr 1
    omega

theorem stored_eq_iff (c : AvpField) (v v' : Nat) :
    c.stored v = c.stored v' ↔ c.meaning v = c.meaning v' := by
  cases c with
  | resCode => exact int32_eq_iff v v'
  | reqType => exact Nat.cast_inj

theorem code_other_ne (c : AvpField) : c.other.code ≠ c.code := by
  cases c <;> decide

end AvpField

namespace WireAvp

def item (c : AvpField) (avp : WireAvp) : Item Nat Nat :=
  if avp.code.toNat = c.code then .left (beNat avp.data % 2 ^ 32)
  else if avp.code.toNat = c.other.code then .right (beNat avp.data % 2 ^ 32)
  else .skip

variable {c : AvpField} {avp : WireAvp}

theorem item_of_code (h : avp.code.toNat = c.code) :
    avp.item c = .left (beNat avp.data % 2 ^ 32) := if_pos h

theorem item_of_other (h : avp.code.toNat = c.other.code) :
    avp.item c = .right (beNat avp.data % 2 ^ 32) := by
  have hne : avp.code.toNat ≠ c.code := h ▸ c.code_other_ne
  rw [item, if_neg hne, if_pos h]

theorem item_of_ne (h : ∀ c : AvpField, avp.code.toNat ≠ c.code) : avp.item c = .skip := by
  rw [item, if_neg (h c), if_neg (h c.other)]

theorem item_swap : (avp.item c).swap = avp.item c.other := by
  have hother : c.other.other = c := by cases c <;> rfl
  by_cases hcode : avp.code.toNat = c.code
  · rw [item_of_code hcode, item_of_other (hother.symm ▸ hcode)]
    rfl
  · by_cases hoc : avp.code.toNat = c.other.code
    · rw [item_of_other hoc, item_of_code hoc]
      rfl
    · rw [item, if_neg hcode, if_neg hoc, item, if_neg hoc, hother, if_neg hcode]
      rfl

theorem hasLeft_map {as : List WireAvp} :
    HasLeft (as.map (item c)) ↔ ∃ avp ∈ as, avp.code.toNat = c.code := by
  constructor
  · rintro ⟨v, hv⟩
    obtain ⟨avp, havp, hitem⟩ := List.mem_map.mp hv
    refine ⟨avp, havp, ?_⟩
    by_contra hne
    rw [item, if_neg hne] at hitem
    split_ifs at hitem
  · rintro ⟨avp, havp, hcode⟩
    exact ⟨_, List.mem_map.mpr ⟨avp, havp, item_of_code hcode⟩⟩

theorem hasRight_map {as : List WireAvp} :
    HasRight (as.map (item c)) ↔ ∃ avp ∈ as, avp.code.toNat = c.other.code := by
  constructor
  · rintro ⟨v, hv⟩
    obtain ⟨avp, havp, hitem⟩ := List.mem_map.mp hv
    refine ⟨avp, havp, ?_⟩
    by_contra hne
    rw [item] at hitem
    split_ifs at hitem
  · rintro ⟨avp, havp, hcode⟩
    exact ⟨_, List.mem_map.mpr ⟨avp, havp, item_of_other hcode⟩⟩

/-- The values of the AVPs for a field. -/
def valuesOf (c : AvpField) (as : List WireAvp) : List Nat :=
  (as.filter fun avp => avp.code.toNat = c.code).map fun avp => beNat avp.data % 2 ^ 32

theorem right?_item (avp : WireAvp) : (avp.item c).right? =
    if avp.code.toNat = c.other.code then some (beNat avp.data % 2 ^ 32) else none := by
  by_cases hother : avp.code.toNat = c.other.code
  · rw [item_of_other hother, if_pos hother]
    rfl
  · rw [item, if_neg hother]
    split_ifs <;> rfl

theorem rights_map (as : List WireAvp) : rights (as.map (item c)) = valuesOf c.other as := by
  induction as with
  | nil => rfl
  | cons avp as ih =>
    rw [rights] at ih ⊢
    rw [List.map_cons, List.filterMap_cons, right?_item, ih, valuesOf, valuesOf, List.filter_cons]
    by_cases hother : avp.code.toNat = c.other.code
    · simp [hother]
    · simp [hother]

end WireAvp

/-- The slots after a message, and the fields that they stand for. -/
def slots (c : AvpField) (as : List WireAvp) : Slots Nat Nat :=
  TwoSlots.read (as.map (WireAvp.item c)) .empty

def foundOf (s : Slots Nat Nat) : Found where
  resCode := s.left.elim 0 fun value => int32 value
  reqType := s.right.elim 0 reqTypeOf
  resCodeAvp := s.left.isSome
  CCReqAvp := s.right.isSome

theorem slots_other (c : AvpField) (as : List WireAvp) : slots c.other as = (slots c as).swap := by
  rw [slots, slots, ← read_swap, List.map_map]
  congr 1
  exact List.map_congr_left fun avp _ => WireAvp.item_swap.symm

theorem record_left (s : Slots Nat Nat) (value : Nat) :
    (foundOf s).record (.resultCode value) = foundOf (s.put (.left value)) := by
  -- the kernel must not compute with `int32` here
  have hvalue : (some value).elim (0 : Int) (fun value => int32 value) = int32 value :=
    Option.elim_some _ _ _
  rw [Found.record_resultCode, ← hvalue]
  rfl

theorem record_right (s : Slots Nat Nat) (value : Nat) :
    (foundOf s).record (.requestType value) = foundOf (s.put (.right value)) := by
  simp only [Found.record_requestType, foundOf, Slots.put, Option.elim_some, Option.isSome_some,
    reqTypeOf]

theorem record_foundOf (s : Slots Nat Nat) (avp : WireAvp) :
    (foundOf s).record avp.read = foundOf (s.put (avp.item .resCode)) := by
  by_cases hres : avp.code.toNat = 268
  · rw [WireAvp.read, if_pos hres, WireAvp.item_of_code (c := .resCode) hres]
    exact record_left s _
  · by_cases hreq : avp.code.toNat = 416
    · rw [WireAvp.read, if_neg hres, if_pos hreq, WireAvp.item_of_other (c := .resCode) hreq]
      exact record_right s _
    · have hne : ∀ c : AvpField, avp.code.toNat ≠ c.code := by
        intro c
        cases c with
        | resCode => exact hres
        | reqType => exact hreq
      rw [WireAvp.read, if_neg hres, if_neg hreq, WireAvp.item_of_ne hne]
      rfl

theorem stops_foundOf (s : Slots Nat Nat) : (foundOf s).Stops 0 ↔ s.Full := by
  simp [Found.Stops, foundOf, Slots.Full, and_comm]

theorem scan_foundOf (as : List WireAvp) (s : Slots Nat Nat) :
    scan 0 (as.map WireAvp.read) (foundOf s) =
      foundOf (TwoSlots.read (as.map (WireAvp.item .resCode)) s) := by
  induction as generalizing s with
  | nil => rfl
  | cons avp as ih =>
    rw [List.map_cons, List.map_cons, scan, TwoSlots.read, record_foundOf]
    by_cases hfull : (s.put (avp.item .resCode)).Full
    · rw [if_pos hfull, if_pos ((stops_foundOf _).mpr hfull)]
    · rw [if_neg hfull, if_neg ((stops_foundOf _).not.mpr hfull)]
      exact ih _

theorem get_scan (c : AvpField) (as : List WireAvp) :
    c.get (scan 0 (as.map WireAvp.read) (foundOf .empty)) =
      (slots c as).left.elim 0 c.stored := by
  rw [scan_foundOf]
  cases c with
  | resCode => rfl
  | reqType =>
    have hswap : slots .reqType as = (slots .resCode as).swap := slots_other .resCode as
    have hleft : (slots .reqType as).left = (slots .resCode as).right := by rw [hswap]; rfl
    rw [hleft]
    show ((((slots .resCode as).right.elim 0 reqTypeOf : Nat)) : Int) = _
    cases (slots .resCode as).right <;> rfl

/-- An object on memory that holds zeros. -/
def DiameterObject.zeroed : DiameterObject := ⟨⟨0, 0, 0, 0, 0, 0, 0, false⟩, 0, 0⟩

namespace WireMessage

def parsed (m : WireMessage) : Found := scan 0 (m.reached.map WireAvp.read) (foundOf .empty)

/-- What the loop has for a field in the end, zero if it comes to no AVP for it. -/
def valueOf (m : WireMessage) (c : AvpField) : Nat := (slots c m.reached).left.getD 0

theorem get_parsed (m : WireMessage) (c : AvpField) : c.get m.parsed = c.stored (m.valueOf c) := by
  rw [parsed, get_scan, valueOf]
  cases (slots c m.reached).left with
  | none => exact c.stored_zero.symm
  | some value => rfl

end WireMessage

theorem construct_zeroed {m : WireMessage} {dMsg : Buffer} (h : Holds dMsg 0 m.bytes)
    (undef : Undefined) :
    let d := DiameterObject.zeroed.construct undef dMsg
    d.resCode = m.parsed.resCode ∧ d.reqType = m.parsed.reqType ∧
      d.request = (if m.flags.toNat &&& 0x80 ≠ 0 then 1 else 0) ∧
      d.hopIdentifier = m.hopByHop.toNat := by
  intro d
  have hhead := WireMessage.header_of_holds h undef
  have hd : d = _ := construct_of_accepts .zeroed hhead.accepts
  have hscan : scan DiameterObject.zeroed.request (messageAvps undef dMsg)
      DiameterObject.zeroed.stale = m.parsed := by
    rw [hhead.messageAvps_read]
    rfl
  refine ⟨?_, ?_, ?_, ?_⟩
  · rw [hd, hscan]
  · rw [hd, hscan]
  · rw [hd, hhead.commandFlag]
  · rw [hd, hhead.hopIdentifier]

/-- A message, and a place in it where one more AVP is inserted. The AVPs of the message have any
code, flags and length. -/
structure Insertion where
  base : WireMessage
  pre : List WireAvp
  post : List WireAvp
  split : base.avps = pre ++ post
  avp : EncodedAvp
  fits : 20 + ((pre ++ avp.wire :: post).flatMap WireAvp.bytes).length < 2 ^ 24

namespace Insertion

def message (i : Insertion) : WireMessage :=
  { i.base with avps := i.pre ++ i.avp.wire :: i.post, fits := i.fits }

/-- The fields do not tell the two messages apart. -/
def Unchanged (i : Insertion) : Prop :=
  ∀ (undef : Undefined) (dMsg dMsg' : Buffer),
    Holds dMsg 0 i.base.bytes → Holds dMsg' 0 i.message.bytes →
    let d := DiameterObject.zeroed.construct undef dMsg
    let d' := DiameterObject.zeroed.construct undef dMsg'
    d'.resCode = d.resCode ∧ d'.reqType = d.reqType ∧ d'.request = d.request ∧
      d'.hopIdentifier = d.hopIdentifier

theorem unchanged_iff_get (i : Insertion) :
    i.Unchanged ↔ ∀ c : AvpField, c.get i.message.parsed = c.get i.base.parsed := by
  constructor
  · intro h c
    have hsame := h (fun _ _ => 0) _ _ i.base.holds_buffer i.message.holds_buffer
    have hd := construct_zeroed i.base.holds_buffer fun _ _ => 0
    have hd' := construct_zeroed i.message.holds_buffer fun _ _ => 0
    dsimp only at hsame hd hd'
    cases c with
    | resCode => exact hd'.1.symm.trans (hsame.1.trans hd.1)
    | reqType =>
      have hreq := hd'.2.1.symm.trans (hsame.2.1.trans hd.2.1)
      exact congrArg Nat.cast hreq
  · intro h undef dMsg dMsg' hbase hmessage d d'
    obtain ⟨hres, hreq, hrequest, hhop⟩ := construct_zeroed hbase undef
    obtain ⟨hres', hreq', hrequest', hhop'⟩ := construct_zeroed hmessage undef
    refine ⟨?_, ?_, ?_, ?_⟩
    · exact hres'.trans ((h .resCode).trans hres.symm)
    · exact hreq'.trans ((Int.ofNat.inj (h .reqType)).trans hreq.symm)
    · exact hrequest'.trans hrequest.symm
    · exact hhop'.trans hhop.symm

variable (i : Insertion) (c : AvpField)

/-- The AVPs behind the inserted one up to the first that is too long for the loop. -/
def behind : List WireAvp := i.post.takeWhile fun avp => avp.Short

/-- The loop has stopped at an AVP that is too long for it. -/
def BehindLong : Prop := ∃ avp ∈ i.pre, ¬ avp.Short

/-- The loop has stopped because it has both fields. -/
def BehindBoth : Prop :=
  (∃ avp ∈ i.pre, avp.code.toNat = c.code) ∧ ∃ avp ∈ i.pre, avp.code.toNat = c.other.code

/-- The loop comes to another AVP of the same code after it. -/
def ReadAgain : Prop :=
  ∃ mid avp rest, i.behind = mid ++ avp :: rest ∧ avp.code.toNat = c.code ∧
    ∀ a ∈ i.pre ++ mid, a.code.toNat ≠ c.other.code

/-- It has the value that the field has without it. -/
def SameValue : Prop :=
  c.meaning (beNat i.avp.data % 2 ^ 32) = c.meaning (i.base.valueOf c)

/-- The other field has the value that it has without it: that of the last AVP for it before the
inserted one, or of the first one behind. -/
def SameOther : Prop :=
  c.other.meaning (((WireAvp.valuesOf c.other i.pre).getLast?.or
    (WireAvp.valuesOf c.other i.behind).head?).getD 0) = c.other.meaning (i.base.valueOf c.other)

def Harmless : Prop :=
  ∀ c : AvpField, i.avp.code.toNat = c.code →
    i.BehindLong ∨ i.BehindBoth c ∨ i.ReadAgain c ∨ i.SameValue c ∧ i.SameOther c

variable {i c}

theorem reached_of_behindLong (h : i.BehindLong) : i.message.reached = i.base.reached := by
  obtain ⟨avp, havp, hlong⟩ := h
  have hcut : ¬ (i.pre.takeWhile fun avp => avp.Short).length = i.pre.length := by
    intro hlen
    have hall := List.takeWhile_eq_self_iff.mp
      ((List.takeWhile_prefix _).eq_of_length hlen) avp havp
    exact hlong (of_decide_eq_true hall)
  rw [WireMessage.reached, WireMessage.reached, message, i.split, List.takeWhile_append,
    if_neg hcut, List.takeWhile_append, if_neg hcut]

theorem item_of_code (hcode : i.avp.code.toNat = c.code) :
    i.avp.wire.item c = .left (beNat i.avp.data % 2 ^ 32) := WireAvp.item_of_code hcode

section Short

variable (hshort : ¬ i.BehindLong)
include hshort

theorem short_of_not_behindLong : ∀ avp ∈ i.pre, decide avp.Short = true := by
  intro avp havp
  by_contra hlong
  exact hshort ⟨avp, havp, by simpa using hlong⟩

theorem reached_message : i.message.reached = i.pre ++ i.avp.wire :: i.behind := by
  have havp : decide i.avp.wire.Short = true := decide_eq_true i.avp.length_le
  rw [WireMessage.reached, message, List.takeWhile_append_of_pos (short_of_not_behindLong hshort),
    List.takeWhile_cons, if_pos havp, behind]

theorem reached_base : i.base.reached = i.pre ++ i.behind := by
  rw [WireMessage.reached, i.split, List.takeWhile_append_of_pos (short_of_not_behindLong hshort),
    behind]

theorem slots_message : slots c i.message.reached = TwoSlots.read
    (i.pre.map (WireAvp.item c) ++ i.avp.wire.item c :: i.behind.map (WireAvp.item c)) .empty := by
  rw [slots, reached_message hshort, List.map_append, List.map_cons]

theorem slots_base : slots c i.base.reached = TwoSlots.read
    (i.pre.map (WireAvp.item c) ++ i.behind.map (WireAvp.item c)) .empty := by
  rw [slots, reached_base hshort, List.map_append]

theorem slots_of_behindBoth (h : i.BehindBoth c) :
    slots c i.message.reached = slots c i.base.reached := by
  rw [slots_message hshort, slots_base hshort]
  exact read_insert_of_full (WireAvp.hasLeft_map.mpr h.1) (WireAvp.hasRight_map.mpr h.2) _

theorem slots_of_readAgain (hcode : i.avp.code.toNat = c.code) (h : i.ReadAgain c) :
    slots c i.message.reached = slots c i.base.reached := by
  obtain ⟨mid, avp, rest, hbehind, havp, hother⟩ := h
  rw [slots_message hshort, slots_base hshort, hbehind, List.map_append, List.map_cons,
    item_of_code hcode, WireAvp.item_of_code havp]
  apply read_insert_left_again
  rw [← List.map_append, WireAvp.hasRight_map]
  push Not
  exact hother

theorem slots_of_foreign (h : ∀ c : AvpField, i.avp.code.toNat ≠ c.code) :
    slots c i.message.reached = slots c i.base.reached := by
  have hskip : i.avp.wire.item c = .skip := WireAvp.item_of_ne h
  rw [slots_message hshort, slots_base hshort, hskip]
  exact read_insert_skip

section Decisive

variable (hcode : i.avp.code.toNat = c.code) (hboth : ¬ i.BehindBoth c)
include hcode hboth

theorem left_of_decisive (hagain : ¬ i.ReadAgain c) :
    (slots c i.message.reached).left = some (beNat i.avp.data % 2 ^ 32) := by
  rw [slots_message hshort, item_of_code hcode]
  apply read_insert_left
  · rw [WireAvp.hasLeft_map, WireAvp.hasRight_map]
    exact hboth
  · intro mid v rest hbehind
    obtain ⟨mid', rest', hbehind', rfl, hrest⟩ := List.map_eq_append_iff.mp hbehind
    obtain ⟨avp, rest'', hrest', hitem, -⟩ := List.map_eq_cons_iff.mp hrest
    rw [← List.map_append, WireAvp.hasRight_map]
    by_contra hnone
    push Not at hnone
    refine hagain ⟨mid', avp, rest'', hrest' ▸ hbehind', ?_, hnone⟩
    have hleft : HasLeft ([avp].map (WireAvp.item c)) := ⟨v, by simp [hitem]⟩
    obtain ⟨a, ha, hacode⟩ := WireAvp.hasLeft_map.mp hleft
    rwa [List.mem_singleton.mp ha] at hacode

theorem right_of_decisive : (slots c.other i.message.reached).left =
    (WireAvp.valuesOf c.other i.pre).getLast?.or (WireAvp.valuesOf c.other i.behind).head? := by
  have hpre : ¬ (HasLeft (i.pre.map (WireAvp.item c)) ∧ HasRight (i.pre.map (WireAvp.item c))) := by
    rw [WireAvp.hasLeft_map, WireAvp.hasRight_map]
    exact hboth
  rw [slots_other, slots_message hshort, item_of_code hcode,
    ← WireAvp.rights_map, ← WireAvp.rights_map]
  exact read_insert_left_right hpre

end Decisive

end Short

theorem valueOf_of_slots (h : slots c i.message.reached = slots c i.base.reached) :
    i.message.valueOf c = i.base.valueOf c := by
  rw [WireMessage.valueOf, WireMessage.valueOf, h]

theorem unchanged_iff_valueOf : i.Unchanged ↔
    ∀ c : AvpField, c.meaning (i.message.valueOf c) = c.meaning (i.base.valueOf c) := by
  rw [unchanged_iff_get]
  refine forall_congr' fun c => ?_
  rw [WireMessage.get_parsed, WireMessage.get_parsed, c.stored_eq_iff]

theorem forall_field_iff (c : AvpField) {P : AvpField → Prop} : (∀ c, P c) ↔ P c ∧ P c.other := by
  constructor
  · exact fun h => ⟨h c, h c.other⟩
  · rintro ⟨hself, hother⟩ c'
    cases c <;> cases c' <;> assumption

theorem unchanged_of_slots (c : AvpField)
    (h : slots c i.message.reached = slots c i.base.reached) : i.Unchanged := by
  have hother : slots c.other i.message.reached = slots c.other i.base.reached := by
    rw [slots_other, slots_other, h]
  rw [unchanged_iff_valueOf, forall_field_iff c, valueOf_of_slots h, valueOf_of_slots hother]
  exact ⟨rfl, rfl⟩

/-- What an inserted AVP for a field does. -/
theorem unchanged_iff_of_code (hcode : i.avp.code.toNat = c.code) : i.Unchanged ↔
    i.BehindLong ∨ i.BehindBoth c ∨ i.ReadAgain c ∨ i.SameValue c ∧ i.SameOther c := by
  by_cases hlong : i.BehindLong
  · refine iff_of_true (unchanged_of_slots c ?_) (.inl hlong)
    rw [reached_of_behindLong hlong]
  by_cases hboth : i.BehindBoth c
  · exact iff_of_true (unchanged_of_slots c (slots_of_behindBoth hlong hboth)) (.inr (.inl hboth))
  by_cases hagain : i.ReadAgain c
  · exact iff_of_true (unchanged_of_slots c (slots_of_readAgain hlong hcode hagain))
      (.inr (.inr (.inl hagain)))
  have hvalue : i.message.valueOf c = beNat i.avp.data % 2 ^ 32 := by
    rw [WireMessage.valueOf, left_of_decisive hlong hcode hboth hagain]
    exact Option.getD_some
  have hother : i.message.valueOf c.other = ((WireAvp.valuesOf c.other i.pre).getLast?.or
      (WireAvp.valuesOf c.other i.behind).head?).getD 0 := by
    rw [WireMessage.valueOf, right_of_decisive hlong hcode hboth]
  rw [unchanged_iff_valueOf, forall_field_iff c, hvalue, hother]
  simp only [hlong, hboth, hagain, false_or]
  rfl

theorem unchanged_of_foreign (h : ∀ c : AvpField, i.avp.code.toNat ≠ c.code) : i.Unchanged := by
  refine unchanged_of_slots .resCode ?_
  by_cases hlong : i.BehindLong
  · rw [reached_of_behindLong hlong]
  · exact slots_of_foreign hlong h

end Insertion

/-- An AVP of another vendor, whose code happens to be that of the Result-Code. -/
def vendorAvp : EncodedAvp where
  code := 268
  flags := 0xC0
  data := be 4 10415 ++ be 4 5012
  padding := []
  length_le := by decide
  padding_lt := padding_nil_lt
  padded := by decide

def vendorInsertion : Insertion where
  base := (gxAnswerMessage [resultCodeAvp, requestTypeAvp] gxAnswer_fits).wire
  pre := [resultCodeAvp.wire]
  post := [requestTypeAvp.wire]
  split := rfl
  avp := vendorAvp
  fits := by decide

end AnalysePcap
