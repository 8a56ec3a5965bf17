import AnalysePcap.Decode

/-! `LteProtoBase`: the GTP header of a UDP payload, the counters that are kept for it, and
the user packet inside. A `char` is signed, and an `int` has 32 bits. -/

namespace AnalysePcap

def MAX_MESSAGE_TYPE : Nat := 256

def GtpVersion1 : BitVec 32 := 0x01

def GTPv1 : BitVec 32 := 0x01

def GTPv0 : BitVec 32 := 0x00

/-- A `char` in an expression. -/
def promote (c : BitVec 8) : BitVec 32 := c.signExtend 32

structure GTPhrd where
  m_version : BitVec 8
  m_extensionHeaderFlag : Bool
  m_sequenceNumberFlag : Bool
  m_nPduNumberFlag : Bool
  m_messageType : BitVec 8
  m_length : BitVec 16
  m_teid : BitVec 32
  payload : Buffer
  payLoadLen : Int

@[ext] structure GtpTotal where
  packetCount : Nat
  datalen : Nat
  deriving DecidableEq, Repr

def GtpTotal.add (total : GtpTotal) (m_length : BitVec 16) : GtpTotal :=
  ⟨total.packetCount + 1, total.datalen + m_length.toNat⟩

/-- The two totals are `unsigned long`s and `totMess` are `int`s; what is said of them holds until
one of them overflows. -/
@[ext] structure LteProtoBase where
  m_totalpkts : Nat
  m_totaldata : Nat
  totMess : Fin MAX_MESSAGE_TYPE → Nat
  totalGTP_C : GtpTotal
  totalGTP_U : GtpTotal
  totalError : GtpTotal

def messageIndex (m_messageType : BitVec 8) : Fin MAX_MESSAGE_TYPE :=
  ⟨m_messageType.toNat, m_messageType.isLt⟩

/-- The return statements of `parseGtp`. -/
inductive GtpReturn where
  | null
  | version
  | protocolType
  | messageType
  | size
  | done
  deriving DecidableEq, Repr

def GtpReturn.value : GtpReturn → Int
  | .done => 1
  | _ => -1

/-- A `memcpy`: the size of the array that is written to, the first byte and the number of
bytes, which may be negative before it becomes a `size_t`. -/
structure Copy where
  size : Int
  start : Int
  count : Int
  deriving DecidableEq, Repr

def Copy.Inside (c : Copy) : Prop := 0 ≤ c.start ∧ 0 ≤ c.count ∧ c.start + c.count ≤ c.size

instance (c : Copy) : Decidable c.Inside := inferInstanceAs (Decidable (_ ∧ _ ∧ _))

/-- What libtrace answers in `addPkt`: whether there is a packet to work with, the layer 2
header with the number of bytes that remain, and whether a frame has an IPv4 header. -/
structure Libtrace where
  create_packet : Bool
  get_layer2 : Option (Buffer × Nat)
  get_ip : Buffer → Nat → Bool

/-- The copies that are made, and the frame that is given to `ParsePkt` if there is one. -/
structure Extracted where
  copies : List Copy
  frame : Option (Buffer × Nat)

def maclay (layer2 payload : Buffer) (GtpPayload : Nat) : Buffer := fun i =>
  if i < 14 then layer2 i else payload (GtpPayload + (i - 14))

namespace GTPhrd

/-- The loop that skips extension headers. `GtpPayload` is the distance from the payload. -/
def extract (lt : Libtrace) (layer2 : Buffer) (gtpHrd : GTPhrd) :
    (fuel : Nat) → (GtpPayload : Nat) → (payLoadLen : Int) → Extracted
  | 0, _, _ => ⟨[], none⟩
  | fuel + 1, GtpPayload, payLoadLen =>
    if 40 < payLoadLen then
      let copy : Copy := ⟨gtpHrd.m_length.toNat + 14, 14, gtpHrd.m_length.toNat + 14⟩
      let frame := maclay layer2 gtpHrd.payload GtpPayload
      if lt.get_ip frame (gtpHrd.m_length.toNat + 14) then
        ⟨[copy], some (frame, gtpHrd.m_length.toNat + 14)⟩
      else if !gtpHrd.m_extensionHeaderFlag then ⟨[copy], none⟩
      else
        let rest := gtpHrd.extract lt layer2 fuel (GtpPayload + 4) (payLoadLen - 4)
        ⟨copy :: rest.copies, rest.frame⟩
    else ⟨[], none⟩

def addPkt (lt : Libtrace) (gtpHrd : GTPhrd) : Extracted :=
  if !lt.create_packet then ⟨[], none⟩
  else
    match lt.get_layer2 with
    | none => ⟨[], none⟩
    | some (chekPlod, rem) =>
      if rem = 0 then ⟨[], none⟩
      else
        let r := gtpHrd.extract lt chekPlod gtpHrd.payLoadLen.toNat 0 gtpHrd.payLoadLen
        ⟨⟨gtpHrd.m_length.toNat + 14, 0, 14⟩ :: r.copies, r.frame⟩

end GTPhrd

def gtpHr_len (gtpHrd : Buffer) : Int :=
  if promote (gtpHrd 0) &&& 0x07 ≠ 0 then
    if promote (gtpHrd 0) &&& 0x04 ≠ 0 then 8 + 4 + 4 else 8 + 4
  else 8

structure HeaderRead where
  base : LteProtoBase
  gtpHeader : GTPhrd
  /-- `none` if the call goes on. -/
  returned : Option GtpReturn

structure ParseGtp where
  base : LteProtoBase
  gtpHeader : GTPhrd
  returned : GtpReturn
  copies : List Copy
  frame : Option (Buffer × Nat)

namespace LteProtoBase

def initial : LteProtoBase := ⟨0, 0, fun _ => 0, ⟨0, 0⟩, ⟨0, 0⟩, ⟨0, 0⟩⟩

/-- The counters by the kind of message, `none` for a message of no interest. -/
def countKind (b : LteProtoBase) (m_messageType : BitVec 8) (m_length : BitVec 16) :
    Option LteProtoBase :=
  if 16 ≤ m_messageType ∧ m_messageType ≤ 21 then
    some { b with totalGTP_C := b.totalGTP_C.add m_length }
  else if m_messageType = 26 then some { b with totalError := b.totalError.add m_length }
  else if m_messageType = 255 then some { b with totalGTP_U := b.totalGTP_U.add m_length }
  else none

def countMessage (b : LteProtoBase) (m_messageType : BitVec 8) (m_length : BitVec 16) :
    LteProtoBase :=
  { b with
    m_totalpkts := b.m_totalpkts + 1
    m_totaldata := b.m_totaldata + m_length.toNat
    totMess := Function.update b.totMess (messageIndex m_messageType)
      (b.totMess (messageIndex m_messageType) + 1) }

/-- `parseGtp` up to the test of the length, with what `gtpHeader` holds there. -/
def readHeader (b : LteProtoBase) (gtpHeader : GTPhrd) (gtpHrd : Buffer) : HeaderRead :=
  if (promote (gtpHrd 0)).sshiftRight 5 ≠ GtpVersion1 then ⟨b, gtpHeader, some .version⟩
  else
    let protocolType := (promote (gtpHrd 0) &&& 0x10).sshiftRight 4
    if protocolType ≠ GTPv1 ∧ protocolType ≠ GTPv0 then ⟨b, gtpHeader, some .protocolType⟩
    else
      let gtpHeader := { gtpHeader with
        m_version := if protocolType = GTPv1 then 1 else 0
        m_length := (promote (gtpHrd 2) <<< 8 ||| promote (gtpHrd 3)).setWidth 16
        m_messageType := gtpHrd 1 }
      match b.countKind gtpHeader.m_messageType gtpHeader.m_length with
      | none => ⟨b, gtpHeader, some .messageType⟩
      | some b =>
        let gtpHeader := { gtpHeader with
          m_teid := promote (gtpHrd 4) <<< 24 ||| promote (gtpHrd 5) <<< 16 |||
            promote (gtpHrd 6) <<< 8 ||| promote (gtpHrd 7) }
        ⟨b, gtpHeader, if 8192 < gtpHeader.m_length then some .size else none⟩

/-- The flags are set inside the test of all three bits, and each of them needs its own
bit. The length is cut before the payload behind the header is copied. -/
def fillPayload (gtpHeader : GTPhrd) (Gtp_ptr : Buffer) : GTPhrd :=
  let m_length : BitVec 16 := if 250 < gtpHeader.m_length then 200 else gtpHeader.m_length
  let payLoadLen : Int := m_length.toNat - gtpHr_len Gtp_ptr
  { gtpHeader with
    m_extensionHeaderFlag := promote (Gtp_ptr 0) &&& 0x04 ≠ 0
    m_sequenceNumberFlag := promote (Gtp_ptr 0) &&& 0x02 ≠ 0
    m_nPduNumberFlag := promote (Gtp_ptr 0) &&& 0x01 ≠ 0
    m_length := m_length
    payLoadLen := payLoadLen
    payload := fun i =>
      if (i : Int) < payLoadLen then Gtp_ptr ((gtpHr_len Gtp_ptr).toNat + i)
      else gtpHeader.payload i }

def parseGtp (lt : Libtrace) (gtpHeader : GTPhrd) (b : LteProtoBase) :
    (udpPkt : Option Buffer) → ParseGtp
  | none => ⟨b, gtpHeader, .null, [], none⟩
  | some Gtp_ptr =>
    let header : Copy := ⟨8, 0, 8⟩
    match b.readHeader gtpHeader Gtp_ptr with
    | ⟨b, gtpHeader, some returned⟩ => ⟨b, gtpHeader, returned, [header], none⟩
    | ⟨b, gtpHeader, none⟩ =>
      let b := b.countMessage gtpHeader.m_messageType gtpHeader.m_length
      let gtpHeader := fillPayload gtpHeader Gtp_ptr
      let payload : Copy := ⟨65000, 0, gtpHeader.payLoadLen⟩
      if gtpHeader.m_messageType = 255 then
        let user := gtpHeader.addPkt lt
        ⟨b, gtpHeader, .done, header :: payload :: user.copies, user.frame⟩
      else ⟨b, gtpHeader, .done, [header, payload], none⟩

end LteProtoBase

end AnalysePcap
