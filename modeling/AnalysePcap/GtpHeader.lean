import AnalysePcap.Gtp
import AnalysePcap.SignedBytes

/-! The fields that `parseGtp` reads from the header of a GTP packet, against their
big-endian values. -/

namespace AnalysePcap

open SignedBytes

def Handled (m_messageType : BitVec 8) : Prop :=
  (16 ≤ m_messageType.toNat ∧ m_messageType.toNat ≤ 21) ∨ m_messageType.toNat = 26 ∨
    m_messageType.toNat = 255

instance (m_messageType : BitVec 8) : Decidable (Handled m_messageType) :=
  inferInstanceAs (Decidable (_ ∨ _))

def Version1 (gtpHrd : Buffer) : Prop := (gtpHrd 0).toNat / 32 = 1

instance (gtpHrd : Buffer) : Decidable (Version1 gtpHrd) := inferInstanceAs (Decidable (_ = _))

def lengthField (gtpHrd : Buffer) : BitVec 16 :=
  (promote (gtpHrd 2) <<< 8 ||| promote (gtpHrd 3)).setWidth 16

def teidField (gtpHrd : Buffer) : BitVec 32 :=
  promote (gtpHrd 4) <<< 24 ||| promote (gtpHrd 5) <<< 16 ||| promote (gtpHrd 6) <<< 8 |||
    promote (gtpHrd 7)

theorem version_iff : ∀ c : BitVec 8,
    (promote c).sshiftRight 5 = GtpVersion1 ↔ c.toNat / 32 = 1 := by decide

theorem protocolType_known : ∀ c : BitVec 8,
    ¬ ((promote c &&& 0x10).sshiftRight 4 ≠ GTPv1 ∧ (promote c &&& 0x10).sshiftRight 4 ≠ GTPv0) := by
  decide

theorem msb_iff (c : BitVec 8) : c.msb = true ↔ 128 ≤ c.toNat := by
  simp [BitVec.msb_eq_decide]

namespace LteProtoBase

variable {b : LteProtoBase} {gtpHeader : GTPhrd} {gtpHrd : Buffer}

theorem countKind_isSome_iff (b : LteProtoBase) (m_messageType : BitVec 8) (m_length : BitVec 16) :
    (b.countKind m_messageType m_length).isSome ↔ Handled m_messageType := by
  have h26 : m_messageType = 26 ↔ m_messageType.toNat = 26 := BitVec.toNat_inj.symm
  have h255 : m_messageType = 255 ↔ m_messageType.toNat = 255 := BitVec.toNat_inj.symm
  have hrange : 16 ≤ m_messageType ∧ m_messageType ≤ 21 ↔
      16 ≤ m_messageType.toNat ∧ m_messageType.toNat ≤ 21 := Iff.rfl
  simp only [countKind, Handled, hrange, h26, h255]
  split_ifs <;> simp <;> omega

theorem readHeader_of_not_version1 (b : LteProtoBase) (gtpHeader : GTPhrd) (h : ¬ Version1 gtpHrd) :
    b.readHeader gtpHeader gtpHrd = ⟨b, gtpHeader, some .version⟩ :=
  if_pos ((version_iff _).not.mpr h)

/-- What is read from a header of the right version. The place of the TEID is reached only
if the message is counted. -/
theorem readHeader_of_version1 (b : LteProtoBase) (gtpHeader : GTPhrd) (h : Version1 gtpHrd) :
    ∃ m_version,
      let header : GTPhrd := { gtpHeader with
        m_version := m_version, m_length := lengthField gtpHrd, m_messageType := gtpHrd 1 }
      b.readHeader gtpHeader gtpHrd =
        match b.countKind (gtpHrd 1) (lengthField gtpHrd) with
        | none => ⟨b, header, some .messageType⟩
        | some b' => ⟨b', { header with m_teid := teidField gtpHrd },
            if 8192 < lengthField gtpHrd then some .size else none⟩ := by
  have hversion := not_not.mpr ((version_iff (gtpHrd 0)).mpr h)
  exact ⟨_, by rw [readHeader, if_neg hversion, if_neg (protocolType_known _)]; rfl⟩

end LteProtoBase

theorem lengthField_toNat (gtpHrd : Buffer) :
    (lengthField gtpHrd).toNat = (join 32 [gtpHrd 2, gtpHrd 3]).toNat % 256 ^ 2 := by
  have hjoin : join 32 [gtpHrd 2, gtpHrd 3] = promote (gtpHrd 2) <<< 8 ||| promote (gtpHrd 3) := by
    simp [join, promote]
  rw [hjoin, lengthField, BitVec.toNat_setWidth, show (2 : Nat) ^ 16 = 256 ^ 2 from rfl]

theorem teidField_eq (gtpHrd : Buffer) :
    teidField gtpHrd = join 32 [gtpHrd 4, gtpHrd 5, gtpHrd 6, gtpHrd 7] := by
  simp [teidField, join, promote, BitVec.shiftLeft_or_distrib, ← BitVec.shiftLeft_add]

/-- No byte above a negative one has a bit that is not set. -/
def Intact (bytes : List (BitVec 8)) : Prop :=
  bytes.Pairwise fun above c => 128 ≤ c.toNat → above = 255

instance (bytes : List (BitVec 8)) : Decidable (Intact bytes) :=
  inferInstanceAs (Decidable (List.Pairwise _ _))

theorem join_eq_iff_intact {bytes : List (BitVec 8)} (h : bytes.length ≤ 4) :
    (join 32 bytes).toNat % 256 ^ bytes.length = bigEndian bytes ↔ Intact bytes := by
  rw [join_mod_eq_iff (by omega)]
  simp only [Intact, msb_iff]
  rfl

theorem lengthField_eq_iff (gtpHrd : Buffer) :
    (lengthField gtpHrd).toNat = 256 * (gtpHrd 2).toNat + (gtpHrd 3).toNat ↔
      Intact [gtpHrd 2, gtpHrd 3] := by
  have hvalue : bigEndian [gtpHrd 2, gtpHrd 3] = 256 * (gtpHrd 2).toNat + (gtpHrd 3).toNat := by
    simp [bigEndian, Nat.mul_comm]
  rw [← join_eq_iff_intact (by simp), lengthField_toNat, hvalue]
  rfl

theorem teidField_eq_iff (gtpHrd : Buffer) :
    (teidField gtpHrd).toNat = bigEndian [gtpHrd 4, gtpHrd 5, gtpHrd 6, gtpHrd 7] ↔
      Intact [gtpHrd 4, gtpHrd 5, gtpHrd 6, gtpHrd 7] := by
  have hlt : (join 32 [gtpHrd 4, gtpHrd 5, gtpHrd 6, gtpHrd 7]).toNat < 256 ^ 4 := BitVec.isLt _
  rw [← join_eq_iff_intact (by simp), teidField_eq]
  exact (Nat.mod_eq_of_lt hlt).symm ▸ Iff.rfl

def GTPhrd.zero : GTPhrd := ⟨0, false, false, false, 0, 0, 0, fun _ => 0, 0⟩

/-- Whatever the stack held before, `parseGtp` has read the header as the big-endian fields that
it consists of, and has looked at its size. -/
def HeaderDecoded (b : LteProtoBase) (gtpHrd : Buffer) : Prop :=
  Version1 gtpHrd → ∀ gtpHeader,
    let read := b.readHeader gtpHeader gtpHrd
    let size := 256 * (gtpHrd 2).toNat + (gtpHrd 3).toNat
    read.gtpHeader.m_messageType = gtpHrd 1 ∧
      read.gtpHeader.m_length.toNat = size ∧
      read.gtpHeader.m_teid.toNat = bigEndian [gtpHrd 4, gtpHrd 5, gtpHrd 6, gtpHrd 7] ∧
      (read.returned = some .size ↔ 8192 < size)

/-- A message that is not counted leaves the TEID as it was. -/
theorem LteProtoBase.readHeader_teid_of_not_handled (b : LteProtoBase) (gtpHeader : GTPhrd)
    {gtpHrd : Buffer} (hversion : Version1 gtpHrd) (h : ¬ Handled (gtpHrd 1)) :
    (b.readHeader gtpHeader gtpHrd).gtpHeader.m_teid = gtpHeader.m_teid := by
  obtain ⟨_, hread⟩ := b.readHeader_of_version1 gtpHeader hversion
  rw [← b.countKind_isSome_iff (gtpHrd 1) (lengthField gtpHrd)] at h
  dsimp only at hread
  rw [hread]
  cases hcount : b.countKind (gtpHrd 1) (lengthField gtpHrd) with
  | none => rfl
  | some b' =>
    rw [hcount] at h
    exact absurd rfl h

theorem LteProtoBase.readHeader_of_handled (b : LteProtoBase) (gtpHeader : GTPhrd)
    {gtpHrd : Buffer} (hversion : Version1 gtpHrd) (h : Handled (gtpHrd 1)) :
    let read := b.readHeader gtpHeader gtpHrd
    read.gtpHeader.m_messageType = gtpHrd 1 ∧ read.gtpHeader.m_length = lengthField gtpHrd ∧
      read.gtpHeader.m_teid = teidField gtpHrd ∧
      (read.returned = some .size ↔ 8192 < (lengthField gtpHrd).toNat) := by
  obtain ⟨_, hread⟩ := b.readHeader_of_version1 gtpHeader hversion
  have hsize : 8192 < lengthField gtpHrd ↔ 8192 < (lengthField gtpHrd).toNat := Iff.rfl
  rw [← b.countKind_isSome_iff (gtpHrd 1) (lengthField gtpHrd)] at h
  obtain ⟨b', hcount⟩ := Option.isSome_iff_exists.mp h
  dsimp only at hread ⊢
  rw [hread, hcount, ← hsize]
  simp

theorem headerDecoded_iff (b : LteProtoBase) (gtpHrd : Buffer) :
    HeaderDecoded b gtpHrd ↔
      (Version1 gtpHrd → Handled (gtpHrd 1) ∧ Intact [gtpHrd 2, gtpHrd 3] ∧
        Intact [gtpHrd 4, gtpHrd 5, gtpHrd 6, gtpHrd 7]) := by
  refine imp_congr_right fun hversion => ?_
  rw [← lengthField_eq_iff, ← teidField_eq_iff]
  constructor
  · intro h
    have hhandled : Handled (gtpHrd 1) := by
      by_contra hnot
      -- the TEID on the stack before the call cannot be right for every stack
      have hteid (teid : BitVec 32) :
          teid.toNat = bigEndian [gtpHrd 4, gtpHrd 5, gtpHrd 6, gtpHrd 7] := by
        rw [← (h { GTPhrd.zero with m_teid := teid }).2.2.1,
          b.readHeader_teid_of_not_handled _ hversion hnot]
      exact absurd ((hteid 0).trans (hteid 1).symm) (by decide)
    obtain ⟨-, hlength, hteid, -⟩ := b.readHeader_of_handled .zero hversion hhandled
    obtain ⟨-, hlength', hteid', -⟩ := h .zero
    exact ⟨hhandled, hlength ▸ hlength', hteid ▸ hteid'⟩
  · rintro ⟨hhandled, hlength, hteid⟩ gtpHeader
    obtain ⟨htype, hlength', hteid', hsize⟩ := b.readHeader_of_handled gtpHeader hversion hhandled
    dsimp only
    rw [hlength', hteid', hsize, hlength]
    exact ⟨htype, rfl, hteid, Iff.rfl⟩

/-- A user packet of 128 bytes is taken for one of 65408 bytes. -/
theorem length_128_read_as_65408 :
    let gtpHrd : Buffer := fun i => [0x30, 0xFF, 0x00, 0x80, 0x00, 0x00, 0x00, 0x01].getD i 0
    let read := LteProtoBase.initial.readHeader .zero gtpHrd
    Version1 gtpHrd ∧ 256 * (gtpHrd 2).toNat + (gtpHrd 3).toNat = 128 ∧
      read.gtpHeader.m_length.toNat = 65408 ∧ read.returned = some .size ∧
      ¬ HeaderDecoded .initial gtpHrd := by
  intro gtpHrd read
  have hversion : Version1 gtpHrd := by decide +kernel
  have hlength : read.gtpHeader.m_length.toNat = 65408 := by decide +kernel
  refine ⟨hversion, by decide +kernel, hlength, by decide +kernel, fun h => ?_⟩
  exact absurd (hlength.symm.trans (h hversion .zero).2.1) (by decide)

end AnalysePcap
