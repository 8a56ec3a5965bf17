import AnalysePcap.GtpHeader
import AnalysePcap.Run
import Mathlib.Algebra.BigOperators.Fin

/-! The counters of `LteProtoBase`. They are changed at two places of `parseGtp`, and the
test of the length stands between them. -/

namespace AnalysePcap

open Machine SignedBytes

/-- The message is rejected for its size: because of the size, or because of a negative
low byte. -/
def TooLong (gtpHrd : Buffer) : Prop :=
  128 ≤ (gtpHrd 3).toNat ∨ 8192 < 256 * (gtpHrd 2).toNat + (gtpHrd 3).toNat

instance (gtpHrd : Buffer) : Decidable (TooLong gtpHrd) := inferInstanceAs (Decidable (_ ∨ _))

theorem lengthField_of_small {gtpHrd : Buffer} (h : (gtpHrd 3).toNat < 128) :
    (lengthField gtpHrd).toNat = 256 * (gtpHrd 2).toNat + (gtpHrd 3).toNat :=
  (lengthField_eq_iff gtpHrd).mpr (by simp [Intact, h])

theorem lengthField_of_large {gtpHrd : Buffer} (h : 128 ≤ (gtpHrd 3).toNat) :
    (lengthField gtpHrd).toNat = 65280 + (gtpHrd 3).toNat := by
  have hjoin := @join_concat_mod_of_msb 32 [gtpHrd 2] (by simp) _ ((msb_iff _).mpr h)
  rw [lengthField_toNat]
  simpa using hjoin

theorem tooLong_iff (gtpHrd : Buffer) : 8192 < lengthField gtpHrd ↔ TooLong gtpHrd := by
  have hlt : 8192 < lengthField gtpHrd ↔ 8192 < (lengthField gtpHrd).toNat := Iff.rfl
  rw [hlt, TooLong]
  by_cases h : 128 ≤ (gtpHrd 3).toNat
  · rw [lengthField_of_large h]
    omega
  · rw [lengthField_of_small (not_le.mp h)]
    omega

namespace LteProtoBase

/-- The totals that `printstats` prints next to each other. -/
structure TotalsAgree (b : LteProtoBase) : Prop where
  pkts : b.m_totalpkts =
    b.totalGTP_C.packetCount + b.totalGTP_U.packetCount + b.totalError.packetCount
  mess : b.m_totalpkts = ∑ m_messageType, b.totMess m_messageType
  data : b.m_totaldata = b.totalGTP_C.datalen + b.totalGTP_U.datalen + b.totalError.datalen

theorem totalsAgree_initial : initial.TotalsAgree :=
  ⟨rfl, by simp [initial], rfl⟩

section Step

variable {b b' : LteProtoBase} {m_messageType : BitVec 8} {m_length : BitVec 16}

/-- One of the three kinds has one packet more, and nothing else has changed. -/
theorem countKind_spec (h : b.countKind m_messageType m_length = some b') :
    b'.totalGTP_C.packetCount + b'.totalGTP_U.packetCount + b'.totalError.packetCount =
        b.totalGTP_C.packetCount + b.totalGTP_U.packetCount + b.totalError.packetCount + 1 ∧
      b'.totalGTP_C.datalen + b'.totalGTP_U.datalen + b'.totalError.datalen =
        b.totalGTP_C.datalen + b.totalGTP_U.datalen + b.totalError.datalen + m_length.toNat ∧
      b'.m_totalpkts = b.m_totalpkts ∧ b'.m_totaldata = b.m_totaldata ∧ b'.totMess = b.totMess := by
  unfold countKind at h
  split_ifs at h <;> cases h <;> refine ⟨?_, ?_, rfl, rfl, rfl⟩ <;> simp only [GtpTotal.add] <;> omega

theorem sum_totMess_countMessage (b : LteProtoBase) (m_messageType : BitVec 8)
    (m_length : BitVec 16) :
    ∑ t, (b.countMessage m_messageType m_length).totMess t = (∑ t, b.totMess t) + 1 := by
  have hmem : messageIndex m_messageType ∈ Finset.univ := Finset.mem_univ _
  rw [countMessage, Finset.sum_update_of_mem hmem,
    Finset.sum_eq_add_sum_sdiff_singleton_of_mem hmem b.totMess]
  omega

theorem TotalsAgree.count (hb : b.TotalsAgree) (h : b.countKind m_messageType m_length = some b') :
    (b'.countMessage m_messageType m_length).TotalsAgree := by
  obtain ⟨hpkts, hdata, htotal, htotaldata, hmess⟩ := countKind_spec h
  refine ⟨?_, ?_, ?_⟩
  · have := hb.pkts
    simp only [countMessage]
    omega
  · have := hb.mess
    rw [sum_totMess_countMessage, hmess, ← hb.mess, countMessage, htotal]
  · have := hb.data
    simp only [countMessage]
    omega

end Step

section ParseGtp

variable {lt : Libtrace} {gtpHeader : GTPhrd} {b : LteProtoBase} {gtpHrd : Buffer}

theorem parseGtp_ignored (lt : Libtrace) (gtpHeader : GTPhrd) (b : LteProtoBase)
    (h : ¬ (Version1 gtpHrd ∧ Handled (gtpHrd 1))) :
    (b.parseGtp lt gtpHeader (some gtpHrd)).base = b ∧
      (b.parseGtp lt gtpHeader (some gtpHrd)).returned.value = -1 := by
  by_cases hversion : Version1 gtpHrd
  · have hnone : b.countKind (gtpHrd 1) (lengthField gtpHrd) = none := by
      rw [← Option.not_isSome_iff_eq_none, countKind_isSome_iff]
      exact fun hhandled => h ⟨hversion, hhandled⟩
    obtain ⟨_, hread⟩ := b.readHeader_of_version1 gtpHeader hversion
    rw [hnone] at hread
    simp only [parseGtp, hread]
    exact ⟨trivial, rfl⟩
  · simp only [parseGtp, readHeader_of_not_version1 b gtpHeader hversion]
    exact ⟨trivial, rfl⟩

theorem parseGtp_handled (lt : Libtrace) (gtpHeader : GTPhrd) (hversion : Version1 gtpHrd)
    {b' : LteProtoBase} (hcount : b.countKind (gtpHrd 1) (lengthField gtpHrd) = some b') :
    ((b.parseGtp lt gtpHeader (some gtpHrd)).base =
        if TooLong gtpHrd then b' else b'.countMessage (gtpHrd 1) (lengthField gtpHrd)) ∧
      (b.parseGtp lt gtpHeader (some gtpHrd)).returned =
        if TooLong gtpHrd then .size else .done := by
  obtain ⟨_, hread⟩ := b.readHeader_of_version1 gtpHeader hversion
  rw [hcount] at hread
  by_cases hlong : TooLong gtpHrd
  · simp only [parseGtp, hread, if_pos ((tooLong_iff gtpHrd).mpr hlong), if_pos hlong, and_self]
  · simp only [parseGtp, hread, if_neg ((tooLong_iff gtpHrd).not.mpr hlong), if_neg hlong]
    split_ifs <;> exact ⟨rfl, rfl⟩

end ParseGtp

end LteProtoBase

/-- A call of `parseGtp`, with what libtrace answers in it and the memory that `gtpHeader`
is put into. -/
structure GtpCall where
  lt : Libtrace
  gtpHeader : GTPhrd
  udpPkt : Option Buffer

def GtpCall.HalfCounted (c : GtpCall) : Prop :=
  ∃ gtpHrd ∈ c.udpPkt, Version1 gtpHrd ∧ Handled (gtpHrd 1) ∧ TooLong gtpHrd

namespace LteProtoBase

def call (b : LteProtoBase) (c : GtpCall) : ParseGtp := b.parseGtp c.lt c.gtpHeader c.udpPkt

def next (b : LteProtoBase) (c : GtpCall) : LteProtoBase := (b.call c).base

/-- A call that returns -1 has changed nothing, and the totals agree after the call. -/
def Consistent (b : LteProtoBase) (c : GtpCall) : Prop :=
  ((b.call c).returned.value = -1 → b.next c = b) ∧ (b.next c).TotalsAgree

theorem consistent_iff {b : LteProtoBase} (hb : b.TotalsAgree) (c : GtpCall) :
    b.Consistent c ↔ ¬ c.HalfCounted := by
  obtain ⟨lt, gtpHeader, udpPkt⟩ := c
  cases udpPkt with
  | none => exact iff_of_true ⟨fun _ => rfl, hb⟩ (by simp [GtpCall.HalfCounted])
  | some gtpHrd =>
    have hhalf : GtpCall.HalfCounted ⟨lt, gtpHeader, some gtpHrd⟩ ↔
        Version1 gtpHrd ∧ Handled (gtpHrd 1) ∧ TooLong gtpHrd := by
      simp [GtpCall.HalfCounted]
    by_cases hknown : Version1 gtpHrd ∧ Handled (gtpHrd 1)
    · obtain ⟨b', hcount⟩ := Option.isSome_iff_exists.mp
        ((b.countKind_isSome_iff _ (lengthField gtpHrd)).mpr hknown.2)
      obtain ⟨hbase, hreturned⟩ := parseGtp_handled lt gtpHeader hknown.1 hcount
      by_cases hlong : TooLong gtpHrd
      · rw [if_pos hlong] at hbase hreturned
        refine iff_of_false (fun h => ?_) (not_not.mpr (hhalf.mpr ⟨hknown.1, hknown.2, hlong⟩))
        -- the kind has been counted, so the object is not the same
        have hsame : b' = b := hbase.symm.trans (h.1 (congrArg GtpReturn.value hreturned))
        have hmore := (countKind_spec hcount).1
        rw [hsame] at hmore
        omega
      · rw [if_neg hlong] at hbase hreturned
        refine iff_of_true ⟨fun h => ?_, ?_⟩ fun h => hlong (hhalf.mp h).2.2
        · have hdone : (b.call ⟨lt, gtpHeader, some gtpHrd⟩).returned.value = 1 :=
            congrArg GtpReturn.value hreturned
          rw [hdone] at h
          cases h
        · exact (congrArg TotalsAgree hbase).mpr (hb.count hcount)
    · obtain ⟨hbase, -⟩ := parseGtp_ignored lt gtpHeader b hknown
      exact iff_of_true ⟨fun _ => hbase, (congrArg TotalsAgree hbase).mpr hb⟩
        fun h => hknown ⟨(hhalf.mp h).1, (hhalf.mp h).2.1⟩

theorem totMess_next_le (b : LteProtoBase) (c : GtpCall) (t : Fin MAX_MESSAGE_TYPE) :
    (b.next c).totMess t ≤ b.totMess t + 1 := by
  obtain ⟨lt, gtpHeader, udpPkt⟩ := c
  cases udpPkt with
  | none => exact Nat.le_succ _
  | some gtpHrd =>
    by_cases hknown : Version1 gtpHrd ∧ Handled (gtpHrd 1)
    · obtain ⟨b', hcount⟩ := Option.isSome_iff_exists.mp
        ((b.countKind_isSome_iff _ (lengthField gtpHrd)).mpr hknown.2)
      have hbase := (parseGtp_handled lt gtpHeader hknown.1 hcount).1
      have hmess := (countKind_spec hcount).2.2.2.2
      rw [next, call, hbase, ← hmess]
      split_ifs
      · exact Nat.le_succ _
      · by_cases ht : t = messageIndex (gtpHrd 1)
        · simp [countMessage, ht]
        · simp [countMessage, Function.update_of_ne ht]
    · have hbase := (parseGtp_ignored lt gtpHeader b hknown).1
      rw [next, call, hbase]
      exact Nat.le_succ _

/-- The counters of the message types are `int`s in the source. With fewer than `2 ^ 31` calls none
of them overflows. -/
theorem totMess_lt {calls : List GtpCall} (hcalls : calls.length < 2 ^ 31)
    (t : Fin MAX_MESSAGE_TYPE) : (run next initial calls).totMess t < 2 ^ 31 := by
  have hle : (run next initial calls).totMess t ≤ calls.length := by
    clear hcalls
    induction calls using List.reverseRecOn with
    | nil => exact Nat.le_refl 0
    | append_singleton calls c ih =>
      rw [run_concat, List.length_append, List.length_singleton]
      exact (totMess_next_le _ c t).trans (Nat.add_le_add_right ih 1)
  exact hle.trans_lt hcalls

/-- The counters are consistent throughout a run exactly when no message is rejected for
its size. -/
theorem counters_consistent_iff (calls : List GtpCall) :
    Along next Consistent initial calls ↔ ∀ c ∈ calls, ¬ c.HalfCounted := by
  rw [← along_const_iff]
  exact along_iff_of_invariant (I := TotalsAgree) (fun _ c hb => consistent_iff hb c)
    (fun _ _ _ hc => hc.2) totalsAgree_initial calls

/-- A control message that announces 8193 bytes is counted and then rejected. -/
theorem rejected_message_counted :
    let gtpHrd : Buffer := fun i => [0x30, 0x10, 0x20, 0x01, 0x00, 0x00, 0x00, 0x01].getD i 0
    let c : GtpCall := ⟨⟨true, none, fun _ _ => false⟩, .zero, some gtpHrd⟩
    (initial.call c).returned.value = -1 ∧ (initial.next c).totalGTP_C = ⟨1, 8193⟩ ∧
      (initial.next c).m_totalpkts = 0 ∧ ¬ (initial.next c).TotalsAgree ∧
      ¬ Along next Consistent initial [c] := by
  intro gtpHrd c
  have hvalue : (initial.call c).returned.value = -1 := by decide +kernel
  have hcontrol : (initial.next c).totalGTP_C = ⟨1, 8193⟩ := by decide +kernel
  have hpkts : (initial.next c).m_totalpkts = 0 := by decide +kernel
  have hdiffer : ¬ (initial.next c).TotalsAgree := by
    intro h
    have hsum := h.pkts
    rw [hcontrol, hpkts] at hsum
    simp only at hsum
    omega
  exact ⟨hvalue, hcontrol, hpkts, hdiffer, fun h => hdiffer h.1.2⟩

end LteProtoBase

end AnalysePcap
