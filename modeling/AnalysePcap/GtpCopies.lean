import AnalysePcap.GtpCounters

/-! The copies that `parseGtp` makes of an accepted message: the payload behind the header
and, for a user packet, the frame that is built in `addPkt`. -/

namespace AnalysePcap

def cutLength (gtpHrd : Buffer) : Nat :=
  if 250 < 256 * (gtpHrd 2).toNat + (gtpHrd 3).toNat then 200
  else 256 * (gtpHrd 2).toNat + (gtpHrd 3).toNat

/-- With one of the three flags there are four more bytes, and for an extension header the
code takes four more again. -/
def headerLength (gtpHrd : Buffer) : Nat :=
  if (gtpHrd 0).toNat % 8 = 0 then 8 else if (gtpHrd 0).toNat / 4 % 2 = 0 then 12 else 16

theorem gtpHr_len_eq (gtpHrd : Buffer) : gtpHr_len gtpHrd = headerLength gtpHrd := by
  have hflags : ∀ c : BitVec 8, promote c &&& 0x07 ≠ 0 ↔ ¬ c.toNat % 8 = 0 := by decide
  have hextension : ∀ c : BitVec 8, promote c &&& 0x04 ≠ 0 ↔ ¬ c.toNat / 4 % 2 = 0 := by decide
  simp only [gtpHr_len, headerLength, hflags, hextension]
  split_ifs <;> simp_all

def Accepted (gtpHrd : Buffer) : Prop :=
  Version1 gtpHrd ∧ Handled (gtpHrd 1) ∧ ¬ TooLong gtpHrd

instance (gtpHrd : Buffer) : Decidable (Accepted gtpHrd) := inferInstanceAs (Decidable (_ ∧ _))

/-- `addPkt` comes to its loop. -/
def Libtrace.Ready (lt : Libtrace) : Prop :=
  lt.create_packet = true ∧ ∃ layer2 rem, lt.get_layer2 = some (layer2, rem) ∧ rem ≠ 0

namespace GTPhrd

variable {lt : Libtrace} {layer2 : Buffer} {gtpHrd : GTPhrd}

/-- The loop ends: more rounds than bytes do not change what it does. -/
theorem extract_fuel {fuel fuel' : Nat} (GtpPayload : Nat) {payLoadLen : Int}
    (h : payLoadLen.toNat ≤ fuel) (h' : payLoadLen.toNat ≤ fuel') :
    gtpHrd.extract lt layer2 fuel GtpPayload payLoadLen =
      gtpHrd.extract lt layer2 fuel' GtpPayload payLoadLen := by
  induction fuel generalizing fuel' GtpPayload payLoadLen with
  | zero =>
    have hend : ¬ 40 < payLoadLen := by omega
    cases fuel' with
    | zero => rfl
    | succ fuel' => rw [extract, extract, if_neg hend]
  | succ fuel ih =>
    cases fuel' with
    | zero =>
      have hend : ¬ 40 < payLoadLen := by omega
      rw [extract, extract, if_neg hend]
    | succ fuel' =>
      by_cases hend : 40 < payLoadLen
      · have hrest := ih (GtpPayload + 4) (show (payLoadLen - 4).toNat ≤ fuel by omega)
          (show (payLoadLen - 4).toNat ≤ fuel' by omega)
        rw [extract, extract, hrest]
      · rw [extract, extract, if_neg hend, if_neg hend]

/-- Each round of the loop writes 14 bytes behind the end of `maclay`. -/
theorem not_inside_of_mem_extract {fuel GtpPayload : Nat} {payLoadLen : Int} {c : Copy}
    (h : c ∈ (gtpHrd.extract lt layer2 fuel GtpPayload payLoadLen).copies) : ¬ c.Inside := by
  induction fuel generalizing GtpPayload payLoadLen with
  | zero => cases h
  | succ fuel ih =>
    have hcopy : ¬ Copy.Inside ⟨gtpHrd.m_length.toNat + 14, 14, gtpHrd.m_length.toNat + 14⟩ := by
      simp only [Copy.Inside]
      omega
    rw [extract] at h
    dsimp only at h
    split_ifs at h
    · exact List.mem_singleton.mp h ▸ hcopy
    · exact List.mem_singleton.mp h ▸ hcopy
    · rcases List.mem_cons.mp h with rfl | h
      · exact hcopy
      · exact ih h
    · cases h

theorem extract_copies_eq_nil_iff {fuel GtpPayload : Nat} {payLoadLen : Int}
    (hfuel : payLoadLen.toNat ≤ fuel) :
    (gtpHrd.extract lt layer2 fuel GtpPayload payLoadLen).copies = [] ↔ payLoadLen ≤ 40 := by
  cases fuel with
  | zero => exact iff_of_true rfl (by omega)
  | succ fuel =>
    rw [extract]
    dsimp only
    split_ifs with hround <;> simp <;> omega

theorem extract_inside_iff {fuel GtpPayload : Nat} {payLoadLen : Int}
    (hfuel : payLoadLen.toNat ≤ fuel) :
    (∀ c ∈ (gtpHrd.extract lt layer2 fuel GtpPayload payLoadLen).copies, c.Inside) ↔
      payLoadLen ≤ 40 := by
  rw [← extract_copies_eq_nil_iff hfuel, List.eq_nil_iff_forall_not_mem]
  exact forall_congr' fun c => ⟨fun h hc => not_inside_of_mem_extract hc (h hc), fun h hc => absurd hc h⟩

theorem addPkt_inside_iff (lt : Libtrace) (gtpHrd : GTPhrd) :
    (∀ c ∈ (gtpHrd.addPkt lt).copies, c.Inside) ↔ (lt.Ready → gtpHrd.payLoadLen ≤ 40) := by
  have hmac : Copy.Inside ⟨gtpHrd.m_length.toNat + 14, 0, 14⟩ := by
    simp only [Copy.Inside]
    omega
  unfold addPkt Libtrace.Ready
  cases hcreate : lt.create_packet with
  | false => simp
  | true =>
    cases hlayer2 : lt.get_layer2 with
    | none => simp
    | some found =>
      obtain ⟨layer2, rem⟩ := found
      by_cases hrem : rem = 0
      · simp [hrem]
      · simp only [Bool.not_true, Bool.false_eq_true, if_false, if_neg hrem, List.forall_mem_cons,
          extract_inside_iff le_rfl, hmac, true_and]
        exact ⟨fun h _ => h, fun h => h ⟨layer2, rem, rfl, hrem⟩⟩

end GTPhrd

theorem cut_lengthField {gtpHrd : Buffer} (h : ¬ TooLong gtpHrd) :
    (if 250 < lengthField gtpHrd then 200 else lengthField gtpHrd : BitVec 16).toNat =
      cutLength gtpHrd := by
  have hlength : (lengthField gtpHrd).toNat = 256 * (gtpHrd 2).toNat + (gtpHrd 3).toNat :=
    lengthField_of_small (not_le.mp fun hlarge => h (.inl hlarge))
  have hlt : 250 < lengthField gtpHrd ↔ 250 < (lengthField gtpHrd).toNat := Iff.rfl
  rw [cutLength, ← hlength]
  by_cases hcut : 250 < (lengthField gtpHrd).toNat
  · rw [if_pos (hlt.mpr hcut), if_pos hcut]
    rfl
  · rw [if_neg (hlt.not.mpr hcut), if_neg hcut]

namespace LteProtoBase

variable {gtpHrd : Buffer}

theorem parseGtp_of_not_accepted (lt : Libtrace) (gtpHeader : GTPhrd) (b : LteProtoBase)
    (h : ¬ Accepted gtpHrd) :
    (b.parseGtp lt gtpHeader (some gtpHrd)).returned.value = -1 := by
  by_cases hknown : Version1 gtpHrd ∧ Handled (gtpHrd 1)
  · have hlong : TooLong gtpHrd := by
      by_contra hlong
      exact h ⟨hknown.1, hknown.2, hlong⟩
    obtain ⟨b', hcount⟩ := Option.isSome_iff_exists.mp
      ((b.countKind_isSome_iff _ (lengthField gtpHrd)).mpr hknown.2)
    rw [(parseGtp_handled lt gtpHeader hknown.1 hcount).2, if_pos hlong]
    rfl
  · exact (parseGtp_ignored lt gtpHeader b hknown).2

theorem parseGtp_of_accepted (lt : Libtrace) (gtpHeader : GTPhrd) (b : LteProtoBase)
    (h : Accepted gtpHrd) :
    (b.parseGtp lt gtpHeader (some gtpHrd)).returned = .done ∧
      (b.parseGtp lt gtpHeader (some gtpHrd)).gtpHeader.payLoadLen =
        cutLength gtpHrd - headerLength gtpHrd ∧
      (b.parseGtp lt gtpHeader (some gtpHrd)).copies =
        ⟨8, 0, 8⟩ :: ⟨65000, 0, cutLength gtpHrd - headerLength gtpHrd⟩ ::
          if gtpHrd 1 = 255 then
            ((b.parseGtp lt gtpHeader (some gtpHrd)).gtpHeader.addPkt lt).copies
          else [] := by
  obtain ⟨hversion, hhandled, hlong⟩ := h
  obtain ⟨b', hcount⟩ := Option.isSome_iff_exists.mp
    ((b.countKind_isSome_iff _ (lengthField gtpHrd)).mpr hhandled)
  obtain ⟨_, hread⟩ := b.readHeader_of_version1 gtpHeader hversion
  rw [hcount] at hread
  simp only [parseGtp, hread, if_neg ((tooLong_iff gtpHrd).not.mpr hlong), fillPayload,
    cut_lengthField hlong, gtpHr_len_eq]
  by_cases huser : gtpHrd 1 = 255
  · simp only [if_pos huser, true_and]
  · simp only [if_neg huser, true_and]

theorem user_inside_iff (lt : Libtrace) (gtpHeader : GTPhrd) (b : LteProtoBase)
    (h : Accepted gtpHrd) :
    (∀ c ∈ if gtpHrd 1 = 255 then
        ((b.parseGtp lt gtpHeader (some gtpHrd)).gtpHeader.addPkt lt).copies else [], c.Inside) ↔
      (gtpHrd 1 = 255 → lt.Ready → cutLength gtpHrd ≤ headerLength gtpHrd + 40) := by
  by_cases htype : gtpHrd 1 = 255
  · have hloop : (cutLength gtpHrd : Int) - headerLength gtpHrd ≤ 40 ↔
        cutLength gtpHrd ≤ headerLength gtpHrd + 40 := by omega
    rw [if_pos htype, GTPhrd.addPkt_inside_iff, (parseGtp_of_accepted lt gtpHeader b h).2.1, hloop]
    exact ⟨fun h _ => h, fun h => h htype⟩
  · rw [if_neg htype]
    exact iff_of_true (fun _ hc => by cases hc) fun h => absurd h htype

theorem payload_inside_iff (gtpHrd : Buffer) :
    Copy.Inside ⟨65000, 0, cutLength gtpHrd - headerLength gtpHrd⟩ ↔
      headerLength gtpHrd ≤ cutLength gtpHrd := by
  have hcut : cutLength gtpHrd ≤ 250 := by
    unfold cutLength
    split_ifs <;> omega
  simp only [Copy.Inside]
  omega

/-- If the message is not rejected, the number of payload bytes is one that the array can
hold, and every copy stays inside the array that it writes to. -/
def WellSized (lt : Libtrace) (gtpHeader : GTPhrd) (b : LteProtoBase) (gtpHrd : Buffer) : Prop :=
  let parsed := b.parseGtp lt gtpHeader (some gtpHrd)
  parsed.returned.value ≠ -1 →
    (0 ≤ parsed.gtpHeader.payLoadLen ∧ parsed.gtpHeader.payLoadLen ≤ 65000) ∧
      ∀ c ∈ parsed.copies, c.Inside

theorem wellSized_iff (lt : Libtrace) (gtpHeader : GTPhrd) (b : LteProtoBase) (gtpHrd : Buffer) :
    WellSized lt gtpHeader b gtpHrd ↔
      (Accepted gtpHrd → headerLength gtpHrd ≤ cutLength gtpHrd ∧
        (gtpHrd 1 = 255 → lt.Ready → cutLength gtpHrd ≤ headerLength gtpHrd + 40)) := by
  by_cases haccepted : Accepted gtpHrd
  · obtain ⟨hreturned, hlen, hcopies⟩ := parseGtp_of_accepted lt gtpHeader b haccepted
    have hvalue : (b.parseGtp lt gtpHeader (some gtpHrd)).returned.value ≠ -1 := by
      rw [hreturned]
      decide
    have hheader : Copy.Inside ⟨8, 0, 8⟩ := by decide
    have hcopy := payload_inside_iff gtpHrd
    have hbounds : (0 ≤ (cutLength gtpHrd : Int) - headerLength gtpHrd ∧
        (cutLength gtpHrd : Int) - headerLength gtpHrd ≤ 65000) ↔
        headerLength gtpHrd ≤ cutLength gtpHrd := by
      rw [← hcopy]
      simp only [Copy.Inside]
      omega
    simp only [WellSized, ne_eq, hvalue, not_false_eq_true, forall_const, haccepted, hlen, hbounds]
    rw [hcopies, List.forall_mem_cons, List.forall_mem_cons, hcopy,
      user_inside_iff lt gtpHeader b haccepted]
    simp only [hheader, true_and, and_self_left]
  · have hvalue := parseGtp_of_not_accepted lt gtpHeader b haccepted
    exact iff_of_true (fun h => absurd hvalue h) fun h => absurd h haccepted

/-- A control message of 4 bytes has a payload of -4 bytes, and a user packet of 100 bytes is
copied over the end of `maclay`. -/
theorem copies_outside :
    let lt : Libtrace := ⟨true, some (fun _ => 0, 14), fun _ _ => true⟩
    let control : Buffer := fun i => [0x30, 0x10, 0x00, 0x04, 0x00, 0x00, 0x00, 0x01].getD i 0
    let user : Buffer := fun i => [0x30, 0xFF, 0x00, 0x64, 0x00, 0x00, 0x00, 0x01].getD i 0
    (initial.parseGtp lt .zero (some control)).gtpHeader.payLoadLen = -4 ∧
      ¬ WellSized lt .zero initial control ∧
      (⟨114, 14, 114⟩ : Copy) ∈ (initial.parseGtp lt .zero (some user)).copies ∧
      ¬ WellSized lt .zero initial user := by
  intro lt control user
  have hlen : (initial.parseGtp lt .zero (some control)).gtpHeader.payLoadLen = -4 := by
    decide +kernel
  have hmem : (⟨114, 14, 114⟩ : Copy) ∈ (initial.parseGtp lt .zero (some user)).copies := by
    decide +kernel
  refine ⟨hlen, fun h => ?_, hmem, fun h => ?_⟩
  · have hnonneg := (h (by decide +kernel)).1.1
    rw [hlen] at hnonneg
    omega
  · exact absurd ((h (by decide +kernel)).2 _ hmem) (by decide)

end LteProtoBase

end AnalysePcap
