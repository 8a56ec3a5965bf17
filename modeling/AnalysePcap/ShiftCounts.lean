import AnalysePcap.PayloadReads

/-! The operands of `extractDword` for which the language does not say what happens: the
indices into `word_masks` and the counts of its shifts. The constructor of `Diameter`
computes the length of a value from the length of its AVP, which may be shorter than the
header of an AVP. -/

namespace AnalysePcap

open WhileLoop

inductive Operand where
  | mask (index : Int)
  | shift (count : Int)
  deriving DecidableEq, Repr

def Operand.Defined : Operand → Prop
  | .mask index => 0 ≤ index ∧ index ≤ 16
  | .shift count => 0 ≤ count ∧ count ≤ 31

instance : DecidablePred Operand.Defined
  | .mask _ => inferInstanceAs (Decidable (_ ∧ _))
  | .shift _ => inferInstanceAs (Decidable (_ ∧ _))

def extractWordsOperands (startBit : Nat) :
    (fuel : Nat) → (firstWord : Bool) → (lenLeft : Int) → List Operand
  | 0, _, _ => []
  | fuel + 1, firstWord, lenLeft =>
    if 16 ≤ lenLeft ∨ firstWord = true then
      -- the high byte of the word
      .shift 8 ::
        if firstWord = true then
          .mask (16 - startBit) :: extractWordsOperands startBit fuel false (lenLeft - (16 - startBit))
        else .shift 16 :: extractWordsOperands startBit fuel false (lenLeft - 16)
    else []

structure Extraction where
  startWord : Nat
  startBit : Nat
  len : Int
  deriving DecidableEq, Repr

def Extraction.operands (c : Extraction) (buffer : Buffer) : List Operand :=
  if c.startBit + c.len ≤ 16 then [.shift 8, .shift (16 - c.startBit - c.len), .mask c.len]
  else
    let (_, _, lenLeft) :=
      extractWords buffer c.startBit (c.len.toNat + 1) true (c.startWord * 2) 0 c.len
    extractWordsOperands c.startBit (c.len.toNat + 1) true c.len ++
      if 0 < lenLeft then [.shift 8, .shift lenLeft, .shift (16 - lenLeft)] else []

def Extraction.reads (c : Extraction) (buffer : Buffer) : List Nat :=
  extractDwordReads buffer c.startWord c.startBit c.len

section Constructor

variable (undef : Undefined) (dMsg : Buffer)

def avpExtractions (s : AvpState) : List Extraction :=
  let avpCode := extractDword undef dMsg s.avpStartWord 0 32
  let avpLength := extractDword undef dMsg (s.avpStartWord + 2) 8 24
  ⟨s.avpStartWord, 0, 32⟩ :: ⟨s.avpStartWord + 2, 8, 24⟩ ::
    if avpLength ≤ 0 ∨ 5014 < avpLength then []
    else if avpCode = 268 ∨ avpCode = 416 then
      [⟨s.avpStartWord + 4, 0, int32 ((avpLength - 8) * 8)⟩]
    else []

/-- The calls of `extractDword` by `construct`, in its order. -/
def DiameterObject.constructExtractions (memory : DiameterObject) : List Extraction :=
  let cc := extractDword undef dMsg 2 8 24
  let appId := extractDword undef dMsg 4 0 32
  ⟨2, 8, 24⟩ :: ⟨4, 0, 32⟩ ::
    if Iface.ofAppId appId = none then []
    else if cc ≠ CC.CCRorA.code ∧ cc ≠ CC.S6BAA.code ∧ cc ≠ CC.S6BTERMINATE.code then []
    else
      let entry := loopEntry undef dMsg memory
      ⟨0, 8, 24⟩ :: ⟨2, 0, 8⟩ :: ⟨6, 0, 32⟩ ::
        trace AvpState.Inside (avpRound undef dMsg memory.request) (avpExtractions undef dMsg)
          entry.msgRemaining.toNat entry

end Constructor

theorem extractWordsOperands_defined {startBit : Nat} (hbit : startBit < 16) (fuel : Nat)
    (firstWord : Bool) (lenLeft : Int) :
    ∀ o ∈ extractWordsOperands startBit fuel firstWord lenLeft, o.Defined := by
  have hbyte : (Operand.shift 8).Defined := by decide
  have hword : (Operand.shift 16).Defined := by decide
  have hfirst : (Operand.mask (16 - startBit)).Defined := by
    constructor <;> omega
  induction fuel generalizing firstWord lenLeft with
  | zero => simp [extractWordsOperands]
  | succ fuel ih =>
    rw [extractWordsOperands]
    split_ifs
    · exact List.forall_mem_cons.mpr ⟨hbyte, List.forall_mem_cons.mpr ⟨hfirst, ih _ _⟩⟩
    · exact List.forall_mem_cons.mpr ⟨hbyte, List.forall_mem_cons.mpr ⟨hword, ih _ _⟩⟩
    · simp

theorem Extraction.operands_defined_iff {c : Extraction} (hbit : c.startBit < 16)
    (buffer : Buffer) : (∀ o ∈ c.operands buffer, o.Defined) ↔ 0 ≤ c.len := by
  obtain ⟨startWord, startBit, len⟩ := c
  dsimp only at hbit
  -- a negative length always takes the branch of a single word
  by_cases hshort : startBit + len ≤ 16
  · simp only [operands, if_pos hshort, List.forall_mem_cons, Operand.Defined]
    constructor
    · rintro ⟨-, -, hmask, -⟩
      exact hmask.1
    · intro hlen
      exact ⟨by decide, by omega, by omega, by simp⟩
  · obtain ⟨n, rfl⟩ : ∃ n : Nat, len = n := ⟨len.toNat, by omega⟩
    have hlong : 16 ≤ startBit + n := by omega
    obtain ⟨q, r, hqr, hr⟩ := exists_words hlong
    refine iff_of_true ?_ (Int.natCast_nonneg n)
    simp only [operands, if_neg hshort, Int.toNat_natCast,
      extractWords_first buffer startWord hbit hqr hr, List.forall_mem_append]
    refine ⟨extractWordsOperands_defined hbit _ _ _, ?_⟩
    split_ifs
    · simp only [List.forall_mem_cons, Operand.Defined]
      exact ⟨by decide, by omega, by omega, by simp⟩
    · simp

/-- The extractions are those whose bytes are read. -/
theorem constructReads_eq_flatMap (undef : Undefined) (dMsg : Buffer) (memory : DiameterObject) :
    memory.constructReads undef dMsg =
      (memory.constructExtractions undef dMsg).flatMap fun c => c.reads dMsg := by
  have havp : avpReads undef dMsg =
      fun s => (avpExtractions undef dMsg s).flatMap fun c => c.reads dMsg := by
    funext s
    simp only [avpReads, avpExtractions, List.flatMap_cons, Extraction.reads]
    split_ifs <;> simp
  have hloop := avpLoopReads_eq_trace undef dMsg memory.request
    (loopEntry undef dMsg memory).msgRemaining.toNat (loopEntry undef dMsg memory)
  rw [havp, ← flatMap_trace] at hloop
  simp only [DiameterObject.constructReads, DiameterObject.constructExtractions,
    List.flatMap_cons, Extraction.reads]
  split_ifs
  · rfl
  · rfl
  · exact congrArg _ (congrArg _ (congrArg _ (congrArg _ (congrArg _ hloop))))

section Payload

variable (dMsg : Buffer)

/-- The value of this AVP is read, although the AVP is shorter than its header. -/
def ShortValue (offset : Nat) : Prop :=
  (codeAt dMsg offset = 268 ∨ codeAt dMsg offset = 416) ∧
    0 < lengthAt dMsg offset ∧ lengthAt dMsg offset < 8

def NoShortValue : Prop :=
  HeaderKnown dMsg → ∀ offset, AvpOffset dMsg offset → ¬ ShortValue dMsg offset

/-- Whatever the memory of the object holds, `extractDword` is called with defined operands
only. -/
def OperandsDefined : Prop :=
  ∀ (undef : Undefined) (memory : DiameterObject),
    ∀ c ∈ memory.constructExtractions undef dMsg, ∀ o ∈ c.operands dMsg, o.Defined

end Payload

section Defined

variable {undef : Undefined} {dMsg : Buffer} {memory : DiameterObject}

theorem AtAvp.extractions_defined_iff {s : AvpState} {offset : Nat} (h : AtAvp dMsg s offset) :
    (∀ c ∈ avpExtractions undef dMsg s, ∀ o ∈ c.operands dMsg, o.Defined) ↔
      ¬ ShortValue dMsg offset := by
  have hcode : extractDword undef dMsg s.avpStartWord 0 32 = codeAt dMsg offset := by
    rw [codeAt_eq, h.place]
  have hfixed : ∀ c ∈ [⟨s.avpStartWord, 0, 32⟩, ⟨s.avpStartWord + 2, 8, 24⟩],
      ∀ o ∈ Extraction.operands c dMsg, o.Defined := by
    simp [Extraction.operands_defined_iff]
  rw [List.forall_mem_cons, List.forall_mem_singleton] at hfixed
  simp only [avpExtractions, h.length_eq, hcode, List.forall_mem_cons, ShortValue]
  rw [and_iff_right hfixed.1, and_iff_right hfixed.2]
  generalize codeAt dMsg offset = code
  generalize lengthAt dMsg offset = avpLength
  split_ifs with hbad hread
  · exact iff_of_true (by simp) (by omega)
  · have hbits : int32 (((avpLength : Int) - 8) * 8) = ((avpLength : Int) - 8) * 8 :=
      int32_eq_self (by omega) (by omega)
    rw [List.forall_mem_singleton, hbits, Extraction.operands_defined_iff (Nat.succ_pos 15)]
    dsimp only
    omega
  · exact iff_of_true (by simp) fun h => hread h.1

def headerExtractions : List Extraction :=
  [⟨2, 8, 24⟩, ⟨4, 0, 32⟩, ⟨0, 8, 24⟩, ⟨2, 0, 8⟩, ⟨6, 0, 32⟩]

theorem headerExtractions_defined (dMsg : Buffer) :
    ∀ c ∈ headerExtractions, ∀ o ∈ c.operands dMsg, o.Defined := by
  simp [headerExtractions, Extraction.operands_defined_iff]

theorem mem_constructExtractions_of_known (h : HeaderKnown dMsg) {c : Extraction} :
    c ∈ memory.constructExtractions undef dMsg ↔ c ∈ headerExtractions ∨
      ∃ s, Head AvpState.Inside (avpRound undef dMsg memory.request) (AvpState.start dMsg memory) s ∧
        s.Inside ∧ c ∈ avpExtractions undef dMsg s := by
  have hacc := (accepts_iff undef dMsg).mpr h
  rw [← (variant_avpRound undef dMsg memory.request (announcedLength_lt dMsg)).mem_trace
    (avpHead_start dMsg memory) le_rfl]
  simp only [DiameterObject.constructExtractions, if_neg hacc.1, if_neg hacc.command,
    loopEntry_eq_start, headerExtractions, List.mem_cons, List.not_mem_nil, or_false, or_assoc]

theorem mem_headerExtractions_of_unknown (h : ¬ HeaderKnown dMsg) {c : Extraction}
    (hc : c ∈ memory.constructExtractions undef dMsg) : c ∈ headerExtractions := by
  have hacc := (accepts_iff undef dMsg).not.mpr h
  unfold DiameterObject.constructExtractions at hc
  dsimp only at hc
  split_ifs at hc with happ hcc
  · exact List.mem_append_left [⟨0, 8, 24⟩, ⟨2, 0, 8⟩, ⟨6, 0, 32⟩] hc
  · exact List.mem_append_left [⟨0, 8, 24⟩, ⟨2, 0, 8⟩, ⟨6, 0, 32⟩] hc
  · refine absurd ⟨happ, ?_⟩ hacc
    tauto

end Defined

/-- The operands are defined exactly when no value that the constructor can come to is in an
AVP that is shorter than its own header. -/
theorem operandsDefined_iff (dMsg : Buffer) : OperandsDefined dMsg ↔ NoShortValue dMsg := by
  constructor
  · intro h hknown offset hoff
    obtain ⟨s, hs, hat⟩ := exists_head_of_offset (fun _ _ => 0) { staleRequest with request := 2 }
      Found.not_stops_two hoff
    rw [← hat.extractions_defined_iff]
    intro c hc
    exact h (fun _ _ => 0) { staleRequest with request := 2 } c
      ((mem_constructExtractions_of_known hknown).mpr (.inr ⟨s, hs, hat.inside, hc⟩))
  · intro h undef memory c hc
    by_cases hknown : HeaderKnown dMsg
    · rcases (mem_constructExtractions_of_known hknown).mp hc with hc | ⟨s, hs, hin, hc⟩
      · exact headerExtractions_defined dMsg c hc
      · obtain ⟨offset, hat⟩ := exists_offset_of_head hs hin
        exact hat.extractions_defined_iff.mpr (h hknown offset hat.offset) c hc
    · exact headerExtractions_defined dMsg c (mem_headerExtractions_of_unknown hknown hc)

/-- A Gx answer whose only AVP is a result code of length 4. -/
def shortResultCode : List (BitVec 8) :=
  be 1 1 ++ be 3 28 ++ be 1 0x40 ++ be 3 272 ++ be 4 16777238 ++ be 4 7 ++ be 4 9 ++
    be 4 268 ++ be 1 0x40 ++ be 3 4

theorem operands_of_shortResultCode :
    let dMsg : Buffer := fun i => shortResultCode.getD i 0
    let c : Extraction := ⟨14, 0, -32⟩
    c ∈ staleRequest.constructExtractions (fun _ _ => 0) dMsg ∧
      c.operands dMsg = [.shift 8, .shift 48, .mask (-32)] ∧ ¬ OperandsDefined dMsg := by
  intro dMsg c
  have hcall : c ∈ staleRequest.constructExtractions (fun _ _ => 0) dMsg := by decide +kernel
  have hoperands : c.operands dMsg = [.shift 8, .shift 48, .mask (-32)] := by decide +kernel
  refine ⟨hcall, hoperands, fun h => ?_⟩
  have hmask := h (fun _ _ => 0) staleRequest c hcall (.mask (-32)) (by rw [hoperands]; simp)
  exact absurd hmask (by decide)

end AnalysePcap
