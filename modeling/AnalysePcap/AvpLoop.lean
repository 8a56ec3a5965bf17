import AnalysePcap.Decode
import AnalysePcap.WhileLoop

/-! The loop of the constructor of `Diameter` as a `while` loop. Its counters are an `int`
and an `unsigned` in turn, and the lengths that move them are those of the payload, of
which nothing is known. -/

namespace AnalysePcap

open WhileLoop

def AvpState.Inside (s : AvpState) : Prop := 0 < s.msgRemaining

instance : DecidablePred AvpState.Inside := fun s => inferInstanceAs (Decidable (0 < s.msgRemaining))

/-- The state in which the constructor enters the loop, as it computes it. -/
def loopEntry (undef : Undefined) (dMsg : Buffer) (memory : DiameterObject) : AvpState where
  resCode := memory.resCode
  reqType := memory.reqType
  resCodeAvp := false
  CCReqAvp := false
  msgRemaining := int32 (extractDword undef dMsg 0 8 24 - 20)
  avpStartWord := 10

/-- What holds of the counters at the head of the loop. -/
structure AvpHead (msgLength : Nat) (s : AvpState) : Prop where
  sum : 2 * (s.avpStartWord : Int) + s.msgRemaining = msgLength
  even : Even s.avpStartWord
  word_fits : s.avpStartWord < 2 ^ 31
  remaining_fits : -2 ^ 31 ≤ s.msgRemaining ∧ s.msgRemaining < 2 ^ 31

/-- A completed round on an AVP of this length, in exact arithmetic. -/
structure AvpStep (avpLength : Nat) (s s' : AvpState) : Prop where
  pos : 0 < avpSize avpLength
  four_dvd : 4 ∣ avpSize avpLength
  msgRemaining : s'.msgRemaining = s.msgRemaining - avpSize avpLength
  avpStartWord : s'.avpStartWord = s.avpStartWord + avpSize avpLength / 2

section Loop

variable {undef : Undefined} {dMsg : Buffer} {request : Int} {s s' : AvpState} {msgLength : Nat}

theorem avpLoop_eq_loop (fuel : Nat) (s : AvpState) :
    avpLoop undef dMsg request fuel s =
      loop AvpState.Inside (avpRound undef dMsg request) fuel s := by
  induction fuel generalizing s with
  | zero => rfl
  | succ fuel ih =>
    rw [avpLoop, loop]
    refine if_congr Iff.rfl ?_ rfl
    cases avpRound undef dMsg request s with
    | mk s' stop =>
      cases stop with
      | true => rfl
      | false => exact ih s'

/-- Only a good length is walked over. -/
theorem AvpHead.round (h : AvpHead msgLength s) (hL : msgLength < 2 ^ 24)
    (hround : Round AvpState.Inside (avpRound undef dMsg request) s s') :
    let avpLength := extractDword undef dMsg (s.avpStartWord + 2) 8 24
    0 < avpLength ∧ avpLength ≤ 5014 ∧ AvpStep avpLength s s' := by
  intro avpLength
  obtain ⟨hin, hnext⟩ := hround
  by_cases hgood : 0 < avpLength ∧ avpLength ≤ 5014
  -- a round that is left by a `break` is not completed
  · by_cases hstop : (s.found.record (avpAt undef dMsg s.avpStartWord avpLength)).Stops request
    · rw [avpRound_stop rfl hgood hstop] at hnext
      cases hnext
    · rw [avpRound_next rfl hgood h.sum (by omega) hin hstop] at hnext
      cases hnext
      exact ⟨hgood.1, hgood.2, hgood.1.trans_le (le_avpSize _), four_dvd_avpSize _, rfl, rfl⟩
  · rw [avpRound_of_bad hgood] at hnext
    cases hnext

theorem AvpHead.keep (h : AvpHead msgLength s) (hL : msgLength < 2 ^ 24)
    (hround : Round AvpState.Inside (avpRound undef dMsg request) s s') : AvpHead msgLength s' := by
  obtain ⟨hpos, hle, hstep⟩ := h.round hL hround
  have hin : 0 < s.msgRemaining := hround.1
  have hsum := h.sum
  have hsize := avpSize_lt (extractDword undef dMsg (s.avpStartWord + 2) 8 24)
  have hdvd := hstep.four_dvd
  have hrem := hstep.msgRemaining
  have hword := hstep.avpStartWord
  obtain ⟨w, hw⟩ := h.even
  exact ⟨by omega, by rw [Nat.even_iff]; omega, by omega, by omega, by omega⟩

theorem variant_avpRound (undef : Undefined) (dMsg : Buffer) (request : Int)
    (hL : msgLength < 2 ^ 24) :
    Variant AvpState.Inside (avpRound undef dMsg request) (AvpHead msgLength)
      fun s => s.msgRemaining.toNat where
  pos {s} _ hin := by
    have hpos : 0 < s.msgRemaining := hin
    omega
  keep h hround := h.keep hL hround
  decrease {s s'} h hround := by
    obtain ⟨-, -, hstep⟩ := h.round hL hround
    have hpos := hstep.pos
    have hrem := hstep.msgRemaining
    have hin : 0 < s.msgRemaining := hround.1
    omega

end Loop

section Entry

variable (undef : Undefined) (dMsg : Buffer) (memory : DiameterObject)

theorem loopEntry_msgRemaining :
    (loopEntry undef dMsg memory).msgRemaining = extractDword undef dMsg 0 8 24 - 20 := by
  have hlt := extractDword_24_lt undef dMsg 0
  exact int32_eq_self (by omega) (by omega)

theorem avpHead_loopEntry :
    AvpHead (extractDword undef dMsg 0 8 24) (loopEntry undef dMsg memory) := by
  have hlt := extractDword_24_lt undef dMsg 0
  have hrem := loopEntry_msgRemaining undef dMsg memory
  have hword : (loopEntry undef dMsg memory).avpStartWord = 10 := rfl
  exact ⟨by omega, hword ▸ by decide, by omega, by omega, by omega⟩

/-- The constructor keeps what the loop leaves behind. -/
theorem construct_of_loop (h : Accepts undef dMsg) :
    let left := avpLoop undef dMsg memory.request (loopEntry undef dMsg memory).msgRemaining.toNat
      (loopEntry undef dMsg memory)
    (memory.construct undef dMsg).resCode = left.resCode ∧
      (memory.construct undef dMsg).reqType = left.reqType := by
  have hcc := h.command
  simp only [DiameterObject.construct, if_neg h.1, if_neg hcc, loopEntry, and_self]

end Entry

/-- Whatever the payload and the memory of the object hold, the loop is left. Each of its
rounds that is completed takes a positive multiple of 4 off what remains, and both counters
are what they would be without a limit on their size. -/
theorem avpLoop_exits (undef : Undefined) (dMsg : Buffer) (memory : DiameterObject) :
    let entry := loopEntry undef dMsg memory
    let left := avpLoop undef dMsg memory.request entry.msgRemaining.toNat entry
    (∀ s, Head AvpState.Inside (avpRound undef dMsg memory.request) entry s →
      AvpHead (extractDword undef dMsg 0 8 24) s ∧
      ∀ s', Round AvpState.Inside (avpRound undef dMsg memory.request) s s' →
        AvpStep (extractDword undef dMsg (s.avpStartWord + 2) 8 24) s s') ∧
    Exits AvpState.Inside (avpRound undef dMsg memory.request) entry left ∧
    (Accepts undef dMsg → (memory.construct undef dMsg).resCode = left.resCode ∧
      (memory.construct undef dMsg).reqType = left.reqType) := by
  intro entry left
  have hL := extractDword_24_lt undef dMsg 0
  have hvariant := variant_avpRound undef dMsg memory.request hL
  have hentry := avpHead_loopEntry undef dMsg memory
  refine ⟨?_, ?_, construct_of_loop undef dMsg memory⟩
  · intro s hs
    have hhead := hvariant.head hentry hs
    exact ⟨hhead, fun s' hround => (hhead.round hL hround).2.2⟩
  · have hexits := hvariant.exits_loop hentry (le_refl entry.msgRemaining.toNat)
    rwa [← avpLoop_eq_loop] at hexits

end AnalysePcap
