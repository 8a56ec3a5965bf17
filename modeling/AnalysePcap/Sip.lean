import AnalysePcap.BitField
import AnalysePcap.CString
import AnalysePcap.CounterMap
import AnalysePcap.Run

/-! `sip`: response codes are cut out of the payload and counted in one map for the whole
program, and a report sets the counters to zero. What is cut out is treated as a C string,
which a NUL in the payload ends early. -/

namespace AnalysePcap

open Machine CString CounterMap

structure Sip where
  resPktsMap : AList fun _ : Int => Int
  m_totPkts : Nat

namespace Sip

def initial : Sip := ⟨∅, 0⟩

def isInteger : List (BitVec 8) → Bool
  | [] => true
  | c :: num => if c = 0 then true else if isdigit c = false then false else isInteger num

/-- The four bytes that are set to zero before three bytes of the payload are copied. -/
def copied (sipBuf : Buffer) (offset : Nat) : List (BitVec 8) := bytesAt sipBuf offset 3 ++ [0]

def SIP : List (BitVec 8) := [0x53, 0x49, 0x50, 0]

def processPkt (s : Sip) (sipBuf : Buffer) : Sip :=
  let buf := copied sipBuf 0
  let s := { s with m_totPkts := s.m_totPkts + 1 }
  if string buf = string SIP then
    let responseCode := copied sipBuf 8
    if isInteger responseCode = true then
      let resCode := atoi responseCode
      match s.resPktsMap.lookup resCode with
      | some n => { s with resPktsMap := s.resPktsMap.insert resCode (int32 (n + 1)) }
      | none => { s with resPktsMap := s.resPktsMap.insert resCode 1 }
    else s
  else s

def responseName (code : Int) : Text :=
  if 99 < code ∧ code < 200 then "Provisional-SipResponses".toList
  else if 199 < code ∧ code < 300 then "Successful-SipResponses".toList
  else if 299 < code ∧ code < 400 then "Redirection-SipResponses".toList
  else if 399 < code ∧ code < 500 then "ClientFailure-SipResponses".toList
  else if 499 < code ∧ code < 600 then "ServerFailure-SipResponses".toList
  else if 599 < code ∧ code < 700 then "GlobalFailure-SipResponses".toList
  else "Unknown".toList

def reportLine (splunk : Text) (code count : Int) : Text :=
  splunk ++ " SipCodeString=".toList ++ responseName code ++ " ResponseCode=".toList ++
    (toString code).toList ++ " Error_pckt_count=".toList ++ (toString count).toList

def cleanStats (s : Sip) : Sip := ⟨clear s.resPktsMap, 0⟩

/-- The lines are printed in the order of the codes, without those that count nothing. -/
def printStats (s : Sip) (splunk : Text) : Sip × List Text :=
  let entries := s.resPktsMap.entries.mergeSort fun e e' => decide (e.1 ≤ e'.1)
  (s.cleanStats, (entries.filter fun e => decide (e.2 ≠ 0)).map fun e => reportLine splunk e.1 e.2)

inductive Call where
  | processPkt (sipBuf : Buffer)
  | printStats (splunk : Text)

def next (s : Sip) : Call → Sip
  | .processPkt sipBuf => s.processPkt sipBuf
  | .printStats splunk => (s.printStats splunk).1

section Specification

variable (sipBuf : Buffer)

def StartsWithSIP : Prop := sipBuf 0 = 0x53 ∧ sipBuf 1 = 0x49 ∧ sipBuf 2 = 0x50

instance : Decidable (StartsWithSIP sipBuf) := inferInstanceAs (Decidable (_ ∧ _))

/-- The code of a payload that is a response. -/
def response? : Option Int :=
  if StartsWithSIP sipBuf ∧ isdigit (sipBuf 8) = true ∧ isdigit (sipBuf 9) = true ∧
      isdigit (sipBuf 10) = true then
    some (digitsValue [sipBuf 8, sipBuf 9, sipBuf 10])
  else none

/-- A NUL stands where a digit of the code should be, with nothing but digits before it. -/
def CutShort : Prop :=
  StartsWithSIP sipBuf ∧
    (sipBuf 8 = 0 ∨ isdigit (sipBuf 8) = true ∧
      (sipBuf 9 = 0 ∨ isdigit (sipBuf 9) = true ∧ sipBuf 10 = 0))

end Specification

def sinceReport (calls : List Call) : List Buffer :=
  calls.foldl (fun payloads c =>
    match c with
    | .processPkt sipBuf => payloads ++ [sipBuf]
    | .printStats _ => []) []

structure Correct (calls : List Call) (s : Sip) : Prop where
  count : ∀ code, count s.resPktsMap code =
    (sinceReport calls).countP fun sipBuf => decide (response? sipBuf = some code)
  total : total s.resPktsMap ≤ s.m_totPkts

def CorrectThroughout (calls : List Call) : Prop :=
  ∀ before after, calls = before ++ after → Correct before (run next initial before)

/-- The payload is not cut short, and the counter of its code is not at the end of `int`. -/
def Regular (s : Sip) : Call → Prop
  | .processPkt sipBuf =>
    ¬ CutShort sipBuf ∧ ∀ code, response? sipBuf = some code →
      CounterMap.count s.resPktsMap code < 2 ^ 31 - 1
  | .printStats _ => True

section Code

variable {sipBuf : Buffer}

theorem isInteger_eq (num : List (BitVec 8)) : isInteger num = (string num).all isdigit := by
  induction num with
  | nil => rfl
  | cons c num ih =>
    rw [isInteger, string_cons]
    split_ifs with hnul hdigit
    · rfl
    · rw [List.all_cons, hdigit, Bool.false_and]
    · rw [List.all_cons, Bool.eq_true_of_not_eq_false hdigit, Bool.true_and, ih]

theorem string_copied (sipBuf : Buffer) (offset : Nat) :
    string (copied sipBuf offset) =
      if sipBuf offset = 0 then []
      else sipBuf offset :: if sipBuf (offset + 1) = 0 then []
        else sipBuf (offset + 1) :: if sipBuf (offset + 2) = 0 then []
          else [sipBuf (offset + 2)] := by
  have hbytes : copied sipBuf offset =
      [sipBuf offset, sipBuf (offset + 1), sipBuf (offset + 2), 0] := rfl
  rw [hbytes, string_cons, string_cons, string_cons]
  rfl

theorem string_copied_eq_SIP : string (copied sipBuf 0) = string SIP ↔ StartsWithSIP sipBuf := by
  have hSIP : string SIP = [0x53, 0x49, 0x50] := by decide
  rw [hSIP, string_copied]
  constructor
  · intro h
    split_ifs at h
    · exact absurd (congrArg List.length h) (by simp)
    · exact absurd (congrArg List.length h) (by simp)
    · injection h with h0 h
      injection h with h1 h
      injection h with h2
      exact ⟨h0, h1, h2⟩
  · rintro ⟨h0, h1, h2⟩
    rw [h0, Nat.zero_add, h1, Nat.zero_add, h2]
    decide

/-- The code that a payload is counted under. -/
def counted (sipBuf : Buffer) : Option Int :=
  if StartsWithSIP sipBuf ∧ isInteger (copied sipBuf 8) = true then
    some (atoi (copied sipBuf 8))
  else none

theorem counted_eq (sipBuf : Buffer) :
    counted sipBuf =
      if StartsWithSIP sipBuf ∧ (string (copied sipBuf 8)).all isdigit = true then
        some ((digitsValue (string (copied sipBuf 8)) : Nat) : Int)
      else none := by
  rw [counted, isInteger_eq]
  split_ifs with h
  · rw [atoi_of_digits (List.all_eq_true.mp h.2)]
  · rfl

theorem counted_of_cutShort (h : CutShort sipBuf) :
    response? sipBuf = none ∧ ∃ code, counted sipBuf = some code := by
  obtain ⟨hSIP, hnul⟩ := h
  have hzero : isdigit 0 = false := by decide
  constructor
  · refine if_neg ?_
    rintro ⟨-, h8, h9, h10⟩
    rcases hnul with hnul | ⟨-, hnul | ⟨-, hnul⟩⟩
    · rw [hnul, hzero] at h8
      cases h8
    · rw [hnul, hzero] at h9
      cases h9
    · rw [hnul, hzero] at h10
      cases h10
  · refine ⟨_, (counted_eq sipBuf).trans (if_pos ⟨hSIP, ?_⟩)⟩
    rw [string_copied]
    rcases hnul with hnul | ⟨h8, hnul | ⟨h9, hnul⟩⟩
    · simp [hnul]
    · split_ifs <;> simp [h8]
    · split_ifs <;> simp [h8, h9]

theorem counted_of_not_cutShort (h : ¬ CutShort sipBuf) : counted sipBuf = response? sipBuf := by
  rw [counted_eq]
  unfold response?
  by_cases hSIP : StartsWithSIP sipBuf
  · have h8 : sipBuf 8 ≠ 0 := fun hnul => h ⟨hSIP, .inl hnul⟩
    have h9 (d8 : isdigit (sipBuf 8) = true) : sipBuf 9 ≠ 0 :=
      fun hnul => h ⟨hSIP, .inr ⟨d8, .inl hnul⟩⟩
    have h10 (d8 : isdigit (sipBuf 8) = true) (d9 : isdigit (sipBuf 9) = true) : sipBuf 10 ≠ 0 :=
      fun hnul => h ⟨hSIP, .inr ⟨d8, .inr ⟨d9, hnul⟩⟩⟩
    simp only [hSIP, true_and, string_copied, if_neg h8, List.all_cons]
    cases d8 : isdigit (sipBuf 8) with
    | false => simp
    | true =>
      simp only [if_neg (h9 d8), List.all_cons]
      cases d9 : isdigit (sipBuf 9) with
      | false => simp
      | true =>
        simp only [if_neg (h10 d8 d9), List.all_cons]
        cases isdigit (sipBuf 10) <;> simp
  · simp only [hSIP, false_and, if_false]

theorem processPkt_eq (s : Sip) (sipBuf : Buffer) :
    s.processPkt sipBuf =
      { resPktsMap :=
          match counted sipBuf with
          | some code =>
            s.resPktsMap.insert code (int32 (CounterMap.count s.resPktsMap code + 1))
          | none => s.resPktsMap
        m_totPkts := s.m_totPkts + 1 } := by
  unfold processPkt counted
  by_cases hSIP : StartsWithSIP sipBuf
  · cases hint : isInteger (copied sipBuf 8) with
    | true =>
      simp only [string_copied_eq_SIP, hSIP, hint, and_self, if_true]
      cases hlookup : s.resPktsMap.lookup (atoi (copied sipBuf 8)) with
      | some n => simp only [CounterMap.count, hlookup, Option.getD_some]
      | none =>
        have hone : int32 ((none : Option Int).getD 0 + 1) = 1 := int32_eq_self (by decide) (by decide)
        simp only [CounterMap.count, hlookup, hone]
    | false =>
      simp only [string_copied_eq_SIP, hSIP, hint, Bool.false_eq_true, and_false, if_true, if_false]
  · simp only [string_copied_eq_SIP, hSIP, false_and, if_false]

end Code

section Runs

variable {calls : List Call} {s : Sip}

theorem int32_ne_pred (n : Int) : int32 (n + 1) ≠ n := by
  intro h
  have hmod : int32 (n + 1) % (2 ^ 32 : Nat) = (n + 1) % (2 ^ 32 : Nat) := by
    unfold int32
    exact Int.bmod_emod
  rw [h] at hmod
  omega

theorem lt_of_int32_eq_self {n : Int} (h : int32 n = n) : n < 2 ^ 31 := by
  have hlt : int32 n < ((2 ^ 32 : Nat) + 1) / 2 := by
    unfold int32
    exact Int.bmod_lt (by norm_num)
  rw [h] at hlt
  omega

theorem sinceReport_processPkt (calls : List Call) (sipBuf : Buffer) :
    sinceReport (calls ++ [.processPkt sipBuf]) = sinceReport calls ++ [sipBuf] := by
  simp [sinceReport]

theorem sinceReport_printStats (calls : List Call) (splunk : Text) :
    sinceReport (calls ++ [.printStats splunk]) = [] := by
  simp [sinceReport]

theorem correct_initial : Correct [] initial where
  count _ := rfl
  total := le_refl _

theorem correct_printStats (calls : List Call) (s : Sip) (splunk : Text) :
    Correct (calls ++ [.printStats splunk]) (s.printStats splunk).1 where
  count code := by
    rw [sinceReport_printStats]
    exact count_clear s.resPktsMap code
  total := (total_clear s.resPktsMap).le

/-- A payload that is no response and not cut short leaves the counters alone. -/
theorem Correct.processPkt_other (h : Correct calls s) {sipBuf : Buffer}
    (hcounted : counted sipBuf = none) (hresponse : response? sipBuf = none) :
    Correct (calls ++ [.processPkt sipBuf]) (s.processPkt sipBuf) := by
  rw [processPkt_eq, hcounted]
  constructor
  · intro code
    rw [sinceReport_processPkt, List.countP_append, h.count]
    simp [hresponse]
  · have htotal := h.total
    push_cast
    omega

theorem count_processPkt {sipBuf : Buffer} {code : Int} (hcounted : counted sipBuf = some code)
    (code' : Int) :
    CounterMap.count (s.processPkt sipBuf).resPktsMap code' =
      if code' = code then int32 (CounterMap.count s.resPktsMap code + 1)
      else CounterMap.count s.resPktsMap code' := by
  rw [processPkt_eq, hcounted]
  exact count_insert s.resPktsMap code code' _

theorem Correct.processPkt_response (h : Correct calls s) {sipBuf : Buffer} {code : Int}
    (hcounted : counted sipBuf = some code) (hresponse : response? sipBuf = some code) :
    Correct (calls ++ [.processPkt sipBuf]) (s.processPkt sipBuf) ↔
      CounterMap.count s.resPktsMap code < 2 ^ 31 - 1 := by
  have hcount := h.count code
  have hone (code' : Int) : [sipBuf].countP (fun b => decide (response? b = some code')) =
      if code' = code then 1 else 0 := by
    simp [hresponse, eq_comm]
  constructor
  · intro h'
    have hself := h'.count code
    rw [count_processPkt hcounted, if_pos rfl, sinceReport_processPkt, List.countP_append, hone,
      if_pos rfl, Nat.cast_add, ← hcount] at hself
    have hlt := lt_of_int32_eq_self hself
    omega
  · intro hlt
    have hfits : int32 (CounterMap.count s.resPktsMap code + 1) =
        CounterMap.count s.resPktsMap code + 1 := int32_eq_self (by omega) (by omega)
    constructor
    · intro code'
      rw [count_processPkt hcounted, hfits, sinceReport_processPkt, List.countP_append, hone]
      split_ifs with hcode
      · rw [hcode, hcount, Nat.cast_add, Nat.cast_one]
      · rw [h.count, Nat.add_zero]
    · have htotal := h.total
      have hinsert := total_insert s.resPktsMap code
        (int32 (CounterMap.count s.resPktsMap code + 1))
      rw [processPkt_eq, hcounted]
      dsimp only
      rw [hfits] at hinsert ⊢
      push_cast
      omega

theorem Correct.next_iff (h : Correct calls s) (c : Call) :
    Correct (calls ++ [c]) (s.next c) ↔ Regular s c := by
  cases c with
  | printStats splunk => exact iff_of_true (correct_printStats calls s splunk) trivial
  | processPkt sipBuf =>
    by_cases hcut : CutShort sipBuf
    -- a payload that is cut short moves a counter that should stay
    · obtain ⟨hresponse, code, hcounted⟩ := counted_of_cutShort hcut
      refine iff_of_false ?_ fun hreg => hreg.1 hcut
      intro h'
      have hself := h'.count code
      rw [next, count_processPkt hcounted, if_pos rfl, sinceReport_processPkt, List.countP_append] at hself
      simp only [hresponse, List.countP_singleton, reduceCtorEq, decide_false, Bool.false_eq_true,
        if_false, Nat.add_zero, ← h.count] at hself
      exact int32_ne_pred _ hself
    · have hcounted := counted_of_not_cutShort hcut
      cases hresponse : response? sipBuf with
      | none =>
        refine iff_of_true (h.processPkt_other (hcounted.trans hresponse) hresponse) ⟨hcut, ?_⟩
        intro code hcode
        rw [hresponse] at hcode
        cases hcode
      | some code =>
        refine (h.processPkt_response (hcounted.trans hresponse) hresponse).trans ⟨?_, ?_⟩
        · intro hlt
          refine ⟨hcut, fun code' hcode => ?_⟩
          rw [hresponse] at hcode
          cases hcode
          exact hlt
        · intro hreg
          exact hreg.2 code hresponse

end Runs

/-- The counters are right at every point of a run exactly when no payload of it is cut short
and no counter has reached the end of `int` when it is to be increased. -/
theorem correctThroughout_iff (calls : List Call) :
    CorrectThroughout calls ↔ Along next Regular initial calls := by
  constructor
  · intro h
    rw [along_iff_split]
    rintro before c after rfl
    have hbefore := h before (c :: after) rfl
    have hafter := h (before ++ [c]) after (by simp)
    rw [run_concat] at hafter
    exact (hbefore.next_iff c).mp hafter
  · rintro h before after rfl
    exact run_history correct_initial (fun pre c hpre hreg => (hpre.next_iff c).mpr hreg)
      (along_append.mp h).1

/-- A response line that ends before its code. -/
def cutPayload : Buffer := fun i => [0x53, 0x49, 0x50, 0x2F, 0x32, 0x2E, 0x30, 0x20].getD i 0

theorem cutPayload_counted :
    let s := run next initial [.processPkt cutPayload]
    response? cutPayload = none ∧ CounterMap.count s.resPktsMap 0 = 1 ∧
      ¬ CorrectThroughout [.processPkt cutPayload] := by
  intro s
  have hresponse : response? cutPayload = none := by decide
  have hcount : CounterMap.count s.resPktsMap 0 = 1 := by decide +kernel
  refine ⟨hresponse, hcount, fun h => ?_⟩
  have hself := (h [.processPkt cutPayload] [] rfl).count 0
  have hnone : (sinceReport [.processPkt cutPayload]).countP
      (fun b => decide (response? b = some 0)) = 0 := by
    simp [sinceReport, hresponse]
  rw [hnone] at hself
  exact absurd (hcount.symm.trans hself) (by decide)

end Sip

end AnalysePcap
