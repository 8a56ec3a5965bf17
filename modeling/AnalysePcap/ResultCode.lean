import AnalysePcap.PairCount
import AnalysePcap.StaleMemory

/-! A Result-Code from its bytes to the counter. The constructor keeps the unsigned value
in an `int`, and `addPkt` compares that. -/

namespace AnalysePcap

open DiameterInterface

/-- The codes that are meant to count as a success. -/
def Successful (r : Int) : Prop := r < 3000 ∨ r = 70001

instance (r : Int) : Decidable (Successful r) := inferInstanceAs (Decidable (_ ∨ _))

theorem successful_int32_iff {r : Nat} (hr : r < 2 ^ 32) :
    (Successful (int32 r) ↔ Successful r) ↔ r < 2 ^ 31 := by
  by_cases hlow : r < 2 ^ 31
  · have hself : int32 r = r := int32_eq_self (by omega) (by exact_mod_cast hlow)
    rw [hself]
    exact iff_of_true Iff.rfl hlow
  · -- read as signed, the code is negative
    have hneg : int32 r < 0 := by
      have hmod : int32 r = (r : Int) - 2 ^ 32 := by
        unfold int32
        rw [Int.bmod_def]
        split_ifs <;> push_cast at * <;> omega
      rw [hmod]
      omega
    have hcounted : Successful (int32 r) := .inl (by omega)
    have hfails : ¬ Successful r := by
      unfold Successful
      omega
    exact iff_of_false (fun h => hfails (h.mp hcounted)) hlow

section Counting

variable {K : InterfaceKind}

def CountedAsSuccess (s : DiameterInterface K) (pkt : Diameter) (k : Nat) : Prop :=
  (s.addPkt pkt).1.stats.succCount = addAt s.stats.succCount (K.index k) 1 ∧
    (s.addPkt pkt).1.stats.failCount = s.stats.failCount

def CountedAsFailure (s : DiameterInterface K) (pkt : Diameter) (k : Nat) : Prop :=
  (s.addPkt pkt).1.stats.failCount = addAt s.stats.failCount (K.index k) 1 ∧
    (s.addPkt pkt).1.stats.succCount = s.stats.succCount

theorem addAt_ne_self {k : Nat} (hk : K.IsType k) (a : Fin K.size → Nat) :
    addAt a (K.index k) 1 ≠ a := by
  intro h
  have hat := congrFun h ⟨K.index k, InterfaceKind.index_lt hk⟩
  simp [addAt] at hat

variable {s : DiameterInterface K} {pkt : Diameter} {k h : Nat} {ts : ℚ}

theorem stats_of_matched (ho : outcome s pkt = .matched k h ts) :
    (s.addPkt pkt).1.stats =
      s.stats.answered (K.index k) (pkt.timeStamp - ts) pkt.resCode := by
  rw [addPkt_fst, ho]
  rfl

theorem countedAsSuccess_iff (ho : outcome s pkt = .matched k h ts) :
    CountedAsSuccess s pkt k ↔ Successful pkt.resCode := by
  have hk : K.IsType k := InterfaceKind.isType_of_msgKey (outcome_matched ho).1.1
  have hsucc : pkt.succeeded = true ↔ Successful pkt.resCode := decide_eq_true_iff
  unfold CountedAsSuccess
  rw [stats_of_matched ho, Stats.answered_succCount, Stats.answered_failCount, ← hsucc]
  by_cases hs : pkt.succeeded = true
  · simp [hs]
  · simp [hs, (addAt_ne_self hk _).symm]

theorem countedAsFailure_iff (ho : outcome s pkt = .matched k h ts) :
    CountedAsFailure s pkt k ↔ ¬ Successful pkt.resCode := by
  have hk : K.IsType k := InterfaceKind.isType_of_msgKey (outcome_matched ho).1.1
  have hsucc : pkt.succeeded = true ↔ Successful pkt.resCode := decide_eq_true_iff
  unfold CountedAsFailure
  rw [stats_of_matched ho, Stats.answered_succCount, Stats.answered_failCount, ← hsucc]
  by_cases hs : pkt.succeeded = true
  · simp [hs, (addAt_ne_self hk _).symm]
  · simp [hs]

end Counting

theorem exists_split_of_unordered {m : Message} (hwf : m.WellFormed) (hord : ¬ m.Ordered) :
    ∃ pre avp post, m.avps = pre ++ avp :: post ∧ avp.code.toNat = 416 ∧
      (∀ a ∈ pre, a.code.toNat ≠ 416) ∧ ∀ a ∈ pre, a.code.toNat ≠ 268 := by
  have hexists : ∃ avp ∈ m.avps, avp.code.toNat = 416 := by
    by_contra hnone
    push Not at hnone
    exact hord (List.pairwise_of_forall_mem_list fun x hx y _ hc => hnone x hx hc.1)
  obtain ⟨avp, havp, hcode⟩ := hexists
  obtain ⟨pre, post, hsplit, hpre, hpost⟩ :=
    exists_split_of_countP hwf.requestType_once havp (by simpa using hcode)
  simp only [decide_eq_true_eq] at hpre hpost
  refine ⟨pre, avp, post, hsplit, hcode, hpre, ?_⟩
  -- a Result-Code before it would be the only one, and the message would be ordered
  intro a ha hres
  refine hord ?_
  have hlater : ∀ b ∈ post, b.code.toNat ≠ 268 := by
    have honce := hwf.resultCode_once
    have hfirst : 0 < pre.countP fun avp => avp.code.toNat = 268 :=
      List.countP_pos_iff.mpr ⟨a, ha, by simpa using hres⟩
    rw [hsplit, List.countP_append, List.countP_cons] at honce
    have hzero : (post.countP fun avp => avp.code.toNat = 268) = 0 := by omega
    simpa using List.countP_eq_zero.mp hzero
  rw [Message.Ordered, hsplit, List.pairwise_append, List.pairwise_cons]
  refine ⟨?_, ⟨?_, ?_⟩, ?_⟩
  · exact List.pairwise_of_forall_mem_list fun x hx y _ hc => hpre x hx hc.1
  · exact fun b hb hc => hlater b hb hc.2
  · exact List.pairwise_of_forall_mem_list fun x hx y _ hc => hpost x hx hc.1
  · exact fun x hx y _ hc => hpre x hx hc.1

/-- A loop that believes it reads a request stops at a CC-Request-Type before the
Result-Code, and the field keeps what was in the memory. -/
theorem scan_resCode_of_unordered {m : Message} (hwf : m.WellFormed) (hord : ¬ m.Ordered)
    {f : Found} (hreq : f.CCReqAvp = false) :
    (scan 1 (m.avps.map EncodedAvp.kind) f).resCode = f.resCode := by
  obtain ⟨pre, avp, post, hsplit, hcode, hpre, hres⟩ := exists_split_of_unordered hwf hord
  have hkind : avp.kind = .requestType (beNat avp.data) := by
    rw [EncodedAvp.kind, if_neg (by omega), if_pos hcode]
  have hfirst : ∀ a ∈ pre.map EncodedAvp.kind, ¬ a.IsRequestType := by
    simpa only [List.forall_mem_map, EncodedAvp.kind_isRequestType] using hpre
  have hnone : ∀ a ∈ pre.map EncodedAvp.kind, ¬ a.IsResultCode := by
    simpa only [List.forall_mem_map, EncodedAvp.kind_isResultCode] using hres
  have hlast : lastResultCode (pre.map EncodedAvp.kind) = none := by
    rw [lastResultCode, List.getLast?_eq_none_iff, List.filterMap_eq_nil_iff]
    intro a ha
    cases a with
    | resultCode value => exact absurd ⟨value, rfl⟩ (hnone _ ha)
    | requestType value => rfl
    | other => rfl
  rw [hsplit, List.map_append, List.map_cons, hkind, scan_stopped hfirst hreq (.inl rfl),
    Found.record_requestType]
  exact foldl_resCode_of_none hlast

/-- The packet that the constructor makes of a payload. -/
def DiameterObject.packetOf (memory : DiameterObject) (undef : Undefined) (dMsg : Buffer)
    (timeStamp : ℚ) : Diameter :=
  (memory.construct undef dMsg).packet timeStamp

/-- The answer is counted as its Result-Code asks for. -/
def CountedByCode {K : InterfaceKind} (s : DiameterInterface K) (pkt : Diameter) (k r : Nat) :
    Prop :=
  (CountedAsSuccess s pkt k ↔ r < 3000 ∨ r = 70001) ∧
    (CountedAsFailure s pkt k ↔ ¬ (r < 3000 ∨ r = 70001))

theorem packetOf_resCode {m : Message} (hwf : m.WellFormed) {avp : EncodedAvp}
    (havp : avp ∈ m.avps) (hcode : avp.code.toNat = 268) {dMsg : Buffer}
    (hmsg : Holds dMsg 0 m.bytes) (undef : Undefined) (memory : DiameterObject) (timeStamp : ℚ) :
    ((memory.request ≠ 1 ∨ m.Ordered) →
      (memory.packetOf undef dMsg timeStamp).resCode = int32 (beNat avp.data)) ∧
    (memory.request = 1 ∧ ¬ m.Ordered →
      (memory.packetOf undef dMsg timeStamp).resCode = memory.resCode) := by
  constructor
  · intro hstale
    obtain ⟨-, -, -, -, -, -, hres, -⟩ := construct_of_message hwf hmsg undef hstale
    exact hres avp havp hcode
  · rintro ⟨hone, hord⟩
    have hhead := Message.header_of_holds hmsg undef
    show (memory.construct undef dMsg).resCode = memory.resCode
    rw [construct_of_accepts memory hhead.accepts, Message.messageAvps hhead hwf.avps, hone]
    exact scan_resCode_of_unordered hwf hord rfl

theorem countedByCode_iff {m : Message} (hwf : m.WellFormed) {avp : EncodedAvp}
    (havp : avp ∈ m.avps) (hcode : avp.code.toNat = 268) {dMsg : Buffer}
    (hmsg : Holds dMsg 0 m.bytes) (undef : Undefined) (memory : DiameterObject) {timeStamp : ℚ}
    {K : InterfaceKind} {s : DiameterInterface K} {k h : Nat} {ts : ℚ}
    (ho : outcome s (memory.packetOf undef dMsg timeStamp) = .matched k h ts) :
    CountedByCode s (memory.packetOf undef dMsg timeStamp) k (beNat avp.data) ↔
      (memory.request ≠ 1 ∨ m.Ordered) ∧ beNat avp.data < 2 ^ 31 ∨
      (memory.request = 1 ∧ ¬ m.Ordered) ∧
        (Successful memory.resCode ↔ Successful (beNat avp.data)) := by
  have hlt : beNat avp.data < 2 ^ 32 := by
    have hbytes := beNat_lt avp.data
    rw [hwf.avps avp havp (.inl hcode)] at hbytes
    exact hbytes.trans_le (by norm_num)
  have hmeant : Successful (beNat avp.data) ↔ beNat avp.data < 3000 ∨ beNat avp.data = 70001 := by
    unfold Successful
    omega
  obtain ⟨hread, hkept⟩ := packetOf_resCode hwf havp hcode hmsg undef memory timeStamp
  have hcounted : CountedByCode s (memory.packetOf undef dMsg timeStamp) k (beNat avp.data) ↔
      (Successful (memory.packetOf undef dMsg timeStamp).resCode ↔ Successful (beNat avp.data)) := by
    rw [CountedByCode, countedAsSuccess_iff ho, countedAsFailure_iff ho, ← hmeant]
    exact ⟨fun h => h.1, fun h => ⟨h, not_congr h⟩⟩
  rw [hcounted]
  by_cases hstale : memory.request ≠ 1 ∨ m.Ordered
  · have hnot : ¬ (memory.request = 1 ∧ ¬ m.Ordered) :=
      fun hc => hstale.elim (fun h => h hc.1) hc.2
    rw [hread hstale, successful_int32_iff hlt]
    exact ⟨fun hlow => .inl ⟨hstale, hlow⟩, fun h => h.elim (·.2) fun h => absurd h.1 hnot⟩
  · have hkeeps : memory.request = 1 ∧ ¬ m.Ordered :=
      ⟨of_not_not fun h => hstale (.inl h), fun h => hstale (.inr h)⟩
    rw [hkept hkeeps]
    exact ⟨fun h => .inr ⟨hkeeps, h⟩, fun h => h.elim (fun h => absurd h.1 hstale) (·.2)⟩

theorem countedByCode_iff_2001 :
    let m := gxAnswerMessage [resultCodeAvp, requestTypeAvp] (by decide)
    let pkt := staleRequest.packetOf (fun _ _ => 0) m.buffer 26
    let s := ((initial : GxInterface).addPkt (gxRequest 7 25)).1
    m.WellFormed ∧ m.Ordered ∧ outcome s pkt = .matched 1 7 25 ∧ CountedByCode s pkt 1 2001 := by
  intro m pkt s
  have hwf : m.WellFormed :=
    ⟨by simp [m, gxAnswerMessage, resultCodeAvp, requestTypeAvp, EncodedAvp.WellFormed],
      by decide, by decide⟩
  have hord : m.Ordered := by
    simp [Message.Ordered, m, gxAnswerMessage, resultCodeAvp, requestTypeAvp]
  have ho : outcome s pkt = .matched 1 7 25 := by decide +kernel
  have hcode : beNat resultCodeAvp.data = 2001 := by decide
  refine ⟨hwf, hord, ho, ?_⟩
  rw [← hcode]
  refine (countedByCode_iff hwf (by simp [m, gxAnswerMessage]) (by decide) m.holds_buffer
    (fun _ _ => 0) staleRequest ho).mpr (.inl ⟨.inr hord, ?_⟩)
  rw [hcode]
  norm_num

/-- The Result-Code 4294967295 is kept as -1. -/
theorem largest_code_counted_as_success :
    let m := gxAnswerMessage [{ resultCodeAvp with data := be 4 4294967295 }, requestTypeAvp]
      (by decide)
    let pkt := staleRequest.packetOf (fun _ _ => 0) m.buffer 26
    let s := ((initial : GxInterface).addPkt (gxRequest 7 25)).1
    outcome s pkt = .matched 1 7 25 ∧ CountedAsSuccess s pkt 1 ∧
      ¬ CountedByCode s pkt 1 4294967295 := by
  intro m pkt s
  have ho : outcome s pkt = .matched 1 7 25 := by decide +kernel
  have hres : pkt.resCode = -1 := by decide +kernel
  have hcounted : CountedAsSuccess s pkt 1 := by
    rw [countedAsSuccess_iff ho, hres]
    decide
  refine ⟨ho, hcounted, fun h => ?_⟩
  exact absurd (h.1.mp hcounted) (by decide)

end AnalysePcap
