import AnalysePcap.Balance

/-! Where the entries of the table of pending requests come from. Looking up an
answer creates a zero entry for it when there is none, and the next sweep counts
that entry as a request that timed out. -/

namespace AnalysePcap

open DiameterInterface

variable {K : InterfaceKind}

/-- Whatever is in the table after a call was there before it, or a request
stored it, or it is the zero entry of an answer for which there was none. -/
theorem get?_exec {s : DiameterInterface K} {c : Call} {k h : Nat} {ts : ℚ}
    (hget : (exec s c).req.get? k h = some ts) :
    (s.req.get? k h = some ts ∧ ∀ pkt, c = .addPkt pkt → ¬ IsRequest K pkt k h) ∨
    (∃ pkt, c = .addPkt pkt ∧ IsRequest K pkt k h ∧ pkt.timeStamp = ts) ∨
    (ts = 0 ∧ s.req.get? k h = none ∧ ∃ pkt, c = .addPkt pkt ∧ IsAnswer K pkt k h) := by
  cases c with
  | checkTime newTime => exact .inl ⟨hget, by simp⟩
  | clearStats => exact .inl ⟨hget, by simp⟩
  | printStats node =>
    refine .inl ⟨?_, by simp⟩
    change (NestedTable.sweep _ _ s.req s.stats).1.get? k h = some ts at hget
    rw [NestedTable.get?_sweep, Option.filter_eq_some_iff] at hget
    exact hget.1
  | addPkt pkt =>
    have hstay (hg : s.req.get? k h = some ts) (hr : ¬ IsRequest K pkt k h) :
        s.req.get? k h = some ts ∧ ∀ pkt', Call.addPkt pkt = .addPkt pkt' →
          ¬ IsRequest K pkt' k h :=
      ⟨hg, fun _ he => Call.addPkt.inj he ▸ hr⟩
    have hnot (hne : outcome s pkt ≠ .stored k h pkt.timeStamp) : ¬ IsRequest K pkt k h :=
      fun hr => hne (outcome_of_request hr)
    rw [exec, addPkt_fst, get?_after] at hget
    cases ho : outcome s pkt with
    | rejected =>
      rw [ho] at hget
      exact .inl (hstay hget (hnot (by simp [ho])))
    | late k' h' ts' =>
      rw [ho] at hget
      exact .inl (hstay hget (hnot (by simp [ho])))
    | stored k' h' ts' =>
      obtain ⟨hr, rfl⟩ := outcome_stored ho
      rw [ho] at hget
      dsimp only at hget
      split_ifs at hget with he
      · obtain ⟨rfl, rfl⟩ := he
        exact .inr (.inl ⟨pkt, rfl, hr, Option.some.inj hget⟩)
      · refine .inl (hstay hget (hnot ?_))
        rw [ho]
        exact fun heq => he (by simp_all)
    | unknown k' h' =>
      obtain ⟨ha, hv⟩ := outcome_unknown ho
      rw [ho] at hget
      dsimp only at hget
      split_ifs at hget with he
      · obtain ⟨rfl, rfl⟩ := he
        rcases hv with hv | hv
        · rw [hv] at hget
          exact .inr (.inr ⟨(Option.some.inj hget).symm, hv, pkt, rfl, ha⟩)
        · rw [hv] at hget
          exact .inl (hstay (hv.trans hget) (hnot (by simp [ho])))
      · exact .inl (hstay hget (hnot (by simp [ho])))
    | matched k' h' ts' =>
      rw [ho] at hget
      dsimp only at hget
      split_ifs at hget with he
      exact .inl (hstay hget (hnot (by simp [ho])))

/-- The last request of type `k` and hop `h` accepted in `calls` is stamped `ts`. -/
def StoredBy (K : InterfaceKind) (calls : List Call) (k h : Nat) (ts : ℚ) : Prop :=
  ∃ pre pkt post, calls = pre ++ .addPkt pkt :: post ∧ IsRequest K pkt k h ∧
    pkt.timeStamp = ts ∧ ∀ pkt', .addPkt pkt' ∈ post → ¬ IsRequest K pkt' k h

theorem StoredBy.concat {calls : List Call} {k h : Nat} {ts : ℚ} (hs : StoredBy K calls k h ts)
    {c : Call} (hc : ∀ pkt, c = .addPkt pkt → ¬ IsRequest K pkt k h) :
    StoredBy K (calls ++ [c]) k h ts := by
  obtain ⟨pre, pkt, post, rfl, hr, hts, hlast⟩ := hs
  refine ⟨pre, pkt, post ++ [c], by simp, hr, hts, fun pkt' hm => ?_⟩
  rcases List.mem_append.mp hm with hm | hm
  · exact hlast pkt' hm
  · exact hc pkt' (List.mem_singleton.mp hm).symm

theorem storedBy_last {calls : List Call} {pkt : Diameter} {k h : Nat} (hr : IsRequest K pkt k h) :
    StoredBy K (calls ++ [.addPkt pkt]) k h pkt.timeStamp :=
  ⟨calls, pkt, [], rfl, hr, rfl, by simp⟩

def AnswerFound (s : DiameterInterface K) : Call → Prop
  | .addPkt pkt => ∀ k ∈ K.msgKey pkt, pkt.request = 0 → (s.req.get? k pkt.hopKey).isSome
  | _ => True

instance (s : DiameterInterface K) : (c : Call) → Decidable (AnswerFound s c)
  | .addPkt _ => inferInstanceAs (Decidable (∀ k ∈ _, _ → _))
  | .checkTime _ => inferInstanceAs (Decidable True)
  | .printStats _ => inferInstanceAs (Decidable True)
  | .clearStats => inferInstanceAs (Decidable True)

theorem answerFound_get? {s : DiameterInterface K} {pkt : Diameter} {k h : Nat}
    (hf : AnswerFound s (.addPkt pkt)) (ha : IsAnswer K pkt k h) : s.req.get? k h ≠ none := by
  obtain ⟨hk, hr, rfl⟩ := ha
  exact Option.isSome_iff_ne_none.mp (hf k hk hr)

theorem all_storedBy (K : InterfaceKind) {calls : List Call}
    (hf : Machine.Along exec AnswerFound (initial : DiameterInterface K) calls) :
    ∀ k h ts, (runCalls K calls).req.get? k h = some ts → StoredBy K calls k h ts := by
  refine Machine.run_history
    (I := fun calls (s : DiameterInterface K) =>
      ∀ k h ts, s.req.get? k h = some ts → StoredBy K calls k h ts)
    (by simp [initial]) ?_ hf
  intro pre c ih hc k h ts hget
  rcases get?_exec hget with ⟨hold, hno⟩ | ⟨pkt, rfl, hr, rfl⟩ | ⟨_, hnone, pkt, rfl, ha⟩
  · exact (ih k h ts hold).concat hno
  · exact storedBy_last hr
  · exact absurd hnone (answerFound_get? hc ha)

theorem get?_addPkt_of_unmatched {s : DiameterInterface K} {pkt : Diameter} {k h : Nat}
    (ha : IsAnswer K pkt k h) (hnone : s.req.get? k h = none) :
    (s.addPkt pkt).1.req.get? k h = some 0 := by
  have ho : outcome s pkt = .unknown k h := by rw [outcome_of_answer ha, hnone]
  rw [addPkt_fst, get?_after, ho]
  simp [hnone]

structure HoldsRequestsOnly (K : InterfaceKind) (calls : List Call) : Prop where
  stored : ∀ pre post, calls = pre ++ post → ∀ k h ts,
    (runCalls K pre).req.get? k h = some ts → StoredBy K pre k h ts
  unmatched : ∀ pre pkt post k h, calls = pre ++ .addPkt pkt :: post → IsAnswer K pkt k h →
    (runCalls K pre).req.get? k h = none →
      ((runCalls K pre).addPkt pkt).1.req = (runCalls K pre).req
  swept : ∀ pre node post k h ts, calls = pre ++ .printStats node :: post →
    (runCalls K pre).req.get? k h = some ts → expired (runCalls K pre).endTime ts = true →
      StoredBy K pre k h ts

/-- The table holds requests only exactly in the runs in which every answer
finds an entry. -/
theorem holdsRequestsOnly_iff (K : InterfaceKind) (calls : List Call) :
    HoldsRequestsOnly K calls ↔
      Machine.Along exec AnswerFound (initial : DiameterInterface K) calls := by
  constructor
  · intro h
    apply Machine.along_iff_split.mpr
    rintro pre c post he
    cases c with
    | addPkt pkt =>
      intro k hk hr
      by_contra hnone
      have ha : IsAnswer K pkt k pkt.hopKey := ⟨hk, hr, rfl⟩
      have hn : (runCalls K pre).req.get? k pkt.hopKey = none :=
        Option.not_isSome_iff_eq_none.mp hnone
      -- the lookup of an answer that finds nothing changes the table
      have hsame := h.unmatched pre pkt post k _ he ha hn
      have hzero := get?_addPkt_of_unmatched ha hn
      rw [hsame, hn] at hzero
      exact absurd hzero (by simp)
    | _ => trivial
  · intro hf
    have hstored : ∀ pre post, calls = pre ++ post → ∀ k h ts,
        (runCalls K pre).req.get? k h = some ts → StoredBy K pre k h ts := by
      rintro pre post rfl
      exact all_storedBy K (Machine.along_append.mp hf).1
    refine ⟨hstored, ?_, ?_⟩
    · intro pre pkt post k h he ha hnone
      have hc := Machine.along_iff_split.mp hf pre _ post he
      exact absurd hnone (answerFound_get? hc ha)
    · intro pre node post k h ts he hget _
      exact hstored pre _ he k h ts hget

theorem orphan_answer_counted :
    let calls := driverTrace [] (initial : GxInterface) [gxAnswer 9 15]
    ¬ HoldsRequestsOnly .gx calls ∧
      ((runCalls .gx calls).drive [] (gxRequest 1 31)).2.map
        (fun report => ((report.rows ⟨0, by decide⟩).att, (report.rows ⟨0, by decide⟩).tout)) =
          some (1, 1) := by
  intro calls
  rw [holdsRequestsOnly_iff]
  decide +kernel

end AnalysePcap
