import AnalysePcap.Isolation

/-! The variant of `GxInterface` that keeps requests in a shared hash file. A process
remembers the uid of a request that it has stored itself; any other request is looked up
by its hop identifier. Both lookups are tested the wrong way round. -/

namespace AnalysePcap

/-- A request in the shared table: under the text of its hop identifier, with its time
stamp. -/
structure ShfEntry where
  uid : Nat
  key : Text
  val : ℚ
  deriving DecidableEq

abbrev RequestTable := List ShfEntry

namespace RequestTable

def GetKeyValCopy (t : RequestTable) (key : Text) : Bool := t.any fun entry => entry.key = key

def GetUidValCopy (t : RequestTable) (uid : Nat) : Bool := t.any fun entry => entry.uid = uid

def PutKeyVal (t : RequestTable) (uid : Nat) (key : Text) (val : ℚ) : RequestTable :=
  t ++ [⟨uid, key, val⟩]

def DelKeyVal (t : RequestTable) (key : Text) : RequestTable :=
  t.eraseP fun entry => entry.key = key

def DelUidVal (t : RequestTable) (uid : Nat) : RequestTable :=
  t.eraseP fun entry => entry.uid = uid

theorem delKeyVal_of_not_found {t : RequestTable} {key : Text} (h : t.GetKeyValCopy key = false) :
    t.DelKeyVal key = t :=
  List.eraseP_of_forall_not (List.any_eq_false.mp h)

theorem delUidVal_of_not_found {t : RequestTable} {uid : Nat} (h : t.GetUidValCopy uid = false) :
    t.DelUidVal uid = t :=
  List.eraseP_of_forall_not (List.any_eq_false.mp h)

end RequestTable

def decimal (n : Int) : Text :=
  if n < 0 then '-' :: Nat.toDigits 10 n.natAbs else Nat.toDigits 10 n.natAbs

/-- The key of a request: its hop identifier, printed as a signed number. -/
def Diameter.hopText (pkt : Diameter) : Text := decimal ((pkt.hopKey : Int).bmod (2 ^ 32))

def Stats.settled {n : Nat} (st : Stats n) (i : Nat) (resCode : Int) : Stats n :=
  let st :=
    if resCode < 3000 ∨ resCode = 70001 then { st with succCount := addAt st.succCount i 1 }
    else { st with failCount := addAt st.failCount i 1 }
  { st with attempts := addAt st.attempts i 1 }

theorem Stats.settled_attempts {n : Nat} (st : Stats n) (i : Nat) (resCode : Int) :
    (st.settled i resCode).attempts = addAt st.attempts i 1 := by
  unfold Stats.settled
  by_cases h : resCode < 3000 ∨ resCode = 70001
  · rw [if_pos h]
  · rw [if_neg h]

/-- The members of the class that `addPkt` uses; `req` has uids. -/
structure SharedGx where
  GxStats : Stats 3
  req : NestedTable Nat Nat Nat

/-- The uid is an `unsigned int` that was stored as a `double`; `toUid` is its conversion
to an `int`, which the language does not define for all of them. `newUid` is what
`PutKeyVal` returns. -/
def SharedGx.addPkt (toUid : Nat → Int) (g : SharedGx) (shfrql : RequestTable) (pkt : Diameter)
    (newUid : Nat) : SharedGx × RequestTable × Int :=
  match InterfaceKind.gx.msgKey pkt with
  | none => (g, shfrql, 1)
  | some reqtype =>
    let i := InterfaceKind.gx.index reqtype
    let key := pkt.hopText
    if pkt.request = 1 then
      ({ g with req := g.req.set reqtype pkt.hopKey newUid },
        shfrql.PutKeyVal newUid key pkt.timeStamp, 0)
    else if pkt.request = 0 then
      let found := g.req.fetch reqtype pkt.hopKey 0
      let g := { g with req := found.2 }
      let uid := toUid found.1
      if uid = 0 then
        -- the lookups return 1 when they find something
        if !shfrql.GetKeyValCopy key then
          ({ g with GxStats := g.GxStats.settled i pkt.resCode }, shfrql.DelKeyVal key, 0)
        else
          ({ g with
              GxStats := { g.GxStats with timeoutCount := addAt g.GxStats.timeoutCount i 1 } },
            shfrql, 0)
      else
        let uid := (uid % 2 ^ 32).toNat
        if !shfrql.GetUidValCopy uid then
          ({ g with GxStats := g.GxStats.settled i pkt.resCode }, shfrql.DelUidVal uid, 0)
        else ({ g with GxStats := g.GxStats.settled i pkt.resCode }, shfrql, 0)
    else (g, shfrql, 1)

structure SharedSystem (ι : Type*) where
  shfrql : RequestTable
  process : ι → SharedGx

/-- Process `p` sees a packet; `uid` is used if it stores a request. -/
structure Seen (ι : Type*) where
  p : ι
  pkt : Diameter
  uid : Nat

def Diameter.IsGxAnswer (pkt : Diameter) : Prop :=
  (InterfaceKind.gx.msgKey pkt).isSome = true ∧ pkt.request = 0

theorem msgKey_of_isGxAnswer {pkt : Diameter} (h : pkt.IsGxAnswer) :
    InterfaceKind.gx.msgKey pkt = some pkt.reqType := by
  obtain ⟨k, hk⟩ := Option.isSome_iff_exists.mp h.1
  have hkey : k = pkt.reqType := by
    simp only [InterfaceKind.gx] at hk
    split_ifs at hk
    exact (Option.some.inj hk).symm
  rw [hk, hkey]

theorem index_of_isGxAnswer {pkt : Diameter} (h : pkt.IsGxAnswer) :
    InterfaceKind.gx.index pkt.reqType < 3 :=
  InterfaceKind.index_lt (InterfaceKind.isType_of_msgKey (msgKey_of_isGxAnswer h))

/-- An answer never changes the table: what was found is kept, and what is deleted was
not there. It is counted unless it is found by its key. -/
theorem addPkt_of_isGxAnswer {pkt : Diameter} (h : pkt.IsGxAnswer) (toUid : Nat → Int)
    (g : SharedGx) (shfrql : RequestTable) (newUid : Nat) :
    let i := InterfaceKind.gx.index pkt.reqType
    let uid := toUid (g.req.fetch pkt.reqType pkt.hopKey 0).1
    (g.addPkt toUid shfrql pkt newUid).2.1 = shfrql ∧
      (g.addPkt toUid shfrql pkt newUid).1.GxStats =
        if uid = 0 ∧ shfrql.GetKeyValCopy pkt.hopText = true then
          { g.GxStats with timeoutCount := addAt g.GxStats.timeoutCount i 1 }
        else g.GxStats.settled i pkt.resCode := by
  intro i uid
  have hkey := msgKey_of_isGxAnswer h
  by_cases huid : uid = 0
  · cases hget : shfrql.GetKeyValCopy pkt.hopText with
    | true => simp [SharedGx.addPkt, hkey, h.2, uid, huid, hget, i]
    | false =>
      have hdel := RequestTable.delKeyVal_of_not_found hget
      simp [SharedGx.addPkt, hkey, h.2, uid, huid, hget, hdel, i]
  · have huid' : toUid (g.req.fetch pkt.reqType pkt.hopKey 0).1 ≠ 0 := huid
    cases hget : shfrql.GetUidValCopy
        (toUid (g.req.fetch pkt.reqType pkt.hopKey 0).1 % 2 ^ 32).toNat with
    | true =>
      norm_num at hget
      simp [SharedGx.addPkt, hkey, h.2, uid, huid', hget, i]
    | false =>
      have hdel := RequestTable.delUidVal_of_not_found hget
      norm_num at hget hdel
      simp [SharedGx.addPkt, hkey, h.2, uid, huid', hget, hdel, i]

namespace SharedSystem

variable {ι : Type*} [DecidableEq ι]

def next (toUid : Nat → Int) (s : SharedSystem ι) (e : Seen ι) : SharedSystem ι where
  shfrql := ((s.process e.p).addPkt toUid s.shfrql e.pkt e.uid).2.1
  process := Function.update s.process e.p ((s.process e.p).addPkt toUid s.shfrql e.pkt e.uid).1

def pending (s : SharedSystem ι) (pkt : Diameter) : Nat :=
  s.shfrql.countP fun entry => entry.key = pkt.hopText

/-- What is expected of an answer: if the table holds its request, it is counted as an
attempt, by its result, and the entry is deleted, and otherwise only as a timeout. -/
structure Matched (toUid : Nat → Int) (s : SharedSystem ι) (e : Seen ι) : Prop where
  found : 0 < s.pending e.pkt →
    ((s.next toUid e).process e.p).GxStats =
        (s.process e.p).GxStats.settled (InterfaceKind.gx.index e.pkt.reqType) e.pkt.resCode ∧
      (s.next toUid e).pending e.pkt < s.pending e.pkt
  missing : s.pending e.pkt = 0 →
    ((s.next toUid e).process e.p).GxStats =
      { (s.process e.p).GxStats with
        timeoutCount := addAt (s.process e.p).GxStats.timeoutCount
          (InterfaceKind.gx.index e.pkt.reqType) 1 }

theorem not_matched (toUid : Nat → Int) (s : SharedSystem ι) {e : Seen ι}
    (h : e.pkt.IsGxAnswer) : ¬ s.Matched toUid e := by
  intro hmatched
  obtain ⟨htable, hstats⟩ := addPkt_of_isGxAnswer h toUid (s.process e.p) s.shfrql e.uid
  have hpending : (s.next toUid e).pending e.pkt = s.pending e.pkt := by
    rw [pending, next, htable]
    rfl
  have hprocess : ((s.next toUid e).process e.p).GxStats =
      ((s.process e.p).addPkt toUid s.shfrql e.pkt e.uid).1.GxStats := by
    change (Function.update s.process e.p _ e.p).GxStats = _
    rw [Function.update_self]
  rcases Nat.eq_zero_or_pos (s.pending e.pkt) with hzero | hpos
  · -- an answer without a request is counted as an attempt
    have hget : ¬ s.shfrql.GetKeyValCopy e.pkt.hopText = true := by
      rw [RequestTable.GetKeyValCopy, List.any_eq_true]
      rintro ⟨entry, hentry, hkey⟩
      exact absurd hkey (List.countP_eq_zero.mp hzero entry hentry)
    have hmissing := hmatched.missing hzero
    rw [hprocess, hstats, if_neg fun hc => hget hc.2] at hmissing
    have hattempts := congrFun (congrArg Stats.attempts hmissing)
      ⟨InterfaceKind.gx.index e.pkt.reqType, index_of_isGxAnswer h⟩
    rw [Stats.settled_attempts] at hattempts
    simp [addAt] at hattempts
  · -- a request that is found stays in the table
    have hdeleted := (hmatched.found hpos).2
    omega

/-- A run is as expected exactly if it has no answers at all. -/
theorem matched_along_iff (toUid : Nat → Int) (s : SharedSystem ι) (events : List (Seen ι)) :
    Machine.Along (next toUid) (fun s e => e.pkt.IsGxAnswer → s.Matched toUid e) s events ↔
      ∀ e ∈ events, ¬ e.pkt.IsGxAnswer := by
  constructor
  · intro h e he hanswer
    obtain ⟨pre, post, rfl⟩ := List.append_of_mem he
    exact not_matched toUid _ hanswer (Machine.along_iff_split.mp h pre e post rfl hanswer)
  · intro h
    refine Machine.along_iff_split.mpr ?_
    rintro pre e post rfl hanswer
    exact absurd hanswer (h e (by simp))

/-- The answer that one process sees to a request of the other one is a timeout, and the
process that stored the request counts two answers to it. The entry stays. -/
theorem answer_not_matched :
    let toUid : Nat → Int := fun n => if n < 2 ^ 31 then n else -2 ^ 31
    let s : SharedSystem Bool := ⟨[], fun _ => ⟨.zero, ∅⟩⟩
    let request : Seen Bool := ⟨false, gxRequest 7 25, 5⟩
    let answer : Bool → Seen Bool := fun p => ⟨p, gxAnswer 7 26, 0⟩
    let s₁ := Machine.run (next toUid) s [request, answer true]
    let s₂ := Machine.run (next toUid) s₁ [answer false, answer false]
    ((s₁.process true).GxStats.attempts 0 = 0 ∧ (s₁.process true).GxStats.timeoutCount 0 = 1 ∧
        s₁.pending (gxAnswer 7 26) = 1) ∧
      ((s₂.process false).GxStats.attempts 0 = 2 ∧ (s₂.process false).GxStats.succCount 0 = 2 ∧
        s₂.pending (gxAnswer 7 26) = 1) ∧
      ¬ Machine.Along (next toUid) (fun s e => e.pkt.IsGxAnswer → s.Matched toUid e) s
        [request, answer true] := by
  intro toUid s request answer s₁ s₂
  refine ⟨by decide +kernel, by decide +kernel, fun h => ?_⟩
  have hanswer : (answer true).pkt.IsGxAnswer := by
    unfold Diameter.IsGxAnswer
    decide
  have hmatched := h.2.1 hanswer
  have hdeleted := (hmatched.found (by decide +kernel)).2
  exact absurd hdeleted (by decide +kernel)

end SharedSystem

end AnalysePcap
