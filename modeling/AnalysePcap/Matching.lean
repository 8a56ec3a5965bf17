import AnalysePcap.Isolation
import AnalysePcap.Rollover

/-! Which request an answer is matched to. The hop identifier on the wire is lost in
`getInterface`, so a match is right only if the identifiers handed out there agree
with those on the wire. -/

namespace AnalysePcap

open Analyser DiameterInterface

def objectAt (inet : Inet) (pre : List Packet) (site : Site) : DiameterInterface site.1.kind :=
  ((run inet pre).view site).1

def AcceptedRequest (inet : Inet) (pre : List Packet) (p : Packet) (site : Site) (dPkt : Diameter)
    (k h : Nat) : Prop :=
  p.message inet = some (site, dPkt) ∧
    Passed (objectAt inet pre site) (assigned inet pre site dPkt) ∧
    IsRequest site.1.kind (assigned inet pre site dPkt) k h

instance (inet : Inet) (pre : List Packet) (p : Packet) (site : Site) (dPkt : Diameter)
    (k h : Nat) : Decidable (AcceptedRequest inet pre p site dPkt k h) :=
  inferInstanceAs (Decidable (_ ∧ _ ∧ _))

/-- The last request of type `k` and hop `h` that the object of `site` accepted in
`pkts` is `p`. -/
def LastRequest (inet : Inet) (pkts : List Packet) (site : Site) (k h : Nat) (pre : List Packet)
    (p : Packet) (dPkt : Diameter) : Prop :=
  ∃ post, pkts = pre ++ p :: post ∧ AcceptedRequest inet pre p site dPkt k h ∧
    ∀ mid q rest dPkt', post = mid ++ q :: rest →
      ¬ AcceptedRequest inet (pre ++ p :: mid) q site dPkt' k h

theorem objectAt_concat (inet : Inet) (pre : List Packet) (p : Packet) (site : Site) :
    objectAt inet (pre ++ [p]) site = match p.message inet with
      | none => objectAt inet pre site
      | some (site', dPkt) =>
        if site' = site then
          driven (reportNode site.2) (objectAt inet pre site) (assigned inet pre site dPkt)
        else objectAt inet pre site := by
  simp only [objectAt, view_concat]
  cases p.message inet with
  | none => rfl
  | some msg =>
    obtain ⟨site', dPkt⟩ := msg
    by_cases hs : site' = site
    · subst hs
      simp [Machine.route, viewStep, driven]
    · simp [Machine.route, hs, Function.update_of_ne (Ne.symm hs)]

theorem LastRequest.concat {inet : Inet} {pkts : List Packet} {site : Site} {k h : Nat}
    {pre : List Packet} {p : Packet} {dPkt : Diameter}
    (hl : LastRequest inet pkts site k h pre p dPkt) {q : Packet}
    (hq : ∀ dPkt', ¬ AcceptedRequest inet pkts q site dPkt' k h) :
    LastRequest inet (pkts ++ [q]) site k h pre p dPkt := by
  obtain ⟨post, rfl, ha, hlast⟩ := hl
  refine ⟨post ++ [q], by simp, ha, ?_⟩
  intro mid q' rest dPkt' he
  rcases List.eq_nil_or_concat rest with rfl | ⟨rest', r, rfl⟩
  · obtain ⟨rfl, hqq⟩ := List.append_inj' he rfl
    obtain rfl : q = q' := by simpa using hqq
    exact hq dPkt'
  · have he' : post ++ [q] = (mid ++ q' :: rest') ++ [r] := by simpa using he
    exact hlast mid q' rest' dPkt' (List.append_inj' he' rfl).1

theorem nonzero_lastRequest (inet : Inet) (pkts : List Packet) (site : Site) :
    ∀ k h ts, (objectAt inet pkts site).req.get? k h = some ts → ts ≠ 0 →
      ∃ pre p dPkt, LastRequest inet pkts site k h pre p dPkt ∧ dPkt.timeStamp = ts := by
  induction pkts using List.reverseRecOn with
  | nil => exact fun k h ts hget => absurd hget (by simp [objectAt, view, run, Analyser.initial,
      DiameterInterface.initial])
  | append_singleton pkts q ih =>
    intro k h ts hget hne
    rw [objectAt_concat] at hget
    -- an entry that the packet leaves alone keeps the request that stored it
    have hkeep (hq : ∀ dPkt', ¬ AcceptedRequest inet pkts q site dPkt' k h)
        (hold : (objectAt inet pkts site).req.get? k h = some ts) :
        ∃ pre p dPkt, LastRequest inet (pkts ++ [q]) site k h pre p dPkt ∧ dPkt.timeStamp = ts := by
      obtain ⟨pre, p, dPkt, hl, hts⟩ := ih k h ts hold hne
      exact ⟨pre, p, dPkt, hl.concat hq, hts⟩
    cases hm : q.message inet with
    | none =>
      rw [hm] at hget
      refine hkeep (fun dPkt' ha => ?_) hget
      exact absurd (hm.symm.trans ha.1) (by simp)
    | some msg =>
      obtain ⟨site', dPkt⟩ := msg
      rw [hm] at hget
      dsimp only at hget
      split_ifs at hget with hs
      · subst hs
        rcases get?_driven hget with ⟨hold, hno⟩ | ⟨hp, ⟨hr, hts⟩ | ⟨_, h0⟩⟩
        · refine hkeep (fun dPkt' ha => ?_) (of_get?_prepared hold)
          obtain rfl : dPkt = dPkt' := by simpa using hm.symm.trans ha.1
          exact hno ha.2.1 ha.2.2
        · exact ⟨pkts, q, dPkt, ⟨[], rfl, ⟨hm, hp, hr⟩, by simp⟩, hts⟩
        · exact absurd h0 hne
      · refine hkeep (fun dPkt' ha => hs ?_) hget
        exact congrArg Prod.fst (Option.some.inj (hm.symm.trans ha.1))

theorem hopKey_assigned (inet : Inet) (pre : List Packet) (site : Site) (dPkt : Diameter) :
    (assigned inet pre site dPkt).hopKey = hopAfter inet pre site.1 dPkt.request := by
  have hle : hopAfter inet pre site.1 dPkt.request ≤ 100 := by
    rw [hopAfter]
    split_ifs <;> omega
  simp only [assigned, Diameter.hopKey]
  omega

theorem msgKey_assigned (inet : Inet) (pre : List Packet) (site : Site) (dPkt : Diameter) :
    site.1.kind.msgKey (assigned inet pre site dPkt) = site.1.kind.msgKey dPkt := by
  obtain ⟨a, node⟩ := site
  cases a <;> rfl

/-- A request and a later answer of one site and type are given the same hop exactly
when they carry the same hop identifier on the wire. -/
def PairAgrees (inet : Inet) (pre : List Packet) (p : Packet) (pre₁ : List Packet) (p₁ : Packet) :
    Prop :=
  ∀ ans ∈ p.message inet, ans.2.request = 0 → ∀ rqst ∈ p₁.message inet, rqst.2.request = 1 →
    rqst.1 = ans.1 → ans.1.1.kind.msgKey rqst.2 = ans.1.1.kind.msgKey ans.2 →
    (hopAfter inet pre₁ ans.1.1 1 = hopAfter inet pre ans.1.1 0 ↔
      rqst.2.hopIdentifier = ans.2.hopIdentifier)

instance (inet : Inet) (pre : List Packet) (p : Packet) (pre₁ : List Packet) (p₁ : Packet) :
    Decidable (PairAgrees inet pre p pre₁ p₁) :=
  inferInstanceAs (Decidable (∀ ans ∈ _, _ → ∀ rqst ∈ _, _ → _ → _ → (_ ↔ _)))

def WireAgrees (inet : Inet) (pre : List Packet) (p : Packet) : Prop :=
  Machine.Along Machine.remember (PairAgrees inet pre p) [] pre

instance (inet : Inet) (pre : List Packet) (p : Packet) : Decidable (WireAgrees inet pre p) :=
  inferInstanceAs (Decidable (Machine.Along _ _ _ _))

theorem hop_eq_iff_wire {inet : Inet} {pkts : List Packet}
    (hw : Machine.Along Machine.remember (WireAgrees inet) [] pkts)
    {pre₁ mid post : List Packet} {p₁ p : Packet} {site : Site} {dPkt₁ dPkt : Diameter}
    {k h₁ h : Nat} (he : pkts = pre₁ ++ p₁ :: (mid ++ p :: post))
    (hr : AcceptedRequest inet pre₁ p₁ site dPkt₁ k h₁) (hm : p.message inet = some (site, dPkt))
    (ha : IsAnswer site.1.kind (assigned inet (pre₁ ++ p₁ :: mid) site dPkt) k h) :
    h₁ = h ↔ dPkt₁.hopIdentifier = dPkt.hopIdentifier := by
  obtain ⟨hm₁, _, hk₁, hreq, rfl⟩ := hr
  obtain ⟨hk, hans, rfl⟩ := ha
  have he' : pkts = (pre₁ ++ p₁ :: mid) ++ p :: post := by simp [he]
  have hat := Machine.along_iff_split.mp hw _ p post he'
  rw [Machine.run_remember, List.nil_append] at hat
  have hpair := Machine.along_iff_split.mp hat pre₁ p₁ mid rfl
  rw [Machine.run_remember, List.nil_append] at hpair
  rw [msgKey_assigned] at hk hk₁
  have hiff := hpair _ hm hans _ hm₁ hreq rfl (hk₁.trans hk.symm)
  rw [hopKey_assigned, hopKey_assigned]
  have h1 : dPkt₁.request = 1 := hreq
  have h0 : dPkt.request = 0 := hans
  rw [h1, h0]
  exact hiff

def outcomeAt (inet : Inet) (pre : List Packet) (site : Site) (dPkt : Diameter) : Outcome :=
  let dPkt := assigned inet pre site dPkt
  outcome (prepared (reportNode site.2) (objectAt inet pre site) dPkt) dPkt

def pendingAt (inet : Inet) (pre : List Packet) (site : Site) (dPkt : Diameter) (k h : Nat) :
    Option ℚ :=
  (prepared (reportNode site.2) (objectAt inet pre site)
    (assigned inet pre site dPkt)).req.get? k h

/-- Answers are matched by the hop identifier on the wire: an answer counted as an
attempt was matched to a request with its own identifier, and an answer whose
request is still pending is not unknown. -/
structure MatchedOnWire (inet : Inet) (pkts : List Packet) : Prop where
  same_wire : ∀ pre p post site dPkt k h ts, pkts = pre ++ p :: post →
    p.message inet = some (site, dPkt) →
    Passed (objectAt inet pre site) (assigned inet pre site dPkt) →
    outcomeAt inet pre site dPkt = .matched k h ts ∨ outcomeAt inet pre site dPkt = .late k h ts →
      (∃ pre₁ p₁ dPkt₁, LastRequest inet pre site k h pre₁ p₁ dPkt₁ ∧ dPkt₁.timeStamp = ts) ∧
      ∀ pre₁ p₁ dPkt₁, LastRequest inet pre site k h pre₁ p₁ dPkt₁ →
        dPkt₁.hopIdentifier = dPkt.hopIdentifier
  known : ∀ pre₁ p₁ mid p post site dPkt₁ dPkt k h₁ h, pkts = pre₁ ++ p₁ :: (mid ++ p :: post) →
    AcceptedRequest inet pre₁ p₁ site dPkt₁ k h₁ → p.message inet = some (site, dPkt) →
    Passed (objectAt inet (pre₁ ++ p₁ :: mid) site)
      (assigned inet (pre₁ ++ p₁ :: mid) site dPkt) →
    IsAnswer site.1.kind (assigned inet (pre₁ ++ p₁ :: mid) site dPkt) k h →
    dPkt₁.hopIdentifier = dPkt.hopIdentifier →
    pendingAt inet (pre₁ ++ p₁ :: mid) site dPkt k h₁ = some dPkt₁.timeStamp →
      outcomeAt inet (pre₁ ++ p₁ :: mid) site dPkt ≠ .unknown k h

/-- In a trace in which the hops handed out agree with the wire, and no request is
stamped with the epoch itself, answers are matched by the identifier on the wire. -/
theorem matchedOnWire {inet : Inet} {pkts : List Packet}
    (hw : Machine.Along Machine.remember (WireAgrees inet) [] pkts)
    (hz : ∀ p ∈ pkts, ∀ msg ∈ p.message inet, msg.2.request = 1 → msg.2.timeStamp ≠ 0) :
    MatchedOnWire inet pkts := by
  refine ⟨?_, ?_⟩
  · intro pre p post site dPkt k h ts he hm _ ho
    have hfound : IsAnswer site.1.kind (assigned inet pre site dPkt) k h ∧
        pendingAt inet pre site dPkt k h = some ts ∧ ts ≠ 0 := by
      rcases ho with ho | ho
      · obtain ⟨ha, hget, hne, _⟩ := outcome_matched ho
        exact ⟨ha, hget, hne⟩
      · obtain ⟨ha, hget, hne, _⟩ := outcome_late ho
        exact ⟨ha, hget, hne⟩
    obtain ⟨ha, hget, hne⟩ := hfound
    refine ⟨nonzero_lastRequest inet pre site k h ts (of_get?_prepared hget) hne, ?_⟩
    intro pre₁ p₁ dPkt₁ hl
    obtain ⟨mid, rfl, hr, _⟩ := hl
    exact (hop_eq_iff_wire hw (by simpa using he) hr hm ha).mp rfl
  · intro pre₁ p₁ mid p post site dPkt₁ dPkt k h₁ h he hr hm _ ha hwire hget ho
    obtain rfl := (hop_eq_iff_wire hw he hr hm ha).mpr hwire
    have hne : dPkt₁.timeStamp ≠ 0 := hz p₁ (by simp [he]) _ hr.1 hr.2.2.2.1
    rcases (outcome_unknown ho).2 with hnone | hzero
    · exact absurd (hnone.symm.trans hget) (by simp)
    · exact hne (Option.some.inj (hget.symm.trans hzero))

theorem matchedOnWire_of_ninetynine :
    let pkts := segment client server (gxRequest 7 25) ::
      (List.replicate 99 (segment server client' (gxAnswer 8 26)) ++
        [segment server client (gxAnswer 7 27)])
    Machine.Along Machine.remember (WireAgrees .plain) [] pkts ∧ MatchedOnWire .plain pkts := by
  intro pkts
  have hw : Machine.Along Machine.remember (WireAgrees .plain) [] pkts := by decide +kernel
  exact ⟨hw, matchedOnWire hw (by decide +kernel)⟩

theorem answer_not_matched_on_wire :
    let pkts := [segment client server (gxRequest 7 25), segment server client (gxAnswer 7 26)]
    ¬ MatchedOnWire .plain pkts ∧
      (objectAt .plain pkts clientSite).stats.unKnwRes ⟨0, by decide⟩ = 1 := by
  intro pkts
  refine ⟨fun hp => ?_, by decide +kernel⟩
  have hrequest : AcceptedRequest .plain [] (segment client server (gxRequest 7 25)) clientSite
      (gxRequest 7 25) 1 1 := by
    decide +kernel
  have hanswer : IsAnswer clientSite.1.kind
      (assigned .plain [segment client server (gxRequest 7 25)] clientSite (gxAnswer 7 26))
      1 100 := by
    decide +kernel
  exact hp.known [] (segment client server (gxRequest 7 25)) []
    (segment server client (gxAnswer 7 26)) [] clientSite (gxRequest 7 25) (gxAnswer 7 26) 1 1 100
    rfl hrequest (by decide +kernel) (by decide +kernel) hanswer rfl (by decide +kernel)
    (by decide +kernel)

end AnalysePcap
