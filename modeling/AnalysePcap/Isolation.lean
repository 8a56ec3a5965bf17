import AnalysePcap.ProtocolTCP

/-! Independence of the pairs of nodes. The maps keep the objects apart, but the
counters of `getInterface` are shared by all the pairs of an application. -/

namespace AnalysePcap

open Analyser

def isOwn (inet : Inet) (site : Site) (p : Packet) : Bool :=
  (p.message inet).map Prod.fst = some site

def others (inet : Inet) (site : Site) (request : Int) (pre : List Packet) : Nat :=
  (pre.filter fun q => !isOwn inet site q).countP (isOf inet site.1 (decide (request ≠ 0)))

/-- The other pairs have moved the counter that a packet of the site uses by a whole
number of rounds. -/
def Undisturbed (inet : Inet) (site : Site) (pre : List Packet) (p : Packet) : Prop :=
  ∀ msg ∈ p.message inet, msg.1 = site → 100 ∣ others inet site msg.2.request pre

instance (inet : Inet) (site : Site) (pre : List Packet) (p : Packet) :
    Decidable (Undisturbed inet site pre p) :=
  inferInstanceAs (Decidable (∀ msg ∈ _, _ → _))

theorem hopAfter_filter {inet : Inet} {site : Site} {request : Int} {pre : List Packet}
    (h : 100 ∣ others inet site request pre) :
    hopAfter inet (pre.filter (isOwn inet site)) site.1 request =
      hopAfter inet pre site.1 request := by
  -- the counters repeat after 100 packets of one direction
  have hsum (q : Packet → Bool) := List.countP_eq_countP_filter_add pre q (isOwn inet site)
  unfold others at h
  unfold hopAfter
  by_cases hr : request ≠ 0
  · have htrue := hsum (isOf inet site.1 true)
    simp only [hr, ne_eq, not_false_eq_true, decide_true] at h
    rw [if_pos hr, if_pos hr]
    omega
  · have hfalse := hsum (isOf inet site.1 false)
    simp only [hr, decide_false] at h
    rw [if_neg hr, if_neg hr]
    omega

theorem received_own {inet : Inet} {site : Site} {p : Packet} {dPkt : Diameter}
    (hm : p.message inet = some (site, dPkt)) (pre ps : List Packet) :
    Machine.inputsAt site (received inet pre (p :: ps)) =
      assigned inet pre site dPkt :: Machine.inputsAt site (received inet (pre ++ [p]) ps) := by
  simp [received, hm, Machine.inputsAt]

theorem received_other {inet : Inet} {site : Site} {p : Packet} (hp : ¬ isOwn inet site p = true)
    (pre ps : List Packet) :
    Machine.inputsAt site (received inet pre (p :: ps)) =
      Machine.inputsAt site (received inet (pre ++ [p]) ps) := by
  cases hm : p.message inet with
  | none => simp [received, hm]
  | some msg =>
    have hne : msg.1 ≠ site := by simpa [isOwn, hm] using hp
    simp [received, hm, Machine.inputsAt, hne]

theorem received_filter {inet : Inet} {site : Site} {pre ps : List Packet}
    (h : Machine.Along Machine.remember (Undisturbed inet site) pre ps) :
    Machine.inputsAt site (received inet (pre.filter (isOwn inet site))
        (ps.filter (isOwn inet site))) =
      Machine.inputsAt site (received inet pre ps) := by
  induction ps generalizing pre with
  | nil => rfl
  | cons p ps ih =>
    have hrest := ih h.2
    rw [Machine.remember, List.filter_append] at hrest
    by_cases hown : isOwn inet site p = true
    · obtain ⟨⟨site', dPkt⟩, hm, hsite⟩ := Option.map_eq_some_iff.mp (decide_eq_true_eq.mp hown)
      obtain rfl : site' = site := hsite
      have hhop := hopAfter_filter (h.1 _ hm rfl)
      rw [List.filter_cons_of_pos hown, List.filter_nil] at hrest
      rw [List.filter_cons_of_pos hown, received_own hm, received_own hm, hrest, assigned, assigned,
        hhop]
    · rw [List.filter_cons_of_neg hown, List.filter_nil, List.append_nil] at hrest
      rw [List.filter_cons_of_neg hown, received_other hown, hrest]

/-- The reports and the counters of a pair of nodes do not depend on the other
packets as long as those move the counters of the application by whole rounds. -/
theorem view_eq_alone {inet : Inet} {site : Site} {pkts : List Packet}
    (h : Machine.Along Machine.remember (Undisturbed inet site) [] pkts) :
    (run inet pkts).view site = (run inet (pkts.filter (isOwn inet site))).view site := by
  have hfull := view_run inet [] pkts site
  have halone := view_run inet [] (pkts.filter (isOwn inet site)) site
  have hsame := received_filter h
  rw [List.nil_append] at hfull halone
  rw [List.filter_nil] at hsame
  rw [hfull, halone, hsame]

def Inet.plain : Inet where
  inet_ntoa a := ['.'].intercalate
    ([24, 16, 8, 0].map fun shift => Nat.toDigits 10 (a.toNat >>> shift % 2 ^ 8))
  -- without the usual abbreviations
  inet_ntop a := [':'].intercalate
    ([112, 96, 80, 64, 48, 32, 16, 0].map fun shift => Nat.toDigits 16 (a.toNat >>> shift % 2 ^ 16))

def segment (src dst : BitVec 32) (dPkt : Diameter) : Packet where
  srcPort := 3868
  dstPort := 3868
  ipv := 4
  ip4_src := src
  ip4_dst := dst
  ipv6_src := 0
  ipv6_dst := 0
  dPkt := dPkt
  timeStamp := dPkt.timeStamp

def client : BitVec 32 := 0x0a000001#32

def client' : BitVec 32 := 0x0a000002#32

def server : BitVec 32 := 0x0a000003#32

def clientSite : Site := (.GX, "10.0.0.1-10.0.0.3".toList)

theorem view_eq_alone_three :
    let pkts := [segment client server (gxRequest 7 25), segment client' server (gxRequest 8 26),
      segment server client (gxAnswer 7 27)]
    Machine.Along Machine.remember (Undisturbed .plain clientSite) [] pkts ∧
      (run .plain pkts).view clientSite =
        (run .plain (pkts.filter (isOwn .plain clientSite))).view clientSite := by
  intro pkts
  have h : Machine.Along Machine.remember (Undisturbed .plain clientSite) [] pkts := by
    decide +kernel
  exact ⟨h, view_eq_alone h⟩

/-- An answer that is matched in the whole trace is unknown when the answers to
another client are removed. -/
theorem answers_of_another_client_interfere :
    let pkts := segment client server (gxRequest 7 25) ::
      (List.replicate 99 (segment server client' (gxAnswer 8 26)) ++
        [segment server client (gxAnswer 7 27)])
    ((run .plain pkts).view clientSite).1.stats.unKnwRes ⟨0, by decide⟩ = 0 ∧
      ((run .plain (pkts.filter (isOwn .plain clientSite))).view clientSite).1.stats.unKnwRes
        ⟨0, by decide⟩ = 1 := by
  decide +kernel

end AnalysePcap
