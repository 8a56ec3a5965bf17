import AnalysePcap.Delivery
import AnalysePcap.Encode

/-! The files of one directory scan in the order in which `readdir` lists them. A packet
is dropped if it is older than the interval of `displayStats` or than the window of its
interface, and both only move forward. -/

namespace AnalysePcap

open DisplayStats

namespace DisplayStats

section Step

variable {env : Platform} {b : DisplayStats}

theorem curIntStarttime_le_parse (hb : b.Sane) (x : Locals × TracePacket) :
    b.curIntStarttime ≤ (b.parse env x).curIntStarttime := by
  rcases interval_parse env hb.wellKept x with ⟨hstart, -⟩ | ⟨-, hopens, hstart, -⟩
  · exact hstart.ge
  · rw [hstart]
    exact hopens.2

theorem window_le_parse (hb : b.Sane) (x : Locals × TracePacket) (site : Site) :
    (b.window site).startTime ≤ ((b.parse env x).window site).startTime ∧
      (b.window site).endTime ≤ ((b.parse env x).window site).endTime := by
  rcases window_parse env hb.wellKept x site with h | ⟨-, -, h⟩
  · rw [h]
    exact ⟨le_rfl, le_rfl⟩
  · rw [h]
    exact checkTime_mono (hb.onGrid site) _

theorem Sane.parse (hb : b.Sane) (env : Platform) (x : Locals × TracePacket) :
    (b.parse env x).Sane := by
  refine ⟨hb.wellKept.next env _, hb.nonneg.trans (curIntStarttime_le_parse hb x), ?_⟩
  intro site
  rcases window_parse env hb.wellKept x site with h | ⟨-, -, h⟩
  · rw [h]
    exact hb.onGrid site
  · rw [h]
    exact checkTime_onGrid (hb.onGrid site) _

/-- Both times only move forward, so a packet that is accepted late could have been
accepted before. -/
theorem Eligible.of_parse (hb : b.Sane) {x : Locals × TracePacket} {pkt : TracePacket}
    (h : (b.parse env x).Eligible env pkt) : b.Eligible env pkt := by
  obtain ⟨⟨hpass, hopens⟩, site, hsite, hstart⟩ := h
  exact ⟨⟨hpass, (curIntStarttime_le_parse hb x).trans hopens⟩, site, hsite,
    (window_le_parse hb x site).1.trans hstart⟩

theorem Moves.of_parse (hb : b.Sane) {x : Locals × TracePacket} {site : Site} {t : Nat}
    (h : Moves ((b.parse env x).window site) t) : Moves (b.window site) t := by
  have hle : (b.window site).startTime ≤ ((b.parse env x).window site).startTime ∧
      (b.window site).endTime ≤ ((b.parse env x).window site).endTime := window_le_parse hb x site
  unfold Moves at *
  omega

end Step

/-- Where the two times are after the packets `pre` of a scan that began in `b`. -/
structure Behind (env : Platform) (b : DisplayStats) (pre : List (Locals × TracePacket))
    (s : DisplayStats) : Prop where
  sane : s.Sane
  eligible : ∀ {pkt}, s.Eligible env pkt → b.Eligible env pkt
  moves : ∀ {site t}, Moves (s.window site) t → Moves (b.window site) t
  window : ∀ site, (s.window site).startTime = (b.window site).startTime ∨
    ∃ x ∈ pre, b.Eligible env x.2 ∧ site ∈ x.2.site env ∧ Moves (b.window site) x.2.newTime ∧
      (s.window site).startTime = x.2.newTime - x.2.newTime % 10
  interval : (s.curIntStarttime = b.curIntStarttime ∧ s.curIntEndtime = b.curIntEndtime ∧
      (b.curIntEndtime = 0 → ∀ x ∈ pre, ¬ b.Opens x.2)) ∨
    (b.curIntEndtime = 0 ∧ s.curIntEndtime ≠ 0 ∧
      ∃ q, (pre.map Prod.snd).find? (fun pkt => b.Opens pkt) = some q ∧
        s.curIntStarttime = q.pktTime)

theorem Behind.step {env : Platform} {b s : DisplayStats} {pre : List (Locals × TracePacket)}
    (h : Behind env b pre s) (x : Locals × TracePacket) :
    Behind env b (pre ++ [x]) (s.parse env x) := by
  refine ⟨h.sane.parse env x, fun he => h.eligible (he.of_parse h.sane),
    fun hm => h.moves (hm.of_parse h.sane), ?_, ?_⟩
  · intro site
    have hold := h.window site
    rcases window_parse env h.sane.wellKept x site with heq | ⟨hopens, hsite, htick⟩
    · rw [heq]
      rcases hold with hold | ⟨y, hy, hrest⟩
      · exact .inl hold
      · exact .inr ⟨y, List.mem_append_left _ hy, hrest⟩
    · rw [htick]
      rcases tick_cases (h.sane.onGrid site) x.2.newTime with hstay | ⟨hle, hmoves, hmove⟩
      · rw [hstay]
        rcases hold with hold | ⟨y, hy, hrest⟩
        · exact .inl hold
        · exact .inr ⟨y, List.mem_append_left _ hy, hrest⟩
      · have helig : s.Eligible env x.2 := ⟨hopens, site, hsite, hle⟩
        exact .inr ⟨x, by simp, h.eligible helig, hsite, h.moves hmoves, hmove⟩
  · rcases interval_parse env h.sane.wellKept x with
      ⟨hstart, hend, hclosed⟩ | ⟨hzero, hopens, hstart, hend⟩
    · rw [hstart, hend]
      rcases h.interval with ⟨hs, he, hnone⟩ | ⟨hb, he, q, hq, hs⟩
      · refine .inl ⟨hs, he, fun hb y hy => ?_⟩
        rcases List.mem_append.mp hy with hy | hy
        · exact hnone hb y hy
        · rw [List.mem_singleton] at hy
          subst hy
          have hopens := hclosed (he.trans hb)
          rw [Opens, hs] at hopens
          exact hopens
      · refine .inr ⟨hb, he, q, ?_, hs⟩
        rw [List.map_append, List.find?_append, hq]
        rfl
    · rcases h.interval with ⟨hs, he, hnone⟩ | ⟨_, he, _⟩
      · have hb : b.curIntEndtime = 0 := he.symm.trans hzero
        have hbopens : b.Opens x.2 := by
          rw [Opens, hs] at hopens
          exact hopens
        have htime : 0 ≤ x.2.pktTime := h.sane.nonneg.trans hopens.2
        refine .inr ⟨hb, ?_, x.2, ?_, hstart⟩
        · rw [hend, TIMEINT]
          omega
        · have hfind : (pre.map Prod.snd).find? (fun pkt => b.Opens pkt) = none := by
            simpa using fun locals pkt hx => hnone hb (locals, pkt) hx
          simp [List.find?_append, hfind, hbopens]
      · exact absurd hzero he

def Before (file file' : List TracePacket) : Prop :=
  ∀ p ∈ file, ∀ q ∈ file', p.seconds < q.seconds

/-- The number of Diameter packets that a scan passes on to the interfaces. -/
def acceptedCount (env : Platform) (b : DisplayStats) (scan : List (Locals × TracePacket)) : Nat :=
  Machine.tally (parse env) (fun b x => if b.Accepted env x then 1 else 0) b scan

/-- The number of accepted packets is the same for every order of the files, whatever the
uninitialised variables hold when a packet is read. -/
def SameInAnyOrder (env : Platform) (b : DisplayStats) (files : List (List TracePacket)) : Prop :=
  ∀ order order' : List (List TracePacket), order.Perm files → order'.Perm files →
    ∀ scan scan' : List (Locals × TracePacket), scan.map Prod.snd = order.flatten →
      scan'.map Prod.snd = order'.flatten →
        b.acceptedCount env scan = b.acceptedCount env scan'

/-- No newer file can move one of the two times beyond a packet of an older file: its
packets for the same interface are in the same ten seconds or do not move the window, and if no
interval is open yet, its first packet is in the same second. -/
def Close (env : Platform) (b : DisplayStats) (files : List (List TracePacket)) : Prop :=
  ∀ file ∈ files, ∀ file' ∈ files, Before file file' → ∀ p ∈ file, b.Eligible env p →
    (b.curIntEndtime = 0 →
      ∀ q ∈ file'.find? (fun pkt => b.Opens pkt), q.pktTime ≤ p.pktTime) ∧
    ∀ q ∈ file', b.Eligible env q → ∀ site ∈ q.site env, site ∈ p.site env →
      Moves (b.window site) q.newTime → q.newTime - q.newTime % 10 ≤ p.newTime

theorem toInt_of_nonneg {q : ℚ} (h : 0 ≤ q) : toInt q = ⌊q⌋ := by
  rw [toInt, Int.tdiv_eq_ediv_of_nonneg (Rat.num_nonneg.mpr h), Rat.floor_def']

theorem toInt_neg (q : ℚ) : toInt (-q) = -toInt q := by
  simp [toInt, Int.neg_tdiv]

theorem toInt_mono {q r : ℚ} (h : q ≤ r) : toInt q ≤ toInt r := by
  have hnonneg {q : ℚ} (hq : 0 ≤ q) : 0 ≤ toInt q := by
    rw [toInt_of_nonneg hq]
    exact Int.floor_nonneg.mpr hq
  rcases le_total 0 q with hq | hq
  · rw [toInt_of_nonneg hq, toInt_of_nonneg (hq.trans h)]
    exact Int.floor_le_floor h
  have hq' : 0 ≤ -q := neg_nonneg.mpr hq
  rcases le_total 0 r with hr | hr
  · have := hnonneg hq'
    have := hnonneg hr
    rw [toInt_neg] at *
    omega
  · have hr' : 0 ≤ -r := neg_nonneg.mpr hr
    have hle : ⌊-r⌋ ≤ ⌊-q⌋ := Int.floor_le_floor (neg_le_neg h)
    rw [← toInt_of_nonneg hr', ← toInt_of_nonneg hq', toInt_neg, toInt_neg] at hle
    omega

theorem exists_file_of_flatten {α : Type*} {order : List (List α)} {pre post : List α} {p : α}
    (h : order.flatten = pre ++ p :: post) :
    ∃ files part rest files', order = files ++ (part ++ p :: rest) :: files' ∧
      pre = files.flatten ++ part := by
  induction order generalizing pre with
  | nil => simp at h
  | cons file order ih =>
    rw [List.flatten_cons, List.append_eq_append_iff] at h
    rcases h with ⟨pre', rfl, hrest⟩ | ⟨part, rfl, hrest⟩
    · obtain ⟨files, part, rest, files', rfl, rfl⟩ := ih hrest
      exact ⟨file :: files, part, rest, files', rfl, by simp⟩
    · cases part with
      | nil =>
        have hnil : order.flatten = [] ++ p :: post := hrest.symm
        obtain ⟨files, part, rest, files', rfl, hpre⟩ := ih hnil
        exact ⟨pre :: files, part, rest, files', by simp, by simp [← hpre]⟩
      | cons p' part =>
        obtain ⟨rfl, -⟩ := List.cons.inj hrest
        exact ⟨[], pre, part, order, rfl, by simp⟩

section Order

variable {env : Platform} {b : DisplayStats} {files order : List (List TracePacket)}

/-- Where a packet of the scan stands: the packets before it are of its own file, and not
newer, or of another file. -/
theorem earlier_in_scan (hsorted : ∀ file ∈ files, file.Pairwise (·.seconds ≤ ·.seconds))
    (hapart : files.Pairwise fun file file' => Before file file' ∨ Before file' file)
    (horder : order.Perm files) {pre post : List TracePacket} {p : TracePacket}
    (h : order.flatten = pre ++ p :: post) :
    ∃ file ∈ files, p ∈ file ∧ ∃ (fs : List (List TracePacket)) (part : List TracePacket),
      pre = fs.flatten ++ part ∧
      (∀ q ∈ part, q.seconds ≤ p.seconds) ∧
      ∀ file' ∈ fs, file' ∈ files ∧ (Before file file' ∨ Before file' file) := by
  obtain ⟨fs, part, rest, fs', rfl, hpre⟩ := exists_file_of_flatten h
  have hsym {f g : List TracePacket} (h : Before f g ∨ Before g f) : Before g f ∨ Before f g :=
    h.symm
  have hpairs := (List.pairwise_append.mp ((horder.pairwise_iff hsym).mpr hapart)).2.2
  have hfile : part ++ p :: rest ∈ files := horder.subset (by simp)
  have hparts := List.pairwise_append.mp (hsorted _ hfile)
  refine ⟨_, hfile, by simp, fs, part, hpre, ?_, ?_⟩
  · intro q hq
    exact hparts.2.2 q hq p (by simp)
  · intro file' hfile'
    exact ⟨horder.subset (by simp [hfile']), (hpairs file' hfile' _ (by simp)).symm⟩

theorem accepted_along (hb : b.Sane)
    (hsorted : ∀ file ∈ files, file.Pairwise (·.seconds ≤ ·.seconds))
    (hapart : files.Pairwise fun file file' => Before file file' ∨ Before file' file)
    (hclose : Close env b files) (horder : order.Perm files)
    {scan : List (Locals × TracePacket)} (hscan : scan.map Prod.snd = order.flatten) :
    Machine.Along (parse env) (fun s x => s.Accepted env x ↔ b.Eligible env x.2) b scan := by
  rw [Machine.along_iff_split]
  rintro pre ⟨locals, p⟩ post rfl
  have hbehind : Behind env b pre (Machine.run (parse env) b pre) := by
    refine Machine.run_history (Q := fun _ _ => True) (I := fun pre s => Behind env b pre s) ?_ ?_
      (Machine.along_true _ _ _)
    · exact ⟨hb, id, id, fun _ => .inl rfl, .inl ⟨rfl, rfl, fun _ x hx => absurd hx List.not_mem_nil⟩⟩
    · exact fun pre x h _ => h.step x
  have hflat : order.flatten = pre.map Prod.snd ++ p :: post.map Prod.snd := by simp [← hscan]
  obtain ⟨file, hfile, hp, fs, part, hpre, hpart, hfs⟩ := earlier_in_scan hsorted hapart horder hflat
  rw [accepted_iff]
  refine ⟨hbehind.eligible, fun helig => ?_⟩
  obtain ⟨⟨hpass, hopens⟩, site, hsite, hstart⟩ := id helig
  have hnewer {file' : List TracePacket} (hmem : file' ∈ fs) (hbefore : Before file file') :=
    hclose file hfile file' (hfs file' hmem).1 hbefore p hp helig
  refine ⟨⟨hpass, ?_⟩, site, hsite, ?_⟩
  · rcases hbehind.interval with ⟨hs, -, -⟩ | ⟨hzero, -, q, hq, hs⟩
    · rw [hs]
      exact hopens
    · rw [hs]
      rw [hpre, List.find?_append, List.find?_flatten] at hq
      cases hfirst : fs.findSome? (List.find? fun pkt => b.Opens pkt) with
      | none =>
        rw [hfirst, Option.none_or] at hq
        exact toInt_mono (hpart q (List.mem_of_find?_eq_some hq))
      | some q' =>
        rw [hfirst, Option.some_or, Option.some.injEq] at hq
        subst hq
        obtain ⟨file', hmem, hfind⟩ := List.exists_of_findSome?_eq_some hfirst
        rcases (hfs file' hmem).2 with hbefore | hbefore
        · exact (hnewer hmem hbefore).1 hzero q' hfind
        · exact toInt_mono (hbefore q' (List.mem_of_find?_eq_some hfind) p hp).le
  · have hearlier {q : TracePacket} (hq : q.seconds ≤ p.seconds) :
        q.newTime - q.newTime % 10 ≤ p.newTime :=
      (Nat.sub_le _ _).trans (Nat.floor_le_floor hq)
    rcases hbehind.window site with hs | ⟨x, hx, hxelig, hxsite, hmoves, hs⟩
    · rw [hs]
      exact hstart
    · rw [hs]
      have hmem : x.2 ∈ pre.map Prod.snd := List.mem_map_of_mem hx
      rw [hpre, List.mem_append, List.mem_flatten] at hmem
      rcases hmem with ⟨file', hmem, hxfile⟩ | hxpart
      · rcases (hfs file' hmem).2 with hbefore | hbefore
        · exact (hnewer hmem hbefore).2 x.2 hxfile hxelig site hxsite hsite hmoves
        · exact hearlier (hbefore x.2 hxfile p hp).le
      · exact hearlier (hpart x.2 hxpart)

theorem acceptedCount_eq (hb : b.Sane)
    (hsorted : ∀ file ∈ files, file.Pairwise (·.seconds ≤ ·.seconds))
    (hapart : files.Pairwise fun file file' => Before file file' ∨ Before file' file)
    (hclose : Close env b files) (horder : order.Perm files)
    {scan : List (Locals × TracePacket)} (hscan : scan.map Prod.snd = order.flatten) :
    b.acceptedCount env scan =
      (files.flatten.map fun pkt => if b.Eligible env pkt then 1 else 0).sum := by
  have halong := accepted_along hb hsorted hapart hclose horder hscan
  have hsum : b.acceptedCount env scan =
      (scan.map fun x => if b.Eligible env x.2 then 1 else 0).sum :=
    Machine.tally_eq_sum (halong.imp fun s x h => if_congr h rfl rfl)
  have hpackets : scan.map (fun x => if b.Eligible env x.2 then 1 else 0) =
      order.flatten.map fun pkt => if b.Eligible env pkt then 1 else 0 := by
    rw [← hscan, List.map_map]
    rfl
  rw [hsum, hpackets]
  exact (horder.flatten.map _).sum_eq

end Order

/-- After any trace, the order of the files makes no difference if they are close enough
together. -/
theorem same_in_any_order_of_close (env : Platform) (ppkt : MPacket)
    (trace : List (Locals × TracePacket)) {files : List (List TracePacket)}
    (hsorted : ∀ file ∈ files, file.Pairwise (·.seconds ≤ ·.seconds))
    (hapart : files.Pairwise fun file file' => Before file file' ∨ Before file' file)
    (hclose : Close env (Machine.run (parse env) (initial ppkt) trace) files) :
    SameInAnyOrder env (Machine.run (parse env) (initial ppkt) trace) files := by
  have hsane : (Machine.run (parse env) (initial ppkt) trace).Sane :=
    Machine.run_invariant (fun _ x h => h.parse env x) (sane_initial ppkt) trace
  intro order order' horder horder' scan scan' hscan hscan'
  rw [acceptedCount_eq hsane hsorted hapart hclose horder hscan,
    acceptedCount_eq hsane hsorted hapart hclose horder' hscan']

def gxPacket (seconds : ℚ) : TracePacket :=
  .sample (.ip 0x0A000001 0x0A000002) .TCP 3868
    (gxAnswerMessage [resultCodeAvp, requestTypeAvp] gxAnswer_fits).buffer seconds

theorem same_in_any_order_of_close_second :
    let files := [[gxPacket 1000.7], [gxPacket 1000.2]]
    (∀ file ∈ files, file.Pairwise (·.seconds ≤ ·.seconds)) ∧
      files.Pairwise (fun file file' => Before file file' ∨ Before file' file) ∧
      Close .plain (initial .zero) files ∧ SameInAnyOrder .plain (initial .zero) files := by
  intro files
  have hsorted : ∀ file ∈ files, file.Pairwise (·.seconds ≤ ·.seconds) := by simp [files]
  have hapart : files.Pairwise fun file file' => Before file file' ∨ Before file' file := by
    have hbefore : Before [gxPacket 1000.2] [gxPacket 1000.7] := by
      intro p hp q hq
      rw [List.mem_singleton] at hp hq
      subst hp hq
      decide +kernel
    simp [files, hbefore]
  have htimes : ∀ file ∈ files, ∀ p ∈ file, p.pktTime = 1000 ∧ p.newTime = 1000 := by
    decide +kernel
  have hclose : Close .plain (initial .zero) files := by
    intro file hfile file' hfile' _ p hp _
    have hptime := htimes file hfile p hp
    constructor
    · intro _ q hq
      have hqtime := htimes file' hfile' q (List.mem_of_find?_eq_some hq)
      rw [hptime.1, hqtime.1]
    · intro q hq _ _ _ _ _
      have hqtime := htimes file' hfile' q hq
      rw [hptime.2, hqtime.2]
  exact ⟨hsorted, hapart, hclose,
    same_in_any_order_of_close .plain .zero [] hsorted hapart hclose⟩

/-- With the newer file listed first the older one is dropped: on a fresh object by
`displayStats`, and after a first packet by the window of the interface. -/
theorem newer_file_first_drops_older :
    let b := initial .zero
    let b' := b.parse .plain (.zero, gxPacket 1467891590)
    let scan := [gxPacket 1467891599, gxPacket 1467891601].map fun pkt => (Locals.zero, pkt)
    Before [gxPacket 1467891599] [gxPacket 1467891601] ∧
      b.acceptedCount .plain scan = 2 ∧ b.acceptedCount .plain scan.reverse = 1 ∧
      b'.acceptedCount .plain scan = 2 ∧ b'.acceptedCount .plain scan.reverse = 1 ∧
      ¬ SameInAnyOrder .plain b [[gxPacket 1467891599], [gxPacket 1467891601]] ∧
      ¬ SameInAnyOrder .plain b' [[gxPacket 1467891599], [gxPacket 1467891601]] := by
  intro b b' scan
  have hbefore : Before [gxPacket 1467891599] [gxPacket 1467891601] := by
    intro p hp q hq
    rw [List.mem_singleton] at hp hq
    subst hp hq
    decide +kernel
  have hold : b.acceptedCount .plain scan = 2 := by decide +kernel
  have hnew : b.acceptedCount .plain scan.reverse = 1 := by decide +kernel
  have hold' : b'.acceptedCount .plain scan = 2 := by decide +kernel
  have hnew' : b'.acceptedCount .plain scan.reverse = 1 := by decide +kernel
  refine ⟨hbefore, hold, hnew, hold', hnew', fun h => ?_, fun h => ?_⟩
  · have hsame := h _ [[gxPacket 1467891601], [gxPacket 1467891599]] .rfl (.swap _ _ _) scan
      scan.reverse rfl rfl
    rw [hold, hnew] at hsame
    exact absurd hsame (by decide)
  · have hsame := h _ [[gxPacket 1467891601], [gxPacket 1467891599]] .rfl (.swap _ _ _) scan
      scan.reverse rfl rfl
    rw [hold', hnew'] at hsame
    exact absurd hsame (by decide)

end DisplayStats

end AnalysePcap
