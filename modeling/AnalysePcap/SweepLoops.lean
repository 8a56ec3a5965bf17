import AnalysePcap.EraseLoop
import AnalysePcap.Interface

/-! The loops of `printStats` that time requests out, with the iterators that they run on. -/

namespace AnalysePcap

namespace DiameterInterface

variable {K : InterfaceKind} {s : DiameterInterface K}

/-- The two loops from `reqIt = req.begin()` on, run for as many rounds as given. The list
holds the entries that `reqIt1` pointed to, in this order. -/
def sweepLoops (s : DiameterInterface K) (rounds : Nat) :
    Option (DiameterInterface K × List (Nat × Nat)) :=
  (NestedTable.eraseLoops (expired s.endTime) (fun k st => st.timeOut (K.index k)) rounds rounds
    (NestedTable.begin s.req) s.req s.stats).map fun r =>
      ({ s with stats := r.2.1, req := r.1 }, r.2.2)

theorem sweepLoops_eq_sweep {rounds : Nat} (h : NestedTable.enough s.req ≤ rounds) :
    s.sweepLoops rounds = some (s.sweep, NestedTable.places s.req.entries) := by
  rw [sweepLoops, NestedTable.eraseLoops_eq_sweep _ _ s.req h s.stats]
  rfl

theorem sweep_timedOut (hkeys : ∀ k ∈ s.req, K.IsType k) (i : Fin K.size) :
    s.sweep.stats.attempts i = s.stats.attempts i +
        (NestedTable.selected (expired s.endTime) (s.req.row (K.typeAt i))).length ∧
      s.sweep.stats.timeoutCount i = s.stats.timeoutCount i +
        (NestedTable.selected (expired s.endTime) (s.req.row (K.typeAt i))).length := by
  have hself := (index_eq_iff (isType_typeAt i) i).mpr rfl
  constructor
  · refine NestedTable.sweep_measure (m := fun st : Stats K.size => st.attempts i) ?_ ?_ s.stats
    · intro st
      simp [Stats.timeOut, addAt, hself]
    · intro k hk hne st
      simp only [Stats.timeOut, addAt, index_eq_iff (hkeys k hk) i, if_neg hne]
  · refine NestedTable.sweep_measure (m := fun st : Stats K.size => st.timeoutCount i) ?_ ?_
      s.stats
    · intro st
      simp [Stats.timeOut, addAt, hself]
    · intro k hk hne st
      simp only [Stats.timeOut, addAt, index_eq_iff (hkeys k hk) i, if_neg hne]

theorem sweep_others (s : DiameterInterface K) :
    s.sweep.stats = { s.stats with
      attempts := s.sweep.stats.attempts
      timeoutCount := s.sweep.stats.timeoutCount } :=
  NestedTable.sweep_invariant
    (P := fun st : Stats K.size => st = { s.stats with
      attempts := st.attempts
      timeoutCount := st.timeoutCount })
    (fun k _ st hst => by rw [hst]; rfl) rfl

/-- The removed entries of a type among those visited. -/
def removed (s' : DiameterInterface K) (visited : List (Nat × Nat)) (k : Nat) : Nat :=
  visited.countP fun e => e.1 = k ∧ s'.req.get? e.1 e.2 = none

theorem removed_sweep (k : Nat) :
    s.sweep.removed (NestedTable.places s.req.entries) k =
      (NestedTable.selected (expired s.endTime) (s.req.row k)).length := by
  have hperm : ((NestedTable.places s.req.entries).filter
      fun e => e.1 = k ∧ s.sweep.req.get? e.1 e.2 = none).Perm
      ((NestedTable.selected (expired s.endTime) (s.req.row k)).map (Prod.mk k)) := by
    refine (List.perm_ext_iff_of_nodup ((NestedTable.places_nodup s.req).filter _)
      ((NestedTable.selected_nodup _ _).map fun h h' he => (Prod.mk.inj he).2)).mpr ?_
    rintro ⟨k', h⟩
    have hget : s.sweep.req.get? k' h =
        (s.req.get? k' h).filter fun ts => !expired s.endTime ts :=
      NestedTable.get?_sweep _ _ _ _ _ _
    simp only [List.mem_filter, NestedTable.mem_places, List.mem_map, NestedTable.mem_selected,
      Prod.mk.injEq, decide_eq_true_eq, hget]
    constructor
    · rintro ⟨⟨ts, hts⟩, rfl, hnone⟩
      rw [hts] at hnone
      exact ⟨h, ⟨ts, hts, by simpa using hnone⟩, rfl, rfl⟩
    · rintro ⟨h', ⟨ts, hts, hp⟩, rfl, rfl⟩
      exact ⟨⟨ts, hts⟩, rfl, by simp [hts, hp]⟩
  rw [removed, List.countP_eq_length_filter, hperm.length_eq, List.length_map]

/-- What the loops leave of a state, after they visited the entries listed. -/
structure Swept (s s' : DiameterInterface K) (visited : List (Nat × Nat)) : Prop where
  once : visited.Nodup
  all : ∀ k h, (k, h) ∈ visited ↔ ∃ ts, s.req.get? k h = some ts
  types : ∀ k, k ∈ s'.req ↔ k ∈ s.req
  kept : ∀ k h ts, s'.req.get? k h = some ts ↔
    s.req.get? k h = some ts ∧ s.endTime ≤ ts + DIAMETER_TIMEOUT
  timeoutCount : ∀ i : Fin K.size, s'.stats.timeoutCount i =
    s.stats.timeoutCount i + s'.removed visited (K.typeAt i)
  attempts : ∀ i : Fin K.size, s'.stats.attempts i =
    s.stats.attempts i + s'.removed visited (K.typeAt i)
  others : s' = { s with
    req := s'.req
    stats := { s.stats with
      attempts := s'.stats.attempts
      timeoutCount := s'.stats.timeoutCount } }

theorem swept_sweep (hkeys : ∀ k ∈ s.req, K.IsType k) :
    Swept s s.sweep (NestedTable.places s.req.entries) where
  once := NestedTable.places_nodup s.req
  all _ _ := NestedTable.mem_places
  types _ := NestedTable.mem_sweep
  kept k h ts := by
    have hget : s.sweep.req.get? k h =
        (s.req.get? k h).filter fun ts => !expired s.endTime ts :=
      NestedTable.get?_sweep _ _ _ _ _ _
    rw [hget, Option.filter_eq_some_iff]
    simp [expired]
  timeoutCount i := by rw [(sweep_timedOut hkeys i).2, removed_sweep]
  attempts i := by rw [(sweep_timedOut hkeys i).1, removed_sweep]
  others := by
    rw [← sweep_others]
    rfl

theorem stats_sweep_of_sameContent (hkeys : ∀ k ∈ s.req, K.IsType k) {t : NestedTable Nat Nat ℚ}
    (ht : NestedTable.SameContent s.req t) : { s with req := t }.sweep.stats = s.sweep.stats := by
  have hkeys' : ∀ k ∈ t, K.IsType k := fun k hk => hkeys k ((ht.mem k).mpr hk)
  have hlength := ht.length_selected (expired s.endTime)
  have hsame := sweep_timedOut (s := { s with req := t }) hkeys'
  have hattempts : { s with req := t }.sweep.stats.attempts = s.sweep.stats.attempts := by
    funext i
    rw [(sweep_timedOut hkeys i).1, (hsame i).1, hlength]
  have htimeouts : { s with req := t }.sweep.stats.timeoutCount = s.sweep.stats.timeoutCount := by
    funext i
    rw [(sweep_timedOut hkeys i).2, (hsame i).2, hlength]
  rw [sweep_others, sweep_others s, hattempts, htimeouts]

end DiameterInterface

open DiameterInterface

/-- The loops end, whatever the order of the entries is, and this order makes no difference
to the counters and to what is left. -/
theorem sweepLoops_swept {K : InterfaceKind} (s : DiameterInterface K)
    (hkeys : ∀ k ∈ s.req, K.IsType k) :
    ∃ rounds s' visited, (∀ n, rounds ≤ n → s.sweepLoops n = some (s', visited)) ∧
      Swept s s' visited ∧
      ∀ t, NestedTable.SameContent s.req t →
        ∃ rounds' s'' visited',
          (∀ n, rounds' ≤ n → { s with req := t }.sweepLoops n = some (s'', visited')) ∧
          s''.stats = s'.stats ∧ NestedTable.SameContent s'.req s''.req := by
  refine ⟨_, _, _, fun n hn => sweepLoops_eq_sweep hn, swept_sweep hkeys, ?_⟩
  intro t ht
  exact ⟨_, _, _, fun n hn => sweepLoops_eq_sweep hn, stats_sweep_of_sameContent hkeys ht,
    ht.sweep _ _ _ _⟩

def pendingGx : GxInterface :=
  { (initial : GxInterface) with
    startTime := 20
    endTime := 30
    req := ((NestedTable.set ∅ 1 7 12).set 1 8 28).set 3 7 24 }

theorem sweepLoops_swept_pendingGx :
    (∀ k ∈ pendingGx.req, InterfaceKind.gx.IsType k) ∧
      ∃ rounds s' visited, (∀ n, rounds ≤ n → pendingGx.sweepLoops n = some (s', visited)) ∧
        Swept pendingGx s' visited := by
  have hkeys : ∀ k ∈ pendingGx.req, InterfaceKind.gx.IsType k := by
    intro k hk
    rcases NestedTable.mem_set.mp hk with rfl | hk
    · exact ⟨by decide, by decide⟩
    · rcases NestedTable.mem_set.mp hk with rfl | hk
      · exact ⟨by decide, by decide⟩
      · rcases NestedTable.mem_set.mp hk with rfl | hk
        · exact ⟨by decide, by decide⟩
        · exact absurd hk (AList.notMem_empty k)
  obtain ⟨rounds, s', visited, hloop, hswept, _⟩ := sweepLoops_swept pendingGx hkeys
  exact ⟨hkeys, rounds, s', visited, hloop, hswept⟩

end AnalysePcap
