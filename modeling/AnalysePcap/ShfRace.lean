import AnalysePcap.ByteMemory
import AnalysePcap.Run
import Mathlib.Data.Fintype.Card

/-! The start of a race between threads or processes, the horses. Each one counts itself in a byte
of the shared memory, with an addition to the eight bytes from there on, and waits until the byte
is the number of the horses. Up to 255 of them start together. -/

namespace AnalysePcap

open ByteMemory

/-- Where a horse is in `shf_race_start`. It is `out` when it has waited too long, and its process
has ended. -/
inductive RacePc where
  | before
  | waiting
  | started
  | out
  deriving DecidableEq

inductive RaceEvent (ι : Type) where
  | arrive (i : ι)
  | poll (i : ι)
  | timeout (i : ι)

structure RaceSystem (ι : Type) where
  mem : Memory
  pc : ι → RacePc

/-- `__sync_fetch_and_add_8 (race_line, 1)`. -/
def syncFetchAndAdd8 (m : Memory) (race_line : Nat) : Memory :=
  storeU64 m race_line ((loadU64 m race_line + 1) % 2 ^ 64)

namespace RaceSystem

variable {ι : Type}

/-- After `shf_race_init`, which has put a value of one byte. -/
def init (mem : Memory) (race_line : Nat) : RaceSystem ι :=
  ⟨Function.update mem race_line 0, fun _ => .before⟩

section Run

variable [DecidableEq ι]

/-- `shf_race_start`: the addition, one look of the loop at the byte, and the end of the time. -/
def next (race_line horses : Nat) (s : RaceSystem ι) : RaceEvent ι → RaceSystem ι
  | .arrive i =>
    if s.pc i = .before then
      ⟨syncFetchAndAdd8 s.mem race_line, Function.update s.pc i .waiting⟩
    else s
  | .poll i =>
    if s.pc i = .waiting ∧ horses = (s.mem race_line).toNat then
      { s with pc := Function.update s.pc i .started }
    else s
  | .timeout i =>
    if s.pc i = .waiting then { s with pc := Function.update s.pc i .out } else s

def run (race_line horses : Nat) (s : RaceSystem ι) (es : List (RaceEvent ι)) : RaceSystem ι :=
  Machine.run (next race_line horses) s es

section Pcs

variable {race_line horses : Nat} {s : RaceSystem ι}

theorem update_ne_started (h : ∀ i, s.pc i ≠ .started) {a : RacePc} (ha : a ≠ .started) (j i : ι) :
    Function.update s.pc j a i ≠ .started := by
  by_cases hij : i = j
  · rw [hij, Function.update_self]
    exact ha
  · rw [Function.update_of_ne hij]
    exact h i

/-- With more horses than a byte can count, none ever starts. -/
theorem never_started (hhorses : 256 ≤ horses) (h : ∀ i, s.pc i ≠ .started)
    (es : List (RaceEvent ι)) : ∀ i, (s.run race_line horses es).pc i ≠ .started := by
  refine Machine.run_invariant (P := fun t : RaceSystem ι => ∀ i, t.pc i ≠ .started) ?_ h es
  intro t e ht
  cases e with
  | arrive j =>
    simp only [next]
    split_ifs
    · exact update_ne_started ht (by decide) j
    · exact ht
  | poll j =>
    have hbyte := (t.mem race_line).isLt
    have hne : ¬(t.pc j = .waiting ∧ horses = (t.mem race_line).toNat) := by omega
    simp only [next, if_neg hne]
    exact ht
  | timeout j =>
    simp only [next]
    split_ifs
    · exact update_ne_started ht (by decide) j
    · exact ht

theorem pc_run_arrive (l : List ι) (s : RaceSystem ι) (i : ι) :
    (s.run race_line horses (l.map .arrive)).pc i =
      if i ∈ l ∧ s.pc i = .before then .waiting else s.pc i := by
  induction l generalizing s with
  | nil => simp [run]
  | cons j l ih =>
    have hstep : s.run race_line horses ((j :: l).map .arrive) =
        (s.next race_line horses (.arrive j)).run race_line horses (l.map .arrive) := rfl
    rw [hstep, ih]
    by_cases hij : i = j
    · subst hij
      by_cases hbefore : s.pc i = .before <;> simp [next, hbefore]
    · by_cases hbefore : s.pc j = .before <;> simp [next, hbefore, hij]

end Pcs

end Run

variable [Fintype ι]

/-- The horses that have counted themselves. -/
def arrived (s : RaceSystem ι) : Finset ι := Finset.univ.filter fun i => s.pc i ≠ .before

theorem mem_arrived {s : RaceSystem ι} {i : ι} : i ∈ s.arrived ↔ s.pc i ≠ .before := by
  simp [arrived]

/-- The byte counts the horses, and no other byte has changed. -/
structure Counts (mem : Memory) (race_line : Nat) (s : RaceSystem ι) : Prop where
  mem : s.mem = Function.update mem race_line (BitVec.ofNat 8 s.arrived.card)
  started : ∀ i, s.pc i = .started → s.arrived = Finset.univ

theorem counts_init (mem : Memory) (race_line : Nat) :
    Counts mem race_line (init mem race_line : RaceSystem ι) where
  mem := by
    have hnone : (init mem race_line : RaceSystem ι).arrived = ∅ := by simp [arrived, init]
    rw [hnone]
    rfl
  started _ h := nomatch h

theorem Counts.byte {mem : Memory} {race_line horses : Nat} {s : RaceSystem ι}
    (h : Counts mem race_line s) (hcard : Fintype.card ι = horses)
    (hhorses : horses < 256) : (s.mem race_line).toNat = s.arrived.card := by
  have hle : s.arrived.card ≤ horses := hcard ▸ Finset.card_le_univ _
  rw [h.mem, Function.update_self, BitVec.toNat_ofNat]
  exact Nat.mod_eq_of_lt (by omega)

section Steps

variable [DecidableEq ι] {mem : Memory} {race_line horses : Nat} {s : RaceSystem ι} {i : ι}

theorem arrived_arrive (s : RaceSystem ι) (i : ι) (m : Memory) :
    (⟨m, Function.update s.pc i .waiting⟩ : RaceSystem ι).arrived = insert i s.arrived := by
  ext j
  rw [Finset.mem_insert, mem_arrived, mem_arrived]
  by_cases hj : j = i
  · subst hj
    simp
  · simp [hj]

/-- A horse that has counted itself stays counted. -/
theorem arrived_update (h : s.pc i ≠ .before) {a : RacePc} (ha : a ≠ .before) :
    ({ s with pc := Function.update s.pc i a } : RaceSystem ι).arrived = s.arrived := by
  ext j
  rw [mem_arrived, mem_arrived]
  by_cases hj : j = i
  · subst hj
    simp [h, ha]
  · simp [hj]

theorem Counts.arrive (h : Counts mem race_line s) (hcard : Fintype.card ι = horses)
    (hhorses : horses < 256) (hbefore : s.pc i = .before) :
    Counts mem race_line
      ⟨syncFetchAndAdd8 s.mem race_line, Function.update s.pc i .waiting⟩ := by
  have hnew : i ∉ s.arrived := fun hi => mem_arrived.mp hi hbefore
  have hless : s.arrived.card < horses := hcard ▸ Finset.card_lt_univ_of_notMem hnew
  have hbyte := h.byte hcard hhorses
  constructor
  · rw [arrived_arrive, Finset.card_insert_of_notMem hnew]
    simp only [syncFetchAndAdd8]
    rw [storeU64_succ (by omega), h.mem, Function.update_self, Function.update_idem,
      BitVec.ofNat_add]
    rfl
  · intro j hj
    by_cases hji : j = i
    · subst hji
      simp at hj
    · have hall := h.started j (by simpa [hji] using hj)
      exact absurd (hall ▸ Finset.mem_univ i) hnew

theorem Counts.next (h : Counts mem race_line s) (hcard : Fintype.card ι = horses)
    (hhorses : horses < 256) (e : RaceEvent ι) :
    Counts mem race_line (s.next race_line horses e) := by
  cases e with
  | arrive i =>
    simp only [RaceSystem.next]
    split_ifs with hbefore
    · exact h.arrive hcard hhorses hbefore
    · exact h
  | poll i =>
    simp only [RaceSystem.next]
    split_ifs with hpoll
    · have hbusy : s.pc i ≠ .before := by
        rw [hpoll.1]
        decide
      have hsame := arrived_update hbusy (show RacePc.started ≠ .before by decide)
      refine ⟨by rw [hsame]; exact h.mem, fun j _ => ?_⟩
      rw [hsame, ← Finset.card_eq_iff_eq_univ, hcard, ← h.byte hcard hhorses]
      exact hpoll.2.symm
    · exact h
  | timeout i =>
    simp only [RaceSystem.next]
    split_ifs with hwait
    · have hbusy : s.pc i ≠ .before := by
        rw [hwait]
        decide
      have hsame := arrived_update hbusy (show RacePc.out ≠ .before by decide)
      refine ⟨by rw [hsame]; exact h.mem, fun j hj => ?_⟩
      rw [hsame]
      by_cases hji : j = i
      · subst hji
        simp at hj
      · exact h.started j (by simpa [hji] using hj)
    · exact h

theorem counts_run (mem : Memory) (race_line : Nat) (hcard : Fintype.card ι = horses)
    (hhorses : horses < 256) (es : List (RaceEvent ι)) :
    Counts mem race_line ((init mem race_line).run race_line horses es) := by
  refine Machine.run_invariant (P := Counts mem race_line) ?_ (counts_init mem race_line) es
  intro t e ht
  exact ht.next hcard hhorses e

end Steps

section Results

variable [DecidableEq ι]

/-- No horse starts before all have come, and no byte but that of the race is written. -/
theorem start_together (mem : Memory) (race_line horses : Nat) (hcard : Fintype.card ι = horses)
    (hhorses : horses < 256) (es : List (RaceEvent ι)) :
    (∀ i, ((init mem race_line).run race_line horses es).pc i = .started →
        ∀ j, ((init mem race_line).run race_line horses es).pc j ≠ .before) ∧
      ∀ x, x ≠ race_line → ((init mem race_line).run race_line horses es).mem x = mem x := by
  have hcounts := counts_run mem race_line hcard hhorses es
  constructor
  · intro i hi j
    have hall := hcounts.started i hi
    exact mem_arrived.mp (hall ▸ Finset.mem_univ j)
  · intro x hx
    rw [hcounts.mem, Function.update_of_ne hx]

theorem start_together_two :
    ((init (fun _ => 7) 3).run 3 2 [.arrive true, .poll true, .arrive false, .poll false]).mem 4 =
      7 :=
  (start_together (fun _ => 7) 3 2 (Fintype.card_bool) (by decide) _).2 4 (by decide)

/-- A horse can start exactly if a byte can count the horses. -/
theorem can_start_iff (mem : Memory) (race_line horses : Nat) (hcard : Fintype.card ι = horses)
    (i : ι) :
    (∃ es, ((init mem race_line).run race_line horses es).pc i = .started) ↔ horses < 256 := by
  constructor
  · rintro ⟨es, hstarted⟩
    by_contra hmany
    have hnone (j : ι) : (init mem race_line : RaceSystem ι).pc j ≠ .started := by
      show RacePc.before ≠ .started
      decide
    exact never_started (by omega) hnone es i hstarted
  · intro hhorses
    have hwait (j : ι) : ((init mem race_line).run race_line horses
        (Finset.univ.toList.map .arrive)).pc j = .waiting := by
      rw [pc_run_arrive, if_pos ⟨Finset.mem_toList.mpr (Finset.mem_univ j), rfl⟩]
    have hcounts := counts_run mem race_line hcard hhorses (Finset.univ.toList.map .arrive)
    have hall : ((init mem race_line).run race_line horses
        (Finset.univ.toList.map .arrive)).arrived = (Finset.univ : Finset ι) := by
      refine Finset.eq_univ_of_forall fun j => mem_arrived.mpr ?_
      rw [hwait j]
      decide
    have hbyte := hcounts.byte hcard hhorses
    rw [hall, Finset.card_univ, hcard] at hbyte
    refine ⟨Finset.univ.toList.map .arrive ++ [.poll i], ?_⟩
    have hlast : (init mem race_line).run race_line horses
        (Finset.univ.toList.map .arrive ++ [.poll i]) =
        ((init mem race_line).run race_line horses (Finset.univ.toList.map .arrive)).next
          race_line horses (.poll i) := Machine.run_concat _ _ _ _
    rw [hlast]
    simp only [RaceSystem.next, if_pos (And.intro (hwait i) hbyte.symm), Function.update_self]

theorem can_start_iff_many :
    (∃ es, ((init (fun _ => 0) 3).run 3 256 es).pc (0 : Fin 256) = .started) ↔ 256 < 256 :=
  can_start_iff (fun _ => 0) 3 256 (Fintype.card_fin 256) 0

end Results

end RaceSystem

end AnalysePcap
