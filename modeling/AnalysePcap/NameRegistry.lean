import Mathlib.Data.List.Nodup
import Mathlib.Data.Set.Insert
import Mathlib.Logic.Function.Basic

/-! Several parties give names to keys through one shared list of entries. A party that
finds no entry for its key chooses a name for which nothing has been made yet, adds an
entry and then makes the thing of that name. The two guards of `Step` say what keeps
them out of each other's way. -/

namespace NameRegistry

variable {κ ν ι : Type*}

inductive Status (ν : Type*) where
  | idle
  | choosing
  | chosen (n : ν)
  | bound (n : ν)
  | finished (n : ν)

/-- The party has found no entry and not yet added one. -/
def Status.Undecided : Status ν → Prop
  | .choosing => True
  | .chosen _ => True
  | _ => False

/-- The party is going to make the thing of this name. -/
def Status.Holds (n : ν) : Status ν → Prop
  | .chosen m => m = n
  | .bound m => m = n
  | _ => False

structure Registry (κ ν ι : Type*) where
  entries : List (κ × ν)
  made : Set ν
  status : ι → Status ν

section Update

variable [DecidableEq ι]

def Registry.set (r : Registry κ ν ι) (p : ι) (status : Status ν) : Registry κ ν ι :=
  { r with status := Function.update r.status p status }

theorem Registry.set_iff (P : Status ν → Prop) {r : Registry κ ν ι} {p q : ι} {status : Status ν} :
    P ((r.set p status).status q) ↔ q = p ∧ P status ∨ q ≠ p ∧ P (r.status q) := by
  by_cases hq : q = p
  · subst hq
    simp [set]
  · simp [set, hq]

inductive Step (key : ι → κ) (r : Registry κ ν ι) : Registry κ ν ι → Prop
  | other (n : ν) : Step key r { r with made := insert n r.made }
  | find (p : ι) (n : ν) : r.status p = .idle → (key p, n) ∈ r.entries →
      Step key r (r.set p (.bound n))
  | miss (p : ι) : r.status p = .idle → key p ∉ r.entries.map Prod.fst →
      (∀ q, key q = key p → ¬ (r.status q).Undecided) → Step key r (r.set p .choosing)
  | choose (p : ι) (n : ν) : r.status p = .choosing → n ∉ r.made →
      (∀ q, ¬ (r.status q).Holds n) → Step key r (r.set p (.chosen n))
  | publish (p : ι) (n : ν) : r.status p = .chosen n →
      Step key r { r.set p (.bound n) with entries := r.entries ++ [(key p, n)] }
  | make (p : ι) (n : ν) : r.status p = .bound n →
      Step key r { r.set p (.finished n) with made := insert n r.made }

end Update

structure Kept (key : ι → κ) (r : Registry κ ν ι) : Prop where
  keys : (r.entries.map Prod.fst).Nodup
  values : (r.entries.map Prod.snd).Nodup
  entry : ∀ {p n}, r.status p = .bound n ∨ r.status p = .finished n → (key p, n) ∈ r.entries
  undecided : ∀ {p}, (r.status p).Undecided → key p ∉ r.entries.map Prod.fst
  apart : ∀ {p q}, (r.status p).Undecided → (r.status q).Undecided → key p = key q → p = q
  fresh : ∀ {p n}, r.status p = .chosen n → n ∉ r.entries.map Prod.snd
  alone : ∀ {p q n}, r.status p = .chosen n → r.status q = .chosen n → p = q
  created : ∀ {k n}, (k, n) ∈ r.entries → n ∈ r.made ∨ ∃ p, r.status p = .bound n

variable {key : ι → κ} {r : Registry κ ν ι}

theorem eq_of_mem_of_fst {l : List (κ × ν)} (h : (l.map Prod.fst).Nodup) {k : κ} {m n : ν}
    (hm : (k, m) ∈ l) (hn : (k, n) ∈ l) : m = n :=
  congrArg Prod.snd (List.inj_on_of_nodup_map h hm hn rfl)

theorem eq_of_mem_of_snd {l : List (κ × ν)} (h : (l.map Prod.snd).Nodup) {k k' : κ} {n : ν}
    (hk : (k, n) ∈ l) (hk' : (k', n) ∈ l) : k = k' :=
  congrArg Prod.fst (List.inj_on_of_nodup_map h hk hk' rfl)

/-- Parties that have finished have the same name exactly if they have the same key. -/
theorem Kept.consistent (hr : Kept key r) {p q : ι} {m n : ν} (hp : r.status p = .finished m)
    (hq : r.status q = .finished n) : key p = key q ↔ m = n := by
  have hpm := hr.entry (.inr hp)
  have hqn := hr.entry (.inr hq)
  constructor
  · intro hkey
    rw [hkey] at hpm
    exact eq_of_mem_of_fst hr.keys hpm hqn
  · rintro rfl
    exact eq_of_mem_of_snd hr.values hpm hqn

theorem Kept.other (hr : Kept key r) (n : ν) : Kept key { r with made := insert n r.made } := by
  refine ⟨hr.keys, hr.values, hr.entry, hr.undecided, hr.apart, hr.fresh, hr.alone, ?_⟩
  intro k m hm
  rcases hr.created hm with hmade | hbound
  · exact .inl (Set.mem_insert_of_mem n hmade)
  · exact .inr hbound

variable [DecidableEq ι]

theorem Kept.set (hr : Kept key r) {p : ι} {status : Status ν}
    (hentry : ∀ n, status = .bound n ∨ status = .finished n → (key p, n) ∈ r.entries)
    (hundecided : status.Undecided → key p ∉ r.entries.map Prod.fst ∧
      ∀ q ≠ p, key q = key p → ¬ (r.status q).Undecided)
    (hchosen : ∀ n, status = .chosen n → n ∉ r.entries.map Prod.snd ∧
      ∀ q ≠ p, r.status q ≠ .chosen n)
    (hbound : ∀ n, r.status p = .bound n → n ∈ r.made) : Kept key (r.set p status) := by
  refine ⟨hr.keys, hr.values, ?_, ?_, ?_, ?_, ?_, ?_⟩
  · intro q n hq
    rcases (Registry.set_iff fun s => s = .bound n ∨ s = .finished n).mp hq with ⟨rfl, h⟩ | ⟨-, h⟩
    · exact hentry n h
    · exact hr.entry h
  · intro q hq
    rcases (Registry.set_iff Status.Undecided).mp hq with ⟨rfl, h⟩ | ⟨-, h⟩
    · exact (hundecided h).1
    · exact hr.undecided h
  · intro q q' hq hq' hkey
    rcases (Registry.set_iff Status.Undecided).mp hq with ⟨rfl, h⟩ | ⟨hne, h⟩ <;>
      rcases (Registry.set_iff Status.Undecided).mp hq' with ⟨rfl, h'⟩ | ⟨hne', h'⟩
    · rfl
    · exact absurd h' ((hundecided h).2 q' hne' hkey.symm)
    · exact absurd h ((hundecided h').2 q hne hkey)
    · exact hr.apart h h' hkey
  · intro q n hq
    rcases (Registry.set_iff (· = .chosen n)).mp hq with ⟨rfl, h⟩ | ⟨-, h⟩
    · exact (hchosen n h).1
    · exact hr.fresh h
  · intro q q' n hq hq'
    rcases (Registry.set_iff (· = .chosen n)).mp hq with ⟨rfl, h⟩ | ⟨hne, h⟩ <;>
      rcases (Registry.set_iff (· = .chosen n)).mp hq' with ⟨rfl, h'⟩ | ⟨hne', h'⟩
    · rfl
    · exact absurd h' ((hchosen n h).2 q' hne')
    · exact absurd h ((hchosen n h').2 q hne)
    · exact hr.alone h h'
  · intro k n hn
    rcases hr.created hn with hmade | ⟨q, hq⟩
    · exact .inl hmade
    · by_cases hqp : q = p
      · subst hqp
        exact .inl (hbound n hq)
      · exact .inr ⟨q, (Registry.set_iff (· = .bound n)).mpr (.inr ⟨hqp, hq⟩)⟩

theorem Kept.choose (hr : Kept key r) {p : ι} {n : ν} (hp : r.status p = .choosing)
    (hmade : n ∉ r.made) (hfree : ∀ q, ¬ (r.status q).Holds n) :
    Kept key (r.set p (.chosen n)) := by
  have hund : (r.status p).Undecided := by
    rw [hp]
    trivial
  refine hr.set (fun m h => by simp at h) (fun _ => ⟨hr.undecided hund, ?_⟩) ?_
    (fun m h => by simp [hp] at h)
  · intro q hq hkey hqund
    exact hq (hr.apart hqund hund hkey)
  · rintro m hm
    obtain rfl : n = m := by simpa using hm
    constructor
    · intro hvalue
      obtain ⟨⟨k, _⟩, hmem, rfl⟩ := List.mem_map.mp hvalue
      rcases hr.created hmem with h | ⟨q, hq⟩
      · exact hmade h
      · refine hfree q ?_
        rw [hq]
        rfl
    · intro q _ hq
      refine hfree q ?_
      rw [hq]
      rfl

theorem Kept.publish (hr : Kept key r) {p : ι} {n : ν} (hp : r.status p = .chosen n) :
    Kept key { r.set p (.bound n) with entries := r.entries ++ [(key p, n)] } := by
  have hund : (r.status p).Undecided := by
    rw [hp]
    trivial
  have hkey := hr.undecided hund
  have hvalue := hr.fresh hp
  have hother {q : ι} (P : Status ν → Prop) (hP : ¬ P (.bound n))
      (hq : P ((r.set p (.bound n)).status q)) : q ≠ p ∧ P (r.status q) := by
    rcases (Registry.set_iff P).mp hq with ⟨-, h⟩ | h
    · exact absurd h hP
    · exact h
  refine ⟨?_, ?_, ?_, ?_, ?_, ?_, ?_, ?_⟩
  · rw [List.map_append]
    exact hr.keys.append (List.nodup_singleton _) (List.disjoint_singleton.mpr hkey)
  · rw [List.map_append]
    exact hr.values.append (List.nodup_singleton _) (List.disjoint_singleton.mpr hvalue)
  · intro q m hq
    rw [List.mem_append]
    rcases (Registry.set_iff fun s => s = .bound m ∨ s = .finished m).mp hq with ⟨rfl, h⟩ | ⟨-, h⟩
    · obtain rfl : n = m := by simpa using h
      exact .inr (List.mem_singleton_self _)
    · exact .inl (hr.entry h)
  · intro q hq
    obtain ⟨hne, h⟩ := hother Status.Undecided id hq
    rw [List.map_append, List.mem_append, not_or]
    refine ⟨hr.undecided h, ?_⟩
    simpa using fun heq => hne (hr.apart h hund heq)
  · intro q q' hq hq' heq
    exact hr.apart (hother Status.Undecided id hq).2 (hother Status.Undecided id hq').2 heq
  · intro q m hq
    obtain ⟨hne, h⟩ := hother (· = .chosen m) (by simp) hq
    rw [List.map_append, List.mem_append, not_or]
    refine ⟨hr.fresh h, ?_⟩
    rintro hm
    obtain rfl : m = n := by simpa using hm
    exact hne (hr.alone h hp)
  · intro q q' m hq hq'
    exact hr.alone (hother (· = .chosen m) (by simp) hq).2 (hother (· = .chosen m) (by simp) hq').2
  · intro k m hm
    rcases List.mem_append.mp hm with hm | hm
    · rcases hr.created hm with h | ⟨q, hq⟩
      · exact .inl h
      · refine .inr ⟨q, (Registry.set_iff (· = .bound m)).mpr (.inr ⟨?_, hq⟩)⟩
        rintro rfl
        simp [hp] at hq
    · obtain ⟨-, rfl⟩ : k = key p ∧ m = n := by simpa using hm
      exact .inr ⟨p, (Registry.set_iff (· = .bound m)).mpr (.inl ⟨rfl, rfl⟩)⟩

theorem Kept.step (hr : Kept key r) {r' : Registry κ ν ι} (h : Step key r r') : Kept key r' := by
  cases h with
  | other n => exact hr.other n
  | find p n hp hn =>
    exact hr.set (by simpa using hn) False.elim (by simp) (by simp [hp])
  | miss p hp hkey hfree =>
    exact hr.set (by simp) (fun _ => ⟨hkey, fun q _ => hfree q⟩) (by simp) (by simp [hp])
  | choose p n hp hmade hfree => exact hr.choose hp hmade hfree
  | publish p n hp => exact hr.publish hp
  | make p n hp =>
    have hentry := hr.entry (.inl hp)
    have hmade : ∀ m, r.status p = .bound m → m ∈ insert n r.made := by simp [hp]
    exact (hr.other n).set (by simpa using hentry) False.elim (by simp) hmade

end NameRegistry
