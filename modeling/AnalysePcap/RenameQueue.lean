import Mathlib.Data.List.Nodup
import Mathlib.Data.Set.Insert
import Mathlib.Logic.Function.Basic

/-! Several parties share a directory and agree on who handles a file by renaming it.
Whoever renames the file first has it. A name that was once given to a new file is not
given to another one, and the names that renaming makes are never those of new files. -/

namespace RenameQueue

variable {ν φ ι : Type*} [DecidableEq ν]

abbrev Directory (ν φ : Type*) := ν → Option φ

/-- Fails if there is no file of the old name, and replaces one of the new name. -/
def Directory.rename (d : Directory ν φ) (old new : ν) : Option (Directory ν φ) :=
  (d old).map fun f => Function.update (Function.update d old none) new (some f)

theorem Directory.rename_apply {d d' : Directory ν φ} {old new : ν} (h : d.rename old new = some d')
    (n : ν) : d' n = if n = new then d old else if n = old then none else d n := by
  obtain ⟨f, hf, rfl⟩ := Option.map_eq_some_iff.mp h
  simp only [Function.update_apply, hf]

theorem Directory.exists_of_rename {d d' : Directory ν φ} {old new : ν}
    (h : d.rename old new = some d') : ∃ f, d old = some f := by
  obtain ⟨f, hf, -⟩ := Option.map_eq_some_iff.mp h
  exact ⟨f, hf⟩

/-- The names of new files, and what renaming makes of a name. -/
structure Naming (ν : Type*) where
  Ready : ν → Prop
  taken : ν → ν
  completed : ν → ν
  taken_injective : Function.Injective taken
  not_ready_taken : ∀ n, ¬ Ready (taken n)
  not_ready_completed : ∀ n, ¬ Ready (completed (taken n))
  taken_ne_completed : ∀ m n, taken m ≠ completed (taken n)

/-- A file is called after the name it appeared under. Each party has the names it has
taken and the name of the file it reads; `read` is the record of what was read by whom. -/
structure Store (ν ι : Type*) where
  dir : Directory ν ν
  seen : Set ν
  pending : ι → List ν
  reading : ι → Option ν
  read : List (ι × ν)

variable [DecidableEq ι]

inductive Step (N : Naming ν) (s : Store ν ι) : Store ν ι → Prop
  | create (n : ν) : N.Ready n → n ∉ s.seen →
      Step N s { s with dir := Function.update s.dir n (some n), seen := insert n s.seen }
  | take (p : ι) (n : ν) (dir : Directory ν ν) : N.Ready n →
      s.dir.rename n (N.taken n) = some dir →
      Step N s { s with
        dir := dir
        pending := Function.update s.pending p (s.pending p ++ [N.taken n]) }
  | skip (p : ι) (n : ν) (rest : List ν) : s.pending p = n :: rest →
      Step N s { s with pending := Function.update s.pending p rest }
  | start (p : ι) (n f : ν) (rest : List ν) : s.pending p = n :: rest → s.dir n = some f →
      Step N s { s with
        pending := Function.update s.pending p rest
        reading := Function.update s.reading p (some n)
        read := s.read ++ [(p, f)] }
  | finish (p : ι) (n : ν) (dir : Directory ν ν) : s.reading p = some n →
      dir = s.dir ∨ s.dir.rename n (N.completed n) = some dir →
      Step N s { s with dir := dir, reading := Function.update s.reading p none }

section Kept

variable {ν ι : Type*} {N : Naming ν} {s : Store ν ι}

/-- The file has left the name it appeared under. -/
def Gone (N : Naming ν) (s : Store ν ι) (f : ν) : Prop :=
  N.Ready f ∧ f ∈ s.seen ∧ s.dir f = none

structure Kept (N : Naming ν) (s : Store ν ι) : Prop where
  ready : ∀ {n f}, N.Ready n → s.dir n = some f → f = n ∧ n ∈ s.seen
  pending : ∀ {p n}, n ∈ s.pending p → ∃ f, n = N.taken f ∧ Gone N s f ∧ s.dir n = some f
  nodup : ∀ p, (s.pending p).Nodup
  disjoint : ∀ {p q n}, n ∈ s.pending p → n ∈ s.pending q → p = q
  read : ∀ {f}, f ∈ s.read.map Prod.snd → Gone N s f ∧ ∀ p, N.taken f ∉ s.pending p
  reading : ∀ {p n}, s.reading p = some n → ∃ f ∈ s.read.map Prod.snd, n = N.taken f
  once : (s.read.map Prod.snd).Nodup

theorem Kept.of_dir (hs : Kept N s) {dir : Directory ν ν} {seen : Set ν} (hseen : s.seen ⊆ seen)
    (hready : ∀ n f, N.Ready n → dir n = some f → f = n ∧ n ∈ seen)
    (hgone : ∀ f, Gone N s f → dir f = none)
    (hpending : ∀ p f, N.taken f ∈ s.pending p → dir (N.taken f) = s.dir (N.taken f)) :
    Kept N { s with dir := dir, seen := seen } := by
  have hstill {f : ν} (hf : Gone N s f) : Gone N { s with dir := dir, seen := seen } f :=
    ⟨hf.1, hseen hf.2.1, hgone f hf⟩
  refine ⟨fun {n f} => hready n f, ?_, hs.nodup, hs.disjoint, ?_, hs.reading, hs.once⟩
  · intro p n hn
    obtain ⟨f, rfl, hf, hfile⟩ := hs.pending hn
    exact ⟨f, rfl, hstill hf, (hpending p f hn).trans hfile⟩
  · intro f hf
    obtain ⟨hfgone, hnot⟩ := hs.read hf
    exact ⟨hstill hfgone, hnot⟩

theorem Kept.create [DecidableEq ν] (hs : Kept N s) {n : ν} (hn : N.Ready n) (hfresh : n ∉ s.seen) :
    Kept N { s with dir := Function.update s.dir n (some n), seen := insert n s.seen } := by
  refine hs.of_dir (Set.subset_insert n s.seen) ?_ ?_ ?_
  · intro m f hm hf
    by_cases hmn : m = n
    · subst hmn
      rw [Function.update_self, Option.some.injEq] at hf
      exact ⟨hf.symm, Set.mem_insert m s.seen⟩
    · rw [Function.update_of_ne hmn] at hf
      obtain ⟨hfm, hseen⟩ := hs.ready hm hf
      exact ⟨hfm, Set.mem_insert_of_mem n hseen⟩
  · rintro f ⟨-, hseen, hnone⟩
    rw [Function.update_of_ne]
    · exact hnone
    · rintro rfl
      exact hfresh hseen
  · intro p f _
    rw [Function.update_of_ne]
    rintro rfl
    exact N.not_ready_taken f hn

variable [DecidableEq ι]

theorem mem_update {pending : ι → List ν} {p q : ι} {rest : List ν} {n : ν} :
    n ∈ Function.update pending p rest q ↔ (q = p ∧ n ∈ rest) ∨ (q ≠ p ∧ n ∈ pending q) := by
  by_cases hq : q = p
  · subst hq
    simp
  · simp [hq]

theorem Kept.push (hs : Kept N s) (p : ι) {f : ν} (hf : Gone N s f)
    (hfile : s.dir (N.taken f) = some f) (hnew : ∀ q, N.taken f ∉ s.pending q)
    (hnot : f ∉ s.read.map Prod.snd) :
    Kept N { s with pending := Function.update s.pending p (s.pending p ++ [N.taken f]) } := by
  have hmem {q : ι} {n : ν}
      (h : n ∈ Function.update s.pending p (s.pending p ++ [N.taken f]) q) :
      n ∈ s.pending q ∨ (q = p ∧ n = N.taken f) := by
    rcases mem_update.mp h with ⟨rfl, hn⟩ | ⟨-, hn⟩
    · simpa using hn
    · exact .inl hn
  refine ⟨hs.ready, ?_, ?_, ?_, ?_, hs.reading, hs.once⟩
  · intro q n hn
    rcases hmem hn with hn | ⟨-, rfl⟩
    · exact hs.pending hn
    · exact ⟨f, rfl, hf, hfile⟩
  · intro q
    change (Function.update s.pending p (s.pending p ++ [N.taken f]) q).Nodup
    by_cases hq : q = p
    · subst hq
      rw [Function.update_self]
      exact (hs.nodup q).append (List.nodup_singleton _) (List.disjoint_singleton.mpr (hnew q))
    · rw [Function.update_of_ne hq]
      exact hs.nodup q
  · intro q r n hq hr
    rcases hmem hq with hold | ⟨hqp, hn⟩ <;> rcases hmem hr with hold' | ⟨hrp, hn'⟩
    · exact hs.disjoint hold hold'
    · exact absurd (hn' ▸ hold) (hnew q)
    · exact absurd (hn ▸ hold') (hnew r)
    · exact hqp.trans hrp.symm
  · intro g hg
    obtain ⟨hgone, hfree⟩ := hs.read hg
    refine ⟨hgone, fun q hq => ?_⟩
    rcases hmem hq with hq | ⟨-, htaken⟩
    · exact hfree q hq
    · exact hnot (N.taken_injective htaken ▸ hg)

theorem Kept.pop (hs : Kept N s) {p : ι} {n : ν} {rest : List ν} (h : s.pending p = n :: rest) :
    Kept N { s with pending := Function.update s.pending p rest } := by
  have hmem {q : ι} {m : ν} (hm : m ∈ Function.update s.pending p rest q) : m ∈ s.pending q := by
    rcases mem_update.mp hm with ⟨rfl, hrest⟩ | ⟨-, hother⟩
    · rw [h]
      exact List.mem_cons_of_mem n hrest
    · exact hother
  refine ⟨hs.ready, fun hm => hs.pending (hmem hm), ?_, ?_, ?_, hs.reading, hs.once⟩
  · intro q
    change (Function.update s.pending p rest q).Nodup
    by_cases hq : q = p
    · subst hq
      have hnodup := hs.nodup q
      rw [h, List.nodup_cons] at hnodup
      rw [Function.update_self]
      exact hnodup.2
    · rw [Function.update_of_ne hq]
      exact hs.nodup q
  · intro q r m hq hr
    exact hs.disjoint (hmem hq) (hmem hr)
  · intro f hf
    obtain ⟨hgone, hfree⟩ := hs.read hf
    exact ⟨hgone, fun q hq => hfree q (hmem hq)⟩

theorem Kept.start (hs : Kept N s) {p : ι} {n f : ν} {rest : List ν}
    (h : s.pending p = n :: rest) (hfile : s.dir n = some f) :
    Kept N { s with
      pending := Function.update s.pending p rest
      reading := Function.update s.reading p (some n)
      read := s.read ++ [(p, f)] } := by
  have hhead : n ∈ s.pending p := by simp [h]
  obtain ⟨g, rfl, hgone, hg⟩ := hs.pending hhead
  obtain rfl : g = f := Option.some.inj (hg.symm.trans hfile)
  have hpop := hs.pop h
  have hnew : g ∉ s.read.map Prod.snd := fun hread => (hs.read hread).2 p hhead
  have hnodup := hs.nodup p
  rw [h, List.nodup_cons] at hnodup
  have hfree (q : ι) : N.taken g ∉ Function.update s.pending p rest q := by
    intro hq
    rcases mem_update.mp hq with ⟨rfl, hrest⟩ | ⟨hne, hother⟩
    · exact hnodup.1 hrest
    · exact hne (hs.disjoint hother hhead)
  refine ⟨hs.ready, hpop.pending, hpop.nodup, hpop.disjoint, ?_, ?_, ?_⟩
  · intro f hf
    simp only [List.map_append, List.map_cons, List.map_nil, List.mem_append,
      List.mem_singleton] at hf
    rcases hf with hf | rfl
    · exact hpop.read hf
    · exact ⟨hgone, hfree⟩
  · intro q m hm
    by_cases hq : q = p
    · subst hq
      have hname : N.taken g = m := by simpa using hm
      exact ⟨g, by simp, hname.symm⟩
    · have hold : s.reading q = some m := by simpa [hq] using hm
      obtain ⟨f, hf, rfl⟩ := hs.reading hold
      exact ⟨f, by simpa using Or.inl (by simpa using hf), rfl⟩
  · simp only [List.map_append, List.map_cons, List.map_nil]
    exact hs.once.append (List.nodup_singleton _) (List.disjoint_singleton.mpr hnew)

variable [DecidableEq ν]

theorem Kept.take (hs : Kept N s) (p : ι) {n : ν} {dir : Directory ν ν} (hn : N.Ready n)
    (hrename : s.dir.rename n (N.taken n) = some dir) :
    Kept N { s with
      dir := dir
      pending := Function.update s.pending p (s.pending p ++ [N.taken n]) } := by
  obtain ⟨f, hf⟩ := Directory.exists_of_rename hrename
  obtain ⟨rfl, hseen⟩ := hs.ready hn hf
  have hdir := Directory.rename_apply hrename
  have hready (m : ν) (hm : N.Ready m) : m ≠ N.taken f := by
    rintro rfl
    exact N.not_ready_taken f hm
  -- the file is still under its first name, so nobody has it yet
  have hpresent (g : ν) (hg : Gone N s g) : g ≠ f := by
    rintro rfl
    rw [hg.2.2] at hf
    cases hf
  have hnew (q : ι) : N.taken f ∉ s.pending q := by
    intro hq
    obtain ⟨g, htaken, hg, -⟩ := hs.pending hq
    exact hpresent g hg (N.taken_injective htaken).symm
  have hmoved : Kept N { s with dir := dir } := by
    refine hs.of_dir subset_rfl ?_ ?_ ?_
    · intro m g hm hg
      rw [hdir, if_neg (hready m hm)] at hg
      split_ifs at hg
      exact hs.ready hm hg
    · intro g hg
      rw [hdir, if_neg (hready g hg.1), if_neg (hpresent g hg)]
      exact hg.2.2
    · intro q g hq
      have hne : N.taken g ≠ N.taken f := fun h => hnew q (h ▸ hq)
      have hnf : N.taken g ≠ f := by
        rintro rfl
        exact N.not_ready_taken g hn
      rw [hdir, if_neg hne, if_neg hnf]
  refine hmoved.push p ⟨hn, hseen, ?_⟩ ?_ hnew fun hread => ?_
  · exact (hdir f).trans (by rw [if_neg (hready f hn), if_pos rfl])
  · exact (hdir _).trans (by rw [if_pos rfl, hf])
  · exact hpresent f (hs.read hread).1 rfl

theorem Kept.finish (hs : Kept N s) {p : ι} {n : ν} {dir : Directory ν ν}
    (h : s.reading p = some n)
    (hdir : dir = s.dir ∨ s.dir.rename n (N.completed n) = some dir) :
    Kept N { s with dir := dir, reading := Function.update s.reading p none } := by
  obtain ⟨f, hread, rfl⟩ := hs.reading h
  have hmoved : Kept N { s with dir := dir } := by
    rcases hdir with rfl | hrename
    · exact hs
    have hdir := Directory.rename_apply hrename
    have hready {m : ν} (hm : N.Ready m) : dir m = s.dir m := by
      have hcompleted : m ≠ N.completed (N.taken f) := by
        rintro rfl
        exact N.not_ready_completed f hm
      have htaken : m ≠ N.taken f := by
        rintro rfl
        exact N.not_ready_taken f hm
      rw [hdir, if_neg hcompleted, if_neg htaken]
    refine hs.of_dir subset_rfl ?_ ?_ ?_
    · intro m g hm hg
      exact hs.ready hm ((hready hm).symm.trans hg)
    · intro g hg
      exact (hready hg.1).trans hg.2.2
    · intro q g hq
      have hne : N.taken g ≠ N.taken f := by
        intro heq
        exact (hs.read hread).2 q (heq ▸ hq)
      rw [hdir, if_neg (N.taken_ne_completed g f), if_neg hne]
  refine ⟨hmoved.ready, hmoved.pending, hs.nodup, hs.disjoint, hmoved.read, ?_, hs.once⟩
  intro q m hm
  by_cases hq : q = p
  · subst hq
    simp at hm
  · have hold : s.reading q = some m := by simpa [hq] using hm
    exact hs.reading hold

theorem Kept.step (hs : Kept N s) {s' : Store ν ι} (h : Step N s s') : Kept N s' := by
  cases h with
  | create n hn hfresh => exact hs.create hn hfresh
  | take p n dir hn hrename => exact hs.take p hn hrename
  | skip p n rest hp => exact hs.pop hp
  | start p n f rest hp hfile => exact hs.start hp hfile
  | finish p n dir hp hdir => exact hs.finish hp hdir

end Kept

end RenameQueue
