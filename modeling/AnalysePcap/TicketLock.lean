import Mathlib.Algebra.BigOperators.Group.Finset.Basic
import Mathlib.Algebra.Order.BigOperators.Group.Finset
import Mathlib.Data.Fintype.Card
import Mathlib.Logic.Function.Basic
import Mathlib.Tactic.SplitIfs

/-! A lock for readers and writers that serves its parties by tickets. A reader goes in when
everyone before it has gone in, a writer when everyone before it has come out. -/

namespace TicketLock

/-- What a party has to do with the lock. A reader that has seen its number is `admitted`
until it has let the next one in. -/
inductive Phase where
  | idle
  | waiting (write : Bool) (ticket : Nat)
  | admitted (ticket : Nat)
  | reading (ticket : Nat)
  | writing (ticket : Nat)
  deriving DecidableEq

namespace Phase

/-- The ticket of a party whose number has not been passed on yet. -/
def ahead : Phase → Option Nat
  | idle => none
  | waiting _ t => some t
  | admitted t => some t
  | reading _ => none
  | writing t => some t

def ticket : Phase → Option Nat
  | idle => none
  | waiting _ t => some t
  | admitted t => some t
  | reading t => some t
  | writing t => some t

theorem ticket_of_ahead {a : Phase} {t : Nat} (h : a.ahead = some t) : a.ticket = some t := by
  cases a with
  | idle => cases h
  | reading u => cases h
  | _ => exact h

def isBusy : Phase → Bool
  | idle => false
  | _ => true

def isReading : Phase → Bool
  | reading _ => true
  | _ => false

end Phase

/-- `next` is the number of the next ticket, `reader` the number that lets a reader in and
`writer` the number that lets a writer in. -/
structure Lock (ι : Type*) where
  next : Nat
  reader : Nat
  writer : Nat
  phase : ι → Phase

section Steps

variable {ι : Type*} [DecidableEq ι]

/-- What the party `p` can do. -/
inductive Step (s : Lock ι) (p : ι) : Lock ι → Prop
  | take (write : Bool) : s.phase p = .idle →
      Step s p { s with
        next := s.next + 1
        phase := Function.update s.phase p (.waiting write s.next) }
  | write (t : Nat) : s.phase p = .waiting true t → s.writer = t →
      Step s p { s with phase := Function.update s.phase p (.writing t) }
  | goAhead (t : Nat) : s.phase p = .waiting false t → s.reader = t →
      Step s p { s with phase := Function.update s.phase p (.admitted t) }
  | read (t : Nat) : s.phase p = .admitted t →
      Step s p { s with
        reader := s.reader + 1
        phase := Function.update s.phase p (.reading t) }
  | endRead (t : Nat) : s.phase p = .reading t →
      Step s p { s with
        writer := s.writer + 1
        phase := Function.update s.phase p .idle }
  | endWrite (t : Nat) : s.phase p = .writing t →
      Step s p { s with
        reader := s.reader + 1
        writer := s.writer + 1
        phase := Function.update s.phase p .idle }

theorem Step.phase_of_ne {s s' : Lock ι} {p q : ι} (h : Step s p s') (hq : q ≠ p) :
    s'.phase q = s.phase q := by
  cases h <;> exact Function.update_of_ne hq _ _

/-- A party keeps its ticket until it leaves, and a new one is larger than all before. -/
theorem Step.ticket {s s' : Lock ι} {p : ι} (h : Step s p s') :
    (s'.phase p).ticket = (s.phase p).ticket ∨ (s'.phase p).ticket = none ∨
      s.phase p = .idle ∧ (s'.phase p).ticket = some s.next := by
  cases h with
  | take write hp => exact .inr (.inr ⟨hp, by simp [Phase.ticket]⟩)
  | write t hp => exact .inl (by simp [hp, Phase.ticket])
  | goAhead t hp => exact .inl (by simp [hp, Phase.ticket])
  | read t hp => exact .inl (by simp [hp, Phase.ticket])
  | endRead t hp => exact .inr (.inl (by simp [Phase.ticket]))
  | endWrite t hp => exact .inr (.inl (by simp [Phase.ticket]))

def initial : Lock ι := ⟨0, 0, 0, fun _ => .idle⟩

end Steps

section Count

variable {ι α : Type*} [Fintype ι]

def count (f : ι → α) (P : α → Bool) : Nat := ∑ p, if P (f p) = true then 1 else 0

theorem count_le_card (f : ι → α) (P : α → Bool) : count f P ≤ Fintype.card ι := by
  refine (Finset.sum_le_card_nsmul Finset.univ _ 1 fun p _ => ?_).trans ?_
  · split_ifs
    · exact le_rfl
    · exact Nat.zero_le 1
  · simp

theorem count_eq_zero {f : ι → α} {P : α → Bool} (h : count f P = 0) (p : ι) : P (f p) = false := by
  have hp := Finset.sum_eq_zero_iff.mp h p (Finset.mem_univ p)
  split_ifs at hp with hP
  exact Bool.eq_false_iff.mpr hP

theorem exists_of_count_ne_zero {f : ι → α} {P : α → Bool} (h : count f P ≠ 0) :
    ∃ p, P (f p) = true := by
  by_contra hnone
  refine h (Finset.sum_eq_zero fun p _ => if_neg fun hp => hnone ⟨p, hp⟩)

variable [DecidableEq ι]

theorem count_update (f : ι → α) (P : α → Bool) (p : ι) (a : α) :
    count (Function.update f p a) P + (if P (f p) = true then 1 else 0) =
      count f P + if P a = true then 1 else 0 := by
  have hrest : ∑ q ∈ Finset.univ.erase p, (if P (Function.update f p a q) = true then 1 else 0) =
      ∑ q ∈ Finset.univ.erase p, if P (f q) = true then 1 else 0 := by
    refine Finset.sum_congr rfl fun q hq => ?_
    rw [Function.update_of_ne (Finset.ne_of_mem_erase hq)]
  unfold count
  rw [← Finset.add_sum_erase _ _ (Finset.mem_univ p),
    ← Finset.add_sum_erase Finset.univ (fun q => if P (f q) = true then 1 else 0)
      (Finset.mem_univ p), hrest, Function.update_self]
  omega

/-- A change of one party from a value that is not counted to one that is. -/
theorem count_update_add {f : ι → α} {P : α → Bool} {p : ι} {a : α} (hold : P (f p) = false)
    (hnew : P a = true) : count (Function.update f p a) P = count f P + 1 := by
  have h := count_update f P p a
  rw [hold, hnew, if_neg Bool.false_ne_true, if_pos rfl] at h
  exact h

theorem count_update_sub {f : ι → α} {P : α → Bool} {p : ι} {a : α} (hold : P (f p) = true)
    (hnew : P a = false) : count (Function.update f p a) P + 1 = count f P := by
  have h := count_update f P p a
  rw [hold, hnew, if_neg Bool.false_ne_true, if_pos rfl] at h
  exact h

theorem count_update_same {f : ι → α} {P : α → Bool} {p : ι} {a : α} (h : P (f p) = P a) :
    count (Function.update f p a) P = count f P := by
  have hall := count_update f P p a
  rw [h] at hall
  exact Nat.add_right_cancel hall

end Count

section Kept

variable {ι : Type*} [Fintype ι]

/-- What holds in every state: each number from `reader` on is the ticket of one party that
has not gone in yet or writes, and the readers inside are those between the two numbers. -/
structure Kept (s : Lock ι) : Prop where
  reader_le : s.reader ≤ s.next
  ahead : ∀ {p t}, (s.phase p).ahead = some t → s.reader ≤ t ∧ t < s.next
  unique : ∀ {p q t}, (s.phase p).ahead = some t → (s.phase q).ahead = some t → p = q
  held : ∀ {t}, s.reader ≤ t → t < s.next → ∃ p, (s.phase p).ahead = some t
  admitted : ∀ {p t}, s.phase p = .admitted t → t = s.reader
  writing : ∀ {p t}, s.phase p = .writing t → t = s.reader ∧ s.writer = s.reader
  passed : ∀ {p t}, s.phase p = .reading t → t < s.reader
  reading : count s.phase Phase.isReading + s.writer = s.reader
  busy : count s.phase Phase.isBusy + s.writer = s.next

theorem kept_initial : Kept (initial : Lock ι) where
  reader_le := le_rfl
  ahead h := by cases h
  unique h := by cases h
  held _ h := by cases h
  admitted h := by cases h
  writing h := by cases h
  passed h := by cases h
  reading := by simp [count, initial, Phase.isReading]
  busy := by simp [count, initial, Phase.isBusy]

namespace Kept

variable {s : Lock ι} {p q : ι} {t : Nat}

theorem next_le (h : Kept s) : s.next ≤ s.writer + Fintype.card ι := by
  have hcard := count_le_card s.phase Phase.isBusy
  have hbusy := h.busy
  omega

theorem writer_le (h : Kept s) : s.writer ≤ s.reader := by
  have hreading := h.reading
  omega

/-- While someone writes nobody reads, and all others wait with later tickets. -/
theorem phase_of_writing (h : Kept s) (hp : s.phase p = .writing t) (hq : q ≠ p) :
    s.phase q = .idle ∨ ∃ write u, s.phase q = .waiting write u ∧ t < u := by
  obtain ⟨hreader, hwriter⟩ := h.writing hp
  have hnone : count s.phase Phase.isReading = 0 := by
    have hreading := h.reading
    omega
  have htaken : (s.phase p).ahead = some t := by rw [hp]; rfl
  cases hphase : s.phase q with
  | idle => exact .inl rfl
  | waiting write u =>
    have hu : (s.phase q).ahead = some u := by rw [hphase]; rfl
    have hle := (h.ahead hu).1
    have hne : u ≠ t := by
      rintro rfl
      exact hq (h.unique hu htaken)
    exact .inr ⟨write, u, rfl, by omega⟩
  | admitted u =>
    have hu : (s.phase q).ahead = some u := by rw [hphase]; rfl
    obtain rfl : u = t := (h.admitted hphase).trans hreader.symm
    exact absurd (h.unique hu htaken) hq
  | reading u =>
    have hfalse := count_eq_zero hnone q
    rw [hphase] at hfalse
    cases hfalse
  | writing u =>
    have hu : (s.phase q).ahead = some u := by rw [hphase]; rfl
    obtain rfl : u = t := (h.writing hphase).1.trans hreader.symm
    exact absurd (h.unique hu htaken) hq

/-- A party behind a waiting or writing writer is not inside. -/
theorem outside_of_behind (h : Kept s) {u : Nat} (hp : (s.phase p).ahead = some t)
    (hq : (s.phase q).ahead = some u) (hlt : t < u) : ∃ write, s.phase q = .waiting write u := by
  have hle := (h.ahead hp).1
  cases hphase : s.phase q with
  | idle => rw [hphase] at hq; cases hq
  | waiting write v =>
    rw [hphase] at hq
    cases hq
    exact ⟨write, rfl⟩
  | admitted v =>
    have hv := h.admitted hphase
    rw [hphase] at hq
    cases hq
    omega
  | reading v => rw [hphase] at hq; cases hq
  | writing v =>
    have hv := (h.writing hphase).1
    rw [hphase] at hq
    cases hq
    omega

theorem ticket_lt (h : Kept s) (hp : (s.phase p).ticket = some t) : t < s.next := by
  have hle := h.reader_le
  cases hphase : s.phase p with
  | idle => rw [hphase] at hp; cases hp
  | reading u =>
    have hu := h.passed hphase
    rw [hphase] at hp
    cases hp
    omega
  | _ => exact (h.ahead (p := p) (by rw [hphase] at hp ⊢; exact hp)).2

variable [DecidableEq ι]

/-- A party that keeps its place in the line only has to meet the conditions on its new
phase. -/
theorem of_same_ahead (h : Kept s) {a : Phase} (hahead : a.ahead = (s.phase p).ahead)
    (hread : (s.phase p).isReading = a.isReading) (hbusy : (s.phase p).isBusy = a.isBusy)
    (hadmitted : ∀ u, a = .admitted u → u = s.reader)
    (hwriting : ∀ u, a = .writing u → u = s.reader ∧ s.writer = s.reader)
    (hpassed : ∀ u, a ≠ .reading u) :
    Kept { s with phase := Function.update s.phase p a } := by
  have hsame (q : ι) : (Function.update s.phase p a q).ahead = (s.phase q).ahead := by
    by_cases hq : q = p
    · rw [hq, Function.update_self, hahead]
    · rw [Function.update_of_ne hq]
  refine ⟨h.reader_le, ?_, ?_, ?_, ?_, ?_, ?_, ?_, ?_⟩
  · intro q t hq
    exact h.ahead ((hsame q).symm.trans hq)
  · intro q q' t hq hq'
    exact h.unique ((hsame q).symm.trans hq) ((hsame q').symm.trans hq')
  · intro t hle hlt
    obtain ⟨q, hq⟩ := h.held hle hlt
    exact ⟨q, (hsame q).trans hq⟩
  · intro q t hq
    by_cases hqp : q = p
    · subst hqp
      exact hadmitted t ((Function.update_self q a s.phase).symm.trans hq)
    · exact h.admitted ((Function.update_of_ne hqp a s.phase).symm.trans hq)
  · intro q t hq
    by_cases hqp : q = p
    · subst hqp
      exact hwriting t ((Function.update_self q a s.phase).symm.trans hq)
    · exact h.writing ((Function.update_of_ne hqp a s.phase).symm.trans hq)
  · intro q t hq
    by_cases hqp : q = p
    · subst hqp
      exact absurd ((Function.update_self q a s.phase).symm.trans hq) (hpassed t)
    · exact h.passed ((Function.update_of_ne hqp a s.phase).symm.trans hq)
  · rw [count_update_same hread]
    exact h.reading
  · rw [count_update_same hbusy]
    exact h.busy

theorem take (h : Kept s) (hp : s.phase p = .idle) (write : Bool) :
    Kept { s with
      next := s.next + 1
      phase := Function.update s.phase p (.waiting write s.next) } := by
  have hle := h.reader_le
  refine ⟨Nat.le_succ_of_le hle, ?_, ?_, ?_, ?_, ?_, ?_, ?_, ?_⟩
  · intro q t hq
    by_cases hqp : q = p
    · subst hqp
      simp only [Function.update_self, Phase.ahead, Option.some.injEq] at hq
      dsimp only
      omega
    · simp only [Function.update_of_ne hqp] at hq
      have ht := h.ahead hq
      dsimp only
      omega
  -- the new ticket is larger than all others
  · intro q q' t hq hq'
    by_cases hqp : q = p
    · by_cases hqp' : q' = p
      · rw [hqp, hqp']
      · simp only [hqp, Function.update_self, Phase.ahead, Option.some.injEq] at hq
        simp only [Function.update_of_ne hqp'] at hq'
        have ht := h.ahead hq'
        omega
    · by_cases hqp' : q' = p
      · simp only [hqp', Function.update_self, Phase.ahead, Option.some.injEq] at hq'
        simp only [Function.update_of_ne hqp] at hq
        have ht := h.ahead hq
        omega
      · simp only [Function.update_of_ne hqp] at hq
        simp only [Function.update_of_ne hqp'] at hq'
        exact h.unique hq hq'
  · intro t hle hlt
    by_cases ht : t = s.next
    · subst ht
      exact ⟨p, by simp [Phase.ahead]⟩
    · obtain ⟨q, hq⟩ := h.held hle (by simp only at hlt; omega)
      have hqp : q ≠ p := by
        rintro rfl
        rw [hp] at hq
        cases hq
      exact ⟨q, by simpa only [Function.update_of_ne hqp] using hq⟩
  · intro q t hq
    by_cases hqp : q = p
    · simp [hqp] at hq
    · simp only [Function.update_of_ne hqp] at hq
      exact h.admitted hq
  · intro q t hq
    by_cases hqp : q = p
    · simp [hqp] at hq
    · simp only [Function.update_of_ne hqp] at hq
      exact h.writing hq
  · intro q t hq
    by_cases hqp : q = p
    · simp [hqp] at hq
    · simp only [Function.update_of_ne hqp] at hq
      exact h.passed hq
  · rw [count_update_same (by rw [hp]; rfl)]
    exact h.reading
  · have hbusy := h.busy
    rw [count_update_add (by rw [hp]; rfl) rfl]
    dsimp only
    omega

/-- The party with the ticket `reader` leaves the line, and the number is passed on. -/
theorem pass (h : Kept s) {a : Phase} {writer : Nat} (hp : (s.phase p).ahead = some s.reader)
    (ha : a.ahead = none) (hpassed : ∀ t, a = .reading t → t = s.reader)
    (hwriter : ∀ q t, q ≠ p → s.phase q ≠ .writing t)
    (hread : count (Function.update s.phase p a) Phase.isReading + writer = s.reader + 1)
    (hbusy : count (Function.update s.phase p a) Phase.isBusy + writer = s.next) :
    Kept { s with
      reader := s.reader + 1
      writer := writer
      phase := Function.update s.phase p a } := by
  have hother {q : ι} {t : Nat} (hq : (Function.update s.phase p a q).ahead = some t) :
      q ≠ p ∧ (s.phase q).ahead = some t := by
    by_cases hqp : q = p
    · rw [hqp, Function.update_self, ha] at hq
      cases hq
    · rw [Function.update_of_ne hqp] at hq
      exact ⟨hqp, hq⟩
  have hlater {q : ι} {t : Nat} (hqp : q ≠ p) (hq : (s.phase q).ahead = some t) :
      s.reader + 1 ≤ t ∧ t < s.next := by
    have ht := h.ahead hq
    have hne : t ≠ s.reader := by
      rintro rfl
      exact hqp (h.unique hq hp)
    omega
  have hnext := (h.ahead hp).2
  refine ⟨hnext, ?_, ?_, ?_, ?_, ?_, ?_, hread, hbusy⟩
  · intro q t hq
    obtain ⟨hqp, hq⟩ := hother hq
    exact hlater hqp hq
  · intro q q' t hq hq'
    exact h.unique (hother hq).2 (hother hq').2
  · intro t hle hlt
    obtain ⟨q, hq⟩ := h.held (by simp only at hle; omega) hlt
    have hqp : q ≠ p := by
      rintro rfl
      rw [hp] at hq
      cases hq
      simp only at hle
      omega
    exact ⟨q, by simpa only [Function.update_of_ne hqp] using hq⟩
  · intro q t hq
    obtain ⟨hqp, hq'⟩ := hother (by rw [show Function.update s.phase p a q = .admitted t from hq]; rfl)
    simp only [Function.update_of_ne hqp] at hq
    have hreader := h.admitted hq
    have hlt := (hlater hqp hq').1
    omega
  · intro q t hq
    obtain ⟨hqp, -⟩ := hother (by rw [show Function.update s.phase p a q = .writing t from hq]; rfl)
    simp only [Function.update_of_ne hqp] at hq
    exact absurd hq (hwriter q t hqp)
  · intro q t hq
    dsimp only
    by_cases hqp : q = p
    · subst hqp
      have ht := hpassed t ((Function.update_self q a s.phase).symm.trans hq)
      omega
    · have ht := h.passed ((Function.update_of_ne hqp a s.phase).symm.trans hq)
      omega

theorem read (h : Kept s) (hp : s.phase p = .admitted t) :
    Kept { s with
      reader := s.reader + 1
      phase := Function.update s.phase p (.reading t) } := by
  obtain rfl := h.admitted hp
  have hhead : (s.phase p).ahead = some s.reader := by rw [hp]; rfl
  have hread := h.reading
  refine h.pass hhead rfl (fun u hu => (Phase.reading.inj hu).symm) ?_ ?_ ?_
  · intro q u hqp hq
    have hu := (h.writing hq).1
    exact hqp (h.unique (by rw [hq, hu]; rfl) hhead)
  · rw [count_update_add (by rw [hp]; rfl) rfl]
    omega
  · rw [count_update_same (by rw [hp]; rfl)]
    exact h.busy

theorem endWrite (h : Kept s) (hp : s.phase p = .writing t) :
    Kept { s with
      reader := s.reader + 1
      writer := s.writer + 1
      phase := Function.update s.phase p .idle } := by
  obtain ⟨ht, hw⟩ := h.writing hp
  have hhead : (s.phase p).ahead = some s.reader := by rw [hp, ht]; rfl
  have hread := h.reading
  have hbusy := h.busy
  refine h.pass hhead rfl (fun u hu => Phase.noConfusion hu) ?_ ?_ ?_
  · intro q u hqp hq
    have hu := (h.writing hq).1
    exact hqp (h.unique (by rw [hq, hu]; rfl) hhead)
  · rw [count_update_same (by rw [hp]; rfl)]
    omega
  · have hless := count_update_sub (P := Phase.isBusy) (f := s.phase) (p := p) (a := .idle)
      (by rw [hp]; rfl) rfl
    omega

theorem endRead (h : Kept s) (hp : s.phase p = .reading t) :
    Kept { s with
      writer := s.writer + 1
      phase := Function.update s.phase p .idle } := by
  have hsame (q : ι) : (Function.update s.phase p .idle q).ahead = (s.phase q).ahead := by
    by_cases hq : q = p
    · rw [hq, Function.update_self, hp]
      rfl
    · rw [Function.update_of_ne hq]
  have hread := count_update_sub (P := Phase.isReading) (f := s.phase) (p := p) (a := .idle)
    (by rw [hp]; rfl) rfl
  have hbusy := count_update_sub (P := Phase.isBusy) (f := s.phase) (p := p) (a := .idle)
    (by rw [hp]; rfl) rfl
  have hreading := h.reading
  have hall := h.busy
  refine ⟨h.reader_le, ?_, ?_, ?_, ?_, ?_, ?_, ?_, ?_⟩
  · intro q u hq
    exact h.ahead ((hsame q).symm.trans hq)
  · intro q q' u hq hq'
    exact h.unique ((hsame q).symm.trans hq) ((hsame q').symm.trans hq')
  · intro u hle hlt
    obtain ⟨q, hq⟩ := h.held hle hlt
    exact ⟨q, (hsame q).trans hq⟩
  · intro q u hq
    by_cases hqp : q = p
    · simp [hqp] at hq
    · simp only [Function.update_of_ne hqp] at hq
      exact h.admitted hq
  -- a reader is inside, so nobody writes
  · intro q u hq
    by_cases hqp : q = p
    · simp [hqp] at hq
    · simp only [Function.update_of_ne hqp] at hq
      rcases h.phase_of_writing hq (Ne.symm hqp) with hidle | ⟨_, _, hwait, -⟩
      · rw [hp] at hidle
        cases hidle
      · rw [hp] at hwait
        cases hwait
  · intro q u hq
    by_cases hqp : q = p
    · simp [hqp] at hq
    · simp only [Function.update_of_ne hqp] at hq
      exact h.passed hq
  · dsimp only
    omega
  · dsimp only
    omega

theorem step {s' : Lock ι} (h : Kept s) (hstep : Step s p s') : Kept s' := by
  cases hstep with
  | take write hp => exact h.take hp write
  | write t hp ht =>
    -- no reader is inside when the two numbers are the same
    have hle := (h.ahead (p := p) (t := t) (by rw [hp]; rfl)).1
    have hwriter := h.writer_le
    refine h.of_same_ahead (by rw [hp]; rfl) (by rw [hp]; rfl) (by rw [hp]; rfl) ?_ ?_ ?_
    · intro u hu
      cases hu
    · intro u hu
      cases hu
      omega
    · intro u hu
      cases hu
  | goAhead t hp ht =>
    refine h.of_same_ahead (by rw [hp]; rfl) (by rw [hp]; rfl) (by rw [hp]; rfl) ?_ ?_ ?_
    · intro u hu
      cases hu
      exact ht.symm
    · intro u hu
      cases hu
    · intro u hu
      cases hu
  | read t hp => exact h.read hp
  | endRead t hp => exact h.endRead hp
  | endWrite t hp => exact h.endWrite hp

end Kept

section Order

variable {s s' : Lock ι} {p q x : ι} {t : Nat}

/-- `q` has no ticket, or a later one than `p`. -/
def Behind (s : Lock ι) (p q : ι) : Prop :=
  ∃ t, (s.phase p).ahead = some t ∧
    (s.phase q = .idle ∨ ∃ u, (s.phase q).ahead = some u ∧ t < u)

theorem Behind.outside (h : Behind s p q) (hs : Kept s) :
    s.phase q = .idle ∨ ∃ write u, s.phase q = .waiting write u := by
  obtain ⟨t, hp, hidle | ⟨u, hu, hlt⟩⟩ := h
  · exact .inl hidle
  · obtain ⟨write, hwait⟩ := hs.outside_of_behind hp hu hlt
    exact .inr ⟨write, u, hwait⟩

/-- The party has a ticket and does not have to wait for another one. -/
def Ready (s : Lock ι) (p : ι) : Prop :=
  match s.phase p with
  | .idle => False
  | .waiting true t => s.writer = t
  | .waiting false t => s.reader = t
  | _ => True

/-- In front of every party with a ticket, or at its place, there is one that need not wait. -/
theorem Kept.exists_ready (h : Kept s) (hp : (s.phase p).ticket = some t) :
    ∃ q u, (s.phase q).ticket = some u ∧ u ≤ t ∧ Ready s q := by
  by_cases hin : ∃ u, s.phase p = .reading u
  · obtain ⟨u, hu⟩ := hin
    exact ⟨p, t, hp, le_rfl, by rw [Ready, hu]; trivial⟩
  have hahead : (s.phase p).ahead = some t := by
    cases hphase : s.phase p with
    | idle => rw [hphase] at hp; cases hp
    | reading u => exact absurd ⟨u, hphase⟩ hin
    | _ => rw [hphase] at hp; exact hp
  obtain ⟨hle, hlt⟩ := h.ahead hahead
  obtain ⟨q, hq⟩ := h.held le_rfl (hle.trans_lt hlt)
  have hhead (hready : Ready s q) : ∃ q u, (s.phase q).ticket = some u ∧ u ≤ t ∧ Ready s q :=
    ⟨q, s.reader, Phase.ticket_of_ahead hq, hle, hready⟩
  cases hphase : s.phase q with
  | idle => rw [hphase] at hq; cases hq
  | reading u => rw [hphase] at hq; cases hq
  | admitted u => exact hhead (by rw [Ready, hphase]; trivial)
  | writing u => exact hhead (by rw [Ready, hphase]; trivial)
  | waiting write u =>
    obtain rfl : u = s.reader := by
      rw [hphase] at hq
      exact Option.some.inj hq
    cases write with
    | false => exact hhead (by rw [Ready, hphase])
    | true =>
      by_cases hwriter : s.writer = s.reader
      · exact hhead (by rw [Ready, hphase]; exact hwriter)
      -- a reader with an earlier ticket is still inside
      · have hreading := h.reading
        have hpos : count s.phase Phase.isReading ≠ 0 := by omega
        obtain ⟨r, hr⟩ := exists_of_count_ne_zero hpos
        cases hphase' : s.phase r with
        | reading v =>
          have hv := h.passed hphase'
          exact ⟨r, v, by rw [hphase']; rfl, by omega, by rw [Ready, hphase']; trivial⟩
        | _ => rw [hphase'] at hr; cases hr

variable [DecidableEq ι]

/-- Nobody overtakes a party that stays in the line. -/
theorem Behind.step (h : Behind s p q) (hs : Kept s) (hstep : Step s x s')
    (hstay : (s'.phase p).ahead ≠ none) : Behind s' p q := by
  have hout := h.outside hs
  obtain ⟨t, hp, hq⟩ := h
  have hp' : (s'.phase p).ahead = some t := by
    by_cases hx : p = x
    · subst hx
      cases hstep with
      | take write hidle => rw [hidle] at hp; cases hp
      | write u hwait => simpa [hwait, Phase.ahead] using hp
      | goAhead u hwait => simpa [hwait, Phase.ahead] using hp
      | read u => simp [Phase.ahead] at hstay
      | endRead u => simp [Phase.ahead] at hstay
      | endWrite u => simp [Phase.ahead] at hstay
    · rw [hstep.phase_of_ne hx, hp]
  refine ⟨t, hp', ?_⟩
  by_cases hx : q = x
  · subst hx
    rcases hout with hidle | ⟨write, u, hwait⟩
    · cases hstep with
      | take write =>
        have hlt := (hs.ahead hp).2
        exact .inr ⟨s.next, by simp [Phase.ahead], hlt⟩
      | write u hphase => rw [hidle] at hphase; cases hphase
      | goAhead u hphase => rw [hidle] at hphase; cases hphase
      | read u hphase => rw [hidle] at hphase; cases hphase
      | endRead u hphase => rw [hidle] at hphase; cases hphase
      | endWrite u hphase => rw [hidle] at hphase; cases hphase
    · obtain ⟨v, hv, hlt⟩ := hq.resolve_left (by rw [hwait]; exact Phase.noConfusion)
      refine .inr ⟨v, ?_, hlt⟩
      cases hstep with
      | take write hphase => rw [hwait] at hphase; cases hphase
      | write u hphase => simpa [hphase, Phase.ahead] using hv
      | goAhead u hphase => simpa [hphase, Phase.ahead] using hv
      | read u hphase => rw [hwait] at hphase; cases hphase
      | endRead u hphase => rw [hwait] at hphase; cases hphase
      | endWrite u hphase => rw [hwait] at hphase; cases hphase
  · rw [hstep.phase_of_ne hx]
    exact hq

/-- Nobody else makes a party wait again. -/
theorem Ready.step (h : Ready s q) (hs : Kept s) (hstep : Step s x s') (hq : q ≠ x) :
    Ready s' q := by
  have hsame := hstep.phase_of_ne hq
  cases hphase : s.phase q with
  | idle => rw [Ready, hphase] at h; exact h.elim
  | admitted u => rw [Ready, hsame, hphase]; trivial
  | reading u => rw [Ready, hsame, hphase]; trivial
  | writing u => rw [Ready, hsame, hphase]; trivial
  | waiting write u =>
    have hticket : (s.phase q).ahead = some u := by rw [hphase]; rfl
    have hle := (hs.ahead hticket).1
    have hwriterLe := hs.writer_le
    have hreading := hs.reading
    -- only the holder of the number `reader` passes it on, and only a reader inside the other
    cases write with
    | true =>
      rw [Ready, hphase] at h
      rw [Ready, hsame, hphase]
      have h : s.writer = u := h
      cases hstep with
      | take | write | goAhead | read => exact h
      | endRead v hx =>
        have hzero : count s.phase Phase.isReading = 0 := by omega
        have hfalse := count_eq_zero hzero x
        rw [hx] at hfalse
        cases hfalse
      | endWrite v hx =>
        have hv := (hs.writing hx).1
        have huv : v = u := by omega
        exact absurd (hs.unique hticket (by rw [hx, huv]; rfl)) hq
    | false =>
      rw [Ready, hphase] at h
      rw [Ready, hsame, hphase]
      have h : s.reader = u := h
      cases hstep with
      | take | write | goAhead | endRead => exact h
      | read v hx =>
        have hv := hs.admitted hx
        exact absurd (hs.unique hticket (by rw [hx, hv, h]; rfl)) hq
      | endWrite v hx =>
        have hv := (hs.writing hx).1
        exact absurd (hs.unique hticket (by rw [hx, hv, h]; rfl)) hq

end Order

end Kept

end TicketLock
