import AnalysePcap.RwLock
import Mathlib.Algebra.Order.BigOperators.Group.Finset
import Mathlib.Data.Fintype.BigOperators

/-! Every thread that asks for the lock gets it, when all threads go on. What is left to do for
the tickets up to its own never grows, and a round in which every thread has its turn makes it
smaller. With more than 256 threads a ticket comes twice, and two threads write at once. -/

namespace AnalysePcap

open Machine TicketLock

namespace RwPc

/-- The instructions until the thread has passed on its number, as a writer or as a reader that
is inside. -/
def left : RwPc → Nat
  | .out => 0
  | .lockWriterPad _ => 3
  | .lockWriterSpin _ => 2
  | .writer => 1
  | .unlockWriterPadWriter => 0
  | .unlockWriterPadReader => 0
  | .lockReaderPad _ => 5
  | .lockReaderSpin _ => 4
  | .lockReaderAdd => 3
  | .lockReaderPadReader => 2
  | .reader => 1
  | .unlockReaderPad => 0

theorem left_le (pc : RwPc) : pc.left ≤ 5 := by
  cases pc <;> exact Nat.le_of_ble_eq_true rfl

theorem left_next_le {pc : RwPc} (hpc : pc ≠ .out) (lock : Nat) (write : Bool) :
    (pc.next lock write).1.left ≤ pc.left := by
  cases pc with
  | out => exact absurd rfl hpc
  | lockWriterSpin t =>
    rw [RwPc.next]
    split_ifs
    · exact le_rfl
    · exact Nat.le_succ 1
  | lockReaderSpin t =>
    rw [RwPc.next]
    split_ifs
    · exact le_rfl
    · exact Nat.le_succ 3
  | _ => exact Nat.le_of_ble_eq_true rfl

end RwPc

namespace RwSystem

/-- What the thread has still to do if its ticket is at most `t`. -/
def share (t : Nat) (a : Phase) (pc : RwPc) : Nat :=
  match a.ticket with
  | none => 0
  | some u => if u ≤ t then pc.left else 0

theorem share_le (t : Nat) (a : Phase) (pc : RwPc) : share t a pc ≤ 5 := by
  unfold share
  split
  · exact Nat.zero_le 5
  · split_ifs
    · exact pc.left_le
    · exact Nat.zero_le 5

variable {ι : Type*} [Fintype ι] {c : RwSystem ι} {s : Lock ι} {p q : ι} {t : Nat}

def work (c : RwSystem ι) (s : Lock ι) (t : Nat) : Nat := ∑ p, share t (s.phase p) (c.pc p)

theorem work_le (c : RwSystem ι) (s : Lock ι) (t : Nat) : work c s t ≤ 5 * Fintype.card ι := by
  refine (Finset.sum_le_card_nsmul Finset.univ _ 5 fun p _ => share_le t _ _).trans ?_
  simp [Finset.card_univ, Nat.mul_comm]

theorem Refines.ne_out (h : Refines c s) (hp : (s.phase p).ticket = some t) : c.pc p ≠ .out := by
  intro hout
  have hsees := h.sees p
  rw [hout] at hsees
  generalize s.phase p = phase at hp hsees
  cases hsees
  cases hp

theorem Refines.ticket_of_inLine (h : Refines c s) (hp : (c.pc p).inLine = true) :
    ∃ t, (s.phase p).ticket = some t := by
  obtain ⟨t, ht⟩ := Option.ne_none_iff_exists'.mp (h.ahead_ne_none hp)
  exact ⟨t, Phase.ticket_of_ahead ht⟩

/-- An instruction of a thread that need not wait brings it on. -/
theorem Refines.left_lt (h : Refines c s) (hcard : Fintype.card ι ≤ 255) (hp : Ready s p)
    (write : Bool) : ((c.pc p).next c.lock write).1.left < (c.pc p).left := by
  have hsees := h.sees p
  generalize hpc : c.pc p = pc at hsees
  generalize hphase : s.phase p = phase at hsees
  rw [Ready, hphase] at hp
  cases hsees with
  | out | unlockWriterPadWriter | unlockWriterPadReader | unlockReaderPad => exact hp.elim
  | lockWriterSpin t =>
    rw [RwPc.next, if_neg (not_not.mpr ((h.turn_writer hcard hphase).mpr hp))]
    exact Nat.lt_succ_self 1
  | lockReaderSpin t =>
    rw [RwPc.next, if_neg (not_not.mpr ((h.turn_reader hcard hphase).mpr hp))]
    exact Nat.lt_succ_self 3
  | _ => exact Nat.lt_succ_self _

section Instruction

variable [DecidableEq ι] {s' : Lock ι} {input : ι × Bool}

theorem Refines.share_next_le (h : Refines c s) (hmove : s' = s ∨ Step s input.1 s')
    (ht : t < s.next) (q : ι) :
    share t (s'.phase q) ((c.next input).pc q) ≤ share t (s.phase q) (c.pc q) := by
  by_cases hq : q = input.1
  · subst hq
    have hticket : (s'.phase input.1).ticket = (s.phase input.1).ticket ∨
        (s'.phase input.1).ticket = none ∨
          s.phase input.1 = .idle ∧ (s'.phase input.1).ticket = some s.next := by
      rcases hmove with rfl | hstep
      · exact .inl rfl
      · exact hstep.ticket
    unfold share
    rcases hticket with hsame | hnone | ⟨-, hnew⟩
    · rw [hsame, next_pc_self]
      cases hu : (s.phase input.1).ticket with
      | none => exact le_rfl
      | some u =>
        dsimp only
        split_ifs
        · exact RwPc.left_next_le (h.ne_out hu) _ _
        · exact le_rfl
    · rw [hnone]
      exact Nat.zero_le _
    · rw [hnew]
      dsimp only
      rw [if_neg (by omega)]
      exact Nat.zero_le _
  · have hphase : s'.phase q = s.phase q := by
      rcases hmove with rfl | hstep
      · rfl
      · exact hstep.phase_of_ne hq
    rw [hphase, c.next_pc_of_ne hq]

theorem Refines.share_next_lt (h : Refines c s) (hcard : Fintype.card ι ≤ 255)
    (hmove : s' = s ∨ Step s input.1 s') {u : Nat} (hu : (s.phase input.1).ticket = some u)
    (hut : u ≤ t) (hready : Ready s input.1) :
    share t (s'.phase input.1) ((c.next input).pc input.1) <
      share t (s.phase input.1) (c.pc input.1) := by
  have hlt := h.left_lt hcard hready input.2
  have hticket : (s'.phase input.1).ticket = some u ∨ (s'.phase input.1).ticket = none := by
    rcases hmove with rfl | hstep
    · exact .inl hu
    · rcases hstep.ticket with hsame | hnone | ⟨hidle, -⟩
      · exact .inl (hsame.trans hu)
      · exact .inr hnone
      · rw [hidle] at hu; cases hu
  unfold share
  rw [hu]
  dsimp only
  rw [if_pos hut]
  rcases hticket with hsame | hnone
  · rw [hsame, next_pc_self]
    dsimp only
    rw [if_pos hut]
    exact hlt
  · rw [hnone]
    exact Nat.zero_lt_of_lt hlt

theorem Refines.work_next_le (h : Refines c s) (hmove : s' = s ∨ Step s input.1 s')
    (ht : t < s.next) : work (c.next input) s' t ≤ work c s t :=
  Finset.sum_le_sum fun q _ => h.share_next_le hmove ht q

theorem Refines.work_next_lt (h : Refines c s) (hcard : Fintype.card ι ≤ 255)
    (hmove : s' = s ∨ Step s input.1 s') (ht : t < s.next) {u : Nat}
    (hu : (s.phase input.1).ticket = some u) (hut : u ≤ t) (hready : Ready s input.1) :
    work (c.next input) s' t < work c s t :=
  Finset.sum_lt_sum (fun q _ => h.share_next_le hmove ht q)
    ⟨input.1, Finset.mem_univ _, h.share_next_lt hcard hmove hu hut hready⟩

/-- A thread keeps its ticket until it is inside. -/
theorem Refines.ticket_next (h : Refines c s) (h' : Refines (c.next input) s')
    (hmove : s' = s ∨ Step s input.1 s') (hp : (s.phase p).ticket = some t)
    (hout : ¬ (c.pc p).Inside) : (s'.phase p).ticket = some t := by
  rcases hmove with rfl | hstep
  · exact hp
  by_cases hpq : p = input.1
  · subst hpq
    have hsees := h.sees input.1
    have hsees' := h'.sees input.1
    rw [next_pc_self] at hsees'
    cases hstep with
    | take write hidle => rw [hidle] at hp; cases hp
    | write u hphase => rw [hphase] at hp; simpa [Phase.ticket] using hp
    | goAhead u hphase => rw [hphase] at hp; simpa [Phase.ticket] using hp
    | read u hphase => rw [hphase] at hp; simpa [Phase.ticket] using hp
    | endRead u hphase =>
      rw [hphase] at hsees
      simp only [Function.update_self] at hsees'
      generalize c.pc input.1 = pc at hsees hsees' hout
      cases hsees with
      | lockReaderPadReader => cases hsees'
      | reader => exact absurd (.inr rfl) hout
    | endWrite u hphase =>
      rw [hphase] at hsees
      generalize c.pc input.1 = pc at hsees hout
      cases hsees
      exact absurd (.inl rfl) hout
  · rw [hstep.phase_of_ne hpq, hp]

end Instruction

section Rounds

variable [DecidableEq ι]

/-- `p` has the ticket `t` and does not get in during these instructions. -/
structure Waits (c : RwSystem ι) (s : Lock ι) (p : ι) (t : Nat) (inputs : List (ι × Bool)) :
    Prop where
  refines : Refines c s
  ticket : (s.phase p).ticket = some t
  never : ∀ pre, pre <+: inputs → ¬ ((run RwSystem.next c pre).pc p).Inside

theorem Waits.next {input : ι × Bool} {inputs : List (ι × Bool)} (h : Waits c s p t (input :: inputs))
    (hcard : Fintype.card ι ≤ 255) :
    ∃ s', (s' = s ∨ Step s input.1 s') ∧ Waits (c.next input) s' p t inputs := by
  obtain ⟨s', hmove, h'⟩ := h.refines.next hcard input
  refine ⟨s', hmove, h', h.refines.ticket_next h' hmove h.ticket (h.never [] List.nil_prefix), ?_⟩
  intro pre hpre
  exact h.never (input :: pre) (List.cons_prefix_cons.mpr ⟨rfl, hpre⟩)

theorem Waits.run_le {inputs rest : List (ι × Bool)} (h : Waits c s p t (inputs ++ rest))
    (hcard : Fintype.card ι ≤ 255) :
    ∃ s', Waits (run RwSystem.next c inputs) s' p t rest ∧
      work (run RwSystem.next c inputs) s' t ≤ work c s t := by
  induction inputs generalizing c s with
  | nil => exact ⟨s, h, le_rfl⟩
  | cons input inputs ih =>
    obtain ⟨s', hmove, h'⟩ := h.next hcard
    obtain ⟨s'', h'', hle⟩ := ih h'
    exact ⟨s'', h'', hle.trans (h.refines.work_next_le hmove (h.refines.kept.ticket_lt h.ticket))⟩

/-- The turn of a thread that need not wait makes the work smaller, whatever the others do
before and after it. -/
theorem Waits.run_lt {inputs rest : List (ι × Bool)} (h : Waits c s p t (inputs ++ rest))
    (hcard : Fintype.card ι ≤ 255) {u : Nat} (hu : (s.phase q).ticket = some u) (hut : u ≤ t)
    (hready : Ready s q) (hturn : ∃ write, (q, write) ∈ inputs) :
    ∃ s', Waits (run RwSystem.next c inputs) s' p t rest ∧
      work (run RwSystem.next c inputs) s' t < work c s t := by
  induction inputs generalizing c s with
  | nil =>
    obtain ⟨write, hmem⟩ := hturn
    cases hmem
  | cons input inputs ih =>
    have ht := h.refines.kept.ticket_lt h.ticket
    obtain ⟨s', hmove, h'⟩ := h.next hcard
    by_cases hq : q = input.1
    · subst hq
      obtain ⟨s'', h'', hle⟩ := h'.run_le hcard
      exact ⟨s'', h'', hle.trans_lt (h.refines.work_next_lt hcard hmove ht hu hut hready)⟩
    · have hkeep : (s'.phase q).ticket = some u ∧ Ready s' q := by
        rcases hmove with rfl | hstep
        · exact ⟨hu, hready⟩
        · exact ⟨by rw [hstep.phase_of_ne hq, hu], hready.step h.refines.kept hstep hq⟩
      have hrest : ∃ write, (q, write) ∈ inputs := by
        obtain ⟨write, hmem⟩ := hturn
        rcases List.mem_cons.mp hmem with heq | hmem
        · exact absurd (congrArg Prod.fst heq) hq
        · exact ⟨write, hmem⟩
      obtain ⟨s'', h'', hlt⟩ := ih h' hkeep.1 hkeep.2 hrest
      exact ⟨s'', h'', hlt.trans_le (h.refines.work_next_le hmove ht)⟩

theorem Waits.rounds_length_le {rounds : List (List (ι × Bool))}
    (h : Waits c s p t rounds.flatten) (hcard : Fintype.card ι ≤ 255)
    (hrounds : ∀ round ∈ rounds, ∀ q, ∃ write, (q, write) ∈ round) :
    rounds.length ≤ work c s t := by
  induction rounds generalizing c s with
  | nil => exact Nat.zero_le _
  | cons round rounds ih =>
    obtain ⟨q, u, hu, hut, hready⟩ := h.refines.kept.exists_ready h.ticket
    rw [List.flatten_cons] at h
    obtain ⟨s', h', hlt⟩ := h.run_lt hcard hu hut hready (hrounds round List.mem_cons_self q)
    have hle := ih h' fun r hr => hrounds r (List.mem_cons_of_mem _ hr)
    exact hle.trans_lt hlt

/-- A thread with a ticket is inside before every thread has had its turn more than five times
for each thread. -/
theorem served_within (hcard : Fintype.card ι ≤ 255) (before : List (ι × Bool))
    (hp : ((run RwSystem.next (initial : RwSystem ι) before).pc p).inLine = true)
    (rounds : List (List (ι × Bool)))
    (hrounds : ∀ round ∈ rounds, ∀ q, ∃ write, (q, write) ∈ round)
    (hlong : 5 * Fintype.card ι < rounds.length) :
    ∃ pre, pre <+: rounds.flatten ∧
      ((run RwSystem.next (initial : RwSystem ι) (before ++ pre)).pc p).Inside := by
  by_contra hnone
  obtain ⟨s, h⟩ := exists_refines hcard before
  obtain ⟨t, ht⟩ := h.ticket_of_inLine hp
  have hwaits : Waits (run RwSystem.next initial before) s p t rounds.flatten := by
    refine ⟨h, ht, fun pre hpre hin => hnone ⟨pre, hpre, ?_⟩⟩
    rw [run_append]
    exact hin
  have hle := hwaits.rounds_length_le hcard hrounds
  have hwork := work_le (run RwSystem.next initial before) s t
  omega

theorem served_within_two :
    ∃ pre, pre <+: (List.replicate 11 [((0 : Fin 2), true), (1, true)]).flatten ∧
      ((run RwSystem.next (initial : RwSystem (Fin 2)) ([(1, true), (0, true)] ++ pre)).pc
        0).Inside :=
  served_within (by decide) _ (by decide) _ (by decide) (by decide)

end Rounds

section TooMany

variable {ι : Type*} [DecidableEq ι] {c : RwSystem ι} {p : ι} {k : Nat}

/-- The first two instructions of a writer: it takes its ticket and clears the byte behind. -/
theorem takeTicket (hlock : c.lock = rwWord 0 0 0 0 k 0) (hp : c.pc p = .out) :
    run RwSystem.next c [(p, true), (p, true)] =
      ⟨rwWord 0 0 0 0 (k + 1) 0, Function.update c.pc p (.lockWriterSpin (k % 2 ^ 8))⟩ := by
  have hcarry := carry_le k
  have hpad : 0 < 2 ^ 8 := Nat.two_pow_pos 8
  have hfirst : c.next (p, true) = ⟨rwWord 0 0 0 0 (k + 1) (0 + carry k),
      Function.update c.pc p (.lockWriterPad (k % 2 ^ 8))⟩ := by
    rw [RwSystem.next, hp, hlock, RwPc.next, if_pos rfl,
      ticket_next_rwWord hpad hpad, syncAdd_next hpad hpad hpad]
  rw [run_cons, hfirst, run_cons, run_nil, RwSystem.next]
  dsimp only
  rw [Function.update_self, RwPc.next, clear_next_rwWord hpad hpad (by omega),
    Function.update_idem]

theorem next_of_turn {t : Nat} (hp : c.pc p = .lockWriterSpin t)
    (ht : t = ticket_active_writer c.lock) (write : Bool) :
    c.next (p, write) = ⟨c.lock, Function.update c.pc p .writer⟩ := by
  rw [RwSystem.next, hp, RwPc.next, if_neg (not_not.mpr ht)]

def takeTickets (e : Nat → ι) (k : Nat) : List (ι × Bool) :=
  (List.range k).flatMap fun i => [(e i, true), (e i, true)]

theorem run_takeTickets {e : Nat → ι} {n : Nat}
    (he : ∀ i j, i < n → j < n → e i = e j → i = j) (hk : k ≤ n) :
    (run RwSystem.next initial (takeTickets e k)).lock = rwWord 0 0 0 0 k 0 ∧
      ∀ i < n, (run RwSystem.next initial (takeTickets e k)).pc (e i) =
        if i < k then .lockWriterSpin (i % 2 ^ 8) else .out := by
  induction k with
  | zero => exact ⟨by simp [takeTickets, initial, rwWord], fun i _ => by simp [takeTickets, initial]⟩
  | succ k ih =>
    obtain ⟨hlock, hpc⟩ := ih (Nat.le_of_succ_le hk)
    have hout := hpc k hk
    rw [if_neg (Nat.lt_irrefl k)] at hout
    rw [takeTickets, List.range_succ, List.flatMap_append, run_append, List.flatMap_singleton,
      ← takeTickets, takeTicket hlock hout]
    refine ⟨rfl, fun i hi => ?_⟩
    dsimp only
    by_cases hik : i = k
    · rw [hik, Function.update_self, if_pos (Nat.lt_succ_self k)]
    · rw [Function.update_of_ne fun heq => hik (he i k hi hk heq), hpc i hi]
      simp only [show i < k + 1 ↔ i < k by omega]

/-- The number of threads is not checked anywhere, and with 257 of them the last ticket is the
first one again. -/
theorem two_writers_of_card [Fintype ι] (hcard : 257 ≤ Fintype.card ι) :
    ∃ (inputs : List (ι × Bool)) (p q : ι), p ≠ q ∧
      (run RwSystem.next initial inputs).pc p = .writer ∧
        (run RwSystem.next initial inputs).pc q = .writer := by
  obtain ⟨f⟩ : Nonempty (Fin 257 ↪ ι) := Function.Embedding.nonempty_of_card_le (by simpa using hcard)
  let e (i : Nat) : ι := f (Fin.ofNat 257 i)
  have he (i j : Nat) (hi : i < 257) (hj : j < 257) (heq : e i = e j) : i = j := by
    have hval := congrArg Fin.val (f.injective heq)
    simp only [Fin.val_ofNat] at hval
    omega
  obtain ⟨hlock, hpc⟩ := run_takeTickets he le_rfl
  have hne : e 0 ≠ e 256 := fun heq => absurd (he 0 256 (by decide) (by decide) heq) (by decide)
  refine ⟨takeTickets e 257 ++ [(e 0, true), (e 256, true)], e 0, e 256, hne, ?_⟩
  rw [run_append, run_cons, run_cons, run_nil]
  generalize run RwSystem.next initial (takeTickets e 257) = c at hlock hpc ⊢
  have hturn : 0 = ticket_active_writer c.lock := by
    rw [hlock, ticket_active_writer_rwWord, Nat.zero_mod]
  have hlast : (c.next (e 0, true)).pc (e 256) = .lockWriterSpin 0 :=
    (c.next_pc_of_ne hne.symm).trans (hpc 256 (by decide))
  rw [next_of_turn (hpc 0 (by decide)) hturn] at hlast ⊢
  rw [next_of_turn hlast hturn]
  exact ⟨by simp [hne], Function.update_self _ _ _⟩

theorem two_writers_of_card_fin :
    ∃ (inputs : List (Fin 257 × Bool)) (p q : Fin 257), p ≠ q ∧
      (run RwSystem.next initial inputs).pc p = .writer ∧
        (run RwSystem.next initial inputs).pc q = .writer :=
  two_writers_of_card (by rw [Fintype.card_fin])

end TooMany

end RwSystem

end AnalysePcap
