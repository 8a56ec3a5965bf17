import AnalysePcap.Run
import AnalysePcap.TicketLock
import Mathlib.Tactic.NormNum

/-! `shf.lock.h`: the lock of a window of a shared hash file. The three numbers of a lock that
serves by tickets are bytes of one word of 64 bits. They are incremented by adding to the
word, and the byte behind each of them takes the carry until it is cleared. -/

namespace AnalysePcap

open Machine TicketLock

/-- `as_u08` at the given offset. -/
def as_u08 (lock offset : Nat) : Nat := lock / 2 ^ (8 * offset) % 2 ^ 8

def clear_u08 (lock offset : Nat) : Nat := lock - as_u08 lock offset * 2 ^ (8 * offset)

/-- The word after `__sync_fetch_and_add_8`. -/
def syncAdd (lock value : Nat) : Nat := (lock + value) % 2 ^ 64

def SHF_RW_LOCK_INC_TICKET_NEXT_ACTIVE_WRITER : Nat := 0x0000000000000001

def SHF_RW_LOCK_INC_TICKET_NEXT_ACTIVE_READER : Nat := 0x0000000000010000

def SHF_RW_LOCK_INC_TICKET_NEXT : Nat := 0x0000000100000000

def ticket_active_writer (lock : Nat) : Nat := as_u08 lock 0

def ticket_active_reader (lock : Nat) : Nat := as_u08 lock 2

def ticket_next (lock : Nat) : Nat := as_u08 lock 4

/-- Where a thread is: outside, inside, or at an instruction of one of the four functions. -/
inductive RwPc where
  | out
  | lockWriterPad (ticket_next_pre_inc : Nat)
  | lockWriterSpin (ticket_next_pre_inc : Nat)
  | writer
  | unlockWriterPadWriter
  | unlockWriterPadReader
  | lockReaderPad (ticket_next_pre_inc : Nat)
  | lockReaderSpin (ticket_next_pre_inc : Nat)
  | lockReaderAdd
  | lockReaderPadReader
  | reader
  | unlockReaderPad
  deriving DecidableEq

/-- The next instruction of a thread. A thread that is outside starts `shf_rw_lock_writer` or
`shf_rw_lock_reader`, and one that is inside leaves. -/
def RwPc.next (lock : Nat) (write : Bool) : RwPc → RwPc × Nat
  | .out =>
    if write then (.lockWriterPad (ticket_next lock), syncAdd lock SHF_RW_LOCK_INC_TICKET_NEXT)
    else (.lockReaderPad (ticket_next lock), syncAdd lock SHF_RW_LOCK_INC_TICKET_NEXT)
  | .lockWriterPad ticket => (.lockWriterSpin ticket, clear_u08 lock 5)
  | .lockWriterSpin ticket =>
    if ticket ≠ ticket_active_writer lock then (.lockWriterSpin ticket, lock) else (.writer, lock)
  | .writer =>
    (.unlockWriterPadWriter, syncAdd lock
      (SHF_RW_LOCK_INC_TICKET_NEXT_ACTIVE_WRITER + SHF_RW_LOCK_INC_TICKET_NEXT_ACTIVE_READER))
  | .unlockWriterPadWriter => (.unlockWriterPadReader, clear_u08 lock 1)
  | .unlockWriterPadReader => (.out, clear_u08 lock 3)
  | .lockReaderPad ticket => (.lockReaderSpin ticket, clear_u08 lock 5)
  | .lockReaderSpin ticket =>
    if ticket ≠ ticket_active_reader lock then (.lockReaderSpin ticket, lock)
    else (.lockReaderAdd, lock)
  | .lockReaderAdd =>
    (.lockReaderPadReader, syncAdd lock SHF_RW_LOCK_INC_TICKET_NEXT_ACTIVE_READER)
  | .lockReaderPadReader => (.reader, clear_u08 lock 3)
  | .reader => (.unlockReaderPad, syncAdd lock SHF_RW_LOCK_INC_TICKET_NEXT_ACTIVE_WRITER)
  | .unlockReaderPad => (.out, clear_u08 lock 1)

/-- The threads of all processes that use one lock. -/
structure RwSystem (ι : Type*) where
  lock : Nat
  pc : ι → RwPc

namespace RwSystem

variable {ι : Type*}

def initial : RwSystem ι := ⟨0, fun _ => .out⟩

/-- One thread goes on by one instruction; it wants to write if `input.2` is set. -/
def next [DecidableEq ι] (s : RwSystem ι) (input : ι × Bool) : RwSystem ι where
  lock := ((s.pc input.1).next s.lock input.2).2
  pc := Function.update s.pc input.1 ((s.pc input.1).next s.lock input.2).1

theorem next_pc_self [DecidableEq ι] (s : RwSystem ι) (input : ι × Bool) :
    (s.next input).pc input.1 = ((s.pc input.1).next s.lock input.2).1 :=
  Function.update_self _ _ _

theorem next_pc_of_ne [DecidableEq ι] (s : RwSystem ι) {input : ι × Bool} {q : ι}
    (hq : q ≠ input.1) : (s.next input).pc q = s.pc q :=
  Function.update_of_ne hq _ _

end RwSystem

/-- The word with the numbers `w`, `r` and `n` of the active writer, the active reader and the
next ticket, and what is in the bytes behind them. -/
def rwWord (w pw r pr n pn : Nat) : Nat :=
  w % 2 ^ 8 + pw * 2 ^ 8 + r % 2 ^ 8 * 2 ^ 16 + pr * 2 ^ 24 + n % 2 ^ 8 * 2 ^ 32 + pn * 2 ^ 40

/-- What an increment of a number adds to the byte behind it. -/
def carry (n : Nat) : Nat := if n % 2 ^ 8 = 2 ^ 8 - 1 then 1 else 0

section Word

variable {w pw r pr n pn : Nat}

theorem carry_le (n : Nat) : carry n ≤ 1 := by
  unfold carry
  split_ifs <;> omega

theorem succ_mod (n : Nat) : (n + 1) % 2 ^ 8 + carry n * 2 ^ 8 = n % 2 ^ 8 + 1 := by
  unfold carry
  split_ifs <;> omega

theorem ticket_active_writer_rwWord :
    ticket_active_writer (rwWord w pw r pr n pn) = w % 2 ^ 8 := by
  unfold ticket_active_writer as_u08 rwWord
  omega

theorem ticket_active_reader_rwWord (hpw : pw < 2 ^ 8) :
    ticket_active_reader (rwWord w pw r pr n pn) = r % 2 ^ 8 := by
  unfold ticket_active_reader as_u08 rwWord
  omega

theorem ticket_next_rwWord (hpw : pw < 2 ^ 8) (hpr : pr < 2 ^ 8) :
    ticket_next (rwWord w pw r pr n pn) = n % 2 ^ 8 := by
  unfold ticket_next as_u08 rwWord
  omega

theorem clear_writer_rwWord (hpw : pw < 2 ^ 8) :
    clear_u08 (rwWord w pw r pr n pn) 1 = rwWord w 0 r pr n pn := by
  unfold clear_u08 as_u08 rwWord
  omega

theorem clear_reader_rwWord (hpw : pw < 2 ^ 8) (hpr : pr < 2 ^ 8) :
    clear_u08 (rwWord w pw r pr n pn) 3 = rwWord w pw r 0 n pn := by
  unfold clear_u08 as_u08 rwWord
  omega

theorem clear_next_rwWord (hpw : pw < 2 ^ 8) (hpr : pr < 2 ^ 8) (hpn : pn < 2 ^ 8) :
    clear_u08 (rwWord w pw r pr n pn) 5 = rwWord w pw r pr n 0 := by
  unfold clear_u08 as_u08 rwWord
  omega

theorem rwWord_lt (hpw : pw < 2 ^ 8) (hpr : pr < 2 ^ 8) (hpn : pn < 2 ^ 8) :
    rwWord w pw r pr n pn < 2 ^ 48 := by
  unfold rwWord
  omega

theorem syncAdd_writer (hpw : pw < 2 ^ 8) (hpr : pr < 2 ^ 8) (hpn : pn < 2 ^ 8) :
    syncAdd (rwWord w pw r pr n pn) SHF_RW_LOCK_INC_TICKET_NEXT_ACTIVE_WRITER =
      rwWord (w + 1) (pw + carry w) r pr n pn := by
  have hlt := rwWord_lt (w := w) (r := r) (n := n) hpw hpr hpn
  have hw := succ_mod w
  unfold syncAdd SHF_RW_LOCK_INC_TICKET_NEXT_ACTIVE_WRITER
  rw [Nat.mod_eq_of_lt (by omega)]
  unfold rwWord
  omega

theorem syncAdd_reader (hpw : pw < 2 ^ 8) (hpr : pr < 2 ^ 8) (hpn : pn < 2 ^ 8) :
    syncAdd (rwWord w pw r pr n pn) SHF_RW_LOCK_INC_TICKET_NEXT_ACTIVE_READER =
      rwWord w pw (r + 1) (pr + carry r) n pn := by
  have hlt := rwWord_lt (w := w) (r := r) (n := n) hpw hpr hpn
  have hr := succ_mod r
  unfold syncAdd SHF_RW_LOCK_INC_TICKET_NEXT_ACTIVE_READER
  rw [Nat.mod_eq_of_lt (by omega)]
  unfold rwWord
  omega

theorem syncAdd_next (hpw : pw < 2 ^ 8) (hpr : pr < 2 ^ 8) (hpn : pn < 2 ^ 8) :
    syncAdd (rwWord w pw r pr n pn) SHF_RW_LOCK_INC_TICKET_NEXT =
      rwWord w pw r pr (n + 1) (pn + carry n) := by
  have hlt := rwWord_lt (w := w) (r := r) (n := n) hpw hpr hpn
  have hn := succ_mod n
  unfold syncAdd SHF_RW_LOCK_INC_TICKET_NEXT
  rw [Nat.mod_eq_of_lt (by omega)]
  unfold rwWord
  omega

theorem syncAdd_both (hpw : pw < 2 ^ 8) (hpr : pr < 2 ^ 8) (hpn : pn < 2 ^ 8) :
    syncAdd (rwWord w pw r pr n pn)
        (SHF_RW_LOCK_INC_TICKET_NEXT_ACTIVE_WRITER + SHF_RW_LOCK_INC_TICKET_NEXT_ACTIVE_READER) =
      rwWord (w + 1) (pw + carry w) (r + 1) (pr + carry r) n pn := by
  have hlt := rwWord_lt (w := w) (r := r) (n := n) hpw hpr hpn
  have hw := succ_mod w
  have hr := succ_mod r
  unfold syncAdd SHF_RW_LOCK_INC_TICKET_NEXT_ACTIVE_WRITER
    SHF_RW_LOCK_INC_TICKET_NEXT_ACTIVE_READER
  rw [Nat.mod_eq_of_lt (by omega)]
  unfold rwWord
  omega

end Word

/-- The phase of a thread in the lock that counts its tickets without a bound. -/
inductive Sees : RwPc → Phase → Prop
  | out : Sees .out .idle
  | lockWriterPad (t : Nat) : Sees (.lockWriterPad (t % 2 ^ 8)) (.waiting true t)
  | lockWriterSpin (t : Nat) : Sees (.lockWriterSpin (t % 2 ^ 8)) (.waiting true t)
  | writer (t : Nat) : Sees .writer (.writing t)
  | unlockWriterPadWriter : Sees .unlockWriterPadWriter .idle
  | unlockWriterPadReader : Sees .unlockWriterPadReader .idle
  | lockReaderPad (t : Nat) : Sees (.lockReaderPad (t % 2 ^ 8)) (.waiting false t)
  | lockReaderSpin (t : Nat) : Sees (.lockReaderSpin (t % 2 ^ 8)) (.waiting false t)
  | lockReaderAdd (t : Nat) : Sees .lockReaderAdd (.admitted t)
  | lockReaderPadReader (t : Nat) : Sees .lockReaderPadReader (.reading t)
  | reader (t : Nat) : Sees .reader (.reading t)
  | unlockReaderPad : Sees .unlockReaderPad .idle

namespace RwPc

/-- The thread has added to the number of the active writer and not yet cleared the byte
behind it. -/
def padsWriter : RwPc → Bool
  | .unlockWriterPadWriter => true
  | .unlockReaderPad => true
  | _ => false

def padsReader : RwPc → Bool
  | .unlockWriterPadWriter => true
  | .unlockWriterPadReader => true
  | .lockReaderPadReader => true
  | _ => false

def padsNext : RwPc → Bool
  | .lockWriterPad _ => true
  | .lockReaderPad _ => true
  | _ => false

/-- The thread has a ticket and its number has not been passed on. -/
def inLine : RwPc → Bool
  | .lockWriterPad _ => true
  | .lockWriterSpin _ => true
  | .writer => true
  | .lockReaderPad _ => true
  | .lockReaderSpin _ => true
  | .lockReaderAdd => true
  | _ => false

def Inside (pc : RwPc) : Prop := pc = .writer ∨ pc = .reader

instance Inside.instDecidable (pc : RwPc) : Decidable pc.Inside :=
  inferInstanceAs (Decidable (pc = .writer ∨ pc = .reader))

end RwPc

theorem sees_update {ι : Type*} [DecidableEq ι] {f : ι → RwPc} {g : ι → Phase}
    (h : ∀ q, Sees (f q) (g q)) {a : RwPc} {b : Phase} (hab : Sees a b) (p q : ι) :
    Sees (Function.update f p a q) (Function.update g p b q) := by
  by_cases hq : q = p
  · rw [hq, Function.update_self, Function.update_self]
    exact hab
  · rw [Function.update_of_ne hq, Function.update_of_ne hq]
    exact h q

namespace RwSystem

variable {ι : Type*} [Fintype ι]

/-- The word has the three numbers, and a byte behind a number counts at most the threads that
have still to clear it. -/
structure Refines (c : RwSystem ι) (s : Lock ι) : Prop where
  kept : Kept s
  sees : ∀ p, Sees (c.pc p) (s.phase p)
  word : ∃ pw pr pn, c.lock = rwWord s.writer pw s.reader pr s.next pn ∧
    pw ≤ count c.pc RwPc.padsWriter ∧ pr ≤ count c.pc RwPc.padsReader ∧
      pn ≤ count c.pc RwPc.padsNext

theorem refines_initial : Refines (initial : RwSystem ι) TicketLock.initial where
  kept := kept_initial
  sees _ := .out
  word := ⟨0, 0, 0, by simp [initial, TicketLock.initial, rwWord], Nat.zero_le _, Nat.zero_le _,
    Nat.zero_le _⟩

variable {c : RwSystem ι} {s : Lock ι} {p q : ι}

section Word

variable (h : Refines c s) (hcard : Fintype.card ι ≤ 255)
include h hcard

theorem Refines.word_lt : ∃ pw pr pn, c.lock = rwWord s.writer pw s.reader pr s.next pn ∧
    pw < 2 ^ 8 ∧ pr < 2 ^ 8 ∧ pn < 2 ^ 8 := by
  obtain ⟨pw, pr, pn, hlock, hpw, hpr, hpn⟩ := h.word
  have hbound (P : RwPc → Bool) : count c.pc P < 2 ^ 8 := by
    have hle := count_le_card c.pc P
    omega
  exact ⟨pw, pr, pn, hlock, hpw.trans_lt (hbound _), hpr.trans_lt (hbound _),
    hpn.trans_lt (hbound _)⟩

/-- The byte that a waiting writer reads tells whether it is its turn. -/
theorem Refines.turn_writer {t : Nat} (hp : s.phase p = .waiting true t) :
    t % 2 ^ 8 = ticket_active_writer c.lock ↔ s.writer = t := by
  obtain ⟨pw, pr, pn, hlock, -, -, -⟩ := h.word
  obtain ⟨hle, hlt⟩ := h.kept.ahead (p := p) (t := t) (by rw [hp]; rfl)
  have hnextLe := h.kept.next_le
  have hwriterLe := h.kept.writer_le
  rw [hlock, ticket_active_writer_rwWord]
  omega

theorem Refines.turn_reader {t : Nat} (hp : s.phase p = .waiting false t) :
    t % 2 ^ 8 = ticket_active_reader c.lock ↔ s.reader = t := by
  obtain ⟨pw, pr, pn, hlock, hpw, -, -⟩ := h.word_lt hcard
  obtain ⟨hle, hlt⟩ := h.kept.ahead (p := p) (t := t) (by rw [hp]; rfl)
  have hnextLe := h.kept.next_le
  have hwriterLe := h.kept.writer_le
  rw [hlock, ticket_active_reader_rwWord hpw]
  omega

end Word

theorem Refines.ahead_ne_none (h : Refines c s) (hp : (c.pc p).inLine = true) :
    (s.phase p).ahead ≠ none := by
  have hsees := h.sees p
  intro hnone
  generalize c.pc p = pc at hp hsees
  generalize s.phase p = phase at hnone hsees
  cases hsees with
  | out | unlockWriterPadWriter | unlockWriterPadReader | lockReaderPadReader | reader
  | unlockReaderPad => cases hp
  | _ => cases hnone

theorem Refines.not_inside (h : Refines c s)
    (hq : s.phase q = .idle ∨ ∃ write u, s.phase q = .waiting write u) : ¬ (c.pc q).Inside := by
  have hsees := h.sees q
  rintro (hin | hin)
  · rw [hin] at hsees
    rcases hq with hidle | ⟨_, _, hwait⟩
    · rw [hidle] at hsees; cases hsees
    · rw [hwait] at hsees; cases hsees
  · rw [hin] at hsees
    rcases hq with hidle | ⟨_, _, hwait⟩
    · rw [hidle] at hsees; cases hsees
    · rw [hwait] at hsees; cases hsees

variable [DecidableEq ι]

/-- A thread goes on, and its phase and the word are those of the next state. -/
theorem Refines.move {s' : Lock ι} {input : ι × Bool} {pw pr pn : Nat} (h : Refines c s)
    (hkept : Kept s') (a : RwPc) (b : Phase)
    (hnext : (c.pc input.1).next c.lock input.2 =
      (a, rwWord s'.writer pw s'.reader pr s'.next pn))
    (hphase : s'.phase = Function.update s.phase input.1 b) (hsees : Sees a b)
    (hpads : pw ≤ count (Function.update c.pc input.1 a) RwPc.padsWriter ∧
      pr ≤ count (Function.update c.pc input.1 a) RwPc.padsReader ∧
        pn ≤ count (Function.update c.pc input.1 a) RwPc.padsNext) :
    Refines (c.next input) s' := by
  have hc : c.next input =
      ⟨rwWord s'.writer pw s'.reader pr s'.next pn, Function.update c.pc input.1 a⟩ := by
    rw [next, hnext]
  rw [hc]
  refine ⟨hkept, fun q => ?_, pw, pr, pn, rfl, hpads⟩
  rw [hphase]
  exact sees_update h.sees hsees input.1 q

theorem Refines.stutter {input : ι × Bool} {pw pr pn : Nat} (h : Refines c s) (a : RwPc)
    (hnext : (c.pc input.1).next c.lock input.2 =
      (a, rwWord s.writer pw s.reader pr s.next pn))
    (hsees : Sees a (s.phase input.1))
    (hpads : pw ≤ count (Function.update c.pc input.1 a) RwPc.padsWriter ∧
      pr ≤ count (Function.update c.pc input.1 a) RwPc.padsReader ∧
        pn ≤ count (Function.update c.pc input.1 a) RwPc.padsNext) :
    ∃ s', (s' = s ∨ Step s input.1 s') ∧ Refines (c.next input) s' :=
  ⟨s, .inl rfl, h.move h.kept a (s.phase input.1) hnext (Function.update_eq_self _ _).symm hsees
    hpads⟩

theorem Refines.advance {s' : Lock ι} {input : ι × Bool} {pw pr pn : Nat} (h : Refines c s)
    (hstep : Step s input.1 s') (a : RwPc) (b : Phase)
    (hnext : (c.pc input.1).next c.lock input.2 =
      (a, rwWord s'.writer pw s'.reader pr s'.next pn))
    (hphase : s'.phase = Function.update s.phase input.1 b) (hsees : Sees a b)
    (hpads : pw ≤ count (Function.update c.pc input.1 a) RwPc.padsWriter ∧
      pr ≤ count (Function.update c.pc input.1 a) RwPc.padsReader ∧
        pn ≤ count (Function.update c.pc input.1 a) RwPc.padsNext) :
    ∃ s', (s' = s ∨ Step s input.1 s') ∧ Refines (c.next input) s' :=
  ⟨s', .inr hstep, h.move (h.kept.step hstep) a b hnext hphase hsees hpads⟩

/-- With less than 256 threads, every instruction is a step of the lock that counts without a
bound, or it changes nothing there. -/
theorem Refines.next (h : Refines c s) (hcard : Fintype.card ι ≤ 255) (input : ι × Bool) :
    ∃ s', (s' = s ∨ Step s input.1 s') ∧ Refines (c.next input) s' := by
  obtain ⟨p, write⟩ := input
  obtain ⟨pw, pr, pn, hlock, hpw, hpr, hpn⟩ := h.word
  have hbound (P : RwPc → Bool) : count c.pc P < 2 ^ 8 := by
    have hle := count_le_card c.pc P
    omega
  have hpw' : pw < 2 ^ 8 := hpw.trans_lt (hbound _)
  have hpr' : pr < 2 ^ 8 := hpr.trans_lt (hbound _)
  have hpn' : pn < 2 ^ 8 := hpn.trans_lt (hbound _)
  have hsees := h.sees p
  generalize hpc : c.pc p = pc at hsees
  generalize hphase : s.phase p = phase at hsees
  cases hsees with
  | out =>
    have hcarry := carry_le s.next
    cases write with
    | true =>
      refine h.advance (.take true hphase) (.lockWriterPad (s.next % 2 ^ 8)) _
        (by rw [hpc, hlock, RwPc.next, if_pos rfl, ticket_next_rwWord hpw' hpr',
          syncAdd_next hpw' hpr' hpn']) rfl (.lockWriterPad _) ?_
      rw [count_update_same (by rw [hpc]; rfl), count_update_same (by rw [hpc]; rfl),
        count_update_add (by rw [hpc]; rfl) rfl]
      exact ⟨hpw, hpr, by omega⟩
    | false =>
      refine h.advance (.take false hphase) (.lockReaderPad (s.next % 2 ^ 8)) _
        (by rw [hpc, hlock, RwPc.next, if_neg Bool.false_ne_true, ticket_next_rwWord hpw' hpr',
          syncAdd_next hpw' hpr' hpn']) rfl (.lockReaderPad _) ?_
      rw [count_update_same (by rw [hpc]; rfl), count_update_same (by rw [hpc]; rfl),
        count_update_add (by rw [hpc]; rfl) rfl]
      exact ⟨hpw, hpr, by omega⟩
  | lockWriterPad t =>
    refine h.stutter (.lockWriterSpin (t % 2 ^ 8))
      (by rw [hpc, hlock, RwPc.next, clear_next_rwWord hpw' hpr' hpn'])
      (by rw [hphase]; exact .lockWriterSpin t) ?_
    rw [count_update_same (P := RwPc.padsWriter) (by rw [hpc]; rfl),
      count_update_same (P := RwPc.padsReader) (by rw [hpc]; rfl)]
    exact ⟨hpw, hpr, Nat.zero_le _⟩
  | lockWriterSpin t =>
    by_cases hturn : t % 2 ^ 8 = ticket_active_writer c.lock
    · refine h.advance (.write t hphase ((h.turn_writer hcard hphase).mp hturn)) .writer _
        (by rw [hpc, RwPc.next, if_neg (not_not.mpr hturn), hlock]) rfl (.writer t) ?_
      rw [count_update_same (by rw [hpc]; rfl), count_update_same (by rw [hpc]; rfl),
        count_update_same (by rw [hpc]; rfl)]
      exact ⟨hpw, hpr, hpn⟩
    · refine h.stutter (.lockWriterSpin (t % 2 ^ 8))
        (by rw [hpc, RwPc.next, if_pos hturn, hlock]) (by rw [hphase]; exact .lockWriterSpin t) ?_
      rw [count_update_same (by rw [hpc]), count_update_same (by rw [hpc]),
        count_update_same (by rw [hpc])]
      exact ⟨hpw, hpr, hpn⟩
  | writer t =>
    have hcarryW := carry_le s.writer
    have hcarryR := carry_le s.reader
    refine h.advance (.endWrite t hphase) .unlockWriterPadWriter _
      (by rw [hpc, hlock, RwPc.next, syncAdd_both hpw' hpr' hpn']) rfl .unlockWriterPadWriter ?_
    rw [count_update_add (by rw [hpc]; rfl) rfl, count_update_add (by rw [hpc]; rfl) rfl,
      count_update_same (by rw [hpc]; rfl)]
    exact ⟨by omega, by omega, hpn⟩
  | unlockWriterPadWriter =>
    refine h.stutter .unlockWriterPadReader
      (by rw [hpc, hlock, RwPc.next, clear_writer_rwWord hpw'])
      (by rw [hphase]; exact .unlockWriterPadReader) ?_
    rw [count_update_same (P := RwPc.padsReader) (by rw [hpc]; rfl),
      count_update_same (P := RwPc.padsNext) (by rw [hpc]; rfl)]
    exact ⟨Nat.zero_le _, hpr, hpn⟩
  | unlockWriterPadReader =>
    refine h.stutter .out (by rw [hpc, hlock, RwPc.next, clear_reader_rwWord hpw' hpr'])
      (by rw [hphase]; exact .out) ?_
    rw [count_update_same (P := RwPc.padsWriter) (by rw [hpc]; rfl),
      count_update_same (P := RwPc.padsNext) (by rw [hpc]; rfl)]
    exact ⟨hpw, Nat.zero_le _, hpn⟩
  | lockReaderPad t =>
    refine h.stutter (.lockReaderSpin (t % 2 ^ 8))
      (by rw [hpc, hlock, RwPc.next, clear_next_rwWord hpw' hpr' hpn'])
      (by rw [hphase]; exact .lockReaderSpin t) ?_
    rw [count_update_same (P := RwPc.padsWriter) (by rw [hpc]; rfl),
      count_update_same (P := RwPc.padsReader) (by rw [hpc]; rfl)]
    exact ⟨hpw, hpr, Nat.zero_le _⟩
  | lockReaderSpin t =>
    by_cases hturn : t % 2 ^ 8 = ticket_active_reader c.lock
    · refine h.advance (.goAhead t hphase ((h.turn_reader hcard hphase).mp hturn)) .lockReaderAdd _
        (by rw [hpc, RwPc.next, if_neg (not_not.mpr hturn), hlock]) rfl (.lockReaderAdd t) ?_
      rw [count_update_same (by rw [hpc]; rfl), count_update_same (by rw [hpc]; rfl),
        count_update_same (by rw [hpc]; rfl)]
      exact ⟨hpw, hpr, hpn⟩
    · refine h.stutter (.lockReaderSpin (t % 2 ^ 8))
        (by rw [hpc, RwPc.next, if_pos hturn, hlock]) (by rw [hphase]; exact .lockReaderSpin t) ?_
      rw [count_update_same (by rw [hpc]), count_update_same (by rw [hpc]),
        count_update_same (by rw [hpc])]
      exact ⟨hpw, hpr, hpn⟩
  | lockReaderAdd t =>
    have hcarry := carry_le s.reader
    refine h.advance (.read t hphase) .lockReaderPadReader _
      (by rw [hpc, hlock, RwPc.next, syncAdd_reader hpw' hpr' hpn']) rfl (.lockReaderPadReader t) ?_
    rw [count_update_same (by rw [hpc]; rfl), count_update_add (by rw [hpc]; rfl) rfl,
      count_update_same (by rw [hpc]; rfl)]
    exact ⟨hpw, by omega, hpn⟩
  | lockReaderPadReader t =>
    refine h.stutter .reader (by rw [hpc, hlock, RwPc.next, clear_reader_rwWord hpw' hpr'])
      (by rw [hphase]; exact .reader t) ?_
    rw [count_update_same (P := RwPc.padsWriter) (by rw [hpc]; rfl),
      count_update_same (P := RwPc.padsNext) (by rw [hpc]; rfl)]
    exact ⟨hpw, Nat.zero_le _, hpn⟩
  | reader t =>
    have hcarry := carry_le s.writer
    refine h.advance (.endRead t hphase) .unlockReaderPad _
      (by rw [hpc, hlock, RwPc.next, syncAdd_writer hpw' hpr' hpn']) rfl .unlockReaderPad ?_
    rw [count_update_add (by rw [hpc]; rfl) rfl, count_update_same (by rw [hpc]; rfl),
      count_update_same (by rw [hpc]; rfl)]
    exact ⟨by omega, hpr, hpn⟩
  | unlockReaderPad =>
    refine h.stutter .out (by rw [hpc, hlock, RwPc.next, clear_writer_rwWord hpw'])
      (by rw [hphase]; exact .out) ?_
    rw [count_update_same (P := RwPc.padsReader) (by rw [hpc]; rfl),
      count_update_same (P := RwPc.padsNext) (by rw [hpc]; rfl)]
    exact ⟨Nat.zero_le _, hpr, hpn⟩

theorem exists_refines (hcard : Fintype.card ι ≤ 255) (inputs : List (ι × Bool)) :
    ∃ s, Refines (run next (initial : RwSystem ι) inputs) s := by
  refine run_invariant (P := fun c => ∃ s, Refines c s) ?_ ⟨_, refines_initial⟩ inputs
  rintro c input ⟨s, h⟩
  obtain ⟨s', -, h'⟩ := h.next hcard input
  exact ⟨s', h'⟩

/-- While a thread writes no other thread reads or writes. -/
theorem mutual_exclusion (hcard : Fintype.card ι ≤ 255) (inputs : List (ι × Bool))
    (hpq : q ≠ p) (hp : (run next (initial : RwSystem ι) inputs).pc p = .writer) :
    ¬ ((run next (initial : RwSystem ι) inputs).pc q).Inside := by
  obtain ⟨s, h⟩ := exists_refines hcard inputs
  have hsees := h.sees p
  rw [hp] at hsees
  generalize hphase : s.phase p = phase at hsees
  cases hsees
  apply h.not_inside
  rcases h.kept.phase_of_writing hphase hpq with hidle | ⟨write, u, hwait, -⟩
  · exact .inl hidle
  · exact .inr ⟨write, u, hwait⟩

theorem mutual_exclusion_two :
    (run next (initial : RwSystem (Fin 2))
        [(0, true), (1, false), (0, true), (1, false), (0, true), (1, false)]).pc 0 = .writer ∧
      ¬ ((run next (initial : RwSystem (Fin 2))
        [(0, true), (1, false), (0, true), (1, false), (0, true), (1, false)]).pc 1).Inside :=
  ⟨by decide, mutual_exclusion (p := 0) (by decide) _ (by decide) (by decide)⟩

theorem Refines.behind_next (h : Refines c s) (hcard : Fintype.card ι ≤ 255) (hpq : Behind s p q)
    (input : ι × Bool) (hstay : ((c.next input).pc p).inLine = true) :
    ∃ s', Refines (c.next input) s' ∧ Behind s' p q := by
  obtain ⟨s', hs' | hstep, h'⟩ := h.next hcard input
  · exact ⟨s', h', hs' ▸ hpq⟩
  · exact ⟨s', h', hpq.step h.kept hstep (h'.ahead_ne_none hstay)⟩

/-- A thread that was outside when another one already had its ticket does not get in before
the other one, be it a reader or a writer. -/
theorem first_come_first_served (hcard : Fintype.card ι ≤ 255) (before after : List (ι × Bool))
    (hq : (run next (initial : RwSystem ι) before).pc q = .out)
    (hp : ∀ pre, pre <+: after → ((run next (initial : RwSystem ι) (before ++ pre)).pc p).inLine = true) :
    ¬ ((run next (initial : RwSystem ι) (before ++ after)).pc q).Inside := by
  have hbehind : ∃ s, Refines (run next (initial : RwSystem ι) (before ++ after)) s ∧
      Behind s p q := by
    induction after using List.reverseRecOn with
    | nil =>
      obtain ⟨s, h⟩ := exists_refines hcard before
      have hline := hp [] List.nil_prefix
      rw [List.append_nil] at hline ⊢
      obtain ⟨t, ht⟩ := Option.ne_none_iff_exists'.mp (h.ahead_ne_none hline)
      have hsees := h.sees q
      rw [hq] at hsees
      refine ⟨s, h, t, ht, .inl ?_⟩
      generalize s.phase q = phase at hsees
      cases hsees
      rfl
    | append_singleton pre input ih =>
      obtain ⟨s, h, hpq⟩ := ih fun pre' hpre' => hp pre' (hpre'.trans (List.prefix_append _ _))
      have hline := hp (pre ++ [input]) List.prefix_rfl
      rw [← List.append_assoc, run_concat] at hline ⊢
      exact h.behind_next hcard hpq input hline
  obtain ⟨s, h, hpq⟩ := hbehind
  exact h.not_inside (hpq.outside h.kept)

theorem first_come_first_served_two :
    (run next (initial : RwSystem (Fin 2)) [(0, true)]).pc 1 = .out ∧
      ¬ ((run next (initial : RwSystem (Fin 2))
        ([(0, true)] ++ [(1, false), (1, false), (0, true), (1, false)])).pc 1).Inside :=
  ⟨by decide, first_come_first_served (p := 0) (by decide) _ _ (by decide) (by
    simp only [← List.mem_inits]
    decide)⟩

end RwSystem

end AnalysePcap
