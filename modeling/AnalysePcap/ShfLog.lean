import AnalysePcap.DrainBuffer
import AnalysePcap.Run

/-! The log of the shared hash file. Any number of threads append their lines to a buffer in the
shared memory, one thread writes it out. The sections under the lock are single steps here. In any
interleaving the bytes come out in the order in which they went in, none twice and none left out.
-/

namespace AnalysePcap

open ByteMemory DrainBuffer

def SHF_LOG_WRITE_THRESHOLD : Nat := 64 * 1024

def SHF_LOG_DEFAULT_SIZE : Nat := 64 * 1024 * 10

/-- A line for `shf_log_append`, and the `shf_log_prefix_len` of the thread that logs it, which
is an index of `shf_log_prefix`. -/
structure ShfLogLine where
  log_line : List (BitVec 8)
  shf_log_prefix_len : Fin 128
  deriving DecidableEq

namespace ShfLogLine

def length (line : ShfLogLine) : Nat := line.log_line.length

/-- The room that `shf_log_append` asks for. -/
def need (line : ShfLogLine) : Nat := line.shf_log_prefix_len + line.length

end ShfLogLine

/-- `SHF_LOG_MMAP`, where `bytes` is the address of its bytes. -/
structure ShfLogMmap where
  second : Nat
  write_fail : Nat
  used : Nat
  size : Nat
  running : Bool
  stopped : Nat
  bytes : Nat

/-- Where `shf_log_thread` is, with its variables. It is `awake` before its first section under
the lock, `written` before its second, and `leaving` when it has seen that it has to stop. -/
inductive ShfLogThread where
  | top
  | awake
  | writing (second log_used log_left log_work : Nat)
  | written (second log_used log_left log_work : Nat)
  | leaving
  | closing (log_left log_work : Nat)
  | ended (log_work : Nat)
  deriving DecidableEq

namespace ShfLogThread

def log_work : ShfLogThread → Nat
  | writing _ _ _ w => w
  | written _ _ _ w => w
  | closing _ w => w
  | ended w => w
  | _ => 0

def InLoop : ShfLogThread → Prop
  | leaving => False
  | closing _ _ => False
  | ended _ => False
  | _ => True

/-- What the thread knows about the buffer. -/
def Sound (used : Nat) : ShfLogThread → Prop
  | writing _ log_used log_left log_work => log_work + log_left = log_used ∧ log_used ≤ used
  | written _ log_used log_left log_work => log_work + log_left = log_used ∧ log_used ≤ used
  | closing log_left log_work => log_work + log_left ≤ used
  | ended log_work => log_work ≤ used
  | _ => True

theorem Sound.mono {used used' : Nat} {t : ShfLogThread} (h : t.Sound used)
    (hle : used ≤ used') : t.Sound used' := by
  cases t with
  | writing => exact ⟨h.1, h.2.trans hle⟩
  | written => exact ⟨h.1, h.2.trans hle⟩
  | closing => exact Nat.le_trans h hle
  | ended => exact Nat.le_trans h hle
  | _ => trivial

end ShfLogThread

/-- What `write` returns. -/
inductive WriteResult where
  | wrote (n : Nat)
  | again
  | interrupted
  | failed
  deriving DecidableEq

inductive ShfLogEvent (ι : Type) where
  | call (i : ι) (line : ShfLogLine)
  | attempt (i : ι)
  | thread (second : Nat) (result : WriteResult)
  | del
  deriving DecidableEq

/-- The log with the memory, the thread that writes it, the lines that wait in
`shf_log_append` and all that was written to the file. -/
structure ShfLogSystem (ι : Type) where
  log : ShfLogMmap
  mem : Memory
  thread : ShfLogThread
  waiting : ι → Option ShfLogLine
  fd : List (BitVec 8)

namespace ShfLogSystem

variable {ι : Type}

/-- `sizeof(SHF_LOG_MMAP)`, up to `bytes`: `fd`, the lock, `time_init`, nine words, `tids` and
`tid_id`. -/
def SHF_LOG_MMAP_SIZE : Nat := 4 + 12 + 8 + 9 * 4 + 65536 + 1

/-- How many bytes `shf_log_thread_new` reserves from `bytes` on. The length that it passes to
`shf_put_key_val` has 32 bits. -/
def reserved (log_size : Nat) : Nat :=
  (SHF_LOG_MMAP_SIZE + log_size) % 2 ^ 32 - SHF_LOG_MMAP_SIZE

/-- `shf_log_thread_new`. The memory of a new value is zero. -/
def start (mem : Memory) (bytes log_size : Nat) : ShfLogSystem ι where
  log := ⟨0, 0, 0, if log_size = 0 then SHF_LOG_DEFAULT_SIZE else log_size, true, 0, bytes⟩
  mem := mem
  thread := .top
  waiting := fun _ => none
  fd := []

/-- The test in the loop of `shf_log_append`. -/
def HasRoom (s : ShfLogSystem ι) (line : ShfLogLine) : Prop :=
  ¬sub32 s.log.size s.log.used < line.need % 2 ^ 32

instance (s : ShfLogSystem ι) (line : ShfLogLine) : Decidable (s.HasRoom line) :=
  inferInstanceAs (Decidable (¬_))

section Append

variable [DecidableEq ι]

/-- `shf_log_append` up to its loop. -/
def call (s : ShfLogSystem ι) (i : ι) (line : ShfLogLine) : ShfLogSystem ι :=
  if s.waiting i = none ∧ line.length < s.log.size then
    { s with waiting := Function.update s.waiting i (some line) }
  else s

/-- One pass of the loop of `shf_log_append`. -/
def attempt (s : ShfLogSystem ι) (i : ι) : ShfLogSystem ι :=
  match s.waiting i with
  | none => s
  | some line =>
    if s.HasRoom line then
      { s with
        log := { s.log with used := s.log.used + line.length }
        mem := store s.mem (s.log.bytes + s.log.used) line.log_line
        waiting := Function.update s.waiting i none }
    else s

end Append

/-- One pass of the loop of `SHF_LOG_THREAD_WRITE`, which goes on with `next` and breaks with
`done`. -/
def write (s : ShfLogSystem ι) (result : WriteResult) (second log_left log_work : Nat)
    (next : Nat → Nat → ShfLogThread) (done : ShfLogThread) : ShfLogSystem ι :=
  match result with
  | .wrote n =>
    if min n log_left = 0 then { s with thread := done }
    else
      { s with
        fd := s.fd ++ load s.mem (s.log.bytes + log_work) (min n log_left)
        thread := next (log_left - min n log_left) (log_work + min n log_left) }
  | .again => { s with thread := done }
  | .interrupted => { s with thread := done }
  | .failed => { s with log := { s.log with write_fail := second }, thread := done }

/-- The second section under the lock. -/
def reposition (s : ShfLogSystem ι) (log_used log_left log_work : Nat) : ShfLogSystem ι :=
  if log_used ≠ log_left then
    let used := log_left + sub32 s.log.used log_used
    { s with
      log := { s.log with used := used }
      mem := store s.mem s.log.bytes (load s.mem (s.log.bytes + log_work) used) }
  else s

/-- `shf_log_thread` has ended and has set the output to `stdout`. -/
def finish (s : ShfLogSystem ι) (log_work : Nat) : ShfLogSystem ι :=
  { s with
    log := { s.log with stopped := s.log.stopped + 1 }
    thread := .ended log_work }

/-- `shf_log_thread`, where `second` is the time and `result` what `write` returns if the step
asks for them. -/
def step (s : ShfLogSystem ι) (second : Nat) (result : WriteResult) : ShfLogSystem ι :=
  match s.thread with
  | .top => { s with thread := if s.log.running then .awake else .leaving }
  | .awake =>
    let log_used := s.log.used
    if log_used > 0 ∧ s.log.write_fail ≠ second then
      if s.log.second ≠ second then
        { s with thread := .writing second log_used log_used 0 }
      else if log_used < SHF_LOG_WRITE_THRESHOLD then { s with thread := .top }
      else { s with thread := .writing second log_used log_used 0 }
    else { s with thread := .top }
  | .writing second log_used log_left log_work =>
    if log_left > 0 then
      s.write result second log_left log_work (.writing second log_used)
        (.written second log_used log_left log_work)
    else { s with thread := .written second log_used log_left log_work }
  | .written second log_used log_left log_work =>
    let s := s.reposition log_used log_left log_work
    { s with log := { s.log with second := second }, thread := .top }
  | .leaving =>
    let log_left := s.log.used
    if log_left > 0 then { s with thread := .closing log_left 0 } else s.finish 0
  | .closing log_left log_work =>
    -- here the variable `second` is zero
    if log_left > 0 then s.write result 0 log_left log_work .closing (.closing 0 log_work)
    else s.finish log_work
  | .ended _ => s

/-- `shf_log_thread_del`, which then waits for the thread. -/
def del (s : ShfLogSystem ι) : ShfLogSystem ι :=
  if s.log.running then { s with log := { s.log with running := false } } else s

section Run

variable [DecidableEq ι]

def next (s : ShfLogSystem ι) : ShfLogEvent ι → ShfLogSystem ι
  | .call i line => s.call i line
  | .attempt i => s.attempt i
  | .thread second result => s.step second result
  | .del => s.del

def run (s : ShfLogSystem ι) (es : List (ShfLogEvent ι)) : ShfLogSystem ι := Machine.run next s es

/-- The line with which `i` comes into the loop of `shf_log_append`. -/
def offered (i : ι) (s : ShfLogSystem ι) : ShfLogEvent ι → List ShfLogLine
  | .call j line => if j = i ∧ s.waiting i = none ∧ line.length < s.log.size then [line] else []
  | _ => []

end Run

/-- The line that goes into the buffer. -/
def taken (s : ShfLogSystem ι) : ShfLogEvent ι → List (ι × ShfLogLine)
  | .attempt i =>
    match s.waiting i with
    | none => []
    | some line => if s.HasRoom line then [(i, line)] else []
  | _ => []

/-- What is in the buffer and was not written. -/
def unwritten (s : ShfLogSystem ι) : List (BitVec 8) :=
  load s.mem (s.log.bytes + s.thread.log_work) (s.log.used - s.thread.log_work)

def buffer (s : ShfLogSystem ι) : Buffer := ⟨s.mem, s.log.bytes, s.log.used, s.thread.log_work⟩

structure Sound (s : ShfLogSystem ι) : Prop where
  size_le : s.log.size + 128 ≤ 2 ^ 32
  used_le : s.log.used ≤ s.log.size
  thread : s.thread.Sound s.log.used
  waiting : ∀ i line, s.waiting i = some line → line.length < s.log.size

theorem waiting_write (s : ShfLogSystem ι) (result : WriteResult) (second log_left log_work : Nat)
    (next : Nat → Nat → ShfLogThread) (done : ShfLogThread) :
    (s.write result second log_left log_work next done).waiting = s.waiting ∧
      (s.write result second log_left log_work next done).log.running = s.log.running := by
  unfold write
  split
  · split_ifs <;> exact ⟨rfl, rfl⟩
  all_goals exact ⟨rfl, rfl⟩

theorem waiting_reposition (s : ShfLogSystem ι) (log_used log_left log_work : Nat) :
    (s.reposition log_used log_left log_work).waiting = s.waiting ∧
      (s.reposition log_used log_left log_work).log.running = s.log.running := by
  unfold reposition
  by_cases hne : log_used ≠ log_left
  · simp only [if_pos hne, and_self]
  · simp only [if_neg hne, and_self]

theorem waiting_step (s : ShfLogSystem ι) (now : Nat) (result : WriteResult) :
    (s.step now result).waiting = s.waiting ∧ (s.step now result).log.running = s.log.running := by
  cases hthread : s.thread with
  | top => simp only [step, hthread, and_self]
  | awake =>
    simp only [step, hthread]
    split_ifs
    all_goals exact ⟨rfl, rfl⟩
  | writing second log_used log_left log_work =>
    simp only [step, hthread]
    split_ifs
    · exact waiting_write s result _ _ _ _ _
    · exact ⟨rfl, rfl⟩
  | written second log_used log_left log_work =>
    simp only [step, hthread]
    exact waiting_reposition s log_used log_left log_work
  | leaving =>
    simp only [step, hthread]
    split_ifs
    all_goals exact ⟨rfl, rfl⟩
  | closing log_left log_work =>
    simp only [step, hthread]
    split_ifs
    · exact waiting_write s result _ _ _ _ _
    · exact ⟨rfl, rfl⟩
  | ended log_work => simp only [step, hthread, and_self]

theorem sound_start (mem : Memory) (bytes : Nat) {log_size : Nat} (h : log_size + 128 ≤ 2 ^ 32) :
    Sound (start mem bytes log_size : ShfLogSystem ι) where
  size_le := by
    simp only [start, SHF_LOG_DEFAULT_SIZE]
    split_ifs <;> omega
  used_le := Nat.zero_le _
  thread := trivial
  waiting _ _ hwait := nomatch hwait

variable {s s' : ShfLogSystem ι} {i : ι} {line : ShfLogLine}

theorem Sound.hasRoom_iff (h : Sound s) (hwait : s.waiting i = some line) :
    s.HasRoom line ↔ s.log.used + line.need ≤ s.log.size := by
  have hsize := h.size_le
  have hused := h.used_le
  have hlength := h.waiting i line hwait
  have hneed : line.need < 2 ^ 32 := by
    have hp := line.shf_log_prefix_len.isLt
    unfold ShfLogLine.need
    omega
  unfold HasRoom
  rw [sub32_of_le hused (by omega), Nat.mod_eq_of_lt hneed]
  omega

/-- How a step moves the buffer. -/
structure Carried (s s' : ShfLogSystem ι) (lines : List (ι × ShfLogLine)) (m : Move) : Prop where
  sound : Sound s'
  size : s'.log.size = s.log.size
  fits : m.Fits s.log.size s.buffer
  buffer : s'.buffer = m.apply s.buffer
  fd : s'.fd = s.fd ++ m.leaving s.buffer
  lines : m.arriving = lines.flatMap (·.2.log_line)

/-- A step that leaves the buffer as it is. -/
theorem carried_keep (hsound : Sound s') (hsize : s'.log.size = s.log.size)
    (hbuffer : s'.buffer = s.buffer) (hfd : s'.fd = s.fd) : Carried s s' [] .keep where
  sound := hsound
  size := hsize
  fits := trivial
  buffer := hbuffer
  fd := hfd.trans (List.append_nil _).symm
  lines := rfl

theorem Sound.with_thread (h : Sound s) {t : ShfLogThread} (ht : t.Sound s.log.used) :
    Sound { s with thread := t } := ⟨h.size_le, h.used_le, ht, h.waiting⟩

theorem Sound.goto (h : Sound s) {t : ShfLogThread} (ht : t.Sound s.log.used)
    (hwork : t.log_work = s.thread.log_work) : Carried s { s with thread := t } [] .keep :=
  carried_keep (h.with_thread ht) rfl (by simp only [buffer, hwork]) rfl

theorem Sound.carried_finish (h : Sound s) (hwork : s.thread.log_work ≤ s.log.used) :
    Carried s (s.finish s.thread.log_work) [] .keep :=
  carried_keep ⟨h.size_le, h.used_le, hwork, h.waiting⟩ rfl rfl rfl

theorem Sound.carried_del (h : Sound s) : Carried s s.del [] .keep := by
  unfold del
  split_ifs
  · exact carried_keep ⟨h.size_le, h.used_le, h.thread, h.waiting⟩ rfl rfl rfl
  · exact carried_keep h rfl rfl rfl

theorem Sound.carried_write (h : Sound s) {result : WriteResult} {second log_left : Nat}
    {next : Nat → Nat → ShfLogThread} {done : ShfLogThread}
    (hleft : s.thread.log_work + log_left ≤ s.log.used)
    (hdone : done.Sound s.log.used ∧ done.log_work = s.thread.log_work)
    (hnext : ∀ n ≤ log_left, (next (log_left - n) (s.thread.log_work + n)).Sound s.log.used ∧
      (next (log_left - n) (s.thread.log_work + n)).log_work = s.thread.log_work + n) :
    ∃ m, Carried s (s.write result second log_left s.thread.log_work next done) [] m := by
  have hbreak := h.goto hdone.1 hdone.2
  cases result with
  | wrote n =>
    simp only [write]
    split_ifs with hzero
    · exact ⟨.keep, hbreak⟩
    · obtain ⟨hsound, hwork⟩ := hnext (min n log_left) (Nat.min_le_right _ _)
      have hle := Nat.min_le_right n log_left
      have hmoved : Sound { s with
          fd := s.fd ++ load s.mem (s.log.bytes + s.thread.log_work) (min n log_left)
          thread := next (log_left - min n log_left) (s.thread.log_work + min n log_left) } :=
        ⟨h.size_le, h.used_le, hsound, h.waiting⟩
      refine ⟨.skip (min n log_left), hmoved, rfl, ?_, ?_, rfl, rfl⟩
      · show s.thread.log_work + _ ≤ s.log.used
        omega
      · simp only [buffer, hwork, Move.apply, Buffer.skip]
  | again => exact ⟨.keep, hbreak⟩
  | interrupted => exact ⟨.keep, hbreak⟩
  | failed =>
    refine ⟨.keep, carried_keep ⟨h.size_le, h.used_le, hdone.1, h.waiting⟩ rfl ?_ rfl⟩
    simp only [write, buffer, hdone.2]

/-- The second section under the lock and what follows it. -/
theorem Sound.carried_reposition (h : Sound s) {second log_used log_left log_work : Nat}
    (hthread : s.thread = .written second log_used log_left log_work) (now : Nat)
    (result : WriteResult) : ∃ m, Carried s (s.step now result) [] m := by
  have hused := h.used_le
  have hsize := h.size_le
  obtain ⟨hsum, hle⟩ : log_work + log_left = log_used ∧ log_used ≤ s.log.used := by
    have ht := h.thread
    rwa [hthread] at ht
  have hrest : log_left + sub32 s.log.used log_used = s.log.used - log_work := by
    rw [sub32_of_le hle (by omega)]
    omega
  simp only [step, hthread, reposition]
  split_ifs with hne
  · rw [hrest]
    refine ⟨.compact, ⟨hsize, ?_, trivial, h.waiting⟩, rfl, trivial, ?_, ?_, rfl⟩
    · exact (Nat.sub_le _ _).trans hused
    · simp only [buffer, hthread, Move.apply, Buffer.compact, Buffer.content,
        ShfLogThread.log_work]
    · exact (List.append_nil _).symm
  · -- nothing was written
    have hwork : log_work = 0 := by omega
    refine ⟨.keep, carried_keep ⟨hsize, hused, trivial, h.waiting⟩ rfl ?_ rfl⟩
    simp only [buffer, hthread, ShfLogThread.log_work, hwork]

theorem Sound.carried_step (h : Sound s) (now : Nat) (result : WriteResult) :
    ∃ m, Carried s (s.step now result) [] m := by
  have ht := h.thread
  cases hthread : s.thread with
  | top =>
    simp only [step, hthread]
    refine ⟨.keep, h.goto ?_ ?_⟩
    · split_ifs <;> trivial
    · rw [hthread]
      split_ifs <;> rfl
  | awake =>
    have hstay : Carried s { s with thread := .top } [] .keep :=
      h.goto trivial (by rw [hthread]; rfl)
    have hgo : Carried s { s with thread := .writing now s.log.used s.log.used 0 } [] .keep :=
      h.goto ⟨Nat.zero_add _, le_rfl⟩ (by rw [hthread]; rfl)
    simp only [step, hthread]
    split_ifs
    · exact ⟨.keep, hgo⟩
    · exact ⟨.keep, hstay⟩
    · exact ⟨.keep, hgo⟩
    · exact ⟨.keep, hstay⟩
  | writing second log_used log_left log_work =>
    have hwork : s.thread.log_work = log_work := by rw [hthread]; rfl
    rw [hthread] at ht
    obtain ⟨hsum, hle⟩ := ht
    simp only [step, hthread]
    split_ifs
    · subst hwork
      refine h.carried_write (by omega) ⟨⟨hsum, hle⟩, rfl⟩ fun n hn => ⟨⟨?_, hle⟩, rfl⟩
      omega
    · exact ⟨.keep, h.goto ⟨hsum, hle⟩ hwork.symm⟩
  | written second log_used log_left log_work => exact h.carried_reposition hthread now result
  | leaving =>
    have hwork : s.thread.log_work = 0 := by rw [hthread]; rfl
    simp only [step, hthread]
    split_ifs
    · refine ⟨.keep, h.goto ?_ hwork.symm⟩
      exact (Nat.zero_add _).le
    · rw [← hwork]
      exact ⟨.keep, h.carried_finish (by omega)⟩
  | closing log_left log_work =>
    have hwork : s.thread.log_work = log_work := by rw [hthread]; rfl
    rw [hthread] at ht
    have hsum : log_work + log_left ≤ s.log.used := ht
    simp only [step, hthread]
    split_ifs
    · subst hwork
      refine h.carried_write hsum ⟨?_, rfl⟩ fun n hn => ⟨?_, rfl⟩
      · show s.thread.log_work + 0 ≤ s.log.used
        omega
      · show s.thread.log_work + n + (log_left - n) ≤ s.log.used
        omega
    · rw [← hwork]
      exact ⟨.keep, h.carried_finish (by omega)⟩
  | ended log_work =>
    simp only [step, hthread]
    exact ⟨.keep, carried_keep h rfl rfl rfl⟩

section Run

variable [DecidableEq ι]

theorem Sound.carried_call (h : Sound s) (i : ι) (line : ShfLogLine) :
    Carried s (s.call i line) [] .keep := by
  unfold call
  split_ifs with hcall
  · refine carried_keep ⟨h.size_le, h.used_le, h.thread, fun j line' hwait => ?_⟩ rfl rfl rfl
    dsimp only at hwait
    by_cases hj : j = i
    · subst hj
      rw [Function.update_self] at hwait
      cases hwait
      exact hcall.2
    · rw [Function.update_of_ne hj] at hwait
      exact h.waiting j line' hwait
  · exact carried_keep h rfl rfl rfl

theorem Sound.carried_attempt (h : Sound s) (i : ι) :
    ∃ m, Carried s (s.attempt i) (s.taken (.attempt i)) m := by
  cases hwait : s.waiting i with
  | none =>
    simp only [attempt, taken, hwait]
    exact ⟨.keep, carried_keep h rfl rfl rfl⟩
  | some line =>
    by_cases hroom : s.HasRoom line
    · have hfits := (h.hasRoom_iff hwait).mp hroom
      unfold ShfLogLine.need at hfits
      have hused : s.log.used + line.length ≤ s.log.size := by omega
      simp only [attempt, taken, hwait, hroom, if_true]
      refine ⟨.push line.log_line, ⟨h.size_le, hused, ?_, fun j line' hj => ?_⟩, rfl, hused, rfl,
        ?_, ?_⟩
      · exact h.thread.mono (Nat.le_add_right _ _)
      · dsimp only at hj
        by_cases hji : j = i
        · subst hji
          rw [Function.update_self] at hj
          cases hj
        · rw [Function.update_of_ne hji] at hj
          exact h.waiting j line' hj
      · exact (List.append_nil _).symm
      · exact (List.append_nil _).symm
    · simp only [attempt, taken, hwait, hroom, if_false]
      exact ⟨.keep, carried_keep h rfl rfl rfl⟩

theorem Sound.carried_next (h : Sound s) (e : ShfLogEvent ι) :
    ∃ m, Carried s (s.next e) (s.taken e) m := by
  cases e with
  | call i line => exact ⟨.keep, h.carried_call i line⟩
  | attempt i => exact h.carried_attempt i
  | thread second result => exact h.carried_step second result
  | del => exact ⟨.keep, h.carried_del⟩

theorem Sound.run (h : Sound s) (es : List (ShfLogEvent ι)) :
    Sound (s.run es) ∧ (s.run es).log.size = s.log.size := by
  refine Machine.run_invariant (P := fun t => Sound t ∧ t.log.size = s.log.size) ?_ ⟨h, rfl⟩ es
  rintro t e ⟨ht, hsize⟩
  obtain ⟨m, hm⟩ := ht.carried_next e
  exact ⟨hm.sound, hm.size.trans hsize⟩

/-- The lines that went into the buffer in a run, in their order. -/
def accepted (s : ShfLogSystem ι) (es : List (ShfLogEvent ι)) : List (ι × ShfLogLine) :=
  Machine.trail next taken s es

/-- The lines with which `i` came into the loop of `shf_log_append`. -/
def calls (i : ι) (s : ShfLogSystem ι) (es : List (ShfLogEvent ι)) : List ShfLogLine :=
  Machine.trail next (offered i) s es

theorem run_concat (s : ShfLogSystem ι) (es : List (ShfLogEvent ι)) (e : ShfLogEvent ι) :
    s.run (es ++ [e]) = (s.run es).next e := Machine.run_concat next s es e

theorem accepted_concat (s : ShfLogSystem ι) (es : List (ShfLogEvent ι)) (e : ShfLogEvent ι) :
    s.accepted (es ++ [e]) = s.accepted es ++ (s.run es).taken e :=
  Machine.trail_concat next taken s es e

theorem Sound.holds_run (h : Sound s) (hwork : s.thread.log_work = 0) (hused : s.log.used = 0)
    (hfd : s.fd = []) (es : List (ShfLogEvent ι)) :
    Holds s.log.size (s.run es).buffer ((s.accepted es).flatMap (·.2.log_line)) (s.run es).fd ∧
      (s.run es).log.bytes = s.log.bytes ∧
      ∀ x, (x < s.log.bytes ∨ s.log.bytes + s.log.size ≤ x) → (s.run es).mem x = s.mem x := by
  induction es using List.reverseRecOn with
  | nil =>
    refine ⟨⟨?_, h.used_le, ?_⟩, rfl, fun _ _ => rfl⟩
    · exact hwork.le.trans (Nat.zero_le _)
    · show s.fd ++ load s.mem _ (s.log.used - s.thread.log_work) = []
      rw [hfd, hwork, hused]
      rfl
  | append_singleton es e ih =>
    obtain ⟨hholds, hbytes, hmem⟩ := ih
    obtain ⟨hsound, hsize⟩ := h.run es
    obtain ⟨m, hm⟩ := hsound.carried_next e
    have hfits := hm.fits
    rw [hsize] at hfits
    rw [run_concat, accepted_concat, List.flatMap_append, ← hm.lines, hm.buffer, hm.fd]
    refine ⟨hholds.apply hfits, ?_, fun x hx => ?_⟩
    · have hbase := congrArg Buffer.base hm.buffer
      rw [base_apply] at hbase
      exact hbase.trans hbytes
    · have hnext := congrArg Buffer.mem hm.buffer
      have hkeep := hholds.apply_outside hfits (x := x) (by rw [← hbytes] at hx; exact hx)
      exact ((congrFun hnext x).trans hkeep).trans (hmem x hx)

/-- A line of `i` is offered, waits and is taken, and the next one is offered after that. -/
theorem inputsAt_taken (s : ShfLogSystem ι) (i : ι) (e : ShfLogEvent ι) :
    Machine.inputsAt i (s.taken e) ++ ((s.next e).waiting i).toList =
      (s.waiting i).toList ++ s.offered i e := by
  cases e with
  | call j line =>
    simp only [taken, next, call, offered, Machine.inputsAt, List.filterMap_nil, List.nil_append]
    by_cases hj : j = i
    · subst hj
      by_cases hcall : s.waiting j = none ∧ line.length < s.log.size
      · simp [hcall]
      · simp [hcall]
    · simp only [hj, false_and, if_false, List.append_nil]
      split_ifs <;> simp [Function.update_of_ne (Ne.symm hj)]
  | attempt j =>
    cases hwait : s.waiting j with
    | none => simp [taken, next, attempt, offered, hwait, Machine.inputsAt]
    | some line =>
      by_cases hroom : s.HasRoom line
      · by_cases hj : j = i
        · subst hj
          simp [taken, next, attempt, offered, hwait, hroom, Machine.inputsAt]
        · simp [taken, next, attempt, offered, hwait, hroom, hj, Machine.inputsAt,
            Function.update_of_ne (Ne.symm hj)]
      · simp [taken, next, attempt, offered, hwait, hroom, Machine.inputsAt]
  | thread second result =>
    simp [taken, next, offered, Machine.inputsAt, waiting_step]
  | del =>
    simp only [taken, next, del, offered, Machine.inputsAt, List.filterMap_nil, List.nil_append,
      List.append_nil]
    split_ifs <;> rfl

theorem inputsAt_accepted (s : ShfLogSystem ι) (es : List (ShfLogEvent ι)) (i : ι) :
    Machine.inputsAt i (s.accepted es) ++ ((s.run es).waiting i).toList =
      (s.waiting i).toList ++ s.calls i es := by
  induction es using List.reverseRecOn with
  | nil => exact (List.append_nil _).symm
  | append_singleton es e ih =>
    have hcalls : s.calls i (es ++ [e]) = s.calls i es ++ (s.run es).offered i e :=
      Machine.trail_concat next (offered i) s es e
    have hsplit : Machine.inputsAt i (s.accepted es ++ (s.run es).taken e) =
        Machine.inputsAt i (s.accepted es) ++ Machine.inputsAt i ((s.run es).taken e) :=
      List.filterMap_append
    rw [run_concat, accepted_concat, hcalls, hsplit, List.append_assoc, inputsAt_taken,
      ← List.append_assoc, ih, List.append_assoc]

/-- What was written and what is left to write are, one after the other, the bytes of the lines
that were taken. Of each thread they are the lines that it has logged, in its order, but for the
one that it waits with. -/
theorem written_in_order (mem : Memory) (bytes log_size : Nat) (hsize : log_size + 128 ≤ 2 ^ 32)
    (es : List (ShfLogEvent ι)) :
    ((start mem bytes log_size).run es).fd ++ ((start mem bytes log_size).run es).unwritten =
        ((start mem bytes log_size).accepted es).flatMap (fun entry => entry.2.log_line) ∧
      ∀ i, Machine.inputsAt i ((start mem bytes log_size).accepted es) ++
          (((start mem bytes log_size).run es).waiting i).toList =
        (start mem bytes log_size).calls i es := by
  have hsound : Sound (start mem bytes log_size : ShfLogSystem ι) := sound_start mem bytes hsize
  obtain ⟨hholds, -, -⟩ := hsound.holds_run rfl rfl rfl es
  refine ⟨hholds.stream, fun i => ?_⟩
  exact inputsAt_accepted (start mem bytes log_size) es i

/-- Two threads log a byte each, and one of them comes while the other byte is written. -/
def twoLogs : List (ShfLogEvent Bool) :=
  [.call true ⟨[65], 20⟩, .attempt true, .thread 1 .again, .thread 1 .again,
    .call false ⟨[66], 20⟩, .attempt false, .thread 1 (.wrote 1), .thread 1 .again,
    .thread 1 .again]

theorem written_in_order_two :
    ((start (fun _ => 0) 0 100).run twoLogs).fd = [65] ∧
      ((start (fun _ => 0) 0 100).run twoLogs).fd ++
          ((start (fun _ => 0) 0 100).run twoLogs).unwritten =
        ((start (fun _ => 0) 0 100).accepted twoLogs).flatMap (fun entry => entry.2.log_line) :=
  ⟨by decide +kernel, (written_in_order (fun _ => 0) 0 100 (by decide) twoLogs).1⟩

theorem call_of_none (hwait : s.waiting i = none) (hline : line.length < s.log.size) :
    s.call i line = { s with waiting := Function.update s.waiting i (some line) } :=
  if_pos ⟨hwait, hline⟩

theorem mem_attempt (hwait : s.waiting i = some line) (hroom : s.HasRoom line) :
    (s.attempt i).mem = store s.mem (s.log.bytes + s.log.used) line.log_line := by
  unfold attempt
  rw [hwait]
  simp only [if_pos hroom]

/-- The first line of a run. -/
theorem mem_first_line (hsize : s.log.size < 2 ^ 32) (hwait : s.waiting i = none)
    (hused : s.log.used = 0) (hline : line.length < s.log.size) (hneed : line.need ≤ s.log.size) :
    (s.run [.call i line, .attempt i]).mem = store s.mem s.log.bytes line.log_line := by
  have hcall := call_of_none hwait hline
  have hwait' : (s.call i line).waiting i = some line := by
    rw [hcall]
    exact Function.update_self i _ _
  have hroom : (s.call i line).HasRoom line := by
    rw [HasRoom, hcall, hused, sub32_of_le (Nat.zero_le _) hsize, Nat.mod_eq_of_lt (by omega)]
    omega
  have hmem := mem_attempt hwait' hroom
  rw [hcall] at hmem
  simp only [hused, Nat.add_zero] at hmem
  rw [← hcall] at hmem
  exact hmem

theorem reserved_of_lt {log_size : Nat} (h : SHF_LOG_MMAP_SIZE + log_size < 2 ^ 32) :
    reserved log_size = log_size := by
  rw [reserved, Nat.mod_eq_of_lt h, Nat.add_sub_cancel_left]

/-- A length that does not have 32 bits leaves less than the header. -/
theorem reserved_of_le {log_size : Nat} (h : 2 ^ 32 ≤ SHF_LOG_MMAP_SIZE + log_size)
    (hlt : log_size < 2 ^ 32) : reserved log_size = 0 := by
  unfold reserved
  unfold SHF_LOG_MMAP_SIZE at h ⊢
  omega

/-- When nothing is reserved, the first line goes over what is there. -/
theorem first_line_outside (mem : Memory) (bytes : Nat) {log_size : Nat} (hlt : log_size < 2 ^ 32)
    (hreserved : reserved log_size = 0) (i : ι) :
    ∃ (es : List (ShfLogEvent ι)) (x : Nat), (x < bytes ∨ bytes + reserved log_size ≤ x) ∧
      ((start mem bytes log_size).run es).mem x ≠ mem x := by
  have hsize : (start mem bytes log_size : ShfLogSystem ι).log.size < 2 ^ 32 ∧
      1 < (start mem bytes log_size : ShfLogSystem ι).log.size := by
    unfold reserved SHF_LOG_MMAP_SIZE at hreserved
    simp only [start, SHF_LOG_DEFAULT_SIZE]
    split_ifs <;> omega
  have hneed : ShfLogLine.need ⟨[mem bytes + 1], 0⟩ ≤
      (start mem bytes log_size : ShfLogSystem ι).log.size := by
    change 0 + 1 ≤ _
    omega
  have hmem : ((start mem bytes log_size).run [.call i ⟨[mem bytes + 1], 0⟩, .attempt i]).mem =
      store mem bytes [mem bytes + 1] := mem_first_line hsize.1 rfl rfl hsize.2 hneed
  refine ⟨[.call i ⟨[mem bytes + 1], 0⟩, .attempt i], bytes, .inr ?_, ?_⟩
  · rw [hreserved]
    exact le_rfl
  · have hnew : store mem bytes [mem bytes + 1] (bytes + 0) = mem bytes + 1 :=
      store_inside (by simp)
    intro hkept
    rw [hmem] at hkept
    have hsame : mem bytes + 1 = mem bytes := hnew.symm.trans hkept
    exact absurd hsame (by bv_omega)

end Run

end ShfLogSystem

end AnalysePcap
