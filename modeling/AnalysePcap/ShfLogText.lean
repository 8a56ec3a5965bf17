import AnalysePcap.ShfLogProgress

/-! How `shf_log` puts a line together for the log of the shared hash file: a prefix, the message,
the text of an error and the end of the line, in a buffer of a fixed size. A piece that does not
fit is left out with all that follows. -/

namespace AnalysePcap

open ByteMemory

def SHF_LOG_BUFFER_SIZE : Nat := 4096

/-- `snprintf (&m[i], n, ...)`, where the text is `none` if it fails. What is then written from
`i` on is not specified, and nothing reads it. -/
def snprintf (m : Memory) (i n : Nat) : Option (List (BitVec 8)) → Memory
  | none => m
  | some text => if n = 0 then m else store m i (text.take (n - 1) ++ [0])

/-- Two dots, a new line and a zero. -/
def cutMark : List (BitVec 8) := [0x2e, 0x2e, 0x0a, 0]

def shf_log_safe_append (log_buffer : Memory) (log_buffer_size index : Nat)
    (appended : Option Nat) : Bool × Memory × Nat :=
  match appended with
  | none => (false, store log_buffer (log_buffer_size - 4) cutMark, index)
  | some n =>
    if n ≥ log_buffer_size - index then
      (false, store log_buffer (log_buffer_size - 4) cutMark, index)
    else (true, log_buffer, index + n)

/-- The conditions of `shf_log`, joined by `&&`. -/
def appendPieces (log_buffer : Memory) (i : Nat) : List (Option (List (BitVec 8))) → Memory × Nat
  | [] => (log_buffer, i)
  | piece :: pieces =>
    match shf_log_safe_append (snprintf log_buffer i (SHF_LOG_BUFFER_SIZE - i) piece)
        SHF_LOG_BUFFER_SIZE i (piece.map List.length) with
    | (true, log_buffer, i) => appendPieces log_buffer i pieces
    | (false, log_buffer, i) => (log_buffer, i)

/-- The line that `shf_log` hands on. `log_buffer` is what the stack holds, and `message` the
user's format with its arguments. -/
def shf_log (log_buffer : Memory) (prefixText : List (BitVec 8))
    (message str_error eol : Option (List (BitVec 8))) : List (BitVec 8) :=
  let line := appendPieces log_buffer 0
    [some prefixText, message, some (str_error.getD []), some (eol.getD [])]
  load line.1 0 line.2

/-- `shf_log_output_shf_log`, up to its call of `shf_log_append`. -/
def shf_log_output_shf_log : List (BitVec 8) → List (BitVec 8)
  | [] => []
  | c :: line => (if c = 0x3f then 0x23 else c) :: line

/-- The pieces before the first that does not fit behind `i` bytes. -/
def fitting (i : Nat) : List (Option (List (BitVec 8))) → List (BitVec 8)
  | [] => []
  | none :: _ => []
  | some text :: pieces =>
    if text.length < SHF_LOG_BUFFER_SIZE - i then text ++ fitting (i + text.length) pieces else []

/-- All the pieces fit. -/
def AllFit (i : Nat) : List (Option (List (BitVec 8))) → Prop
  | [] => True
  | none :: _ => False
  | some text :: pieces =>
    text.length < SHF_LOG_BUFFER_SIZE - i ∧ AllFit (i + text.length) pieces

instance AllFit.instDecidable : ∀ (i : Nat) (pieces : List (Option (List (BitVec 8)))),
    Decidable (AllFit i pieces)
  | _, [] => inferInstanceAs (Decidable True)
  | _, none :: _ => inferInstanceAs (Decidable False)
  | i, some text :: pieces =>
    @instDecidableAnd _ _ _ (AllFit.instDecidable (i + text.length) pieces)

variable {m : Memory} {i : Nat} {text done : List (BitVec 8)}
  {pieces : List (Option (List (BitVec 8)))}

theorem load_snprintf (hdone : load m 0 i = done)
    (hfit : text.length < SHF_LOG_BUFFER_SIZE - i) :
    load (snprintf m i (SHF_LOG_BUFFER_SIZE - i) (some text)) 0 (i + text.length) =
      done ++ text := by
  have hpos : SHF_LOG_BUFFER_SIZE - i ≠ 0 := by omega
  have hwhole : text.take (SHF_LOG_BUFFER_SIZE - i - 1) = text :=
    List.take_of_length_le (by omega)
  have hbefore : Agree m (store m i (text ++ [0])) 0 i := agree_store (by omega)
  have htext : load (store m i (text ++ [0])) i text.length = text := by
    rw [load_store_start m i (by simp), List.take_left' rfl]
  simp only [snprintf, if_neg hpos, hwhole]
  rw [load_add, hbefore.load, hdone, Nat.zero_add, htext]

theorem load_snprintf_before (piece : Option (List (BitVec 8))) (n : Nat) :
    load (snprintf m i n piece) 0 i = load m 0 i := by
  cases piece with
  | none => rfl
  | some text =>
    unfold snprintf
    split_ifs
    · rfl
    · have hkeep : Agree m (store m i (text.take (n - 1) ++ [0])) 0 i := agree_store (by omega)
      exact hkeep.load

/-- A line that was cut. -/
def cutLine (line : List (BitVec 8)) : List (BitVec 8) :=
  line.take (SHF_LOG_BUFFER_SIZE - 4) ++ cutMark.take (line.length - (SHF_LOG_BUFFER_SIZE - 4))

theorem load_cutMark (hi : i < SHF_LOG_BUFFER_SIZE) (hdone : load m 0 i = done) :
    load (store m (SHF_LOG_BUFFER_SIZE - 4) cutMark) 0 i = cutLine done := by
  have hlength : done.length = i := by rw [← hdone, length_load]
  have hmark : cutMark.length = 4 := rfl
  have hsize : SHF_LOG_BUFFER_SIZE = 4096 := rfl
  rw [load_store_zero m (by omega), hdone, cutLine, hlength]

/-- What `appendPieces` leaves in the buffer. -/
theorem load_appendPieces (hi : i < SHF_LOG_BUFFER_SIZE) (hdone : load m 0 i = done) :
    (appendPieces m i pieces).2 < SHF_LOG_BUFFER_SIZE ∧
      load (appendPieces m i pieces).1 0 (appendPieces m i pieces).2 =
        if AllFit i pieces then done ++ fitting i pieces
        else cutLine (done ++ fitting i pieces) := by
  induction pieces generalizing m i done with
  | nil => exact ⟨hi, by simp [appendPieces, AllFit, fitting, hdone]⟩
  | cons piece pieces ih =>
    have hbefore := (load_snprintf_before (m := m) piece (SHF_LOG_BUFFER_SIZE - i)).trans hdone
    cases piece with
    | none =>
      simp only [appendPieces, shf_log_safe_append, Option.map_none, AllFit, if_false, fitting,
        List.append_nil]
      exact ⟨hi, load_cutMark hi hbefore⟩
    | some text =>
      by_cases hfit : text.length < SHF_LOG_BUFFER_SIZE - i
      · have hnext := ih (by omega) (load_snprintf hdone hfit)
        simp only [appendPieces, shf_log_safe_append, Option.map_some, ge_iff_le,
          if_neg (Nat.not_le.mpr hfit), AllFit, fitting, hfit, true_and, if_true]
        rw [← List.append_assoc]
        exact hnext
      · simp only [appendPieces, shf_log_safe_append, Option.map_some, ge_iff_le,
          if_pos (Nat.not_lt.mp hfit), AllFit, hfit, false_and, if_false, fitting, List.append_nil]
        exact ⟨hi, load_cutMark hi hbefore⟩

section Texts

variable {texts : List (List (BitVec 8))}

theorem allFit_iff (hi : i < SHF_LOG_BUFFER_SIZE) :
    AllFit i (texts.map some) ↔ i + texts.flatten.length < SHF_LOG_BUFFER_SIZE := by
  induction texts generalizing i with
  | nil => simpa [AllFit] using hi
  | cons text texts ih =>
    simp only [List.map_cons, AllFit, List.flatten_cons, List.length_append]
    constructor
    · rintro ⟨hfit, hrest⟩
      have hlt := (ih (by omega)).mp hrest
      omega
    · intro hlt
      exact ⟨by omega, (ih (by omega)).mpr (by omega)⟩

theorem fitting_of_allFit (h : AllFit i (texts.map some)) :
    fitting i (texts.map some) = texts.flatten := by
  induction texts generalizing i with
  | nil => rfl
  | cons text texts ih =>
    obtain ⟨hfit, hrest⟩ := h
    simp only [List.map_cons, fitting, if_pos hfit, ih hrest, List.flatten_cons]

end Texts

theorem shf_log_eq (log_buffer : Memory) (prefixText : List (BitVec 8))
    (message str_error eol : Option (List (BitVec 8))) :
    shf_log log_buffer prefixText message str_error eol =
      if AllFit 0 [some prefixText, message, some (str_error.getD []), some (eol.getD [])] then
        fitting 0 [some prefixText, message, some (str_error.getD []), some (eol.getD [])]
      else
        cutLine (fitting 0 [some prefixText, message, some (str_error.getD []),
          some (eol.getD [])]) :=
  (load_appendPieces (by decide) rfl).2

theorem length_shf_log (log_buffer : Memory) (prefixText : List (BitVec 8))
    (message str_error eol : Option (List (BitVec 8))) :
    (shf_log log_buffer prefixText message str_error eol).length < SHF_LOG_BUFFER_SIZE := by
  unfold shf_log
  rw [length_load]
  exact (load_appendPieces (by decide) rfl).1

/-- The line is complete exactly if it is shorter than the buffer. -/
theorem shf_log_complete_iff (log_buffer : Memory) (prefixText message : List (BitVec 8))
    (str_error eol : Option (List (BitVec 8))) :
    shf_log log_buffer prefixText (some message) str_error eol =
        prefixText ++ message ++ str_error.getD [] ++ eol.getD [] ↔
      (prefixText ++ message ++ str_error.getD [] ++ eol.getD []).length <
        SHF_LOG_BUFFER_SIZE := by
  have hwhole : [prefixText, message, str_error.getD [], eol.getD []].flatten =
      prefixText ++ message ++ str_error.getD [] ++ eol.getD [] := by
    simp
  constructor
  · intro heq
    rw [← heq]
    exact length_shf_log _ _ _ _ _
  · intro hlt
    rw [← hwhole] at hlt ⊢
    have hfit : AllFit 0 ([prefixText, message, str_error.getD [], eol.getD []].map some) :=
      (allFit_iff (by decide)).mpr (by omega)
    exact (shf_log_eq _ _ _ _ _).trans ((if_pos hfit).trans (fitting_of_allFit hfit))

/-- A message that is too long is not shortened but left out, and the end of the line with it. -/
theorem shf_log_drops_message (log_buffer : Memory) (prefixText message : List (BitVec 8))
    (str_error eol : Option (List (BitVec 8)))
    (hlead : prefixText.length + 4 ≤ SHF_LOG_BUFFER_SIZE)
    (hlong : SHF_LOG_BUFFER_SIZE ≤ prefixText.length + message.length) :
    shf_log log_buffer prefixText (some message) str_error eol = prefixText := by
  have hfirst : prefixText.length < SHF_LOG_BUFFER_SIZE - 0 := by omega
  have hsecond : ¬message.length < SHF_LOG_BUFFER_SIZE - (0 + prefixText.length) := by omega
  rw [shf_log_eq]
  simp only [AllFit, fitting, if_pos hfirst, hsecond, false_and, and_false, if_false,
    List.append_nil]
  unfold cutLine
  rw [List.take_of_length_le (by omega), Nat.sub_eq_zero_of_le (by omega), List.take_zero,
    List.append_nil]

theorem shf_log_drops_message_page :
    shf_log (fun _ => 0) [0x23] (some (List.replicate 4096 0x41)) none (some [0x0a]) = [0x23] :=
  shf_log_drops_message (fun _ => 0) [0x23] (List.replicate 4096 0x41) none (some [0x0a])
    (by decide) (by rw [List.length_replicate]; decide)

theorem length_shf_log_output_shf_log (line : List (BitVec 8)) :
    (shf_log_output_shf_log line).length = line.length := by
  cases line <;> rfl

namespace ShfLogSystem

variable {ι : Type} [DecidableEq ι]

/-- A log of the default size, or of 4222 bytes or more, has room for every line of `shf_log`. -/
theorem shf_log_appended (mem : Memory) (bytes log_size : Nat) (hsize : log_size + 128 ≤ 2 ^ 32)
    (hbig : log_size = 0 ∨ 4222 ≤ log_size) (es : List (ShfLogEvent ι)) (i : ι)
    (shf_log_prefix_len : Fin 128) (log_buffer : Memory) (prefixText : List (BitVec 8))
    (message str_error eol : Option (List (BitVec 8)))
    (hwait : ((start mem bytes log_size).run es).waiting i =
      some ⟨shf_log_output_shf_log (shf_log log_buffer prefixText message str_error eol),
        shf_log_prefix_len⟩)
    (hrun : ((start mem bytes log_size).run es).log.running = true)
    (hloop : ((start mem bytes log_size).run es).thread.InLoop) :
    ∃ es', ((start mem bytes log_size).run (es ++ es')).waiting i = none := by
  obtain ⟨hsound, hsame⟩ :=
    (sound_start mem bytes hsize : Sound (start mem bytes log_size : ShfLogSystem ι)).run es
  have hlarge : 4222 ≤ (start mem bytes log_size : ShfLogSystem ι).log.size := by
    simp only [start, SHF_LOG_DEFAULT_SIZE]
    split_ifs <;> omega
  have hlength := length_shf_log log_buffer prefixText message str_error eol
  have hneed : ShfLogLine.need
      ⟨shf_log_output_shf_log (shf_log log_buffer prefixText message str_error eol),
        shf_log_prefix_len⟩ ≤ 4222 := by
    have hp := shf_log_prefix_len.isLt
    unfold SHF_LOG_BUFFER_SIZE at hlength
    simp only [ShfLogLine.need, ShfLogLine.length, length_shf_log_output_shf_log]
    omega
  obtain ⟨es', hes'⟩ := hsound.appends hwait hrun hloop (by omega)
  refine ⟨es', ?_⟩
  rw [← hes']
  exact congrFun (congrArg waiting (Machine.run_append next _ es es')) i

theorem shf_log_appended_default :
    ∃ es', ((start (fun _ => 0) 0 0).run ([.call () ⟨shf_log_output_shf_log
      (shf_log (fun _ => 0) [0x3f] (some [0x41]) none (some [0x0a])), 1⟩] ++ es')).waiting () =
        none :=
  shf_log_appended (fun _ => 0) 0 0 (by decide) (Or.inl rfl) _ () 1 (fun _ => 0) [0x3f]
    (some [0x41]) none (some [0x0a]) rfl rfl trivial

end ShfLogSystem

end AnalysePcap
