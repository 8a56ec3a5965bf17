import AnalysePcap.ShfLog

/-! Which lines get into the log of the shared hash file. A line waits until the thread of the log
has made room for it, and it waits for ever if the log is too small for it together with the
prefix, although only the line itself is stored. In the first second nothing is written. -/

namespace AnalysePcap

open ByteMemory DrainBuffer

namespace ShfLogSystem

variable {ι : Type} {s t u : ShfLogSystem ι} {i : ι} {line : ShfLogLine}

theorem waiting_del (s : ShfLogSystem ι) : s.del.waiting = s.waiting := by
  unfold del
  split_ifs <;> rfl

/-- All that was written is taken out of the log. -/
theorem Sound.used_of_written (h : Sound s) {second log_work : Nat}
    (hthread : s.thread = .written second s.log.used 0 log_work) (hzero : s.log.used ≠ 0) :
    (s.step 0 .again).log.used = 0 := by
  have hused := h.used_le
  have hsize := h.size_le
  simp only [step, hthread, reposition, if_pos hzero]
  rw [sub32_of_le le_rfl (by omega)]
  omega

section Waiting

variable [DecidableEq ι]

theorem waiting_attempt_of_ne {j : ι} (hj : j ≠ i) : (s.attempt j).waiting i = s.waiting i := by
  unfold attempt
  cases s.waiting j with
  | none => rfl
  | some line =>
    by_cases hroom : s.HasRoom line
    · simp only [if_pos hroom, Function.update_of_ne (Ne.symm hj)]
    · simp only [if_neg hroom]

theorem waiting_attempt (hwait : s.waiting i = some line) :
    (s.attempt i).waiting i = if s.HasRoom line then none else some line := by
  unfold attempt
  rw [hwait]
  by_cases hroom : s.HasRoom line
  · simp only [if_pos hroom, Function.update_self]
  · simp only [if_neg hroom, hwait]

theorem waiting_call (hwait : s.waiting i = some line) (j : ι) (other : ShfLogLine) :
    (s.call j other).waiting i = some line := by
  unfold call
  split_ifs with hcall
  · have hj : i ≠ j := by
      rintro rfl
      rw [hwait] at hcall
      cases hcall.1
    exact (Function.update_of_ne hj _ _).trans hwait
  · exact hwait

/-- A line that does not fit into the empty log waits for ever. -/
theorem Sound.waiting_run (h : Sound s) (hwait : s.waiting i = some line)
    (hneed : s.log.size < line.need) (es : List (ShfLogEvent ι)) :
    (s.run es).waiting i = some line := by
  induction es generalizing s with
  | nil => exact hwait
  | cons e es ih =>
    obtain ⟨m, hm⟩ := h.carried_next e
    refine ih hm.sound ?_ (hm.size.trans_lt hneed)
    cases e with
    | call j other => exact waiting_call hwait j other
    | attempt j =>
      by_cases hj : j = i
      · subst hj
        have hfull : ¬s.HasRoom line := by
          rw [h.hasRoom_iff hwait]
          omega
        exact (waiting_attempt hwait).trans (if_neg hfull)
      · exact (waiting_attempt_of_ne hj).trans hwait
    | thread second result => exact (congrFun (waiting_step s second result).1 i).trans hwait
    | del => exact (congrFun (waiting_del s) i).trans hwait

/-- The thread of the log can come from `s` to `t`. -/
def Drains (s t : ShfLogSystem ι) : Prop :=
  (∃ es, s.run es = t) ∧ t.waiting = s.waiting ∧ t.log.running = s.log.running

theorem Drains.refl (s : ShfLogSystem ι) : Drains s s := ⟨⟨[], rfl⟩, rfl, rfl⟩

theorem Drains.trans (h : Drains s t) (h' : Drains t u) : Drains s u := by
  obtain ⟨⟨es, rfl⟩, hwait, hrun⟩ := h
  obtain ⟨⟨es', rfl⟩, hwait', hrun'⟩ := h'
  exact ⟨⟨es ++ es', Machine.run_append next s es es'⟩, hwait'.trans hwait, hrun'.trans hrun⟩

theorem drains_step (s : ShfLogSystem ι) (now : Nat) (result : WriteResult) :
    Drains s (s.step now result) :=
  ⟨⟨[.thread now result], rfl⟩, waiting_step s now result⟩

theorem drains_written {second log_used log_left log_work : Nat}
    (h : s.thread = .written second log_used log_left log_work) :
    ∃ t, Drains s t ∧ t.thread = .top := by
  refine ⟨s.step 0 .again, drains_step s 0 .again, ?_⟩
  simp only [step, h]

/-- If `write` is interrupted, the thread comes to the top of its loop. -/
theorem drains_top (h : s.thread.InLoop) : ∃ t, Drains s t ∧ t.thread = .top := by
  cases hthread : s.thread with
  | top => exact ⟨s, Drains.refl s, hthread⟩
  | awake =>
    refine ⟨s.step s.log.write_fail .again, drains_step s _ _, ?_⟩
    simp [step, hthread]
  | writing second log_used log_left log_work =>
    have hbreak : (s.step 0 .interrupted).thread = .written second log_used log_left log_work := by
      simp only [step, hthread, write]
      split_ifs <;> rfl
    obtain ⟨t, ht, htop⟩ := drains_written hbreak
    exact ⟨t, (drains_step s 0 .interrupted).trans ht, htop⟩
  | written second log_used log_left log_work => exact drains_written hthread
  | leaving =>
    rw [hthread] at h
    exact h.elim
  | closing log_left log_work =>
    rw [hthread] at h
    exact h.elim
  | ended log_work =>
    rw [hthread] at h
    exact h.elim

/-- From the top of its loop the thread can empty the log. -/
theorem Sound.drains_empty (h : Sound s) (htop : s.thread = .top) (hrun : s.log.running = true) :
    ∃ t, Drains s t ∧ t.log.used = 0 := by
  by_cases hzero : s.log.used = 0
  · exact ⟨s, Drains.refl s, hzero⟩
  have hpos := Nat.pos_of_ne_zero hzero
  -- a second in which the thread has neither written nor failed to write
  obtain ⟨now, hfail, hsecond⟩ : ∃ now, s.log.write_fail ≠ now ∧ s.log.second ≠ now :=
    ⟨s.log.write_fail + s.log.second + 1, by omega, by omega⟩
  have hawake : Drains s { s with thread := .awake } := by
    have hstep := drains_step s now .again
    simp only [step, htop, hrun, if_true] at hstep
    exact hstep
  have hwriting : Drains { s with thread := .awake }
      { s with thread := .writing now s.log.used s.log.used 0 } := by
    have hstep := drains_step { s with thread := .awake } now .again
    simp only [step, if_pos (And.intro hpos hfail), if_pos hsecond] at hstep
    exact hstep
  have hall : Drains { s with thread := .writing now s.log.used s.log.used 0 }
      { s with
        fd := s.fd ++ load s.mem s.log.bytes s.log.used
        thread := .writing now s.log.used 0 s.log.used } := by
    have hstep := drains_step { s with thread := .writing now s.log.used s.log.used 0 } now
      (.wrote s.log.used)
    simp only [step, write, if_pos hpos, Nat.min_self, if_neg hzero, Nat.sub_self,
      Nat.zero_add, Nat.add_zero] at hstep
    exact hstep
  obtain ⟨t, ht, hthread, hlog⟩ : ∃ t, Drains s t ∧
      t.thread = .written now s.log.used 0 s.log.used ∧ t.log = s.log := by
    refine ⟨_, ((hawake.trans hwriting).trans hall).trans (drains_step _ now .again), ?_, ?_⟩
    · simp only [step, Nat.lt_irrefl, if_false]
    · simp only [step, Nat.lt_irrefl, if_false]
  have hsound : Sound t := by
    obtain ⟨⟨es, rfl⟩, -, -⟩ := ht
    exact (h.run es).1
  rw [← hlog] at hthread hzero
  exact ⟨t.step 0 .again, ht.trans (drains_step t 0 .again), hsound.used_of_written hthread hzero⟩

/-- A line that fits into the empty log gets into it in some run. -/
theorem Sound.appends (h : Sound s) (hwait : s.waiting i = some line)
    (hrun : s.log.running = true) (hloop : s.thread.InLoop) (hneed : line.need ≤ s.log.size) :
    ∃ es, (s.run es).waiting i = none := by
  obtain ⟨t, ht, htop⟩ := drains_top hloop
  obtain ⟨⟨es₁, hes₁⟩, -, hrun₁⟩ := id ht
  have hsound₁ : Sound t := hes₁ ▸ (h.run es₁).1
  obtain ⟨u, hu, hempty⟩ := hsound₁.drains_empty htop (hrun₁.trans hrun)
  obtain ⟨⟨es₂, hes₂⟩, hwait₂, -⟩ := ht.trans hu
  obtain ⟨hsound₂, hsize₂⟩ := h.run es₂
  rw [hes₂] at hsound₂ hsize₂
  have hwaits : u.waiting i = some line := (congrFun hwait₂ i).trans hwait
  have hroom : u.HasRoom line := by
    rw [hsound₂.hasRoom_iff hwaits]
    omega
  refine ⟨es₂ ++ [.attempt i], ?_⟩
  rw [run_concat, hes₂]
  exact (waiting_attempt hwaits).trans (if_pos hroom)

/-- A line that waits while the thread is at work gets into the log in some run, or never. -/
theorem appended_iff_fits (mem : Memory) (bytes log_size : Nat) (hsize : log_size + 128 ≤ 2 ^ 32)
    (es : List (ShfLogEvent ι)) (i : ι) (line : ShfLogLine)
    (hwait : ((start mem bytes log_size).run es).waiting i = some line)
    (hrun : ((start mem bytes log_size).run es).log.running = true)
    (hloop : ((start mem bytes log_size).run es).thread.InLoop) :
    (∃ es', ((start mem bytes log_size).run (es ++ es')).waiting i = none) ↔
      line.need ≤ ((start mem bytes log_size).run es).log.size := by
  have hsound : Sound ((start mem bytes log_size).run es) :=
    ((sound_start mem bytes hsize).run es).1
  have happend (es' : List (ShfLogEvent ι)) : (start mem bytes log_size).run (es ++ es') =
      ((start mem bytes log_size).run es).run es' := Machine.run_append next _ es es'
  simp only [happend]
  constructor
  · rintro ⟨es', hnone⟩
    by_contra hneed
    rw [hsound.waiting_run hwait (by omega)] at hnone
    cases hnone
  · exact hsound.appends hwait hrun hloop

/-- The line has two bytes and the prefix of its thread twenty. -/
theorem appended_iff_fits_ten :
    (∃ es, ((start (fun _ => 0) 0 10).run ([.call () ⟨[65, 66], 20⟩] ++ es)).waiting () = none) ↔
      22 ≤ 10 :=
  appended_iff_fits (fun _ => 0) 0 10 (by decide) [.call () ⟨[65, 66], 20⟩] () ⟨[65, 66], 20⟩
    (by decide +kernel) rfl trivial

end Waiting

section FirstSecond

/-- What may happen in the first second. -/
def Early : ShfLogEvent ι → Prop
  | .thread second _ => second = 0
  | .del => False
  | _ => True

/-- The thread has not tried to write. -/
structure Quiet (s : ShfLogSystem ι) : Prop where
  write_fail : s.log.write_fail = 0
  running : s.log.running = true
  thread : s.thread = .top ∨ s.thread = .awake
  fd : s.fd = []

theorem Quiet.step (h : Quiet s) (result : WriteResult) : Quiet (s.step 0 result) := by
  rcases h.thread with htop | hawake
  · have hstep : s.step 0 result = { s with thread := .awake } := by
      simp only [ShfLogSystem.step, htop, h.running, if_true]
    rw [hstep]
    exact ⟨h.write_fail, h.running, Or.inr rfl, h.fd⟩
  · -- `write_fail` is zero from the start, as if a write had failed in this second
    have hstep : s.step 0 result = { s with thread := .top } := by
      simp only [ShfLogSystem.step, hawake, h.write_fail, ne_eq, not_true_eq_false, and_false,
        if_false]
    rw [hstep]
    exact ⟨h.write_fail, h.running, Or.inl rfl, h.fd⟩

variable [DecidableEq ι]

theorem Quiet.call (h : Quiet s) (i : ι) (line : ShfLogLine) : Quiet (s.call i line) := by
  unfold ShfLogSystem.call
  split_ifs
  · exact ⟨h.write_fail, h.running, h.thread, h.fd⟩
  · exact h

theorem Quiet.attempt (h : Quiet s) (i : ι) : Quiet (s.attempt i) := by
  cases hwait : s.waiting i with
  | none =>
    simp only [ShfLogSystem.attempt, hwait]
    exact h
  | some line =>
    by_cases hroom : s.HasRoom line
    · simp only [ShfLogSystem.attempt, hwait, if_pos hroom]
      exact ⟨h.write_fail, h.running, h.thread, h.fd⟩
    · simp only [ShfLogSystem.attempt, hwait, if_neg hroom]
      exact h

theorem Quiet.run (h : Quiet s) {es : List (ShfLogEvent ι)} (hes : ∀ e ∈ es, Early e) :
    Quiet (s.run es) := by
  induction es generalizing s with
  | nil => exact h
  | cons e es ih =>
    obtain ⟨he, hrest⟩ := List.forall_mem_cons.mp hes
    refine ih ?_ hrest
    cases e with
    | call i line => exact h.call i line
    | attempt i => exact h.attempt i
    | thread second result =>
      have hzero : second = 0 := he
      subst hzero
      exact h.step result
    | del => exact he.elim

/-- In the first second nothing is written, so that not more is logged than the log can hold. -/
theorem silent_in_first_second (mem : Memory) (bytes log_size : Nat)
    (hsize : log_size + 128 ≤ 2 ^ 32) (es : List (ShfLogEvent ι)) (hes : ∀ e ∈ es, Early e) :
    ((start mem bytes log_size).run es).fd = [] ∧
      (((start mem bytes log_size).accepted es).flatMap fun entry => entry.2.log_line).length ≤
        ((start mem bytes log_size).run es).log.size := by
  have hsound : Sound (start mem bytes log_size : ShfLogSystem ι) := sound_start mem bytes hsize
  have hquiet : Quiet (start mem bytes log_size : ShfLogSystem ι) := ⟨rfl, rfl, Or.inl rfl, rfl⟩
  have hfd := (hquiet.run hes).fd
  obtain ⟨hholds, -, -⟩ := hsound.holds_run rfl rfl rfl es
  have hlength := congrArg List.length hholds.stream
  rw [hfd, List.nil_append, Buffer.length_content] at hlength
  have hused := hholds.used_le
  rw [(hsound.run es).2]
  exact ⟨hfd, by omega⟩

theorem silent_in_first_second_full :
    ((start (fun _ => 0) 0 2).run [.call true ⟨[65], 0⟩, .attempt true, .thread 0 .again,
      .thread 0 .again]).fd = [] := by
  refine (silent_in_first_second (fun _ => 0) 0 2 (by decide) _ ?_).1
  simp [Early]

end FirstSecond

end ShfLogSystem

end AnalysePcap
