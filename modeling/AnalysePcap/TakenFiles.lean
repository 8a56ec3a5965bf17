import AnalysePcap.Isolation
import AnalysePcap.RenameQueue
import AnalysePcap.Run
import Mathlib.Data.List.Infix

/-! The main loop of `main_trace.cpp` in several processes on one directory. A capture
file is called after the name under which it appeared. -/

namespace AnalysePcap

open RenameQueue

/-- What `parse_args` makes of the argument of the last `-i` option. -/
def pcapFileEndStr : Option Text → Text
  | none => "ready.pcap".toList
  | some fileNo => "_".toList ++ fileNo ++ "ready".toList ++ ".pcap".toList

def isPcapfileReady (pcapFileEndStr fileName : Text) : Bool :=
  if fileName.length > pcapFileEndStr.length then
    let endStr := (fileName.drop (fileName.length - pcapFileEndStr.length)).take fileName.length
    endStr == pcapFileEndStr
  else false

def takenName (fileName : Text) : Text := fileName ++ ".taken".toList

def completedName (filePath : Text) : Text := filePath ++ ".completed".toList

/-- Where a process is: before `readdir`, before the `rename` of a file it has selected,
in the loop over `filesList` before the next file, or after reading a file. -/
inductive Pc where
  | readdir
  | rename (fileName : Text)
  | readPcapFile (it : List Text)
  | completed (pcapFile : Text) (it : List Text)

structure Process where
  pcapFileEndStr : Text
  filesList : List Text
  pc : Pc

/-- What the system answers: the entry that `readdir` returns, and whether it lets the
process rename or open a file. -/
structure Reply where
  dr : Option Text
  permits : Bool

/-- One step of a process. The last component is the file that it reads. -/
def Process.next (q : Process) (dir : Directory Text Text) (reply : Reply) :
    Process × Directory Text Text × Option Text :=
  match q.pc with
  | .readdir =>
    match reply.dr with
    | none => ({ q with pc := .readPcapFile q.filesList }, dir, none)
    | some fileName =>
      if isPcapfileReady q.pcapFileEndStr fileName then ({ q with pc := .rename fileName }, dir, none)
      else (q, dir, none)
  | .rename fileName =>
    match if reply.permits then dir.rename fileName (takenName fileName) else none with
    | none => ({ q with pc := .readdir }, dir, none)
    | some dir =>
      ({ q with filesList := q.filesList ++ [takenName fileName], pc := .readdir }, dir, none)
  | .readPcapFile [] => ({ q with filesList := [], pc := .readdir }, dir, none)
  | .readPcapFile (pcapFile :: it) =>
    match if reply.permits then dir pcapFile else none with
    | none => ({ q with pc := .readPcapFile it }, dir, none)
    | some file => ({ q with pc := .completed pcapFile it }, dir, some file)
  | .completed pcapFile it =>
    match if reply.permits then dir.rename pcapFile (completedName pcapFile) else none with
    | none => ({ q with pc := .readPcapFile it }, dir, none)
    | some dir => ({ q with pc := .readPcapFile it }, dir, none)

/-- The directory, the names under which files have appeared in it, the processes, and
which process has read which file. -/
structure System (ι : Type*) where
  dir : Directory Text Text
  seen : List Text
  process : ι → Process
  parsed : List (ι × Text)

inductive Event (ι : Type*) where
  | capture (fileName : Text)
  | step (p : ι) (reply : Reply)

namespace System

variable {ι : Type*} [DecidableEq ι]

/-- Process `p` is started with the option `-i` or without, on a directory that may have
files of any names. -/
def initial (fileNo : ι → Option Text) (names : List Text) : System ι where
  dir name := if names.contains name then some name else none
  seen := names
  process p := ⟨pcapFileEndStr (fileNo p), [], .readdir⟩
  parsed := []

def next (s : System ι) : Event ι → System ι
  | .capture fileName =>
    { s with dir := Function.update s.dir fileName (some fileName), seen := fileName :: s.seen }
  | .step p reply =>
    let (q, dir, file) := (s.process p).next s.dir reply
    { s with
      dir := dir
      process := Function.update s.process p q
      parsed := s.parsed ++ (file.map fun f => (p, f)).toList }

/-- The capture tool gives a new file a name that ends in ready.pcap and that no file had
before. -/
def Fresh (s : System ι) : Event ι → Prop
  | .capture fileName => "ready.pcap".toList <:+ fileName ∧ fileName ∉ s.seen
  | .step _ _ => True

end System

section Names

theorem not_suffix_append {a b : Text} (h : a.getLast? ≠ b.getLast?) (ha : a ≠ []) (hb : b ≠ [])
    (n : Text) : ¬ a <:+ n ++ b := by
  rintro ⟨t, ht⟩
  have hlast := congrArg List.getLast? ht
  rw [List.getLast?_append_of_ne_nil t ha, List.getLast?_append_of_ne_nil n hb] at hlast
  exact h hlast

def naming : Naming Text where
  Ready name := "ready.pcap".toList <:+ name
  taken := takenName
  completed := completedName
  taken_injective _ _ h := List.append_cancel_right h
  not_ready_taken n := not_suffix_append (by decide) (by decide) (by decide) n
  not_ready_completed n := not_suffix_append (by decide) (by decide) (by decide) (takenName n)
  taken_ne_completed m n h := by
    have hsuffix : ".completed".toList <:+ m ++ ".taken".toList := ⟨takenName n, h.symm⟩
    exact not_suffix_append (by decide) (by decide) (by decide) m hsuffix

theorem suffix_of_isPcapfileReady {endStr fileName : Text}
    (h : isPcapfileReady endStr fileName = true) : endStr <:+ fileName := by
  unfold isPcapfileReady at h
  split_ifs at h with hlen
  have hend : (fileName.drop (fileName.length - endStr.length)).take fileName.length = endStr := by
    simpa using h
  rw [List.take_of_length_le (by simp)] at hend
  rw [← hend]
  exact List.drop_suffix _ _

theorem ready_suffix_pcapFileEndStr (fileNo : Option Text) :
    "ready.pcap".toList <:+ pcapFileEndStr fileNo := by
  cases fileNo with
  | none => exact List.suffix_rfl
  | some fileNo =>
    have hready : "ready".toList ++ ".pcap".toList = "ready.pcap".toList := by decide
    change _ <:+ "_".toList ++ fileNo ++ "ready".toList ++ ".pcap".toList
    rw [List.append_assoc, hready]
    exact List.suffix_append _ _

/-- Whatever the option says, only names that end in ready.pcap are selected. -/
theorem ready_of_isPcapfileReady {fileNo : Option Text} {fileName : Text}
    (h : isPcapfileReady (pcapFileEndStr fileNo) fileName = true) : naming.Ready fileName :=
  (ready_suffix_pcapFileEndStr fileNo).trans (suffix_of_isPcapfileReady h)

end Names

namespace Process

/-- The names of the files that the process has taken and not yet read. -/
def pending (q : Process) : List Text :=
  match q.pc with
  | .readdir => q.filesList
  | .rename _ => q.filesList
  | .readPcapFile it => it
  | .completed _ it => it

def reading (q : Process) : Option Text :=
  match q.pc with
  | .completed pcapFile _ => some pcapFile
  | _ => none

/-- The process was started with some option and has only selected ready files. -/
structure Started (q : Process) : Prop where
  option : ∃ fileNo, q.pcapFileEndStr = AnalysePcap.pcapFileEndStr fileNo
  selected : ∀ {fileName}, q.pc = .rename fileName → naming.Ready fileName

/-- What one step of a process can do to the directory and to its own files. -/
inductive Move (q : Process) (dir : Directory Text Text) (q' : Process) :
    Directory Text Text → Option Text → Prop
  | stay : q'.pending = q.pending → q'.reading = q.reading → Move q dir q' dir none
  | take (n : Text) (dir' : Directory Text Text) : naming.Ready n →
      dir.rename n (takenName n) = some dir' → q'.pending = q.pending ++ [takenName n] →
      q'.reading = q.reading → Move q dir q' dir' none
  | skip (n : Text) : q.pending = n :: q'.pending → q'.reading = q.reading → Move q dir q' dir none
  | start (n f : Text) : q.pending = n :: q'.pending → dir n = some f →
      q'.reading = some n → Move q dir q' dir (some f)
  | finish (n : Text) (dir' : Directory Text Text) : q.reading = some n →
      dir' = dir ∨ dir.rename n (completedName n) = some dir' → q'.pending = q.pending →
      q'.reading = none → Move q dir q' dir' none

theorem next_cases {q : Process} (hq : q.Started) (dir : Directory Text Text) (reply : Reply) :
    (q.next dir reply).1.Started ∧
      Move q dir (q.next dir reply).1 (q.next dir reply).2.1 (q.next dir reply).2.2 := by
  obtain ⟨endStr, filesList, pc⟩ := q
  have hstarted {filesList' : List Text} {pc' : Pc} (h : ∀ fileName, pc' ≠ .rename fileName) :
      (Process.mk endStr filesList' pc').Started :=
    ⟨hq.option, fun hpc => absurd hpc (h _)⟩
  cases pc with
  | readdir =>
    cases hdr : reply.dr with
    | none =>
      simp only [next, hdr]
      exact ⟨hstarted (by simp), .stay rfl rfl⟩
    | some fileName =>
      obtain ⟨fileNo, rfl⟩ : ∃ fileNo, endStr = AnalysePcap.pcapFileEndStr fileNo := hq.option
      by_cases hready : isPcapfileReady (AnalysePcap.pcapFileEndStr fileNo) fileName = true
      · simp only [next, hdr, hready, if_true]
        refine ⟨⟨⟨fileNo, rfl⟩, ?_⟩, .stay rfl rfl⟩
        intro name hname
        obtain rfl : fileName = name := by simpa using hname
        exact ready_of_isPcapfileReady hready
      · simp only [next, hdr, if_neg hready]
        exact ⟨hq, .stay rfl rfl⟩
  | rename fileName =>
    have hready := hq.selected rfl
    cases hdir : if reply.permits then dir.rename fileName (takenName fileName) else none with
    | none =>
      simp only [next, hdir]
      exact ⟨hstarted (by simp), .stay rfl rfl⟩
    | some dir' =>
      simp only [next, hdir]
      split_ifs at hdir
      exact ⟨hstarted (by simp), .take fileName dir' hready hdir rfl rfl⟩
  | readPcapFile it =>
    cases it with
    | nil => exact ⟨hstarted (by simp), .stay rfl rfl⟩
    | cons pcapFile it =>
      cases hfile : if reply.permits then dir pcapFile else none with
      | none =>
        simp only [next, hfile]
        exact ⟨hstarted (by simp), .skip pcapFile rfl rfl⟩
      | some file =>
        simp only [next, hfile]
        split_ifs at hfile
        exact ⟨hstarted (by simp), .start pcapFile file rfl hfile rfl⟩
  | completed pcapFile it =>
    cases hdir : if reply.permits then dir.rename pcapFile (completedName pcapFile) else none with
    | none =>
      simp only [next, hdir]
      exact ⟨hstarted (by simp), .finish pcapFile dir rfl (.inl rfl) rfl rfl⟩
    | some dir' =>
      simp only [next, hdir]
      split_ifs at hdir
      exact ⟨hstarted (by simp), .finish pcapFile dir' rfl (.inr hdir) rfl rfl⟩

end Process

namespace System

variable {ι : Type*} [DecidableEq ι]

def store (s : System ι) : Store Text ι where
  dir := s.dir
  seen := {name | name ∈ s.seen}
  pending p := (s.process p).pending
  reading p := (s.process p).reading
  read := s.parsed

theorem store_step (s : System ι) (p : ι) (reply : Reply) {q : Process}
    {dir : Directory Text Text} {file : Option Text}
    (h : (s.process p).next s.dir reply = (q, dir, file)) :
    (s.next (.step p reply)).store =
      { s.store with
        dir := dir
        pending := Function.update s.store.pending p q.pending
        reading := Function.update s.store.reading p q.reading
        read := s.parsed ++ (file.map fun f => (p, f)).toList } := by
  have hpending : (fun r => (Function.update s.process p q r).pending) =
      Function.update s.store.pending p q.pending :=
    funext fun r => Function.apply_update (fun _ => Process.pending) s.process p q r
  have hreading : (fun r => (Function.update s.process p q r).reading) =
      Function.update s.store.reading p q.reading :=
    funext fun r => Function.apply_update (fun _ => Process.reading) s.process p q r
  rw [← hpending, ← hreading]
  simp only [next, h, store]

/-- Every event is a step of the abstract queue, or none at all. -/
theorem store_next {s : System ι} (hs : ∀ p, (s.process p).Started) {e : Event ι}
    (he : s.Fresh e) :
    (s.next e).store = s.store ∨ RenameQueue.Step naming s.store (s.next e).store := by
  cases e with
  | capture fileName =>
    have hseen : {name | name ∈ fileName :: s.seen} = insert fileName s.store.seen := by
      ext name
      simp [store]
    refine .inr ?_
    have hstep := RenameQueue.Step.create (N := naming) (s := s.store) fileName he.1 he.2
    rw [← hseen] at hstep
    exact hstep
  | step p reply =>
    obtain ⟨-, hmove⟩ := Process.next_cases (hs p) s.dir reply
    generalize hnext : (s.process p).next s.dir reply = r at hmove
    obtain ⟨q', dir', file⟩ := r
    rw [store_step s p reply hnext]
    have hpending (h : q'.pending = (s.process p).pending) :
        Function.update s.store.pending p q'.pending = s.store.pending := by
      rw [h]
      exact Function.update_eq_self p s.store.pending
    have hreading (h : q'.reading = (s.process p).reading) :
        Function.update s.store.reading p q'.reading = s.store.reading := by
      rw [h]
      exact Function.update_eq_self p s.store.reading
    cases hmove with
    | stay hp hr =>
      left
      simp only [hpending hp, hreading hr, Option.map_none, Option.toList_none, List.append_nil]
      rfl
    | take n _ hn hrename hp hr =>
      right
      rw [hp, hreading hr]
      simp only [Option.map_none, Option.toList_none, List.append_nil]
      exact .take p n dir' hn hrename
    | skip n hp hr =>
      right
      rw [hreading hr]
      simp only [Option.map_none, Option.toList_none, List.append_nil]
      exact .skip p n q'.pending hp
    | start n f hp hfile hr =>
      right
      rw [hr]
      exact .start p n f q'.pending hp hfile
    | finish n _ hr hdir hp hr' =>
      right
      rw [hpending hp, hr']
      simp only [Option.map_none, Option.toList_none, List.append_nil]
      exact .finish p n dir' hr hdir

theorem started_next {s : System ι} (hs : ∀ p, (s.process p).Started) (e : Event ι) (p : ι) :
    ((s.next e).process p).Started := by
  cases e with
  | capture fileName => exact hs p
  | step r reply =>
    have hnext := (Process.next_cases (hs r) s.dir reply).1
    change (Function.update s.process r ((s.process r).next s.dir reply).1 p).Started
    by_cases hp : p = r
    · subst hp
      rw [Function.update_self]
      exact hnext
    · rw [Function.update_of_ne hp]
      exact hs p

omit [DecidableEq ι] in
theorem kept_initial (fileNo : ι → Option Text) (names : List Text) :
    Kept naming (initial fileNo names).store where
  ready := by
    intro n f _ hf
    change (if names.contains n then some n else none) = some f at hf
    split_ifs at hf with hn
    exact ⟨(Option.some.inj hf).symm, List.contains_iff_mem.mp hn⟩
  pending h := absurd h List.not_mem_nil
  nodup _ := List.nodup_nil
  disjoint h := absurd h List.not_mem_nil
  read h := absurd h List.not_mem_nil
  reading h := nomatch h
  once := List.nodup_nil

theorem kept_run (fileNo : ι → Option Text) (names : List Text) {events : List (Event ι)}
    (h : Machine.Along next Fresh (initial fileNo names) events) :
    let s := Machine.run next (initial fileNo names) events
    Kept naming s.store ∧ ∀ p, (s.process p).Started := by
  refine Machine.run_history (I := fun _ (s : System ι) => Kept naming s.store ∧
    ∀ p, (s.process p).Started) ?_ ?_ h
  · exact ⟨kept_initial fileNo names, fun p => ⟨⟨fileNo p, rfl⟩, fun hpc => nomatch hpc⟩⟩
  · rintro pre e ⟨hkept, hstarted⟩ he
    refine ⟨?_, started_next hstarted e⟩
    rcases store_next hstarted he with heq | hstep
    · rw [heq]
      exact hkept
    · exact hkept.step hstep

/-- For any processes, options and interleaving, no file is read twice, and no process
ever selects the name of a file that was taken or completed. -/
theorem each_file_parsed_once (fileNo : ι → Option Text) (names : List Text)
    {events : List (Event ι)} (h : Machine.Along next Fresh (initial fileNo names) events) :
    let s := Machine.run next (initial fileNo names) events
    (s.parsed.map Prod.snd).Nodup ∧
      ∀ p fileName, (s.process p).pc = .rename fileName → ∀ base,
        fileName ≠ base ++ ".taken".toList ∧ fileName ≠ base ++ ".taken.completed".toList := by
  intro s
  obtain ⟨hkept, hstarted⟩ := kept_run fileNo names h
  refine ⟨hkept.once, fun p fileName hpc base => ?_⟩
  have hready := (hstarted p).selected hpc
  constructor
  · rintro rfl
    exact not_suffix_append (by decide) (by decide) (by decide) base hready
  · rintro rfl
    exact not_suffix_append (by decide) (by decide) (by decide) base hready

/-- Both processes find the name before either of them renames the file. -/
theorem each_file_parsed_once_race :
    let name := "a_1ready.pcap".toList
    let entry : Reply := ⟨some name, true⟩
    let fileNo : Bool → Option Text := fun p => if p then some "1".toList else none
    let events : List (Event Bool) :=
      [.capture name, .step true entry, .step false entry, .step false entry, .step true entry,
        .step true ⟨none, true⟩, .step false ⟨none, true⟩, .step false ⟨none, true⟩,
        .step false ⟨none, true⟩]
    let s := Machine.run next (initial fileNo []) events
    Machine.Along next Fresh (initial fileNo []) events ∧ s.parsed = [(false, name)] ∧
      (s.parsed.map Prod.snd).Nodup := by
  intro name entry fileNo events s
  have hfresh : Machine.Along next Fresh (initial fileNo []) events :=
    ⟨⟨by decide, by decide⟩, trivial, trivial, trivial, trivial, trivial, trivial, trivial, trivial,
      trivial⟩
  exact ⟨hfresh, by decide +kernel, (each_file_parsed_once fileNo [] hfresh).1⟩

end System

end AnalysePcap
