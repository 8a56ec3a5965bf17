import AnalysePcap.TakenFiles

/-! Which files the instances of `main_trace.cpp` select that are started with different
numbers. A number may be the end of another one, so that the separator decides. -/

namespace AnalysePcap

/-- What stands after the last separator in front of a common end is determined by the
whole. -/
theorem eq_of_separated_suffix {α : Type*} {sep : α} {as bs rest name : List α}
    (has : sep ∉ as) (hbs : sep ∉ bs) (ha : sep :: as ++ rest <:+ name)
    (hb : sep :: bs ++ rest <:+ name) : as = bs := by
  have hcancel {cs ds : List α} (h : sep :: cs ++ rest <:+ sep :: ds ++ rest) (hds : sep ∉ ds) :
      cs = ds := by
    obtain ⟨front, hfront⟩ := h
    rw [← List.append_assoc] at hfront
    have hsuffix : sep :: cs <:+ sep :: ds := ⟨front, List.append_cancel_right hfront⟩
    rcases List.suffix_cons_iff.mp hsuffix with heq | hinside
    · exact (List.cons.inj heq).2
    · exact absurd (hinside.subset List.mem_cons_self) hds
  rcases le_total (sep :: as ++ rest).length (sep :: bs ++ rest).length with hle | hle
  · exact hcancel (List.suffix_of_suffix_length_le ha hb hle) hbs
  · exact (hcancel (List.suffix_of_suffix_length_le hb ha hle) has).symm

/-- The argument of the option `-i`. -/
structure FileNo where
  text : Text
  ne_nil : text ≠ []
  digits : ∀ c ∈ text, c.isDigit = true

theorem FileNo.separator_notMem (fileNo : FileNo) : '_' ∉ fileNo.text := by
  intro h
  exact absurd (fileNo.digits '_' h) (by decide)

theorem isPcapfileReady_iff {endStr fileName : Text} :
    isPcapfileReady endStr fileName = true ↔
      endStr.length < fileName.length ∧ endStr <:+ fileName := by
  constructor
  · intro h
    refine ⟨?_, suffix_of_isPcapfileReady h⟩
    unfold isPcapfileReady at h
    split_ifs at h with hlength
    exact hlength
  · rintro ⟨hlength, front, rfl⟩
    rw [isPcapfileReady, if_pos hlength, List.length_append, Nat.add_sub_cancel, List.drop_left,
      List.take_of_length_le (Nat.le_add_left _ _), beq_self_eq_true]

theorem pcapFileEndStr_some (fileNo : Text) :
    pcapFileEndStr (some fileNo) = '_' :: fileNo ++ pcapFileEndStr none := by
  have hready : "ready".toList ++ ".pcap".toList = "ready.pcap".toList := by decide
  have hsep : "_".toList = ['_'] := by decide
  change "_".toList ++ fileNo ++ "ready".toList ++ ".pcap".toList = '_' :: fileNo ++ "ready.pcap".toList
  rw [List.append_assoc, hready, hsep, List.singleton_append]

theorem not_ready_twice {a b : FileNo} (h : a.text ≠ b.text) (fileName : Text) :
    ¬ (isPcapfileReady (pcapFileEndStr (some a.text)) fileName = true ∧
      isPcapfileReady (pcapFileEndStr (some b.text)) fileName = true) := by
  rintro ⟨ha, hb⟩
  rw [isPcapfileReady_iff, pcapFileEndStr_some] at ha hb
  exact h (eq_of_separated_suffix a.separator_notMem b.separator_notMem ha.2 hb.2)

theorem ready_by_default {fileNo fileName : Text}
    (h : isPcapfileReady (pcapFileEndStr (some fileNo)) fileName = true) :
    isPcapfileReady (pcapFileEndStr none) fileName = true := by
  rw [isPcapfileReady_iff, pcapFileEndStr_some] at h
  obtain ⟨hlength, hsuffix⟩ := h
  have hend : pcapFileEndStr none <:+ '_' :: fileNo ++ pcapFileEndStr none :=
    List.suffix_append _ _
  exact isPcapfileReady_iff.mpr ⟨hend.length_le.trans_lt hlength, hend.trans hsuffix⟩

/-- The files with a given number belong to one instance, and an instance without a number
selects them all. -/
theorem instances_share_files (a b : FileNo) (h : a.text ≠ b.text) :
    (∀ fileName, ¬ (isPcapfileReady (pcapFileEndStr (some a.text)) fileName = true ∧
        isPcapfileReady (pcapFileEndStr (some b.text)) fileName = true)) ∧
      ∀ fileNo : FileNo, ∀ fileName,
        isPcapfileReady (pcapFileEndStr (some fileNo.text)) fileName = true →
          isPcapfileReady (pcapFileEndStr none) fileName = true :=
  ⟨not_ready_twice h, fun _ _ => ready_by_default⟩

/-- One number is the end of the other one. -/
theorem instances_share_files_1_11 :
    let one : FileNo := ⟨['1'], List.cons_ne_nil _ _, List.forall_mem_singleton.mpr rfl⟩
    let eleven : FileNo := ⟨['1', '1'], List.cons_ne_nil _ _,
      List.forall_mem_cons.mpr ⟨rfl, List.forall_mem_singleton.mpr rfl⟩⟩
    let fileName := "x_11ready.pcap".toList
    isPcapfileReady (pcapFileEndStr (some eleven.text)) fileName = true ∧
      ¬ (isPcapfileReady (pcapFileEndStr (some one.text)) fileName = true ∧
        isPcapfileReady (pcapFileEndStr (some eleven.text)) fileName = true) ∧
      isPcapfileReady (pcapFileEndStr none) fileName = true := by
  intro one eleven fileName
  have hready : isPcapfileReady (pcapFileEndStr (some eleven.text)) fileName = true := by
    decide +kernel
  have hne : one.text ≠ eleven.text := by
    decide
  obtain ⟨hapart, hdefault⟩ := instances_share_files one eleven hne
  exact ⟨hready, hapart _, hdefault eleven _ hready⟩

end AnalysePcap
