import ReflectPytest.Library.LineFilling

set_option autoImplicit false

/-! # wrap_words

The loop of `wrap_words` collects a word character by character and flushes it at every separator
and at the end. What it has written is always a filled layout of the words so far
(`wrapWords_eq`), so the properties of the text are those of the layout. -/

namespace ReflectPytest

open LineFilling

/-! ## The function -/

/-- The characters between words. -/
def isSeparator (ch : Char) : Bool := ch == ' ' || ch == '\n' || ch == '\r' || ch == '\t'

/-- The local variables of `wrap_words`; a `std::string` is the list of its characters. -/
structure Wrap where
  out : List Char := []
  word : List Char := []
  col : Nat := 0

namespace Wrap

/-- `flush_word`. -/
def flushWord (width : Nat) (w : Wrap) : Wrap :=
  if w.word.isEmpty then w
  else if w.col = 0 then { out := w.out ++ w.word, col := w.word.length }
  else if w.col + 1 + w.word.length ≤ width then
    { out := w.out ++ [' '] ++ w.word, col := w.col + (1 + w.word.length) }
  else { out := w.out ++ ['\n'] ++ w.word, col := w.word.length }

/-- The body of the loop. -/
def step (width : Nat) (w : Wrap) (ch : Char) : Wrap :=
  if isSeparator ch then w.flushWord width else { w with word := w.word ++ [ch] }

end Wrap

/-- `wrap_words`. -/
def wrapWords (s : List Char) (width : Nat) : List Char :=
  ((s.foldl (Wrap.step width) {}).flushWord width).out

/-! ## The loop -/

/-- What is written is the layout of the words, and `col` is the length of its last line. -/
structure Wrap.Wrote (width : Nat) (ws : List (List Char)) (w : Wrap) : Prop where
  out : w.out = render ' ' '\n' (fill ' ' width ws)
  col : w.col = ((fill ' ' width ws).getLast?.elim 0 fun l => (line ' ' l).length)

section

variable {width : Nat} {ws : List (List Char)} {w : Wrap}

theorem Wrap.wrote_init : Wrap.Wrote width [] {} := ⟨rfl, rfl⟩

/-- The column is zero exactly before the first line. -/
theorem Wrap.Wrote.line_cases (h : w.Wrote width ws) (hws : ∀ v ∈ ws, v ≠ []) :
    (fill ' ' width ws = [] ∧ w.col = 0) ∨
      ∃ ls l, fill ' ' width ws = ls ++ [l] ∧ l ≠ [] ∧ w.col = (line ' ' l).length ∧
        w.col ≠ 0 := by
  have hcol := h.col
  rcases List.eq_nil_or_concat' (fill ' ' width ws) with hnil | ⟨ls, l, hconcat⟩
  · rw [hnil] at hcol
    exact .inl ⟨hnil, hcol⟩
  · have hflat := flatten_fill ' ' width ws
    rw [hconcat] at hcol hflat
    have hl : l ≠ [] := (filled_fill ' ' width ws).nonempty l (by simp [hconcat])
    have hmem : ∀ v ∈ l, v ≠ [] := by
      intro v hv
      refine hws v ?_
      rw [← hflat]
      simp [hv]
    have hcol : w.col = (line ' ' l).length := by simpa using hcol
    refine .inr ⟨ls, l, hconcat, hl, hcol, ?_⟩
    rw [hcol]
    exact fun hlen => intercalate_ne_nil hl hmem (List.length_eq_zero_iff.1 hlen)

/-- **Flushing** places the word. -/
theorem Wrap.Wrote.flushWord (h : w.Wrote width ws) (hws : ∀ v ∈ ws, v ≠ []) :
    (w.flushWord width).word = [] ∧
      (w.flushWord width).Wrote width (ws ++ if w.word.isEmpty then [] else [w.word]) := by
  unfold Wrap.flushWord
  by_cases hword : w.word.isEmpty
  · simp only [if_pos hword, List.append_nil]
    exact ⟨List.isEmpty_iff.1 hword, h⟩
  · simp only [if_neg hword]
    have hout := h.out
    rcases h.line_cases hws with ⟨hnil, hzero⟩ | ⟨ls, l, hconcat, hl, hcol, hpos⟩
    · have hplaced : fill ' ' width (ws ++ [w.word]) = [[w.word]] := by
        rw [fill_concat, hnil, place_nil]
      rw [hnil] at hout
      rw [if_pos hzero, hout]
      refine ⟨rfl, ?_, ?_⟩
      · rw [hplaced, render_singleton]
        rfl
      · rw [hplaced]
        simp [line]
    · rw [hconcat] at hout
      rw [if_neg hpos]
      by_cases hroom : w.col + 1 + w.word.length ≤ width
      · rw [if_pos hroom]
        have hplaced : fill ' ' width (ws ++ [w.word]) = ls ++ [l ++ [w.word]] := by
          rw [fill_concat, hconcat, place_concat, ← hcol, if_pos hroom]
        refine ⟨rfl, ?_, ?_⟩
        · rw [hplaced, render_extend _ _ _ hl, ← hout]
          simp
        · rw [hplaced, hcol]
          simp [line_concat ' ' hl]
          omega
      · rw [if_neg hroom]
        have hplaced : fill ' ' width (ws ++ [w.word]) = ls ++ [l] ++ [[w.word]] := by
          rw [fill_concat, hconcat, place_concat, ← hcol, if_neg hroom]
        refine ⟨rfl, ?_, ?_⟩
        · rw [hplaced, render_break _ _ (by simp), ← hout]
          simp
        · rw [hplaced]
          simp [line]

/-- **Run lemma.** The rest of the text adds its words, the first of which starts with the word that
    is being collected. -/
theorem Wrap.Wrote.foldl (rest : List Char) {ws : List (List Char)} {w : Wrap}
    (h : w.Wrote width ws) (hws : ∀ v ∈ ws, v ≠ []) (hword : ∀ c ∈ w.word, isSeparator c = false) :
    ((rest.foldl (Wrap.step width) w).flushWord width).Wrote width
      (ws ++ words isSeparator (w.word ++ rest)) := by
  induction rest generalizing ws w with
  | nil =>
      rw [List.append_nil, words_of_clean hword]
      exact (h.flushWord hws).2
  | cons c rest ih =>
      rw [List.foldl_cons]
      cases hc : isSeparator c with
      | true =>
          obtain ⟨hnil, hflush⟩ := h.flushWord hws
          have hstep : w.step width c = w.flushWord width := if_pos hc
          have hws' : ∀ v ∈ ws ++ words isSeparator w.word, v ≠ [] := by
            intro v hv
            rcases List.mem_append.1 hv with hv | hv
            · exact hws v hv
            · exact ne_nil_of_mem_words hv
          rw [← words_of_clean hword] at hflush
          have hrest := ih hflush hws' (by simp [hnil])
          rw [hnil, List.nil_append, List.append_assoc] at hrest
          rw [words_append_cons _ _ hc, hstep]
          exact hrest
      | false =>
          have hstep : w.step width c = { w with word := w.word ++ [c] } :=
            if_neg (by simp [hc])
          have hclean : ∀ d ∈ w.word ++ [c], isSeparator d = false := by
            intro d hd
            rcases List.mem_append.1 hd with hd | hd
            · exact hword d hd
            · rw [List.mem_singleton.1 hd, hc]
          have hrest := ih (w := { w with word := w.word ++ [c] }) ⟨h.out, h.col⟩ hws hclean
          rw [List.append_assoc, List.singleton_append] at hrest
          rw [hstep]
          exact hrest

end

/-- **`wrap_words` writes the filled lines of the words.** -/
theorem wrapWords_eq (s : List Char) (width : Nat) :
    wrapWords s width = render ' ' '\n' (fill ' ' width (words isSeparator s)) :=
  (Wrap.wrote_init.foldl s (by simp) (by simp)).out

/-! ## The text -/

/-- The separators that are written. -/
def isBreak (ch : Char) : Bool := ch == ' ' || ch == '\n'

theorem Wrap.mem_flushWord {width : Nat} {w : Wrap} {ch : Char}
    (h : ch ∈ (w.flushWord width).out ++ (w.flushWord width).word) :
    isBreak ch = true ∨ ch ∈ w.out ++ w.word := by
  unfold Wrap.flushWord at h
  split_ifs at h
  · exact .inr h
  · exact .inr (by simpa using h)
  · simp only [List.append_nil, List.append_assoc, List.mem_append, List.mem_singleton] at h
    rcases h with h | rfl | h
    · exact .inr (List.mem_append_left _ h)
    · exact .inl rfl
    · exact .inr (List.mem_append_right _ h)
  · simp only [List.append_nil, List.append_assoc, List.mem_append, List.mem_singleton] at h
    rcases h with h | rfl | h
    · exact .inr (List.mem_append_left _ h)
    · exact .inl rfl
    · exact .inr (List.mem_append_right _ h)

/-- The characters written are breaks and those of the text that are no separators. -/
theorem mem_wrapWords {s : List Char} {width : Nat} {ch : Char} (h : ch ∈ wrapWords s width) :
    isBreak ch = true ∨ ch ∈ s ∧ isSeparator ch = false := by
  let w := s.foldl (Wrap.step width) {}
  have hw : ∀ ch ∈ w.out ++ w.word, isBreak ch = true ∨ ch ∈ s ∧ isSeparator ch = false := by
    refine List.foldlRecOn (motive := fun w : Wrap => ∀ ch ∈ w.out ++ w.word,
      isBreak ch = true ∨ ch ∈ s ∧ isSeparator ch = false) s _ (by simp) fun w hw c hc ch hch => ?_
    unfold Wrap.step at hch
    split_ifs at hch with hsep
    · exact (Wrap.mem_flushWord hch).elim .inl (hw ch)
    · rw [← List.append_assoc] at hch
      rcases List.mem_append.1 hch with hch | hch
      · exact hw ch hch
      · exact .inr (List.mem_singleton.1 hch ▸ ⟨hc, by simpa using hsep⟩)
  exact (Wrap.mem_flushWord (List.mem_append_left _ h)).elim .inl (hw ch)

/-- The words of a text, filled into lines, have no separator in them. -/
theorem clean_fill (s : List Char) (width : Nat) :
    Clean isBreak (fill ' ' width (words isSeparator s)) := by
  intro l hl
  refine ⟨(filled_fill ' ' width _).nonempty l hl, fun w hw => ?_⟩
  have hmem : w ∈ words isSeparator s := by
    rw [← flatten_fill ' ' width (words isSeparator s)]
    exact List.mem_flatten.2 ⟨l, hl, hw⟩
  refine ⟨ne_nil_of_mem_words hmem, fun c hc => ?_⟩
  have hclean := clean_of_mem_words hmem c hc
  simp only [isSeparator, Bool.or_eq_false_iff] at hclean
  simp [isBreak, hclean]

/-- **`wrap_words` is a faithful greedy wrap**, for every text and width: the text written has the
    same words and no separator too many; a line of it is at most `width` long or a single longer
    word; and the first word of a line does not fit into the line before it. -/
theorem wrapWords_faithful (s : List Char) (width : Nat) :
    let out := wrapWords s width
    words isBreak out = words isSeparator s ∧ Tight isBreak out ∧
      (∀ l ∈ out.splitOn '\n', l.length ≤ width ∨
        l ∈ words isSeparator s ∧ width < l.length) ∧
      (out.splitOn '\n').IsChain fun l l' =>
        width < l.length + 1 + (l'.takeWhile fun c => c != ' ').length := by
  have hclean := clean_fill s width
  have hfilled := filled_fill ' ' width (words isSeparator s)
  have hflat := flatten_fill ' ' width (words isSeparator s)
  rw [wrapWords_eq]
  refine ⟨(words_render rfl rfl hclean).trans hflat, tight_render hclean, ?_⟩
  by_cases hnil : fill ' ' width (words isSeparator s) = []
  · -- no words, one empty line
    rw [hnil]
    exact ⟨by simp [render], List.IsChain.singleton _⟩
  · rw [splitOn_render (p := isBreak) rfl (by decide) hclean hnil]
    refine ⟨fun l' hl' => ?_, (List.isChain_map _).2 (hfilled.greedy.imp_of_mem_imp ?_)⟩
    · obtain ⟨l, hl, rfl⟩ := List.mem_map.1 hl'
      rcases hfilled.fits l hl with hfits | ⟨w, rfl⟩
      · exact Or.inl hfits
      · have hw : line ' ' [w] = w := by simp [line]
        have hmem : w ∈ words isSeparator s := by
          rw [← hflat]
          exact List.mem_flatten.2 ⟨[w], hl, List.mem_singleton_self w⟩
        rw [hw]
        exact (le_or_gt w.length width).imp id fun hlong => ⟨hmem, hlong⟩
    · intro l l' _ hl' hgreedy
      obtain ⟨hne, hwords⟩ := hclean l' hl'
      obtain ⟨w, rest, rfl⟩ := List.exists_cons_of_ne_nil hne
      rw [takeWhile_line (p := isBreak) rfl (hwords w List.mem_cons_self).2]
      exact hgreedy w rfl

/-- A word longer than the line, and a line that is full to the last character. -/
example : wrapWords " State\tmachine  snapshot, plus x\n".toList 6 =
    "State\nmachine\nsnapshot,\nplus x".toList := by
  decide

end ReflectPytest
