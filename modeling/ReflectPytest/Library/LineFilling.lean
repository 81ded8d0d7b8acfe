import Mathlib.Data.List.Chain
import Mathlib.Data.List.Induction
import Mathlib.Data.List.TakeWhile

set_option autoImplicit false

/-! # Filling lines with words

A text is cut into words at separators; a filler puts the words into lines, each into the current
line if it fits and into a new one otherwise. `fill` does so word by word, `Filled` says what the
lines then are, and `render` writes them with one separator between words and another between
lines. Elements are arbitrary. -/

namespace LineFilling

variable {α : Type*}

/-! ## Words -/

/-- The words of a text: its maximal runs without separators. -/
def words (p : α → Bool) (s : List α) : List (List α) := (s.splitOnP p).filter fun w => !w.isEmpty

/-- There is no separator at either end, and no two follow each other. -/
structure Tight (p : α → Bool) (s : List α) : Prop where
  head : ∀ c ∈ s.head?, p c = false
  last : ∀ c ∈ s.getLast?, p c = false
  chain : s.IsChain fun c d => ¬ (p c = true ∧ p d = true)

section

variable {p : α → Bool}

theorem words_append_cons (s t : List α) {c : α} (hc : p c = true) :
    words p (s ++ c :: t) = words p s ++ words p t := by
  unfold words
  rw [List.splitOnP_append_cons s t hc, List.filter_append]

/-- A run without separators is one word, or none. -/
theorem words_of_clean {w : List α} (h : ∀ c ∈ w, p c = false) :
    words p w = if w.isEmpty then [] else [w] := by
  unfold words
  rw [List.splitOnP_eq_singleton h]
  cases w <;> rfl

theorem ne_nil_of_mem_words {s w : List α} (h : w ∈ words p s) : w ≠ [] := by
  have hne := (List.mem_filter.1 h).2
  rintro rfl
  exact absurd hne (by simp)

/-- No piece of a text has a separator in it. -/
theorem clean_of_mem_splitOnP {s w : List α} (h : w ∈ s.splitOnP p) : ∀ c ∈ w, p c = false := by
  induction s generalizing w with
  | nil =>
      obtain rfl : w = [] := by simpa using h
      simp
  | cons d s ih =>
      rw [List.splitOnP_cons_eq_if_modifyHead] at h
      split at h
      · rcases List.mem_cons.1 h with rfl | h
        · simp
        · exact ih h
      · next hd =>
          obtain ⟨v, pieces, hpieces⟩ := List.exists_cons_of_ne_nil (List.splitOnP_ne_nil p s)
          rw [hpieces, List.modifyHead_cons] at h
          rcases List.mem_cons.1 h with rfl | h
          · intro c hc
            rcases List.mem_cons.1 hc with rfl | hc
            · exact eq_false_of_ne_true hd
            · exact ih (hpieces ▸ List.mem_cons_self) c hc
          · exact ih (hpieces ▸ List.mem_cons_of_mem _ h)

theorem clean_of_mem_words {s w : List α} (h : w ∈ words p s) : ∀ c ∈ w, p c = false :=
  clean_of_mem_splitOnP (List.mem_filter.1 h).1

theorem Tight.nil : Tight p [] := ⟨by simp, by simp, List.IsChain.nil⟩

theorem tight_of_clean {w : List α} (h : ∀ c ∈ w, p c = false) : Tight p w := by
  refine ⟨fun c hc => h c (List.mem_of_head? hc), fun c hc => h c (List.mem_of_getLast? hc), ?_⟩
  induction w with
  | nil => exact List.IsChain.nil
  | cons c w ih =>
      refine List.isChain_cons.2
        ⟨fun d _ hboth => ?_, ih fun d hd => h d (List.mem_cons_of_mem _ hd)⟩
      exact absurd hboth.1 (by simp [h c List.mem_cons_self])

/-- A single separator between two texts. -/
theorem Tight.append_cons {s t : List α} (hs : Tight p s) (ht : Tight p t) (hs' : s ≠ [])
    (ht' : t ≠ []) (c : α) : Tight p (s ++ c :: t) := by
  refine ⟨fun d hd => ?_, fun d hd => ?_, ?_⟩
  · rw [List.head?_append_of_ne_nil _ hs'] at hd
    exact hs.head d hd
  · rw [List.getLast?_append_of_ne_nil _ (List.cons_ne_nil c t),
      List.getLast?_cons_of_ne_nil ht'] at hd
    exact ht.last d hd
  · refine hs.chain.append (List.isChain_cons.2 ⟨fun d hd hboth => ?_, ht.chain⟩)
      fun d hd e he hboth => ?_
    · exact absurd hboth.2 (by simp [ht.head d hd])
    · exact absurd hboth.1 (by simp [hs.last d hd])

end

/-! ## Lines -/

/-- The words of a line with a separator between them. -/
def line (sp : α) (ws : List (List α)) : List α := [sp].intercalate ws

/-- The lines with a separator between them. -/
def render (sp nl : α) (ls : List (List (List α))) : List α := [nl].intercalate (ls.map (line sp))

theorem intercalate_concat {sep : List α} {l : List (List α)} (h : l ≠ []) (x : List α) :
    sep.intercalate (l ++ [x]) = sep.intercalate l ++ sep ++ x := by
  induction l with
  | nil => exact absurd rfl h
  | cons a l ih =>
      cases l with
      | nil => simp
      | cons b l =>
          have hrest := ih (List.cons_ne_nil b l)
          simp only [List.cons_append, List.intercalate_cons_cons] at hrest ⊢
          rw [hrest]
          simp

theorem intercalate_concat_append (sep : List α) (l : List (List α)) (x y : List α) :
    sep.intercalate (l ++ [x ++ y]) = sep.intercalate (l ++ [x]) ++ y := by
  by_cases h : l = []
  · simp [h]
  · rw [intercalate_concat h, intercalate_concat h, List.append_assoc (_ ++ _)]

theorem line_concat (sp : α) {ws : List (List α)} (h : ws ≠ []) (w : List α) :
    line sp (ws ++ [w]) = line sp ws ++ sp :: w := by
  unfold line
  rw [intercalate_concat h, List.append_assoc]
  rfl

theorem render_singleton (sp nl : α) (w : List α) : render sp nl [[w]] = w := by
  simp [render, line]

/-- One more word in the last line. -/
theorem render_extend (sp nl : α) (ls : List (List (List α))) {l : List (List α)} (h : l ≠ [])
    (w : List α) : render sp nl (ls ++ [l ++ [w]]) = render sp nl (ls ++ [l]) ++ sp :: w := by
  unfold render
  rw [List.map_append, List.map_singleton, line_concat sp h, intercalate_concat_append,
    List.map_append, List.map_singleton]

/-- One more line. -/
theorem render_break (sp nl : α) {ls : List (List (List α))} (h : ls ≠ []) (w : List α) :
    render sp nl (ls ++ [[w]]) = render sp nl ls ++ nl :: w := by
  unfold render
  rw [List.map_append, List.map_singleton, intercalate_concat (by simpa using h),
    List.append_assoc]
  simp [line]

section

variable {p : α → Bool} {sep : α}

/-- Cutting at the separator gives back the words of the parts. -/
theorem words_intercalate (hsep : p sep = true) (parts : List (List α)) :
    words p ([sep].intercalate parts) = parts.flatMap (words p) := by
  induction parts with
  | nil => rfl
  | cons s parts ih =>
      cases parts with
      | nil => simp
      | cons t parts =>
          rw [List.intercalate_cons_cons, List.append_assoc, List.singleton_append,
            words_append_cons _ _ hsep, ih]
          rfl

theorem intercalate_ne_nil {parts : List (List α)} (hne : parts ≠ []) (h : ∀ s ∈ parts, s ≠ []) :
    [sep].intercalate parts ≠ [] := by
  obtain ⟨s, rest, rfl⟩ := List.exists_cons_of_ne_nil hne
  obtain ⟨c, s, rfl⟩ := List.exists_cons_of_ne_nil (h s List.mem_cons_self)
  simp

theorem tight_intercalate {parts : List (List α)} (h : ∀ s ∈ parts, Tight p s ∧ s ≠ []) :
    Tight p ([sep].intercalate parts) := by
  induction parts with
  | nil => exact Tight.nil
  | cons s parts ih =>
      have hs := h s List.mem_cons_self
      have hrest : ∀ t ∈ parts, Tight p t ∧ t ≠ [] := fun t ht => h t (List.mem_cons_of_mem _ ht)
      cases parts with
      | nil => simpa using hs.1
      | cons t parts =>
          rw [List.intercalate_cons_cons, List.append_assoc, List.singleton_append]
          exact hs.1.append_cons (ih hrest) hs.2
            (intercalate_ne_nil (List.cons_ne_nil t parts) fun u hu => (hrest u hu).2) sep

end

/-! ## Reading lines back -/

/-- Lines of words in which no separator occurs. -/
def Clean (p : α → Bool) (ls : List (List (List α))) : Prop :=
  ∀ l ∈ ls, l ≠ [] ∧ ∀ w ∈ l, w ≠ [] ∧ ∀ c ∈ w, p c = false

section

variable {p : α → Bool} {sp nl : α} {ls : List (List (List α))}

/-- **The text has the words of the lines.** -/
theorem words_render (hsp : p sp = true) (hnl : p nl = true) (h : Clean p ls) :
    words p (render sp nl ls) = ls.flatten := by
  have hword : ∀ l ∈ ls, words p (line sp l) = l := by
    intro l hl
    rw [line, words_intercalate hsp]
    have hwords : ∀ w ∈ l, words p w = [w] := by
      intro w hw
      obtain ⟨hne, hclean⟩ := (h l hl).2 w hw
      rw [words_of_clean hclean, if_neg (by simpa using hne)]
    rw [List.flatMap_congr hwords, List.flatMap_singleton']
  rw [render, words_intercalate hnl, List.flatMap_map, List.flatMap_congr hword]
  exact List.flatMap_id'

/-- **No separator of the text is too many.** -/
theorem tight_render (h : Clean p ls) : Tight p (render sp nl ls) := by
  refine tight_intercalate fun s hs => ?_
  obtain ⟨l, hl, rfl⟩ := List.mem_map.1 hs
  obtain ⟨hne, hwords⟩ := h l hl
  refine ⟨tight_intercalate fun w hw => ?_, intercalate_ne_nil hne fun w hw => (hwords w hw).1⟩
  obtain ⟨hw', hclean⟩ := hwords w hw
  exact ⟨tight_of_clean hclean, hw'⟩

theorem mem_intercalate {c : α} {parts : List (List α)} (h : c ∈ [sp].intercalate parts) :
    c = sp ∨ ∃ s ∈ parts, c ∈ s := by
  induction parts with
  | nil => exact absurd h (by simp)
  | cons s parts ih =>
      cases parts with
      | nil => exact Or.inr ⟨s, List.mem_cons_self, by simpa using h⟩
      | cons t parts =>
          rw [List.intercalate_cons_cons, List.append_assoc, List.mem_append, List.mem_append,
            List.mem_singleton] at h
          rcases h with h | h | h
          · exact Or.inr ⟨s, List.mem_cons_self, h⟩
          · exact Or.inl h
          · exact (ih h).imp id fun ⟨u, hu, hc⟩ => ⟨u, List.mem_cons_of_mem _ hu, hc⟩

/-- **The text has the lines.** -/
theorem splitOn_render [DecidableEq α] (hnl : p nl = true) (hne : nl ≠ sp) (h : Clean p ls)
    (hls : ls ≠ []) : (render sp nl ls).splitOn nl = ls.map (line sp) := by
  refine List.splitOn_intercalate nl (fun s hs hmem => ?_) (by simpa using hls)
  obtain ⟨l, hl, rfl⟩ := List.mem_map.1 hs
  rcases mem_intercalate hmem with heq | ⟨w, hw, hc⟩
  · exact hne heq
  · exact absurd hnl (by simp [((h l hl).2 w hw).2 nl hc])

/-- A line starts with its first word. -/
theorem takeWhile_line [DecidableEq α] (hsp : p sp = true) {w : List α} {rest : List (List α)}
    (hclean : ∀ c ∈ w, p c = false) :
    (line sp (w :: rest)).takeWhile (fun c => c != sp) = w := by
  have hw : ∀ c ∈ w, (c != sp) = true := by
    intro c hc
    refine bne_iff_ne.2 ?_
    rintro rfl
    exact absurd hsp (by simp [hclean c hc])
  unfold line
  cases rest with
  | nil =>
      have hall : w.takeWhile (fun c => c != sp) = w := List.takeWhile_eq_self_iff.2 hw
      simpa using hall
  | cons v rest =>
      rw [List.intercalate_cons_cons, List.append_assoc, List.takeWhile_append_of_pos hw]
      simp

end

/-! ## Filling -/

/-- Put a word into the last line if it fits, with a separator before it, and into a new line
    otherwise. -/
def place (sp : α) (width : Nat) (ls : List (List (List α))) (w : List α) : List (List (List α)) :=
  match ls.getLast? with
  | none => [[w]]
  | some l =>
      if (line sp l).length + 1 + w.length ≤ width then ls.dropLast ++ [l ++ [w]] else ls ++ [[w]]

/-- The lines of a list of words. -/
def fill (sp : α) (width : Nat) (ws : List (List α)) : List (List (List α)) :=
  ws.foldl (place sp width) []

theorem fill_concat (sp : α) (width : Nat) (ws : List (List α)) (w : List α) :
    fill sp width (ws ++ [w]) = place sp width (fill sp width ws) w := by
  simp [fill]

theorem place_nil (sp : α) (width : Nat) (w : List α) : place sp width [] w = [[w]] := rfl

theorem place_concat (sp : α) (width : Nat) (ls : List (List (List α))) (l : List (List α))
    (w : List α) : place sp width (ls ++ [l]) w =
      if (line sp l).length + 1 + w.length ≤ width then ls ++ [l ++ [w]]
      else ls ++ [l] ++ [[w]] := by
  simp [place]

/-- No line is empty; a line fits, or it is one word; and the first word of a line does not fit into
    the line before. -/
structure Filled (sp : α) (width : Nat) (ls : List (List (List α))) : Prop where
  nonempty : ∀ l ∈ ls, l ≠ []
  fits : ∀ l ∈ ls, (line sp l).length ≤ width ∨ ∃ w, l = [w]
  greedy : ls.IsChain fun l l' => ∀ w ∈ l'.head?, width < (line sp l).length + 1 + w.length

theorem Filled.nil (sp : α) (width : Nat) : Filled sp width [] :=
  ⟨by simp, by simp, List.IsChain.nil⟩

/-- **Step lemma.** -/
theorem Filled.place {sp : α} {width : Nat} {ls : List (List (List α))} (h : Filled sp width ls)
    (w : List α) : Filled sp width (place sp width ls w) := by
  rcases List.eq_nil_or_concat' ls with rfl | ⟨ls, l, rfl⟩
  · exact ⟨by simp [place_nil], by simp [place_nil], List.IsChain.singleton _⟩
  · have hl : l ≠ [] := h.nonempty l (by simp)
    rw [place_concat]
    split
    · next hroom =>
        refine ⟨fun l' hl' => ?_, fun l' hl' => ?_, ?_⟩
        · rcases List.mem_append.1 hl' with hl' | hl'
          · exact h.nonempty l' (List.mem_append_left _ hl')
          · simp [List.mem_singleton.1 hl']
        · rcases List.mem_append.1 hl' with hl' | hl'
          · exact h.fits l' (List.mem_append_left _ hl')
          · rw [List.mem_singleton.1 hl', line_concat sp hl]
            left
            simp only [List.length_append, List.length_cons]
            omega
        · obtain ⟨hinit, -, hlast⟩ := List.isChain_append.1 h.greedy
          refine hinit.append (List.IsChain.singleton _) fun l' hl' k hk => ?_
          obtain rfl : l ++ [w] = k := by simpa using hk
          rw [List.head?_append_of_ne_nil _ hl]
          exact hlast l' hl' l rfl
    · next hroom =>
        refine ⟨fun l' hl' => ?_, fun l' hl' => ?_, ?_⟩
        · rcases List.mem_append.1 hl' with hl' | hl'
          · exact h.nonempty l' hl'
          · simp [List.mem_singleton.1 hl']
        · rcases List.mem_append.1 hl' with hl' | hl'
          · exact h.fits l' hl'
          · exact Or.inr ⟨w, List.mem_singleton.1 hl'⟩
        · refine h.greedy.append (List.IsChain.singleton _) fun l' hl' k hk => ?_
          obtain rfl : l = l' := by simpa using hl'
          obtain rfl : [w] = k := by simpa using hk
          intro w' hw'
          obtain rfl : w = w' := by simpa using hw'
          omega

/-- **The lines of a list of words.** -/
theorem filled_fill (sp : α) (width : Nat) (ws : List (List α)) :
    Filled sp width (fill sp width ws) := by
  induction ws using List.reverseRecOn with
  | nil => exact Filled.nil sp width
  | append_singleton ws w ih =>
      rw [fill_concat]
      exact ih.place w

theorem flatten_place (sp : α) (width : Nat) (ls : List (List (List α))) (w : List α) :
    (place sp width ls w).flatten = ls.flatten ++ [w] := by
  rcases List.eq_nil_or_concat' ls with rfl | ⟨ls, l, rfl⟩
  · rfl
  · rw [place_concat]
    split <;> simp

/-- **Filling keeps the words.** -/
theorem flatten_fill (sp : α) (width : Nat) (ws : List (List α)) :
    (fill sp width ws).flatten = ws := by
  induction ws using List.reverseRecOn with
  | nil => rfl
  | append_singleton ws w ih => rw [fill_concat, flatten_place, ih]

end LineFilling
