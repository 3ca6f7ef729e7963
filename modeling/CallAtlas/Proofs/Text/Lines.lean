import CallAtlas.Text.Lines

/-!
# Writing and splitting lines

A text that is written line by line, each line closed by a line feed, is split
into these lines again, except that a carriage return at the end of a line goes
with the line feed.
-/

namespace CallAtlas.Text

theorem linesFrom_append {text : List Char} (h : '\n' ∉ text) (seen rest : List Char) :
    linesFrom seen (text ++ '\n' :: rest) =
      (dropReturn (text.reverse ++ seen)).reverse :: linesFrom [] rest := by
  induction text generalizing seen with
  | nil => rfl
  | cons c text ih =>
      obtain ⟨hc, htext⟩ : '\n' ≠ c ∧ '\n' ∉ text := by simpa using h
      rw [List.cons_append, linesFrom, if_neg (Ne.symm hc), ih htext, List.reverse_cons,
        List.append_assoc]
      rfl

theorem startsWith_iff {head text : List Char} : startsWith head text ↔ head <+: text := by
  rw [startsWith, Option.isSome_iff_exists]
  exact exists_congr fun rest => dropHead?_eq_some_iff.trans eq_comm

/-! ## Splitting at a mark -/

theorem exists_splitAt? (mark front back : List Char) :
    ∃ before after, splitAt? mark (front ++ (mark ++ back)) = some (before, after) := by
  induction front with
  | nil =>
      refine ⟨[], back, ?_⟩
      have hdrop : dropHead? mark (mark ++ back) = some back :=
        dropHead?_eq_some_iff.mpr rfl
      rw [List.nil_append]
      cases htext : mark ++ back with
      | nil =>
          rw [htext] at hdrop
          rw [splitAt?, hdrop]
          rfl
      | cons c rest =>
          rw [htext] at hdrop
          rw [splitAt?, hdrop]
  | cons c front ih =>
      obtain ⟨before, after, hrest⟩ := ih
      rw [List.cons_append, splitAt?, hrest]
      cases dropHead? mark (c :: (front ++ (mark ++ back))) with
      | some after => exact ⟨[], after, rfl⟩
      | none => exact ⟨c :: before, after, rfl⟩

/-- A mark that cannot overlap itself is found behind a text without it. -/
theorem splitAt?_append {c : Char} {mark front : List Char} (hc : c ∉ mark)
    (h : ¬ (c :: mark) <:+: front) (back : List Char) :
    splitAt? (c :: mark) (front ++ (c :: mark ++ back)) = some (front, back) := by
  induction front with
  | nil =>
      have hdrop : dropHead? (c :: mark) (c :: mark ++ back) = some back :=
        dropHead?_eq_some_iff.mpr rfl
      rw [List.nil_append, List.cons_append, splitAt?, ← List.cons_append, hdrop]
  | cons d front ih =>
      have hrest : ¬ (c :: mark) <:+: front := fun hinfix => h (List.infix_cons hinfix)
      have hdrop : dropHead? (c :: mark) (d :: (front ++ (c :: mark ++ back))) = none := by
        rw [Option.eq_none_iff_forall_ne_some]
        intro rest hsome
        have htext : (d :: front) ++ (c :: (mark ++ back)) = (c :: mark) ++ rest :=
          dropHead?_eq_some_iff.mp hsome
        rcases List.append_eq_append_iff.mp htext with ⟨more, hmark, hmore⟩ | ⟨more, hfront, -⟩
        · cases more with
          | nil => exact h ⟨[], [], by rw [hmark]; simp⟩
          | cons e more =>
              obtain ⟨rfl, -⟩ := List.cons_eq_cons.mp hmore
              obtain ⟨-, htail⟩ := List.cons_eq_cons.mp hmark
              exact hc (htail ▸ List.mem_append_right _ List.mem_cons_self)
        · exact h ⟨[], more, hfront.symm⟩
      rw [List.cons_append, splitAt?, hdrop, ih hrest]
      rfl

/-! ## The carriage return at the end -/

/-- What is left of a line when its line feed is taken off. -/
def trimReturn (line : List Char) : List Char :=
  (dropReturn line.reverse).reverse

theorem dropReturn_cons {c : Char} (hc : c ≠ '\r') (rest : List Char) :
    dropReturn (c :: rest) = c :: rest := by
  rw [dropReturn]
  simpa using hc

theorem trimReturn_append {front : List Char} (h : front.getLast? ≠ some '\r')
    (back : List Char) : trimReturn (front ++ back) = front ++ trimReturn back := by
  rw [trimReturn, List.reverse_append]
  cases hback : back.reverse with
  | nil =>
      obtain rfl := List.reverse_eq_nil_iff.mp hback
      have hfront : dropReturn front.reverse = front.reverse := by
        cases hreverse : front.reverse with
        | nil => rfl
        | cons c rest =>
            have hc : c ≠ '\r' := by
              rintro rfl
              rw [List.getLast?_eq_head?_reverse, hreverse] at h
              exact h rfl
            exact dropReturn_cons hc rest
      rw [List.nil_append, hfront, List.reverse_reverse, trimReturn]
      simp [dropReturn]
  | cons c rest =>
      have hdrop : dropReturn (c :: rest ++ front.reverse) =
          dropReturn (c :: rest) ++ front.reverse := by
        by_cases hc : c = '\r'
        · subst hc
          rfl
        · rw [List.cons_append, dropReturn_cons hc, dropReturn_cons hc]
          rfl
      rw [hdrop, trimReturn, hback, List.reverse_append, List.reverse_reverse]

theorem trimReturn_cons {c : Char} (hc : c ≠ '\r') (line : List Char) :
    trimReturn (c :: line) = c :: trimReturn line := by
  have hlast : [c].getLast? ≠ some '\r' := by simpa using hc
  exact trimReturn_append hlast line

theorem trimReturn_prefix (line : List Char) : trimReturn line <+: line := by
  have hdrop : dropReturn line.reverse <:+ line.reverse := by
    cases line.reverse with
    | nil => exact List.suffix_rfl
    | cons c rest =>
        by_cases hc : c = '\r'
        · subst hc
          exact List.suffix_cons _ _
        · exact ⟨[], dropReturn_cons hc rest⟩
  rw [← List.reverse_suffix, trimReturn, List.reverse_reverse]
  exact hdrop

theorem trimReturn_of_getLast? {line : List Char} (h : line.getLast? ≠ some '\r') :
    trimReturn line = line := by
  have := trimReturn_append h []
  rwa [List.append_nil, show trimReturn [] = [] from rfl, List.append_nil] at this

/-- A line feed that closes a line does not belong to it. -/
theorem lines_append_feed {line : List Char} (h : '\n' ∉ line) (rest : List Char) :
    lines (line ++ '\n' :: rest) = trimReturn line :: lines rest := by
  rw [lines, linesFrom_append h, List.append_nil, trimReturn, lines]

theorem lines_append {text : List Char} (h : ∀ c ∈ text, 0x20 ≤ c.toNat) (rest : List Char) :
    lines (text ++ '\n' :: rest) = text :: lines rest := by
  have hfeed : '\n' ∉ text := fun hmem => absurd (h _ hmem) (by decide)
  have hreturn : text.getLast? ≠ some '\r' :=
    fun hlast => absurd (h _ (List.mem_of_getLast? hlast)) (by decide)
  rw [lines_append_feed hfeed, trimReturn_of_getLast? hreturn]

/-! ## Parts of a text -/

/-- Nothing stands behind the last line feed. -/
def Ended (text : List Char) : Prop :=
  ∀ c ∈ text.getLast?, c = '\n'

theorem ended_nil : Ended [] :=
  fun _ h => nomatch h

theorem linesFrom_append_of_ended {front : List Char} (h : front.getLast? = some '\n')
    (seen rest : List Char) :
    linesFrom seen (front ++ rest) = linesFrom seen front ++ linesFrom [] rest := by
  induction front generalizing seen with
  | nil => cases h
  | cons c front ih =>
      rw [List.cons_append, linesFrom, linesFrom]
      cases front with
      | nil =>
          obtain rfl : c = '\n' := Option.some.inj h
          rfl
      | cons d front =>
          rw [List.getLast?_cons_cons] at h
          rw [ih h, ih h]
          split <;> rfl

/-- What stands behind a line feed is split on its own. -/
theorem lines_append_of_ended {front : List Char} (h : Ended front) (rest : List Char) :
    lines (front ++ rest) = lines front ++ lines rest := by
  cases hlast : front.getLast? with
  | none =>
      rw [List.getLast?_eq_none_iff.mp hlast]
      rfl
  | some c =>
      rw [h c hlast] at hlast
      exact linesFrom_append_of_ended hlast [] rest

theorem linesFrom_of_not_mem {text : List Char} (h : '\n' ∉ text) (seen : List Char) :
    linesFrom seen text = if (text.reverse ++ seen).isEmpty then []
      else [(text.reverse ++ seen).reverse] := by
  induction text generalizing seen with
  | nil => rfl
  | cons c text ih =>
      obtain ⟨hc, htext⟩ : '\n' ≠ c ∧ '\n' ∉ text := by simpa using h
      rw [linesFrom, if_neg (Ne.symm hc), ih htext, List.reverse_cons, List.append_assoc]
      rfl

/-- A text up to its line feed with that number. -/
def upToLine : Nat → List Char → List Char
  | 0, _ => []
  | _ + 1, [] => []
  | count + 1, c :: rest =>
      if c = '\n' then c :: upToLine count rest else c :: upToLine (count + 1) rest

theorem linesFrom_upToLine (count : Nat) (seen text : List Char) :
    linesFrom seen (upToLine (count + 1) text) = (linesFrom seen text).take (count + 1) := by
  induction text generalizing count seen with
  | nil =>
      rw [upToLine, linesFrom]
      split <;> simp
  | cons c text ih =>
      rw [upToLine]
      by_cases hc : c = '\n'
      · rw [if_pos hc, linesFrom, linesFrom, if_pos hc, if_pos hc, List.take_succ_cons]
        cases count with
        | zero => simp [upToLine, linesFrom]
        | succ count => rw [ih]
      · rw [if_neg hc, linesFrom, linesFrom, if_neg hc, if_neg hc, ih]

/-- A text can be cut behind any of its lines. -/
theorem lines_upToLine (count : Nat) (text : List Char) :
    lines (upToLine count text) = (lines text).take count := by
  cases count with
  | zero => simp [upToLine, lines, linesFrom]
  | succ count => exact linesFrom_upToLine count [] text

theorem lines_of_prefix {head text : List Char} (hne : head ≠ []) (hfeed : '\n' ∉ head)
    (hreturn : head.getLast? ≠ some '\r') (h : head <+: text) :
    ∃ line rest, lines text = line :: rest ∧ head <+: line := by
  obtain ⟨back, rfl⟩ := h
  by_cases hmem : '\n' ∈ back
  · obtain ⟨front, rest, rfl, hfront⟩ := List.eq_append_cons_of_mem hmem
    refine ⟨trimReturn (head ++ front), lines rest, ?_, ?_⟩
    · rw [← List.append_assoc]
      exact lines_append_feed (by simp [hfeed, hfront]) rest
    · rw [trimReturn_append hreturn]
      exact List.prefix_append _ _
  · refine ⟨head ++ back, [], ?_, List.prefix_append _ _⟩
    rw [lines, linesFrom_of_not_mem (by simp [hfeed, hmem])]
    simp [hne]

/-! ## Lines written one after the other -/

/-- Lines, each closed by a line feed. -/
def closeLines (written : List (List Char)) : List Char :=
  written.flatMap (· ++ ['\n'])

theorem ended_closeLines (written : List (List Char)) : Ended (closeLines written) := by
  induction written with
  | nil => exact ended_nil
  | cons line written ih =>
      intro c hc
      rw [closeLines, List.flatMap_cons, List.getLast?_append, List.getLast?_append] at hc
      cases hlast : (closeLines written).getLast? with
      | none =>
          rw [closeLines] at hlast
          rw [hlast] at hc
          exact (Option.some.inj hc).symm
      | some d =>
          rw [closeLines] at hlast
          rw [hlast] at hc
          exact ih c (hlast.trans hc)

theorem lines_closeLines_append {written : List (List Char)} (h : ∀ line ∈ written, '\n' ∉ line)
    (rest : List Char) :
    lines (closeLines written ++ rest) = written.map trimReturn ++ lines rest := by
  induction written with
  | nil => rfl
  | cons line written ih =>
      have hline := h line List.mem_cons_self
      have hwritten := fun other hother => h other (List.mem_cons_of_mem _ hother)
      rw [closeLines, List.flatMap_cons, List.append_assoc, List.append_assoc,
        List.singleton_append, lines_append_feed hline, ← closeLines, ih hwritten]
      rfl

theorem lines_closeLines {written : List (List Char)} (h : ∀ line ∈ written, '\n' ∉ line) :
    lines (closeLines written) = written.map trimReturn := by
  have := lines_closeLines_append h []
  rwa [List.append_nil, show lines [] = [] from rfl, List.append_nil] at this

end CallAtlas.Text
