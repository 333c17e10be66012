import Parley.Text.Lines

/-!
# Lines and their parts

Lines that were written one after the other are read one after the other, as long as none of them
has a line feed of its own. A line is divided at the first occurrence of a character: there is one
way to do that, and there is none if the character does not occur.
-/

namespace Parley.Text

theorem linesFrom_line {done : List (List Char)} {before line : List Char} (h : '\n' ∉ line)
    (rest : List Char) :
    linesFrom done before (line ++ ['\r', '\n'] ++ rest) =
      linesFrom ((before.reverse ++ line) :: done) [] rest := by
  induction line generalizing before with
  | nil =>
      show linesFrom (dropReturn ('\r' :: before) :: done) [] rest = _
      rw [List.append_nil]
      rfl
  | cons c line ih =>
      obtain ⟨hc, hline⟩ := not_or.mp (mt List.mem_cons.mpr h)
      rw [List.cons_append, List.cons_append, linesFrom, if_neg (Ne.symm hc), ih hline,
        List.reverse_cons, List.append_assoc]
      rfl

/-- Lines that were written one after the other are read one after the other. -/
theorem lines_flatMap {ls : List (List Char)} (h : ∀ l ∈ ls, '\n' ∉ l) :
    lines (ls.flatMap (· ++ ['\r', '\n'])) = ls := by
  suffices hfrom : ∀ done, linesFrom done [] (ls.flatMap (· ++ ['\r', '\n'])) = done.reverse ++ ls
    from hfrom []
  induction ls with
  | nil =>
      intro done
      exact (List.append_nil _).symm
  | cons l rest ih =>
      intro done
      obtain ⟨hl, hrest⟩ := List.forall_mem_cons.mp h
      rw [List.flatMap_cons, linesFrom_line hl, ih hrest]
      simp

theorem dropStart?_append (start cs : List Char) : dropStart? start (start ++ cs) = some cs := by
  induction start with
  | nil => cases cs <;> rfl
  | cons c start ih => rw [List.cons_append, dropStart?, if_pos rfl, ih]

theorem splitAt?_append {sep : Char} {cs : List Char} (h : sep ∉ cs) (rest : List Char) :
    splitAt? sep (cs ++ sep :: rest) = some (cs, rest) := by
  have hne : ∀ c ∈ cs, (c != sep) = true := by
    intro c hc
    rw [bne_iff_ne]
    rintro rfl
    exact h hc
  unfold splitAt?
  rw [List.dropWhile_append_of_pos hne, List.dropWhile_cons_of_neg (by simp),
    List.takeWhile_append_of_pos hne, List.takeWhile_cons_of_neg (by simp), List.append_nil]

theorem splitAt?_eq_some_iff {sep : Char} {cs before after : List Char} :
    splitAt? sep cs = some (before, after) ↔ cs = before ++ sep :: after ∧ sep ∉ before := by
  refine ⟨fun h => ?_, fun ⟨hcs, hsep⟩ => hcs ▸ splitAt?_append hsep after⟩
  unfold splitAt? at h
  split at h
  · cases h
  · rename_i c rest hdrop
    cases h
    have hc : (c != sep) = false := by
      have hhead := List.head?_dropWhile_not (· != sep) cs
      rwa [hdrop] at hhead
    rw [bne_eq_false_iff_eq] at hc
    subst hc
    refine ⟨?_, fun hmem => ?_⟩
    · rw [← hdrop, List.takeWhile_append_dropWhile]
    · simpa using List.all_eq_true.mp List.all_takeWhile c hmem

end Parley.Text
