import Parley.Json.Printer
import Parley.Proofs.Json.Integers
import Parley.Proofs.Json.Literals
import Parley.Proofs.Json.Machine

/-!
# Texts and their tokens

A text is cut into tokens one after the other, with white space between them (`Cut`). Only what is
needed of it is shown: how the scanner goes on at a string and at a number, and which texts are the
text of one string and of nothing else (`read?_eq_string_iff`).
-/

namespace Parley.Json

/-- The marks and the words, with their texts. -/
def words : List (Token × List Char) :=
  [(.openArray, ['[']), (.closeArray, [']']), (.openObject, ['{']), (.closeObject, ['}']),
    (.comma, [',']), (.colon, [':']), (.null, nullChars), (.bool true, boolChars true),
    (.bool false, boolChars false)]

/-- A token, a text that begins with it, and what follows it there. -/
inductive Lexeme : Token → List Char → List Char → Prop
  | word {t : Token} {cs rest : List Char} : (t, cs) ∈ words → Lexeme t (cs ++ rest) rest
  | string {s : Option String} {cs rest : List Char} : scanString cs = some (s, rest) →
      Lexeme (.string s) ('"' :: cs) rest
  | negative {n : Numeral} {cs rest : List Char} : scanNumeral true cs = some (n, rest) →
      Lexeme (.number n) ('-' :: cs) rest
  | number {n : Numeral} {cs rest : List Char} : scanNumeral false cs = some (n, rest) →
      Lexeme (.number n) cs rest

/-- A text and its tokens. -/
inductive Cut : List Char → List Token → Prop
  | nil : Cut [] []
  | space {c : Char} {cs : List Char} {ts : List Token} : isSpace c = true → Cut cs ts →
      Cut (c :: cs) ts
  | token {t : Token} {cs rest : List Char} {ts : List Token} : Lexeme t cs rest → Cut rest ts →
      Cut cs (t :: ts)

/-! ## The scanner at a token -/

theorem scan_string {s : Option String} {cs rest : List Char} (h : scanString cs = some (s, rest))
    (done : List Token) : scan done ('"' :: cs) = scan (.string s :: done) rest := by
  rw [scan]
  split
  · rename_i hnone
    rw [h] at hnone
    cases hnone
  · rename_i hsome
    rw [h] at hsome
    cases hsome
    rfl

theorem scan_negative {n : Numeral} {cs rest : List Char} (h : scanNumeral true cs = some (n, rest))
    (done : List Token) : scan done ('-' :: cs) = scan (.number n :: done) rest := by
  rw [scan]
  split
  · rename_i hnone
    rw [h] at hnone
    cases hnone
  · rename_i hsome
    rw [h] at hsome
    cases hsome
    rfl

theorem scan_number {n : Numeral} {c : Char} {cs rest : List Char} (hdigit : isDigit c = true)
    (h : scanNumeral false (c :: cs) = some (n, rest)) (done : List Token) :
    scan done (c :: cs) = scan (.number n :: done) rest := by
  have hspace : ¬ isSpace c = true := by
    intro hspace
    simp only [isSpace, Bool.or_eq_true, decide_eq_true_eq] at hspace
    rcases hspace with ((rfl | rfl) | rfl) | rfl <;> cases hdigit
  rw [scan, if_neg hspace]
  · split
    · rename_i hnone
      rw [h] at hnone
      cases hnone
    · rename_i hsome
      rw [h] at hsome
      cases hsome
      rfl
  -- No mark, no word, no quote and no sign begins with a digit.
  all_goals
    intros
    subst_vars
    cases hdigit

/-! ## From texts to tokens -/

theorem cut_token {t : Token} {done ts : List Token} {cs rest : List Char} (h : Lexeme t cs rest)
    (hrest : ∃ more, Cut rest more ∧ ts = (t :: done).reverse ++ more) :
    ∃ more, Cut cs more ∧ ts = done.reverse ++ more := by
  obtain ⟨more, hmore, rfl⟩ := hrest
  exact ⟨t :: more, .token h hmore, reverse_cons_append ..⟩

theorem cut_of_scan {done ts : List Token} {cs : List Char} (h : scan done cs = some ts) :
    ∃ more, Cut cs more ∧ ts = done.reverse ++ more := by
  fun_induction scan done cs with
  | case1 done =>
      cases h
      exact ⟨[], .nil, (List.append_nil _).symm⟩
  | case2 done rest ih => exact cut_token (@Lexeme.word _ ['['] _ (by simp [words])) (ih h)
  | case3 done rest ih => exact cut_token (@Lexeme.word _ [']'] _ (by simp [words])) (ih h)
  | case4 done rest ih => exact cut_token (@Lexeme.word _ ['{'] _ (by simp [words])) (ih h)
  | case5 done rest ih => exact cut_token (@Lexeme.word _ ['}'] _ (by simp [words])) (ih h)
  | case6 done rest ih => exact cut_token (@Lexeme.word _ [','] _ (by simp [words])) (ih h)
  | case7 done rest ih => exact cut_token (@Lexeme.word _ [':'] _ (by simp [words])) (ih h)
  | case8 done rest ih => exact cut_token (@Lexeme.word _ nullChars _ (by simp [words])) (ih h)
  | case9 done rest ih =>
      exact cut_token (@Lexeme.word _ (boolChars true) _ (by simp [words])) (ih h)
  | case10 done rest ih =>
      exact cut_token (@Lexeme.word _ (boolChars false) _ (by simp [words])) (ih h)
  | case11 => cases h
  | case12 done cs s rest hs _ ih => exact cut_token (.string hs) (ih h)
  | case13 => cases h
  | case14 done cs n rest hn _ ih => exact cut_token (.negative hn) (ih h)
  | case15 done c cs _ _ _ _ _ _ _ _ _ _ _ hspace ih =>
      obtain ⟨more, hmore, rfl⟩ := ih h
      exact ⟨more, .space hspace hmore, rfl⟩
  | case16 => cases h
  | case17 done c cs _ _ _ _ _ _ _ _ _ _ _ _ n rest hn _ ih => exact cut_token (.number hn) (ih h)

/-! ## The texts of strings -/

theorem scan_space {c : Char} (h : isSpace c = true) (done : List Token) (cs : List Char) :
    scan done (c :: cs) = scan done cs := by
  simp only [isSpace, Bool.or_eq_true, decide_eq_true_eq] at h
  rcases h with ((rfl | rfl) | rfl) | rfl <;> simp [scan, isSpace]

theorem scan_spaces {blanks : List Char} (h : ∀ c ∈ blanks, isSpace c = true) (done : List Token)
    (cs : List Char) : scan done (blanks ++ cs) = scan done cs := by
  induction blanks with
  | nil => rfl
  | cons c blanks ih =>
      obtain ⟨hc, hblanks⟩ := List.forall_mem_cons.mp h
      rw [List.cons_append, scan_space hc, ih hblanks]

theorem spaces_of_cut {cs : List Char} (h : Cut cs []) : ∀ c ∈ cs, isSpace c = true := by
  generalize hts : ([] : List Token) = ts at h
  induction h with
  | nil => exact nofun
  | space hc _ ih => exact List.forall_mem_cons.mpr ⟨hc, ih hts⟩
  | token => cases hts

theorem scanString_of_cut {cs : List Char} {s : Option String} (h : Cut cs [.string s]) :
    ∃ before literal after, cs = before ++ '"' :: literal ∧ scanString literal = some (s, after) ∧
      (∀ c ∈ before, isSpace c = true) ∧ ∀ c ∈ after, isSpace c = true := by
  generalize hts : [Token.string s] = ts at h
  induction h with
  | nil => cases hts
  | @space c _ _ hc _ ih =>
      obtain ⟨before, literal, after, rfl, hscan, hbefore, hafter⟩ := ih hts
      have hspaces : ∀ d ∈ c :: before, isSpace d = true :=
        List.forall_mem_cons.mpr ⟨hc, hbefore⟩
      exact ⟨c :: before, literal, after, rfl, hscan, hspaces, hafter⟩
  | token hlexeme hrest =>
      cases hts
      cases hlexeme with
      | word hword => simp [words] at hword
      | string hscan => exact ⟨[], _, _, rfl, hscan, nofun, spaces_of_cut hrest⟩

/-- `text` is the text of the string `s`: a literal of it, with white space around it or none. -/
def IsStringText (text s : String) : Prop :=
  ∃ before body after, text.toList = before ++ '"' :: (body ++ '"' :: after) ∧ Literal body s ∧
    (∀ c ∈ before, isSpace c = true) ∧ ∀ c ∈ after, isSpace c = true

theorem read?_eq_some_iff {text : String} {t : Tree} :
    Tree.read? text = some t ↔ tokens? text = some t.tokens := by
  rw [Tree.read?, Option.bind_eq_bind, Option.bind_eq_some_iff]
  simp only [ofTokens?_eq_some_iff, exists_eq_right]

theorem read?_eq_string_iff {text s : String} :
    Tree.read? text = some (.string (some s)) ↔ IsStringText text s := by
  rw [read?_eq_some_iff, tokens?, Tree.tokens]
  constructor
  · intro h
    obtain ⟨more, hmore, hts⟩ := cut_of_scan h
    cases hts
    obtain ⟨before, literal, after, hcs, hscan, hbefore, hafter⟩ := scanString_of_cut hmore
    obtain ⟨body, rfl, hbody⟩ := scanString_eq_some_iff.mp hscan
    exact ⟨before, body, after, hcs, hbody, hbefore, hafter⟩
  · rintro ⟨before, body, after, hcs, hbody, hbefore, hafter⟩
    rw [hcs, scan_spaces hbefore, scan_string (scanString_eq_some_iff.mpr ⟨body, rfl, hbody⟩),
      ← List.append_nil after, scan_spaces hafter, scan]
    rfl

/-- A text is shorter than any text of it as a string. -/
theorem IsStringText.length_lt {text s : String} (h : IsStringText text s) :
    s.toList.length < text.toList.length := by
  obtain ⟨before, body, after, hcs, hbody, -, -⟩ := h
  have hlength := hbody.length_le
  rw [hcs]
  simp only [List.length_append, List.length_cons]
  omega

end Parley.Json
