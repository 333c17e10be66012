import Parley.Json.Grammar

/-!
# Trees and their tokens

A tree is spelled by exactly one list of tokens, and the machine takes a list of tokens to a tree if
and only if it is that one. For one direction the machine is run on the tokens of a tree, above any
stack. For the other, a state spells the tokens that led to it: what its stack has open, then what
is still in its hands (`State.spelled`). A step adds its token to the spelling, and what is spelled
by the state after a complete value with nothing open is that value.
-/

namespace Parley.Json

/-! ## Spelling -/

mutual

def Tree.tokens : Tree → List Token
  | .null => [.null]
  | .bool b => [.bool b]
  | .number n => [.number n]
  | .string s => [.string s]
  | .array items => .openArray :: itemTokens items
  | .object members => .openObject :: memberTokens members

/-- Items and the closing bracket. -/
def itemTokens : List Tree → List Token
  | [] => [.closeArray]
  | t :: rest => t.tokens ++ moreItemTokens rest

/-- Items after the first, each with its comma, and the closing bracket. -/
def moreItemTokens : List Tree → List Token
  | [] => [.closeArray]
  | t :: rest => .comma :: (t.tokens ++ moreItemTokens rest)

def memberTokens : List (Option String × Tree) → List Token
  | [] => [.closeObject]
  | (k, t) :: rest => .string k :: .colon :: (t.tokens ++ moreMemberTokens rest)

def moreMemberTokens : List (Option String × Tree) → List Token
  | [] => [.closeObject]
  | (k, t) :: rest => .comma :: .string k :: .colon :: (t.tokens ++ moreMemberTokens rest)

end

/-! ## The machine on the tokens of a tree -/

theorem State.run_cons (s : State) (t : Token) (ts : List Token) :
    s.run (t :: ts) = (s.step t).bind fun s => s.run ts := by
  rw [State.run, List.foldlM_cons]
  rfl

/-- No tree begins with a closing bracket, so a first item is read like any other. -/
theorem run_firstItem (t : Tree) (stack : List Pending) (ts : List Token) :
    (State.firstItem stack).run (t.tokens ++ ts) =
      (State.value (.items [] :: stack)).run (t.tokens ++ ts) := by
  cases t <;> rfl

mutual

theorem run_tokens : ∀ (t : Tree) (stack : List Pending) (ts : List Token),
    (State.value stack).run (t.tokens ++ ts) = (State.after t stack).run ts
  | .null, _, _ => rfl
  | .bool _, _, _ => rfl
  | .number _, _, _ => rfl
  | .string _, _, _ => rfl
  | .array [], _, _ => rfl
  | .array (t :: rest), stack, ts => by
    rw [Tree.tokens, itemTokens, List.cons_append, List.append_assoc]
    have hfirst := (run_firstItem t stack (moreItemTokens rest ++ ts)).trans
      (run_tokens t (.items [] :: stack) _)
    exact hfirst.trans (run_moreItemTokens rest t [] stack ts)
  | .object [], _, _ => rfl
  | .object ((k, t) :: rest), stack, ts => by
    rw [Tree.tokens, memberTokens, List.cons_append, List.cons_append, List.cons_append,
      List.append_assoc]
    exact (run_tokens t (.members [] k :: stack) _).trans
      (run_moreMemberTokens rest k t [] stack ts)

theorem run_moreItemTokens : ∀ (rest : List Tree) (t : Tree) (before : List Tree)
    (stack : List Pending) (ts : List Token),
    (State.after t (.items before :: stack)).run (moreItemTokens rest ++ ts) =
      (State.after (.array ((t :: before).reverse ++ rest)) stack).run ts
  | [], t, before, stack, ts => by
    rw [List.append_nil]
    rfl
  | u :: rest, t, before, stack, ts => by
    rw [moreItemTokens, List.cons_append, List.append_assoc]
    refine (run_tokens u (.items (t :: before) :: stack) _).trans ?_
    rw [run_moreItemTokens rest u (t :: before) stack ts, List.reverse_cons, List.append_assoc]
    rfl

theorem run_moreMemberTokens : ∀ (rest : List (Option String × Tree)) (k : Option String) (t : Tree)
    (before : List (Option String × Tree)) (stack : List Pending) (ts : List Token),
    (State.after t (.members before k :: stack)).run (moreMemberTokens rest ++ ts) =
      (State.after (.object (((k, t) :: before).reverse ++ rest)) stack).run ts
  | [], k, t, before, stack, ts => by
    rw [List.append_nil]
    rfl
  | (l, u) :: rest, k, t, before, stack, ts => by
    rw [moreMemberTokens, List.cons_append, List.cons_append, List.cons_append, List.append_assoc]
    refine (run_tokens u (.members ((k, t) :: before) l :: stack) _).trans ?_
    rw [run_moreMemberTokens rest l u ((k, t) :: before) stack ts, List.reverse_cons,
      List.append_assoc]
    rfl

end

/-! ## What a state has read -/

/-- Items, each with the comma after it. -/
def itemsBefore (items : List Tree) : List Token := items.flatMap fun t => t.tokens ++ [.comma]

/-- Members, each with the comma after it. -/
def membersBefore (members : List (Option String × Tree)) : List Token :=
  members.flatMap fun m => .string m.1 :: .colon :: (m.2.tokens ++ [.comma])

def Pending.spelled : Pending → List Token
  | .items before => .openArray :: itemsBefore before.reverse
  | .members before k => .openObject :: (membersBefore before.reverse ++ [.string k, .colon])

/-- The tokens of what is open, the outermost first. -/
def spelledStack (stack : List Pending) : List Token := stack.reverse.flatMap Pending.spelled

/-- The tokens that lead to a state. -/
def State.spelled : State → List Token
  | .value stack => spelledStack stack
  | .firstItem stack => spelledStack stack ++ [.openArray]
  | .firstKey stack => spelledStack stack ++ [.openObject]
  | .key before stack => spelledStack stack ++ .openObject :: membersBefore before.reverse
  | .colon before k stack =>
    spelledStack stack ++ .openObject :: (membersBefore before.reverse ++ [.string k])
  | .after t stack => spelledStack stack ++ t.tokens

theorem spelledStack_cons (p : Pending) (stack : List Pending) :
    spelledStack (p :: stack) = spelledStack stack ++ p.spelled := by
  simp [spelledStack]

theorem itemsBefore_append (items : List Tree) (t : Tree) :
    itemsBefore (items ++ [t]) = itemsBefore items ++ (t.tokens ++ [.comma]) := by
  simp [itemsBefore]

theorem membersBefore_append (members : List (Option String × Tree)) (k : Option String)
    (t : Tree) :
    membersBefore (members ++ [(k, t)]) =
      membersBefore members ++ .string k :: .colon :: (t.tokens ++ [.comma]) := by
  simp [membersBefore]

/-- An array that is complete, with its last item apart. -/
theorem itemTokens_append (items : List Tree) (t : Tree) :
    itemTokens (items ++ [t]) = itemsBefore items ++ (t.tokens ++ [.closeArray]) := by
  have hmore : ∀ us : List Tree, moreItemTokens (us ++ [t]) = .comma :: itemTokens (us ++ [t]) := by
    intro us
    cases us <;> rfl
  induction items with
  | nil => rfl
  | cons u us ih =>
      rw [List.cons_append, itemTokens, hmore, ih]
      simp [itemsBefore]

theorem memberTokens_append (members : List (Option String × Tree)) (k : Option String) (t : Tree) :
    memberTokens (members ++ [(k, t)]) =
      membersBefore members ++ .string k :: .colon :: (t.tokens ++ [.closeObject]) := by
  have hmore : ∀ ms : List (Option String × Tree),
      moreMemberTokens (ms ++ [(k, t)]) = .comma :: memberTokens (ms ++ [(k, t)]) := by
    intro ms
    cases ms <;> rfl
  induction members with
  | nil => rfl
  | cons m ms ih =>
      obtain ⟨l, u⟩ := m
      rw [List.cons_append, memberTokens, hmore, ih]
      simp [membersBefore]

theorem begin_spelled {stack : List Pending} {t : Token} {s : State}
    (h : State.begin stack t = some s) : s.spelled = spelledStack stack ++ [t] := by
  cases t <;> simp only [State.begin, Option.some.injEq, reduceCtorEq] at h <;> subst h <;> rfl

/-- A step adds its token to what is spelled. -/
theorem step_spelled {s s' : State} {t : Token} (h : s.step t = some s') :
    s'.spelled = s.spelled ++ [t] := by
  cases s with
  | value stack => exact begin_spelled h
  | firstItem stack =>
      have hopen : spelledStack (.items [] :: stack) = (State.firstItem stack).spelled :=
        spelledStack_cons ..
      by_cases hclose : t = .closeArray
      · subst hclose
        cases h
        simp [State.spelled, Tree.tokens, itemTokens]
      · rw [← hopen]
        refine begin_spelled ?_
        rwa [State.step] at h
        exact hclose
  | firstKey stack =>
      cases t <;> cases h
      · simp [State.spelled, Tree.tokens, memberTokens]
      · simp [State.spelled, membersBefore]
  | key before stack =>
      cases t <;> cases h
      simp [State.spelled]
  | colon before k stack =>
      cases t <;> cases h
      simp [State.spelled, spelledStack_cons, Pending.spelled]
  | after tree stack =>
      cases stack with
      | nil => cases h
      | cons p stack =>
          cases p with
          | items before =>
              cases t <;> cases h
              · simp [State.spelled, spelledStack_cons, Pending.spelled, Tree.tokens,
                  itemTokens_append]
              · simp [State.spelled, spelledStack_cons, Pending.spelled, itemsBefore_append]
          | members before k =>
              cases t <;> cases h
              · simp [State.spelled, spelledStack_cons, Pending.spelled, Tree.tokens,
                  memberTokens_append]
              · simp [State.spelled, spelledStack_cons, Pending.spelled, membersBefore_append]

theorem run_spelled {ts : List Token} {s s' : State} (h : s.run ts = some s') :
    s'.spelled = s.spelled ++ ts := by
  induction ts generalizing s with
  | nil =>
      cases h
      exact (List.append_nil _).symm
  | cons t ts ih =>
      rw [State.run_cons] at h
      obtain ⟨middle, hstep, hrest⟩ := Option.bind_eq_some_iff.mp h
      rw [ih hrest, step_spelled hstep, List.append_assoc]
      rfl

/-! ## The grammar -/

/-- The tokens that are taken to a tree are the tokens of that tree. -/
theorem ofTokens?_eq_some_iff {ts : List Token} {t : Tree} :
    Tree.ofTokens? ts = some t ↔ ts = t.tokens := by
  constructor
  · intro h
    obtain ⟨s, hrun, hresult⟩ := Option.bind_eq_some_iff.mp h
    have hspelled := run_spelled hrun
    unfold State.result? at hresult
    split at hresult
    · cases hresult
      exact hspelled.symm
    · cases hresult
  · rintro rfl
    have hrun := run_tokens t [] []
    rw [List.append_nil] at hrun
    rw [Tree.ofTokens?, hrun]
    rfl

end Parley.Json
