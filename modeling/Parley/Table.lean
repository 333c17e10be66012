/-!
# Tables keyed by text

A table holds at most one value for each key and lists its entries in the order of the keys.
Texts are ordered by code point, which is the order of their UTF-8 bytes. The order is part of
the type, so that two tables with the same look-ups are equal (`Table.ext_find?`) and every
listing of a table is in key order.
-/

namespace Parley

/-- Entries in strictly ascending order of their keys. -/
structure Table (α : Type u) where
  entries : List (String × α)
  ordered : entries.Pairwise (fun a b => a.1 < b.1)
  deriving DecidableEq, Repr

namespace Table

variable {α : Type u} {β : Type v}

/-! ## Entry lists -/

/-- The value stored for `k`, if any. -/
def lookup (k : String) : List (String × α) → Option α
  | [] => none
  | (k', v) :: rest => if k = k' then some v else lookup k rest

/-- Puts `v` at the place of `k`, over the value that was there. -/
def place (k : String) (v : α) : List (String × α) → List (String × α)
  | [] => [(k, v)]
  | (k', v') :: rest =>
    if k < k' then (k, v) :: (k', v') :: rest
    else if k = k' then (k, v) :: rest
    else (k', v') :: place k v rest

theorem mem_place {k : String} {v : α} {e : String × α} {l : List (String × α)} :
    e ∈ place k v l → e = (k, v) ∨ e ∈ l := by
  induction l with
  | nil => simp [place]
  | cons hd tl ih =>
    obtain ⟨k', v'⟩ := hd
    rw [place]; split
    · simp
    · split
      · simp only [List.mem_cons]; exact fun h => h.imp_right .inr
      · simp only [List.mem_cons]
        rintro (h | h)
        · exact .inr (.inl h)
        · exact (ih h).imp_right .inr

theorem lt_of_not_lt_of_ne {a b : String} (h : ¬ a < b) (hne : a ≠ b) : b < a := by
  by_cases hba : b < a
  · exact hba
  · exact absurd (String.le_antisymm (String.not_lt.1 hba) (String.not_lt.1 h)) hne

theorem place_ordered (k : String) (v : α) {l : List (String × α)}
    (h : l.Pairwise (fun a b => a.1 < b.1)) :
    (place k v l).Pairwise (fun a b => a.1 < b.1) := by
  induction l with
  | nil => simp [place]
  | cons hd tl ih =>
    obtain ⟨k', v'⟩ := hd
    obtain ⟨hhd, htl⟩ := List.pairwise_cons.1 h
    rw [place]; split
    · rename_i hlt
      refine List.pairwise_cons.2 ⟨fun e he => ?_, h⟩
      rcases List.mem_cons.1 he with rfl | he
      · exact hlt
      · exact String.lt_trans hlt (hhd e he)
    · rename_i hnlt
      split
      · rename_i heq
        subst heq
        exact List.pairwise_cons.2 ⟨fun e he => hhd e he, htl⟩
      · rename_i hne
        refine List.pairwise_cons.2 ⟨fun e he => ?_, ih htl⟩
        rcases mem_place he with rfl | he
        · exact lt_of_not_lt_of_ne hnlt hne
        · exact hhd e he

/-- A key above all others is put at the end. -/
theorem place_eq_append {k : String} (v : α) {l : List (String × α)} (h : ∀ e ∈ l, e.1 < k) :
    place k v l = l ++ [(k, v)] := by
  induction l with
  | nil => rfl
  | cons hd tl ih =>
    obtain ⟨hhd, htl⟩ := List.forall_mem_cons.mp h
    have hne : k ≠ hd.1 := fun heq => String.lt_irrefl k (heq ▸ hhd)
    rw [place, if_neg fun hlt => String.lt_irrefl k (String.lt_trans hlt hhd), if_neg hne, ih htl]
    rfl

/-- Entries in the order of their keys find their places one after the other. -/
theorem place_of_ordered {k : String} {v : α} {done rest : List (String × α)}
    (h : (done ++ (k, v) :: rest).Pairwise fun a b => a.1 < b.1) :
    place k v done = done ++ [(k, v)] :=
  place_eq_append v fun e he => (List.pairwise_append.mp h).2.2 e he (k, v) List.mem_cons_self

theorem lookup_place_self (k : String) (v : α) (l : List (String × α)) :
    lookup k (place k v l) = some v := by
  induction l with
  | nil => simp [place, lookup]
  | cons hd tl ih =>
    obtain ⟨k', v'⟩ := hd
    rw [place]; split
    · simp [lookup]
    · split
      · simp [lookup]
      · rename_i hne
        simp [lookup, hne, ih]

theorem lookup_place_of_ne {k k' : String} (v : α) (h : k' ≠ k) (l : List (String × α)) :
    lookup k' (place k v l) = lookup k' l := by
  induction l with
  | nil => simp [place, lookup, h]
  | cons hd tl ih =>
    obtain ⟨k'', v''⟩ := hd
    rw [place]; split
    · simp [lookup, h]
    · split
      · rename_i heq
        subst heq
        simp [lookup, h]
      · simp [lookup, ih]

theorem lookup_eq_some_of_mem {l : List (String × α)} (h : l.Pairwise (fun a b => a.1 < b.1))
    {e : String × α} (he : e ∈ l) : lookup e.1 l = some e.2 := by
  induction l with
  | nil => simp at he
  | cons hd tl ih =>
    obtain ⟨hhd, htl⟩ := List.pairwise_cons.1 h
    rcases List.mem_cons.1 he with rfl | he
    · simp [lookup]
    · have hlt := hhd e he
      have hne : e.1 ≠ hd.1 := fun heq => String.lt_irrefl _ (heq ▸ hlt)
      simp [lookup, hne, ih htl he]

theorem mem_of_lookup {k : String} {v : α} {l : List (String × α)} :
    lookup k l = some v → (k, v) ∈ l := by
  induction l with
  | nil => simp [lookup]
  | cons hd tl ih =>
    rw [lookup]; split
    · rename_i h
      intro hv
      cases hv
      simp [h]
    · intro hv
      exact List.mem_cons_of_mem _ (ih hv)

theorem lookup_filter_of_ne {k k' : String} (h : k' ≠ k) (l : List (String × α)) :
    lookup k' (l.filter (·.1 ≠ k)) = lookup k' l := by
  induction l with
  | nil => rfl
  | cons hd tl ih =>
    by_cases hk : hd.1 = k
    · have : k' ≠ hd.1 := fun h' => h (h'.trans hk)
      simp only [ne_eq, decide_not] at ih
      simp [hk, lookup, h, ih]
    · simp only [ne_eq, decide_not] at ih
      simp [hk, lookup, ih]

theorem lookup_filter_self (k : String) (l : List (String × α)) :
    lookup k (l.filter (·.1 ≠ k)) = none := by
  induction l with
  | nil => rfl
  | cons hd tl ih =>
    simp only [ne_eq, decide_not] at ih
    by_cases hk : hd.1 = k
    · simp [hk, ih]
    · have : k ≠ hd.1 := fun h' => hk h'.symm
      simp [hk, lookup, this, ih]

theorem lookup_map (f : String → α → β) (k : String) (l : List (String × α)) :
    lookup k (l.map fun e => (e.1, f e.1 e.2)) = (lookup k l).map (f k) := by
  induction l with
  | nil => rfl
  | cons hd tl ih =>
    by_cases h : k = hd.1
    · subst h; simp [lookup]
    · simp [lookup, h, ih]

theorem lookup_eq_none_of_forall_lt {k : String} {l : List (String × α)}
    (h : ∀ e ∈ l, k < e.1) : lookup k l = none := by
  induction l with
  | nil => rfl
  | cons hd tl ih =>
    have hne : k ≠ hd.1 := fun heq => String.lt_irrefl hd.1 (heq ▸ h hd List.mem_cons_self)
    simp [lookup, hne, ih fun e he => h e (List.mem_cons_of_mem _ he)]

theorem eq_of_lookup_eq {l₁ l₂ : List (String × α)}
    (h₁ : l₁.Pairwise (fun a b => a.1 < b.1)) (h₂ : l₂.Pairwise (fun a b => a.1 < b.1))
    (h : ∀ k, lookup k l₁ = lookup k l₂) : l₁ = l₂ := by
  induction l₁ generalizing l₂ with
  | nil =>
    cases l₂ with
    | nil => rfl
    | cons hd tl => simpa [lookup] using h hd.1
  | cons e₁ r₁ ih =>
    cases l₂ with
    | nil => simpa [lookup] using h e₁.1
    | cons e₂ r₂ =>
      obtain ⟨b₁, o₁⟩ := List.pairwise_cons.1 h₁
      obtain ⟨b₂, o₂⟩ := List.pairwise_cons.1 h₂
      have hk : e₁.1 = e₂.1 := by
        by_cases hlt : e₁.1 < e₂.1
        · have hn : lookup e₁.1 (e₂ :: r₂) = none :=
            lookup_eq_none_of_forall_lt fun e he => by
              rcases List.mem_cons.1 he with rfl | he
              · exact hlt
              · exact String.lt_trans hlt (b₂ e he)
          have hs : lookup e₁.1 (e₁ :: r₁) = some e₁.2 := by simp [lookup]
          rw [h e₁.1, hn] at hs
          cases hs
        · by_cases hne : e₁.1 = e₂.1
          · exact hne
          · have hgt := lt_of_not_lt_of_ne hlt hne
            have hn : lookup e₂.1 (e₁ :: r₁) = none :=
              lookup_eq_none_of_forall_lt fun e he => by
                rcases List.mem_cons.1 he with rfl | he
                · exact hgt
                · exact String.lt_trans hgt (b₁ e he)
            have hs : lookup e₂.1 (e₂ :: r₂) = some e₂.2 := by simp [lookup]
            rw [← h e₂.1, hn] at hs
            cases hs
      have hv : e₁.2 = e₂.2 := by
        have := h e₁.1
        simpa [lookup, hk] using this
      have he : e₁ = e₂ := Prod.ext hk hv
      subst he
      congr 1
      refine ih o₁ o₂ fun k => ?_
      by_cases hke : k = e₁.1
      · subst hke
        rw [lookup_eq_none_of_forall_lt b₁, lookup_eq_none_of_forall_lt b₂]
      · simpa [lookup, hke] using h k

/-! ## Operations -/

def empty : Table α := ⟨[], .nil⟩

instance : EmptyCollection (Table α) := ⟨empty⟩

instance : Inhabited (Table α) := ⟨empty⟩

def toList (t : Table α) : List (String × α) := t.entries

def keys (t : Table α) : List String := t.entries.map (·.1)

def values (t : Table α) : List α := t.entries.map (·.2)

def size (t : Table α) : Nat := t.entries.length

def isEmpty (t : Table α) : Bool := t.entries.isEmpty

def find? (t : Table α) (k : String) : Option α := lookup k t.entries

def contains (t : Table α) (k : String) : Bool := (t.find? k).isSome

/-- Stores `v` for `k`, over what was stored there. -/
def insert (t : Table α) (k : String) (v : α) : Table α :=
  ⟨place k v t.entries, place_ordered k v t.ordered⟩

def erase (t : Table α) (k : String) : Table α :=
  ⟨t.entries.filter (·.1 ≠ k), t.ordered.sublist List.filter_sublist⟩

def map (f : String → α → β) (t : Table α) : Table β :=
  ⟨t.entries.map fun e => (e.1, f e.1 e.2), by
    rw [List.pairwise_map]; exact t.ordered⟩

/-- Stores the entries of `l` one after the other; a later one replaces an earlier one. -/
def ofList (l : List (String × α)) : Table α :=
  l.foldl (fun t e => t.insert e.1 e.2) empty

/-! ## Look-ups -/

@[simp] theorem find?_empty (k : String) : (empty : Table α).find? k = none := rfl

@[simp] theorem find?_insert_self (t : Table α) (k : String) (v : α) :
    (t.insert k v).find? k = some v :=
  lookup_place_self k v t.entries

theorem find?_insert_of_ne (t : Table α) {k k' : String} (v : α) (h : k' ≠ k) :
    (t.insert k v).find? k' = t.find? k' :=
  lookup_place_of_ne v h t.entries

theorem find?_insert (t : Table α) (k k' : String) (v : α) :
    (t.insert k v).find? k' = if k' = k then some v else t.find? k' := by
  split
  · rename_i h
    subst h
    exact find?_insert_self t _ v
  · rename_i h
    exact find?_insert_of_ne t v h

@[simp] theorem find?_erase_self (t : Table α) (k : String) : (t.erase k).find? k = none :=
  lookup_filter_self k t.entries

theorem find?_erase_of_ne (t : Table α) {k k' : String} (h : k' ≠ k) :
    (t.erase k).find? k' = t.find? k' :=
  lookup_filter_of_ne h t.entries

@[simp] theorem find?_map (f : String → α → β) (t : Table α) (k : String) :
    (t.map f).find? k = (t.find? k).map (f k) :=
  lookup_map f k t.entries

theorem find?_eq_some_iff {t : Table α} {k : String} {v : α} :
    t.find? k = some v ↔ (k, v) ∈ t.toList :=
  ⟨mem_of_lookup, fun h => lookup_eq_some_of_mem t.ordered h⟩

/-- A table is known by its look-ups. -/
theorem ext_find? {t u : Table α} (h : ∀ k, t.find? k = u.find? k) : t = u := by
  cases t with
  | mk l hl =>
    cases u with
    | mk m hm =>
      congr
      exact eq_of_lookup_eq hl hm h

/-- Nothing changes if what is stored for a key is stored there once more. -/
theorem insert_of_find? {t : Table α} {k : String} {v : α} (h : t.find? k = some v) :
    t.insert k v = t := by
  refine ext_find? fun k' => ?_
  rw [find?_insert]
  split
  · rename_i hk
    rw [hk, h]
  · rfl

theorem nodup_keys (t : Table α) : t.keys.Nodup := by
  refine List.Pairwise.map _ (fun a b hlt heq => ?_) t.ordered
  rw [heq] at hlt
  exact String.lt_irrefl _ hlt

end Table

end Parley
