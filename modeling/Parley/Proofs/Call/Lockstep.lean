import Parley.Proofs.Call.Likeness

/-!
# Steps that a participant cannot tell apart

Two calls are alike to a participant, and both take the same step: for the participant, for
everyone, or for their own user. They are alike afterwards, and the participant was sent the same.
In the order of the code, one lemma says so for each operation on the participant's link.

A report names a link by its number, which differs. What it says is that the link was the first or
the second and so on that was made to the participant (`Call.place`).
-/

namespace Parley

/-! ## Entries of one key -/

/-- At most one entry of a table has a given key. -/
theorem Table.toList_filter {α : Type} (t : Table α) (k : String) :
    t.toList.filter (·.1 = k) = (t.find? k).toList.map (k, ·) := by
  cases hv : t.find? k with
  | none =>
      refine List.filter_eq_nil_iff.mpr fun e he hek => ?_
      have hek : e.1 = k := by simpa using hek
      rw [← hek, Table.find?_eq_some_iff.mpr he] at hv
      cases hv
  | some v =>
      obtain ⟨before, after, hsplit⟩ := List.append_of_mem (Table.find?_eq_some_iff.mp hv)
      have hordered : (before ++ (k, v) :: after).Pairwise fun a b => a.1 < b.1 :=
        hsplit ▸ t.ordered
      obtain ⟨-, hrest, hbefore⟩ := List.pairwise_append.mp hordered
      have hsmall : before.filter (·.1 = k) = [] := by
        refine List.filter_eq_nil_iff.mpr fun e he hek => ?_
        have hlt := hbefore e he (k, v) List.mem_cons_self
        exact String.lt_irrefl k (of_decide_eq_true hek ▸ hlt)
      have hlarge : after.filter (·.1 = k) = [] := by
        refine List.filter_eq_nil_iff.mpr fun e he hek => ?_
        have hlt := (List.pairwise_cons.mp hrest).1 e he
        exact String.lt_irrefl k (of_decide_eq_true hek ▸ hlt)
      rw [hsplit, List.filter_append, hsmall, List.filter_cons_of_pos (by simp), hlarge]
      rfl

namespace Call

variable {κ : Type} [Connection κ] {r : String} {s s' : Setting κ} {c d : Call κ}

/-! ## Negotiation -/

theorem ensure_alike (h : Alike r c d) (hs : Setting.Alike r s s') :
    (∃ c' e d' e', c.ensure s r = (none, c', e) ∧ d.ensure s' r = (none, d', e') ∧
      Together r (c', e) (d', e')) ∨
    ∃ l n c' e d' e', c.ensure s r = (some l, c', e) ∧ d.ensure s' r = (some (l.number n), d', e') ∧
      Together r (c', e) (d', e') := by
  have hheld : d.held.getD {} = c.held.getD {} := by rw [h.held]
  unfold ensure
  rcases h.find? with ⟨hc, hd⟩ | ⟨l, n, hc, hd⟩
  · rw [hc, hd, ← hs.connect, hheld]
    cases s.connect r with
    | none => exact .inl ⟨_, _, _, _, rfl, rfl, h.congr h.booth rfl rfl rfl rfl, rfl⟩
    | some peer =>
        refine .inr ⟨_, d.serial + 1, _, _, _, _, rfl, rfl, ⟨h.booth, ?_, h.earlier⟩, rfl⟩
        rw [Table.find?_insert_self, Table.find?_insert_self]
        rfl
  · rw [hc, hd]
    exact .inr ⟨l, n, _, _, _, _, rfl, rfl, .nothing h⟩

theorem Together.offer (h : Alike r c d) (hs : Setting.Alike r s s') :
    Together r (c.offer s r) (d.offer s' r) := by
  unfold Call.offer
  rcases ensure_alike h hs with ⟨_, _, _, _, hc, hd, ht⟩ | ⟨l, n, _, _, _, _, hc, hd, ht⟩
  · rw [hc, hd]
    exact ht
  · rw [hc, hd]
    refine .andThen ht fun h => ?_
    -- It is the same connection in both calls, so it makes the same offer.
    rw [Link.number_peer]
    cases (Connection.offer l.peer).result with
    | error _ => exact .putReported h l n _
    | ok description =>
        rw [Link.negotiate_number]
        exact .andThen (.putReported h _ n _) fun h => .say h _

theorem Together.invite (h : Alike r c d) (hs : Setting.Alike r s s') :
    Together r (c.invite s r) (d.invite s' r) := by
  unfold Call.invite
  rcases ensure_alike h hs with ⟨_, _, _, _, hc, hd, ht⟩ | ⟨l, n, _, _, _, _, hc, hd, ht⟩
  · rw [hc, hd]
    exact ht
  · rw [hc, hd]
    exact ht.andThen (f := fun c => (c, [_])) (g := fun c => (c, [_])) fun h => .say h _

theorem Together.applyDescription (h : Alike r c d) (l : Link κ) (n : Nat) (x : Description) :
    Together r (c.applyDescription r l x) (d.applyDescription r (l.number n) x) := by
  unfold Call.applyDescription
  refine .andThen (.putReported h l n _) fun h => ?_
  rw [Link.number_peer]
  cases (Connection.apply l.peer x).result with
  | error _ => exact .nothing h
  | ok answer =>
      have hflush := Link.flush_number n { l with peer := (Connection.apply l.peer x).after }
      refine .andThen (.say h _) fun h => ?_
      change Together r _ (Call.putReady r (Link.number n { l with peer := _ }).flush _)
      rw [hflush]
      exact .putReady h _ n _

theorem Together.receiveOffer (h : Alike r c d) (hs : Setting.Alike r s s') (x : Description) :
    Together r (c.receiveOffer s r x) (d.receiveOffer s' r x) := by
  have hyields : yieldsTo s' r = yieldsTo s r := by rw [yieldsTo, yieldsTo, hs.me]
  unfold Call.receiveOffer
  rcases ensure_alike h hs with ⟨_, _, _, _, hc, hd, ht⟩ | ⟨l, n, _, _, _, _, hc, hd, ht⟩
  · rw [hc, hd]
    exact ht
  · rw [hc, hd]
    dsimp only
    -- Whether the offers cross, and who withdraws then, does not depend on the number.
    rw [Link.number_peer, hyields]
    split
    · exact ht
    · refine .andThen ht fun h => ?_
      split
      · have hforget := Link.negotiate_number n l.forget.1
        change Together r _ (Call.applyDescription r (Link.number n l.forget.1).negotiate x _)
        rw [hforget]
        exact .applyDescription h _ n x
      · rw [Link.negotiate_number]
        exact .applyDescription h _ n x

theorem Together.receiveAnswer (h : Alike r c d) (x : Description) :
    Together r (c.receiveAnswer r x) (d.receiveAnswer r x) := by
  unfold Call.receiveAnswer
  rcases h.find? with ⟨hc, hd⟩ | ⟨l, n, hc, hd⟩
  · rw [hc, hd]
    exact .nothing h
  · rw [hc, hd]
    dsimp only
    rw [Link.number_peer]
    split
    · exact .nothing h
    · exact .applyDescription h l n x

theorem Together.receiveDescription (h : Alike r c d) (hs : Setting.Alike r s s')
    (x : Description) :
    Together r (c.receiveDescription s r x) (d.receiveDescription s' r x) := by
  unfold Call.receiveDescription
  split
  · exact .receiveOffer h hs x
  · exact .receiveAnswer h x

theorem Together.receiveCandidate (h : Alike r c d) (x : Candidate) :
    Together r (c.receiveCandidate r x) (d.receiveCandidate r x) := by
  unfold Call.receiveCandidate
  rcases h.find? with ⟨hc, hd⟩ | ⟨l, n, hc, hd⟩
  · rw [hc, hd]
    exact .nothing h
  · rw [hc, hd]
    have hadmits : (l.number n).admits = l.admits := rfl
    dsimp only
    rw [hadmits, Link.number_peer]
    split
    · exact .nothing h
    · exact .putReported h l n _

/-! ## Messages -/

omit [Connection κ] in
theorem concerns_alike (hs : Setting.Alike r s s') (m : Message) :
    concerns s' m = concerns s m := by
  rw [concerns, concerns, hs.me]

theorem Together.onMessage {m : Message} (h : Alike m.sender c d)
    (hs : Setting.Alike m.sender s s') :
    Together m.sender (c.onMessage s m) (d.onMessage s' m) := by
  unfold Call.onMessage
  rw [concerns_alike hs m]
  split
  · exact .nothing h
  · split
    · rw [← h.held]
      split
      · exact .invite h hs
      · exact .nothing h
    · unfold Table.contains
      rcases h.find? with ⟨hc, hd⟩ | ⟨l, n, hc, hd⟩
      · rw [hc, hd]
        exact .invite h hs
      · rw [hc, hd]
        exact .nothing h
    · exact .offer h hs
    · rcases h.find? with ⟨hc, hd⟩ | ⟨l, n, hc, hd⟩
      · rw [hc, hd]
        exact .nothing h
      · rw [hc, hd]
        refine ⟨h.put l.clearMedia.1 n, ?_⟩
        change sentTo _ (if l.clearMedia.2 then _ else []) =
          sentTo _ (if l.clearMedia.2 then _ else [])
        split <;> rfl
    · split
      · exact .receiveDescription h hs _
      · exact .receiveCandidate h _
      · exact .nothing h
    · exact .nothing h

/-! ## Reports -/

/-- Which of the links made to a participant has a number, counted from zero. -/
def place (c : Call κ) (r : String) (serial : Nat) : Option Nat :=
  (c.made r).findIdx? (·.serial = serial)

omit [Connection κ] in
/-- The link that stands comes after those that were closed. -/
theorem place_eq_iff (hc : c.Proper) {l : Link κ} (hl : c.links.find? r = some l) (serial : Nat) :
    c.place r serial = some (c.earlier r).length ↔ l.serial = serial := by
  have hmade : c.made r = c.earlier r ++ [l] := by rw [made, hl]; rfl
  rw [place, hmade, List.findIdx?_append]
  constructor
  · intro hplace
    cases hold : (c.earlier r).findIdx? (·.serial = serial) with
    | none => 
        rw [hold] at hplace
        simpa using hplace
    | some i =>
        rw [hold, Option.some_or, Option.some.injEq] at hplace
        have hlt := (List.findIdx?_eq_some_iff_getElem.mp hold).1
        omega
  · rintro rfl
    have hold : (c.earlier r).findIdx? (·.serial = l.serial) = none := by
      refine List.findIdx?_eq_none_iff.mpr fun k hk => ?_
      obtain ⟨hretired, hremote⟩ := List.mem_filter.mp hk
      have hremote : k.remote = r := by simpa using hremote
      simpa using hc.apart k hretired l (hremote ▸ hl)
    rw [hold]
    simp

theorem Together.remove (h : Alike r c d) (hc : c.Proper) :
    Together r (c.remove r) (d.remove r) := by
  unfold Call.remove
  rcases h.find? with ⟨hcl, hdl⟩ | ⟨l, n, hcl, hdl⟩
  · rw [hcl, hdl]
    exact .nothing h
  · have hremote : l.remote = r := hc.remote r l hcl
    rw [hcl, hdl]
    refine ⟨⟨h.booth, ?_, ?_⟩, rfl⟩
    · rw [Table.find?_erase_self, Table.find?_erase_self]
    · have hclose : l.close.remote = r := hremote
      have hclose' : (l.number n).close.remote = r := hremote
      have hearlier := h.earlier
      unfold earlier at hearlier
      simp [earlier, hclose, hclose', hearlier]

/-- The two calls hear of the same link. -/
theorem Together.onSignal (h : Alike r c d) (hc : c.Proper) (hd : d.Proper) {m n : Nat}
    (hplace : c.place r m = d.place r n) (e : PeerEvent) :
    Together r (c.onSignal ⟨r, m, e⟩) (d.onSignal ⟨r, n, e⟩) := by
  unfold Call.onSignal
  rw [← h.ended]
  split
  · exact .nothing h
  · rcases h.find? with ⟨hcl, hdl⟩ | ⟨l, k, hcl, hdl⟩
    · rw [hcl, hdl]
      exact .nothing h
    · -- The report is of the link that stands in both calls or in neither.
      have hsame : l.serial = m ↔ k = n := by
        rw [← place_eq_iff hc hcl, hplace, h.earlier]
        exact place_eq_iff hd hdl n
      rw [hcl, hdl]
      dsimp only
      rw [Link.number_serial]
      by_cases hm : l.serial = m
      · rw [if_neg (not_not_intro hm), if_neg (not_not_intro (hsame.mp hm))]
        split
        · rename_i x
          rw [Link.gather_number]
          exact .putReady h _ k _
        · rename_i t
          exact ⟨h.put (l.addMedia t) k, rfl⟩
        · split
          · exact .remove h hc
          · exact .nothing h
      · rw [if_pos hm, if_pos fun hn => hm (hsame.mpr hn)]
        exact .nothing h

/-! ## Local media -/

omit [Connection κ] in
theorem Together.startMedia (h : Alike r c d) (video : Bool) :
    Together r (c.startMedia video) (d.startMedia video) := by
  unfold Call.startMedia
  rw [← h.ended, ← h.control, ← h.held]
  split
  · exact .nothing h
  · exact .andThen (.setControl h .pending) fun h => ⟨h, rfl⟩

/-- Offers to others only. -/
theorem apart_offerAll (s : Setting κ) {remotes : List String} (hr : r ∉ remotes) (c : Call κ) :
    Apart r c (offerAll s remotes c) := by
  induction remotes generalizing c with
  | nil => exact .nothing r c
  | cons remote rest ih =>
      rw [List.mem_cons, not_or] at hr
      exact .andThen (.of_confined (.offer s) hr.1) (ih hr.2 _)

/-- Of all the offers the participant sees the one that it gets. -/
theorem together_offer (s : Setting κ) {remotes : List String} (hnodup : remotes.Nodup)
    (hr : r ∈ remotes) (c : Call κ) : Together r (offerAll s remotes c) (c.offer s r) := by
  induction remotes generalizing c with
  | nil => cases hr
  | cons remote rest ih =>
      obtain ⟨hmem, hrest⟩ := List.nodup_cons.mp hnodup
      rw [offerAll]
      by_cases hremote : r = remote
      · subst hremote
        exact .then_apart ⟨.refl r _, rfl⟩ (apart_offerAll s hmem _)
      · have hr : r ∈ rest := (List.mem_cons.mp hr).resolve_left hremote
        have hapart : Apart r c (c.offer s remote) := .of_confined (.offer s) hremote
        have hs : Setting.Alike r s s := ⟨rfl, rfl⟩
        exact .after_apart hapart ((ih hrest hr _).trans (.offer hapart.alike.symm hs))

theorem Together.offerAll (h : Alike r c d) (hs : Setting.Alike r s s') {xs ys : List String}
    (hxs : xs.Nodup) (hys : ys.Nodup) (hmem : r ∈ xs ↔ r ∈ ys) :
    Together r (offerAll s xs c) (offerAll s' ys d) := by
  by_cases hr : r ∈ xs
  · have hd : Together r (Call.offerAll s' ys d) (d.offer s' r) :=
      together_offer s' hys (hmem.mp hr) d
    exact ((together_offer s hxs hr c).trans (.offer h hs)).trans hd.symm
  · exact (apart_offerAll s hr c).together (apart_offerAll s' (fun hy => hr (hmem.mpr hy)) d) h

omit [Connection κ] in
theorem mem_keys_iff (c : Call κ) : r ∈ c.links.keys ↔ (c.links.find? r).isSome := by
  constructor
  · intro hr
    obtain ⟨⟨_, l⟩, hmem, rfl⟩ := List.mem_map.mp hr
    rw [Table.find?_eq_some_iff.mpr hmem]
    rfl
  · intro hsome
    obtain ⟨l, hl⟩ := Option.isSome_iff_exists.mp hsome
    exact List.mem_map.mpr ⟨(r, l), Table.find?_eq_some_iff.mp hl, rfl⟩

omit [Connection κ] in
theorem mem_keys_alike (h : Alike r c d) : r ∈ c.links.keys ↔ r ∈ d.links.keys := by
  rw [mem_keys_iff, mem_keys_iff]
  rcases h.find? with ⟨hc, hd⟩ | ⟨l, n, hc, hd⟩
  · rw [hc, hd]
  · rw [hc, hd]
    exact iff_of_true rfl rfl

theorem Together.publish (h : Alike r c d) (hs : Setting.Alike r s s') (stream : MediaStream) :
    Together r (c.publish s stream) (d.publish s' stream) := by
  unfold Call.publish
  have hattach : Alike r
      { c with links := c.links.map fun _ l => l.attach stream, held := some stream }
      { d with links := d.links.map fun _ l => l.attach stream, held := some stream } := by
    refine h.map (f := fun l => l.attach stream) (fun _ _ => rfl) ?_ rfl rfl rfl rfl
    rw [booth, booth, h.control, h.epoch, h.ended]
  refine .andThen (.offerAll hattach hs (Table.nodup_keys _) (Table.nodup_keys _)
    (mem_keys_alike hattach)) fun h => ?_
  exact .andThen (.say h _) fun h => .setControl h .stop

theorem Together.onMedia (h : Alike r c d) (hs : Setting.Alike r s s') (epoch : Nat)
    (result : Except MediaError MediaStream) :
    Together r (c.onMedia s epoch result) (d.onMedia s' epoch result) := by
  unfold Call.onMedia
  rw [← h.ended, ← h.epoch]
  split
  · cases result with
    | ok stream => exact .say h _
    | error e => exact .nothing h
  · cases result with
    | ok stream => exact .publish h hs stream
    | error e => exact .andThen (.setControl h .start) fun h => .say h _

theorem Together.withdraw (h : Alike r c d) : Together r c.withdraw d.withdraw := by
  unfold Call.withdraw
  rw [← h.held]
  cases c.held with
  | none => exact .nothing h
  | some stream =>
      refine ⟨h.map (f := fun l => l.detach stream) (fun _ _ => rfl) ?_ rfl rfl rfl rfl, rfl⟩
      rw [booth, booth, h.control, h.epoch, h.ended]

theorem Together.leave (h : Alike r c d) : Together r c.leave d.leave := by
  unfold Call.leave
  by_cases hended : c.ended
  · rw [if_pos hended, if_pos (h.ended ▸ hended)]
    exact .nothing h
  · rw [if_neg hended, if_neg (h.ended ▸ hended)]
    have hepoch : Alike r { c with epoch := c.epoch + 1 } { d with epoch := d.epoch + 1 } :=
      h.congr (by rw [booth, booth, h.held, h.control, h.epoch, h.ended]) rfl rfl rfl rfl
    exact .andThen (.withdraw hepoch) fun h => .andThen (.say h _) fun h => .setControl h .start

/-- The links of a proper call are filed under their participants. -/
theorem filter_close (hc : c.Proper) :
    (c.links.values.map Link.close).filter (·.remote = r) =
      (c.links.find? r).toList.map Link.close := by
  have hfiled : c.links.values.filter (·.remote = r) = (c.links.find? r).toList := by
    have hkeys : c.links.toList.filter (·.2.remote = r) = c.links.toList.filter (·.1 = r) :=
      List.filter_congr fun e he => by rw [hc.remote e.1 e.2 (Table.find?_eq_some_iff.mpr he)]
    calc c.links.values.filter (·.remote = r)
        = (c.links.toList.filter (·.2.remote = r)).map (·.2) := List.filter_map
      _ = (c.links.find? r).toList := by
          rw [hkeys, Table.toList_filter, List.map_map]
          exact List.map_id _
  rw [← hfiled, List.filter_map]
  rfl

theorem Together.teardown (h : Alike r c d) (hc : c.Proper) (hd : d.Proper) :
    Together r c.teardown d.teardown := by
  unfold Call.teardown
  by_cases hended : c.ended
  · rw [if_pos hended, if_pos (h.ended ▸ hended)]
    exact .nothing h
  · rw [if_neg hended, if_neg (h.ended ▸ hended), ← h.held]
    refine .andThen ⟨⟨?_, rfl, ?_⟩, rfl⟩ fun h => .andThen (.setControl h .start) fun h => ⟨h, rfl⟩
    · rw [booth, booth, h.control, h.epoch]
    · -- Both calls close their links to the participant, or none has one.
      have hearlier := h.earlier
      unfold earlier at hearlier ⊢
      rw [List.filter_append, List.filter_append, filter_close hc, filter_close hd,
        List.length_append, List.length_append, hearlier]
      rcases h.find? with ⟨hcl, hdl⟩ | ⟨l, n, hcl, hdl⟩
      · rw [hcl, hdl]
      · rw [hcl, hdl]
        rfl

end Call

end Parley
