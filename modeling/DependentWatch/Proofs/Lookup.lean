/-! Lists of entries in which a new entry stands in front of what is left of the old ones. -/
namespace DependentWatch
variable {α β : Type} [BEq α] [LawfulBEq α]

/-- Entries that are left out by their key are missing, and the others are as they were. -/
theorem lookup_filter_key (entries : List (α × β)) (p : α → Bool) (x : α) :
    (entries.filter fun e => p e.1).lookup x = if p x then entries.lookup x else none := by
  induction entries with
  | nil => simp
  | cons e entries ih =>
    obtain ⟨k, v⟩ := e
    by_cases hx : x = k
    · subst hx
      cases hp : p x with
      | true => simp [hp]
      | false => simpa [List.filter_cons, hp] using ih
    · have hb : (x == k) = false := by simpa using hx
      have hc : ((k, v) :: entries).lookup x = entries.lookup x := by rw [List.lookup_cons, hb]
      rw [hc, ← ih, List.filter_cons]
      split
      · rw [List.lookup_cons, hb]
      · rfl

theorem mem_of_lookup {entries : List (α × β)} {k : α} {v : β} (h : entries.lookup k = some v) :
    (k, v) ∈ entries := by
  obtain ⟨before, after, rfl, _⟩ := List.lookup_eq_some_iff.1 h
  simp

/-- Where each key stands once, the entries are what is found. -/
theorem mem_iff_lookup {entries : List (α × β)} (h : (entries.map Prod.fst).Nodup) {k : α} {v : β} :
    (k, v) ∈ entries ↔ entries.lookup k = some v := by
  refine ⟨fun hm => ?_, mem_of_lookup⟩
  obtain ⟨before, after, rfl⟩ := List.append_of_mem hm
  refine List.lookup_eq_some_iff.2 ⟨before, after, rfl, fun e he => ?_⟩
  have hk : k ∉ before.map Prod.fst := by
    rw [List.map_append, List.nodup_append] at h
    exact fun hb => h.2.2 k hb k (by simp) rfl
  have hne : k ≠ e.1 := fun he' => hk (he' ▸ List.mem_map_of_mem he)
  simpa using hne

/-- Where each key stands once, the order of the entries does not matter. -/
theorem lookup_of_perm {as bs : List (α × β)} (h : as.Perm bs) (hn : (bs.map Prod.fst).Nodup)
    (k : α) : as.lookup k = bs.lookup k := by
  have hna : (as.map Prod.fst).Nodup := (h.map Prod.fst).nodup_iff.2 hn
  ext v
  rw [← mem_iff_lookup hna, ← mem_iff_lookup hn, h.mem_iff]

theorem lookup_map_value {γ : Type} (f : α → β → γ) (entries : List (α × β)) (x : α) :
    (entries.map fun e => (e.1, f e.1 e.2)).lookup x = (entries.lookup x).map (f x) := by
  induction entries with
  | nil => rfl
  | cons e entries ih =>
    rw [List.map_cons, List.lookup_cons, List.lookup_cons]
    split
    · next h => rw [eq_of_beq h, Option.map_some]
    · exact ih

theorem lookup_eq_none_of_not_mem {entries : List (α × β)} {x : α}
    (h : x ∉ entries.map Prod.fst) : entries.lookup x = none := by
  refine List.lookup_eq_none_iff.2 fun e he => ?_
  have hne : x ≠ e.1 := fun hx => h (hx ▸ List.mem_map_of_mem he)
  simpa using hne

theorem isSome_lookup_iff {entries : List (α × β)} {x : α} :
    (entries.lookup x).isSome ↔ x ∈ entries.map Prod.fst := by
  rw [List.lookup_isSome_iff, List.mem_map]
  refine exists_congr fun e => and_congr_right fun _ => ?_
  rw [beq_iff_eq, eq_comm]

variable [DecidableEq α]

theorem lookup_cons_ite (k x : α) (v : β) (entries : List (α × β)) :
    ((k, v) :: entries).lookup x = if x = k then some v else entries.lookup x := by
  by_cases h : x = k
  · rw [if_pos h, h, List.lookup_cons_self]
  · have hb : (x == k) = false := by simpa using h
    rw [if_neg h, List.lookup_cons, hb]

theorem lookup_filter_ne (entries : List (α × β)) (k x : α) :
    (entries.filter (·.1 ≠ k)).lookup x = if x = k then none else entries.lookup x := by
  have h := lookup_filter_key entries (fun y => decide (y ≠ k)) x
  by_cases hx : x = k
  · simpa [hx] using h
  · simpa [hx] using h

theorem lookup_put (entries : List (α × β)) (k x : α) (v : β) :
    ((k, v) :: entries.filter (·.1 ≠ k)).lookup x =
      if x = k then some v else entries.lookup x := by
  rw [lookup_cons_ite, lookup_filter_ne]
  split <;> rfl

omit [BEq α] [LawfulBEq α] in
theorem nodup_keys_put {entries : List (α × β)} (h : (entries.map Prod.fst).Nodup) (k : α) (v : β) :
    (((k, v) :: entries.filter (·.1 ≠ k)).map Prod.fst).Nodup := by
  refine List.nodup_cons.2 ⟨fun hm => ?_, (List.filter_sublist.map Prod.fst).nodup h⟩
  obtain ⟨e, he, hek⟩ := List.mem_map.1 hm
  have hne := (List.mem_filter.1 he).2
  simp [hek] at hne

/-- Entries in the order of their keys have each key once. -/
theorem nodup_keys_of_inOrder {entries : List (String × β)}
    (h : entries.Pairwise (fun a b => a.1 < b.1)) : (entries.map Prod.fst).Nodup := by
  refine List.pairwise_map.2 (h.imp ?_)
  intro a b hlt he
  exact String.lt_irrefl _ (he ▸ hlt)

/-- Entries in the order of their keys are what is found under the keys. -/
theorem eq_of_lookup_eq {as bs : List (String × β)} (ha : as.Pairwise (fun a b => a.1 < b.1))
    (hb : bs.Pairwise (fun a b => a.1 < b.1)) (h : ∀ k, as.lookup k = bs.lookup k) : as = bs := by
  have hka := nodup_keys_of_inOrder ha
  have hkb := nodup_keys_of_inOrder hb
  have hperm : as.Perm bs := by
    have hne {a b : String × β} (hlt : a.1 < b.1) : a ≠ b := fun he =>
      String.lt_irrefl _ (he ▸ hlt)
    refine (List.perm_ext_iff_of_nodup (ha.imp hne) (hb.imp hne)).2 fun e => ?_
    rw [mem_iff_lookup hka, mem_iff_lookup hkb, h]
  exact hperm.eq_of_pairwise (fun _ _ _ _ hlt hgt => absurd hgt (String.lt_asymm hlt)) ha hb

end DependentWatch
