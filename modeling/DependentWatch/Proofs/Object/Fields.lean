import DependentWatch.Object.Printer
import DependentWatch.Proofs.Lookup
/-! Trees of fields. Whatever the order in which fields are put into a tree, two trees are the same
if the same is found under each name. -/
namespace DependentWatch.Json

def InOrder (fields : List (String × Json)) : Prop := fields.Pairwise fun a b => a.1 < b.1

instance (fields : List (String × Json)) : Decidable (InOrder fields) :=
  inferInstanceAs (Decidable (fields.Pairwise fun a b => a.1 < b.1))

theorem mem_insertField {k : String} {v : Json} {e : String × Json} {es : List (String × Json)}
    (h : e ∈ insertField k v es) : e = (k, v) ∨ e ∈ es := by
  induction es with
  | nil => exact .inl (List.mem_singleton.1 h)
  | cons f fs ih =>
    simp only [insertField] at h
    split at h
    · exact List.mem_cons.1 h
    · split at h
      · exact (List.mem_cons.1 h).imp_right (List.mem_cons_of_mem f)
      · obtain rfl | h := List.mem_cons.1 h
        · exact .inr List.mem_cons_self
        · exact (ih h).imp_right (List.mem_cons_of_mem f)

theorem InOrder.insertField {es : List (String × Json)} (h : InOrder es) (k : String) (v : Json) :
    InOrder (insertField k v es) := by
  induction es with
  | nil => exact List.pairwise_singleton ..
  | cons f fs ih =>
    obtain ⟨hf, hfs⟩ := List.pairwise_cons.1 h
    simp only [Json.insertField]
    split
    · next hlt =>
      refine List.pairwise_cons.2 ⟨fun e he => ?_, h⟩
      obtain rfl | he := List.mem_cons.1 he
      · exact hlt
      · exact String.lt_trans hlt (hf e he)
    · next hge =>
      split
      · next he => exact List.pairwise_cons.2 ⟨fun e hm => he ▸ hf e hm, hfs⟩
      · next hne =>
        refine List.pairwise_cons.2 ⟨fun e he => ?_, ih hfs⟩
        obtain rfl | he := mem_insertField he
        · exact String.not_le.1 fun hle => hne (String.le_antisymm hle (String.not_lt.1 hge))
        · exact hf e he

theorem lookup_insertField (k l : String) (v : Json) (es : List (String × Json)) :
    (insertField k v es).lookup l = if l = k then some v else es.lookup l := by
  induction es with
  | nil => exact lookup_cons_ite k l v []
  | cons f fs ih =>
    obtain ⟨k', v'⟩ := f
    simp only [insertField]
    split
    · exact lookup_cons_ite k l v _
    · split
      · next hk =>
        subst hk
        rw [lookup_cons_ite, lookup_cons_ite]
        split <;> rfl
      · next hk =>
        rw [lookup_cons_ite, ih, lookup_cons_ite]
        by_cases hl : l = k'
        · rw [if_pos hl, if_pos hl, if_neg fun h => hk (h.symm.trans hl)]
        · rw [if_neg hl, if_neg hl]

theorem filter_insertField (k : String) (v : Json) (es : List (String × Json)) :
    (insertField k v es).filter (·.1 ≠ k) = es.filter (·.1 ≠ k) := by
  induction es with
  | nil => simp [insertField]
  | cons e es ih =>
    simp only [insertField]
    split
    · simp
    · split
      · next h => simp [← h]
      · rw [List.filter_cons, List.filter_cons, ih]

/-- The fields as a tree holds them. -/
def arrange (es : List (String × Json)) : List (String × Json) :=
  es.foldl (fun fields e => insertField e.1 e.2 fields) []

theorem ofFields_eq (es : List (String × Json)) : ofFields es = .obj (arrange es) := rfl

theorem inOrder_arrange (es : List (String × Json)) : InOrder (arrange es) := by
  suffices ∀ acc, InOrder acc →
      InOrder (es.foldl (fun fields e => Json.insertField e.1 e.2 fields) acc) from
    this [] .nil
  induction es with
  | nil => exact fun _ h => h
  | cons e es ih => exact fun acc h => ih _ (h.insertField e.1 e.2)

/-- Where each name stands once, what is put in is what is found. -/
theorem lookup_arrange {es : List (String × Json)} (h : (es.map Prod.fst).Nodup) (k : String) :
    (arrange es).lookup k = es.lookup k := by
  suffices ∀ acc : List (String × Json),
      (es.foldl (fun fields e => insertField e.1 e.2 fields) acc).lookup k =
        (es.lookup k).or (acc.lookup k) by
    rw [arrange, this, List.lookup_nil, Option.or_none]
  induction es with
  | nil => exact fun _ => rfl
  | cons e es ih =>
    intro acc
    obtain ⟨k', v⟩ := e
    obtain ⟨hk, hn⟩ := List.nodup_cons.1 h
    rw [List.foldl_cons, ih hn, lookup_insertField, lookup_cons_ite]
    split
    · next he => rw [he, lookup_eq_none_of_not_mem hk]; rfl
    · rfl

theorem ofFields_eq_iff {es fs : List (String × Json)} (he : (es.map Prod.fst).Nodup)
    (hf : (fs.map Prod.fst).Nodup) :
    ofFields es = ofFields fs ↔ ∀ k, es.lookup k = fs.lookup k := by
  simp only [ofFields_eq, obj.injEq]
  constructor
  · intro h k
    rw [← lookup_arrange he, ← lookup_arrange hf, h]
  · intro h
    refine eq_of_lookup_eq (inOrder_arrange es) (inOrder_arrange fs) fun k => ?_
    rw [lookup_arrange he, lookup_arrange hf, h]

theorem nodup_filter_keys {es : List (String × Json)} (h : (es.map Prod.fst).Nodup)
    (p : String × Json → Bool) : ((es.filter p).map Prod.fst).Nodup :=
  h.sublist (List.filter_sublist.map Prod.fst)

theorem erase_ofFields {es : List (String × Json)} (h : (es.map Prod.fst).Nodup) (k : String) :
    (ofFields es).erase k = ofFields (es.filter (·.1 ≠ k)) := by
  simp only [ofFields_eq, erase, obj.injEq]
  refine eq_of_lookup_eq ((inOrder_arrange es).filter _) (inOrder_arrange _) fun l => ?_
  rw [lookup_filter_ne, lookup_arrange h, lookup_arrange (nodup_filter_keys h _), lookup_filter_ne]

theorem modify_ofFields {es : List (String × Json)} (h : (es.map Prod.fst).Nodup) (k : String)
    (f : Json → Json) :
    (ofFields es).modify k f = ofFields (es.map fun e => (e.1, if e.1 = k then f e.2 else e.2)) := by
  have hn : ((es.map fun e => (e.1, if e.1 = k then f e.2 else e.2)).map Prod.fst).Nodup := by
    rw [List.map_map]
    exact h
  simp only [ofFields_eq, modify, obj.injEq]
  refine eq_of_lookup_eq ?_ (inOrder_arrange _) fun l => ?_
  · exact List.pairwise_map.2 (inOrder_arrange es)
  · have hl (fs : List (String × Json)) := lookup_map_value (fun k' v => if k' = k then f v else v) fs l
    rw [hl, lookup_arrange h, lookup_arrange hn, hl]

theorem map_eq_self_of_ne {es : List (String × Json)} {k : String} (h : ∀ e ∈ es, e.1 ≠ k)
    (f : Json → Json) : (es.map fun e => (e.1, if e.1 = k then f e.2 else e.2)) = es := by
  refine (List.map_congr_left fun e he => ?_).trans (List.map_id es)
  rw [if_neg (h e he)]
  rfl

/-! Fields that may be absent. -/

def present (es : List (String × Option Json)) : List (String × Json) :=
  es.filterMap fun (k, v) => v.map fun v => (k, v)

theorem ofPresent_eq (es : List (String × Option Json)) : ofPresent es = ofFields (present es) := rfl

theorem present_keys_sublist (es : List (String × Option Json)) :
    ((present es).map Prod.fst).Sublist (es.map Prod.fst) := by
  induction es with
  | nil => exact .slnil
  | cons e es ih =>
    obtain ⟨k, v⟩ := e
    cases v with
    | none => exact ih.cons k
    | some v => exact ih.cons_cons k

theorem lookup_present {es : List (String × Option Json)} (h : (es.map Prod.fst).Nodup)
    (k : String) : (present es).lookup k = (es.lookup k).join := by
  induction es with
  | nil => rfl
  | cons e es ih =>
    obtain ⟨k', v⟩ := e
    obtain ⟨hk, hn⟩ := List.nodup_cons.1 h
    rw [lookup_cons_ite]
    cases v with
    | none =>
      show (present es).lookup k = _
      rw [ih hn]
      split
      · next he => rw [he, lookup_eq_none_of_not_mem hk]; rfl
      · rfl
    | some v =>
      show ((k', v) :: present es).lookup k = _
      rw [lookup_cons_ite, ih hn]
      split <;> rfl

theorem present_cons (k : String) (v : Option Json) (es : List (String × Option Json)) :
    present ((k, v) :: es) = (v.map fun v => (k, v)).toList ++ present es := by
  cases v <;> rfl

theorem filter_present (es : List (String × Option Json)) (k : String) :
    (present es).filter (·.1 ≠ k) = present (es.filter (·.1 ≠ k)) := by
  induction es with
  | nil => rfl
  | cons e es ih =>
    obtain ⟨k', v⟩ := e
    rw [present_cons, List.filter_append, ih, List.filter_cons]
    by_cases hk : k' = k
    · cases v <;> simp [hk]
    · cases v <;> simp [hk, present_cons]

theorem erase_ofPresent {es : List (String × Option Json)} (h : (es.map Prod.fst).Nodup)
    (k : String) : (ofPresent es).erase k = ofPresent (es.filter (·.1 ≠ k)) := by
  rw [ofPresent_eq, erase_ofFields (h.sublist (present_keys_sublist es)), filter_present,
    ofPresent_eq]

/-- Trees with fields of the same names are the same only if each field is. -/
theorem ofPresent_inj {es fs : List (String × Option Json)}
    (hk : es.map Prod.fst = fs.map Prod.fst) (h : (es.map Prod.fst).Nodup) :
    ofPresent es = ofPresent fs ↔ es = fs := by
  refine ⟨fun he => ?_, fun he => he ▸ rfl⟩
  have hf : (fs.map Prod.fst).Nodup := hk ▸ h
  rw [ofPresent_eq, ofPresent_eq, ofFields_eq_iff (h.sublist (present_keys_sublist es))
    (hf.sublist (present_keys_sublist fs))] at he
  replace he (k : String) : (es.lookup k).join = (fs.lookup k).join := by
    rw [← lookup_present h, ← lookup_present hf, he]
  induction es generalizing fs with
  | nil => exact (List.map_eq_nil_iff.1 hk.symm).symm
  | cons e es ih =>
    obtain _ | ⟨⟨k, b⟩, fs⟩ := fs
    · cases hk
    obtain ⟨k', a⟩ := e
    obtain ⟨rfl, hkeys⟩ := List.cons.inj hk
    obtain ⟨hes, hn⟩ := List.nodup_cons.1 h
    obtain ⟨hfs, hnf⟩ := List.nodup_cons.1 hf
    have hab : a = b := by simpa [lookup_cons_ite] using he k'
    subst hab
    refine congrArg _ (ih hkeys hn hnf fun l => ?_)
    by_cases hl : l = k'
    · rw [hl, lookup_eq_none_of_not_mem hes, lookup_eq_none_of_not_mem hfs]
    · simpa [lookup_cons_ite, hl] using he l

/-! What is found in a tree. -/

/-- A tree of fields that stand in order. -/
def IsTree (j : Json) : Prop := ∃ fields, j = .obj fields ∧ InOrder fields

theorem isTree_ofFields (es : List (String × Json)) : (ofFields es).IsTree :=
  ⟨_, rfl, inOrder_arrange es⟩

theorem IsTree.erase {j : Json} (h : j.IsTree) (k : String) : (j.erase k).IsTree := by
  obtain ⟨fields, rfl, hf⟩ := h
  exact ⟨_, rfl, hf.filter _⟩

theorem IsTree.modify {j : Json} (h : j.IsTree) (k : String) (f : Json → Json) :
    (j.modify k f).IsTree := by
  obtain ⟨fields, rfl, hf⟩ := h
  exact ⟨_, rfl, List.pairwise_map.2 hf⟩

theorem field?_erase (j : Json) (k l : String) :
    (j.erase k).field? l = if l = k then none else j.field? l := by
  cases j with
  | obj fields => exact lookup_filter_ne fields k l
  | _ => exact (ite_self none).symm

theorem field?_modify (j : Json) (k l : String) (f : Json → Json) :
    (j.modify k f).field? l = if l = k then (j.field? l).map f else j.field? l := by
  cases j with
  | obj fields =>
    have h := lookup_map_value (fun k' v => if k' = k then f v else v) fields l
    refine h.trans ?_
    by_cases hl : l = k
    · simp only [hl, if_true]
      rfl
    · simp only [hl, if_false, Option.map_id']
      rfl
  | _ => exact (ite_self none).symm

theorem field?_ofFields {es : List (String × Json)} (h : (es.map Prod.fst).Nodup) (k : String) :
    (ofFields es).field? k = es.lookup k :=
  lookup_arrange h k

theorem field?_ofPresent {es : List (String × Option Json)} (h : (es.map Prod.fst).Nodup)
    (k : String) : (ofPresent es).field? k = (es.lookup k).join := by
  rw [ofPresent_eq, field?_ofFields (h.sublist (present_keys_sublist es)), lookup_present h]

end DependentWatch.Json
