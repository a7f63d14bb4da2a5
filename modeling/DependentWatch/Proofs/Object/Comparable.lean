import Mathlib.Data.List.Basic
import Mathlib.Data.Option.Basic
import DependentWatch.Proofs.Object.Decoding
import DependentWatch.Proofs.Routing.Filters
/-! Two objects have the same tree, but for the status and the bookkeeping, just where they have the
same content. -/
namespace DependentWatch

theorem TextMap.toJson_inj {m n : TextMap} (h : m.toJson = n.toJson) : m = n := by
  have hkeys (m : TextMap) :
      ((m.entries.map fun e => (e.1, Json.str e.2)).map Prod.fst).Nodup := by
    rw [List.map_map]
    exact nodup_keys_of_inOrder m.sorted
  refine ext (eq_of_lookup_eq m.sorted n.sorted fun k => ?_)
  have hk := (Json.ofFields_eq_iff (hkeys m) (hkeys n)).1 h k
  rw [lookup_map_value (fun _ v => Json.str v), lookup_map_value (fun _ v => Json.str v)] at hk
  exact Option.map_injective (fun _ _ => Json.str.inj) hk

theorem OwnerReference.nodup_fields (r : OwnerReference) : (r.fields.map Prod.fst).Nodup := by
  change ["apiVersion", "blockOwnerDeletion", "controller", "kind", "name", "uid"].Nodup
  decide

theorem OwnerReference.toJson_inj {r s : OwnerReference} (h : r.toJson = s.toJson) : r = s := by
  have he : r.fields = s.fields := (Json.ofPresent_inj (by rfl) r.nodup_fields).1 h
  have hbool (a b : Option Bool) : a.map Json.bool = b.map Json.bool ↔ a = b :=
    (Option.map_injective fun _ _ => Json.bool.inj).eq_iff
  simp only [fields, List.cons.injEq, Prod.mk.injEq, true_and, and_true, Option.some.injEq,
    Json.str.injEq, hbool] at he
  obtain ⟨hversion, hblock, hcontroller, hkind, hname, huid⟩ := he
  cases r
  cases s
  simp_all

namespace ObjectMeta

theorem nodup_keys (m : ObjectMeta) : ((m.bookkeeping ++ m.content).map Prod.fst).Nodup := by
  change ["managedFields", "resourceVersion", "annotations", "creationTimestamp",
    "deletionGracePeriodSeconds", "deletionTimestamp", "finalizers", "generateName", "generation",
    "labels", "name", "namespace", "ownerReferences", "selfLink", "uid"].Nodup
  decide

theorem nodup_content (m : ObjectMeta) : (m.content.map Prod.fst).Nodup :=
  m.nodup_keys.sublist ((List.sublist_append_right ..).map Prod.fst)

theorem map_text_inj {a b : Option Timestamp} (ha : ∀ t, a = some t → t.Placed)
    (hb : ∀ t, b = some t → t.Placed) :
    (a.map fun t => Json.str t.text) = (b.map fun t => Json.str t.text) ↔ a = b := by
  refine ⟨fun h => ?_, fun h => h ▸ rfl⟩
  cases a with
  | none => exact (Option.map_eq_none_iff.1 h.symm).symm
  | some t =>
    obtain ⟨u, rfl, hu⟩ := Option.map_eq_some_iff.1 h.symm
    rw [Timestamp.text_inj (hb u rfl) (ha t rfl) (Json.str.inj hu)]

theorem content_eq_iff {m n : ObjectMeta} (hm : m.Placed) (hn : n.Placed) :
    m.content = n.content ↔
      m = { n with resourceVersion := m.resourceVersion, managedFields := m.managedFields } := by
  have hmap (a b : Option TextMap) : a.map TextMap.toJson = b.map TextMap.toJson ↔ a = b :=
    (Option.map_injective fun _ _ => TextMap.toJson_inj).eq_iff
  have hstr (a b : Option String) : a.map Json.str = b.map Json.str ↔ a = b :=
    (Option.map_injective fun _ _ => Json.str.inj).eq_iff
  have hint (a b : Option Int) : a.map Json.int = b.map Json.int ↔ a = b :=
    (Option.map_injective fun _ _ => Json.int.inj).eq_iff
  have htexts (a b : Option (List String)) :
      (a.map fun texts => Json.arr (texts.map .str)) = (b.map fun texts => Json.arr (texts.map .str)) ↔
        a = b :=
    (Option.map_injective fun _ _ h =>
      List.map_injective_iff.2 (fun _ _ => Json.str.inj) (Json.arr.inj h)).eq_iff
  have howners (a b : Option (List OwnerReference)) :
      (a.map fun rs => Json.arr (rs.map OwnerReference.toJson)) =
        (b.map fun rs => Json.arr (rs.map OwnerReference.toJson)) ↔ a = b :=
    (Option.map_injective fun _ _ h =>
      List.map_injective_iff.2 (fun _ _ => OwnerReference.toJson_inj) (Json.arr.inj h)).eq_iff
  simp only [content, List.cons.injEq, Prod.mk.injEq, true_and, and_true, hmap, hstr, hint, htexts,
    howners, map_text_inj hm.creation hn.creation, map_text_inj hm.deletion hn.deletion]
  cases m
  simp only [mk.injEq, true_and]

theorem erase_toJson (m : ObjectMeta) :
    (m.toJson.erase "resourceVersion").erase "managedFields" = .ofPresent m.content := by
  rw [toJson, Json.erase_ofPresent m.nodup_keys,
    Json.erase_ofPresent (m.nodup_keys.sublist (List.filter_sublist.map Prod.fst))]
  simp [bookkeeping, content]

end ObjectMeta

namespace Object

/-- The fields of an object whose metadata and other fields are these. -/
def fields (o : Object) (metadata : Json) (other : List (String × Json)) : List (String × Json) :=
  o.typeFields ++ ("metadata", metadata) :: other

theorem map_fst_fields (o : Object) (metadata : Json) (other : List (String × Json)) :
    (o.fields metadata other).map Prod.fst = o.known ++ other.map Prod.fst := by
  simp [fields, known]

theorem nodup_known (o : Object) : o.known.Nodup := by
  unfold known typeFields
  split <;> simp

theorem nodup_fields (o : Object) (metadata : Json) {other : List (String × Json)}
    (horder : Json.InOrder other) (hunknown : ∀ e ∈ other, e.1 ∉ o.known) :
    ((o.fields metadata other).map Prod.fst).Nodup := by
  rw [map_fst_fields]
  refine List.nodup_append.2 ⟨o.nodup_known, nodup_keys_of_inOrder horder, fun k hk l hl he => ?_⟩
  obtain ⟨e, hmem, rfl⟩ := List.mem_map.1 hl
  exact hunknown e hmem (he ▸ hk)

theorem filter_fields (o : Object) (metadata : Json) (other : List (String × Json)) :
    (o.fields metadata other).filter (·.1 ≠ "status") =
      o.fields metadata (other.filter (·.1 ≠ "status")) := by
  simp only [fields, typeFields]
  split <;> simp

theorem map_fields (o : Object) (metadata : Json) {other : List (String × Json)}
    (hunknown : ∀ e ∈ other, e.1 ∉ o.known) (f : Json → Json) :
    ((o.fields metadata other).map fun e => (e.1, if e.1 = "metadata" then f e.2 else e.2)) =
      o.fields (f metadata) other := by
  have hne : ∀ e ∈ other, e.1 ≠ "metadata" := fun e he h => hunknown e he (by simp [known, h])
  have hother := Json.map_eq_self_of_ne hne f
  simp only [fields, typeFields]
  split <;> simp [hother]

theorem WellFormed.unknown_filter {o : Object} (h : o.WellFormed) (p : String × Json → Bool) :
    ∀ e ∈ o.other.filter p, e.1 ∉ o.known :=
  fun e he => h.unknown e (List.mem_filter.1 he).1

theorem comparable_eq {o : Object} (h : o.WellFormed) :
    o.comparable =
      .ofFields (o.fields (.ofPresent o.metadata.content) (o.other.filter (·.1 ≠ "status"))) := by
  have hunknown := h.unknown_filter (·.1 ≠ "status")
  have hkeys := nodup_fields o o.metadata.toJson (h.inOrder.filter _) hunknown
  rw [comparable, toJson, ← fields, Json.erase_ofFields (nodup_fields o _ h.inOrder h.unknown),
    filter_fields, Json.modify_ofFields hkeys, ← ObjectMeta.erase_toJson]
  exact congrArg Json.ofFields (map_fields o o.metadata.toJson hunknown fun metadata =>
    (metadata.erase "resourceVersion").erase "managedFields")

/-! What is found among the fields: under the names of the object its own values, and under any other
name what the others have. -/

theorem lookup_known {o : Object} {other : List (String × Json)}
    (hunknown : ∀ e ∈ other, e.1 ∉ o.known) {k : String} (h : k ∈ o.known) :
    other.lookup k = none := by
  refine lookup_eq_none_of_not_mem fun hm => ?_
  obtain ⟨e, he, rfl⟩ := List.mem_map.1 hm
  exact hunknown e he h

theorem lookup_fields_unknown {o : Object} {k : String} (h : k ∉ o.known) (metadata : Json)
    (other : List (String × Json)) : (o.fields metadata other).lookup k = other.lookup k := by
  simp only [known, List.mem_append, List.mem_singleton, not_or] at h
  rw [fields, List.lookup_append, lookup_eq_none_of_not_mem h.1, Option.none_or, lookup_cons_ite,
    if_neg h.2]

theorem lookup_fields_metadata (o : Object) (metadata : Json) (other : List (String × Json)) :
    (o.fields metadata other).lookup "metadata" = some metadata := by
  unfold fields typeFields
  split <;> simp [lookup_cons_ite]

theorem lookup_fields_version (o : Object) (metadata : Json) {other : List (String × Json)}
    (h : ∀ e ∈ other, e.1 ≠ "apiVersion") :
    (o.fields metadata other).lookup "apiVersion" = o.types.map fun t => .str t.apiVersion := by
  have hnone : other.lookup "apiVersion" = none := by
    refine lookup_eq_none_of_not_mem fun hm => ?_
    obtain ⟨e, he, hk⟩ := List.mem_map.1 hm
    exact h e he hk
  unfold fields typeFields
  cases o.types <;> simp [lookup_cons_ite, hnone]

theorem lookup_fields_kind {o : Object} {t : TypeMeta} (h : o.types = some t) (metadata : Json)
    (other : List (String × Json)) :
    (o.fields metadata other).lookup "kind" = some (.str t.kind) := by
  simp [fields, typeFields, h, lookup_cons_ite]

/-- Where the versions agree, both objects have a type or none has; then the kinds tell. -/
theorem types_eq {a b : Object}
    (hversion : (a.types.map fun t => Json.str t.apiVersion) = b.types.map fun t => .str t.apiVersion)
    (hkind : ∀ s t, a.types = some s → b.types = some t → s.kind = t.kind) : a.types = b.types := by
  cases ha : a.types with
  | none =>
    rw [ha] at hversion
    exact (Option.map_eq_none_iff.1 hversion.symm).symm
  | some s =>
    rw [ha] at hversion
    obtain ⟨t, hb, hv⟩ := Option.map_eq_some_iff.1 hversion.symm
    have hk := hkind s t ha hb
    cases s
    cases t
    simp_all

/-- The tree of the rest of an object tells its content, and nothing else. -/
theorem comparable_eq_iff {a b : Object} (ha : a.WellFormed) (hb : b.WellFormed) :
    a.comparable = b.comparable ↔ a.SameContent b := by
  have hua := ha.unknown_filter (·.1 ≠ "status")
  have hub := hb.unknown_filter (·.1 ≠ "status")
  rw [comparable_eq ha, comparable_eq hb,
    Json.ofFields_eq_iff (nodup_fields a _ (ha.inOrder.filter _) hua)
      (nodup_fields b _ (hb.inOrder.filter _) hub)]
  constructor
  · intro h
    have htypes : a.types = b.types := by
      refine types_eq ?_ fun s t hs ht => ?_
      · have hversion := h "apiVersion"
        rwa [lookup_fields_version _ _ fun e he => ha.unversioned e (List.mem_filter.1 he).1,
          lookup_fields_version _ _ fun e he => hb.unversioned e (List.mem_filter.1 he).1] at hversion
      · have hkind := h "kind"
        rw [lookup_fields_kind hs, lookup_fields_kind ht] at hkind
        exact Json.str.inj (Option.some.inj hkind)
    have hknown : a.known = b.known := by simp only [known, typeFields, htypes]
    refine ⟨htypes, ?_, eq_of_lookup_eq (ha.inOrder.filter _) (hb.inOrder.filter _) fun k => ?_⟩
    · have hmetadata := h "metadata"
      rw [lookup_fields_metadata, lookup_fields_metadata, Option.some.injEq] at hmetadata
      rw [← ObjectMeta.content_eq_iff ha.placed hb.placed]
      exact (Json.ofPresent_inj (by rfl) (ObjectMeta.nodup_content _)).1 hmetadata
    -- The trees say nothing about the others under a known name, but there are none.
    · by_cases hk : k ∈ a.known
      · rw [lookup_known hua hk, lookup_known hub (hknown ▸ hk)]
      · have hfound := h k
        rwa [lookup_fields_unknown hk, lookup_fields_unknown (hknown ▸ hk)] at hfound
  · intro h k
    have hfields (metadata : Json) (other : List (String × Json)) :
        a.fields metadata other = b.fields metadata other := by
      simp only [fields, typeFields, h.types]
    rw [hfields, h.other, (ObjectMeta.content_eq_iff ha.placed hb.placed).2 h.metadata]

end Object
end DependentWatch
