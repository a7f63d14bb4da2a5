import DependentWatch.Proofs.KindTexts
import DependentWatch.Proofs.Manifest.Reading
/-! When a `List` passes as a resource. The kind of a mapping is looked up twice: for a list under
the bare key, for a resource under any key that is this text behind its tags. -/
namespace DependentWatch
open Yaml (Value)

theorem Yaml.Value.same_str_iff {v : Value} {s : String} : v.same (.str s) = true ↔ v = .str s := by
  cases v <;> simp [same]

namespace Resource
variable {index : Nat} {entries : List (Value × Value)} {r : Resource}

/-- The kind of a resource is the text that its entries have for it. -/
theorem kind_of_ofEntries (h : ofEntries index entries = .ok r) :
    TextOrEmpty (under? "kind" entries) r.gvk.kind := by
  obtain ⟨header, hh, _, _, rfl⟩ := ofEntries_eq_ok_iff.1 h
  rw [GroupVersionKind.kind_ofApiVersion]
  exact hh.kind

theorem under?_kind_eq_some_iff (h : ofEntries index entries = .ok r) {v : Value} :
    under? "kind" entries = some v ↔ ∃ k, (k, v) ∈ entries ∧ IsText k "kind" := by
  obtain ⟨header, hh, _⟩ := ofEntries_eq_ok_iff.1 h
  exact hh.legible.under?_eq_some_iff (by simp)

/-- A resource has the kind that an entry says, with any tags at its key. -/
theorem kind_eq_iff (h : ofEntries index entries = .ok r) {kind : String} (hne : kind ≠ "") :
    r.gvk.kind = kind ↔ ∃ k v, (k, v) ∈ entries ∧ IsText k "kind" ∧ IsText v kind := by
  have hkind := kind_of_ofEntries h
  constructor
  · rintro rfl
    cases hv : under? "kind" entries with
    | none =>
      rw [hv] at hkind
      generalize r.gvk.kind = kind at hkind hne
      cases hkind
      exact absurd rfl hne
    | some v =>
      rw [hv] at hkind
      obtain ⟨k, he, hk⟩ := (under?_kind_eq_some_iff h).1 hv
      cases hkind with
      | present htext => exact ⟨k, v, he, hk, htext⟩
  · rintro ⟨k, v, he, hk, hv⟩
    rw [(under?_kind_eq_some_iff h).2 ⟨k, he, hk⟩] at hkind
    cases hkind with
    | present htext => exact Value.str.inj (htext.symm.trans hv)

/-- No two entries of a resource stand for its kind. -/
theorem kind_entry_unique (h : ofEntries index entries = .ok r) {k l v w : Value}
    (hv : (k, v) ∈ entries) (hk : IsText k "kind") (hw : (l, w) ∈ entries)
    (hl : IsText l "kind") : v = w := by
  have hfirst := (under?_kind_eq_some_iff h).2 ⟨k, hv, hk⟩
  have hsecond := (under?_kind_eq_some_iff h).2 ⟨l, hw, hl⟩
  exact Option.some.inj (hfirst.symm.trans hsecond)

end Resource

namespace DocumentResult
variable {index : Nat} {entries : List (Value × Value)} {r : Resource}

theorem valueAt?_eq_some {name : String} {v : Value} (h : valueAt? name entries = some v) :
    (.str name, v) ∈ entries := by
  obtain ⟨⟨k, w⟩, hfound, rfl⟩ := Option.map_eq_some_iff.1 h
  obtain rfl : k = .str name := Yaml.Value.same_str_iff.1 (by simpa using List.find?_some hfound)
  exact List.mem_of_find?_eq_some hfound

theorem exists_valueAt? {name : String} {v : Value} (h : (.str name, v) ∈ entries) :
    ∃ w, valueAt? name entries = some w := by
  rw [← Option.isSome_iff_exists, valueAt?, Option.isSome_map, List.find?_isSome]
  exact ⟨_, h, Yaml.Value.same_str_iff.2 rfl⟩

theorem isList_iff :
    isList entries = true ↔ ∃ v, valueAt? "kind" entries = some v ∧ v.untagged = .str "List" := by
  simp [isList, Option.bind_eq_some_iff, Resource.text?_eq_some_iff, Resource.IsText]

/-- The entry of the kind `List` has a tag at its key. -/
def HidesList (entries : List (Value × Value)) : Prop :=
  ∃ tag k v, (.tagged tag k, v) ∈ entries ∧ k.untagged = .str "kind" ∧ v.untagged = .str "List"

/-- A resource of kind `List` comes from a mapping that is seen to be one, or that hides it. -/
theorem kind_eq_list_iff (h : Resource.ofEntries index entries = .ok r) :
    r.gvk.kind = "List" ↔ isList entries = true ∨ HidesList entries := by
  rw [Resource.kind_eq_iff h (by decide)]
  constructor
  · rintro ⟨k, v, he, hk, hv⟩
    cases k with
    | str s =>
      obtain rfl : s = "kind" := by simpa [Resource.IsText, Value.untagged] using hk
      obtain ⟨w, hw⟩ := exists_valueAt? he
      -- No other entry stands for the kind, so both look-ups find the same value.
      have hsame : v = w := Resource.kind_entry_unique h he rfl (valueAt?_eq_some hw) rfl
      exact .inl (isList_iff.2 ⟨w, hw, hsame ▸ hv⟩)
    | tagged tag k => exact .inr ⟨tag, k, v, he, hk, hv⟩
    | _ => simp [Resource.IsText, Value.untagged] at hk
  · rintro (hl | ⟨tag, k, v, he, hk, hv⟩)
    · obtain ⟨v, hv, htext⟩ := isList_iff.1 hl
      exact ⟨_, v, valueAt?_eq_some hv, rfl, htext⟩
    · exact ⟨_, v, he, hk, hv⟩

/-- The mappings that a document has its resources from: itself, or for a list its items. -/
inductive Describes : DocumentResult → List (Value × Value) → Prop
  | single {entries : List (Value × Value)} (single : isList entries = false) :
      Describes (some (.mapping entries)) entries
  | item {entries fields : List (Value × Value)} {vs : List Value} {v : Value}
      (list : isList entries = true) (items : valueAt? "items" entries = some (.sequence vs))
      (member : v ∈ vs) (h : v.untagged = .mapping fields) :
      Describes (some (.mapping entries)) fields

/-- Nothing that a document stands for is a list, but where a mapping hides it. -/
theorem StandsFor.exists_list_iff {d : DocumentResult} {rs : List Resource}
    (h : d.StandsFor index rs) :
    (∃ r ∈ rs, r.gvk.kind = "List") ↔ ∃ entries, d.Describes entries ∧ HidesList entries := by
  have hread {entries : List (Value × Value)} {r : Resource} (single : isList entries = false)
      (hr : Resource.ofEntries index entries = .ok r) :
      r.gvk.kind = "List" ↔ HidesList entries := by
    simp [kind_eq_list_iff hr, single]
  constructor
  · rintro ⟨r, hr, hkind⟩
    cases h with
    | nothing => simp at hr
    | @resource entries _ single he =>
      obtain rfl := List.mem_singleton.1 hr
      exact ⟨entries, .single single, (hread single he).1 hkind⟩
    | list list hitems hall =>
      obtain ⟨v, hv, entries, hentries, single, he⟩ := exists_related_of_mem hall r hr
      exact ⟨entries, .item list hitems hv hentries, (hread single he).1 hkind⟩
  · rintro ⟨entries, hd, hides⟩
    cases h with
    | nothing => cases hd
    | resource single he =>
      cases hd with
      | single => exact ⟨_, List.mem_singleton_self _, (hread single he).2 hides⟩
      | item list => simp [single] at list
    | list list hitems hall =>
      cases hd with
      | single single => simp [single] at list
      | item _ hitems' hv hfields =>
        obtain rfl := Value.sequence.inj (Option.some.inj (hitems.symm.trans hitems'))
        obtain ⟨r, hr, entries', hentries, single, he⟩ := exists_related_of_mem hall.flip _ hv
        obtain rfl := Value.mapping.inj (hentries.symm.trans hfields)
        exact ⟨r, hr, (hread single he).2 hides⟩

end DocumentResult

namespace Manifest
open DocumentResult

theorem mem_resources_cons {index : Nat} {d : DocumentResult} {ds : List DocumentResult}
    {r : Resource} :
    r ∈ (ofDocuments index (d :: ds)).resources ↔
      ∃ rs, d.StandsFor index rs ∧ (r ∈ rs ∨ r ∈ (ofDocuments (index + 1) ds).resources) := by
  obtain ⟨rs, hread, hd⟩ | ⟨e, hread, _⟩ := d.resources_cases index
  · simp only [ofDocuments, hread, List.mem_append]
    refine ⟨fun hr => ⟨rs, hd, hr⟩, ?_⟩
    rintro ⟨rs', hd', hr⟩
    rwa [hd.unique hd']
  · simp only [ofDocuments, hread, List.not_mem_nil, false_iff]
    rintro ⟨rs, hd, _⟩
    simp [resources_eq_ok_iff.2 hd] at hread

/-- What is delivered is what a document stands for, where all documents before it have no fault. -/
theorem mem_resources_iff {index : Nat} {ds : List DocumentResult} {r : Resource} :
    r ∈ (ofDocuments index ds).resources ↔
      ∃ before d after rs, ds = before ++ d :: after ∧ Faultless index before ∧
        d.StandsFor (index + before.length) rs ∧ r ∈ rs := by
  induction ds generalizing index with
  | nil => simp [ofDocuments]
  | cons d ds ih =>
    have hlength (before : List DocumentResult) :
        index + (d :: before).length = index + 1 + before.length := by
      rw [List.length_cons]
      omega
    rw [mem_resources_cons, ih]
    constructor
    · rintro ⟨rs, hd, hr | ⟨before, d', after, rs', rfl, hbefore, hd', hr⟩⟩
      · exact ⟨[], d, ds, rs, rfl, faultless_nil, hd, hr⟩
      · refine ⟨d :: before, d', after, rs', rfl, ?_, (hlength before).symm ▸ hd', hr⟩
        exact faultless_cons.2 ⟨hd.not_fault, hbefore⟩
    · rintro ⟨before, d', after, rs', heq, hbefore, hd', hr⟩
      cases before with
      | nil =>
        obtain ⟨rfl, _⟩ := List.cons.inj heq
        exact ⟨rs', hd', .inl hr⟩
      | cons b before =>
        obtain ⟨rfl, rfl⟩ := List.cons.inj heq
        obtain ⟨hsound, hbefore⟩ := faultless_cons.1 hbefore
        obtain ⟨rs, hd⟩ := exists_standsFor hsound
        exact ⟨rs, hd, .inr ⟨before, d', after, rs', rfl, hbefore, hlength before ▸ hd', hr⟩⟩

/-- A reader delivers what the manifest does, sooner or later. -/
theorem exists_take_iff (ds : List DocumentResult) (r : Resource) :
    (∃ k, some (.ok r) ∈ (ManifestReader.start ds).take k) ↔ r ∈ (ofDocuments 0 ds).resources := by
  have hanswers : .ok r ∈ (ofDocuments 0 ds).answers ↔ r ∈ (ofDocuments 0 ds).resources := by
    simp [answers]
  rw [← hanswers, List.mem_iff_getElem?]
  simp only [ManifestReader.take_start, List.mem_map, List.mem_range]
  constructor
  · rintro ⟨k, i, _, hi⟩
    exact ⟨i, hi⟩
  · rintro ⟨i, hi⟩
    exact ⟨i + 1, i, Nat.lt_succ_self i, hi⟩

/-- A list passes as a resource just where a mapping that describes one has a tag at the key of its
kind, in a document before the first fault; all at once and one by one the same is delivered. Where
the key has no tag, a document of kind `List` stands for its items, unless it has a fault, and an
item of this kind is refused. -/
theorem list_passes_iff_hidden (ds : List DocumentResult) :
    ((∃ r ∈ (ofDocuments 0 ds).resources, r.gvk.kind = "List") ↔
      ∃ before d after entries, ds = before ++ d :: after ∧ Faultless 0 before ∧
        (∀ e, ¬ d.Fault before.length e) ∧ d.Describes entries ∧ HidesList entries) ∧
    (∀ r, (∃ k, some (.ok r) ∈ (ManifestReader.start ds).take k) ↔
      r ∈ (ofDocuments 0 ds).resources) ∧
    ∀ index entries r, Resource.ofEntries index entries = .ok r → r.gvk.kind = "List" →
      ¬ HidesList entries →
      (∀ rs, StandsFor index (some (.mapping entries)) rs →
        ∃ vs, valueAt? "items" entries = some (.sequence vs) ∧
          List.Forall₂ (ItemFor index) vs rs) ∧
      ∀ v, v.untagged = .mapping entries → item index v = .error (.nestedList index) := by
  refine ⟨?_, exists_take_iff ds, fun index entries r hr hkind hseen => ?_⟩
  · simp only [mem_resources_iff, Nat.zero_add]
    constructor
    · rintro ⟨r, ⟨before, d, after, rs, rfl, hbefore, hd, hr⟩, hkind⟩
      obtain ⟨entries, hentries, hides⟩ := hd.exists_list_iff.1 ⟨r, hr, hkind⟩
      exact ⟨before, d, after, entries, rfl, hbefore, hd.not_fault, hentries, hides⟩
    · rintro ⟨before, d, after, entries, rfl, hbefore, hsound, hentries, hides⟩
      obtain ⟨rs, hd⟩ := exists_standsFor hsound
      obtain ⟨r, hr, hkind⟩ := hd.exists_list_iff.2 ⟨entries, hentries, hides⟩
      exact ⟨r, ⟨before, d, after, rs, rfl, hbefore, hd, hr⟩, hkind⟩
  · have list : isList entries = true :=
      ((kind_eq_list_iff hr).1 hkind).resolve_right hseen
    refine ⟨fun rs hd => ?_, fun v hv => by simp [item, hv, list]⟩
    cases hd with
    | resource single => simp [single] at list
    | list _ hitems hall => exact ⟨_, hitems, hall⟩

theorem list_passes_iff_hidden_seen :
    let pod : Value := .mapping [(.str "apiVersion", .str "v1"), (.str "kind", .str "Pod")]
    let entries : List (Value × Value) := [(.str "apiVersion", .str "v1"),
      (.str "kind", .tagged "x" (.str "List")), (.str "items", .sequence [pod])]
    let list : Resource := ⟨0, ⟨"", "v1", "List"⟩, none, none, .empty⟩
    (Resource.ofEntries 0 entries = .ok list ∧ list.gvk.kind = "List" ∧ ¬ HidesList entries ∧
      StandsFor 0 (some (.mapping entries)) [⟨0, ⟨"", "v1", "Pod"⟩, none, none, .empty⟩]) ∧
    (∃ vs, valueAt? "items" entries = some (.sequence vs) ∧
      List.Forall₂ (ItemFor 0) vs [⟨0, ⟨"", "v1", "Pod"⟩, none, none, .empty⟩]) ∧
    item 0 (.tagged "y" (.mapping entries)) = .error (.nestedList 0) := by
  intro pod entries list
  have hlist : Resource.ofEntries 0 entries = .ok list := rfl
  have hitems : StandsFor 0 (some (.mapping entries))
      [⟨0, ⟨"", "v1", "Pod"⟩, none, none, .empty⟩] := resources_eq_ok_iff.1 rfl
  have hseen : ¬ HidesList entries := by
    rintro ⟨tag, k, v, he, _⟩
    simp [entries] at he
  obtain ⟨_, _, hbare⟩ := list_passes_iff_hidden [some (.mapping entries)]
  obtain ⟨hdocument, hitem⟩ := hbare 0 entries list hlist rfl hseen
  exact ⟨⟨hlist, rfl, hseen, hitems⟩, hdocument _ hitems, hitem _ rfl⟩

/-- A mapping of kind `List` with a tag at the key, as a document and as an item. -/
theorem hidden_list_passes :
    let hidden : Value :=
      .mapping [(.str "apiVersion", .str "v1"), (.tagged "x" (.str "kind"), .str "List")]
    let list : Value := .mapping [(.str "kind", .str "List"), (.str "items", .sequence [hidden])]
    let r : Resource := ⟨0, ⟨"", "v1", "List"⟩, none, none, .empty⟩
    ofDocuments 0 [some hidden] = ⟨[r], none⟩ ∧ ofDocuments 0 [some list] = ⟨[r], none⟩ :=
  ⟨rfl, rfl⟩

end Manifest
end DependentWatch
