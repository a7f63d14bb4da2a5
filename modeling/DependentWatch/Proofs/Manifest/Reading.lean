import DependentWatch.Manifest.Reader
import DependentWatch.Proofs.Manifest.Places
/-! What a manifest is read as, all at once or one resource after the other: what its documents
stand for, up to the first with a fault. -/
namespace DependentWatch
open Yaml (Value)

/-- The place in the manifest that an error names. -/
def WatchError.place? : WatchError → Option Nat
  | .manifestParse index _ | .invalidList index _ | .nestedList index => some index
  | _ => none

namespace Resource
variable {index : Nat} {entries : List (Value × Value)}

theorem index_of_ofEntries {r : Resource} (h : ofEntries index entries = .ok r) :
    r.index = index := by
  obtain ⟨fault, hf⟩ | ⟨r', hr⟩ := ofEntries_cases entries
  · simp [hf] at h
  · rw [hr, Except.ok.injEq] at h
    rw [← h]

theorem place_of_ofEntries {e : WatchError} (h : ofEntries index entries = .error e) :
    e.place? = some index := by
  obtain ⟨fault, hf⟩ | ⟨r', hr⟩ := ofEntries_cases entries
  · rw [hf, Except.error.injEq] at h
    rw [← h]
    rfl
  · simp [hr] at h

end Resource

namespace DocumentResult

/-- An item that is a resource: behind its tags a mapping that is no list and has no fault. -/
def isResource (v : Value) : Bool :=
  match v.untagged with
  | .mapping entries => !isList entries && (Resource.ofEntries 0 entries).isOk
  | _ => false

/-- The faults that an item can have: it is no mapping, it is a list, or its fields have one. -/
def ItemFault (index : Nat) (v : Value) (e : WatchError) : Prop :=
  match v.untagged with
  | .mapping entries =>
    if isList entries then e = .nestedList index
    else Resource.ofEntries index entries = .error e ∧ ∃ fault, e = .manifestParse index fault
  | _ => e = .invalidList index .itemNotMapping

theorem item_cases (index : Nat) (v : Value) :
    isResource v = true ∧ (∃ r, item index v = .ok r) ∨
    isResource v = false ∧ ∃ e, item index v = .error e ∧ ItemFault index v e := by
  cases hv : v.untagged with
  | mapping entries =>
    simp only [isResource, item, ItemFault, hv]
    by_cases hl : isList entries
    · exact .inr ⟨by simp [hl], _, if_pos hl, by simp [hl]⟩
    · obtain ⟨fault, h⟩ | ⟨r, h⟩ := Resource.ofEntries_cases entries
      · exact .inr ⟨by simp [h, Except.isOk, Except.toBool], _, (if_neg hl).trans (h index),
          by simp [hl, h]⟩
      · exact .inl ⟨by simp [hl, h, Except.isOk, Except.toBool], _, (if_neg hl).trans (h index)⟩
  | _ =>
    simp only [isResource, item, ItemFault, hv]
    exact .inr ⟨trivial, _, rfl, rfl⟩

/-- The items up to the first bad one are not looked at for themselves: its fault is that of the
list. -/
theorem mapM_item_error (index : Nat) {items : List Value} {v : Value}
    (h : items.find? (!isResource ·) = some v) :
    ∃ e, items.mapM (item index) = .error e ∧ ItemFault index v e := by
  obtain ⟨hv, before, after, rfl, hb⟩ := List.find?_eq_some_iff_append.1 h
  obtain ⟨hok, _⟩ | ⟨_, e, he, hf⟩ := item_cases index v
  · simp [hok] at hv
  · refine ⟨e, mapM_eq_error (fun x hx => ?_) he, hf⟩
    obtain ⟨_, hr⟩ | ⟨hbad, _⟩ := item_cases index x
    · exact hr
    · simpa [hbad] using hb x hx

/-- What an item of a list stands for: it is a mapping behind its tags, and no list. -/
def ItemFor (index : Nat) (v : Value) (r : Resource) : Prop :=
  ∃ entries, v.untagged = .mapping entries ∧ isList entries = false ∧
    Resource.ofEntries index entries = .ok r

/-- What the document at a place stands for: null for nothing, a mapping for one resource, and a
list for all its items. -/
inductive StandsFor (index : Nat) : DocumentResult → List Resource → Prop
  | nothing : StandsFor index (some .null) []
  | resource {entries : List (Value × Value)} {r : Resource} (single : isList entries = false)
      (h : Resource.ofEntries index entries = .ok r) :
      StandsFor index (some (.mapping entries)) [r]
  | list {entries : List (Value × Value)} {vs : List Value} {rs : List Resource}
      (list : isList entries = true) (items : valueAt? "items" entries = some (.sequence vs))
      (h : List.Forall₂ (ItemFor index) vs rs) : StandsFor index (some (.mapping entries)) rs

/-- What is wrong with the document at a place: it cannot be read, it is neither null nor a mapping
without a tag, it is no resource, or it is a list whose items are missing, no sequence, or not all
of them resources. -/
inductive Fault (index : Nat) : DocumentResult → WatchError → Prop
  | unreadable : Fault index none (.manifestParse index .malformed)
  | notMapping {v : Value} (null : v ≠ .null) (mapping : ∀ entries, v ≠ .mapping entries) :
      Fault index (some v) (.manifestParse index .notMapping)
  | resource {entries : List (Value × Value)} {e : WatchError} (single : isList entries = false)
      (h : Resource.ofEntries index entries = .error e) : Fault index (some (.mapping entries)) e
  | missingItems {entries : List (Value × Value)} (list : isList entries = true)
      (items : ∀ v, valueAt? "items" entries = some v → v = .null) :
      Fault index (some (.mapping entries)) (.invalidList index .missingItems)
  | itemsNotSequence {entries : List (Value × Value)} {v : Value} (list : isList entries = true)
      (items : valueAt? "items" entries = some v) (null : v ≠ .null)
      (sequence : ∀ vs, v ≠ .sequence vs) :
      Fault index (some (.mapping entries)) (.invalidList index .itemsNotSequence)
  | item {entries : List (Value × Value)} {vs : List Value} {v : Value} {e : WatchError}
      (list : isList entries = true) (items : valueAt? "items" entries = some (.sequence vs))
      (first : vs.find? (!isResource ·) = some v) (h : ItemFault index v e) :
      Fault index (some (.mapping entries)) e

variable {index : Nat} {d : DocumentResult} {v : Value} {rs : List Resource} {e : WatchError}

theorem ItemFault.item_eq (h : ItemFault index v e) : item index v = .error e := by
  unfold ItemFault at h
  unfold item
  cases hv : v.untagged with
  | mapping entries =>
    simp only [hv] at h ⊢
    split at h
    · next hl => rw [if_pos hl, h]
    · next hl => rw [if_neg hl, h.1]
  | _ =>
    simp only [hv] at h ⊢
    rw [h]

theorem ItemFault.unique {e' : WatchError} (h : ItemFault index v e) (h' : ItemFault index v e') :
    e = e' :=
  Except.error.inj (h.item_eq.symm.trans h'.item_eq)

theorem ItemFault.place_eq (h : ItemFault index v e) : e.place? = some index := by
  unfold ItemFault at h
  split at h
  · split at h
    · rw [h]
      rfl
    · exact Resource.place_of_ofEntries h.1
  · rw [h]
    rfl

theorem item_eq_ok_iff {r : Resource} : item index v = .ok r ↔ ItemFor index v r := by
  unfold item ItemFor
  cases v.untagged with
  | mapping entries => cases hl : isList entries <;> simp [hl]
  | _ => simp

theorem items_cases {entries : List (Value × Value)} (list : isList entries = true) :
    (∃ rs, items index entries = .ok rs ∧ StandsFor index (some (.mapping entries)) rs) ∨
      ∃ e, items index entries = .error e ∧ Fault index (some (.mapping entries)) e := by
  unfold items
  split
  · next vs hitems =>
    cases hfirst : vs.find? (!isResource ·) with
    | some v =>
      obtain ⟨e, he, hf⟩ := mapM_item_error index hfirst
      exact .inr ⟨e, he, .item list hitems hfirst hf⟩
    | none =>
      have hread : ∀ v ∈ vs, ∃ r, item index v = .ok r := by
        intro v hv
        obtain ⟨_, hr⟩ | ⟨hbad, _⟩ := item_cases index v
        · exact hr
        · have hgood := List.find?_eq_none.1 hfirst v hv
          simp [hbad] at hgood
      obtain ⟨rs, hrs⟩ := exists_related hread
      refine .inl ⟨rs, mapM_eq_ok_iff.2 hrs, .list list hitems ?_⟩
      simpa only [item_eq_ok_iff] using hrs
  · next hitems => exact .inr ⟨_, rfl, .missingItems list (by simp [hitems])⟩
  · next hitems => exact .inr ⟨_, rfl, .missingItems list (by simp [hitems])⟩
  · next v hseq hnull hitems =>
    exact .inr ⟨_, rfl, .itemsNotSequence list hitems hnull hseq⟩

/-- A document stands for resources or has a fault, and the reader tells which. -/
theorem resources_cases (index : Nat) (d : DocumentResult) :
    (∃ rs, d.resources index = .ok rs ∧ d.StandsFor index rs) ∨
      ∃ e, d.resources index = .error e ∧ d.Fault index e := by
  unfold resources
  split
  · exact .inr ⟨_, rfl, .unreadable⟩
  · exact .inl ⟨_, rfl, .nothing⟩
  · next entries =>
    by_cases list : isList entries
    · rw [if_pos list]
      exact items_cases list
    · have single : isList entries = false := by simpa using list
      rw [if_neg list]
      cases h : Resource.ofEntries index entries with
      | ok r => exact .inl ⟨_, rfl, .resource single h⟩
      | error e => exact .inr ⟨_, rfl, .resource single h⟩
  · next v hnull hmapping =>
    exact .inr ⟨_, rfl, .notMapping hnull hmapping⟩

theorem resources_eq_ok_iff : d.resources index = .ok rs ↔ d.StandsFor index rs := by
  constructor
  · intro h
    obtain ⟨rs', hrs, hd⟩ | ⟨e, he, _⟩ := d.resources_cases index
    · rw [hrs, Except.ok.injEq] at h
      exact h ▸ hd
    · simp [he] at h
  · intro h
    cases h with
    | nothing => rfl
    | resource single h => simp [resources, single, h, Except.map]
    | list list hitems h =>
      simp only [resources, list, if_true, items, hitems, mapM_eq_ok_iff, item_eq_ok_iff]
      exact h

theorem resources_eq_error_iff : d.resources index = .error e ↔ d.Fault index e := by
  constructor
  · intro h
    obtain ⟨rs, hrs, _⟩ | ⟨e', he, hd⟩ := d.resources_cases index
    · simp [hrs] at h
    · rw [he, Except.error.injEq] at h
      exact h ▸ hd
  · intro h
    cases h with
    | unreadable => rfl
    | @notMapping v null mapping =>
      cases v with
      | null => exact absurd rfl null
      | mapping entries => exact absurd rfl (mapping entries)
      | _ => rfl
    | resource single h => simp [resources, single, h, Except.map]
    | @missingItems entries list hitems =>
      simp only [resources, list, if_true, items]
      cases hv : valueAt? "items" entries with
      | none => rfl
      | some v => rw [hitems v hv]
    | itemsNotSequence list hitems null sequence =>
      simp only [resources, list, if_true, items, hitems]
    | item list hitems first h =>
      obtain ⟨e', he, hf⟩ := mapM_item_error index first
      simp only [resources, list, if_true, items, hitems, he, hf.unique h]

theorem exists_standsFor (h : ∀ e, ¬ d.Fault index e) : ∃ rs, d.StandsFor index rs := by
  obtain ⟨rs, _, hd⟩ | ⟨e, _, hd⟩ := d.resources_cases index
  · exact ⟨rs, hd⟩
  · exact absurd hd (h e)

theorem StandsFor.unique {rs' : List Resource} (h : d.StandsFor index rs)
    (h' : d.StandsFor index rs') : rs = rs' :=
  Except.ok.inj ((resources_eq_ok_iff.2 h).symm.trans (resources_eq_ok_iff.2 h'))

theorem StandsFor.not_fault (h : d.StandsFor index rs) (e : WatchError) : ¬ d.Fault index e := by
  intro he
  have hread := resources_eq_ok_iff.2 h
  rw [resources_eq_error_iff.2 he] at hread
  exact nomatch hread

theorem StandsFor.index_eq (h : d.StandsFor index rs) : ∀ r ∈ rs, r.index = index := by
  cases h with
  | nothing => simp
  | resource single h => simpa using Resource.index_of_ofEntries h
  | list list hitems h =>
    intro r hr
    obtain ⟨v, _, entries, _, _, hv⟩ := exists_related_of_mem h r hr
    exact Resource.index_of_ofEntries hv

theorem Fault.place_eq (h : d.Fault index e) : e.place? = some index := by
  cases h with
  | resource single h => exact Resource.place_of_ofEntries h
  | item list hitems first h => exact h.place_eq
  | _ => rfl

end DocumentResult

namespace Manifest
open DocumentResult

/-- A document with an error is the end of its manifest. -/
theorem ofDocuments_of_error {before after : List DocumentResult} {d : DocumentResult}
    {e : WatchError} (h : d.resources before.length = .error e) :
    ofDocuments 0 (before ++ d :: after) =
      ⟨(ofDocuments 0 before).resources, (ofDocuments 0 before).error.or (some e)⟩ := by
  have hd : ofDocuments (0 + before.length) (d :: after) = ⟨[], some e⟩ := by
    simp [ofDocuments, h]
  rw [ofDocuments_append, hd, append_eq_of_nil]

/-- No document has a fault. -/
def Faultless (index : Nat) (ds : List DocumentResult) : Prop :=
  ∀ d ∈ ds.zipIdx index, ∀ e, ¬ d.1.Fault d.2 e

/-- Document by document the resources that it stands for, each with the place of its document. -/
def Delivers (index : Nat) (ds : List DocumentResult) (rss : List (List Resource)) : Prop :=
  List.Forall₂ (fun d rs => d.1.StandsFor d.2 rs ∧ ∀ r ∈ rs, r.index = d.2) (ds.zipIdx index) rss

variable {index : Nat} {ds : List DocumentResult} {rss : List (List Resource)}

theorem faultless_nil : Faultless index [] := by simp [Faultless]

theorem faultless_cons {d : DocumentResult} :
    Faultless index (d :: ds) ↔ (∀ e, ¬ d.Fault index e) ∧ Faultless (index + 1) ds := by
  rw [Faultless, List.zipIdx_cons, List.forall_mem_cons]
  rfl

theorem exists_delivers (h : Faultless index ds) : ∃ rss, Delivers index ds rss := by
  induction ds generalizing index with
  | nil => exact ⟨[], .nil⟩
  | cons d ds ih =>
    obtain ⟨hd, hds⟩ := faultless_cons.1 h
    obtain ⟨rss, hrss⟩ := ih hds
    obtain ⟨rs, hrs⟩ := exists_standsFor hd
    exact ⟨rs :: rss, .cons ⟨hrs, hrs.index_eq⟩ hrss⟩

theorem ofDocuments_of_delivers (h : Delivers index ds rss) :
    ofDocuments index ds = ⟨rss.flatten, none⟩ := by
  induction ds generalizing index rss with
  | nil =>
    cases h
    rfl
  | cons d ds ih =>
    rw [Delivers, List.zipIdx_cons] at h
    cases h with
    | cons hd hds =>
      rw [ofDocuments, resources_eq_ok_iff.2 hd.1, ih hds]
      simp

theorem ofDocuments_of_fault (h : Delivers 0 ds rss) {d : DocumentResult} {e : WatchError}
    (hd : d.Fault ds.length e) (after : List DocumentResult) :
    ofDocuments 0 (ds ++ d :: after) = ⟨rss.flatten, some e⟩ := by
  rw [ofDocuments_of_error (resources_eq_error_iff.2 hd), ofDocuments_of_delivers h]
  rfl

theorem index_lt_of_delivers (h : Delivers index ds rss) :
    ∀ r ∈ rss.flatten, r.index < index + ds.length := by
  intro r hr
  obtain ⟨rs, hrs, hr⟩ := List.mem_flatten.1 hr
  obtain ⟨d, hd, _, hindex⟩ := exists_related_of_mem h rs hrs
  have := List.snd_lt_add_of_mem_zipIdx hd
  rw [hindex r hr]
  omega

/-- The resources and then the error, as they are read one by one. -/
def answers (m : Manifest) : List (Except WatchError Resource) :=
  m.resources.map .ok ++ m.error.toList.map .error

end Manifest

namespace ManifestReader

/-- The answers that are still to come. -/
def left (m : ManifestReader) : List (Except WatchError Resource) :=
  m.ready.map .ok ++ if m.failed then [] else (Manifest.ofDocuments m.index m.documents).answers

theorem nextOf_spec (index : Nat) (ds : List DocumentResult) :
    (nextOf index ds).1 = (Manifest.ofDocuments index ds).answers.head? ∧
      (nextOf index ds).2.left = (Manifest.ofDocuments index ds).answers.tail := by
  induction ds generalizing index with
  | nil => exact ⟨rfl, rfl⟩
  | cons d ds ih =>
    unfold nextOf Manifest.ofDocuments
    cases hd : d.resources index with
    | error e => exact ⟨rfl, rfl⟩
    | ok rs =>
      cases rs with
      | nil => exact ih (index + 1)
      | cons r rs => simp [Manifest.answers, left]

/-- A call gives the first of the answers that are to come, and leaves the others. -/
theorem next_spec (m : ManifestReader) : m.next.1 = m.left.head? ∧ m.next.2.left = m.left.tail := by
  unfold next
  cases hr : m.ready with
  | cons r rs => simp [left, hr]
  | nil =>
    cases hf : m.failed with
    | true => simp [left, hr, hf]
    | false => simpa [left, hr, hf] using nextOf_spec m.index m.documents

theorem take_eq (k : Nat) (m : ManifestReader) :
    m.take k = (List.range k).map fun i => m.left[i]? := by
  induction k generalizing m with
  | zero => rfl
  | succ k ih =>
    obtain ⟨hfirst, hrest⟩ := m.next_spec
    have hcons : m.take (k + 1) = m.next.1 :: m.next.2.take k := rfl
    rw [hcons, ih, hfirst, hrest, List.range_succ_eq_map]
    simp [List.head?_eq_getElem?]

theorem take_start (ds : List DocumentResult) (k : Nat) :
    (start ds).take k = (List.range k).map fun i => (Manifest.ofDocuments 0 ds).answers[i]? :=
  take_eq k (start ds)

end ManifestReader

namespace Manifest
open DocumentResult

/-- A manifest is read up to its first fault. Without one, its resources are what its documents
stand for, one after the other; otherwise they are what the documents before the fault stand for,
and the error is that fault, whose place is behind those of all the resources. What comes after it
is of no consequence. Read one by one, the resources come in this order, then the error, and then
nothing. -/
theorem reading_ends_at_first_fault :
    (∀ ds, Faultless 0 ds → ∃ rss, Delivers 0 ds rss ∧ ofDocuments 0 ds = ⟨rss.flatten, none⟩) ∧
    (∀ before d e, Faultless 0 before → d.Fault before.length e →
      ∃ rss, Delivers 0 before rss ∧ e.place? = some before.length ∧
        (∀ r ∈ rss.flatten, r.index < before.length) ∧
        ∀ after, ofDocuments 0 (before ++ d :: after) = ⟨rss.flatten, some e⟩) ∧
    ∀ ds k, (ManifestReader.start ds).take k =
      (List.range k).map fun i => (ofDocuments 0 ds).answers[i]? := by
  refine ⟨fun ds h => ?_, fun before d e h hd => ?_, ManifestReader.take_start⟩
  · obtain ⟨rss, hrss⟩ := exists_delivers h
    exact ⟨rss, hrss, ofDocuments_of_delivers hrss⟩
  · obtain ⟨rss, hrss⟩ := exists_delivers h
    refine ⟨rss, hrss, hd.place_eq, ?_, ofDocuments_of_fault hrss hd⟩
    simpa using index_lt_of_delivers hrss

/-- An empty document, a list with an item behind a tag, and a text where a mapping should be. -/
theorem reading_ends_at_first_fault_text :
    let bare (kind : String) : Value :=
      .mapping [(.str "apiVersion", .str "v1"), (.str "kind", .str kind)]
    let items := [bare "ConfigMap", .tagged "x" (bare "Namespace")]
    let list : Value := .mapping [(.str "kind", .str "List"), (.str "items", .sequence items)]
    let before : List DocumentResult := [some .null, some list]
    let error : WatchError := .manifestParse 2 .notMapping
    Faultless 0 before ∧ Fault 2 (some (.str "text")) error ∧
      (∃ rss, Delivers 0 before rss ∧ ofDocuments 0 before = ⟨rss.flatten, none⟩) ∧
      ∃ rss, Delivers 0 before rss ∧ error.place? = some 2 ∧ (∀ r ∈ rss.flatten, r.index < 2) ∧
        ∀ after, ofDocuments 0 (before ++ some (.str "text") :: after) =
          ⟨rss.flatten, some error⟩ := by
  intro bare items list before error
  have hlist : StandsFor 1 (some list) [⟨1, ⟨"", "v1", "ConfigMap"⟩, none, none, .empty⟩,
      ⟨1, ⟨"", "v1", "Namespace"⟩, none, none, .empty⟩] := resources_eq_ok_iff.1 rfl
  have faultless : Faultless 0 before :=
    faultless_cons.2 ⟨StandsFor.nothing.not_fault,
      faultless_cons.2 ⟨hlist.not_fault, faultless_nil⟩⟩
  have hfault : Fault 2 (some (.str "text")) error := .notMapping (by simp) (by simp)
  obtain ⟨hwhole, hbroken, _⟩ := reading_ends_at_first_fault
  exact ⟨faultless, hfault, hwhole before faultless, hbroken before _ error faultless hfault⟩

end Manifest
end DependentWatch
