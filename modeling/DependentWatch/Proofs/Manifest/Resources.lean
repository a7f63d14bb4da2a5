import DependentWatch.Proofs.Lookup
import DependentWatch.Proofs.Traversal
import DependentWatch.Resource
/-! What the entries of a mapping say of a resource: which of them are read, when they say nothing,
and what is wrong then. -/
namespace DependentWatch
open Yaml (Value)

theorem find?_eq_some_iff_of_single {α : Type} {p : α → Bool} {as : List α}
    (h : (as.filter p).length ≤ 1) {a : α} : as.find? p = some a ↔ a ∈ as ∧ p a = true := by
  refine ⟨fun ha => ⟨List.mem_of_find?_eq_some ha, List.find?_some ha⟩, fun ha => ?_⟩
  cases hb : as.find? p with
  | none => exact absurd ha.2 (List.find?_eq_none.1 hb a ha.1)
  | some b =>
    have hfirst : b ∈ as.filter p :=
      List.mem_filter.2 ⟨List.mem_of_find?_eq_some hb, List.find?_some hb⟩
    obtain ⟨c, hc⟩ := List.length_eq_one_iff.1 (Nat.le_antisymm h (List.length_pos_of_mem hfirst))
    have hother : a ∈ as.filter p := List.mem_filter.2 ha
    rw [hc, List.mem_singleton] at hfirst hother
    rw [hfirst, hother]

namespace Resource

/-- The value of the first entry whose key is this text behind its tags. -/
def under? (name : String) (entries : List (Value × Value)) : Option Value :=
  (entries.find? fun e => text? e.1 = some name).map (·.2)

/-- Behind its tags every key is a text, and each of these names is that of one key at most. -/
structure Legible (names : List String) (entries : List (Value × Value)) : Prop where
  texts : ∀ e ∈ entries, ∃ s, e.1.untagged = .str s
  single : ∀ name ∈ names, (entries.filter fun e => text? e.1 = some name).length ≤ 1

/-- What is behind the tags of a value is this text. -/
def IsText (v : Value) (s : String) : Prop := v.untagged = .str s

/-- What is behind the tags of a value are these entries. -/
def HasEntries (v : Value) (entries : List (Value × Value)) : Prop :=
  v.untagged = .mapping entries ∨ v.untagged = .null ∧ entries = []

/-- Texts under texts, of which the later one stays where two are the same. -/
def IsTextMap (v : Value) (m : TextMap) : Prop :=
  ∃ entries texts, HasEntries v entries ∧
    List.Forall₂ (fun e t => IsText e.1 t.1 ∧ IsText e.2 t.2) entries texts ∧ m = .ofList texts

/-- Nothing and null mean nothing, and any other value something. -/
inductive Optionally {α : Type} (R : Value → α → Prop) : Option Value → Option α → Prop
  | missing : Optionally R none none
  | null : Optionally R (some .null) none
  | present {v : Value} {a : α} (null : v ≠ .null) (h : R v a) : Optionally R (some v) (some a)

/-- Nothing means the empty text, and null means no text. -/
inductive TextOrEmpty : Option Value → String → Prop
  | missing : TextOrEmpty none ""
  | present {v : Value} {s : String} (h : IsText v s) : TextOrEmpty (some v) s

/-- What the metadata say: the namespace, the name and the annotations. -/
def IsMetadata (v : Value) (m : Option String × Option String × TextMap) : Prop :=
  ∃ entries annotations, HasEntries v entries ∧
    Legible ["name", "namespace", "annotations"] entries ∧
    Optionally IsText (under? "namespace" entries) m.1 ∧
    Optionally IsText (under? "name" entries) m.2.1 ∧
    Optionally IsTextMap (under? "annotations" entries) annotations ∧
    m.2.2 = annotations.getD .empty

/-- What the entries say, of which no more than three are read. -/
structure Says (entries : List (Value × Value)) (h : Header) : Prop where
  legible : Legible ["apiVersion", "kind", "metadata"] entries
  apiVersion : TextOrEmpty (under? "apiVersion" entries) h.apiVersion
  kind : TextOrEmpty (under? "kind" entries) h.kind
  metadata : ∃ m, Optionally IsMetadata (under? "metadata" entries) m ∧
    (h.ns, h.name, h.annotations) = m.getD (none, none, .empty)

variable {names : List String} {entries : List (Value × Value)}

theorem text?_eq_some_iff {v : Value} {s : String} : text? v = some s ↔ IsText v s := by
  unfold text? IsText
  cases v.untagged <;> simp

theorem entries?_eq_some_iff {v : Value} : entries? v = some entries ↔ HasEntries v entries := by
  unfold entries? HasEntries
  cases v.untagged <;> simp [eq_comm]

theorem optional_eq_some_iff {α : Type} {read : Value → Option α} {R : Value → α → Prop}
    (h : ∀ v a, read v = some a ↔ R v a) {v : Option Value} {x : Option α} :
    optional read v = some x ↔ Optionally R v x := by
  constructor
  · intro hx
    unfold optional at hx
    split at hx
    · cases hx
      exact .missing
    · cases hx
      exact .null
    · next v hnull =>
      obtain ⟨a, ha, rfl⟩ := Option.map_eq_some_iff.1 hx
      exact .present (fun he => hnull (he ▸ rfl)) ((h v a).1 ha)
  · intro hx
    cases hx with
    | missing => rfl
    | null => rfl
    | @present v a null hr =>
      unfold optional
      split
      · next he => cases he
      · next he => cases he; exact absurd rfl null
      · next w _ he =>
        cases he
        rw [(h v a).2 hr, Option.map_some]

/-- Fields that are the entries under the texts of their keys. -/
def Named (entries : List (Value × Value)) (fields : List (String × Value)) : Prop :=
  List.Forall₂ (fun e f => IsText e.1 f.1 ∧ e.2 = f.2) entries fields

theorem Named.lookup_eq {fields : List (String × Value)} (h : Named entries fields)
    (name : String) : fields.lookup name = under? name entries := by
  induction h with
  | nil => rfl
  | @cons e f entries fields he _ ih =>
    have hkey : text? e.1 = some f.1 := text?_eq_some_iff.2 he.1
    rw [lookup_cons_ite, ih]
    by_cases hname : name = f.1
    · simp [under?, hkey, hname, he.2]
    · simp [under?, hkey, hname, Ne.symm hname]

theorem Named.length_filter {fields : List (String × Value)} (h : Named entries fields)
    (name : String) :
    (fields.filter (·.1 = name)).length =
      (entries.filter fun e => text? e.1 = some name).length := by
  induction h with
  | nil => rfl
  | @cons e f entries fields he _ ih =>
    have hkey : text? e.1 = some f.1 := text?_eq_some_iff.2 he.1
    by_cases hname : f.1 = name
    · simp [hkey, hname, ih]
    · simp [hkey, hname, ih]

theorem mapM_named_iff {fields : List (String × Value)} :
    (entries.mapM fun (k, v) => do return (← text? k, v)) = some fields ↔ Named entries fields := by
  refine mapM_eq_some_iff fun e f => ?_
  obtain ⟨name, v⟩ := f
  simp [Option.bind_eq_some_iff, text?_eq_some_iff]

theorem fields?_eq_some_iff {fields : List (String × Value)} :
    fields? names entries = some fields ↔ Named entries fields ∧
      ∀ name ∈ names, (entries.filter fun e => text? e.1 = some name).length ≤ 1 := by
  constructor
  · intro h
    obtain ⟨found, hfound, h⟩ := Option.bind_eq_some_iff.1 h
    obtain ⟨hsingle, h⟩ := Option.ite_none_left_eq_some.1 h
    cases h
    have hnamed := mapM_named_iff.1 hfound
    simp only [← hnamed.length_filter]
    exact ⟨hnamed, by simpa using hsingle⟩
  · rintro ⟨hnamed, hsingle⟩
    simp only [← hnamed.length_filter] at hsingle
    rw [fields?, mapM_named_iff.2 hnamed]
    simpa using hsingle

theorem legible_of_fields? {fields : List (String × Value)}
    (h : fields? names entries = some fields) : Legible names entries := by
  obtain ⟨hnamed, hsingle⟩ := fields?_eq_some_iff.1 h
  refine ⟨fun e he => ?_, hsingle⟩
  obtain ⟨f, _, hf⟩ := exists_related_of_mem hnamed.flip e he
  exact ⟨f.1, hf.1⟩

theorem lookup_of_fields? {fields : List (String × Value)} (h : fields? names entries = some fields)
    (name : String) : fields.lookup name = under? name entries :=
  (fields?_eq_some_iff.1 h).1.lookup_eq name

theorem Legible.exists_fields? (h : Legible names entries) :
    ∃ fields, fields? names entries = some fields := by
  have hnamed : ∀ e ∈ entries, ∃ f : String × Value, IsText e.1 f.1 ∧ e.2 = f.2 := by
    intro e he
    obtain ⟨s, hs⟩ := h.texts e he
    exact ⟨(s, e.2), hs, rfl⟩
  obtain ⟨fields, hfields⟩ := exists_related hnamed
  exact ⟨fields, fields?_eq_some_iff.2 ⟨hfields, h.single⟩⟩

theorem textMap?_eq_some_iff (v : Value) (m : TextMap) : textMap? v = some m ↔ IsTextMap v m := by
  have hread (e : Value × Value) (t : String × String) :
      (fun (k, v) => do return (← text? k, ← text? v)) e = some t ↔
        IsText e.1 t.1 ∧ IsText e.2 t.2 := by
    obtain ⟨k, w⟩ := t
    simp [Option.bind_eq_some_iff, text?_eq_some_iff]
  constructor
  · intro h
    obtain ⟨entries, hentries, h⟩ := Option.bind_eq_some_iff.1 h
    obtain ⟨texts, htexts, h⟩ := Option.bind_eq_some_iff.1 h
    cases h
    exact ⟨entries, texts, entries?_eq_some_iff.1 hentries, (mapM_eq_some_iff hread).1 htexts, rfl⟩
  · rintro ⟨entries, texts, hentries, htexts, rfl⟩
    exact Option.bind_eq_some_iff.2 ⟨entries, entries?_eq_some_iff.2 hentries,
      Option.bind_eq_some_iff.2 ⟨texts, (mapM_eq_some_iff hread).2 htexts, rfl⟩⟩

theorem metadata?_eq_some_iff (v : Value) (m : Option String × Option String × TextMap) :
    metadata? v = some m ↔ IsMetadata v m := by
  have htext (v : Option Value) (s : Option String) :
      optional text? v = some s ↔ Optionally IsText v s :=
    optional_eq_some_iff fun _ _ => text?_eq_some_iff
  have hmap (v : Option Value) (m : Option TextMap) :
      optional textMap? v = some m ↔ Optionally IsTextMap v m :=
    optional_eq_some_iff textMap?_eq_some_iff
  constructor
  · intro h
    obtain ⟨entries, hentries, h⟩ := Option.bind_eq_some_iff.1 h
    obtain ⟨fields, hfields, h⟩ := Option.bind_eq_some_iff.1 h
    obtain ⟨name, hname, h⟩ := Option.bind_eq_some_iff.1 h
    obtain ⟨ns, hns, h⟩ := Option.bind_eq_some_iff.1 h
    obtain ⟨annotations, hannotations, h⟩ := Option.bind_eq_some_iff.1 h
    cases h
    simp only [lookup_of_fields? hfields, htext, hmap] at hname hns hannotations
    exact ⟨entries, annotations, entries?_eq_some_iff.1 hentries, legible_of_fields? hfields, hns,
      hname, hannotations, rfl⟩
  · rintro ⟨entries, annotations, hentries, hlegible, hns, hname, hannotations, hm⟩
    obtain ⟨fields, hfields⟩ := hlegible.exists_fields?
    simp only [← lookup_of_fields? hfields, ← htext, ← hmap] at hname hns hannotations
    obtain ⟨ns, name, found⟩ := m
    obtain rfl : found = annotations.getD .empty := hm
    simp [metadata?, entries?_eq_some_iff.2 hentries, hfields, hname, hns, hannotations]

theorem textOrEmpty_iff {v : Option Value} {s : String} :
    (v.map text?).getD (some "") = some s ↔ TextOrEmpty v s := by
  cases v with
  | none =>
    constructor
    · intro h
      cases h
      exact .missing
    · rintro ⟨⟩
      rfl
  | some v =>
    rw [Option.map_some, Option.getD_some, text?_eq_some_iff]
    exact ⟨.present, fun h => by cases h; assumption⟩

/-- The header of a mapping is what its entries say, if they say anything. -/
theorem header?_eq_some_iff {h : Header} : header? entries = some h ↔ Says entries h := by
  have hmetadata (v : Option Value) (m : Option (Option String × Option String × TextMap)) :
      optional metadata? v = some m ↔ Optionally IsMetadata v m :=
    optional_eq_some_iff metadata?_eq_some_iff
  constructor
  · intro hh
    obtain ⟨fields, hfields, hh⟩ := Option.bind_eq_some_iff.1 hh
    obtain ⟨apiVersion, hversion, hh⟩ := Option.bind_eq_some_iff.1 hh
    obtain ⟨kind, hkind, hh⟩ := Option.bind_eq_some_iff.1 hh
    obtain ⟨m, hm, hh⟩ := Option.bind_eq_some_iff.1 hh
    cases hh
    simp only [lookup_of_fields? hfields, textOrEmpty_iff, hmetadata] at hversion hkind hm
    exact ⟨legible_of_fields? hfields, hversion, hkind, m, hm, rfl⟩
  · rintro ⟨hlegible, hversion, hkind, m, hm, hrest⟩
    obtain ⟨fields, hfields⟩ := hlegible.exists_fields?
    simp only [← lookup_of_fields? hfields, ← textOrEmpty_iff, ← hmetadata] at hversion hkind hm
    simp [header?, hfields, hversion, hkind, hm, ← hrest]

/-- A mapping is a resource where its entries say what it is and its type is not blank. -/
theorem ofEntries_eq_ok_iff {index : Nat} {r : Resource} :
    ofEntries index entries = .ok r ↔ ∃ h, Says entries h ∧ Text.blank h.apiVersion = false ∧
      Text.blank h.kind = false ∧
      r = ⟨index, .ofApiVersion h.apiVersion h.kind, h.name, h.ns, h.annotations⟩ := by
  constructor
  · intro hr
    unfold ofEntries at hr
    split at hr
    · cases hr
    · next h hh =>
      split at hr
      · cases hr
      · next hblank =>
        rw [Bool.not_eq_true, Bool.or_eq_false_iff] at hblank
        exact ⟨h, header?_eq_some_iff.1 hh, hblank.1, hblank.2, (Except.ok.inj hr).symm⟩
  · rintro ⟨h, hh, hversion, hkind, rfl⟩
    simp [ofEntries, header?_eq_some_iff.2 hh, hversion, hkind]

/-- Otherwise its error names the place of its document: the entries say nothing, or the type that
they say is blank. -/
theorem ofEntries_eq_error_iff {index : Nat} {e : WatchError} :
    ofEntries index entries = .error e ↔
      (∀ h, ¬ Says entries h) ∧ e = .manifestParse index .malformed ∨
      (∃ h, Says entries h ∧ (Text.blank h.apiVersion = true ∨ Text.blank h.kind = true)) ∧
        e = .manifestParse index .missingType := by
  constructor
  · intro he
    unfold ofEntries at he
    split at he
    · next hnone =>
      cases he
      exact .inl ⟨fun h hh => by simp [header?_eq_some_iff.2 hh] at hnone, rfl⟩
    · next h hh =>
      split at he
      · next hblank =>
        cases he
        exact .inr ⟨⟨h, header?_eq_some_iff.1 hh, by simpa using hblank⟩, rfl⟩
      · cases he
  · rintro (⟨hnone, rfl⟩ | ⟨⟨h, hh, hblank⟩, rfl⟩)
    · have hheader : header? entries = none :=
        Option.eq_none_iff_forall_ne_some.2 fun h hh => hnone h (header?_eq_some_iff.1 hh)
      simp [ofEntries, hheader]
    · simp [ofEntries, header?_eq_some_iff.2 hh, hblank]

/-- The fields of a mapping have the same fault at every place, or tell of the same resource. -/
theorem ofEntries_cases (entries : List (Value × Value)) :
    (∃ fault, ∀ index, ofEntries index entries = .error (.manifestParse index fault)) ∨
    ∃ r : Resource, ∀ index, ofEntries index entries = .ok { r with index } := by
  by_cases hsays : ∃ h, Says entries h
  · obtain ⟨h, hh⟩ := hsays
    cases hversion : Text.blank h.apiVersion with
    | true =>
      exact .inl ⟨_, fun _ => ofEntries_eq_error_iff.2 (.inr ⟨⟨h, hh, .inl hversion⟩, rfl⟩)⟩
    | false =>
      cases hkind : Text.blank h.kind with
      | true => exact .inl ⟨_, fun _ => ofEntries_eq_error_iff.2 (.inr ⟨⟨h, hh, .inr hkind⟩, rfl⟩)⟩
      | false =>
        exact .inr ⟨⟨0, .ofApiVersion h.apiVersion h.kind, h.name, h.ns, h.annotations⟩,
          fun _ => ofEntries_eq_ok_iff.2 ⟨h, hh, hversion, hkind, rfl⟩⟩
  · have hnone : ∀ h, ¬ Says entries h := fun h hh => hsays ⟨h, hh⟩
    exact .inl ⟨_, fun _ => ofEntries_eq_error_iff.2 (.inl ⟨hnone, rfl⟩)⟩

/-- In a legible mapping a name has the value of the only entry that stands for it. -/
theorem Legible.under?_eq_some_iff {name : String} {v : Value} (h : Legible names entries)
    (hn : name ∈ names) :
    under? name entries = some v ↔ ∃ k, (k, v) ∈ entries ∧ IsText k name := by
  simp [under?, find?_eq_some_iff_of_single (h.single name hn), text?_eq_some_iff]

end Resource
end DependentWatch
