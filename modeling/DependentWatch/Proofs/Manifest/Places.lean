import DependentWatch.Manifest
import DependentWatch.Proofs.Manifest.Resources
/-! Manifests up to the places of their documents. What a document stands for does not depend on
its place, and a manifest is read piece by piece. -/
namespace DependentWatch
open Yaml (Value)

/-- The resource without the place of its document. -/
def Resource.unplaced (r : Resource) : Resource := { r with index := 0 }

@[simp] theorem Resource.gvk_unplaced (r : Resource) : r.unplaced.gvk = r.gvk := rfl

/-- The error without the place of the document that it names. -/
def WatchError.unplaced : WatchError → WatchError
  | .manifestParse _ fault => .manifestParse 0 fault
  | .invalidList _ fault => .invalidList 0 fault
  | .nestedList _ => .nestedList 0
  | e => e

def Manifest.unplaced (m : Manifest) : Manifest := ⟨m.resources.map .unplaced, m.error.map .unplaced⟩

/-- A result whose error names no place, and whose value is taken to one that has none. -/
def unplacedBy {α β : Type} (f : α → β) : Except WatchError α → Except WatchError β
  | .ok a => .ok (f a)
  | .error e => .error e.unplaced

theorem mapM_unplacedBy {α β : Type} {read : α → Except WatchError β}
    {readThere : α → Except WatchError β} {f : β → β}
    (h : ∀ a, unplacedBy f (read a) = readThere a) (as : List α) :
    unplacedBy (List.map f) (as.mapM read) = as.mapM readThere := by
  induction as with
  | nil => rfl
  | cons a as ih =>
    simp only [List.mapM_cons, ← h a, ← ih]
    cases read a with
    | error e => rfl
    | ok b => cases as.mapM read <;> rfl

/-! One document at any place. -/

theorem Resource.ofEntries_unplaced (index : Nat) (entries : List (Value × Value)) :
    unplacedBy unplaced (ofEntries index entries) = ofEntries 0 entries := by
  obtain ⟨fault, h⟩ | ⟨r, h⟩ := ofEntries_cases entries
  · rw [h index, h 0]
    rfl
  · rw [h index, h 0]
    rfl

namespace DocumentResult

theorem item_unplaced (index : Nat) (v : Value) :
    unplacedBy Resource.unplaced (item index v) = item 0 v := by
  unfold item
  split
  · split
    · rfl
    · exact Resource.ofEntries_unplaced index _
  · rfl

theorem resources_unplaced (index : Nat) (d : DocumentResult) :
    unplacedBy (List.map Resource.unplaced) (resources index d) = resources 0 d := by
  unfold resources
  split
  · rfl
  · rfl
  · next entries =>
    split
    · unfold items
      split
      · exact mapM_unplacedBy (item_unplaced index) _
      all_goals rfl
    · rw [← Resource.ofEntries_unplaced index]
      cases Resource.ofEntries index entries <;> rfl
  · rfl

/-- A document that has no error. -/
def Sound (d : DocumentResult) : Prop := ∃ rs, d.resources 0 = .ok rs

/-- A document has no error, and one of its resources has this kind. -/
def Holds (d : DocumentResult) (k : GroupVersionKind) : Prop :=
  ∃ rs, d.resources 0 = .ok rs ∧ ∃ r ∈ rs, r.gvk = k

theorem sound_iff (index : Nat) (d : DocumentResult) :
    (∃ rs, d.resources index = .ok rs) ↔ d.Sound := by
  rw [Sound, ← d.resources_unplaced index]
  cases d.resources index <;> simp [unplacedBy]

theorem holds_iff (index : Nat) (d : DocumentResult) (k : GroupVersionKind) :
    (∃ rs, d.resources index = .ok rs ∧ ∃ r ∈ rs, r.gvk = k) ↔ d.Holds k := by
  rw [Holds, ← d.resources_unplaced index]
  cases d.resources index with
  | error e => simp [unplacedBy]
  | ok rs =>
    simp only [unplacedBy, Except.ok.injEq, exists_eq_left', List.mem_map]
    constructor
    · intro h
      obtain ⟨r, hr, hk⟩ := h
      exact ⟨r.unplaced, ⟨r, hr, rfl⟩, hk⟩
    · intro h
      obtain ⟨_, ⟨r, hr, rfl⟩, hk⟩ := h
      exact ⟨r, hr, hk⟩

end DocumentResult

namespace Manifest

/-- The manifest of two pieces. Nothing of the second is read where the first has an error. -/
def append (m n : Manifest) : Manifest :=
  match m.error with
  | none => ⟨m.resources ++ n.resources, n.error⟩
  | some e => ⟨m.resources, some e⟩

theorem append_assoc (m n k : Manifest) : (m.append n).append k = m.append (n.append k) := by
  unfold append
  cases m.error with
  | some e => rfl
  | none => cases n.error <;> simp

theorem append_eq_of_nil (m : Manifest) (e : WatchError) :
    m.append ⟨[], some e⟩ = ⟨m.resources, m.error.or (some e)⟩ := by
  unfold append
  cases m.error <;> simp

theorem unplaced_append (m n : Manifest) : (m.append n).unplaced = m.unplaced.append n.unplaced := by
  unfold append unplaced
  cases m.error <;> simp

theorem ofDocuments_cons (index : Nat) (d : DocumentResult) (ds : List DocumentResult) :
    ofDocuments index (d :: ds) = (ofDocuments index [d]).append (ofDocuments (index + 1) ds) := by
  simp only [ofDocuments]
  cases d.resources index with
  | error e => rfl
  | ok rs => simp [append]

theorem ofDocuments_append (index : Nat) (ds es : List DocumentResult) :
    ofDocuments index (ds ++ es) =
      (ofDocuments index ds).append (ofDocuments (index + ds.length) es) := by
  induction ds generalizing index with
  | nil => rfl
  | cons d ds ih =>
    have hl : index + 1 + ds.length = index + (d :: ds).length := by
      rw [List.length_cons]
      omega
    rw [List.cons_append, ofDocuments_cons, ih, ofDocuments_cons index d ds, append_assoc, hl]

theorem unplaced_ofDocuments (index : Nat) (ds : List DocumentResult) :
    (ofDocuments index ds).unplaced = (ofDocuments 0 ds).unplaced := by
  suffices ∀ i j, (ofDocuments i ds).unplaced = (ofDocuments j ds).unplaced from this index 0
  induction ds with
  | nil => exact fun _ _ => rfl
  | cons d ds ih =>
    intro i j
    have hd : (ofDocuments i [d]).unplaced = (ofDocuments j [d]).unplaced := by
      have h : unplacedBy (List.map Resource.unplaced) (d.resources i) =
          unplacedBy (List.map Resource.unplaced) (d.resources j) := by
        rw [d.resources_unplaced i, d.resources_unplaced j]
      simp only [ofDocuments]
      cases hi : d.resources i <;> cases hj : d.resources j <;>
        simp_all [unplacedBy, unplaced]
    rw [ofDocuments_cons i, ofDocuments_cons j, unplaced_append, unplaced_append, hd,
      ih (i + 1) (j + 1)]

/-! What a manifest holds, document by document, in whatever order. -/

theorem error_eq_none_iff (index : Nat) (ds : List DocumentResult) :
    (ofDocuments index ds).error = none ↔ ∀ d ∈ ds, d.Sound := by
  induction ds generalizing index with
  | nil => simp [ofDocuments]
  | cons d ds ih =>
    rw [List.forall_mem_cons, ← ih (index + 1), ← d.sound_iff index]
    simp only [ofDocuments]
    cases d.resources index <;> simp

theorem exists_gvk_iff {index : Nat} {ds : List DocumentResult}
    (h : (ofDocuments index ds).error = none) (k : GroupVersionKind) :
    (∃ r ∈ (ofDocuments index ds).resources, r.gvk = k) ↔ ∃ d ∈ ds, d.Holds k := by
  induction ds generalizing index with
  | nil => simp [ofDocuments]
  | cons d ds ih =>
    have hc : (∃ e ∈ d :: ds, e.Holds k) ↔ d.Holds k ∨ ∃ e ∈ ds, e.Holds k := by simp
    rw [hc, ← d.holds_iff index]
    simp only [ofDocuments] at h ⊢
    cases hd : d.resources index with
    | error e => simp [hd] at h
    | ok rs =>
      simp only [hd] at h
      rw [← ih h]
      simp [or_and_right, exists_or]

theorem error_eq_none_of_perm {ds es : List DocumentResult} (h : ds.Perm es)
    (hd : (ofDocuments 0 ds).error = none) : (ofDocuments 0 es).error = none := by
  rw [error_eq_none_iff] at hd ⊢
  exact fun d he => hd d (h.mem_iff.2 he)

theorem exists_gvk_iff_of_perm {ds es : List DocumentResult} (h : ds.Perm es)
    (hd : (ofDocuments 0 ds).error = none) (k : GroupVersionKind) :
    (∃ r ∈ (ofDocuments 0 ds).resources, r.gvk = k) ↔
      ∃ r ∈ (ofDocuments 0 es).resources, r.gvk = k := by
  rw [exists_gvk_iff hd, exists_gvk_iff (error_eq_none_of_perm h hd)]
  simp only [h.mem_iff]

end Manifest
end DependentWatch
