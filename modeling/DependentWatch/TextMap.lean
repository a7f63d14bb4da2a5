/-! Maps from texts to texts, kept in the order of their keys, so that two maps with the same
entries are equal. -/
namespace DependentWatch

structure TextMap where
  entries : List (String × String)
  sorted : entries.Pairwise (fun a b => a.1 < b.1)

namespace TextMap

def empty : TextMap := ⟨[], .nil⟩

instance : Inhabited TextMap := ⟨empty⟩

@[ext] theorem ext {a b : TextMap} (h : a.entries = b.entries) : a = b := by
  cases a; cases b; simp_all

instance : DecidableEq TextMap := fun a b =>
  decidable_of_iff (a.entries = b.entries) ⟨ext, fun h => h ▸ rfl⟩

/-- Puts an entry at its place, over an entry of the same key. -/
def insertEntry (k v : String) : List (String × String) → List (String × String)
  | [] => [(k, v)]
  | e :: es =>
    if k < e.1 then (k, v) :: e :: es
    else if k = e.1 then (k, v) :: es
    else e :: insertEntry k v es

theorem mem_insertEntry {k v : String} {e : String × String} {es : List (String × String)}
    (h : e ∈ insertEntry k v es) : e = (k, v) ∨ e ∈ es := by
  induction es with
  | nil => simpa [insertEntry] using h
  | cons f fs ih =>
    simp only [insertEntry] at h
    split at h
    · simpa using h
    · split at h <;> simp only [List.mem_cons] at h ⊢
      · rcases h with h | h
        · exact .inl h
        · exact .inr (.inr h)
      · rcases h with h | h
        · exact .inr (.inl h)
        · exact (ih h).imp_right .inr

theorem sorted_insertEntry (k v : String) {es : List (String × String)}
    (h : es.Pairwise (fun a b => a.1 < b.1)) :
    (insertEntry k v es).Pairwise (fun a b => a.1 < b.1) := by
  induction es with
  | nil => simp [insertEntry]
  | cons e es ih =>
    obtain ⟨h₁, h₂⟩ := List.pairwise_cons.1 h
    simp only [insertEntry]
    split
    · next hk =>
      refine List.pairwise_cons.2 ⟨fun f hf => ?_, h⟩
      rcases List.mem_cons.1 hf with rfl | hf
      · exact hk
      · exact String.lt_trans hk (h₁ f hf)
    · split
      · next hk => exact List.pairwise_cons.2 ⟨fun f hf => hk ▸ h₁ f hf, h₂⟩
      · next hn hk =>
        refine List.pairwise_cons.2 ⟨fun f hf => ?_, ih h₂⟩
        rcases mem_insertEntry hf with rfl | hf
        · refine Classical.byContradiction fun hlt => hk ?_
          exact String.le_antisymm (String.not_lt.1 hlt) (String.not_lt.1 hn)
        · exact h₁ f hf

def insert (m : TextMap) (k v : String) : TextMap :=
  ⟨insertEntry k v m.entries, sorted_insertEntry k v m.sorted⟩

/-- The later of two entries with one key stays. -/
def ofList (es : List (String × String)) : TextMap :=
  es.foldl (fun m e => m.insert e.1 e.2) empty

def get? (m : TextMap) (k : String) : Option String := m.entries.lookup k

def isEmpty (m : TextMap) : Bool := m.entries.isEmpty

theorem lookup_cons_eq (k v l : String) (es : List (String × String)) :
    ((k, v) :: es).lookup l = if l = k then some v else es.lookup l := by
  by_cases h : l = k
  · simp [h]
  · simp [List.lookup_cons, beq_false_of_ne h, h]

theorem lookup_insertEntry (k v l : String) (es : List (String × String)) :
    (insertEntry k v es).lookup l = if l = k then some v else es.lookup l := by
  induction es with
  | nil => exact lookup_cons_eq k v l []
  | cons e es ih =>
    obtain ⟨k', v'⟩ := e
    simp only [insertEntry]
    split
    · simp [lookup_cons_eq]
    · split
      · next hk => subst hk; by_cases h : l = k <;> simp [lookup_cons_eq, h]
      · next hk =>
        by_cases h : l = k
        · subst h; simp [lookup_cons_eq, ih, hk]
        · simp [lookup_cons_eq, ih, h]

theorem get?_insert (m : TextMap) (k v l : String) :
    (m.insert k v).get? l = if l = k then some v else m.get? l :=
  lookup_insertEntry k v l m.entries

end TextMap
end DependentWatch
