import DependentWatch.Proofs.Object.Comparable
/-! Updates that are dropped, and what any number of them in a row leave as it was. -/
namespace DependentWatch

/-- What the server does to an object on its own account: a value is set, changed or taken away. -/
inductive Upkeep where
  | status (value : Option Json)
  | resourceVersion (value : Option String)
  | managedFields (value : Option (List Json))

def Object.keptUp (o : Object) : Upkeep → Object
  | .status none => { o with other := o.other.filter (·.1 ≠ "status") }
  | .status (some v) => { o with other := Json.insertField "status" v o.other }
  | .resourceVersion v => { o with metadata := { o.metadata with resourceVersion := v } }
  | .managedFields v => { o with metadata := { o.metadata with managedFields := v } }

theorem Object.significant_keptUp (o : Object) (u : Upkeep) :
    (o.keptUp u).significant = o.significant := by
  cases u with
  | status value =>
    cases value with
    | none => simp [keptUp, significant, List.filter_filter]
    | some v => simp only [keptUp, significant, Json.filter_insertField]
  | resourceVersion value => rfl
  | managedFields value => rfl

theorem Object.significant_keptUp_all (o : Object) (us : List Upkeep) :
    (us.foldl keptUp o).significant = o.significant := by
  induction us generalizing o with
  | nil => rfl
  | cons u us ih => rw [List.foldl_cons, ih, significant_keptUp]

/-- The other fields are the same, but for the status, just where the same is found in both. -/
theorem Object.other_eq_iff {a b : Object} (ha : a.WellFormed) (hb : b.WellFormed) :
    a.other.filter (·.1 ≠ "status") = b.other.filter (·.1 ≠ "status") ↔
      ∀ k ≠ "status", a.other.lookup k = b.other.lookup k := by
  constructor
  · intro h k hk
    have hfound := congrArg (List.lookup k) h
    rwa [lookup_filter_ne, lookup_filter_ne, if_neg hk, if_neg hk] at hfound
  · intro h
    refine eq_of_lookup_eq (ha.inOrder.filter _) (hb.inOrder.filter _) fun k => ?_
    rw [lookup_filter_ne, lookup_filter_ne]
    split
    · rfl
    · next hk => exact h k hk

namespace Filter

/-- The update from one object to the other does not pass. -/
def Drops (old new : Object) : Prop := dependentChanges.allows (.update old new) = false

theorem drops_iff {a b : Object} : Drops a b ↔ a.significant = b.significant :=
  decide_eq_false_iff_not.trans Classical.not_not

theorem drops_iff_sameContent {a b : Object} : Drops a b ↔ a.SameContent b :=
  drops_iff.trans (Object.significant_eq_iff a b)

theorem drops_equivalence : Equivalence Drops where
  refl _ := drops_iff.2 rfl
  symm h := drops_iff.2 (drops_iff.1 h).symm
  trans h h' := drops_iff.2 ((drops_iff.1 h).trans (drops_iff.1 h'))

theorem drops_run {o : Nat → Object} {n : Nat} (h : ∀ i < n, Drops (o i) (o (i + 1))) :
    Drops (o 0) (o n) := by
  induction n with
  | zero => exact drops_equivalence.refl _
  | succ n ih =>
    have hstart : Drops (o 0) (o n) := ih fun i hi => h i (Nat.lt_succ_of_lt hi)
    exact drops_equivalence.trans hstart (h n (Nat.lt_succ_self n))

theorem allows_update_congr {a b c d : Object} (hac : a.significant = c.significant)
    (hbd : b.significant = d.significant) :
    dependentChanges.allows (.update a b) = dependentChanges.allows (.update c d) := by
  simp only [allows, hac, hbd]

/-- What is dropped are the updates between objects of the same content, as their trees tell it. The
server's own changes to either object do not count, nor does the direction, and however many
updates in a row are dropped, nothing has changed in the end. -/
theorem unchanged_content_is_dropped :
    (∀ a b : Object, a.Decoded → b.Decoded →
      (Drops a b ↔
        a.types = b.types ∧
        a.metadata = { b.metadata with
          resourceVersion := a.metadata.resourceVersion
          managedFields := a.metadata.managedFields } ∧
        ∀ k ≠ "status", a.other.lookup k = b.other.lookup k) ∧
      (Drops a b ↔ a.comparable = b.comparable)) ∧
    (∀ o, dependentChanges.allows (.create o) ∧ dependentChanges.allows (.delete o) ∧
      dependentChanges.allows (.generic o)) ∧
    (∀ (a b : Object) (us vs : List Upkeep),
      dependentChanges.allows (.update (us.foldl Object.keptUp a) (vs.foldl Object.keptUp b)) =
        dependentChanges.allows (.update a b)) ∧
    (∀ a b, dependentChanges.allows (.update b a) = dependentChanges.allows (.update a b)) ∧
    Equivalence Drops ∧
    ∀ (o : Nat → Object) (n : Nat), (∀ i < n, Drops (o i) (o (i + 1))) → Drops (o 0) (o n) := by
  refine ⟨fun a b ha hb => ⟨?_, ?_⟩, fun o => ⟨rfl, rfl, rfl⟩, fun a b us vs => ?_, fun a b => ?_,
    drops_equivalence, fun _ _ => drops_run⟩
  · rw [drops_iff_sameContent, ← Object.other_eq_iff ha.wellFormed hb.wellFormed]
    exact ⟨fun h => ⟨h.types, h.metadata, h.other⟩, fun h => ⟨h.1, h.2.1, h.2.2⟩⟩
  · rw [drops_iff_sameContent, Object.comparable_eq_iff ha.wellFormed hb.wellFormed]
  · exact allows_update_congr (Object.significant_keptUp_all a us) (Object.significant_keptUp_all b vs)
  · simp only [allows, ne_comm]

theorem unchanged_content_is_dropped_status :
    Drops ⟨some ⟨"v1", "Pod"⟩, .empty, [("status", .str "Pending")]⟩
      ⟨some ⟨"v1", "Pod"⟩, { ObjectMeta.empty with resourceVersion := some "2" },
        [("status", .str "Running")]⟩ :=
  (unchanged_content_is_dropped.1 _ _
    ⟨.obj [("apiVersion", .str "v1"), ("kind", .str "Pod"), ("status", .str "Pending")],
      by decide, rfl⟩
    ⟨.obj [("apiVersion", .str "v1"), ("kind", .str "Pod"),
      ("metadata", .obj [("resourceVersion", .str "2")]), ("status", .str "Running")],
      by decide, rfl⟩).1.2
    ⟨rfl, rfl, fun k hk => by simp [Object.behindTypes, lookup_cons_ite, hk]⟩

end Filter
end DependentWatch
