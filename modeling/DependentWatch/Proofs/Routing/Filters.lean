import DependentWatch.Event
/-! Which events pass the filters. -/
namespace DependentWatch

/-- The objects differ at most in their status and in the bookkeeping of the server. -/
structure Object.SameContent (a b : Object) : Prop where
  types : a.types = b.types
  metadata : a.metadata = { b.metadata with
    resourceVersion := a.metadata.resourceVersion
    managedFields := a.metadata.managedFields }
  other : a.other.filter (·.1 ≠ "status") = b.other.filter (·.1 ≠ "status")

theorem Object.significant_eq_iff (a b : Object) :
    a.significant = b.significant ↔ a.SameContent b := by
  constructor
  · intro h
    have hm : a.significant.metadata = b.significant.metadata := congrArg Object.metadata h
    simp only [significant, ObjectMeta.mk.injEq] at hm
    refine ⟨(congrArg Object.types h :), ?_, (congrArg Object.other h :)⟩
    cases ha : a.metadata
    simp_all
  · intro h
    simp only [significant, h.types, h.other]
    rw [h.metadata]

namespace Filter

theorem allowsAll_iff (filters : List Filter) (e : Event) :
    allowsAll filters e ↔ ∀ f ∈ filters, f.allows e :=
  List.all_eq_true

theorem allows_update (old new : Object) :
    dependentChanges.allows (.update old new) ↔ ¬ old.SameContent new := by
  rw [← Object.significant_eq_iff]
  exact decide_eq_true_iff

/-- What does not pass are the updates that change nothing but the status and the bookkeeping. -/
theorem allows_dependentChanges_iff (e : Event) :
    dependentChanges.allows e ↔ ¬ ∃ old new, e = .update old new ∧ old.SameContent new := by
  cases e with
  | update old new =>
    rw [allows_update]
    simp
  | _ => simp [allows]

theorem allows_matchLabels_iff (labels : TextMap) (e : Event) :
    (matchLabels labels).allows e ↔ ∃ o ∈ e.objects, o.hasLabels labels :=
  List.any_eq_true

end Filter
end DependentWatch
