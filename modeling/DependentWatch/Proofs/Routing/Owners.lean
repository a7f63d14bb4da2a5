import DependentWatch.Proofs.KindTexts
import DependentWatch.Proofs.Routing.OwnerTexts
import DependentWatch.Proofs.Routing.Requests
/-! The two ways in which a dependent names its owner, a controller reference and a pair of
annotations, lead to this owner and to no other. -/
namespace DependentWatch
open Text

/-- A name as the cluster takes it: a text without slashes, and without white space at its ends. -/
structure IsName (s : String) : Prop where
  nonempty : s ≠ ""
  noSlash : '/' ∉ s.toList
  first : s.toList.head?.any isBlank = false
  last : s.toList.getLast?.any isBlank = false

namespace Annotations

/-- The text of an owner reads as its namespace and its name. -/
theorem ofText?_namespacedName {ns : Option String} {name : String} (hname : IsName name)
    (hns : ∀ n ∈ ns, IsName n) : ofText? (namespacedName ns name) = some (ns, name) := by
  rw [ofText?_namespacedName_iff]
  refine ⟨hname.nonempty, ?_⟩
  cases ns with
  | none => exact ⟨hname.noSlash, hname.first, hname.last⟩
  | some n =>
    have hn : IsName n := hns n rfl
    exact ⟨hn.nonempty, hn.noSlash, hn.first, hname.last⟩

end Annotations

namespace Owner

def request (o : Owner) : Request := ⟨o.ns, o.name⟩

/-- An owner of a kind that lives in this scope, with names that the cluster takes. -/
structure Valid (o : Owner) (s : Scope) : Prop where
  scope : o.ns.isSome ↔ s = .namespaced
  kind : '.' ∉ o.gvk.kind.toList
  name : IsName o.name
  ns : ∀ n ∈ o.ns, IsName n

/-- The only controller of an object is the owner, in any version. -/
structure Controls (o : Owner) (s : Scope) (d : Object) : Prop where
  reference : ∃ r, (d.metadata.ownerReferences.getD []).filter (·.controller = some true) = [r] ∧
    r.kind = o.gvk.kind ∧ GroupVersionKind.IsVersionOf o.gvk.group r.apiVersion ∧ r.name = o.name
  ns : s = .namespaced → d.metadata.ns = o.ns

/-- The owner was written over the annotations of an object, whatever they were. -/
def Annotates (o : Owner) (d : Object) : Prop :=
  ∃ annotations, d.metadata.annotations = some (o.annotate annotations)

end Owner

namespace Handler

/-- With one controller among the references, a handler follows that one or none. -/
theorem find?_refersTo {refs : List OwnerReference} {r : OwnerReference}
    (h : refs.filter (·.controller = some true) = [r]) (group kind : String) :
    refs.find? (refersTo group kind) = if refersTo group kind r then some r else none := by
  -- What is followed is a controller, so the other references may be left out before.
  have hf : refs.find? (refersTo group kind) =
      (refs.filter (·.controller = some true)).find? (refersTo group kind) := by
    rw [List.find?_filter]
    congr 1
    funext s
    by_cases hs : s.controller = some true
    · simp [hs]
    · simp [refersTo, hs]
  rw [hf, h, List.find?_singleton]

theorem request?_ownerReference {d : Object} {r : OwnerReference} {group kind : String}
    (h : (d.metadata.ownerReferences.getD []).filter (·.controller = some true) = [r])
    (scope : Scope) :
    (Handler.ownerReference group kind scope).request? d =
      if refersTo group kind r then
        some ⟨if scope = .namespaced then d.metadata.ns else none, r.name⟩
      else none := by
  cases hr : d.metadata.ownerReferences with
  | none => simp [hr] at h
  | some refs =>
    rw [hr, Option.getD_some] at h
    have hf := find?_refersTo h group kind
    by_cases hc : refersTo group kind r
    · rw [if_pos hc] at hf ⊢
      cases scope <;> simp [request?, hr, hf]
    · rw [if_neg hc] at hf ⊢
      simp [request?, hr, hf]

theorem request?_annotations {d : Object} {o : Owner} (h : o.Annotates d) (ownerType : String) :
    (Handler.annotations ownerType).request? d =
      if o.gvk.typeText = ownerType then
        (Annotations.ofText? o.namespacedName).map fun (ns, name) => ⟨ns, name⟩
      else none := by
  obtain ⟨found, hd⟩ := h
  have ht := o.get?_primaryResourceType_annotate found
  have hp := o.primary?_annotate found
  by_cases hot : o.gvk.typeText = ownerType
  · cases ho : Annotations.ofText? o.namespacedName <;> simp [request?, hd, ht, hp, ho, hot]
  · simp [request?, hd, ht, hot]

end Handler

namespace Owner
variable {o : Owner} {s : Scope} {d : Object}

theorem request?_of_controls (h : o.Valid s) (hd : o.Controls s d) :
    (Handler.forOwner .ownerReference o.gvk s).request? d = some o.request := by
  obtain ⟨r, hr, hkind, hversion, hname⟩ := hd.reference
  have hc : r.controller = some true := by
    have hm : r ∈ (d.metadata.ownerReferences.getD []).filter (·.controller = some true) := by
      simp [hr]
    simpa using (List.mem_filter.1 hm).2
  have hrefers : Handler.refersTo o.gvk.group o.gvk.kind r := by
    simp [Handler.refersTo, hc, hkind, (GroupVersionKind.group_ofApiVersion_iff ..).2 hversion]
  have hns : (if s = .namespaced then d.metadata.ns else none) = o.ns := by
    split
    · next hs => exact hd.ns hs
    · next hs =>
      have hn : ¬ o.ns.isSome := mt h.scope.1 hs
      exact (Option.not_isSome_iff_eq_none.1 hn).symm
  rw [Handler.forOwner, Handler.request?_ownerReference hr, if_pos hrefers, hns, hname]
  rfl

theorem request?_other_of_controls (hd : o.Controls s d) {p : GroupVersionKind}
    (hp : p.group ≠ o.gvk.group ∨ p.kind ≠ o.gvk.kind) (t : Scope) :
    (Handler.forOwner .ownerReference p t).request? d = none := by
  obtain ⟨r, hr, hkind, hversion, _⟩ := hd.reference
  have hrefers : ¬ Handler.refersTo p.group p.kind r := by
    intro h
    simp only [Handler.refersTo, Bool.and_eq_true, beq_iff_eq,
      (GroupVersionKind.group_ofApiVersion_iff ..).2 hversion, hkind] at h
    obtain ⟨⟨_, hk⟩, hg⟩ := h
    obtain hp | hp := hp
    · exact hp hg.symm
    · exact hp hk.symm
  rw [Handler.forOwner, Handler.request?_ownerReference hr, if_neg hrefers]

theorem request?_of_annotates (h : o.Valid s) (hd : o.Annotates d) :
    (Handler.forOwner .annotations o.gvk s).request? d = some o.request := by
  have ho : Annotations.ofText? o.namespacedName = some (o.ns, o.name) :=
    Annotations.ofText?_namespacedName h.name h.ns
  rw [Handler.forOwner, Handler.request?_annotations hd, if_pos rfl, ho]
  rfl

theorem request?_other_of_annotates (h : o.Valid s) (hd : o.Annotates d) {p : GroupVersionKind}
    (hkind : '.' ∉ p.kind.toList) (hp : p.group ≠ o.gvk.group ∨ p.kind ≠ o.gvk.kind) (t : Scope) :
    (Handler.forOwner .annotations p t).request? d = none := by
  have ht : o.gvk.typeText ≠ p.typeText := by
    intro he
    obtain ⟨hg, hk⟩ := GroupVersionKind.typeText_inj h.kind hkind he
    obtain hp | hp := hp
    · exact hp hg.symm
    · exact hp hk.symm
  rw [Handler.forOwner, Handler.request?_annotations hd, if_neg ht]

/-- A dependent whose only controller is an owner, and one that is annotated with it, lead their
events back to that owner, and not to an owner of another group or kind. -/
theorem dependents_lead_to_owner (h : o.Valid s) :
    (∀ e : Event, (∀ d ∈ e.objects, o.Controls s d) →
      (Handler.forOwner .ownerReference o.gvk s).requests e = [⟨o.ns, o.name⟩]) ∧
    (∀ e : Event, (∀ d ∈ e.objects, o.Annotates d) →
      (Handler.forOwner .annotations o.gvk s).requests e = [⟨o.ns, o.name⟩]) ∧
    ∀ (p : GroupVersionKind) (t : Scope), '.' ∉ p.kind.toList →
      p.group ≠ o.gvk.group ∨ p.kind ≠ o.gvk.kind →
      (∀ e : Event, (∀ d ∈ e.objects, o.Controls s d) →
        (Handler.forOwner .ownerReference p t).requests e = []) ∧
      ∀ e : Event, (∀ d ∈ e.objects, o.Annotates d) →
        (Handler.forOwner .annotations p t).requests e = [] := by
  refine ⟨fun e he => ?_, fun e he => ?_, fun p t hkind hp => ⟨fun e he => ?_, fun e he => ?_⟩⟩
  · exact Handler.requests_eq_singleton _ fun d hd => request?_of_controls h (he d hd)
  · exact Handler.requests_eq_singleton _ fun d hd => request?_of_annotates h (he d hd)
  · exact Handler.requests_eq_nil _ fun d hd => request?_other_of_controls (he d hd) hp t
  · exact Handler.requests_eq_nil _ fun d hd => request?_other_of_annotates h (he d hd) hkind hp t

/-- A replica set with two owners: a deployment, which controls it, and a budget. -/
def ownedReplicaSet : Object :=
  ⟨some ⟨"apps/v1", "ReplicaSet"⟩,
    { ObjectMeta.empty with
      ns := some "ns"
      name := some "app-1"
      annotations := some (annotate ⟨⟨"apps", "v1", "Deployment"⟩, some "ns", "app"⟩
        (.ofList [("sherpack.io/primary-resource", "ns/other"), ("tier", "web")]))
      ownerReferences := some [
        ⟨"policy/v1", "PodDisruptionBudget", "app", "u", some false, none⟩,
        ⟨"apps/v1beta1", "Deployment", "app", "v", some true, some true⟩] }, []⟩

theorem dependents_lead_to_owner_deployment :
    let o : Owner := ⟨⟨"apps", "v1", "Deployment"⟩, some "ns", "app"⟩
    let p : GroupVersionKind := ⟨"apps", "v1", "StatefulSet"⟩
    o.Valid .namespaced ∧ o.Controls .namespaced ownedReplicaSet ∧ o.Annotates ownedReplicaSet ∧
      (Handler.forOwner .ownerReference o.gvk .namespaced).requests (.create ownedReplicaSet) =
        [⟨some "ns", "app"⟩] ∧
      (Handler.forOwner .annotations o.gvk .namespaced).requests (.delete ownedReplicaSet) =
        [⟨some "ns", "app"⟩] ∧
      (Handler.forOwner .ownerReference p .cluster).requests (.generic ownedReplicaSet) = [] ∧
      (Handler.forOwner .annotations p .cluster).requests (.create ownedReplicaSet) = [] := by
  intro o p
  have hname (s : String) (h : s = "ns" ∨ s = "app") : IsName s := by
    obtain rfl | rfl := h <;> exact ⟨by decide, by decide, by decide, by decide⟩
  have hv : o.Valid .namespaced := by
    refine ⟨by decide, by decide, hname _ (.inr rfl), fun n hn => hname n (.inl ?_)⟩
    exact (Option.some.inj hn).symm
  have hc : o.Controls .namespaced ownedReplicaSet := by
    refine ⟨⟨⟨"apps/v1beta1", "Deployment", "app", "v", some true, some true⟩, by decide, rfl, ?_,
      rfl⟩, fun _ => rfl⟩
    exact .inr ⟨"v1beta1", by decide, by decide⟩
  have ha : o.Annotates ownedReplicaSet := ⟨_, rfl⟩
  obtain ⟨h₁, h₂, h₃⟩ := dependents_lead_to_owner hv
  obtain ⟨h₃, h₄⟩ := h₃ p .cluster (by decide) (.inr (by decide))
  have single {P : Object → Prop} (h : P ownedReplicaSet) (e : Event)
      (he : e.objects = [ownedReplicaSet]) : ∀ d ∈ e.objects, P d := by
    simpa [he] using h
  exact ⟨hv, hc, ha, h₁ _ (single hc _ rfl), h₂ _ (single ha _ rfl), h₃ _ (single hc _ rfl),
    h₄ _ (single ha _ rfl)⟩

end Owner
end DependentWatch
