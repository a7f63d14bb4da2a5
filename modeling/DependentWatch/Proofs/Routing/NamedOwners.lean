import DependentWatch.Proofs.KindTexts
import DependentWatch.Proofs.Routing.OwnerTexts
import DependentWatch.Proofs.Routing.Requests
import Mathlib.Data.List.Sort
/-! The owners that an object names to a handler, said apart from how they are looked for. The
requests of an event are the owners that its objects name. -/
namespace DependentWatch

namespace Annotations

/-- A text reads as a namespace and a name with a slash between them, or as a name that is alone or
behind a slash. -/
inductive ReadsAs : String → Option String → String → Prop where
  | both {ns name : String} : ns ≠ "" → '/' ∉ ns.toList → name ≠ "" →
      ReadsAs (ns ++ "/" ++ name) (some ns) name
  | slashed {name : String} : name ≠ "" → ReadsAs ("/" ++ name) none name
  | alone {name : String} : name ≠ "" → '/' ∉ name.toList → ReadsAs name none name

theorem ofText?_eq_some_iff_readsAs {text name : String} {ns : Option String} :
    ofText? text = some (ns, name) ↔ ReadsAs (Text.trim text) ns name := by
  rw [ofText?_eq_some_iff, ← Text.toList_trim]
  generalize Text.trim text = core
  constructor
  · rintro ⟨hname, h⟩
    cases ns with
    | some n =>
      obtain ⟨hn, hslash, hcut⟩ := h
      have : core = n ++ "/" ++ name := by simpa [← String.toList_inj] using hcut
      exact this ▸ .both hn hslash hname
    | none =>
      obtain hcut | ⟨hcut, hslash⟩ := h
      · have : core = "/" ++ name := by simpa [← String.toList_inj] using hcut
        exact this ▸ .slashed hname
      · obtain rfl : core = name := String.toList_inj.1 hcut
        exact .alone hname hslash
  · intro h
    cases h with
    | both hn hslash hname => exact ⟨hname, hn, hslash, by simp⟩
    | slashed hname => exact ⟨hname, .inl (by simp)⟩
    | alone hname hslash => exact ⟨hname, .inr ⟨rfl, hslash⟩⟩

end Annotations

/-- A reference to a controller of this kind, in any version of this group. -/
structure OwnerReference.ControlledBy (group kind : String) (r : OwnerReference) : Prop where
  controller : r.controller = some true
  kind : r.kind = kind
  version : GroupVersionKind.IsVersionOf group r.apiVersion

namespace Request

/-- No namespace stands before every namespace; else the bytes of the namespaces decide, and in one
namespace those of the names. -/
inductive Precedes : Request → Request → Prop where
  | unplaced {n x y : String} : Precedes ⟨none, x⟩ ⟨some n, y⟩
  | ns {m n x y : String} : Text.bytes m < Text.bytes n → Precedes ⟨some m, x⟩ ⟨some n, y⟩
  | name {ns : Option String} {x y : String} : Text.bytes x < Text.bytes y →
      Precedes ⟨ns, x⟩ ⟨ns, y⟩

theorem before_iff {a b : Request} : a.before b ↔ a.Precedes b := by
  constructor
  · intro h
    obtain ⟨m, x⟩ := a
    obtain ⟨n, y⟩ := b
    cases m <;> cases n
    · exact .name (Text.bytes_lt_iff.2 (by simpa [before] using h))
    · exact .unplaced
    · simp [before] at h
    · next m n =>
      obtain hlt | ⟨rfl, hlt⟩ : m < n ∨ m = n ∧ x < y := by simpa [before] using h
      · exact .ns (Text.bytes_lt_iff.2 hlt)
      · exact .name (Text.bytes_lt_iff.2 hlt)
  · intro h
    cases h with
    | unplaced => rfl
    | ns h => simp [before, Text.bytes_lt_iff.1 h]
    | @name ns x y h => cases ns <;> simp [before, Text.bytes_lt_iff.1 h]

instance : Std.Irrefl fun a b : Request => a.before b = true where
  irrefl a := by simp [a.before_irrefl]

instance : Std.Antisymm fun a b : Request => a.before b = true where
  antisymm a b hab hba := by simpa [a.before_irrefl] using before_trans hab hba

end Request

/-- Objects of one namespace, with the same owner references and annotations. -/
structure Object.NamesAlike (a b : Object) : Prop where
  ns : a.metadata.ns = b.metadata.ns
  ownerReferences : a.metadata.ownerReferences = b.metadata.ownerReferences
  annotations : a.metadata.annotations = b.metadata.annotations

namespace Handler

/-- An object names an owner by its first reference to a controller of the owner's kind, or by its
annotations. -/
inductive Names (d : Object) : Handler → Request → Prop where
  | reference {group kind : String} {scope : Scope} {before after : List OwnerReference}
      {ref : OwnerReference} :
      d.metadata.ownerReferences = some (before ++ ref :: after) →
      (∀ r ∈ before, ¬ r.ControlledBy group kind) → ref.ControlledBy group kind →
      Names d (.ownerReference group kind scope)
        ⟨if scope = .namespaced then d.metadata.ns else none, ref.name⟩
  | annotations {ownerType text core name : String} {found : TextMap} {ns : Option String} :
      d.metadata.annotations = some found →
      found.get? Annotations.primaryResourceType = some ownerType →
      found.get? Annotations.primaryResource = some text →
      Text.TrimsTo text core → Annotations.ReadsAs core ns name →
      Names d (.annotations ownerType) ⟨ns, name⟩

theorem refersTo_iff {group kind : String} {r : OwnerReference} :
    refersTo group kind r ↔ r.ControlledBy group kind := by
  simp only [refersTo, Bool.and_eq_true, beq_iff_eq, GroupVersionKind.group_ofApiVersion_iff]
  constructor
  · rintro ⟨⟨hcontroller, hkind⟩, hversion⟩
    exact ⟨hcontroller, hkind, hversion⟩
  · rintro ⟨hcontroller, hkind, hversion⟩
    exact ⟨⟨hcontroller, hkind⟩, hversion⟩

theorem request?_ownerReference_iff {group kind : String} {scope : Scope} {d : Object}
    {r : Request} :
    (ownerReference group kind scope).request? d = some r ↔
      (ownerReference group kind scope).Names d r := by
  constructor
  · intro h
    obtain ⟨refs, hrefs, ref, hfind, rfl⟩ : ∃ refs, d.metadata.ownerReferences = some refs ∧
        ∃ ref, refs.find? (refersTo group kind) = some ref ∧
          ⟨if scope = .namespaced then d.metadata.ns else none, ref.name⟩ = r := by
      cases scope <;> simpa [request?, Option.bind_eq_some_iff] using h
    obtain ⟨hfound, before, after, rfl, hbefore⟩ := List.find?_eq_some_iff_append.1 hfind
    refine .reference hrefs (fun s hs hc => ?_) (refersTo_iff.1 hfound)
    simpa [refersTo_iff.2 hc] using hbefore s hs
  · intro h
    cases h with
    | @reference _ _ _ before after ref hrefs hbefore hfound =>
      have hfind : (before ++ ref :: after).find? (refersTo group kind) = some ref := by
        refine List.find?_eq_some_iff_append.2
          ⟨refersTo_iff.2 hfound, before, after, rfl, fun s hs => ?_⟩
        simpa using mt refersTo_iff.1 (hbefore s hs)
      cases scope <;> simp [request?, hrefs, hfind]

theorem request?_annotations_iff {ownerType : String} {d : Object} {r : Request} :
    (annotations ownerType).request? d = some r ↔ (annotations ownerType).Names d r := by
  constructor
  · intro h
    obtain ⟨found, hfound, htype, ns, name, ⟨text, htext, hread⟩, rfl⟩ :
        ∃ found, d.metadata.annotations = some found ∧
          found.get? Annotations.primaryResourceType = some ownerType ∧
          ∃ ns name, (∃ text, found.get? Annotations.primaryResource = some text ∧
            Annotations.ofText? text = some (ns, name)) ∧ ⟨ns, name⟩ = r := by
      simpa [request?, Annotations.primary?, Option.bind_eq_some_iff] using h
    exact .annotations hfound htype htext (Text.trimsTo_iff.2 rfl)
      (Annotations.ofText?_eq_some_iff_readsAs.1 hread)
  · intro h
    cases h with
    | annotations hfound htype htext htrim hread =>
      obtain rfl := Text.trimsTo_iff.1 htrim
      have hprimary := Annotations.ofText?_eq_some_iff_readsAs.2 hread
      simp [request?, Annotations.primary?, hfound, htype, htext, hprimary]

theorem request?_eq_some_iff {h : Handler} {d : Object} {r : Request} :
    h.request? d = some r ↔ h.Names d r := by
  cases h with
  | ownerReference group kind scope => exact request?_ownerReference_iff
  | annotations ownerType => exact request?_annotations_iff

variable (h : Handler)

theorem requests_swap (old new : Object) :
    h.requests (.update new old) = h.requests (.update old new) := by
  refine (h.pairwise_requests _).eq_of_mem_iff (h.pairwise_requests _) fun r => ?_
  rw [mem_requests_update_iff, mem_requests_update_iff]
  exact or_comm

theorem requests_congr {e e' : Event} (he : List.Forall₂ Object.NamesAlike e.objects e'.objects) :
    h.requests e = h.requests e' := by
  have hall : ∀ {os os' : List Object}, List.Forall₂ Object.NamesAlike os os' →
      os.filterMap h.request? = os'.filterMap h.request? := by
    intro os os' ho
    induction ho with
    | nil => rfl
    | cons ho _ ih =>
      have hr := h.request?_congr ho.ns ho.ownerReferences ho.annotations
      simp only [List.filterMap_cons, hr, ih]
  rw [requests, requests, hall he]

/-- The requests of an event are the owners that its objects name, each once and in the order of
their namespaces and names. So it does not matter whether an object was created, deleted or seen
otherwise; an update asks for the owners of both of its objects, whichever is the old one; and
nothing counts in an object but its namespace, owner references and annotations. -/
theorem requests_are_named_owners :
    (∀ e : Event, (h.requests e).Pairwise Request.Precedes ∧ (h.requests e).Nodup ∧
      ∀ r, r ∈ h.requests e ↔ ∃ d ∈ e.objects, h.Names d r) ∧
    (∀ o : Object, h.requests (.delete o) = h.requests (.create o) ∧
      h.requests (.generic o) = h.requests (.create o)) ∧
    (∀ old new : Object,
      (∀ r, r ∈ h.requests (.update old new) ↔
        r ∈ h.requests (.create old) ∨ r ∈ h.requests (.create new)) ∧
      h.requests (.update new old) = h.requests (.update old new)) ∧
    ∀ e e' : Event, List.Forall₂ Object.NamesAlike e.objects e'.objects →
      h.requests e = h.requests e' := by
  refine ⟨fun e => ⟨?_, ?_, fun r => ?_⟩, fun o => ⟨rfl, rfl⟩,
    fun old new => ⟨h.mem_requests_update_iff old new, h.requests_swap old new⟩,
    fun e e' => h.requests_congr⟩
  · exact (h.pairwise_requests e).imp Request.before_iff.1
  · exact (h.pairwise_requests e).nodup
  · rw [mem_requests_iff]
    simp only [request?_eq_some_iff]

/-- Two references point to a controller of the kind, and three more differ from that in one thing
each. -/
theorem requests_are_named_owners_first :
    let h : Handler := .ownerReference "apps" "Deployment" .namespaced
    let refs : List OwnerReference := [
      ⟨"apps/v1", "Deployment", "idle", "", none, none⟩,
      ⟨"apps/v1", "ReplicaSet", "set", "", some true, none⟩,
      ⟨"extensions/v1beta1", "Deployment", "old", "", some true, none⟩,
      ⟨"apps/v1beta2", "Deployment", "web", "", some true, none⟩,
      ⟨"apps/v1", "Deployment", "next", "", some true, none⟩]
    let d : Object := ⟨none, { ObjectMeta.empty with ns := some "prod", ownerReferences := refs }, []⟩
    let gone : Object := { d with other := [("status", .null)] }
    List.Forall₂ Object.NamesAlike (Event.delete gone).objects (Event.create d).objects ∧
      h.requests (.delete gone) = [⟨some "prod", "web"⟩] := by
  intro h refs d gone
  have halike : List.Forall₂ Object.NamesAlike (Event.delete gone).objects
      (Event.create d).objects := .cons ⟨rfl, rfl, rfl⟩ .nil
  obtain ⟨-, -, -, hsame⟩ := requests_are_named_owners h
  exact ⟨halike, (hsame _ _ halike).trans (by decide)⟩

end Handler
end DependentWatch
