import DependentWatch.Handler
import DependentWatch.Proofs.Order
/-! The requests of an event: the owners that its objects name, in order and each once. -/
namespace DependentWatch

namespace Request

theorem before_irrefl (r : Request) : r.before r = false := by
  cases h : r.ns <;> simp [before, h]

theorem before_trans {a b c : Request} (hab : a.before b) (hbc : b.before c) : a.before c := by
  obtain ⟨m, x⟩ := a
  obtain ⟨n, y⟩ := b
  obtain ⟨l, z⟩ := c
  cases m with
  | none =>
    cases l with
    | some l => rfl
    | none =>
      cases n with
      | none =>
        simp only [before, decide_eq_true_eq] at hab hbc ⊢
        exact String.lt_trans hab hbc
      | some n => simp [before] at hbc
  | some m =>
    cases n with
    | none => simp [before] at hab
    | some n =>
      cases l with
      | none => simp [before] at hbc
      | some l =>
        simp only [before, Bool.or_eq_true, Bool.and_eq_true, decide_eq_true_eq, beq_iff_eq]
          at hab hbc ⊢
        obtain hab | ⟨rfl, hab⟩ := hab <;> obtain hbc | ⟨rfl, hbc⟩ := hbc
        · exact .inl (String.lt_trans hab hbc)
        · exact .inl hab
        · exact .inl hbc
        · exact .inr ⟨rfl, String.lt_trans hab hbc⟩

theorem before_total (a b : Request) : a.before b ∨ a = b ∨ b.before a := by
  obtain ⟨m, x⟩ := a
  obtain ⟨n, y⟩ := b
  cases m <;> cases n
  · simpa [before] using Text.lt_trichotomy x y
  · simp [before]
  · simp [before]
  · next m n =>
    obtain h | rfl | h := Text.lt_trichotomy m n
    · simp [before, h]
    · simpa [before] using Text.lt_trichotomy x y
    · simp [before, h]

theorem insert_eq (r : Request) (rs : List Request) :
    r.insert rs = insertOnce (fun a b => a.before b = true) r rs := by
  induction rs with
  | nil => rfl
  | cons s rs ih => simp only [insert, insertOnce, ih]

theorem sorted_eq (rs : List Request) :
    sorted rs = rs.foldr (insertOnce fun a b => a.before b = true) [] :=
  congrArg (fun f => rs.foldr f []) (funext fun r => funext fun rs => r.insert_eq rs)

theorem mem_sorted (r : Request) (rs : List Request) : r ∈ sorted rs ↔ r ∈ rs := by
  rw [sorted_eq, mem_foldr_insertOnce]

theorem pairwise_sorted (rs : List Request) : (sorted rs).Pairwise fun a b => a.before b := by
  rw [sorted_eq]
  exact pairwise_foldr_insertOnce (fun a b => a.before b = true) (fun _ _ _ => before_trans)
    before_total rs

end Request

namespace Handler
variable (h : Handler)

theorem pairwise_requests (e : Event) : (h.requests e).Pairwise fun a b => a.before b :=
  Request.pairwise_sorted _

theorem mem_requests_iff (e : Event) (r : Request) :
    r ∈ h.requests e ↔ ∃ o ∈ e.objects, h.request? o = some r := by
  unfold requests
  rw [Request.mem_sorted, List.mem_filterMap]

/-- An event of one object asks for the owner that it names. -/
theorem requests_eq_toList {e : Event} {o : Object} (he : e.objects = [o]) :
    h.requests e = (h.request? o).toList := by
  unfold requests
  rw [he]
  cases ho : h.request? o with
  | none => simp [ho, Request.sorted]
  | some r => simp [ho, Request.sorted, Request.insert]

/-- An event asks once for an owner that all of its objects name. -/
theorem requests_eq_singleton {e : Event} {r : Request}
    (he : ∀ o ∈ e.objects, h.request? o = some r) : h.requests e = [r] := by
  cases e with
  | update old new =>
    have hold : h.request? old = some r := he old (by simp [Event.objects])
    have hnew : h.request? new = some r := he new (by simp [Event.objects])
    simp [requests, Event.objects, hold, hnew, Request.sorted, Request.insert,
      Request.before_irrefl]
  | create o => rw [h.requests_eq_toList rfl, he o (by simp [Event.objects])]; rfl
  | delete o => rw [h.requests_eq_toList rfl, he o (by simp [Event.objects])]; rfl
  | generic o => rw [h.requests_eq_toList rfl, he o (by simp [Event.objects])]; rfl

theorem requests_eq_nil {e : Event} (he : ∀ o ∈ e.objects, h.request? o = none) :
    h.requests e = [] := by
  refine List.eq_nil_iff_forall_not_mem.2 fun r hr => ?_
  obtain ⟨o, ho, hor⟩ := (h.mem_requests_iff e r).1 hr
  exact nomatch (he o ho).symm.trans hor

theorem mem_requests_update_iff (old new : Object) (r : Request) :
    r ∈ h.requests (.update old new) ↔
      r ∈ h.requests (.create old) ∨ r ∈ h.requests (.create new) := by
  simp only [mem_requests_iff, Event.objects, List.mem_cons, List.not_mem_nil, or_false,
    exists_eq_left, exists_eq_or_imp]

/-- An owner is named by the namespace, the owner references and the annotations alone. -/
theorem request?_congr {a b : Object} (hns : a.metadata.ns = b.metadata.ns)
    (hrefs : a.metadata.ownerReferences = b.metadata.ownerReferences)
    (hann : a.metadata.annotations = b.metadata.annotations) : h.request? a = h.request? b := by
  cases h with
  | ownerReference group kind scope => simp only [request?, hns, hrefs]
  | annotations ownerType => simp only [request?, hann]

end Handler
end DependentWatch
