import DependentWatch.ObjectCache
import DependentWatch.Proofs.History
import DependentWatch.Proofs.Lookup
/-! What a notice does to the cached objects, and which events it makes. Every object is cached once,
under its own key. -/
namespace DependentWatch

namespace Notice

def object? : Notice → Option Object
  | listed o | applied o | deleted o => some o
  | listStart | listEnd => none

def key? (n : Notice) : Option ObjectKey := n.object?.bind Object.key?

end Notice

namespace Event

/-- The key of the object that is there, or was. -/
def key? : Event → Option ObjectKey
  | create o | update _ o | delete o | generic o => o.key?

/-- Events of different keys: none of the others is about the same key. -/
theorem key?_ne_of_nodup {es before after : List Event} {e : Event} {k : ObjectKey}
    (h : (es.filterMap key?).Nodup) (he : es = before ++ e :: after) (hk : e.key? = some k) :
    (∀ b ∈ before, b.key? ≠ some k) ∧ ∀ a ∈ after, a.key? ≠ some k := by
  have hs : es.filterMap key? = before.filterMap key? ++ k :: after.filterMap key? := by
    rw [he, List.filterMap_append, List.filterMap_cons_some hk]
  rw [hs, List.nodup_append, List.nodup_cons] at h
  obtain ⟨_, ⟨ha, _⟩, hb⟩ := h
  constructor
  · intro b hm hbk
    exact hb k (List.mem_filterMap.2 ⟨b, hm, hbk⟩) k List.mem_cons_self rfl
  · intro a hm hak
    exact ha (List.mem_filterMap.2 ⟨a, hm, hak⟩)

end Event

namespace ObjectCache

def system : System ObjectCache Notice Event where
  step c n := (c.observe n).2
  marks c n := (c.observe n).1

theorem observeAll_eq (c : ObjectCache) (ns : List Notice) :
    c.observeAll ns = (system.log c ns, system.run c ns) := by
  induction ns generalizing c with
  | nil => rfl
  | cons n ns ih => simp only [observeAll, ih, System.log, System.run, system]

/-! One object that is put into the cache. -/

theorem get?_put (c : ObjectCache) (k x : ObjectKey) (o : Object) :
    (c.put k o).get? x = if x = k then some o else c.get? x :=
  lookup_put c.objects k x o

theorem get?_remove (c : ObjectCache) (k x : ObjectKey) :
    (c.remove k).get? x = if x = k then none else c.get? x :=
  lookup_filter_ne c.objects k x

theorem apply_generic (c : ObjectCache) {o : Object} (h : o.key? = none) :
    c.apply o = (.generic o, c) := by
  simp only [apply, h]

theorem apply_create {c : ObjectCache} {o : Object} {k : ObjectKey} (h : o.key? = some k)
    (hk : c.get? k = none) : c.apply o = (.create o, c.put k o) := by
  simp only [apply, h, hk]

theorem apply_update {c : ObjectCache} {o old : Object} {k : ObjectKey} (h : o.key? = some k)
    (hk : c.get? k = some old) : c.apply o = (.update old o, c.put k o) := by
  simp only [apply, h, hk]

theorem apply_cases (c : ObjectCache) (o : Object) :
    (o.key? = none ∧ c.apply o = (.generic o, c)) ∨
    (∃ k, o.key? = some k ∧ c.get? k = none ∧ c.apply o = (.create o, c.put k o)) ∨
    ∃ k old, o.key? = some k ∧ c.get? k = some old ∧ c.apply o = (.update old o, c.put k o) := by
  cases h : o.key? with
  | none => exact .inl ⟨rfl, c.apply_generic h⟩
  | some k =>
    cases hk : c.get? k with
    | none => exact .inr (.inl ⟨k, rfl, hk, apply_create h hk⟩)
    | some old => exact .inr (.inr ⟨k, old, rfl, hk, apply_update h hk⟩)

theorem key?_apply (c : ObjectCache) (o : Object) : (c.apply o).1.key? = o.key? := by
  obtain ⟨_, h⟩ | ⟨k, _, _, h⟩ | ⟨k, old, _, _, h⟩ := c.apply_cases o <;> rw [h] <;> rfl

theorem get?_apply (c : ObjectCache) (o : Object) (x : ObjectKey) :
    (c.apply o).2.get? x = if o.key? = some x then some o else c.get? x := by
  have put (k : ObjectKey) (h : o.key? = some k) :
      (c.put k o).get? x = if o.key? = some x then some o else c.get? x := by
    rw [get?_put, h]
    by_cases hx : x = k
    · simp [hx]
    · simp [hx, Ne.symm hx]
  obtain ⟨h, ha⟩ | ⟨k, h, _, ha⟩ | ⟨k, old, h, _, ha⟩ := c.apply_cases o
  · simp [ha, h]
  · rw [ha, put k h]
  · rw [ha, put k h]

theorem seen_apply (c : ObjectCache) (o : Object) : (c.apply o).2.seen = c.seen := by
  obtain ⟨_, h⟩ | ⟨k, _, _, h⟩ | ⟨k, old, _, _, h⟩ := c.apply_cases o <;> rw [h] <;> rfl

/-- The list that goes on has no part in what becomes of an object. -/
theorem apply_seen (c : ObjectCache) (seen : Option (List ObjectKey)) (o : Object) :
    { c with seen }.apply o = ((c.apply o).1, { (c.apply o).2 with seen }) := by
  obtain ⟨h, ha⟩ | ⟨k, h, hk, ha⟩ | ⟨k, old, h, hk, ha⟩ := c.apply_cases o
  · rw [ha]
    exact apply_generic _ h
  · rw [ha]
    exact apply_create h hk
  · rw [ha]
    exact apply_update h hk

/-- The event of an object depends on no more than what was cached under its key. -/
theorem apply_fst_congr {c d : ObjectCache} {o : Object}
    (h : ∀ k, o.key? = some k → c.get? k = d.get? k) : (c.apply o).1 = (d.apply o).1 := by
  obtain ⟨hn, ha⟩ | ⟨k, hk, hc, ha⟩ | ⟨k, old, hk, hc, ha⟩ := c.apply_cases o
  · rw [ha, d.apply_generic hn]
  · rw [ha, apply_create hk ((h k hk).symm.trans hc)]
  · rw [ha, apply_update hk ((h k hk).symm.trans hc)]

/-! The notices one by one: their events, what they leave in the cache, and what of a list. -/

theorem observe_listed (c : ObjectCache) (o : Object) :
    c.observe (.listed o) =
      ([(c.apply o).1], { (c.apply o).2 with seen := c.seen.map (o.key?.toList ++ ·) }) := by
  simp only [observe, apply_seen]

theorem observe_listEnd_none {c : ObjectCache} (h : c.seen = none) :
    c.observe .listEnd = ([], c) := by
  simp only [observe, h]

theorem observe_listEnd {c : ObjectCache} {keys : List ObjectKey} (h : c.seen = some keys) :
    c.observe .listEnd =
      ((c.objects.filter (·.1 ∉ keys)).map fun e => .delete e.2,
        ⟨c.objects.filter (·.1 ∈ keys), none⟩) := by
  simp only [observe, h, List.partition_eq_filter_filter]
  congr 3
  funext e
  simp

theorem get?_listed (c : ObjectCache) (o : Object) (x : ObjectKey) :
    (c.observe (.listed o)).2.get? x = if o.key? = some x then some o else c.get? x := by
  rw [observe_listed, ← get?_apply]
  rfl

theorem get?_applied (c : ObjectCache) (o : Object) (x : ObjectKey) :
    (c.observe (.applied o)).2.get? x = if o.key? = some x then some o else c.get? x :=
  c.get?_apply o x

theorem get?_deleted (c : ObjectCache) (o : Object) (x : ObjectKey) :
    (c.observe (.deleted o)).2.get? x = if o.key? = some x then none else c.get? x := by
  cases h : o.key? with
  | none => simp [observe, h]
  | some k =>
    simp only [observe, h, get?_remove, Option.some.injEq, eq_comm (a := k)]

theorem get?_listEnd {c : ObjectCache} {keys : List ObjectKey} (h : c.seen = some keys)
    (x : ObjectKey) : (c.observe .listEnd).2.get? x = if x ∈ keys then c.get? x else none := by
  rw [observe_listEnd h]
  have hf := lookup_filter_key c.objects (fun k => decide (k ∈ keys)) x
  simp only [decide_eq_true_eq] at hf
  exact hf

/-- A notice about another object, other than the end of a list, leaves an object as it is. -/
theorem get?_observe_of_ne {c : ObjectCache} {n : Notice} {x : ObjectKey} (h : n.key? ≠ some x)
    (hn : n ≠ .listEnd) : (c.observe n).2.get? x = c.get? x := by
  cases n with
  | listStart => rfl
  | listed o => exact (c.get?_listed o x).trans (if_neg h)
  | listEnd => exact absurd rfl hn
  | applied o => exact (c.get?_applied o x).trans (if_neg h)
  | deleted o => exact (c.get?_deleted o x).trans (if_neg h)

theorem seen_deleted (c : ObjectCache) (o : Object) :
    (c.observe (.deleted o)).2.seen = c.seen := by
  cases h : o.key? with
  | none => simp [observe, h]
  | some k => simp [observe, h, remove]

/-! Each key stands once, with an object that has it. -/

structure Keyed (c : ObjectCache) : Prop where
  nodup : (c.objects.map Prod.fst).Nodup
  key (e : ObjectKey × Object) : e ∈ c.objects → e.2.key? = some e.1

namespace Keyed
variable {c : ObjectCache}

theorem empty : Keyed .empty := by
  constructor
  · exact List.nodup_nil
  · intro e he
    cases he

theorem filter (h : Keyed c) (p : ObjectKey × Object → Bool) (seen : Option (List ObjectKey)) :
    Keyed ⟨c.objects.filter p, seen⟩ where
  nodup := (List.filter_sublist.map Prod.fst).nodup h.nodup
  key e he := h.key e (List.mem_filter.1 he).1

theorem withSeen (h : Keyed c) (seen : Option (List ObjectKey)) : Keyed { c with seen } :=
  ⟨h.nodup, h.key⟩

theorem put (h : Keyed c) {k : ObjectKey} {o : Object} (hk : o.key? = some k) :
    Keyed (c.put k o) where
  nodup := nodup_keys_put h.nodup k o
  key e he := by
    obtain rfl | he := List.mem_cons.1 he
    · exact hk
    · exact h.key e (List.mem_filter.1 he).1

theorem apply (h : Keyed c) (o : Object) : Keyed (c.apply o).2 := by
  obtain ⟨_, ha⟩ | ⟨k, hk, _, ha⟩ | ⟨k, old, hk, _, ha⟩ := c.apply_cases o
  · rwa [ha]
  · rw [ha]
    exact h.put hk
  · rw [ha]
    exact h.put hk

theorem observe (h : Keyed c) (n : Notice) : Keyed (c.observe n).2 := by
  cases n with
  | listStart => exact h.withSeen _
  | listed o =>
    rw [observe_listed]
    exact (h.apply o).withSeen _
  | listEnd =>
    cases hs : c.seen with
    | none => rwa [observe_listEnd_none hs]
    | some keys =>
      rw [observe_listEnd hs]
      exact h.filter _ none
  | applied o => exact h.apply o
  | deleted o =>
    cases hk : o.key? with
    | none => simpa [ObjectCache.observe, hk] using h
    | some k =>
      simp only [ObjectCache.observe, hk]
      exact h.filter _ c.seen

theorem run (h : Keyed c) (ns : List Notice) : Keyed (system.run c ns) := by
  have keep : ∀ (c : ObjectCache) (_ : List Event) n, Keyed c → True → Keyed (c.observe n).2 :=
    fun _ _ n hc _ => hc.observe n
  exact system.invariant (l := []) keep h (system.throughout_of_forall (fun _ _ _ => trivial) c)

theorem mem_iff (h : Keyed c) {k : ObjectKey} {o : Object} :
    (k, o) ∈ c.objects ↔ c.get? k = some o :=
  mem_iff_lookup h.nodup

theorem key?_of_get? (h : Keyed c) {k : ObjectKey} {o : Object} (hk : c.get? k = some o) :
    o.key? = some k :=
  h.key (k, o) (h.mem_iff.2 hk)

/-- At the end of a list exactly the objects go that were not listed. -/
theorem mem_listEnd_iff (h : Keyed c) {keys : List ObjectKey} (hs : c.seen = some keys) (e : Event) :
    e ∈ (c.observe .listEnd).1 ↔ ∃ k o, c.get? k = some o ∧ k ∉ keys ∧ e = .delete o := by
  rw [observe_listEnd hs]
  simp only [List.mem_map, List.mem_filter, decide_eq_true_eq]
  constructor
  · rintro ⟨⟨k, o⟩, ⟨hm, hk⟩, rfl⟩
    exact ⟨k, o, h.mem_iff.1 hm, hk, rfl⟩
  · rintro ⟨k, o, hm, hk, rfl⟩
    exact ⟨(k, o), ⟨h.mem_iff.2 hm, hk⟩, rfl⟩

theorem keys_listEnd (h : Keyed c) {keys : List ObjectKey} (hs : c.seen = some keys) :
    (c.observe .listEnd).1.map Event.key? =
      ((c.objects.filter (·.1 ∉ keys)).map Prod.fst).map some := by
  rw [observe_listEnd hs, List.map_map, List.map_map]
  refine List.map_congr_left fun e he => ?_
  exact h.key e (List.mem_filter.1 he).1

/-- The events of one notice are about different objects. -/
theorem nodup_keys (h : Keyed c) (n : Notice) : ((c.observe n).1.filterMap Event.key?).Nodup := by
  have single (e : Event) : ([e].filterMap Event.key?).Nodup := by
    cases he : e.key? <;> simp [he]
  cases n with
  | listStart => exact List.nodup_nil
  | listed o =>
    rw [observe_listed]
    exact single _
  | listEnd =>
    cases hs : c.seen with
    | none =>
      rw [observe_listEnd_none hs]
      exact List.nodup_nil
    | some keys =>
      have hf := (h.filter (fun e => decide (e.1 ∉ keys)) none).nodup
      have hm := congrArg (List.filterMap id) (h.keys_listEnd hs)
      simp only [List.filterMap_map, Function.id_comp] at hm
      rw [hm]
      simpa using hf
  | applied o => exact single _
  | deleted o => exact single _

end Keyed

theorem keyed_observeAll (ns : List Notice) : Keyed (empty.observeAll ns).2 := by
  rw [observeAll_eq]
  exact Keyed.empty.run ns

end ObjectCache
end DependentWatch
