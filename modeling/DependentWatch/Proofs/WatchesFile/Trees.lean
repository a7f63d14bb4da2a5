import DependentWatch.WatchesFile.Reader
import DependentWatch.Proofs.Object.Fields
import DependentWatch.Proofs.TextMaps
import DependentWatch.Proofs.Traversal
import DependentWatch.Proofs.WatchesFile.Delays
import Mathlib.Data.List.Nodup
/-! Trees of fields as they are written down, and what is decoded from them. In whatever style and
order a tree is written, each of its fields is found. -/
namespace DependentWatch
open Yaml (Node Links Decoder Style)

namespace Yaml

/-- A node writes a tree down: texts in any style, flags as they are spelled, and fields in any
order. -/
inductive Node.Writes : Node → Json → Prop
  | text (style : Style) (s : String) : Writes (.scalar none none style s) (.str s)
  | flag (b : Bool) :
    Writes (.scalar none none .plain (if b then "true" else "false")) (.bool b)
  | list {nodes : List Node} {items : List Json} :
    List.Forall₂ Writes nodes items → Writes (.sequence none none nodes) (.arr items)
  | tree {entries : List (Node × Node)} {order fields : List (String × Json)} :
    order.Perm fields →
    List.Forall₂ Writes (entries.map Prod.fst) (order.map fun f => .str f.1) →
    List.Forall₂ Writes (entries.map Prod.snd) (order.map Prod.snd) →
    Writes (.mapping none none entries) (.obj fields)

namespace Node

/-! What can be written down. -/

theorem exists_nodes_write {items : List Json} (h : ∀ j ∈ items, ∃ n : Node, n.Writes j) :
    ∃ nodes : List Node, List.Forall₂ Writes nodes items := by
  obtain ⟨nodes, hnodes⟩ := exists_related (R := flip Writes) h
  exact ⟨nodes, hnodes.flip⟩

theorem exists_writes_arr {items : List Json} (h : ∀ j ∈ items, ∃ n : Node, n.Writes j) :
    ∃ n : Node, n.Writes (.arr items) := by
  obtain ⟨nodes, hnodes⟩ := exists_nodes_write h
  exact ⟨_, .list hnodes⟩

theorem exists_writes_of_isTree {j : Json} (hj : j.IsTree)
    (h : ∀ k v, j.field? k = some v → ∃ n : Node, n.Writes v) : ∃ n : Node, n.Writes j := by
  obtain ⟨fields, rfl, hf⟩ := hj
  have hvalue (v : Json) (hv : v ∈ fields.map Prod.snd) : ∃ n : Node, n.Writes v := by
    obtain ⟨⟨k, _⟩, hm, rfl⟩ := List.mem_map.1 hv
    exact h k _ ((mem_iff_lookup (nodup_keys_of_inOrder hf)).1 hm)
  obtain ⟨values, hvalues⟩ := exists_nodes_write hvalue
  let keys : List Node := fields.map fun f => .scalar none none .quoted f.1
  have hkeys : List.Forall₂ Writes keys (fields.map fun f => .str f.1) := by
    rw [List.forall₂_map_left_iff, List.forall₂_map_right_iff, List.forall₂_same]
    exact fun f _ => .text .quoted f.1
  have hlength : keys.length = values.length := by
    rw [hkeys.length_eq, hvalues.length_eq, List.length_map, List.length_map]
  refine ⟨.mapping none none (keys.zip values), .tree (.refl fields) ?_ ?_⟩
  · rwa [List.map_fst_zip (Nat.le_of_eq hlength)]
  · rwa [List.map_snd_zip (Nat.le_of_eq hlength.symm)]

end Node

/-! What is decoded. A node without aliases is decoded without any effect. -/

theorem mapM_eq_pure {α β : Type} {f : α → Decoder β} {xs : List α} {ys : List β}
    (h : List.Forall₂ (fun x y => f x = pure y) xs ys) : xs.mapM f = pure ys := by
  induction h with
  | nil => rfl
  | cons hx _ ih => rw [List.mapM_cons, hx, pure_bind, ih, pure_bind]

namespace Links
variable (l : Links)

theorem text_of_writes {n : Node} {s : String} (h : n.Writes (.str s)) : l.text n = pure s := by
  cases h
  rfl

theorem flag_of_writes {n : Node} {b : Bool} (h : n.Writes (.bool b)) : l.flag n = pure b := by
  cases h
  cases b <;> rfl

theorem duration_of_writes {n : Node} {d : Duration} (h : n.Writes (.str d.text)) :
    l.duration n = pure d := by
  unfold duration
  rw [l.text_of_writes h, pure_bind, Duration.ofText?_text]
  rfl

theorem items_of_writes {n : Node} {items : List Json} (h : n.Writes (.arr items)) {depth : Nat}
    (hd : depth ≠ 0) :
    ∃ nodes, l.items depth n = pure nodes ∧ List.Forall₂ Node.Writes nodes items := by
  cases h with
  | @list nodes _ hnodes =>
    refine ⟨nodes, ?_, hnodes⟩
    simp [Links.items, follow, hd]

/-- The entries of a node that writes these fields, as they stand. -/
structure Enters (entries : List (Node × Node)) (order : List (String × Json)) : Prop where
  keys : List.Forall₂ Node.Writes (entries.map Prod.fst) (order.map fun f => .str f.1)
  values : List.Forall₂ Node.Writes (entries.map Prod.snd) (order.map Prod.snd)

theorem entries_of_writes {n : Node} {fields : List (String × Json)} (h : n.Writes (.obj fields))
    {depth : Nat} (hd : depth ≠ 0) :
    ∃ entries order, l.entries depth n = pure entries ∧ order.Perm fields ∧ Enters entries order := by
  cases h with
  | @tree entries order _ hperm hkeys hvalues =>
    refine ⟨entries, order, ?_, hperm, hkeys, hvalues⟩
    simp [Links.entries, follow, hd]

/-- Entries that are read by name stand for the fields one by one. -/
theorem exists_read {β : Type} {read : Node → Decoder β} {R : β → Json → Prop}
    {entries : List (Node × Node)} {order : List (String × Json)} (h : Enters entries order)
    (hread : ∀ f ∈ order, ∀ n : Node, n.Writes f.2 → ∃ b, read n = pure b ∧ R b f.2) :
    ∃ named : List (String × β),
      entries.mapM (fun (k, v) => do
          return (← l.text k, ← read v) : Node × Node → Decoder (String × β)) = pure named ∧
      List.Forall₂ (fun e f => e.1 = f.1 ∧ R e.2 f.2) named order := by
  induction entries generalizing order with
  | nil =>
    have horder : order = [] := List.map_eq_nil_iff.1 (List.forall₂_nil_left_iff.1 h.values)
    rw [horder]
    exact ⟨[], rfl, .nil⟩
  | cons e entries ih =>
    obtain ⟨k, v⟩ := e
    cases order with
    | nil => exact nomatch h.values
    | cons f order =>
      obtain ⟨hk, hkeys⟩ := List.forall₂_cons.1 h.keys
      obtain ⟨hv, hvalues⟩ := List.forall₂_cons.1 h.values
      obtain ⟨b, hvalue, hb⟩ := hread f List.mem_cons_self v hv
      obtain ⟨named, hnamed, hall⟩ :=
        ih ⟨hkeys, hvalues⟩ fun g hg => hread g (List.mem_cons_of_mem f hg)
      have hname : l.text k = pure f.1 := l.text_of_writes hk
      refine ⟨(f.1, b) :: named, ?_, .cons ⟨rfl, hb⟩ hall⟩
      simp only [List.mapM_cons, hname, hvalue, hnamed, pure_bind]

theorem exists_named {entries : List (Node × Node)} {order : List (String × Json)}
    (h : Enters entries order) :
    ∃ named : List (String × Node),
      entries.mapM (fun (k, v) => do return (← l.text k, v) : Node × Node → Decoder (String × Node))
        = pure named ∧
      List.Forall₂ (fun e f => e.1 = f.1 ∧ e.2.Writes f.2) named order := by
  have hread (f : String × Json) (_ : f ∈ order) (n : Node) (hn : n.Writes f.2) :
      ∃ m : Node, (pure n : Decoder Node) = pure m ∧ m.Writes f.2 := ⟨n, rfl, hn⟩
  obtain ⟨named, hnamed, hall⟩ := l.exists_read h hread
  refine ⟨named, ?_, hall⟩
  simpa only [pure_bind] using hnamed

theorem lookup_named {named : List (String × Node)} {order : List (String × Json)}
    (h : List.Forall₂ (fun e f => e.1 = f.1 ∧ e.2.Writes f.2) named order) (k : String) :
    Option.Rel Node.Writes (named.lookup k) (order.lookup k) := by
  induction h with
  | nil => exact .none
  | @cons e f named order hef _ ih =>
    obtain ⟨k', n⟩ := e
    obtain ⟨_, v⟩ := f
    obtain ⟨rfl, hn⟩ := hef
    rw [lookup_cons_ite, lookup_cons_ite]
    split
    · exact .some hn
    · exact ih

theorem keys_named {named : List (String × Node)} {order : List (String × Json)}
    (h : List.Forall₂ (fun e f => e.1 = f.1 ∧ e.2.Writes f.2) named order) :
    named.map Prod.fst = order.map Prod.fst := by
  induction h with
  | nil => rfl
  | cons hef _ ih => rw [List.map_cons, List.map_cons, hef.1, ih]

/-- The fields of a tree are found under their names, and there are no others. -/
theorem fields_of_writes {n : Node} {j : Json} (hj : j.IsTree) (h : n.Writes j) {depth : Nat}
    (hd : depth ≠ 0) (names : List String) :
    ∃ found, l.fields depth names n = pure found ∧
      ∀ k, Option.Rel Node.Writes (found.lookup k) (j.field? k) := by
  obtain ⟨fields, rfl, hf⟩ := hj
  obtain ⟨entries, order, hentries, hperm, henters⟩ := l.entries_of_writes h hd
  obtain ⟨named, hnamed, hall⟩ := l.exists_named henters
  have hkeys : (fields.map Prod.fst).Nodup := nodup_keys_of_inOrder hf
  have hnodup : (named.map Prod.fst).Nodup := by
    rw [keys_named hall]
    exact (hperm.map Prod.fst).nodup_iff.2 hkeys
  have hsingle (name : String) : (named.filter (·.1 = name)).length ≤ 1 := by
    have hcount : (named.filter (·.1 = name)).length = (named.map Prod.fst).count name := by
      rw [List.count_eq_countP, List.countP_map, ← List.countP_eq_length_filter]
      exact List.countP_congr fun e _ => by simp
    rw [hcount]
    exact List.nodup_iff_count_le_one.1 hnodup name
  have hany : (names.any fun name => 1 < (named.filter (·.1 = name)).length) = false := by
    rw [List.any_eq_false]
    intro name _
    simpa using hsingle name
  refine ⟨named, ?_, fun k => ?_⟩
  · rw [Links.fields, hentries, pure_bind, hnamed, pure_bind]
    simp only [hany, Bool.false_eq_true, if_false]
  · have hfield : (Json.obj fields).field? k = order.lookup k := (lookup_of_perm hperm hkeys k).symm
    rw [hfield]
    exact lookup_named hall k

end Links

/-- A field that is left out is decoded as what stands for it, and any other as it was written. -/
theorem fieldOr_of_rel {α : Type} {default value : α} {read : Node → Decoder α} {j : Json}
    (hread : ∀ n : Node, n.Writes j → read n = pure value) {left : Bool} {found : Option Node}
    (h : Option.Rel Node.Writes found (if left then none else some j)) :
    Decoder.fieldOr default read found = pure (if left then default else value) := by
  cases left with
  | true =>
    cases h
    rfl
  | false =>
    obtain ⟨hn⟩ := h
    exact hread _ hn

theorem exists_of_rel {found : Option Node} {j : Json}
    (h : Option.Rel Node.Writes found (some j)) : ∃ n : Node, found = some n ∧ n.Writes j := by
  obtain ⟨hn⟩ := h
  exact ⟨_, rfl, hn⟩

end Yaml

namespace TextMap

theorem exists_texts (l : Links) {entries : List (Node × Node)} {order : List (String × Json)}
    (h : Links.Enters entries order) (htexts : ∀ f ∈ order, ∃ s, f.2 = .str s) :
    ∃ texts : List (String × String),
      entries.mapM (fun (k, v) => do
          return (← l.text k, ← l.text v) : Node × Node → Decoder (String × String)) = pure texts ∧
      texts.map (fun e => (e.1, .str e.2)) = order := by
  have hread (f : String × Json) (hf : f ∈ order) (n : Node) (hn : n.Writes f.2) :
      ∃ s, l.text n = pure s ∧ .str s = f.2 := by
    obtain ⟨s, hs⟩ := htexts f hf
    exact ⟨s, l.text_of_writes (hs ▸ hn), hs.symm⟩
  obtain ⟨texts, htext, hall⟩ := l.exists_read h hread
  refine ⟨texts, htext, List.forall₂_eq_eq_eq ▸ List.forall₂_map_left_iff.2 (hall.imp ?_)⟩
  exact fun _ _ he => Prod.ext he.1 he.2

theorem lookup_toJson (m : TextMap) (k : String) :
    (Json.arrange (m.entries.map fun e => (e.1, .str e.2))).lookup k = (m.get? k).map .str := by
  have hkeys : ((m.entries.map fun e => (e.1, Json.str e.2)).map Prod.fst).Nodup := by
    rw [List.map_map]
    exact nodup_keys_of_inOrder m.sorted
  rw [Json.lookup_arrange hkeys]
  exact lookup_map_value (fun _ s => Json.str s) m.entries k

theorem exists_writes (m : TextMap) : ∃ n : Node, n.Writes m.toJson := by
  refine Node.exists_writes_of_isTree (Json.isTree_ofFields _) fun k v hv => ?_
  have hfound : (m.get? k).map .str = some v := (m.lookup_toJson k).symm.trans hv
  obtain ⟨s, _, rfl⟩ := Option.map_eq_some_iff.1 hfound
  exact ⟨_, .text .quoted s⟩

/-- Texts by name are decoded as they were written. -/
theorem ofNode_of_writes (l : Links) {n : Node} {m : TextMap} (h : n.Writes m.toJson)
    {depth : Nat} (hd : depth ≠ 0) : TextMap.ofNode l depth n = pure m := by
  let fields := Json.arrange (m.entries.map fun e => (e.1, .str e.2))
  have hkeys : (fields.map Prod.fst).Nodup := nodup_keys_of_inOrder (Json.inOrder_arrange _)
  have hlookup (k : String) : fields.lookup k = (m.get? k).map .str := m.lookup_toJson k
  have hwrites : n.Writes (.obj fields) := h
  obtain ⟨entries, order, hentries, hperm, henters⟩ := l.entries_of_writes hwrites hd
  have htexts (f : String × Json) (hf : f ∈ order) : ∃ s, f.2 = .str s := by
    have hfound := (mem_iff_lookup hkeys).1 (hperm.mem_iff.1 hf)
    rw [hlookup] at hfound
    obtain ⟨s, _, hs⟩ := Option.map_eq_some_iff.1 hfound
    exact ⟨s, hs.symm⟩
  obtain ⟨texts, hread, rfl⟩ := exists_texts l henters htexts
  have hnodup : (texts.map Prod.fst).Nodup := by
    have := (hperm.map Prod.fst).nodup_iff.2 hkeys
    rwa [List.map_map] at this
  have hsame : TextMap.ofList texts = m := by
    refine eq_of_get?_eq fun k => ?_
    have hrev : texts.reverse.lookup k = texts.lookup k := lookup_of_perm texts.reverse_perm hnodup k
    have hfound : (texts.lookup k).map Json.str = (m.get? k).map .str := by
      rw [← hlookup, ← lookup_of_perm hperm hkeys]
      exact (lookup_map_value (fun _ s => Json.str s) texts k).symm
    rw [get?_ofList, hrev]
    exact Option.map_injective (fun _ _ => Json.str.inj) hfound
  rw [TextMap.ofNode, hentries, pure_bind, hread, pure_bind, hsame]

end TextMap
end DependentWatch
