import DependentWatch.TextMap
import DependentWatch.Proofs.Lookup
/-! Maps of texts by what is found in them. -/
namespace DependentWatch.TextMap

theorem eq_of_get?_eq {m n : TextMap} (h : ∀ k, m.get? k = n.get? k) : m = n :=
  ext (eq_of_lookup_eq m.sorted n.sorted h)

theorem eq_empty_of_isEmpty {m : TextMap} (h : m.isEmpty) : m = empty :=
  ext (List.isEmpty_iff.1 h)

theorem mem_entries_iff {m : TextMap} {k v : String} : (k, v) ∈ m.entries ↔ m.get? k = some v :=
  mem_iff_lookup (nodup_keys_of_inOrder m.sorted)

theorem get?_foldl_insert (es : List (String × String)) (m : TextMap) (k : String) :
    (es.foldl (fun m e => m.insert e.1 e.2) m).get? k = (es.reverse.lookup k).or (m.get? k) := by
  induction es generalizing m with
  | nil => rfl
  | cons e es ih =>
    have hlast : (e :: es).reverse.lookup k =
        (es.reverse.lookup k).or (if k = e.1 then some e.2 else none) := by
      rw [List.reverse_cons, List.lookup_append, lookup_cons_ite, List.lookup_nil]
    rw [List.foldl_cons, ih, hlast, get?_insert, Option.or_assoc]
    congr 1
    split <;> simp

/-- The last entry of a key is the one that is found. -/
theorem get?_ofList (es : List (String × String)) (k : String) :
    (ofList es).get? k = es.reverse.lookup k := by
  have hempty : empty.get? k = none := rfl
  rw [ofList, get?_foldl_insert, hempty, Option.or_none]

end DependentWatch.TextMap
