import DependentWatch.Owner
import DependentWatch.Proofs.TextMaps
import Mathlib.Data.List.TakeWhile
/-! The annotations that name an owner. Which owners they lead back to, and what writing them leaves
alone. -/
namespace DependentWatch
open Text

namespace Text

theorem head?_dropWhile_isBlank (cs : List Char) :
    (cs.dropWhile isBlank).head?.any isBlank = false := by
  have h := List.head?_dropWhile_not isBlank cs
  cases hd : (cs.dropWhile isBlank).head? with
  | none => rfl
  | some c => simpa [hd] using h

/-- What the first cut leaves is what both leave, and the white space that the second one takes. -/
theorem exists_dropWhile_eq (cs : List Char) :
    ∃ after, cs.dropWhile isBlank = trimList cs ++ after ∧ ∀ c ∈ after, isBlank c := by
  refine ⟨((cs.dropWhile isBlank).reverse.takeWhile isBlank).reverse, ?_, fun c hc => ?_⟩
  · rw [trimList, ← List.reverse_append, List.takeWhile_append_dropWhile, List.reverse_reverse]
  · exact List.mem_takeWhile_imp (List.mem_reverse.1 hc)

theorem exists_eq_trimList (cs : List Char) : ∃ before after, cs = before ++ trimList cs ++ after ∧
    (∀ c ∈ before, isBlank c) ∧ ∀ c ∈ after, isBlank c := by
  obtain ⟨after, hrest, hafter⟩ := exists_dropWhile_eq cs
  refine ⟨cs.takeWhile isBlank, after, ?_, fun c => List.mem_takeWhile_imp, hafter⟩
  rw [List.append_assoc, ← hrest, List.takeWhile_append_dropWhile]

theorem length_trimList_le (cs : List Char) : (trimList cs).length ≤ cs.length := by
  obtain ⟨before, after, hcs, _⟩ := exists_eq_trimList cs
  have := congrArg List.length hcs
  simp only [List.length_append] at this
  omega

theorem head?_trimList (cs : List Char) : (trimList cs).head?.any isBlank = false := by
  obtain ⟨after, hrest, _⟩ := exists_dropWhile_eq cs
  have hfirst := head?_dropWhile_isBlank cs
  rw [hrest] at hfirst
  cases ht : trimList cs with
  | nil => rfl
  | cons c _ => simpa [ht] using hfirst

theorem getLast?_trimList (cs : List Char) : (trimList cs).getLast?.any isBlank = false := by
  rw [trimList, List.getLast?_reverse]
  exact head?_dropWhile_isBlank _

/-- Nothing is trimmed off just where neither end is white space. -/
theorem trimList_eq_self_iff {cs : List Char} :
    trimList cs = cs ↔ cs.head?.any isBlank = false ∧ cs.getLast?.any isBlank = false := by
  refine ⟨fun h => ?_, fun h => trimList_eq_self h.1 h.2⟩
  have hfirst := head?_trimList cs
  have hlast := getLast?_trimList cs
  rw [h] at hfirst hlast
  exact ⟨hfirst, hlast⟩

theorem trimList_append {before core after : List Char} (hbefore : ∀ c ∈ before, isBlank c)
    (hafter : ∀ c ∈ after, isBlank c) (hfirst : core.head?.any isBlank = false)
    (hlast : core.getLast?.any isBlank = false) : trimList (before ++ core ++ after) = core := by
  rw [trimList, List.append_assoc, List.dropWhile_append_of_pos hbefore]
  cases core with
  | nil =>
    have hnone : after.dropWhile isBlank = [] := List.dropWhile_eq_nil_iff.2 hafter
    rw [List.nil_append, hnone]
    rfl
  | cons c cs =>
    have hkept : ((c :: cs) ++ after).dropWhile isBlank = (c :: cs) ++ after :=
      dropWhile_isBlank (by simpa using hfirst)
    have hreversed : (c :: cs).reverse.dropWhile isBlank = (c :: cs).reverse :=
      dropWhile_isBlank (by rwa [List.head?_reverse])
    rw [hkept, List.reverse_append,
      List.dropWhile_append_of_pos (fun d hd => hafter d (List.mem_reverse.1 hd)), hreversed,
      List.reverse_reverse]

/-- The second text is the first one without the white space at its ends. -/
structure TrimsTo (text core : String) : Prop where
  blanks : ∃ before after : List Char, text.toList = before ++ core.toList ++ after ∧
    (∀ c ∈ before, isBlank c) ∧ ∀ c ∈ after, isBlank c
  first : core.toList.head?.any isBlank = false
  last : core.toList.getLast?.any isBlank = false

theorem toList_trim (text : String) : (trim text).toList = trimList text.toList :=
  String.toList_ofList

theorem trimsTo_iff {text core : String} : TrimsTo text core ↔ trim text = core := by
  constructor
  · rintro ⟨⟨before, after, htext, hbefore, hafter⟩, hfirst, hlast⟩
    rw [trim, htext, trimList_append hbefore hafter hfirst hlast, String.ofList_toList]
  · rintro rfl
    constructor
    · rw [toList_trim]
      exact exists_eq_trimList text.toList
    · rw [toList_trim]
      exact head?_trimList text.toList
    · rw [toList_trim]
      exact getLast?_trimList text.toList

/-- A text without the separator, the separator and a rest: the parts are those of the whole. -/
theorem append_sep_inj {sep : Char} {a b c d : List Char} (ha : sep ∉ a) (hc : sep ∉ c) :
    a ++ sep :: b = c ++ sep :: d ↔ a = c ∧ b = d := by
  refine ⟨fun h => ?_, by rintro ⟨rfl, rfl⟩; rfl⟩
  have hcut := cutFirst_append ha b
  rw [h, cutFirst_append hc, Option.some.injEq, Prod.mk.injEq] at hcut
  exact ⟨hcut.1.symm, hcut.2.symm⟩

theorem ofList_eq_iff {cs : List Char} {s : String} : String.ofList cs = s ↔ cs = s.toList := by
  rw [← String.toList_inj, String.toList_ofList]

end Text

namespace Annotations

/-- The policy is to keep the resource, with white space around it or not. A policy for Helm counts
only where there is no other. -/
def Kept (annotations : TextMap) : Prop :=
  ∃ policy, (annotations.get? resourcePolicy = some policy ∨
      annotations.get? resourcePolicy = none ∧
        annotations.get? helmResourcePolicy = some policy) ∧
    TrimsTo policy "keep"

theorem retained_iff {annotations : TextMap} : retained annotations = true ↔ Kept annotations := by
  simp only [retained, either?, Kept, Option.any_eq_true, Option.or_eq_some_iff, beq_iff_eq,
    trimsTo_iff]

/-- The texts that name an owner. A name by itself may follow a slash. -/
theorem ofText?_eq_some_iff {text name : String} {ns : Option String} :
    ofText? text = some (ns, name) ↔
      name ≠ "" ∧
        match ns with
        | some n => n ≠ "" ∧ '/' ∉ n.toList ∧ trimList text.toList = n.toList ++ '/' :: name.toList
        | none => trimList text.toList = '/' :: name.toList ∨
            trimList text.toList = name.toList ∧ '/' ∉ name.toList := by
  have hread (found : Option String) (cs : List Char) :
      (if cs.isEmpty then none else some (found, String.ofList cs)) = some (ns, name) ↔
        name ≠ "" ∧ found = ns ∧ cs = name.toList := by
    rw [Option.ite_none_left_eq_some, Option.some.injEq, Prod.mk.injEq, ofList_eq_iff,
      List.isEmpty_iff]
    constructor
    · rintro ⟨hne, hns, rfl⟩
      exact ⟨by simpa using hne, hns, rfl⟩
    · rintro ⟨hne, hns, rfl⟩
      exact ⟨by simpa using hne, hns, rfl⟩
  unfold ofText?
  generalize trimList text.toList = cs
  simp only [hread, and_congr_right_iff]
  intro _
  cases hc : cutFirst '/' cs with
  | none =>
    have hslash : '/' ∉ cs := cutFirst_eq_none.1 hc
    cases ns with
    | none =>
      have hlead : cs ≠ '/' :: name.toList := by
        rintro rfl
        simp at hslash
      simp only [true_and, hlead, false_or]
      constructor
      · rintro rfl
        exact ⟨rfl, hslash⟩
      · exact And.left
    | some n =>
      have hcut : cs ≠ n.toList ++ '/' :: name.toList := by
        rintro rfl
        simp at hslash
      simp [hcut]
  | some p =>
    obtain ⟨a, b⟩ := p
    obtain ⟨rfl, ha⟩ := cutFirst_eq_some hc
    cases ns with
    | none =>
      have hlead : a ++ '/' :: b = '/' :: name.toList ↔ a = [] ∧ b = name.toList :=
        append_sep_inj ha List.not_mem_nil
      have hslash : ¬ (a ++ '/' :: b = name.toList ∧ '/' ∉ name.toList) := by
        rintro ⟨hname, hn⟩
        exact hn (hname ▸ by simp)
      simp only [hlead, hslash, or_false]
      cases a <;> simp
    | some n =>
      constructor
      · intro h
        cases a with
        | nil => simp at h
        | cons c cs =>
          obtain ⟨hns, rfl⟩ : String.ofList (c :: cs) = n ∧ b = name.toList := by simpa using h
          rw [ofList_eq_iff] at hns
          exact ⟨fun hn => by simp [hn] at hns, hns ▸ ha, by rw [hns]⟩
      · rintro ⟨hne, hn, hcut⟩
        obtain ⟨rfl, rfl⟩ := (append_sep_inj ha hn).1 hcut
        obtain ⟨c, cs, hcs⟩ := List.exists_cons_of_ne_nil (l := n.toList) (by simpa using hne)
        have hns : String.ofList (c :: cs) = n := ofList_eq_iff.2 hcs.symm
        simp only [hcs, hns, and_self]

/-- Which owners are found again under their text: those with a name, without a slash where the
first cut is made, and without white space at the ends of the text. -/
theorem ofText?_namespacedName_iff (ns : Option String) (name : String) :
    ofText? (namespacedName ns name) = some (ns, name) ↔
      name ≠ "" ∧
        match ns with
        | some n => n ≠ "" ∧ '/' ∉ n.toList ∧ n.toList.head?.any isBlank = false ∧
            name.toList.getLast?.any isBlank = false
        | none => '/' ∉ name.toList ∧ name.toList.head?.any isBlank = false ∧
            name.toList.getLast?.any isBlank = false := by
  rw [ofText?_eq_some_iff]
  refine and_congr_right fun hname => ?_
  have hname' : name.toList ≠ [] := by simpa using hname
  cases ns with
  | none =>
    have hlead : trimList name.toList ≠ '/' :: name.toList := by
      intro h
      have := length_trimList_le name.toList
      rw [h, List.length_cons] at this
      omega
    simp only [namespacedName, hlead, false_or, trimList_eq_self_iff]
    exact and_comm
  | some n =>
    refine and_congr_right fun hn => and_congr_right fun _ => ?_
    obtain ⟨c, cs, hcs⟩ := List.exists_cons_of_ne_nil (l := n.toList) (by simpa using hn)
    obtain ⟨b, bs, hbs⟩ := List.exists_cons_of_ne_nil hname'
    have htext : (namespacedName (some n) name).toList = n.toList ++ '/' :: name.toList := by
      simp [namespacedName]
    have hfirst : (n.toList ++ '/' :: name.toList).head? = n.toList.head? := by simp [hcs]
    have hlast : (n.toList ++ '/' :: name.toList).getLast? = name.toList.getLast? := by
      simp [hbs, List.getLast?_append, List.getLast?_cons]
    rw [htext, trimList_eq_self_iff, hfirst, hlast]

end Annotations

namespace Owner

theorem get?_annotate (o : Owner) (annotations : TextMap) (k : String) :
    (o.annotate annotations).get? k =
      if k = Annotations.primaryResourceType then some o.gvk.typeText
      else if k = Annotations.primaryResource then some o.namespacedName
      else annotations.get? k := by
  rw [annotate, TextMap.get?_insert, TextMap.get?_insert]

theorem get?_primaryResource_annotate (o : Owner) (annotations : TextMap) :
    (o.annotate annotations).get? Annotations.primaryResource = some o.namespacedName := by
  rw [get?_annotate, if_neg (by decide), if_pos rfl]

theorem get?_primaryResourceType_annotate (o : Owner) (annotations : TextMap) :
    (o.annotate annotations).get? Annotations.primaryResourceType = some o.gvk.typeText := by
  rw [get?_annotate, if_pos rfl]

theorem primary?_annotate (o : Owner) (annotations : TextMap) :
    Annotations.primary? (o.annotate annotations) = Annotations.ofText? o.namespacedName := by
  rw [Annotations.primary?, get?_primaryResource_annotate, Option.bind_some]

theorem retained_annotate (o : Owner) (annotations : TextMap) :
    Annotations.retained (o.annotate annotations) = Annotations.retained annotations := by
  have hown : (o.annotate annotations).get? Annotations.resourcePolicy =
      annotations.get? Annotations.resourcePolicy := by
    rw [get?_annotate, if_neg (by decide), if_neg (by decide)]
  have hhelm : (o.annotate annotations).get? Annotations.helmResourcePolicy =
      annotations.get? Annotations.helmResourcePolicy := by
    rw [get?_annotate, if_neg (by decide), if_neg (by decide)]
  rw [Bool.eq_iff_iff, Annotations.retained_iff, Annotations.retained_iff, Annotations.Kept,
    Annotations.Kept, hown, hhelm]

/-- Of two owners written one after the other, the second stays. -/
theorem annotate_annotate (o p : Owner) (annotations : TextMap) :
    p.annotate (o.annotate annotations) = p.annotate annotations := by
  refine TextMap.eq_of_get?_eq fun k => ?_
  simp only [get?_annotate]
  split
  · rfl
  · split <;> rfl

/-- An owner that is written over annotations is read back from them just where its text is
unambiguous: it has a name; a namespace of it is not empty, has no slash and starts with no white
space, and its name ends with none; without a namespace, the name has no slash and no white space at
its ends. The texts of the owner and of its kind are all that is written, so a policy stays what it
was, and of owners written one after the other only the last counts. -/
theorem annotations_lead_back_iff (o : Owner) (annotations : TextMap) :
    (Annotations.primary? (o.annotate annotations) = some (o.ns, o.name) ↔
      o.name ≠ "" ∧
        match o.ns with
        | some n => n ≠ "" ∧ '/' ∉ n.toList ∧ n.toList.head?.any isBlank = false ∧
            o.name.toList.getLast?.any isBlank = false
        | none => '/' ∉ o.name.toList ∧ o.name.toList.head?.any isBlank = false ∧
            o.name.toList.getLast?.any isBlank = false) ∧
    (∀ k, (o.annotate annotations).get? k =
      if k = Annotations.primaryResourceType then some o.gvk.typeText
      else if k = Annotations.primaryResource then some o.namespacedName
      else annotations.get? k) ∧
    Annotations.retained (o.annotate annotations) = Annotations.retained annotations ∧
    ∀ p : Owner, p.annotate (o.annotate annotations) = p.annotate annotations := by
  refine ⟨?_, o.get?_annotate annotations, o.retained_annotate annotations,
    fun p => o.annotate_annotate p annotations⟩
  rw [primary?_annotate]
  exact Annotations.ofText?_namespacedName_iff o.ns o.name

end Owner
end DependentWatch
