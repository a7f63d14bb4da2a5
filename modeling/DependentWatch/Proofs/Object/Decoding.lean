import Mathlib.Logic.Basic
import DependentWatch.Json.Reader
import DependentWatch.Object.Reader
import DependentWatch.Proofs.Object.Fields
import DependentWatch.Proofs.Object.Timestamps
/-! What holds of every object that was decoded: its fields stand in order, none of them has a place
of its own, and a leap second stands where leap seconds are. -/
namespace DependentWatch

namespace Json

/-- A tree whose fields, if it has any, stand in order. -/
def Arranged : Json → Prop
  | .obj fields => InOrder fields
  | _ => True

instance : DecidablePred Arranged := fun j =>
  match j with
  | .obj fields => inferInstanceAs (Decidable (InOrder fields))
  | .null | .bool _ | .int _ | .float _ | .str _ | .arr _ => .isTrue trivial

theorem arranged_ofFields (es : List (String × Json)) : (ofFields es).Arranged := inOrder_arrange es

theorem arranged_of_readNumber {negative : Bool} {cs rest : List Char} {j : Json}
    (h : readNumber negative cs = some (j, rest)) : j.Arranged := by
  unfold readNumber at h
  obtain ⟨-, h⟩ := Option.ite_none_left_eq_some.1 h
  obtain ⟨-, h⟩ | ⟨-, h⟩ := ite_eq_iff.1 h
  · cases h
    trivial
  · obtain ⟨⟨fraction, cs₁⟩, -, h⟩ := Option.bind_eq_some_iff.1 h
    obtain ⟨⟨exponent, cs₂⟩, -, h⟩ := Option.bind_eq_some_iff.1 h
    obtain ⟨x, -, h⟩ := Option.bind_eq_some_iff.1 h
    cases h
    trivial

theorem arranged_of_readFields {fuel depth : Nat} {done : List (String × Json)} {cs rest : List Char}
    {j : Json} (h : readFields fuel depth done cs = some (j, rest)) : j.Arranged := by
  induction fuel generalizing done cs with
  | zero => simp [readFields] at h
  | succ fuel ih =>
    unfold readFields at h
    split at h
    · obtain ⟨⟨k, cs₁⟩, -, h⟩ := Option.bind_eq_some_iff.1 h
      dsimp only at h
      split at h
      · obtain ⟨⟨v, cs₂⟩, -, h⟩ := Option.bind_eq_some_iff.1 h
        dsimp only at h
        split at h
        · exact ih h
        · cases h
          exact arranged_ofFields _
        · cases h
      · cases h
    · cases h

theorem arranged_of_readItems {fuel depth : Nat} {done : List Json} {cs rest : List Char} {j : Json}
    (h : readItems fuel depth done cs = some (j, rest)) : j.Arranged := by
  induction fuel generalizing done cs with
  | zero => simp [readItems] at h
  | succ fuel ih =>
    unfold readItems at h
    obtain ⟨⟨v, cs₁⟩, -, h⟩ := Option.bind_eq_some_iff.1 h
    dsimp only at h
    split at h
    · exact ih h
    · cases h
      trivial
    · cases h

theorem arranged_of_literal {word cs rest : List Char} {value j : Json}
    (h : literal word value cs = some (j, rest)) (hv : value.Arranged) : j.Arranged := by
  unfold literal at h
  split at h
  · cases h
    exact hv
  · cases h

theorem arranged_of_readValue {fuel depth : Nat} {cs rest : List Char} {j : Json}
    (h : readValue fuel depth cs = some (j, rest)) : j.Arranged := by
  cases fuel with
  | zero => simp [readValue] at h
  | succ fuel =>
    unfold readValue at h
    split at h
    · split at h
      · cases h
      · split at h
        · cases h
          exact List.Pairwise.nil
        · exact arranged_of_readFields h
    · split at h
      · cases h
      · split at h
        · cases h
          trivial
        · exact arranged_of_readItems h
    · obtain ⟨⟨s, cs₁⟩, -, h⟩ := Option.map_eq_some_iff.1 h
      cases h
      trivial
    · exact arranged_of_readNumber h
    · exact arranged_of_literal h trivial
    · exact arranged_of_literal h trivial
    · exact arranged_of_literal h trivial
    · exact arranged_of_readNumber h

theorem arranged_of_ofText? {text : String} {j : Json} (h : ofText? text = some j) : j.Arranged := by
  obtain ⟨⟨v, rest⟩, hv, h⟩ := Option.bind_eq_some_iff.1 h
  dsimp only at h
  split at h
  · cases h
    exact arranged_of_readValue hv
  · cases h

end Json

namespace Timestamp

theorem hoursAndMinutes_minutes {sign : Int} {cs rest : List Char} {offset : Int}
    (h : offset?.hoursAndMinutes? sign cs = some (offset, rest)) : offset % 60 = 0 := by
  unfold offset?.hoursAndMinutes? at h
  dsimp only at h
  split at h
  · obtain ⟨rfl, -⟩ := Prod.mk.inj (Option.some.inj h)
    rw [Int.natCast_mul, ← Int.mul_assoc]
    exact Int.mul_emod_left ..
  · cases h

theorem zone_minutes {cs rest : List Char} {offset : Int}
    (h : offset?.zone? cs = some (offset, rest)) : offset % 60 = 0 := by
  unfold offset?.zone? at h
  split at h
  · cases h
  · split at h
    · cases h
      rfl
    · split at h
      · exact hoursAndMinutes_minutes h
      · split at h
        · exact hoursAndMinutes_minutes h
        · cases h

theorem offset_minutes {cs rest : List Char} {offset : Int}
    (h : offset? cs = some (offset, rest)) : offset % 60 = 0 := by
  unfold offset? at h
  split at h
  · split at h
    · cases h
      rfl
    · exact zone_minutes h
  · exact zone_minutes h

theorem placed_of_ofList? {cs : List Char} {t : Timestamp} (h : ofList? cs = some t) : t.Placed := by
  -- The parts are read one after the other. What counts is that the day, the hour, the minute and
  -- the offset are whole minutes, so that the second alone says where in its minute the time is.
  unfold ofList? at h
  obtain ⟨⟨y, cs⟩, -, h⟩ := Option.bind_eq_some_iff.1 h
  obtain ⟨cs, -, h⟩ := Option.bind_eq_some_iff.1 h
  obtain ⟨⟨m, cs⟩, -, h⟩ := Option.bind_eq_some_iff.1 h
  obtain ⟨cs, -, h⟩ := Option.bind_eq_some_iff.1 h
  obtain ⟨⟨d, cs⟩, -, h⟩ := Option.bind_eq_some_iff.1 h
  dsimp only at h
  split at h
  · split at h
    · obtain ⟨cs, -, h⟩ := Option.bind_eq_some_iff.1 h
      obtain ⟨⟨hour, cs⟩, -, h⟩ := Option.bind_eq_some_iff.1 h
      obtain ⟨cs, -, h⟩ := Option.bind_eq_some_iff.1 h
      obtain ⟨⟨minute, cs⟩, -, h⟩ := Option.bind_eq_some_iff.1 h
      obtain ⟨cs, -, h⟩ := Option.bind_eq_some_iff.1 h
      obtain ⟨⟨second, cs⟩, -, h⟩ := Option.bind_eq_some_iff.1 h
      obtain ⟨cs, -, h⟩ := Option.bind_eq_some_iff.1 h
      obtain ⟨⟨offset, cs⟩, hoffset, h⟩ := Option.bind_eq_some_iff.1 h
      obtain ⟨-, h⟩ := Option.ite_none_left_eq_some.1 h
      cases h
      have hminutes := offset_minutes hoffset
      intro hleap
      rw [decide_eq_true_eq] at hleap
      dsimp only
      omega
    · cases h
  · cases h

end Timestamp

theorem Json.placed_of_timestamp? {j : Json} {t : Timestamp} (h : j.timestamp? = some t) :
    t.Placed := by
  obtain ⟨text, -, h⟩ := Option.bind_eq_some_iff.1 h
  exact Timestamp.placed_of_ofList? h

theorem Json.optional_eq_some {α : Type} {j : Json} {name : String} {read : Json → Option α} {v : α}
    (h : j.optional name read = some (some v)) : ∃ w, read w = some v := by
  unfold Json.optional at h
  split at h
  · cases h
  · cases h
  · next w _ _ =>
    obtain ⟨v', hv, h⟩ := Option.map_eq_some_iff.1 h
    cases h
    exact ⟨w, hv⟩

/-- Leap seconds in the metadata stand where leap seconds are. -/
structure ObjectMeta.Placed (m : ObjectMeta) : Prop where
  creation : ∀ t, m.creationTimestamp = some t → t.Placed
  deletion : ∀ t, m.deletionTimestamp = some t → t.Placed

theorem ObjectMeta.placed_empty : ObjectMeta.empty.Placed := ⟨nofun, nofun⟩

theorem ObjectMeta.placed_of_ofJson? {j : Json} {m : ObjectMeta} (h : ofJson? j = some m) :
    m.Placed := by
  have hplaced {j : Json} {name : String} {t : Option Timestamp}
      (ht : j.optional name Json.timestamp? = some t) (u : Timestamp) (hu : t = some u) :
      u.Placed := by
    obtain ⟨w, hw⟩ := Json.optional_eq_some (hu ▸ ht)
    exact Json.placed_of_timestamp? hw
  unfold ofJson? at h
  split at h
  · obtain ⟨_, -, h⟩ := Option.bind_eq_some_iff.1 h
    obtain ⟨creation, hcreation, h⟩ := Option.bind_eq_some_iff.1 h
    obtain ⟨_, -, h⟩ := Option.bind_eq_some_iff.1 h
    obtain ⟨deletion, hdeletion, h⟩ := Option.bind_eq_some_iff.1 h
    simp only [Option.bind_eq_bind, Option.bind_eq_some_iff] at h
    obtain ⟨_, -, _, -, _, -, _, -, _, -, _, -, _, -, _, -, _, -, _, -, _, -, h⟩ := h
    cases h
    exact ⟨hplaced hcreation, hplaced hdeletion⟩
  · cases h

namespace Object

/-- Read from a tree. -/
def Decoded (o : Object) : Prop := ∃ j : Json, j.Arranged ∧ ofJson? j = some o

theorem decoded_of_ofText? {text : String} {j : Json} {o : Object} (hj : Json.ofText? text = some j)
    (ho : ofJson? j = some o) : o.Decoded :=
  ⟨j, Json.arranged_of_ofText? hj, ho⟩

theorem behindTypes_sublist (fields : List (String × Json)) : (behindTypes fields).Sublist fields := by
  induction fields with
  | nil => exact .slnil
  | cons f fields ih =>
    unfold behindTypes
    split
    · split
      · exact ih.cons _
      · exact List.sublist_cons_self ..
    · exact ih.cons_cons _

/-- What is left behind the type are all other fields, and a kind whose version is no text. -/
theorem mem_behindTypes_iff {fields : List (String × Json)} (h : Json.InOrder fields)
    (e : String × Json) :
    e ∈ behindTypes fields ↔ e ∈ fields ∧ e.1 ≠ "apiVersion" ∧
      (e.1 = "kind" → ∃ version, ("apiVersion", version) ∈ fields ∧ ∀ s, version ≠ .str s) := by
  induction fields with
  | nil => simp [behindTypes]
  | cons f fields ih =>
    obtain ⟨k, v⟩ := f
    obtain ⟨hlt, hfields⟩ := List.pairwise_cons.1 h
    have later {l : String} (hl : l ≤ k) : ∀ e ∈ fields, e.1 ≠ l := fun e he heq =>
      String.not_le.2 (hlt e he) (heq ▸ hl)
    unfold behindTypes
    split
    · next hk =>
      have hversion : "apiVersion" ≤ k := by
        obtain rfl | rfl := hk <;> decide
      have hnone : ∀ version, ("apiVersion", version) ∉ fields := fun _ hm => later hversion _ hm rfl
      split
      · next s =>
        rw [ih hfields, List.mem_cons]
        by_cases he : e = (k, .str s)
        · obtain rfl | rfl := hk <;> simp [he, hnone]
        · obtain rfl | rfl := hk <;> simp [he, hnone]
      · next hv =>
        constructor
        · intro he
          refine ⟨List.mem_cons_of_mem _ he, later hversion e he, fun hkind => ?_⟩
          obtain rfl | rfl := hk
          · exact ⟨v, List.mem_cons_self, fun s hs => hv s hs⟩
          · exact absurd hkind (later (String.le_refl _) e he)
        · rintro ⟨he, hne, hkind⟩
          refine (List.mem_cons.1 he).resolve_left ?_
          rintro rfl
          obtain rfl | rfl := hk
          · exact hne rfl
          · obtain ⟨version, hm, -⟩ := hkind rfl
            simp [hnone] at hm
    · next hk =>
      obtain ⟨hversion, hkind⟩ := not_or.1 hk
      rw [List.mem_cons, ih hfields]
      by_cases he : e = (k, v)
      · simp [he, hversion, hkind]
      · simp [he, Ne.symm hversion]
/-- A kind is left only where there is no type. -/
theorem ne_kind_of_types {fields : List (String × Json)} (h : Json.InOrder fields) {t : TypeMeta}
    (ht : types? fields = some t) : ∀ e ∈ behindTypes fields, e.1 ≠ "kind" := by
  intro e he hkind
  obtain ⟨version, hm, htext⟩ := ((mem_behindTypes_iff h e).1 he).2.2 hkind
  unfold types? at ht
  rw [(mem_iff_lookup (nodup_keys_of_inOrder h)).1 hm] at ht
  split at ht
  · next s _ hs _ => exact htext s (Option.some.inj hs)
  · cases ht

/-- The names of the fields that an object has a place of its own for. -/
def known (o : Object) : List String := o.typeFields.map Prod.fst ++ ["metadata"]

/-- The other fields stand in order under names of their own, and none of them is a version. -/
structure WellFormed (o : Object) : Prop where
  inOrder : Json.InOrder o.other
  unknown : ∀ e ∈ o.other, e.1 ∉ o.known
  unversioned : ∀ e ∈ o.other, e.1 ≠ "apiVersion"
  placed : o.metadata.Placed

theorem Decoded.wellFormed {o : Object} (h : o.Decoded) : o.WellFormed := by
  obtain ⟨j, hj, h⟩ := h
  unfold ofJson? at h
  split at h
  · next fields =>
    have horder : Json.InOrder fields := hj
    have hrest (metadata : ObjectMeta) (hm : metadata.Placed) :
        WellFormed ⟨types? fields, metadata, (behindTypes fields).filter (·.1 ≠ "metadata")⟩ := by
      refine ⟨(horder.sublist (behindTypes_sublist fields)).filter _, fun e he => ?_, fun e he => ?_,
        hm⟩
      · obtain ⟨he, hmeta⟩ := List.mem_filter.1 he
        have hversion := ((mem_behindTypes_iff horder e).1 he).2.1
        cases ht : types? fields with
        | none => simpa [known, typeFields] using hmeta
        | some t =>
          have hkind := ne_kind_of_types horder ht e he
          simpa [known, typeFields, hversion, hkind] using hmeta
      · exact ((mem_behindTypes_iff horder e).1 (List.mem_filter.1 he).1).2.1
    dsimp only at h
    split at h
    · cases h
      exact hrest _ ObjectMeta.placed_empty
    · obtain ⟨metadata, hm, h⟩ := Option.bind_eq_some_iff.1 h
      cases h
      exact hrest _ (ObjectMeta.placed_of_ofJson? hm)
  · cases h

end Object
end DependentWatch
