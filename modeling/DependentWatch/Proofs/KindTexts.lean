import DependentWatch.Kind
import Mathlib.Data.Set.Function
/-! Which kinds are told by their texts: by an `apiVersion` with a kind, by the label for errors and
by the type for annotations. -/
namespace DependentWatch.GroupVersionKind
open Text

theorem ofApiVersion_of_noSlash {version : String} (h : '/' ∉ version.toList) (kind : String) :
    ofApiVersion version kind = ⟨"", version, kind⟩ := by
  rw [ofApiVersion, cutLast_eq_none.2 h]

theorem ofApiVersion_append {version : String} (h : '/' ∉ version.toList) (group kind : String) :
    ofApiVersion (group ++ "/" ++ version) kind = ⟨group, version, kind⟩ := by
  have htext : (group ++ "/" ++ version).toList = group.toList ++ '/' :: version.toList := by simp
  rw [ofApiVersion, htext, cutLast_append h]
  simp

/-- A text has no slash, or a last one. -/
theorem exists_cut (text : String) :
    '/' ∉ text.toList ∨
      ∃ group version : String, '/' ∉ version.toList ∧ text = group ++ "/" ++ version := by
  cases hc : cutLast '/' text.toList with
  | none => exact .inl (cutLast_eq_none.1 hc)
  | some p =>
    obtain ⟨htext, hp⟩ := cutLast_eq_some (a := p.1) (b := p.2) hc
    refine .inr ⟨.ofList p.1, .ofList p.2, by simpa using hp, ?_⟩
    rw [← String.toList_inj, htext]
    simp

theorem kind_ofApiVersion (text kind : String) : (ofApiVersion text kind).kind = kind := by
  unfold ofApiVersion
  split <;> rfl

theorem noSlash_version_ofApiVersion (text kind : String) :
    '/' ∉ (ofApiVersion text kind).version.toList := by
  obtain h | ⟨group, version, h, rfl⟩ := exists_cut text
  · rwa [ofApiVersion_of_noSlash h]
  · rwa [ofApiVersion_append h]

/-- The texts that stand for a version of a group. A version has no slash, a group may have some. -/
def IsVersionOf (group apiVersion : String) : Prop :=
  (group = "" ∧ '/' ∉ apiVersion.toList) ∨
    ∃ version, '/' ∉ version.toList ∧ apiVersion = group ++ "/" ++ version

theorem group_ofApiVersion_iff (apiVersion kind group : String) :
    (ofApiVersion apiVersion kind).group = group ↔ IsVersionOf group apiVersion := by
  constructor
  · rintro rfl
    obtain h | ⟨group, version, h, rfl⟩ := exists_cut apiVersion
    · exact .inl ⟨by rw [ofApiVersion_of_noSlash h], h⟩
    · exact .inr ⟨version, h, by rw [ofApiVersion_append h]⟩
  · rintro (⟨rfl, h⟩ | ⟨version, h, rfl⟩)
    · rw [ofApiVersion_of_noSlash h]
    · rw [ofApiVersion_append h]

/-- A group that is nothing before a slash is written as the core group, without that slash. -/
theorem apiVersion_ofApiVersion_iff (text kind : String) :
    (ofApiVersion text kind).apiVersion = text ↔
      ¬ ∃ rest : String, '/' ∉ rest.toList ∧ text = "/" ++ rest := by
  obtain h | ⟨group, version, h, rfl⟩ := exists_cut text
  · have hlead : ¬ ∃ rest : String, '/' ∉ rest.toList ∧ text = "/" ++ rest := by
      rintro ⟨rest, _, rfl⟩
      simp at h
    rw [ofApiVersion_of_noSlash h]
    exact iff_of_true rfl hlead
  · rw [ofApiVersion_append h]
    by_cases hg : group = ""
    · subst hg
      have hne : version ≠ "" ++ "/" ++ version := by
        intro he
        have := congrArg String.length he
        simp at this
      exact iff_of_false hne (not_not.2 ⟨version, h, by simp⟩)
    · have hlead : ¬ ∃ rest : String, '/' ∉ rest.toList ∧ group ++ "/" ++ version = "/" ++ rest := by
        rintro ⟨rest, hrest, he⟩
        have hcut := ofApiVersion_append hrest "" kind
        rw [String.empty_append, ← he, ofApiVersion_append h] at hcut
        exact hg (GroupVersionKind.mk.inj hcut).1
      exact iff_of_true (if_neg hg) hlead

theorem ofApiVersion_apiVersion_iff (k : GroupVersionKind) :
    ofApiVersion k.apiVersion k.kind = k ↔ '/' ∉ k.version.toList := by
  constructor
  · intro h
    rw [← h]
    exact noSlash_version_ofApiVersion _ _
  · intro h
    unfold apiVersion
    split
    · next hg => rw [ofApiVersion_of_noSlash h, ← hg]
    · rw [ofApiVersion_append h]

/-- A label is cut at its last slash into the `apiVersion` and the kind. -/
theorem label_inj {a b : GroupVersionKind} (ha : '/' ∉ a.version.toList ∧ '/' ∉ a.kind.toList)
    (hb : '/' ∉ b.version.toList ∧ '/' ∉ b.kind.toList) (h : a.label = b.label) : a = b := by
  have hcut := congrArg (ofApiVersion · "") h
  simp only [label, ofApiVersion_append ha.2, ofApiVersion_append hb.2, mk.injEq, and_true] at hcut
  obtain ⟨hversion, hkind⟩ := hcut
  rw [← (ofApiVersion_apiVersion_iff a).2 ha.1, ← (ofApiVersion_apiVersion_iff b).2 hb.1, hversion,
    hkind]

theorem cutFirst_typeText {k : GroupVersionKind} (h : '.' ∉ k.kind.toList) :
    cutFirst '.' k.typeText.toList =
      if k.group = "" then none else some (k.kind.toList, k.group.toList) := by
  unfold typeText
  split
  · exact cutFirst_eq_none.2 h
  · have hc : (k.kind ++ "." ++ k.group).toList = k.kind.toList ++ '.' :: k.group.toList := by simp
    rw [hc, cutFirst_append h]

/-- Kinds without a dot are told apart by their texts, up to the version. -/
theorem typeText_inj {a b : GroupVersionKind} (ha : '.' ∉ a.kind.toList) (hb : '.' ∉ b.kind.toList)
    (h : a.typeText = b.typeText) : a.group = b.group ∧ a.kind = b.kind := by
  have hc := cutFirst_typeText ha
  rw [h, cutFirst_typeText hb] at hc
  by_cases hga : a.group = "" <;> by_cases hgb : b.group = ""
  · simp only [typeText, hga, hgb, if_true] at h
    exact ⟨hga.trans hgb.symm, h⟩
  · simp [hga, hgb] at hc
  · simp [hga, hgb] at hc
  · simp only [hga, hgb, if_false, Option.some.injEq, Prod.mk.injEq, String.toList_inj] at hc
    exact ⟨hc.2.symm, hc.1.symm⟩

/-- An `apiVersion` is written as it was read unless its only slash comes first, and a kind is read
as it was written just if its version has no slash. Labels tell kinds apart that have no slash in
version and kind, and types those that have no dot in the kind, up to the version. -/
theorem kinds_survive_their_texts :
    (∀ text kind : String, (ofApiVersion text kind).apiVersion = text ↔
      ¬ ∃ rest : String, '/' ∉ rest.toList ∧ text = "/" ++ rest) ∧
    (∀ k : GroupVersionKind, ofApiVersion k.apiVersion k.kind = k ↔ '/' ∉ k.version.toList) ∧
    Set.InjOn label {k | '/' ∉ k.version.toList ∧ '/' ∉ k.kind.toList} ∧
    (∀ a b : GroupVersionKind, '.' ∉ a.kind.toList → '.' ∉ b.kind.toList →
      (a.typeText = b.typeText ↔ a.group = b.group ∧ a.kind = b.kind)) ∧
    ∀ (k : GroupVersionKind) (version : String), { k with version }.typeText = k.typeText := by
  refine ⟨apiVersion_ofApiVersion_iff, ofApiVersion_apiVersion_iff,
    fun a ha b hb => label_inj ha hb, fun a b ha hb => ⟨typeText_inj ha hb, ?_⟩, fun _ _ => rfl⟩
  rintro ⟨hgroup, hkind⟩
  rw [typeText, typeText, hgroup, hkind]

/-- Kinds that differ by a separator alone: `v1/Cache` and `v1//Cache`, `Cache.example.com` and
`Cache..example.com`. -/
theorem kinds_survive_their_texts_separator :
    let core : GroupVersionKind := ⟨"", "v1", "Cache"⟩
    let unversioned : GroupVersionKind := ⟨"v1", "", "Cache"⟩
    let a : GroupVersionKind := ⟨"example.com", "v1", "Cache"⟩
    let b : GroupVersionKind := ⟨".example.com", "v1", "Cache"⟩
    ('/' ∉ core.version.toList ∧ '/' ∉ core.kind.toList) ∧
      ('/' ∉ unversioned.version.toList ∧ '/' ∉ unversioned.kind.toList) ∧
      core.label ≠ unversioned.label ∧
      '.' ∉ a.kind.toList ∧ '.' ∉ b.kind.toList ∧ a.typeText ≠ b.typeText := by
  intro core unversioned a b
  have hcore : '/' ∉ core.version.toList ∧ '/' ∉ core.kind.toList := by decide
  have hunversioned : '/' ∉ unversioned.version.toList ∧ '/' ∉ unversioned.kind.toList := by decide
  have ha : '.' ∉ a.kind.toList := by decide
  have hb : '.' ∉ b.kind.toList := by decide
  obtain ⟨-, -, hlabel, htype, -⟩ := kinds_survive_their_texts
  refine ⟨hcore, hunversioned, fun h => ?_, ha, hb, fun h => ?_⟩
  · exact absurd (hlabel hcore hunversioned h) (by decide)
  · exact absurd ((htype a b ha hb).1 h).1 (by decide)

end DependentWatch.GroupVersionKind
