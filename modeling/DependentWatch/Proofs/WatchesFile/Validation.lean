import DependentWatch.Proofs.Lookup
import DependentWatch.WatchesFile.Reader
/-! Which files are accepted, which watch a fault is about, and what is found in a file that is
accepted. -/
namespace DependentWatch

namespace Watch

/-- A watch that is right by itself. -/
structure Sound (w : Watch) : Prop where
  version : ¬ Text.blank w.gvk.version
  kind : ¬ Text.blank w.gvk.kind
  delays : w.backoff.base.nanos ≤ w.backoff.max.nanos

/-- What is wrong with a watch by itself: its version, or else its kind, or else its delays. -/
inductive HasFault (w : Watch) : ConfigFault → Prop where
  | version : Text.blank w.gvk.version → HasFault w (.emptyVersion w.gvk.kind)
  | kind : ¬ Text.blank w.gvk.version → Text.blank w.gvk.kind → HasFault w (.emptyKind w.gvk.group)
  | delays : ¬ Text.blank w.gvk.version → ¬ Text.blank w.gvk.kind →
      w.backoff.max.nanos < w.backoff.base.nanos → HasFault w (.invertedDelays w.gvk.kind)

/-- What is wrong with a watch behind others: a fault of its own, or else that its kind is watched
already. -/
inductive HasFaultBehind (before : List Watch) (w : Watch) : ConfigFault → Prop where
  | own {e : ConfigFault} : w.HasFault e → HasFaultBehind before w e
  | repeated : w.Sound → (∃ v ∈ before, v.gvk = w.gvk) →
      HasFaultBehind before w (.duplicateWatch w.gvk.group w.gvk.version w.gvk.kind)

theorem fault?_eq_none_iff (w : Watch) : w.fault? = none ↔ w.Sound := by
  unfold fault?
  constructor
  · intro h
    split at h
    · cases h
    · next hv =>
      split at h
      · cases h
      · next hk =>
        split at h
        · cases h
        · next hd => exact ⟨hv, hk, Nat.not_lt.1 hd⟩
  · rintro ⟨hv, hk, hd⟩
    rw [if_neg hv, if_neg hk, if_neg (Nat.not_lt.2 hd)]

theorem fault?_eq_some_iff (w : Watch) (e : ConfigFault) : w.fault? = some e ↔ w.HasFault e := by
  unfold fault?
  constructor
  · intro h
    split at h
    · next hv =>
      cases h
      exact .version hv
    · next hv =>
      split at h
      · next hk =>
        cases h
        exact .kind hv hk
      · next hk =>
        split at h
        · next hd =>
          cases h
          exact .delays hv hk hd
        · cases h
  · intro h
    cases h with
    | version hv => rw [if_pos hv]
    | kind hv hk => rw [if_neg hv, if_pos hk]
    | delays hv hk hd => rw [if_neg hv, if_neg hk, if_pos hd]

/-- The fault of a watch behind watches of these kinds. -/
def faultBehind? (seen : List GroupVersionKind) (w : Watch) : Option ConfigFault :=
  w.fault?.or
    (if w.gvk ∈ seen then some (.duplicateWatch w.gvk.group w.gvk.version w.gvk.kind) else none)

theorem faultBehind?_eq_none_iff (seen : List GroupVersionKind) (w : Watch) :
    w.faultBehind? seen = none ↔ w.Sound ∧ w.gvk ∉ seen := by
  rw [faultBehind?, Option.or_eq_none_iff, fault?_eq_none_iff]
  simp

theorem faultBehind?_eq_some_iff (before : List Watch) (w : Watch) (e : ConfigFault) :
    w.faultBehind? (before.map (·.gvk)).reverse = some e ↔ w.HasFaultBehind before e := by
  rw [faultBehind?, Option.or_eq_some_iff, fault?_eq_none_iff, fault?_eq_some_iff]
  simp only [List.mem_reverse, List.mem_map]
  constructor
  · rintro (hown | ⟨hsound, hrepeated⟩)
    · exact .own hown
    · split at hrepeated
      · next hseen =>
        cases hrepeated
        exact .repeated hsound hseen
      · cases hrepeated
  · intro h
    cases h with
    | own hown => exact .inl hown
    | repeated hsound hseen => exact .inr ⟨hsound, if_pos hseen⟩

end Watch

namespace WatchesFile

/-- Watches that are right by themselves, of one owner kind each. -/
structure WellFormed (ws : List Watch) : Prop where
  sound : ∀ w ∈ ws, w.Sound
  distinct : (ws.map (·.gvk)).Nodup

theorem WellFormed.perm {vs ws : List Watch} (h : vs.Perm ws) (hv : WellFormed vs) :
    WellFormed ws where
  sound w hw := hv.sound w (h.mem_iff.2 hw)
  distinct := (h.map _).nodup_iff.1 hv.distinct

theorem faultAfter_cons (seen : List GroupVersionKind) (w : Watch) (ws : List Watch) :
    faultAfter seen (w :: ws) = (w.faultBehind? seen).or (faultAfter (w.gvk :: seen) ws) := by
  rw [faultAfter, Watch.faultBehind?]
  cases w.fault? with
  | some e => rfl
  | none =>
    by_cases hw : w.gvk ∈ seen
    · simp [hw]
    · simp [hw]

theorem faultAfter_append (seen : List GroupVersionKind) (vs ws : List Watch) :
    faultAfter seen (vs ++ ws) =
      (faultAfter seen vs).or (faultAfter ((vs.map (·.gvk)).reverse ++ seen) ws) := by
  induction vs generalizing seen with
  | nil => rfl
  | cons v vs ih =>
    have hkinds : ((v :: vs).map (·.gvk)).reverse ++ seen =
        (vs.map (·.gvk)).reverse ++ v.gvk :: seen := by simp
    rw [List.cons_append, faultAfter_cons, faultAfter_cons, ih, hkinds, Option.or_assoc]

theorem faultAfter_eq_none_iff (seen : List GroupVersionKind) (ws : List Watch) :
    faultAfter seen ws = none ↔ WellFormed ws ∧ ∀ w ∈ ws, w.gvk ∉ seen := by
  induction ws generalizing seen with
  | nil => exact iff_of_true rfl ⟨⟨by simp, .nil⟩, by simp⟩
  | cons w ws ih =>
    rw [faultAfter_cons, Option.or_eq_none_iff, Watch.faultBehind?_eq_none_iff, ih]
    constructor
    · rintro ⟨⟨hsound, hseen⟩, hws, hrest⟩
      have hw : w.gvk ∉ ws.map (·.gvk) := by
        intro hm
        obtain ⟨v, hv, hvw⟩ := List.mem_map.1 hm
        exact hrest v hv (hvw ▸ List.mem_cons_self)
      refine ⟨⟨List.forall_mem_cons.2 ⟨hsound, hws.sound⟩, ?_⟩, List.forall_mem_cons.2 ⟨hseen, ?_⟩⟩
      · exact List.nodup_cons.2 ⟨hw, hws.distinct⟩
      · exact fun v hv hs => hrest v hv (List.mem_cons_of_mem _ hs)
    · rintro ⟨⟨hsound, hdistinct⟩, hseen⟩
      obtain ⟨hw, hws⟩ := List.nodup_cons.1 hdistinct
      obtain ⟨hsw, hsws⟩ := List.forall_mem_cons.1 hsound
      obtain ⟨hnw, hnws⟩ := List.forall_mem_cons.1 hseen
      refine ⟨⟨hsw, hnw⟩, ⟨hsws, hws⟩, fun v hv hs => ?_⟩
      obtain hvw | hs := List.mem_cons.1 hs
      · exact hw (List.mem_map.2 ⟨v, hv, hvw⟩)
      · exact hnws v hv hs

theorem fault?_eq_none_iff (f : WatchesFile) : f.fault? = none ↔ WellFormed f.watches := by
  rw [fault?, faultAfter_eq_none_iff]
  simp

/-- The first watch with a fault behind the others is the one that is reported. -/
theorem faultAfter_eq_some_iff (seen : List GroupVersionKind) (ws : List Watch) (e : ConfigFault) :
    faultAfter seen ws = some e ↔ ∃ before w after, ws = before ++ w :: after ∧
      faultAfter seen before = none ∧
      w.faultBehind? ((before.map (·.gvk)).reverse ++ seen) = some e := by
  constructor
  · intro h
    induction ws generalizing seen with
    | nil => cases h
    | cons w ws ih =>
      rw [faultAfter_cons, Option.or_eq_some_iff] at h
      obtain h | ⟨hw, h⟩ := h
      · exact ⟨[], w, ws, rfl, rfl, h⟩
      · obtain ⟨before, v, after, rfl, hbefore, hv⟩ := ih _ h
        refine ⟨w :: before, v, after, rfl, ?_, by simpa using hv⟩
        rw [faultAfter_cons, hw, hbefore, Option.none_or]
  · rintro ⟨before, w, after, rfl, hbefore, hw⟩
    rw [faultAfter_append, hbefore, Option.none_or, faultAfter_cons, hw, Option.some_or]

theorem fault?_eq_some_iff (f : WatchesFile) (e : ConfigFault) :
    f.fault? = some e ↔ ∃ before w after, f.watches = before ++ w :: after ∧
      WellFormed before ∧ w.HasFaultBehind before e := by
  rw [fault?, faultAfter_eq_some_iff]
  simp only [List.append_nil, Watch.faultBehind?_eq_some_iff, faultAfter_eq_none_iff,
    List.not_mem_nil, not_false_eq_true, implies_true, and_true]

theorem get?_eq_lookup (f : WatchesFile) (k : GroupVersionKind) :
    f.get? k = (f.watches.map fun w => (w.gvk, w)).lookup k := by
  unfold get?
  induction f.watches with
  | nil => rfl
  | cons w ws ih =>
    rw [List.map_cons, lookup_cons_ite, ← ih, List.find?_cons]
    by_cases h : w.gvk = k
    · simp [h]
    · simp [h, Ne.symm h]

theorem WellFormed.nodup_keys {ws : List Watch} (h : WellFormed ws) :
    ((ws.map fun w => (w.gvk, w)).map Prod.fst).Nodup := by
  rw [List.map_map]
  exact h.distinct

theorem WellFormed.get?_eq_some_iff {f : WatchesFile} (h : WellFormed f.watches)
    (k : GroupVersionKind) (w : Watch) : f.get? k = some w ↔ w ∈ f.watches ∧ w.gvk = k := by
  rw [get?_eq_lookup, ← mem_iff_lookup h.nodup_keys, List.mem_map]
  constructor
  · rintro ⟨v, hv, he⟩
    obtain ⟨rfl, rfl⟩ := Prod.mk.inj he
    exact ⟨hv, rfl⟩
  · rintro ⟨hw, rfl⟩
    exact ⟨w, hw, rfl⟩

theorem WellFormed.get?_of_perm {f g : WatchesFile} (h : WellFormed f.watches)
    (hp : f.watches.Perm g.watches) (k : GroupVersionKind) : g.get? k = f.get? k := by
  rw [get?_eq_lookup, get?_eq_lookup]
  exact lookup_of_perm (hp.symm.map _) h.nodup_keys k

theorem ofText_eq_ok_iff (text : String) (f : WatchesFile) :
    ofText text = .ok f ↔
      (Yaml.Document.single? text).bind ofDocument? = some f ∧ f.fault? = none := by
  unfold ofText
  cases (Yaml.Document.single? text).bind ofDocument? with
  | none => simp
  | some g =>
    dsimp only
    cases hg : g.fault? with
    | none =>
      constructor
      · intro h
        cases h
        exact ⟨rfl, hg⟩
      · rintro ⟨h, -⟩
        cases h
        rfl
    | some e =>
      refine ⟨nofun, ?_⟩
      rintro ⟨h, hf⟩
      cases h
      exact nomatch hg.symm.trans hf

/-- A file is accepted just if each of its watches has a version and a kind that are not blank and
delays that are not inverted, and no two are of one kind, in whatever order they stand. Else the
fault is that of the first watch that is wrong by itself or repeats a kind. In a file that is
accepted, as in each that is read from a text, the watch of a kind is found wherever it stands. -/
theorem accepted_iff_wellFormed :
    (∀ f : WatchesFile, f.fault? = none ↔ WellFormed f.watches) ∧
    (∀ f g : WatchesFile, f.watches.Perm g.watches → (f.fault? = none ↔ g.fault? = none)) ∧
    (∀ (f : WatchesFile) (e : ConfigFault), f.fault? = some e ↔
      ∃ before w after, f.watches = before ++ w :: after ∧ WellFormed before ∧
        w.HasFaultBehind before e) ∧
    (∀ (text : String) (f : WatchesFile), ofText text = .ok f ↔
      (Yaml.Document.single? text).bind ofDocument? = some f ∧ WellFormed f.watches) ∧
    ∀ f : WatchesFile, f.fault? = none → ∀ k : GroupVersionKind,
      (∀ w, f.get? k = some w ↔ w ∈ f.watches ∧ w.gvk = k) ∧
      ∀ g : WatchesFile, f.watches.Perm g.watches → g.get? k = f.get? k := by
  refine ⟨fault?_eq_none_iff, fun f g hp => ?_, fault?_eq_some_iff, fun text f => ?_,
    fun f hf k => ?_⟩
  · rw [fault?_eq_none_iff, fault?_eq_none_iff]
    exact ⟨.perm hp, .perm hp.symm⟩
  · rw [ofText_eq_ok_iff, fault?_eq_none_iff]
  · have h : WellFormed f.watches := f.fault?_eq_none_iff.1 hf
    exact ⟨h.get?_eq_some_iff k, fun g hp => h.get?_of_perm hp k⟩

/-- Kinds that differ in the version or in the group alone, in two orders. -/
theorem accepted_iff_wellFormed_reversed :
    let watch : Watch := ⟨⟨"apps", "v1", "Deployment"⟩, false, .empty, .default⟩
    let f : WatchesFile :=
      ⟨[.ofKind ⟨"apps", "v1beta1", "Deployment"⟩, .ofKind ⟨"", "v1", "Deployment"⟩, watch]⟩
    let g : WatchesFile := ⟨f.watches.reverse⟩
    f.watches.Perm g.watches ∧ f.fault? = none ∧ g.fault? = none ∧
      g.get? ⟨"apps", "v1", "Deployment"⟩ = some watch := by
  intro watch f g
  have hp : f.watches.Perm g.watches := (List.reverse_perm f.watches).symm
  have hf : f.fault? = none := by decide
  obtain ⟨-, horder, -, -, hget⟩ := accepted_iff_wellFormed
  obtain ⟨hfound, hsame⟩ := hget f hf ⟨"apps", "v1", "Deployment"⟩
  exact ⟨hp, hf, (horder f g hp).1 hf,
    (hsame g hp).trans ((hfound watch).2 ⟨by simp [f], rfl⟩)⟩

end WatchesFile
end DependentWatch
