import DependentWatch.WatchesFile.Printer
import DependentWatch.Proofs.WatchesFile.Trees
/-! Watches files that are written and read again. Nothing is lost, and where a field is left out the
value of a new watch stands for it. -/
namespace DependentWatch
open Yaml (Node Links Decoder)

/-- Which fields are left out where a watch is written. The version and the kind never are. -/
structure Omission where
  group : Bool
  watchDependents : Bool
  selector : Bool
  backoff : Bool
  base : Bool
  max : Bool

def Omission.nothing : Omission := ⟨false, false, false, false, false, false⟩

namespace Json

def eraseIf (left : Bool) (k : String) (j : Json) : Json := if left then j.erase k else j

theorem IsTree.eraseIf {j : Json} (h : j.IsTree) (left : Bool) (k : String) :
    (j.eraseIf left k).IsTree := by
  unfold Json.eraseIf
  split
  · exact h.erase k
  · exact h

theorem modify_self (j : Json) (k : String) : j.modify k (fun v => v) = j := by
  cases j with
  | obj fields => simp [modify]
  | _ => rfl

theorem field?_eraseIf (j : Json) (left : Bool) (k l : String) :
    (j.eraseIf left k).field? l = if left ∧ l = k then none else j.field? l := by
  unfold eraseIf
  cases left <;> simp [field?_erase]

theorem field?_of_eraseIf {j v : Json} {left : Bool} {k l : String}
    (h : (j.eraseIf left k).field? l = some v) : j.field? l = some v := by
  rw [field?_eraseIf] at h
  exact (Option.ite_none_left_eq_some.1 h).2

end Json

namespace Backoff

def fields (b : Backoff) : List (String × Json) :=
  [("baseDelay", .str b.base.text), ("maxDelay", .str b.max.text)]

theorem nodup_fields (b : Backoff) : (b.fields.map Prod.fst).Nodup :=
  (by decide : ["baseDelay", "maxDelay"].Nodup)

theorem field?_toJson (b : Backoff) (k : String) : b.toJson.field? k = b.fields.lookup k :=
  Json.field?_ofFields b.nodup_fields k

/-- A tree of delays without those that are left out. -/
def leaveOut (o : Omission) (j : Json) : Json :=
  (j.eraseIf o.base "baseDelay").eraseIf o.max "maxDelay"

/-- The delays of a new watch stand for those that are left out. -/
def without (o : Omission) (b : Backoff) : Backoff :=
  ⟨if o.base then default.base else b.base, if o.max then default.max else b.max⟩

theorem isTree_leaveOut (o : Omission) (b : Backoff) : (leaveOut o b.toJson).IsTree :=
  ((Json.isTree_ofFields _).eraseIf _ _).eraseIf _ _

theorem exists_writes (o : Omission) (b : Backoff) : ∃ n : Node, n.Writes (leaveOut o b.toJson) := by
  refine Node.exists_writes_of_isTree (isTree_leaveOut o b) fun k v hv => ?_
  have hfield := Json.field?_of_eraseIf (Json.field?_of_eraseIf hv)
  rw [field?_toJson] at hfield
  have hmem := mem_of_lookup hfield
  simp only [fields, List.mem_cons, Prod.mk.injEq, List.not_mem_nil, or_false] at hmem
  obtain ⟨-, rfl⟩ | ⟨-, rfl⟩ := hmem
  · exact ⟨_, .text .quoted _⟩
  · exact ⟨_, .text .quoted _⟩

theorem ofNode_of_writes (l : Links) {n : Node} {o : Omission} {b : Backoff}
    (h : n.Writes (leaveOut o b.toJson)) {depth : Nat} (hd : depth ≠ 0) :
    Backoff.ofNode l depth n = pure (b.without o) := by
  obtain ⟨found, hfields, hfound⟩ :=
    l.fields_of_writes (isTree_leaveOut o b) h hd ["baseDelay", "maxDelay"]
  have hbase := hfound "baseDelay"
  have hmax := hfound "maxDelay"
  simp only [leaveOut, Json.field?_eraseIf, field?_toJson] at hbase hmax
  have hb : Decoder.fieldOr default.base l.duration (found.lookup "baseDelay") =
      pure (if o.base then default.base else b.base) :=
    Yaml.fieldOr_of_rel (fun _ hn => l.duration_of_writes hn) (by simpa [fields, lookup_cons_ite] using hbase)
  have hm : Decoder.fieldOr default.max l.duration (found.lookup "maxDelay") =
      pure (if o.max then default.max else b.max) :=
    Yaml.fieldOr_of_rel (fun _ hn => l.duration_of_writes hn) (by simpa [fields, lookup_cons_ite] using hmax)
  rw [Backoff.ofNode, hfields, pure_bind, hb, pure_bind, hm, pure_bind]
  rfl

end Backoff

namespace Watch

def fields (w : Watch) : List (String × Option Json) := [
  ("group", some (.str w.gvk.group)),
  ("version", some (.str w.gvk.version)),
  ("kind", some (.str w.gvk.kind)),
  ("watchDependentResources", some (.bool w.watchDependents)),
  ("selector", if w.selector.isEmpty then none else some w.selector.toJson),
  ("backoff", some w.backoff.toJson)]

theorem nodup_fields (w : Watch) : (w.fields.map Prod.fst).Nodup :=
  (by decide :
    ["group", "version", "kind", "watchDependentResources", "selector", "backoff"].Nodup)

theorem field?_toJson (w : Watch) (k : String) : w.toJson.field? k = (w.fields.lookup k).join :=
  Json.field?_ofPresent w.nodup_fields k

/-- The tree of a watch without the fields that are left out. -/
def toJsonWithout (o : Omission) (w : Watch) : Json :=
  ((((w.toJson.modify "backoff" (Backoff.leaveOut o)).eraseIf o.group "group").eraseIf
    o.watchDependents "watchDependentResources").eraseIf o.selector "selector").eraseIf
    o.backoff "backoff"

/-- The watch with the values of a new one where fields are left out. -/
def without (o : Omission) (w : Watch) : Watch :=
  let new := ofKind ⟨"", w.gvk.version, w.gvk.kind⟩
  { gvk := ⟨if o.group then new.gvk.group else w.gvk.group, w.gvk.version, w.gvk.kind⟩
    watchDependents := if o.watchDependents then new.watchDependents else w.watchDependents
    selector := if o.selector then new.selector else w.selector
    backoff := if o.backoff then new.backoff else w.backoff.without o }

theorem isTree_toJsonWithout (o : Omission) (w : Watch) : (w.toJsonWithout o).IsTree :=
  (((((Json.isTree_ofFields _).modify _ _).eraseIf _ _).eraseIf _ _).eraseIf _ _).eraseIf _ _

theorem exists_writes_field {w : Watch} {k : String} {v : Json}
    (h : w.toJson.field? k = some v) : ∃ n : Node, n.Writes v := by
  rw [field?_toJson, Option.join_eq_some_iff] at h
  have hmem := mem_of_lookup h
  simp only [fields, List.mem_cons, Prod.mk.injEq, Option.some.injEq, List.not_mem_nil,
    or_false] at hmem
  obtain ⟨-, rfl⟩ | ⟨-, rfl⟩ | ⟨-, rfl⟩ | ⟨-, rfl⟩ | ⟨-, hv⟩ | ⟨-, rfl⟩ := hmem
  · exact ⟨_, .text .quoted _⟩
  · exact ⟨_, .text .quoted _⟩
  · exact ⟨_, .text .quoted _⟩
  · exact ⟨_, .flag _⟩
  · obtain ⟨-, hv⟩ := Option.ite_none_left_eq_some.1 hv.symm
    exact Option.some.inj hv ▸ w.selector.exists_writes
  · exact w.backoff.exists_writes .nothing

theorem exists_writes (o : Omission) (w : Watch) : ∃ n : Node, n.Writes (w.toJsonWithout o) := by
  refine Node.exists_writes_of_isTree (w.isTree_toJsonWithout o) fun k v hv => ?_
  have hfield := Json.field?_of_eraseIf (Json.field?_of_eraseIf (Json.field?_of_eraseIf
    (Json.field?_of_eraseIf hv)))
  rw [Json.field?_modify] at hfield
  split at hfield
  · next hk =>
    have hbackoff : w.toJson.field? "backoff" = some w.backoff.toJson := by
      simp [field?_toJson, fields, lookup_cons_ite]
    rw [hk, hbackoff] at hfield
    exact Option.some.inj hfield ▸ w.backoff.exists_writes o
  · exact exists_writes_field hfield

theorem ofNode_of_writes (l : Links) {n : Node} {o : Omission} {w : Watch}
    (h : n.Writes (w.toJsonWithout o)) {depth : Nat} (hd : 2 ≤ depth) :
    Watch.ofNode l depth n = pure (w.without o) := by
  obtain ⟨found, hfields, hfound⟩ := l.fields_of_writes (w.isTree_toJsonWithout o) h
    (Nat.ne_zero_of_lt hd)
    ["group", "version", "kind", "watchDependentResources", "selector", "backoff"]
  have hdeep : depth - 1 ≠ 0 := by omega
  simp only [toJsonWithout, Json.field?_eraseIf, Json.field?_modify, field?_toJson, fields,
    lookup_cons_ite] at hfound
  have hgroup : Decoder.fieldOr "" l.text (found.lookup "group") =
      pure (if o.group then "" else w.gvk.group) :=
    Yaml.fieldOr_of_rel (fun _ hn => l.text_of_writes hn) (by simpa using hfound "group")
  obtain ⟨version, hversion, hv⟩ : ∃ n, found.lookup "version" = some n ∧
      n.Writes (.str w.gvk.version) :=
    Yaml.exists_of_rel (by simpa using hfound "version")
  obtain ⟨kind, hkind, hk⟩ : ∃ n, found.lookup "kind" = some n ∧ n.Writes (.str w.gvk.kind) :=
    Yaml.exists_of_rel (by simpa using hfound "kind")
  have hflag : Decoder.fieldOr true l.flag (found.lookup "watchDependentResources") =
      pure (if o.watchDependents then true else w.watchDependents) :=
    Yaml.fieldOr_of_rel (fun _ hn => l.flag_of_writes hn)
      (by simpa using hfound "watchDependentResources")
  have hselector : Decoder.fieldOr .empty (TextMap.ofNode l (depth - 1)) (found.lookup "selector") =
      pure (if o.selector || w.selector.isEmpty then .empty else w.selector) :=
    Yaml.fieldOr_of_rel (fun _ hn => TextMap.ofNode_of_writes l hn hdeep)
      (by simpa [Bool.or_eq_true, ite_or] using hfound "selector")
  have hempty : (if o.selector || w.selector.isEmpty then .empty else w.selector) =
      if o.selector then .empty else w.selector := by
    cases o.selector with
    | true => rfl
    | false =>
      show (if w.selector.isEmpty then .empty else w.selector) = w.selector
      split
      · next h => exact (TextMap.eq_empty_of_isEmpty h).symm
      · rfl
  have hbackoff : Decoder.fieldOr .default (Backoff.ofNode l (depth - 1)) (found.lookup "backoff") =
      pure (if o.backoff then .default else w.backoff.without o) :=
    Yaml.fieldOr_of_rel (fun _ hn => Backoff.ofNode_of_writes l hn hdeep)
      (by simpa using hfound "backoff")
  have hpresent (m : Node) : (liftM (some m) : Decoder Node) = pure m := rfl
  simp only [Watch.ofNode, hfields, hgroup, hversion, hkind, hflag, hselector, hempty, hbackoff,
    hpresent, l.text_of_writes hv, l.text_of_writes hk, pure_bind]
  rfl

theorem toJsonWithout_nothing (w : Watch) : w.toJsonWithout .nothing = w.toJson :=
  w.toJson.modify_self "backoff"

theorem without_nothing (w : Watch) : w.without .nothing = w := rfl

end Watch

namespace WatchesFile

theorem ofDocument?_of_writes {d : Yaml.Document} {ws : List (Watch × Omission)}
    (h : d.root.Writes (.arr (ws.map fun p => p.1.toJsonWithout p.2))) :
    ofDocument? d = some ⟨ws.map fun p => p.1.without p.2⟩ := by
  have hdepth : Links.maxDepth ≠ 0 := by decide
  have hdeep : 2 ≤ Links.maxDepth - 1 := by decide
  obtain ⟨nodes, hnodes, hall⟩ := (Links.ofDocument d).items_of_writes h hdepth
  have hread : nodes.mapM (Watch.ofNode (Links.ofDocument d) (Links.maxDepth - 1)) =
      pure (ws.map fun p => p.1.without p.2) := by
    refine Yaml.mapM_eq_pure ?_
    rw [List.forall₂_map_right_iff] at hall ⊢
    exact hall.imp fun _ p hp => Watch.ofNode_of_writes _ hp hdeep
  simp only [ofDocument?, ofNode, hnodes, hread, pure_bind]
  rfl

theorem exists_document_writes (ws : List (Watch × Omission)) :
    ∃ d : Yaml.Document, d.root.Writes (.arr (ws.map fun p => p.1.toJsonWithout p.2)) := by
  have hitems (j : Json) (hj : j ∈ ws.map fun p => p.1.toJsonWithout p.2) :
      ∃ n : Node, n.Writes j := by
    obtain ⟨p, _, rfl⟩ := List.mem_map.1 hj
    exact p.1.exists_writes p.2
  obtain ⟨n, hn⟩ := Node.exists_writes_arr hitems
  exact ⟨⟨n⟩, hn⟩

theorem toJson_eq (f : WatchesFile) :
    f.toJson = .arr ((f.watches.map (·, Omission.nothing)).map fun p => p.1.toJsonWithout p.2) := by
  rw [toJson, List.map_map]
  exact congrArg _ (List.map_congr_left fun w _ => w.toJsonWithout_nothing.symm)

/-- A file that is written and read again is the same, with each of its delays. Where fields are
left out, the values of a new watch without a group stand for them, and the others are as they were
written. -/
theorem reads_what_is_written :
    (∀ f : WatchesFile, (∃ d : Yaml.Document, d.root.Writes f.toJson) ∧
      ∀ d : Yaml.Document, d.root.Writes f.toJson → ofDocument? d = some f) ∧
    (∀ d : Duration, Duration.ofText? d.text = some d) ∧
    ∀ ws : List (Watch × Omission),
      (∃ d : Yaml.Document, d.root.Writes (.arr (ws.map fun p => p.1.toJsonWithout p.2))) ∧
      ∀ d : Yaml.Document, d.root.Writes (.arr (ws.map fun p => p.1.toJsonWithout p.2)) →
        ofDocument? d = some ⟨ws.map fun p => p.1.without p.2⟩ := by
  refine ⟨fun f => ?_, Duration.ofText?_text, fun ws =>
    ⟨exists_document_writes ws, fun _ => ofDocument?_of_writes⟩⟩
  rw [toJson_eq]
  refine ⟨exists_document_writes _, fun d hd => ?_⟩
  have hsame : ((f.watches.map (·, Omission.nothing)).map fun p => p.1.without p.2) = f.watches := by
    rw [List.map_map]
    exact (List.map_congr_left fun w _ => w.without_nothing).trans f.watches.map_id
  rw [ofDocument?_of_writes hd, hsame]

/-- Only the version, the kind and the longest of all delays are written. -/
theorem reads_what_is_written_longest :
    let longest : Duration := ⟨Duration.limit - 1, by decide⟩
    let w : Watch := ⟨⟨"apps", "v1", "Deployment"⟩, false, .ofList [("tier", "web")], ⟨.zero, longest⟩⟩
    let o : Omission := ⟨true, true, true, false, true, false⟩
    ∃ d : Yaml.Document, d.root.Writes (.arr [w.toJsonWithout o]) ∧
      ofDocument? d =
        some ⟨[⟨⟨"", "v1", "Deployment"⟩, true, .empty, ⟨Backoff.default.base, longest⟩⟩]⟩ := by
  intro longest w o
  obtain ⟨⟨d, hd⟩, hread⟩ := reads_what_is_written.2.2 [(w, o)]
  exact ⟨d, hd, hread d hd⟩

end WatchesFile
end DependentWatch
