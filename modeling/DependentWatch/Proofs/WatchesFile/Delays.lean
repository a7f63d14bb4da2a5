import DependentWatch.Duration.Text
import Mathlib.Data.List.Forall2
import Mathlib.Data.List.TakeWhile
/-! Durations as texts, read back. The parts of a text are read one after the other, and they add up
to what was broken into them. -/
namespace DependentWatch.Duration

/-! Parts that are whole numbers add up. -/

def Part.nanos (p : Part) : Nat := p.whole * p.unit.count * if p.unit.isSmall then 1 else 1000000000

def totalNanos : List Part → Nat
  | [] => 0
  | p :: ps => p.nanos + totalNanos ps

theorem eq_of_nanos_eq {d d' : Duration} (h : d.nanos = d'.nanos) : d = d' := by
  cases d
  cases d'
  obtain rfl := h
  rfl

theorem ofNanos?_nanos (d : Duration) : ofNanos? d.nanos = some d := dif_pos d.lt_limit

theorem TimeUnit.count_pos (u : TimeUnit) : 0 < u.count := by cases u <;> decide

theorem addNanos?_eq {d d' : Duration} {n : Nat} (hn : n < 1000000000)
    (h : d'.nanos = d.nanos + n) : d.addNanos? n = some d' := by
  have hroom : d.subsecNanos + n < Nat.pow 2 64 := by
    have : d.subsecNanos < 1000000000 := Nat.mod_lt _ (by decide)
    simp only [Nat.pow_eq, Nat.reducePow]
    omega
  rw [addNanos?, if_pos hroom, ← h, ofNanos?_nanos]

theorem addSecs?_eq {d d' : Duration} {n : Nat} (h : d'.nanos = d.nanos + n * 1000000000) :
    d.addSecs? n = some d' := by
  simp only [addSecs?, Nat.pow_eq, Nat.reducePow, ← h, ofNanos?_nanos]

theorem addPart?_of_lt (d : Duration) {p : Part} (hf : p.fraction = none)
    (h : p.whole * p.unit.count < 18446744073709551616) :
    d.addPart? p =
      if p.unit.isSmall then d.addNanos? (p.whole * p.unit.count)
      else d.addSecs? (p.whole * p.unit.count) := by
  have hwhole : p.whole ≤ p.whole * p.unit.count := Nat.le_mul_of_pos_right _ p.unit.count_pos
  have hlt : ¬ Nat.pow 2 64 ≤ p.whole := by
    simp only [Nat.pow_eq, Nat.reducePow]
    omega
  have hproduct : product? p.whole p.unit.count = some (p.whole * p.unit.count) := by
    simp only [product?, Nat.pow_eq, Nat.reducePow, h, if_true]
  simp only [addPart?, if_neg hlt, hproduct, hf, Option.bind_eq_bind, Option.bind_some,
    Option.bind_fun_some]

/-- Where nothing is beyond the room for it, a part is added as it is. -/
theorem addPart?_eq {d d' : Duration} {p : Part} (hf : p.fraction = none)
    (hsmall : p.unit.isSmall → p.nanos < 1000000000) (h : d'.nanos = d.nanos + p.nanos) :
    d.addPart? p = some d' := by
  have hlimit := d'.lt_limit
  simp only [limit, Nat.pow_eq, Nat.reducePow] at hlimit
  unfold Part.nanos at hsmall h
  cases hu : p.unit.isSmall with
  | true =>
    simp only [hu, if_true, Nat.mul_one, forall_const] at hsmall h
    rw [addPart?_of_lt d hf (by omega), if_pos hu, addNanos?_eq hsmall h]
  | false =>
    simp only [hu, Bool.false_eq_true, if_false] at h
    rw [addPart?_of_lt d hf (by omega), if_neg (by simp [hu]), addSecs?_eq h]

/-- A part without a fraction, whose nanoseconds are less than a second if its unit is. -/
def Part.Plain (p : Part) : Prop := p.fraction = none ∧ (p.unit.isSmall → p.nanos < 1000000000)

theorem foldlM_addPart? {parts : List Part} (hp : ∀ p ∈ parts, p.Plain) {d d' : Duration}
    (h : d'.nanos = d.nanos + totalNanos parts) : parts.foldlM addPart? d = some d' := by
  induction parts generalizing d with
  | nil => rw [eq_of_nanos_eq h]; rfl
  | cons p parts ih =>
    obtain ⟨hf, hsmall⟩ := hp p List.mem_cons_self
    have hlt : d.nanos + p.nanos < limit := by
      have := d'.lt_limit
      unfold totalNanos at h
      omega
    have hfirst : d.addPart? p = some ⟨d.nanos + p.nanos, hlt⟩ := addPart?_eq hf hsmall rfl
    have hrest : d'.nanos = d.nanos + p.nanos + totalNanos parts := by
      unfold totalNanos at h
      omega
    rw [List.foldlM_cons, hfirst]
    exact ih (fun q hq => hp q (List.mem_cons_of_mem p hq)) hrest

/-! A part of a text is read as it was written. -/

theorem readNumber_digits {ds : List Char} (h : ∀ c ∈ ds, c.isDigit) (whole : Nat)
    (rest : List Char) :
    readNumber whole (ds ++ rest) = readNumber (Nat.ofDigitChars 10 ds whole) rest := by
  induction ds generalizing whole with
  | nil => rfl
  | cons c ds ih =>
    have hc : c.isDigit := h c List.mem_cons_self
    rw [List.cons_append, readNumber, if_pos hc, ih fun d hd => h d (List.mem_cons_of_mem c hd),
      Nat.ofDigitChars_cons, digitValue, Nat.mul_comm]

/-- A name of a unit, as it stands in a text. -/
structure Names (name : String) (u : TimeUnit) : Prop where
  read : TimeUnit.ofName? name = some u
  chars : ∀ c ∈ name.toList, isUnitChar c ∧ c.isDigit = false ∧ Text.isBlank c = false
  ne : name.toList ≠ []

theorem names_of_mem {name : String} {u : TimeUnit} (h : name ∈ u.names) : Names name u := by
  have hall : ∀ u ∈ TimeUnit.all, ∀ name ∈ u.names, TimeUnit.ofName? name = some u ∧
      (name.toList.all fun c => isUnitChar c && !c.isDigit && !Text.isBlank c) ∧
      name.toList ≠ [] := by decide
  have hu : u ∈ TimeUnit.all := by cases u <;> decide
  obtain ⟨hread, hchars, hne⟩ := hall u hu name h
  refine ⟨hread, fun c hc => ?_, hne⟩
  simpa [and_assoc] using List.all_eq_true.1 hchars c hc

/-- What is written for a part. -/
def Written (w : Nat × String × String) (p : Part) : Prop :=
  ∃ u, p = ⟨w.1, none, u⟩ ∧ Names w.2.1 u ∧ Names w.2.2 u

theorem readNumber_name {name : String} {u : TimeUnit} (h : Names name u) (whole : Nat)
    (rest : List Char) :
    readNumber whole (name.toList ++ rest) = some (whole, none, name.toList ++ rest) := by
  obtain ⟨c, cs, hcs⟩ := List.exists_cons_of_ne_nil h.ne
  obtain ⟨hu, hd, hb⟩ := h.chars c (by rw [hcs]; exact List.mem_cons_self)
  simp [hcs, readNumber, hu, hd, hb]

/-- Behind a part the text ends, or a space follows. -/
def Ends (rest : List Char) : Prop := rest = [] ∨ ∃ more, rest = ' ' :: more

theorem isUnitChar_space : isUnitChar ' ' = false := by decide

theorem takeWhile_name {name : String} {u : TimeUnit} (h : Names name u) {rest : List Char}
    (hr : Ends rest) :
    (name.toList ++ rest).takeWhile isUnitChar = name.toList ∧
      (name.toList ++ rest).dropWhile isUnitChar = rest := by
  have hall : ∀ c ∈ name.toList, isUnitChar c := fun c hc => (h.chars c hc).1
  have hrest : rest.takeWhile isUnitChar = [] ∧ rest.dropWhile isUnitChar = rest := by
    obtain rfl | ⟨more, rfl⟩ := hr
    · exact ⟨rfl, rfl⟩
    · simp [isUnitChar_space]
  rw [List.takeWhile_append_of_pos hall, List.dropWhile_append_of_pos hall, hrest.1, hrest.2,
    List.append_nil]
  exact ⟨rfl, rfl⟩

theorem readPart_written {w : Nat × String × String} {p : Part} (h : Written w p) {rest : List Char}
    (hr : Ends rest) :
    ∃ c cs, (partText w).toList = c :: cs ∧ c.isDigit ∧ cs ≠ [] ∧
      readPart c (cs ++ rest) = some (p, rest) := by
  obtain ⟨n, one, many⟩ := w
  obtain ⟨u, rfl, hone, hmany⟩ := h
  obtain ⟨name, hn, htext⟩ : ∃ name, Names name u ∧
      (partText (n, one, many)).toList = Nat.toDigits 10 n ++ name.toList := by
    refine ⟨if n = 1 then one else many, ?_, ?_⟩
    · split
      · exact hone
      · exact hmany
    · rw [partText, String.toList_append, Nat.toString_eq_repr, Nat.toList_repr]
  have hdigits (c : Char) (hc : c ∈ Nat.toDigits 10 n) : c.isDigit :=
    Nat.isDigit_of_mem_toDigits (by decide) (by decide) hc
  obtain ⟨c, ds, hds⟩ := List.exists_cons_of_ne_nil (Nat.toDigits_ne_nil (n := n) (b := 10))
  rw [hds] at hdigits
  have hvalue : Nat.ofDigitChars 10 ds (digitValue c) = n := by
    have := Nat.ofDigitChars_toDigits (n := n) (b := 10) (by decide) (by decide)
    rwa [hds, Nat.ofDigitChars_cons, Nat.mul_zero, Nat.zero_add] at this
  have hnumber : readNumber (digitValue c) (ds ++ (name.toList ++ rest)) =
      some (n, none, name.toList ++ rest) := by
    rw [readNumber_digits (fun d hd => hdigits d (List.mem_cons_of_mem c hd)), hvalue,
      readNumber_name hn]
  obtain ⟨htake, hdrop⟩ := takeWhile_name hn hr
  refine ⟨c, ds ++ name.toList, by rw [htext, hds]; rfl, hdigits c List.mem_cons_self, ?_, ?_⟩
  · exact fun he => hn.ne (List.append_eq_nil_iff.1 he).2
  · rw [List.append_assoc]
    simp only [readPart, hnumber, Option.bind_eq_bind, Option.bind_some, htake, hdrop,
      String.ofList_toList, hn.read]
    obtain rfl | ⟨more, rfl⟩ := hr
    · rfl
    · have hblank : Text.isBlank ' ' = true := by decide
      simp [hblank]

/-! The parts of a text, each behind a space. -/

def spaced (ws : List (Nat × String × String)) : List Char :=
  ws.flatMap fun w => ' ' :: (partText w).toList

theorem ends_spaced (ws : List (Nat × String × String)) : Ends (spaced ws) := by
  cases ws with
  | nil => exact .inl rfl
  | cons w ws => exact .inr ⟨_, rfl⟩

theorem toList_intercalate {ws : List (Nat × String × String)} (h : ws ≠ []) :
    ' ' :: (" ".intercalate (ws.map partText)).toList = spaced ws := by
  rw [String.toList_intercalate, List.map_map]
  induction ws with
  | nil => exact absurd rfl h
  | cons w ws ih =>
    cases ws with
    | nil => simp [spaced, List.intercalate]
    | cons v ws =>
      have hrest := ih (List.cons_ne_nil v ws)
      simp only [spaced, List.flatMap_cons, List.map_cons, Function.comp_apply,
        List.intercalate_cons_cons, List.cons_append, List.append_assoc] at hrest ⊢
      rw [← hrest]
      rfl

theorem isBlank_of_isDigit {c : Char} (h : c.isDigit) : Text.isBlank c = false := by
  have hc : 48 ≤ c.toNat ∧ c.toNat ≤ 57 := by
    simpa [Char.isDigit, UInt32.le_iff_toNat_le] using h
  simp only [Text.isBlank, Bool.or_eq_false_iff, Bool.and_eq_false_iff, decide_eq_false_iff_not,
    beq_eq_false_iff_ne]
  omega

theorem readParts_space (fuel : Nat) (cs : List Char) :
    readParts fuel (' ' :: cs) = readParts fuel cs := by
  cases fuel with
  | zero => rfl
  | succ fuel => rfl

theorem readParts_spaced {ws : List (Nat × String × String)} {parts : List Part}
    (h : List.Forall₂ Written ws parts) {fuel : Nat} (hf : ws.length < fuel) :
    readParts fuel (spaced ws) = some parts := by
  induction h generalizing fuel with
  | nil =>
    obtain ⟨fuel, rfl⟩ := Nat.exists_eq_succ_of_ne_zero (Nat.ne_of_gt hf)
    rfl
  | @cons w p ws parts hw _ ih =>
    obtain ⟨fuel, rfl⟩ := Nat.exists_eq_succ_of_ne_zero (Nat.ne_zero_of_lt hf)
    obtain ⟨c, cs, htext, hc, _, hread⟩ := readPart_written hw (ends_spaced ws)
    have hspaced : spaced (w :: ws) = ' ' :: c :: (cs ++ spaced ws) := by
      rw [spaced, List.flatMap_cons, htext]
      rfl
    have hdrop : (c :: (cs ++ spaced ws)).dropWhile Text.isBlank = c :: (cs ++ spaced ws) := by
      rw [List.dropWhile_cons_of_neg (by simp [isBlank_of_isDigit hc])]
    rw [hspaced, readParts_space, readParts, hdrop]
    simp [hc, hread, ih (Nat.lt_of_succ_lt_succ hf)]

theorem length_lt_length_spaced {ws : List (Nat × String × String)} {parts : List Part}
    (h : List.Forall₂ Written ws parts) (hne : ws ≠ []) : ws.length < (spaced ws).length := by
  have htwice : 2 * ws.length ≤ (spaced ws).length := by
    clear hne
    induction h with
    | nil => exact Nat.le_refl _
    | @cons w p ws parts hw _ ih =>
      obtain ⟨c, cs, htext, _, _, _⟩ := readPart_written hw (ends_spaced ws)
      rw [spaced, List.flatMap_cons, List.length_append, htext]
      unfold spaced at ih
      simp only [List.length_cons]
      omega
  have := List.length_pos_of_ne_nil hne
  omega

/-- What has parts is neither blank nor the text that needs no unit. -/
theorem ofText?_of_readParts {s : String} {parts : List Part} (hne : parts ≠ [])
    (h : readParts (s.toList.length + 1) s.toList = some parts) : ofText? s = ofParts? parts := by
  have hzero : s ≠ "0" := by
    rintro rfl
    exact nomatch h
  have hblank : Text.blank s = false := by
    refine Bool.eq_false_iff.2 fun hb => hne ?_
    have hdrop : s.toList.dropWhile Text.isBlank = [] :=
      List.dropWhile_eq_nil_iff.2 (List.all_eq_true.1 hb)
    rw [readParts, hdrop] at h
    exact (Option.some.inj h).symm
  rw [ofText?, if_neg hzero, hblank, h]
  rfl

/-! A duration is broken into parts. -/

def writtenUnits : List TimeUnit :=
  [.year, .month, .day, .hour, .minute, .second, .milli, .micro, .nano]

def parts (d : Duration) : List Part :=
  d.counts.zipWith (fun w u => ⟨w.1, none, u⟩) writtenUnits

theorem written_counts (d : Duration) : List.Forall₂ Written d.counts d.parts := by
  refine .cons ⟨.year, rfl, ?_, ?_⟩ <| .cons ⟨.month, rfl, ?_, ?_⟩ <| .cons ⟨.day, rfl, ?_, ?_⟩ <|
    .cons ⟨.hour, rfl, ?_, ?_⟩ <| .cons ⟨.minute, rfl, ?_, ?_⟩ <| .cons ⟨.second, rfl, ?_, ?_⟩ <|
    .cons ⟨.milli, rfl, ?_, ?_⟩ <| .cons ⟨.micro, rfl, ?_, ?_⟩ <| .cons ⟨.nano, rfl, ?_, ?_⟩ .nil
  all_goals exact names_of_mem (by simp [TimeUnit.names])

theorem totalNanos_parts (d : Duration) : totalNanos d.parts = d.nanos := by
  simp only [parts, counts, writtenUnits, List.zipWith_cons_cons, List.zipWith_nil_right, totalNanos,
    Part.nanos, TimeUnit.count, TimeUnit.isSmall, secs, subsecNanos, Nat.pow_eq, Nat.reducePow,
    if_true, Bool.false_eq_true, if_false]
  omega

theorem plain_of_mem_parts {d : Duration} {p : Part} (h : p ∈ d.parts) : p.Plain := by
  simp only [parts, counts, writtenUnits, List.zipWith_cons_cons, List.zipWith_nil_right,
    List.mem_cons, List.not_mem_nil, or_false] at h
  obtain rfl | rfl | rfl | rfl | rfl | rfl | rfl | rfl | rfl := h
  all_goals
    refine ⟨rfl, ?_⟩
    simp only [Part.nanos, TimeUnit.count, TimeUnit.isSmall, subsecNanos, Nat.pow_eq, Nat.reducePow,
      Bool.false_eq_true, false_implies, if_true]
  all_goals omega

/-! Parts that are nothing are left out. -/

theorem Written.filter {ws : List (Nat × String × String)} {parts : List Part}
    (h : List.Forall₂ Written ws parts) :
    List.Forall₂ Written (ws.filter (·.1 ≠ 0)) (parts.filter (·.whole ≠ 0)) := by
  induction h with
  | nil => exact .nil
  | @cons w p ws parts hw _ ih =>
    have hwhole : p.whole = w.1 := by
      obtain ⟨u, rfl, _⟩ := hw
      rfl
    rw [List.filter_cons, List.filter_cons, hwhole]
    split
    · exact .cons hw ih
    · exact ih

theorem totalNanos_filter (parts : List Part) :
    totalNanos (parts.filter (·.whole ≠ 0)) = totalNanos parts := by
  induction parts with
  | nil => rfl
  | cons p parts ih =>
    by_cases hp : p.whole = 0
    · have hnothing : p.nanos = 0 := by simp [Part.nanos, hp]
      rw [List.filter_cons_of_neg (by simp [hp]), ih, totalNanos, hnothing, Nat.zero_add]
    · rw [List.filter_cons_of_pos (by simp [hp]), totalNanos, ih, totalNanos]

/-- A text leads back to the duration it was written for, and nothing is too large on the way. -/
theorem ofText?_text (d : Duration) : ofText? d.text = some d := by
  by_cases hd : d.nanos = 0
  · obtain rfl : d = zero := eq_of_nanos_eq hd
    decide
  · have hwritten := Written.filter d.written_counts
    have htotal : totalNanos (d.parts.filter (·.whole ≠ 0)) = d.nanos := by
      rw [totalNanos_filter, totalNanos_parts]
    generalize hws : d.counts.filter (·.1 ≠ 0) = ws at hwritten
    generalize hps : d.parts.filter (·.whole ≠ 0) = parts at hwritten htotal
    have hparts : parts ≠ [] := fun he => hd (by rw [← htotal, he]; rfl)
    have hne : ws ≠ [] := fun he => hparts (List.forall₂_nil_left_iff.1 (he ▸ hwritten))
    have htext : d.text = " ".intercalate (ws.map partText) := by rw [text, if_neg hd, hws]
    have hspaced : ' ' :: d.text.toList = spaced ws := by rw [htext, toList_intercalate hne]
    have hfuel : ws.length < d.text.toList.length + 1 := by
      have := length_lt_length_spaced hwritten hne
      rwa [← hspaced] at this
    have hread : readParts (d.text.toList.length + 1) d.text.toList = some parts := by
      rw [← readParts_space, hspaced]
      exact readParts_spaced hwritten hfuel
    have hplain : ∀ p ∈ parts, p.Plain := by
      intro p hp
      rw [← hps] at hp
      exact plain_of_mem_parts (List.mem_filter.1 hp).1
    rw [ofText?_of_readParts hparts hread]
    exact foldlM_addPart? hplain (by rw [htotal]; exact (Nat.zero_add _).symm)

/-- The longest duration has every unit in its text. -/
example : (Duration.mk (Duration.limit - 1) (by decide)).text =
    "584542046090years 7months 15days 17h 5m 3s 999ms 999us 999ns" := by decide +kernel

end DependentWatch.Duration
