import DependentWatch.Text
/-! Texts in the order of their bytes, and lists in order in which each element stands once. -/
namespace DependentWatch

namespace Text

/-- The bytes of a text in UTF-8. -/
def bytes (s : String) : List UInt8 := s.toUTF8.data.toList

theorem bytes_eq (s : String) : bytes s = s.toList.flatMap String.utf8EncodeChar := by
  have h : s.toUTF8 = s.toList.utf8Encode := String.utf8Encode_toList.symm
  rw [bytes, h, List.utf8Encode, List.toList_data_toByteArray]

/-- Of two characters the earlier one has the earlier bytes, whatever follows: they part before
either of them ends. -/
theorem utf8EncodeChar_append_lt {c d : Char} (h : c < d) (as bs : List UInt8) :
    String.utf8EncodeChar c ++ as < String.utf8EncodeChar d ++ bs := by
  have hcd : c.val.toNat < d.val.toNat := h
  have hd : d.val.toNat < 0x110000 := by
    have := d.valid
    simp only [UInt32.isValidChar, Nat.isValidChar] at this
    omega
  have heq (m n : Nat) : UInt8.ofNat m = UInt8.ofNat n ↔ m % 256 = n % 256 := by
    rw [← UInt8.toNat_inj, UInt8.toNat_ofNat', UInt8.toNat_ofNat']
  have hlt (m n : Nat) : UInt8.ofNat m < UInt8.ofNat n ↔ m % 256 < n % 256 := by
    rw [UInt8.lt_iff_toNat_lt, UInt8.toNat_ofNat', UInt8.toNat_ofNat']
  have htwo (n : Nat) : n / 4096 = n / 64 / 64 := (Nat.div_div_eq_div_mul n 64 64).symm
  have hthree (n : Nat) : n / 262144 = n / 64 / 64 / 64 := by
    rw [Nat.div_div_eq_div_mul, Nat.div_div_eq_div_mul]
  generalize hm : c.val.toNat = m at hcd
  generalize hn : d.val.toNat = n at hcd hd
  simp only [String.utf8EncodeChar, hm, hn]
  -- A longer form starts with a higher byte; of two forms of one length, the first digits to the
  -- base 64 that differ tell which is lower.
  repeat' split
  all_goals
    simp only [List.cons_append, List.cons_lt_cons_iff, heq, hlt, htwo, hthree]
    omega

theorem bytes_lt_of_lt {s t : String} (h : s < t) : bytes s < bytes t := by
  rw [String.lt_iff] at h
  rw [bytes_eq, bytes_eq]
  generalize s.toList = cs at h
  generalize t.toList = ds at h
  induction ds generalizing cs with
  | nil => exact absurd h (List.not_lt_nil cs)
  | cons d ds ih =>
    cases cs with
    | nil =>
      obtain ⟨b, bs, hd⟩ := List.exists_cons_of_ne_nil (String.utf8EncodeChar_ne_nil (c := d))
      rw [List.flatMap_cons, hd]
      exact List.nil_lt_cons _ _
    | cons c cs =>
      rw [List.flatMap_cons, List.flatMap_cons]
      obtain hc | ⟨rfl, hcs⟩ := List.cons_lt_cons_iff.1 h
      · exact utf8EncodeChar_append_lt hc _ _
      · exact List.append_left_lt (ih cs hcs)

theorem lt_trichotomy (s t : String) : s < t ∨ s = t ∨ t < s := by
  by_cases hst : s < t
  · exact .inl hst
  · by_cases hts : t < s
    · exact .inr (.inr hts)
    · exact .inr (.inl (String.le_antisymm (String.not_lt.1 hts) (String.not_lt.1 hst)))

theorem bytes_lt_iff {s t : String} : bytes s < bytes t ↔ s < t := by
  refine ⟨fun h => ?_, bytes_lt_of_lt⟩
  obtain hst | rfl | hts := lt_trichotomy s t
  · exact hst
  · exact absurd h (List.lt_irrefl _)
  · exact absurd (bytes_lt_of_lt hts) (List.lt_asymm h)

/-- Texts that differ are in a strict order when they are sorted. -/
theorem pairwise_mergeSort {ss : List String} (h : ss.Nodup) : ss.mergeSort.Pairwise (· < ·) := by
  have htrans (s t u : String) (hst : decide (s ≤ t)) (htu : decide (t ≤ u)) : decide (s ≤ u) := by
    simp only [decide_eq_true_eq] at hst htu ⊢
    exact String.le_trans hst htu
  have htotal (s t : String) : decide (s ≤ t) || decide (t ≤ s) := by
    simpa using String.le_total s t
  have hle := List.pairwise_mergeSort htrans htotal ss
  have hne : ss.mergeSort.Nodup := (List.mergeSort_perm ss _).nodup_iff.2 h
  refine (hle.and hne).imp ?_
  rintro s t ⟨hst, hdiff⟩
  simp only [decide_eq_true_eq] at hst
  refine String.not_le.1 fun hts => hdiff (String.le_antisymm hst hts)

end Text

variable {α : Type} [DecidableEq α] (r : α → α → Prop) [DecidableRel r]

/-- Puts an element at its place in a list in order, once. -/
def insertOnce (a : α) : List α → List α
  | [] => [a]
  | b :: bs => if r a b then a :: b :: bs else if a = b then b :: bs else b :: insertOnce a bs

theorem mem_insertOnce (a b : α) (bs : List α) : b ∈ insertOnce r a bs ↔ b = a ∨ b ∈ bs := by
  induction bs with
  | nil => simp [insertOnce]
  | cons c bs ih =>
    simp only [insertOnce]
    split
    · simp
    · split
      · next h => simp [h]
      · simp only [List.mem_cons, ih]
        exact or_left_comm

theorem mem_foldr_insertOnce (a : α) (as : List α) : a ∈ as.foldr (insertOnce r) [] ↔ a ∈ as := by
  induction as with
  | nil => rfl
  | cons b as ih => rw [List.foldr_cons, mem_insertOnce, ih, List.mem_cons]

variable (htrans : ∀ a b c : α, r a b → r b c → r a c) (htotal : ∀ a b : α, r a b ∨ a = b ∨ r b a)
include htrans htotal

theorem pairwise_insertOnce (a : α) {bs : List α} (h : bs.Pairwise r) :
    (insertOnce r a bs).Pairwise r := by
  induction bs with
  | nil => simp [insertOnce]
  | cons b bs ih =>
    obtain ⟨hb, hbs⟩ := List.pairwise_cons.1 h
    simp only [insertOnce]
    split
    · next hab =>
      refine List.pairwise_cons.2 ⟨fun c hc => ?_, h⟩
      obtain rfl | hc := List.mem_cons.1 hc
      · exact hab
      · exact htrans a b c hab (hb c hc)
    · next hab =>
      split
      · exact h
      · next hne =>
        refine List.pairwise_cons.2 ⟨fun c hc => ?_, ih hbs⟩
        obtain rfl | hc := (mem_insertOnce r a c bs).1 hc
        · exact ((htotal c b).resolve_left hab).resolve_left hne
        · exact hb c hc

theorem pairwise_foldr_insertOnce (as : List α) : (as.foldr (insertOnce r) []).Pairwise r := by
  induction as with
  | nil => exact .nil
  | cons a as ih => exact pairwise_insertOnce r htrans htotal a ih

end DependentWatch
