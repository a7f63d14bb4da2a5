import Mathlib.Data.List.Induction
/-! Systems that go on step by step, and what the histories of their runs tell. -/
namespace DependentWatch

/-- An input takes a state to the next one and leaves marks in the log. -/
structure System (σ ι μ : Type) where
  step : σ → ι → σ
  marks : σ → ι → List μ

namespace System
variable {σ ι μ : Type} (M : System σ ι μ)

def run (s : σ) : List ι → σ
  | [] => s
  | i :: is => run (M.step s i) is

def log (s : σ) : List ι → List μ
  | [] => []
  | i :: is => M.marks s i ++ log (M.step s i) is

theorem run_append (s : σ) (is js : List ι) : M.run s (is ++ js) = M.run (M.run s is) js := by
  induction is generalizing s with
  | nil => rfl
  | cons i is ih => exact ih (M.step s i)

theorem log_append (s : σ) (is js : List ι) :
    M.log s (is ++ js) = M.log s is ++ M.log (M.run s is) js := by
  induction is generalizing s with
  | nil => rfl
  | cons i is ih => simp only [List.cons_append, log, run, ih, List.append_assoc]

/-- What the steps of a run add up to. -/
def total (f : σ → ι → Nat) (s : σ) : List ι → Nat
  | [] => 0
  | i :: is => f s i + total f (M.step s i) is

theorem total_eq_zero {f : σ → ι → Nat} {is : List ι} (h : ∀ i ∈ is, ∀ s, f s i = 0) (s : σ) :
    M.total f s is = 0 := by
  induction is generalizing s with
  | nil => rfl
  | cons i is ih =>
    rw [total, h i List.mem_cons_self s, ih fun j hj => h j (List.mem_cons_of_mem i hj)]

/-- Where each step balances what two measures gain, a run does. -/
theorem balance {u v : σ → Nat} {f g : σ → ι → Nat}
    (h : ∀ s i, u (M.step s i) + v s + f s i = u s + v (M.step s i) + g s i) (s : σ) (is : List ι) :
    u (M.run s is) + v s + M.total f s is = u s + v (M.run s is) + M.total g s is := by
  induction is generalizing s with
  | nil => rfl
  | cons i is ih =>
    have hstep := h s i
    have hrest := ih (M.step s i)
    simp only [run, total]
    omega

/-- What one input brings about for good holds after a run just where it held, or that input came. -/
theorem run_iff_of_step {P : σ → Prop} {j : ι} (h : ∀ s i, P (M.step s i) ↔ P s ∨ i = j) (s : σ)
    (is : List ι) : P (M.run s is) ↔ P s ∨ j ∈ is := by
  induction is generalizing s with
  | nil => simp [run]
  | cons i is ih => rw [run, ih, h, List.mem_cons, or_assoc, eq_comm]

/-- Each input of a run is one that its state admits. -/
def Throughout (A : σ → ι → Prop) (s : σ) : List ι → Prop
  | [] => True
  | i :: is => A s i ∧ Throughout A (M.step s i) is

instance decidableThroughout {A : σ → ι → Prop} [∀ s i, Decidable (A s i)] :
    (s : σ) → (is : List ι) → Decidable (M.Throughout A s is)
  | _, [] => .isTrue trivial
  | s, i :: is =>
    have : Decidable (M.Throughout A (M.step s i) is) := decidableThroughout (M.step s i) is
    inferInstanceAs (Decidable (A s i ∧ M.Throughout A (M.step s i) is))

theorem throughout_of_forall {A : σ → ι → Prop} {is : List ι} (h : ∀ i ∈ is, ∀ s, A s i) (s : σ) :
    M.Throughout A s is := by
  induction is generalizing s with
  | nil => trivial
  | cons i is ih =>
    have hi := h i List.mem_cons_self s
    exact ⟨hi, ih (fun j hj => h j (List.mem_cons_of_mem i hj)) (M.step s i)⟩

theorem throughout_ne {i : ι} {is : List ι} (h : i ∉ is) (s : σ) :
    M.Throughout (fun _ j => j ≠ i) s is := by
  refine M.throughout_of_forall (fun j hj _ hi => ?_) s
  exact h (hi ▸ hj)

/-- A mark of a run was left by an input. -/
theorem exists_of_mem_log {s : σ} {is : List ι} {m : μ} (h : m ∈ M.log s is) :
    ∃ i ∈ is, ∃ s, m ∈ M.marks s i := by
  induction is generalizing s with
  | nil => simp [log] at h
  | cons i is ih =>
    obtain h | h := List.mem_append.1 h
    · exact ⟨i, List.mem_cons_self, s, h⟩
    · obtain ⟨j, hj, hm⟩ := ih h
      exact ⟨j, List.mem_cons_of_mem i hj, hm⟩

/-- What is kept by each step holds after each run, of the log that has grown by that of the run. -/
theorem invariant {A : σ → ι → Prop} {I : σ → List μ → Prop}
    (keep : ∀ s log i, I s log → A s i → I (M.step s i) (log ++ M.marks s i))
    {s : σ} {l : List μ} {is : List ι} (start : I s l) (h : M.Throughout A s is) :
    I (M.run s is) (l ++ M.log s is) := by
  induction is generalizing s l with
  | nil => simpa [run, log] using start
  | cons i is ih =>
    have := ih (keep s l i start h.1) h.2
    simpa [run, log, List.append_assoc] using this

end System

/-- What stands in a history behind the last input of one kind, or the whole of it. -/
def behindLast {ι : Type} (p : ι → Bool) (is : List ι) : List ι :=
  (is.reverse.takeWhile (!p ·)).reverse

theorem behindLast_concat {ι : Type} (p : ι → Bool) (is : List ι) (i : ι) :
    behindLast p (is ++ [i]) = if p i then [] else behindLast p is ++ [i] := by
  cases h : p i <;> simp [behindLast, h]

theorem behindLast_suffix {ι : Type} (p : ι → Bool) (is : List ι) : behindLast p is <:+ is := by
  have h : is.reverse.takeWhile (!p ·) <+: is.reverse := List.takeWhile_prefix _
  simpa [behindLast] using List.reverse_suffix.2 h

/-- A place in two logs, one behind the other, is a place in one of them. -/
theorem append_eq_place_iff {μ : Type} {a : μ} {log marks before after : List μ} :
    log ++ marks = before ++ a :: after ↔
      (∃ rest, before = log ++ rest ∧ marks = rest ++ a :: after) ∨
      ∃ rest, log = before ++ a :: rest ∧ after = rest ++ marks := by
  rw [List.append_eq_append_iff]
  constructor
  · intro h
    obtain h | ⟨rest, h, hrest⟩ := h
    · exact .inl h
    · obtain ⟨rfl, rfl⟩ | ⟨rest, rfl, rfl⟩ := List.cons_eq_append_iff.1 hrest
      · exact .inl ⟨[], by simpa using h.symm, rfl⟩
      · exact .inr ⟨rest, h, rfl⟩
  · intro h
    obtain h | ⟨rest, h, rfl⟩ := h
    · exact .inl h
    · exact .inr ⟨a :: rest, h, rfl⟩

/-- One mark stands in a log with no mark of the other kind behind it. -/
def Since {μ : Type} (a b : μ) (log : List μ) : Prop :=
  ∃ before after, log = before ++ a :: after ∧ b ∉ after

namespace Since
variable {μ : Type} {a b : μ}

theorem not_nil : ¬ Since a b [] := by
  intro h
  obtain ⟨before, after, h, _⟩ := h
  simp at h

theorem mem {log : List μ} (h : Since a b log) : a ∈ log := by
  obtain ⟨before, after, rfl, _⟩ := h
  simp

theorem append_iff (log marks : List μ) :
    Since a b (log ++ marks) ↔ Since a b marks ∨ Since a b log ∧ b ∉ marks := by
  constructor
  · intro h
    obtain ⟨before, after, h, hb⟩ := h
    obtain ⟨rest, rfl, rfl⟩ | ⟨rest, rfl, rfl⟩ := append_eq_place_iff.1 h
    · exact .inl ⟨rest, after, rfl, hb⟩
    · rw [List.mem_append, not_or] at hb
      exact .inr ⟨⟨before, rest, rfl, hb.1⟩, hb.2⟩
  · intro h
    obtain ⟨before, after, rfl, hb⟩ | ⟨⟨before, after, rfl, hb⟩, hm⟩ := h
    · exact ⟨log ++ before, after, (List.append_assoc ..).symm, hb⟩
    · exact ⟨before, after ++ marks, by simp, by simp [hb, hm]⟩

theorem singleton_iff (m : μ) : Since a b [m] ↔ a = m := by
  constructor
  · intro h
    obtain ⟨before, after, h, _⟩ := h
    cases before with
    | nil => exact (List.cons.inj h).1.symm
    | cons c before => simp at h
  · intro h
    exact ⟨[], [], by rw [h]; rfl, by simp⟩

theorem append_short_iff {log marks : List μ} (h : marks.length ≤ 1) :
    Since a b (log ++ marks) ↔ a ∈ marks ∨ Since a b log ∧ b ∉ marks := by
  rw [append_iff]
  match marks, h with
  | [], _ => simp [not_nil]
  | [m], _ => simp only [singleton_iff, List.mem_singleton]

theorem mem_of_append {before after : List μ} (hab : a ≠ b)
    (h : Since a b (before ++ b :: after)) : a ∈ after := by
  have hc : before ++ b :: after = (before ++ [b]) ++ after := by simp
  rw [hc, append_iff, append_iff, singleton_iff] at h
  obtain ⟨l, r, rfl, _⟩ | ⟨h | h, _⟩ := h
  · simp
  · exact absurd h hab
  · simp at h

/-- A mark is followed by the other one as soon as it does not stand since. -/
theorem mem_of_not_append {before after : List μ} (h : ¬ Since a b (before ++ a :: after)) :
    b ∈ after :=
  Classical.byContradiction fun hb => h ⟨before, after, rfl, hb⟩

end Since

/-- How many marks of one kind stand behind the last mark of the other. -/
def countSince {μ : Type} [DecidableEq μ] (a b : μ) (log : List μ) : Nat :=
  (behindLast (· = b) log).count a

theorem countSince_concat {μ : Type} [DecidableEq μ] (a b : μ) (log : List μ) (m : μ) :
    countSince a b (log ++ [m]) =
      if m = b then 0 else countSince a b log + if m = a then 1 else 0 := by
  unfold countSince
  rw [behindLast_concat]
  by_cases hb : m = b
  · simp [hb]
  · rw [if_neg (by simpa using hb), if_neg hb, List.count_append, List.count_singleton]
    simp only [beq_iff_eq]

theorem countSince_append_short {μ : Type} [DecidableEq μ] (a b : μ) {log marks : List μ}
    (h : marks.length ≤ 1) :
    countSince a b (log ++ marks) = if b ∈ marks then 0 else countSince a b log + marks.count a := by
  match marks, h with
  | [], _ => simp
  | [m], _ => simp only [countSince_concat, List.mem_singleton, eq_comm (a := b),
      List.count_singleton, beq_iff_eq]

theorem countSince_pos_iff {μ : Type} [DecidableEq μ] {a b : μ} (h : a ≠ b) (log : List μ) :
    0 < countSince a b log ↔ Since a b log := by
  induction log using List.reverseRecOn with
  | nil => simp [countSince, behindLast, Since.not_nil]
  | append_singleton log m ih =>
    rw [countSince_concat, Since.append_short_iff (by simp), ← ih]
    by_cases hb : m = b
    · simp [hb, h]
    · by_cases ha : m = a
      · simp [ha, h]
      · simp [ha, hb, Ne.symm ha, Ne.symm hb]

/-- What is said of the log in front of each place where a mark stands. -/
def BeforeEach {μ : Type} (a : μ) (P : List μ → Prop) (log : List μ) : Prop :=
  ∀ before after, log = before ++ a :: after → P before

namespace BeforeEach
variable {μ : Type} {a : μ} {P : List μ → Prop} {log : List μ}

theorem nil : BeforeEach a P [] := by
  intro before after h
  simp at h

theorem append {marks : List μ} (h : BeforeEach a P log)
    (hm : ∀ before after, marks = before ++ a :: after → P (log ++ before)) :
    BeforeEach a P (log ++ marks) := by
  intro before after he
  obtain ⟨rest, rfl, rfl⟩ | ⟨rest, rfl, rfl⟩ := append_eq_place_iff.1 he
  · exact hm rest after rfl
  · exact h before rest rfl

theorem append_of_not_mem {marks : List μ} (h : BeforeEach a P log) (hm : a ∉ marks) :
    BeforeEach a P (log ++ marks) :=
  h.append fun before after he => absurd (he ▸ by simp) hm

theorem concat (h : BeforeEach a P log) (hp : P log) : BeforeEach a P (log ++ [a]) :=
  h.append fun before after he => by
    cases before with
    | nil => simpa using hp
    | cons c before => simp at he

end BeforeEach
end DependentWatch
