import Mathlib.Data.List.Basic

/-!
# Parsers of bytes that still arrive

A parser waits until enough has come, rejects what it has seen, or is done. What it has
decided once, it decides whatever comes behind.
-/

namespace RtKernel

variable {α β γ : Type*}

/-- What a parser makes of what has come. -/
inductive Parsed (β : Type*)
  | wait
  | reject
  | done (value : β)
  deriving DecidableEq

namespace Parsed

def bind : Parsed β → (β → Parsed γ) → Parsed γ
  | .wait, _ => .wait
  | .reject, _ => .reject
  | .done b, next => next b

/-- The first `n` items. -/
def need (n : Nat) (l : List α) : Parsed (List α) := if l.length < n then .wait else .done (l.take n)

/-- What is decided is not changed by what comes behind. -/
def Final (parse : List α → Parsed β) : Prop := ∀ l l', parse l ≠ .wait → parse (l ++ l') = parse l

@[simp] theorem bind_wait (next : β → Parsed γ) : bind .wait next = .wait := rfl


@[simp] theorem bind_done (b : β) (next : β → Parsed γ) : bind (.done b) next = next b := rfl

variable {n : Nat} {l : List α} {p : Parsed β}

theorem need_of_lt (h : l.length < n) : need n l = .wait := if_pos h

theorem need_of_le (h : n ≤ l.length) : need n l = .done (l.take n) :=
  if_neg (Nat.not_lt.mpr h)

theorem need_append (l' : List α) : need l.length (l ++ l') = .done l := by
  rw [need_of_le (by simp), List.take_left]

theorem need_eq_done {l taken : List α} (h : need n l = .done taken) :
    n ≤ l.length ∧ taken = l.take n := by
  unfold need at h
  split_ifs at h with hlt
  cases h
  exact ⟨Nat.le_of_not_lt hlt, rfl⟩

theorem bind_eq_done {next : β → Parsed γ} {c : γ} (h : p.bind next = .done c) :
    ∃ b, p = .done b ∧ next b = .done c := by
  cases p with
  | wait => cases h
  | reject => cases h
  | done b => exact ⟨b, rfl, h⟩

theorem final_const (p : Parsed β) : Final fun _ : List α => p := fun _ _ _ => rfl

theorem final_need (n : Nat) : Final (need (α := α) n) := by
  intro l l' h
  have hle : n ≤ l.length := by
    by_contra hlt
    exact h (need_of_lt (Nat.lt_of_not_le hlt))
  rw [need_of_le hle, need_of_le (Nat.le_trans hle (by simp)), List.take_append_of_le_length hle]

variable {parse : List α → Parsed β}

theorem Final.bind {next : β → List α → Parsed γ} (h : Final parse)
    (hnext : ∀ b, Final (next b)) : Final fun l => (parse l).bind fun b => next b l := by
  intro l l' hne
  dsimp only at hne ⊢
  have hparse : parse l ≠ .wait := fun hwait => hne (by rw [hwait, bind_wait])
  rw [h l l' hparse]
  cases hp : parse l with
  | wait => exact absurd hp hparse
  | reject => rfl
  | done b =>
    rw [hp] at hne
    exact hnext b l l' hne

theorem Final.ite {parse parse' : List α → Parsed β} (p : Prop) [Decidable p] (h : Final parse)
    (h' : Final parse') : Final fun l => if p then parse l else parse' l := by
  intro l l' hne
  split_ifs at hne ⊢
  · exact h l l' hne
  · exact h' l l' hne

theorem Final.of_append (h : Final parse) {l l' : List α}
    (hp : parse (l ++ l') = p) : parse l = .wait ∨ parse l = p := by
  by_cases hwait : parse l = .wait
  · exact .inl hwait
  · exact .inr ((h l l' hwait).symm.trans hp)

end Parsed

end RtKernel
