import RtKernel.Print.Format

/-!
# The complete output

The formatter does not look at its sink, so every sink is handed the same characters.
They are what is left when the sink is a list.
-/

namespace RtKernel.Print

def append (s : List UInt8) (c : UInt8) : List UInt8 := s ++ [c]

/-- The complete formatted output. -/
def text (fmt : List UInt8) (args : Args) : List UInt8 := format append [] fmt args

section

variable {σ τ : Type*} {put : σ → UInt8 → σ} {put' : τ → UInt8 → τ} {h : σ → τ}

section

variable (hput : ∀ s c, h (put s c) = put' (h s) c)
include hput

theorem pad_map (c : UInt8) (n : Nat) (s : σ) : h (pad put c n s) = pad put' c n (h s) := by
  induction n generalizing s with
  | zero => rfl
  | succ n ih => rw [pad, pad, ih, hput]

theorem puts_map (l : List UInt8) (s : σ) : h (puts put l s) = puts put' l (h s) := by
  induction l generalizing s with
  | nil => rfl
  | cons c l ih =>
    change h (puts put l (put s c)) = puts put' l (put' (h s) c)
    rw [ih, hput]

section

variable (str : σ)
include str

theorem printNumber_map (num : BitVec 32) (base : Nat) (s precision : Int) (type : Flags) :
    h (printNumber put str num base s precision type) =
      printNumber put' (h str) num base s precision type := by
  simp only [printNumber, apply_ite h, pad_map hput, puts_map hput, hput]

theorem printChar_map (spec : Spec)
    (c : UInt8) : h (printChar put str spec c) = printChar put' (h str) spec c := by
  simp only [printChar, apply_ite h, pad_map hput, hput]

theorem printString_map (spec : Spec)
    (arg : Arg) : h (printString put str spec arg) = printString put' (h str) spec arg := by
  simp only [printString, apply_ite h, pad_map hput, puts_map hput]

theorem printPointer_map (spec : Spec)
    (arg : BitVec 32) : h (printPointer put str spec arg) = printPointer put' (h str) spec arg := by
  simp only [printPointer, apply_ite h, printNumber_map hput]

theorem convert_map (spec : Spec)
    (fmt : List UInt8) (args : Args) : convert put' (h str) spec fmt args =
      (h (convert put str spec fmt args).1, (convert put str spec fmt args).2) := by
  unfold convert
  cases fmt with
  | nil =>
    rw [hput]
  | cons c rest =>
    dsimp only
    cases integer c spec.flags with
    | some r =>
      dsimp only
      split_ifs
      · rw [printChar_map hput]
      · rw [printString_map hput]
      · rw [printPointer_map hput]
      · rw [hput]
      · rw [printNumber_map hput]
    | none =>
      split_ifs
      · rw [printChar_map hput]
      · rw [printString_map hput]
      · rw [printPointer_map hput]
      · rw [hput]
      · rw [hput, hput]
      · rw [hput]

theorem format_map (fmt : List UInt8)
    (args : Args) : h (format put str fmt args) = format put' (h str) fmt args := by
  fun_induction format put str fmt args with
  | case1 str args => rw [format]
  | case2 str args rest => rw [format, if_pos rfl]
  | case3 str args c rest hzero hc ih =>
    rw [ih, hput]
    conv_rhs => rw [format, if_neg hzero, if_pos hc]
  | case4 str args c rest hzero hc spec r ih =>
    rw [ih]
    conv_rhs => rw [format, if_neg hzero, if_neg hc]
    dsimp only
    rw [convert_map hput]

end

end

end

section

variable {σ : Type*} (put : σ → UInt8 → σ)

private theorem foldl_append (s : σ) (l : List UInt8) (c : UInt8) :
    (append l c).foldl put s = put (l.foldl put s) c := by
  unfold append
  rw [List.foldl_append]
  rfl

theorem format_eq (s : σ) (fmt : List UInt8) (args : Args) :
    format put s fmt args = (text fmt args).foldl put s :=
  (format_map (h := fun l : List UInt8 => l.foldl put s) (foldl_append put s) [] fmt args).symm

end

theorem pad_append (c : UInt8) (n : Nat) (l : List UInt8) :
    pad append c n l = l ++ List.replicate n c := by
  induction n generalizing l with
  | zero => simp [pad]
  | succ n ih => simp [pad, ih, append, List.replicate_succ]

theorem puts_append (s l : List UInt8) : puts append s l = l ++ s := by
  induction s generalizing l with
  | nil => simp [puts]
  | cons c s ih =>
    change puts append s (l ++ [c]) = l ++ c :: s
    rw [ih, List.append_assoc]
    rfl

theorem foldl_append_eq (s l : List UInt8) : s.foldl append l = l ++ s := puts_append s l

@[simp] theorem text_nil (args : Args) : text [] args = [] := by
  unfold text
  rw [format]

theorem text_literal {c : UInt8} (hzero : c ≠ 0) (hc : c ≠ ch '%') (fmt : List UInt8)
    (args : Args) : text (c :: fmt) args = c :: text fmt args := by
  unfold text
  rw [format, if_neg hzero, if_pos hc, format_eq, foldl_append_eq]
  rfl

/-- The output of a conversion, and of the rest of the format. -/
theorem text_percent (fmt : List UInt8) (args : Args) : text (ch '%' :: fmt) args =
      let spec := getSpec fmt args
      let r := convert append [] spec.1 spec.2.1 spec.2.2
      r.1 ++ text r.2.1 r.2.2 := by
  unfold text
  rw [format, if_neg (by decide), if_neg (by decide)]
  rw [format_eq, foldl_append_eq]
  rfl

end RtKernel.Print
