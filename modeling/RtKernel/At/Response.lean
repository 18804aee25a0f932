import Mathlib.Data.UInt
import RtKernel.Core.Cells

/-!
# Responses of an AT client

The lines of a response are copied into its buffer one behind the other, and the last byte
of each is replaced by the end of a string. A line is found again by skipping the strings in
front of it.
-/

open List

namespace RtKernel.At

/-- `struct at_response`; `buf_size` is the length of `buf`. -/
structure AtResponse where
  buf : List UInt8
  bufLen : Nat
  lineNum : Nat
  lineCounts : Nat

/-- A line of the receive buffer, whose last byte is replaced. -/
def terminated (line : List UInt8) : List UInt8 := line.dropLast ++ [0]

/-- The strings in front of a line are skipped. -/
def skipLines (buf : List UInt8) : Nat → Nat → Option Nat
  | 0, respBuf => some respBuf
  | n + 1, respBuf =>
      (Cells.string buf respBuf).bind fun text => skipLines buf n (respBuf + text.length + 1)

/-- `at_resp_get_line`: where the line begins in the buffer. -/
def atRespGetLine (resp : AtResponse) (respLine : Nat) : Option Nat :=
  if respLine > resp.lineCounts ∨ respLine = 0 then none
  else skipLines resp.buf (respLine - 1) 0

/-- The strings of some lines, one behind the other. -/
def texts (lines : List (List UInt8)) : List UInt8 := lines.flatMap terminated

variable {lines : List (List UInt8)} {line front rest buf : List UInt8} {n : Nat}

theorem length_terminated (h : line ≠ []) : (terminated line).length = line.length := by
  rw [terminated, length_append, length_dropLast, length_singleton]
  have hpos := length_pos_iff.mpr h
  omega

theorem texts_append (l₁ l₂ : List (List UInt8)) : texts (l₁ ++ l₂) = texts l₁ ++ texts l₂ :=
  flatMap_append

theorem texts_cons (line : List UInt8) (lines : List (List UInt8)) :
    texts (line :: lines) = terminated line ++ texts lines := rfl

/-- The string that begins behind `front` is the line there. -/
theorem string_terminated (front : List UInt8) (hzero : (0 : UInt8) ∉ line.dropLast)
    (rest : List UInt8) :
    Cells.string (front ++ terminated line ++ rest) front.length = some line.dropLast := by
  have hdrop : (front ++ terminated line ++ rest).drop front.length =
      line.dropLast ++ 0 :: rest := by
    rw [append_assoc, drop_left, terminated, append_assoc]
    rfl
  unfold Cells.string
  rw [hdrop, takeWhile_append_of_pos]
  · simp
  · intro b hb
    simpa using fun he : b = 0 => hzero (he ▸ hb)

/-- Each line is found behind those in front of it. -/
theorem skipLines_texts (front : List UInt8) (hzero : ∀ line ∈ lines, (0 : UInt8) ∉ line.dropLast)
    (rest : List UInt8) (hn : n ≤ lines.length) :
    skipLines (front ++ texts lines ++ rest) n front.length =
      some (front ++ texts (lines.take n)).length := by
  induction n generalizing front lines with
  | zero => simp [skipLines, texts]
  | succ n ih =>
    cases lines with
    | nil => cases hn
    | cons line lines =>
      have hsplit : front ++ texts (line :: lines) ++ rest =
          front ++ terminated line ++ (texts lines ++ rest) := by simp [texts]
      have hlength : front.length + line.dropLast.length + 1 =
          (front ++ terminated line).length := by
        simp [terminated, Nat.add_assoc]
      rw [skipLines, hsplit, string_terminated front (hzero line (.head _)),
        Option.bind_some, hlength, ← append_assoc,
        ih _ (fun l hl => hzero l (mem_cons_of_mem line hl)) (Nat.le_of_succ_le_succ hn)]
      simp [texts]

/-- What a line reads as that `at_resp_get_line` finds. -/
theorem atRespGetLine_texts {resp : AtResponse} (hbuf : resp.buf = texts lines ++ rest)
    (hcounts : resp.lineCounts = lines.length)
    (hzero : ∀ line ∈ lines, (0 : UInt8) ∉ line.dropLast) (hn : n < lines.length) :
    ∃ p, atRespGetLine resp (n + 1) = some p ∧
      Cells.string resp.buf p = some lines[n].dropLast := by
  refine ⟨(texts (lines.take n)).length, ?_, ?_⟩
  · have hskip := skipLines_texts [] hzero rest (Nat.le_of_lt hn)
    unfold atRespGetLine
    rw [if_neg (by omega), hbuf]
    exact hskip
  · have hsplit : resp.buf = texts (lines.take n) ++ terminated lines[n] ++
        (texts (lines.drop (n + 1)) ++ rest) := by
      have hlines := take_append_drop n lines
      rw [drop_eq_getElem_cons hn] at hlines
      have htexts : texts lines =
          texts (lines.take n) ++ (terminated lines[n] ++ texts (lines.drop (n + 1))) := by
        rw [← texts_cons, ← texts_append, hlines]
      rw [hbuf, htexts]
      simp only [append_assoc]
    rw [hsplit]
    exact string_terminated _ (hzero _ (getElem_mem hn)) _

end RtKernel.At
