import Mathlib.Data.List.Basic
import Mathlib.Algebra.Order.Ring.Nat

/-!
# Formatted output

The formatter hands its characters to a sink, one after the other: `put` stands for
the two statements that store a character where there is room and count it. A format
is the list of its characters before the terminator. An argument is a word, with the
characters found at that address where it is the address of a string.
-/

open Nat (le_succ)

namespace RtKernel.Print

/-- The value that an `int` keeps. -/
def int32 (x : Int) : Int := x.bmod (2 ^ 32)

structure Arg where
  word : BitVec 32
  /-- What the address holds, up to the terminator. -/
  text : List UInt8

/-- A `va_list`. -/
abbrev Args := Nat → Arg

/-- The arguments behind the next one. -/
def Args.rest (args : Args) : Args := fun i => args (i + 1)

/-- `ZEROPAD`, `SIGN`, `PLUS`, `SPACE`, `LEFT`, `SPECIAL` and `LARGE`. -/
structure Flags where
  zeropad : Bool
  sign : Bool
  plus : Bool
  space : Bool
  left : Bool
  special : Bool
  large : Bool

def Flags.none : Flags :=
  { zeropad := false, sign := false, plus := false, space := false, left := false
    special := false, large := false }

/-- What stands between a `%` and its conversion. -/
structure Spec where
  flags : Flags
  fieldWidth : Int
  precision : Int
  qualifier : UInt8

def ch (c : Char) : UInt8 := .ofNat c.toNat

/-- `_ISDIGIT`. -/
def isDigit (c : UInt8) : Bool := c - ch '0' < 10

/-- `skip_atoi`, from what has been read so far. -/
def skipAtoi (i : Int) : List UInt8 → Int × List UInt8
  | [] => (i, [])
  | c :: fmt =>
      if isDigit c then skipAtoi (int32 (i * 10 + (c - ch '0').toNat)) fmt else (i, c :: fmt)

/-- The loop that processes the flags. -/
def processFlags (flags : Flags) : List UInt8 → Flags × List UInt8
  | [] => (flags, [])
  | c :: fmt =>
      if c = ch '-' then processFlags { flags with left := true } fmt
      else if c = ch '+' then processFlags { flags with plus := true } fmt
      else if c = ch ' ' then processFlags { flags with space := true } fmt
      else if c = ch '#' then processFlags { flags with special := true } fmt
      else if c = ch '0' then processFlags { flags with zeropad := true } fmt
      else (flags, c :: fmt)

/-- The field width. A negative argument stands for the flag `-` as well. -/
def getFieldWidth (flags : Flags) (fmt : List UInt8) (args : Args) :
    Int × Flags × List UInt8 × Args :=
  match fmt with
  | [] => (-1, flags, [], args)
  | c :: rest =>
      if isDigit c then ((skipAtoi 0 fmt).1, flags, (skipAtoi 0 fmt).2, args)
      else if c = ch '*' then
        let fieldWidth := (args 0).word.toInt
        if fieldWidth < 0 then
          (int32 (-fieldWidth), { flags with left := true }, rest, args.rest)
        else (fieldWidth, flags, rest, args.rest)
      else (-1, flags, fmt, args)

/-- The number behind the `.` of a precision. -/
def getDigits (fmt : List UInt8) (args : Args) : Int × List UInt8 × Args :=
  match fmt with
  | [] => (-1, [], args)
  | c :: rest =>
      if isDigit c then ((skipAtoi 0 fmt).1, (skipAtoi 0 fmt).2, args)
      else if c = ch '*' then ((args 0).word.toInt, rest, args.rest)
      else (-1, fmt, args)

def getPrecision (fmt : List UInt8) (args : Args) : Int × List UInt8 × Args :=
  match fmt with
  | [] => (-1, [], args)
  | c :: rest =>
      if c = ch '.' then
        let (precision, rest, args) := getDigits rest args
        (if precision < 0 then 0 else precision, rest, args)
      else (-1, fmt, args)

def getQualifier : List UInt8 → UInt8 × List UInt8
  | [] => (0, [])
  | c :: fmt => if c = ch 'h' ∨ c = ch 'l' then (c, fmt) else (0, c :: fmt)

/-- What follows a `%`, up to the conversion. -/
def getSpec (fmt : List UInt8) (args : Args) : Spec × List UInt8 × Args :=
  let (flags, fmt) := processFlags .none fmt
  let (fieldWidth, flags, fmt, args) := getFieldWidth flags fmt args
  let (precision, fmt, args) := getPrecision fmt args
  let (qualifier, fmt) := getQualifier fmt
  ({ flags, fieldWidth, precision, qualifier }, fmt, args)

/-- `divide`: the last digit, and the rest of the number. -/
def divide (n : BitVec 32) (base : Nat) : Nat × BitVec 32 :=
  if base = 10 then (n.toNat % 10, n / 10) else (n.toNat % 16, n / 16)

/-- `small_digits` and `large_digits`. -/
def digits (large : Bool) (i : Nat) : UInt8 :=
  if i < 10 then ch '0' + .ofNat i
  else if large then ch 'A' + .ofNat (i - 10) else ch 'a' + .ofNat (i - 10)

theorem divide_lt {n : BitVec 32} (base : Nat) (h : n ≠ 0) : (divide n base).2.toNat < n.toNat := by
  have hpos : 0 < n.toNat := by
    rcases Nat.eq_zero_or_pos n.toNat with hzero | hpos
    · exact absurd (BitVec.eq_of_toNat_eq hzero) h
    · exact hpos
  unfold divide
  split_ifs
  all_goals exact Nat.div_lt_self hpos (by decide)

/-- The loop that fills `tmp`, with the last digit first. -/
def convertDigits (large : Bool) (base : Nat) (num : BitVec 32) : List UInt8 :=
  if _ : num = 0 then []
  else digits large (divide num base).1 :: convertDigits large base (divide num base).2
termination_by num.toNat
decreasing_by exact divide_lt base ‹_›

/-- `tmp`, as far as it is filled. -/
def tmp (large : Bool) (base : Nat) (num : BitVec 32) : List UInt8 :=
  if num = 0 then [ch '0'] else convertDigits large base num

/-- The sign to print, `0` for none. -/
def signOf (type : Flags) (num : BitVec 32) : UInt8 :=
  if type.sign then
    if num.toInt < 0 then ch '-' else if type.plus then ch '+' else if type.space then ch ' ' else 0
  else 0

/-- The number without its sign. -/
def magnitude (type : Flags) (num : BitVec 32) : BitVec 32 :=
  if type.sign ∧ num.toInt < 0 then -num else num

/-- The number that an integer conversion takes from its argument. -/
def getNumber (qualifier : UInt8) (sign : Bool) (arg : BitVec 32) : BitVec 32 :=
  if qualifier = ch 'l' then arg
  else if qualifier = ch 'h' then
    if sign then (arg.setWidth 16).signExtend 32 else (arg.setWidth 16).setWidth 32
  else arg

/-- The base and the flags of an integer conversion. -/
def integer (c : UInt8) (flags : Flags) : Option (Nat × Flags) :=
  if c = ch 'o' then some (8, flags)
  else if c = ch 'X' then some (16, { flags with large := true })
  else if c = ch 'x' then some (16, flags)
  else if c = ch 'd' ∨ c = ch 'i' then some (10, { flags with sign := true })
  else if c = ch 'u' then some (10, flags)
  else none

section

variable {σ : Type*} (put : σ → UInt8 → σ)

/-- A character some times. -/
def pad (c : UInt8) : Nat → σ → σ
  | 0, str => str
  | n + 1, str => pad c n (put str c)

def puts (s : List UInt8) (str : σ) : σ := s.foldl put str

/-- The counter behind the loop `while (size-- > 0)`, which runs `size` times. -/
def countDown (size : Int) : Int := if 0 < size then -1 else int32 (size - 1)

/-- `print_number`. -/
def printNumber (str : σ) (num : BitVec 32) (base : Nat) (s precision : Int) (type : Flags) : σ :=
  let type := if type.left then { type with zeropad := false } else type
  let c := if type.zeropad then ch '0' else ch ' '
  let sign := signOf type num
  let tmp := tmp type.large base (magnitude type num)
  let minimum := max precision tmp.length
  let size := int32 (s - minimum)
  let blanks := !(type.zeropad || type.left)
  let size := if blanks ∧ sign ≠ 0 ∧ 0 < size then size - 1 else size
  let str := if blanks then pad put (ch ' ') size.toNat str else str
  let size := if blanks then countDown size else size
  let str := if sign ≠ 0 then put str sign else str
  let size := if sign ≠ 0 then int32 (size - 1) else size
  let str := if type.left then str else pad put c size.toNat str
  let size := if type.left then size else countDown size
  let str := pad put (ch '0') (minimum - tmp.length).toNat str
  let str := if precision ≠ 0 then puts put tmp.reverse str else str
  pad put (ch ' ') size.toNat str

/-- The counter behind the loop `while (--field_width > 0)`, which runs one time less. -/
def countWidth (fieldWidth : Int) : Int :=
  if 0 < int32 (fieldWidth - 1) then 0 else int32 (fieldWidth - 1)

/-- The case `c`. -/
def printChar (str : σ) (spec : Spec) (c : UInt8) : σ :=
  let width := spec.fieldWidth
  let str := if spec.flags.left then str else pad put (ch ' ') (int32 (width - 1)).toNat str
  let width := if spec.flags.left then width else countWidth width
  let str := put str c
  pad put (ch ' ') (int32 (width - 1)).toNat str

/-- The loop that measures a string, which ends at the field width or at the terminator. -/
def measure (fieldWidth : Int) (len : Nat) : List UInt8 → Nat
  | [] => len
  | c :: s => if len ≠ fieldWidth ∧ c ≠ 0 then measure fieldWidth (len + 1) s else len

/-- The counter behind the loop `while (len < field_width--)`. -/
def countTo (len : Nat) (fieldWidth : Int) : Int :=
  if len < fieldWidth then (len : Int) - 1 else int32 (fieldWidth - 1)

/-- `"(NULL)"`. -/
def nullText : List UInt8 := [ch '(', ch 'N', ch 'U', ch 'L', ch 'L', ch ')']

/-- The case `s`. -/
def printString (str : σ) (spec : Spec) (arg : Arg) : σ :=
  let s := if arg.word = 0 then nullText else arg.text
  let width := spec.fieldWidth
  let len := measure width 0 s
  let len := if 0 < spec.precision ∧ spec.precision < len then spec.precision.toNat else len
  let str := if spec.flags.left then str else pad put (ch ' ') (width - len).toNat str
  let width := if spec.flags.left then width else countTo len width
  let str := puts put (s.take len) str
  pad put (ch ' ') (width - len).toNat str

/-- The case `p`. -/
def printPointer (str : σ) (spec : Spec) (arg : BitVec 32) : σ :=
  if spec.fieldWidth = -1 then
    printNumber put str arg 16 8 spec.precision { spec.flags with zeropad := true }
  else printNumber put str arg 16 spec.fieldWidth spec.precision spec.flags

/-- A conversion, and what is left of the format and of the arguments. -/
def convert (str : σ) (spec : Spec) (fmt : List UInt8) (args : Args) : σ × List UInt8 × Args :=
  match fmt with
  | [] => (put str (ch '%'), [], args)
  | c :: rest =>
      if c = ch 'c' then
        (printChar put str spec (.ofNat (args 0).word.toNat), rest, args.rest)
      else if c = ch 's' then (printString put str spec (args 0), rest, args.rest)
      else if c = ch 'p' then (printPointer put str spec (args 0).word, rest, args.rest)
      else if c = ch '%' then (put str (ch '%'), rest, args)
      else
        match integer c spec.flags with
        | some (base, type) =>
            (printNumber put str (getNumber spec.qualifier type.sign (args 0).word) base
              spec.fieldWidth spec.precision type, rest, args.rest)
        | none =>
            if c ≠ 0 then (put (put str (ch '%')) c, rest, args) else (put str (ch '%'), fmt, args)

end

theorem skipAtoi_length (i : Int) (fmt : List UInt8) : (skipAtoi i fmt).2.length ≤ fmt.length := by
  induction fmt generalizing i with
  | nil => exact le_rfl
  | cons c fmt ih =>
    rw [skipAtoi]
    split_ifs
    · exact (ih _).trans (le_succ _)
    · exact le_rfl

theorem processFlags_length (flags : Flags) (fmt : List UInt8) :
    (processFlags flags fmt).2.length ≤ fmt.length := by
  induction fmt generalizing flags with
  | nil => exact le_rfl
  | cons c fmt ih =>
    rw [processFlags]
    split_ifs
    all_goals first
      | exact (ih _).trans (le_succ _)
      | exact le_rfl

theorem getFieldWidth_length (flags : Flags) (fmt : List UInt8) (args : Args) :
    (getFieldWidth flags fmt args).2.2.1.length ≤ fmt.length := by
  unfold getFieldWidth
  cases fmt with
  | nil => exact le_rfl
  | cons c rest =>
    dsimp only
    split_ifs
    · exact skipAtoi_length 0 _
    · exact le_succ _
    · exact le_succ _
    · exact le_rfl

section

variable (fmt : List UInt8)
include fmt

theorem getDigits_length (args : Args) : (getDigits fmt args).2.1.length ≤ fmt.length := by
  unfold getDigits
  cases fmt with
  | nil => exact le_rfl
  | cons c rest =>
    dsimp only
    split_ifs
    · exact skipAtoi_length 0 _
    · exact le_succ _
    · exact le_rfl

theorem getPrecision_length (args : Args) : (getPrecision fmt args).2.1.length ≤ fmt.length := by
  unfold getPrecision
  cases fmt with
  | nil => exact le_rfl
  | cons c rest =>
    by_cases hc : c = ch '.'
    · dsimp only
      rw [if_pos hc]
      exact (getDigits_length rest args).trans (le_succ _)
    · dsimp only
      rw [if_neg hc]

theorem getQualifier_length : (getQualifier fmt).2.length ≤ fmt.length := by
  cases fmt with
  | nil => exact le_rfl
  | cons c rest =>
    rw [getQualifier]
    split_ifs
    · exact le_succ _
    · exact le_rfl

theorem getSpec_length (args : Args) : (getSpec fmt args).2.1.length ≤ fmt.length :=
  (getQualifier_length _).trans
    ((getPrecision_length _ _).trans
      ((getFieldWidth_length _ _ _).trans (processFlags_length _ _)))

end

theorem convert_length {σ : Type*} (put : σ → UInt8 → σ) (str : σ) (spec : Spec)
    (fmt : List UInt8) (args : Args) : (convert put str spec fmt args).2.1.length ≤ fmt.length := by
  unfold convert
  cases fmt with
  | nil => exact le_rfl
  | cons c rest =>
    have hle : rest.length ≤ (c :: rest).length := le_succ _
    dsimp only
    cases integer c spec.flags with
    | some r =>
      split_ifs
      all_goals exact hle
    | none =>
      split_ifs
      all_goals first
        | exact hle
        | exact le_rfl

/-- The loop of `rt_vsnprintf`. -/
def format {σ : Type*} (put : σ → UInt8 → σ) (str : σ) (fmt : List UInt8) (args : Args) : σ :=
  match fmt with
  | [] => str
  | c :: rest =>
      if c = 0 then str
      else if c ≠ ch '%' then format put (put str c) rest args
      else
        let spec := getSpec rest args
        let r := convert put str spec.1 spec.2.1 spec.2.2
        format put r.1 r.2.1 r.2.2
termination_by fmt.length
decreasing_by
  · exact Nat.lt_succ_self _
  · exact Nat.lt_succ_of_le ((convert_length ..).trans (getSpec_length ..))

end RtKernel.Print
