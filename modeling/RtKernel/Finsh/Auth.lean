import RtKernel.Mem.Strings

/-!
# The password of the shell

`finsh_wait_auth` keeps as many characters of a line as its buffer holds; those that do not fit are
dropped, and a backspace shortens the buffer all the same. What is printed is left out.
-/

open List

namespace RtKernel.Finsh

open Kservice.Chars

/-- `FINSH_PASSWORD_MIN`. -/
def finshPasswordMin : Nat := 6

/-- `FINSH_PASSWORD_MAX`. -/
def finshPasswordMax : Nat := 8

/-- `finsh_set_password`: what `shell->password` is set to. -/
def finshSetPassword (password : List UInt8) : Option (List UInt8) :=
  if password.length < finshPasswordMin ∨ password.length > finshPasswordMax then none
  else some (rtStrncpy password finshPasswordMax)

/-- The buffer of `finsh_wait_auth`. -/
structure Auth where
  password : List UInt8
  curPos : Nat

namespace Auth

def start : Auth := { password := List.replicate finshPasswordMax 0, curPos := 0 }

/-- The characters between a space and a tilde. -/
def Printable (ch : Int) : Prop := 32 ≤ ch ∧ ch ≤ 126

instance (ch : Int) : Decidable (Printable ch) := instDecidableAnd

def Enter (ch : Int) : Prop := ch = 13 ∨ ch = 10

instance (ch : Int) : Decidable (Enter ch) := instDecidableOr

/-- A character that does not end the line. -/
def getchar (a : Auth) (ch : Int) : Auth :=
  if Printable ch ∧ a.curPos < finshPasswordMax then
    { password := a.password.set a.curPos ch.toNat.toUInt8, curPos := a.curPos + 1 }
  else if ch = 8 ∧ a.curPos > 0 then
    { password := a.password.set (a.curPos - 1) 0, curPos := a.curPos - 1 }
  else a

/-- The loop over the characters: with how many of them it returns. -/
def wait (shellPassword : List UInt8) : Auth → List Int → Option Nat
  | _, [] => none
  | a, ch :: rest =>
    if Enter ch then
      if rtStrncmp shellPassword a.password finshPasswordMax = some 0 then some 1
      else (wait shellPassword start rest).map (· + 1)
    else (wait shellPassword (a.getchar ch) rest).map (· + 1)

end Auth

/-- `finsh_wait_auth`. -/
def finshWaitAuth (shellPassword : List UInt8) (chars : List Int) : Option Nat :=
  if shellPassword.head? = some 0 then some 0 else Auth.wait shellPassword .start chars

/-- The characters of a line, after backspaces. -/
def typeChar (typed : List UInt8) (ch : Int) : List UInt8 :=
  if Auth.Printable ch then typed ++ [ch.toNat.toUInt8]
  else if ch = 8 then typed.dropLast
  else typed

/-- The first line end at which what is typed is the password. -/
def loginAt (password : List UInt8) : List UInt8 → List Int → Option Nat
  | _, [] => none
  | typed, ch :: rest =>
    if Auth.Enter ch then
      if typed = password then some 1 else (loginAt password [] rest).map (· + 1)
    else (loginAt password (typeChar typed ch) rest).map (· + 1)

/-- A line as it is typed: its characters, those that a buffer keeps, and whether the line has not
been empty since it was too long for it. -/
structure Typing where
  typed : List UInt8
  kept : List UInt8
  tooLong : Bool

namespace Typing

def start : Typing := { typed := [], kept := [], tooLong := false }

/-- A character that does not fit is not kept. -/
def char (t : Typing) (ch : Int) : Typing :=
  let typed := typeChar t.typed ch
  { typed := typed
    kept := if Auth.Printable ch ∧ finshPasswordMax ≤ t.kept.length then t.kept
      else typeChar t.kept ch
    tooLong := decide (typed ≠ []) && (t.tooLong || decide (finshPasswordMax < typed.length)) }

/-- On every line up to the password, a line that was too long is not the password, and neither is
what is kept of it. -/
def Meets (password : List UInt8) : Typing → List Int → Prop
  | _, [] => True
  | t, ch :: rest =>
    if Auth.Enter ch then
      (t.tooLong = true → t.typed ≠ password ∧ t.kept ≠ password) ∧
        (t.typed ≠ password → Meets password start rest)
    else Meets password (t.char ch) rest

instance decidableMeets (password : List UInt8) :
    (t : Typing) → (chars : List Int) → Decidable (t.Meets password chars)
  | _, [] => inferInstanceAs (Decidable True)
  | t, ch :: rest =>
    have := decidableMeets password start rest
    have := decidableMeets password (t.char ch) rest
    inferInstanceAs (Decidable (if Auth.Enter ch then
      (t.tooLong = true → t.typed ≠ password ∧ t.kept ≠ password) ∧
        (t.typed ≠ password → Meets password start rest)
    else Meets password (t.char ch) rest))

end Typing

variable {a b text : List UInt8} {n : Nat} {c : UInt8}

theorem rtStrncpy_append (h : text.length < n) :
    (rtStrncpy text n).set text.length c = rtStrncpy (text ++ [c]) n := by
  induction n generalizing text with
  | zero => exact absurd h (Nat.not_lt_zero _)
  | succ n ih =>
    cases text with
    | nil => rfl
    | cons x text => exact congrArg (x :: ·) (ih (Nat.lt_of_succ_lt_succ h))

theorem rtStrncpy_dropLast (hne : text ≠ []) (h : text.length ≤ n) :
    (rtStrncpy text n).set (text.length - 1) 0 = rtStrncpy text.dropLast n := by
  induction n generalizing text with
  | zero => exact absurd (length_eq_zero_iff.mp (Nat.le_zero.mp h)) hne
  | succ n ih =>
    obtain ⟨x, text, rfl⟩ := exists_cons_of_ne_nil hne
    cases text with
    | nil => cases n <;> rfl
    | cons y text =>
      exact congrArg (x :: ·) (ih (cons_ne_nil _ _) (Nat.le_of_succ_le_succ h))

theorem rtStrncmp_eq_zero (ha : a.length ≤ n) (hb : b.length ≤ n) (ha₀ : 0 ∉ a) (hb₀ : 0 ∉ b) :
    rtStrncmp (rtStrncpy a n) (rtStrncpy b n) n = some 0 ↔ a = b := by
  induction n generalizing a b with
  | zero =>
    rw [length_eq_zero_iff.mp (Nat.le_zero.mp ha),
      length_eq_zero_iff.mp (Nat.le_zero.mp hb)]
    exact ⟨fun _ => rfl, fun _ => rfl⟩
  | succ n ih =>
    cases a with
    | nil =>
      cases b with
      | nil => exact ⟨fun _ => rfl, fun _ => rfl⟩
      | cons y b =>
        have hy : y ≠ 0 := fun hno => hb₀ (hno ▸ mem_cons_self)
        simp [rtStrncpy, rtStrncmp, hy]
    | cons x a =>
      have hx : x ≠ 0 := fun hno => ha₀ (hno ▸ mem_cons_self)
      cases b with
      | nil => simp [rtStrncpy, rtStrncmp, hx]
      | cons y b =>
        have hrest := ih (Nat.le_of_succ_le_succ ha) (Nat.le_of_succ_le_succ hb)
          (fun hno => ha₀ (.tail _ hno)) fun hno => hb₀ (.tail _ hno)
        rw [rtStrncpy, rtStrncpy, rtStrncmp]
        by_cases hxy : x = y
        · subst hxy
          rw [if_neg (by simp [hx]), hrest, cons_inj_right]
        · have hdiff : x - y ≠ 0 := fun hno =>
            hxy ((UInt8.sub_eq_iff_eq_add.mp hno).trans (UInt8.zero_add y))
          rw [if_pos (.inl hdiff)]
          exact ⟨fun hno => absurd (Option.some.inj hno) hdiff,
            fun hno => absurd (List.cons.inj hno).1 hxy⟩

/-- The buffer has what is kept of the line, which is all of it unless the line was too long. -/
structure Keeps (a : Auth) (t : Typing) : Prop where
  password : a.password = rtStrncpy t.kept finshPasswordMax
  curPos : a.curPos = t.kept.length
  fits : t.kept.length ≤ finshPasswordMax
  kept_ne : 0 ∉ t.kept
  whole : t.tooLong = false → t.typed = t.kept
  longer : t.tooLong = true → t.kept.length < t.typed.length

variable {auth : Auth} {t : Typing} {password : List UInt8} {ch : Int}

theorem keeps_start : Keeps .start .start :=
  ⟨rfl, rfl, Nat.zero_le _, not_mem_nil, fun _ => rfl, fun hno => absurd hno (by decide)⟩

theorem printable_ne_zero (h : Auth.Printable ch) : ch.toNat.toUInt8 ≠ 0 := by
  obtain ⟨hlow, hhigh⟩ := h
  intro hno
  have hvalue : ch.toNat.toUInt8.toNat = ch.toNat % 256 := rfl
  rw [hno] at hvalue
  have hzero : (0 : UInt8).toNat = 0 := rfl
  omega

theorem printable_ne_back (h : Auth.Printable ch) : ch ≠ 8 := by
  rintro rfl
  exact absurd h (by decide)

namespace Typing

theorem char_room (hprint : Auth.Printable ch) (hroom : t.kept.length < finshPasswordMax) :
    (t.char ch).kept = t.kept ++ [ch.toNat.toUInt8] :=
  (if_neg fun hno => absurd hno.2 (Nat.not_le.mpr hroom)).trans (if_pos hprint)

theorem char_full (hprint : Auth.Printable ch) (hfull : finshPasswordMax ≤ t.kept.length) :
    (t.char ch).kept = t.kept :=
  if_pos ⟨hprint, hfull⟩

theorem char_kept (hprint : ¬ Auth.Printable ch) : (t.char ch).kept = typeChar t.kept ch :=
  if_neg fun hno => absurd hno.1 hprint

theorem char_printable (hprint : Auth.Printable ch) :
    (t.char ch).typed = t.typed ++ [ch.toNat.toUInt8] :=
  if_pos hprint

theorem char_tooLong (t : Typing) (ch : Int) : (t.char ch).tooLong = true ↔
    (t.char ch).typed ≠ [] ∧ (t.tooLong = true ∨ finshPasswordMax < (t.char ch).typed.length) := by
  simp [Typing.char]

/-- A line that was too long stays so until it is empty. -/
theorem not_tooLong_of_char (hover : (t.char ch).tooLong = false) (hne : (t.char ch).typed ≠ []) :
    t.tooLong = false := by
  by_contra hno
  have hnow := (char_tooLong t ch).mpr ⟨hne, .inl (Bool.not_eq_false _ ▸ hno)⟩
  exact absurd (hover.symm.trans hnow) Bool.false_ne_true

end Typing

/-- A character is kept, or the buffer is full and it is not. -/
theorem Keeps.printable (h : Keeps auth t) (hprint : Auth.Printable ch) :
    Keeps (auth.getchar ch) (t.char ch) := by
  have htyped := Typing.char_printable (t := t) hprint
  have hlength : (t.char ch).typed.length = t.typed.length + 1 := by simp [htyped]
  rcases Nat.lt_or_ge t.kept.length finshPasswordMax with hroom | hfull
  · have hkept := Typing.char_room hprint hroom
    have hget : auth.getchar ch =
        { password := auth.password.set auth.curPos ch.toNat.toUInt8, curPos := auth.curPos + 1 } :=
      if_pos ⟨hprint, h.curPos ▸ hroom⟩
    have hkeptLength : (t.char ch).kept.length = t.kept.length + 1 := by simp [hkept]
    rw [hget]
    refine ⟨?_, ?_, ?_, ?_, ?_, ?_⟩
    · rw [hkept, h.password, h.curPos, rtStrncpy_append hroom]
    · rw [hkeptLength, h.curPos]
    · omega
    · rw [hkept, mem_append, mem_singleton]
      exact fun hno => hno.elim h.kept_ne (printable_ne_zero hprint).symm
    · intro hover
      rw [htyped, hkept, h.whole (Typing.not_tooLong_of_char hover (by simp [htyped]))]
    · intro hover
      rcases ((Typing.char_tooLong t _).mp hover).2 with hwas | hlong
      · have := h.longer hwas
        omega
      · omega
  · have hkept := Typing.char_full hprint hfull
    have hget : auth.getchar ch = auth := by
      unfold Auth.getchar
      rw [if_neg fun hno => absurd hno.2 (h.curPos ▸ Nat.not_lt.mpr hfull),
        if_neg fun hno => absurd hno.1 (printable_ne_back hprint)]
    have hlong : t.kept.length < (t.char ch).typed.length := by
      cases hover : t.tooLong with
      | false => rw [hlength, h.whole hover]; exact Nat.lt_succ_self _
      | true => exact hlength ▸ Nat.lt_succ_of_lt (h.longer hover)
    have hnow : (t.char ch).tooLong = true :=
      (Typing.char_tooLong t ch).mpr ⟨by simp [htyped], .inr (Nat.lt_of_le_of_lt hfull hlong)⟩
    rw [hget]
    refine ⟨hkept ▸ h.password, hkept ▸ h.curPos, hkept ▸ h.fits, hkept ▸ h.kept_ne, ?_, ?_⟩
    · exact fun hno => absurd (hno.symm.trans hnow) Bool.false_ne_true
    · exact fun _ => hkept ▸ hlong

/-- A backspace drops what was kept last, and what was typed last. -/
theorem Keeps.back (h : Keeps auth t) : Keeps (auth.getchar 8) (t.char 8) := by
  have hprint : ¬ Auth.Printable 8 := by decide
  have htyped : (t.char 8).typed = t.typed.dropLast := rfl
  have hkept : (t.char 8).kept = t.kept.dropLast := Typing.char_kept hprint
  have hlength : (t.char 8).typed.length = t.typed.length - 1 := length_dropLast
  have hkeptLength : (t.char 8).kept.length = t.kept.length - 1 := by
    rw [hkept, length_dropLast]
  have hfits := h.fits
  have hwhole : (t.char 8).tooLong = false → (t.char 8).typed = (t.char 8).kept := by
    intro hover
    rw [htyped, hkept]
    cases hwas : t.tooLong with
    | false => rw [h.whole hwas]
    | true =>
      -- the line is empty now, so what is kept is empty too
      have hempty : t.typed.dropLast = [] := by
        by_contra hno
        have hnot := Typing.not_tooLong_of_char hover hno
        exact absurd (hnot.symm.trans hwas) Bool.false_ne_true
      have hlong := h.longer hwas
      have hzero := congrArg List.length hempty
      rw [length_dropLast, length_nil] at hzero
      rw [hempty, length_eq_zero_iff.mp (by omega : t.kept.length = 0)]
      rfl
  have hlonger : (t.char 8).tooLong = true → (t.char 8).kept.length < (t.char 8).typed.length := by
    intro hover
    obtain ⟨hne, hwas | hlong⟩ := (Typing.char_tooLong t 8).mp hover
    · have := h.longer hwas
      have := length_pos_iff.mpr hne
      omega
    · cases hwas : t.tooLong with
      | false =>
        omega
      | true =>
        omega
  by_cases hne : t.kept = []
  · have hget : auth.getchar 8 = auth := by
      unfold Auth.getchar
      rw [if_neg fun hno => hprint hno.1, if_neg]
      rintro ⟨-, hno⟩
      rw [h.curPos, hne] at hno
      exact absurd hno (Nat.lt_irrefl 0)
    have hsame : (t.char 8).kept = t.kept := by rw [hkept, hne]; rfl
    rw [hget]
    exact ⟨hsame ▸ h.password, hsame ▸ h.curPos, hsame ▸ h.fits, hsame ▸ h.kept_ne, hwhole, hlonger⟩
  · have hget : auth.getchar 8 =
        { password := auth.password.set (auth.curPos - 1) 0, curPos := auth.curPos - 1 } := by
      unfold Auth.getchar
      rw [if_neg fun hno => hprint hno.1,
        if_pos ⟨rfl, h.curPos ▸ length_pos_iff.mpr hne⟩]
    rw [hget]
    refine ⟨?_, ?_, ?_, ?_, hwhole, hlonger⟩
    · rw [hkept, h.password, h.curPos, rtStrncpy_dropLast hne hfits]
    · rw [hkeptLength, h.curPos]
    · omega
    · exact fun hno => h.kept_ne (dropLast_subset _ (hkept ▸ hno))

theorem Keeps.char (h : Keeps auth t) (ch : Int) : Keeps (auth.getchar ch) (t.char ch) := by
  by_cases hprint : Auth.Printable ch
  · exact h.printable hprint
  · by_cases hback : ch = 8
    · exact hback ▸ h.back
    · have hget : auth.getchar ch = auth := by
        unfold Auth.getchar
        rw [if_neg fun hno => hprint hno.1, if_neg fun hno => hback hno.1]
      have htyped : (t.char ch).typed = t.typed := (if_neg hprint).trans (if_neg hback)
      have hkept : (t.char ch).kept = t.kept :=
        (Typing.char_kept hprint).trans ((if_neg hprint).trans (if_neg hback))
      rw [hget]
      refine ⟨hkept ▸ h.password, hkept ▸ h.curPos, hkept ▸ h.fits, hkept ▸ h.kept_ne, ?_, ?_⟩
      · intro hover
        rw [htyped, hkept]
        cases hwas : t.tooLong with
        | false => exact h.whole hwas
        | true =>
          have hne := ne_nil_of_length_pos (Nat.zero_lt_of_lt (h.longer hwas))
          have hnot := Typing.not_tooLong_of_char hover (htyped ▸ hne)
          exact absurd (hnot.symm.trans hwas) Bool.false_ne_true
      · intro hover
        rw [hkept]
        rcases ((Typing.char_tooLong t _).mp hover).2 with hwas | hlong
        · exact htyped ▸ h.longer hwas
        · exact Nat.lt_of_le_of_lt h.fits hlong

theorem wait_ne_zero (shellPassword : List UInt8) (a : Auth) (chars : List Int) :
    Auth.wait shellPassword a chars ≠ some 0 := by
  cases chars with
  | nil => exact (Option.some_ne_none 0).symm
  | cons ch rest =>
    rw [Auth.wait]
    split_ifs
    · decide
    all_goals simp

theorem loginAt_ne_zero (password typed : List UInt8) (chars : List Int) :
    loginAt password typed chars ≠ some 0 := by
  cases chars with
  | nil => exact (Option.some_ne_none 0).symm
  | cons ch rest =>
    rw [loginAt]
    split_ifs
    · decide
    all_goals simp

theorem map_succ_inj {x y : Option Nat} : x.map (· + 1) = y.map (· + 1) ↔ x = y := by
  cases x <;> cases y <;> simp

theorem Keeps.wait_eq_iff (h : Keeps auth t) (hlength : password.length ≤ finshPasswordMax)
    (hne : 0 ∉ password) (chars : List Int) :
    Auth.wait (rtStrncpy password finshPasswordMax) auth chars = loginAt password t.typed chars ↔
      t.Meets password chars := by
  induction chars generalizing auth t with
  | nil => exact ⟨fun _ => trivial, fun _ => rfl⟩
  | cons ch rest ih =>
    rw [Auth.wait, loginAt, Typing.Meets]
    by_cases henter : Auth.Enter ch
    · have hsame := rtStrncmp_eq_zero hlength h.fits hne h.kept_ne
      rw [← h.password] at hsame
      rw [if_pos henter, if_pos henter, if_pos henter]
      have hrest := ih keeps_start
      cases hover : t.tooLong with
      | false =>
        rw [h.whole hover]
        by_cases hkept : t.kept = password
        · rw [if_pos (hsame.mpr hkept.symm), if_pos hkept]
          exact ⟨fun _ => ⟨fun hno => absurd hno (by decide), fun hno => absurd hkept hno⟩,
            fun _ => rfl⟩
        · rw [if_neg (mt hsame.mp (Ne.symm hkept)), if_neg hkept, map_succ_inj]
          exact ⟨fun heq => ⟨fun hno => absurd hno (by decide), fun _ => hrest.mp heq⟩,
            fun hmeets => hrest.mpr (hmeets.2 hkept)⟩
      | true =>
        have hlonger := h.longer hover
        by_cases hkept : t.kept = password
        · -- what does not fit is not compared
          have htyped : t.typed ≠ password := by
            rintro hno
            rw [hno, hkept] at hlonger
            exact Nat.lt_irrefl _ hlonger
          rw [if_pos (hsame.mpr hkept.symm), if_neg htyped]
          refine ⟨fun heq => ?_, fun hmeets => absurd hkept (hmeets.1 rfl).2⟩
          exact absurd (map_succ_inj.mp heq.symm) (loginAt_ne_zero _ _ _)
        · rw [if_neg (mt hsame.mp (Ne.symm hkept))]
          by_cases htyped : t.typed = password
          · rw [if_pos htyped]
            refine ⟨fun heq => ?_, fun hmeets => absurd htyped (hmeets.1 rfl).1⟩
            exact absurd (map_succ_inj.mp heq) (wait_ne_zero _ _ _)
          · rw [if_neg htyped, map_succ_inj]
            exact ⟨fun heq => ⟨fun _ => ⟨htyped, hkept⟩, fun _ => hrest.mp heq⟩,
              fun hmeets => hrest.mpr (hmeets.2 htyped)⟩
    · rw [if_neg henter, if_neg henter, if_neg henter, map_succ_inj]
      exact ih (h.char ch)

/-- For a password that is accepted and any characters, the shell waits for the line that is the
password if and only if no line up to it is longer than the buffer while it, or what is kept of it,
is the password. -/
theorem finshWaitAuth_eq_iff {shellPassword : List UInt8} (hne : 0 ∉ password)
    (hset : finshSetPassword password = some shellPassword) (chars : List Int) :
    finshWaitAuth shellPassword chars = loginAt password [] chars ↔
      Typing.start.Meets password chars := by
  have hlength : ¬ (password.length < finshPasswordMin ∨ finshPasswordMax < password.length) := by
    intro hno
    rw [finshSetPassword, if_pos hno] at hset
    exact Option.some_ne_none _ hset.symm
  rw [finshSetPassword, if_neg hlength] at hset
  obtain ⟨hmin, hmax⟩ := not_or.mp hlength
  obtain ⟨c, rest, rfl⟩ := List.exists_cons_of_length_pos
    (Nat.lt_of_lt_of_le (by decide : 0 < finshPasswordMin) (Nat.not_lt.mp hmin))
  have hc : c ≠ 0 := fun hno => hne (hno ▸ List.mem_cons_self)
  have hhead : (rtStrncpy (c :: rest) finshPasswordMax).head? ≠ some 0 := by
    intro hno
    exact hc (Option.some.inj hno)
  rw [← Option.some.inj hset, finshWaitAuth, if_neg hhead]
  exact keeps_start.wait_eq_iff (Nat.not_lt.mp hmax) hne chars

/-- A first line that is too short, and then `secret` with a slip that is taken back. -/
theorem finshWaitAuth_secret :
    finshWaitAuth (rtStrncpy [115, 101, 99, 114, 101, 116] 8)
        [115, 101, 13, 115, 101, 99, 114, 97, 8, 101, 116, 13] = some 12 := by
  have hne : (0 : UInt8) ∉ [115, 101, 99, 114, 101, 116] := by decide
  exact (finshWaitAuth_eq_iff hne rfl _).mpr (by decide)

/-- `abcdefgh` is the password, and `abcdefghi` logs in. -/
theorem finshWaitAuth_longer :
    finshSetPassword [97, 98, 99, 100, 101, 102, 103, 104] =
        some [97, 98, 99, 100, 101, 102, 103, 104] ∧
      finshWaitAuth [97, 98, 99, 100, 101, 102, 103, 104]
        [97, 98, 99, 100, 101, 102, 103, 104, 105, 13] = some 10 ∧
      loginAt [97, 98, 99, 100, 101, 102, 103, 104] []
        [97, 98, 99, 100, 101, 102, 103, 104, 105, 13] = none := by
  decide

end RtKernel.Finsh
