import RtKernel.Core.Cells
import RtKernel.Dfs.Mount

/-!
# Normalizing in place

`dfs_normalize_path` rewrites the joined path where it is. There is no result where a character
outside the allocated string is read or written; otherwise it is the one of the loop that reads one
string and writes another. The allocation does not fail.
-/

open List
open Option

namespace RtKernel.Dfs.InPlace

open Cells

/-- What ends a string. -/
def nul : Char := Char.ofNat 0

/-- `while ((*src == '/') && (*src != 0)) src ++`, and the loop behind a slash that is copied. -/
def skipSlashes (cells : Path) (src : Nat) : Option Nat :=
  match h : cells[src]? with
  | none => none
  | some c => if c = '/' then skipSlashes cells (src + 1) else some src
termination_by cells.length - src
decreasing_by
  have hlt := (List.getElem?_eq_some_iff.mp h).1
  omega

/-- `while ((c = *src++) != 0 && c != '/') *dst ++ = c`: the cells, `src`, `dst` and `c`. -/
def copyName (cells : Path) (src dst : Nat) : Option (Path × Nat × Nat × Char) :=
  match h : cells[src]? with
  | none => none
  | some c =>
    if c ≠ nul ∧ c ≠ '/' then
      if dst < cells.length then copyName (cells.set dst c) (src + 1) (dst + 1) else none
    else some (cells, src + 1, dst, c)
termination_by cells.length - src
decreasing_by
  have hlt := (List.getElem?_eq_some_iff.mp h).1
  rw [List.length_set]
  omega

/-- `while (dst0 < dst && dst[-1] != '/') dst --`. -/
def back (cells : Path) : Nat → Option Nat
  | 0 => some 0
  | dst + 1 =>
    match cells[dst]? with
    | none => none
    | some c => if c ≠ '/' then back cells dst else some (dst + 1)

/-- Where a turn of the loop ends: in the next one, behind it, or with a null pointer. -/
inductive Turn where
  | next (cells : Path) (src dst : Nat)
  | done (cells : Path) (dst : Nat)
  | null

/-- Copy up to the next slash. -/
def copy (cells : Path) (src dst : Nat) : Option Turn :=
  (copyName cells src dst).bind fun (cells, src, dst, c) =>
    if c = '/' then
      (write cells dst '/').bind fun cells =>
        (skipSlashes cells src).map fun src => .next cells src (dst + 1)
    else some (.done cells dst)

/-- `up_one`. -/
def upOne (cells : Path) (src : Nat) : Nat → Option Turn
  | 0 => some .null
  | dst + 1 => (back cells dst).map fun dst => .next cells src dst

/-- A turn of the loop. -/
def turn (cells : Path) (src dst : Nat) : Option Turn :=
  cells[src]?.bind fun c =>
    if c = '.' then
      cells[src + 1]?.bind fun c₁ =>
        if c₁ = nul then copy cells (src + 1) dst
        else if c₁ = '/' then (skipSlashes cells (src + 2)).map fun src => .next cells src dst
        else if c₁ = '.' then
          cells[src + 2]?.bind fun c₂ =>
            if c₂ = nul then upOne cells (src + 2) dst
            else if c₂ = '/' then
              (skipSlashes cells (src + 3)).bind fun src => upOne cells src dst
            else copy cells src dst
        else copy cells src dst
    else copy cells src dst

/-- The loop, with so many turns; a null pointer, or the cells and `dst`. -/
def loop : Nat → Path → Nat → Nat → Option (Option (Path × Nat))
  | 0, _, _, _ => none
  | fuel + 1, cells, src, dst =>
    (turn cells src dst).bind fun
      | .next cells src dst => loop fuel cells src dst
      | .done cells dst => some (some (cells, dst))
      | .null => some none

/-- What follows the loop. -/
def cleanup (cells : Path) (dst : Nat) : Option Path :=
  (write cells dst nul).bind fun cells =>
    match dst with
    -- `*dst` is the character before the string
    | 0 => none
    | dst + 1 =>
      (if dst ≠ 0 ∧ cells[dst]? = some '/' then write cells dst nul else some cells).bind
        fun cells =>
          if cells[0]? = some nul then (write cells 0 '/').bind fun cells => write cells 1 nul
          else some cells

/-- The joined path. -/
def fullpath (directory filename : Path) : Path :=
  if filename.head? = some '/' then filename else directory ++ '/' :: filename

/-- `dfs_normalize_path`: a null pointer, or a string. -/
def dfsNormalizePath (directory filename : Path) : Option (Option Path) :=
  let cells := fullpath directory filename ++ [nul]
  (loop cells.length cells 0 0).bind fun
    | none => some none
    | some (cells, dst) =>
      (cleanup cells dst).map fun cells => some (cells.takeWhile (· ≠ nul))

variable {cells out pre rest name : Path} {src dst : Nat}

/-- What has been written begins the cells, and what is to be read ends them. -/
def At (cells : Path) (src dst : Nat) (out rest : Path) : Prop :=
  ∃ junk, cells = out ++ (junk ++ (rest ++ [nul])) ∧ dst = out.length ∧
    src = out.length + junk.length

theorem At.get (h : At cells src dst out rest) (k : Nat) :
    cells[src + k]? = (rest ++ [nul])[k]? := by
  obtain ⟨junk, rfl, -, rfl⟩ := h
  rw [← append_assoc, List.getElem?_append_right]
  · rw [length_append]
    congr 1
    omega
  · rw [length_append]
    omega

theorem At.drop (h : At cells src dst out (pre ++ rest)) :
    At cells (src + pre.length) dst out rest := by
  obtain ⟨junk, rfl, rfl, rfl⟩ := h
  refine ⟨junk ++ pre, ?_, rfl, ?_⟩
  · simp only [append_assoc]
  · rw [length_append, Nat.add_assoc]

variable {x : Char} {c : Char} {cells' : Path} {s t : Path}

theorem At.head (h : At cells src dst out (x :: rest)) : cells[src]? = some x := h.get 0

theorem At.get_nil (h : At cells src dst out []) : cells[src]? = some nul := h.get 0

theorem At.tail (h : At cells src dst out (x :: rest)) : At cells (src + 1) dst out rest := by
  rw [← singleton_append] at h
  exact h.drop

theorem skipSlashes_of_get (h : cells[src]? = some c) :
    skipSlashes cells src = if c = '/' then skipSlashes cells (src + 1) else some src := by
  rw [skipSlashes]
  split
  · next hnone => exact absurd (h.symm.trans hnone) (some_ne_none c)
  · next d hd => rw [some.inj (h.symm.trans hd)]

theorem At.skip (h : At cells src dst out rest) : ∃ src', skipSlashes cells src = some src' ∧
    At cells src' dst out (Dfs.skipSlashes rest) := by
  induction rest generalizing src with
  | nil =>
    rw [skipSlashes_of_get h.get_nil]
    exact ⟨src, rfl, h⟩
  | cons x rest ih =>
    rw [skipSlashes_of_get h.head]
    unfold Dfs.skipSlashes at ih ⊢
    rw [dropWhile_cons]
    by_cases hx : x = '/'
    · rw [if_pos hx, if_pos (decide_eq_true hx)]
      exact ih h.tail
    · rw [if_neg hx, if_neg (by simpa using hx)]
      exact ⟨src, rfl, h⟩

/-- A part of a component. -/
def Clean (name : Path) : Prop := ∀ x ∈ name, x ≠ nul ∧ x ≠ '/'

theorem clean_nil : Clean [] := fun _ hx => absurd hx not_mem_nil

theorem not_mem_skip (h : nul ∉ rest) : nul ∉ Dfs.skipSlashes rest :=
  fun hno => h ((dropWhile_sublist _).subset hno)

theorem clean_takeWhile (h : nul ∉ rest) : Clean (rest.takeWhile (· ≠ '/')) := by
  intro x hx
  refine ⟨fun hno => h ((takeWhile_sublist _).subset (hno ▸ hx)), ?_⟩
  simpa using mem_takeWhile_imp hx

theorem At.lt (h : At cells src dst out rest) : dst < cells.length := by
  obtain ⟨junk, rfl, rfl, rfl⟩ := h
  simp only [length_append, length_singleton]
  omega

/-- A character is copied to where it was, or over one that has been read. -/
theorem At.copied (h : At cells src dst out (x :: rest)) :
    At (cells.set dst x) (src + 1) (dst + 1) (out ++ [x]) rest := by
  obtain ⟨junk, rfl, rfl, rfl⟩ := h
  refine ⟨(junk ++ [x]).tail, ?_, ?_, ?_⟩
  · cases junk <;> simp
  · rw [length_append]
    rfl
  · rw [length_append, length_tail, length_append, length_singleton]
    omega

theorem copyName_of_get (h : cells[src]? = some c) (hdst : dst < cells.length) :
    copyName cells src dst =
      if c ≠ nul ∧ c ≠ '/' then copyName (cells.set dst c) (src + 1) (dst + 1)
      else some (cells, src + 1, dst, c) := by
  rw [copyName]
  split
  · next hnone => exact absurd (h.symm.trans hnone) (some_ne_none c)
  · next d hd => rw [some.inj (h.symm.trans hd), if_pos hdst]

theorem At.copies (hname : Clean name)
    (h : At cells src dst out (name ++ rest)) : ∃ cells' src' dst',
    copyName cells src dst = copyName cells' src' dst' ∧
      At cells' src' dst' (out ++ name) rest := by
  induction name generalizing cells src dst out with
  | nil => exact ⟨cells, src, dst, rfl, by rwa [append_nil]⟩
  | cons x name ih =>
    obtain ⟨cells', src', dst', heq, hat⟩ :=
      ih (fun y hy => hname y (.tail _ hy)) h.copied
    refine ⟨cells', src', dst', ?_, ?_⟩
    · rw [copyName_of_get h.head h.lt, if_pos (hname x (.head _)), heq]
    · rwa [append_assoc, singleton_append] at hat

/-- The string is written, and there is room for its end. -/
def Ends (cells : Path) (dst : Nat) (out : Path) : Prop :=
  ∃ x t, cells = out ++ x :: t ∧ dst = out.length

theorem At.ends (h : At cells src dst out rest) : Ends cells dst out := by
  obtain ⟨junk, rfl, rfl, rfl⟩ := h
  obtain ⟨x, t, ht⟩ := exists_cons_of_ne_nil
    (show junk ++ (rest ++ [nul]) ≠ [] by simp)
  exact ⟨x, t, by rw [ht], rfl⟩

/-- A name at the end is copied, and the loop is left. -/
theorem At.copy_end (hname : Clean name) (h : At cells src dst out name) :
    ∃ cells' dst', copy cells src dst = some (.done cells' dst') ∧
      Ends cells' dst' (out ++ name) := by
  rw [← append_nil name] at h
  obtain ⟨cells', src', dst', heq, hat⟩ := h.copies hname
  refine ⟨cells', dst', ?_, hat.ends⟩
  unfold copy
  rw [heq, copyName_of_get hat.get_nil hat.lt]
  rfl

/-- A name is copied with the slash behind it, and further slashes are left out. -/
theorem At.copy_slash (hname : Clean name)
    (h : At cells src dst out (name ++ '/' :: rest)) : ∃ cells' src' dst',
    copy cells src dst = some (.next cells' src' dst') ∧
      At cells' src' dst' (out ++ name ++ ['/']) (Dfs.skipSlashes rest) := by
  obtain ⟨cells', src', dst', heq, hat⟩ := h.copies hname
  obtain ⟨src'', hskip, hnext⟩ := hat.copied.skip
  refine ⟨cells'.set dst' '/', src'', dst' + 1, ?_, hnext⟩
  unfold copy
  rw [heq, copyName_of_get hat.head hat.lt]
  change (Cells.write cells' dst' '/').bind _ = _
  rw [write_of_lt hat.lt]
  change (skipSlashes (cells'.set dst' '/') (src' + 1)).map _ = _
  rw [hskip]
  rfl

theorem back_append (out t : Path) :
    back (out.reverse ++ t) out.length = some (out.dropWhile (· ≠ '/')).length := by
  induction out generalizing t with
  | nil => rfl
  | cons x out ih =>
    have hget : ((x :: out).reverse ++ t)[out.length]? = some x := by
      simp
    rw [length_cons, back, hget]
    dsimp only
    rw [dropWhile_cons]
    by_cases hx : x = '/'
    · rw [if_neg (not_not.mpr hx), if_neg (by simpa using hx)]
      rfl
    · rw [if_pos hx, if_pos (decide_eq_true hx), reverse_cons, append_assoc]
      exact ih _

/-- A step up goes back behind the slash before the last one. -/
theorem At.stepUp (h : At cells src dst (x :: out).reverse rest) : ∃ dst',
    upOne cells src dst = some (.next cells src dst') ∧
      At cells src dst' (out.dropWhile (· ≠ '/')).reverse rest := by
  obtain ⟨junk, hcells, rfl, rfl⟩ := h
  have hparts := takeWhile_append_dropWhile (p := (· ≠ '/')) (l := out)
  refine ⟨(out.dropWhile (· ≠ '/')).length, ?_, (out.takeWhile (· ≠ '/')).reverse ++ x :: junk, ?_,
    ?_, ?_⟩
  · rw [hcells, length_reverse, length_cons, reverse_cons, append_assoc]
    unfold upOne
    dsimp only
    rw [back_append]
    rfl
  · rw [hcells, reverse_cons]
    nth_rewrite 1 [← hparts]
    simp only [reverse_append, append_assoc, cons_append, nil_append]
  · rw [length_reverse]
  · nth_rewrite 1 [← hparts]
    simp only [length_reverse, length_append, length_cons]
    omega

/-- What the loop ends with is what the loop over two strings ends with. -/
def Matches : Option (Option (Path × Nat)) → Option Path → Prop
  | some none, none => True
  | some (some (cells, dst)), some out => Ends cells dst out.reverse
  | _, _ => False

/-- A component that is not made of dots is copied. -/
theorem At.turn_copy (h : At cells src dst out rest) (hnul : nul ∉ rest) (hdot : rest ≠ ['.'])
    (hslash : ∀ t, rest ≠ '.' :: '/' :: t) (hdots : rest ≠ ['.', '.'])
    (hup : ∀ t, rest ≠ '.' :: '.' :: '/' :: t) : turn cells src dst = copy cells src dst := by
  unfold turn
  cases rest with
  | nil =>
    rw [h.get_nil]
    rfl
  | cons x rest =>
    rw [h.head, bind_some]
    by_cases hx : x = '.'
    · subst hx
      rw [if_pos rfl]
      cases rest with
      | nil => exact absurd rfl hdot
      | cons y rest =>
        have hy : y ≠ nul := fun hno => hnul (by simp [hno])
        rw [h.tail.head, bind_some, if_neg hy, if_neg fun hno => hslash rest (by rw [hno])]
        by_cases hy' : y = '.'
        · subst hy'
          rw [if_pos rfl]
          cases rest with
          | nil => exact absurd rfl hdots
          | cons z rest =>
            have hz : z ≠ nul := fun hno => hnul (by simp [hno])
            rw [h.tail.tail.head, bind_some, if_neg hz,
              if_neg fun hno => hup rest (by rw [hno])]
        · rw [if_neg hy']
    · rw [if_neg hx]

theorem loop_next {src' dst' fuel : Nat} (h : turn cells src dst = some (.next cells' src' dst')) :
    loop (fuel + 1) cells src dst = loop fuel cells' src' dst' := by
  rw [loop, h]
  rfl

theorem loop_done {dst' fuel : Nat} (h : turn cells src dst = some (.done cells' dst')) :
    loop (fuel + 1) cells src dst = some (some (cells', dst')) := by
  rw [loop, h]
  rfl

/-- Two dots are a step up, after which the reading goes on behind the slashes. -/
theorem At.turn_dots (h : At cells src dst out ('.' :: '.' :: rest))
    (hrest : rest = [] ∨ ∃ t, rest = '/' :: t) : ∃ src', turn cells src dst = upOne cells src' dst ∧
      At cells src' dst out (Dfs.skipSlashes rest) := by
  have hthird := h.tail.tail
  unfold turn
  rw [h.head, bind_some, if_pos rfl, h.tail.head, bind_some, if_neg (by decide),
    if_neg (by decide), if_pos rfl]
  rcases hrest with rfl | ⟨t, rfl⟩
  · rw [hthird.get_nil]
    exact ⟨src + 2, rfl, hthird⟩
  · obtain ⟨src', hskip, hat⟩ := hthird.tail.skip
    rw [hthird.head, hskip]
    exact ⟨src', rfl, hat⟩

section Name

variable {rest out tail : List Char} (hdot : rest = ['.'] → False)
  (hslash : ∀ tail, rest = '.' :: '/' :: tail → False) (hdots : rest = ['.', '.'] → False)
  (hup : ∀ tail, rest = '.' :: '.' :: '/' :: tail → False)
include hdot hslash hdots hup

/-- What is neither a dot nor two dots is a name, which may be the last one. -/
theorem normalizeLoop_last (hlast : rest.dropWhile (· ≠ '/') = []) :
    normalizeLoop rest out = some (rest.reverse ++ out) := by
  have hparts := takeWhile_append_dropWhile (p := (· ≠ '/')) (l := rest)
  rw [hlast, append_nil] at hparts
  rw [normalizeLoop]
  · split
    · rw [hparts]
    · next hcons => exact absurd (hlast.symm.trans hcons) (cons_ne_nil _ _).symm
  all_goals assumption

theorem normalizeLoop_more (hmore : rest.dropWhile (· ≠ '/') = x :: tail) :
    normalizeLoop rest out = normalizeLoop (Dfs.skipSlashes tail)
      ('/' :: ((rest.takeWhile (· ≠ '/')).reverse ++ out)) := by
  rw [normalizeLoop]
  · split
    · next hnil => exact absurd (hmore.symm.trans hnil) (cons_ne_nil _ _)
    · next hcons =>
      rw [hmore] at hcons
      cases hcons
      rfl
  all_goals assumption

end Name

theorem At.simulates {fuel : Nat} (h : At cells src dst out.reverse rest) (hnul : nul ∉ rest)
    (hfuel : rest.length ≤ fuel) :
    Matches (loop (fuel + 1) cells src dst) (normalizeLoop rest out) := by
  induction rest, out using normalizeLoop.induct generalizing cells src dst fuel with
  | case1 out =>
    obtain ⟨cells', dst', hcopy, hends⟩ := h.tail.copy_end clean_nil
    rw [append_nil] at hends
    have hturn : turn cells src dst = some (.done cells' dst') := by
      unfold turn
      rw [h.head, bind_some, if_pos rfl, h.tail.get_nil, bind_some, if_pos rfl, hcopy]
    rw [loop_done hturn, normalizeLoop]
    exact hends
  | case2 out rest ih =>
    obtain ⟨src', hskip, hat⟩ := h.tail.tail.skip
    have hturn : turn cells src dst = some (.next cells src' dst) := by
      unfold turn
      rw [h.head, bind_some, if_pos rfl, h.tail.head, bind_some, if_neg (by decide),
        if_pos rfl, hskip]
      rfl
    obtain ⟨fuel, rfl⟩ := Nat.exists_eq_add_one_of_ne_zero (Nat.ne_zero_of_lt hfuel)
    rw [loop_next hturn, normalizeLoop]
    exact ih hat (not_mem_skip fun hno => hnul (by simp [hno])) (by
      have hle := skipSlashes_length rest
      simp only [length_cons] at hfuel
      omega)
  | case3 =>
    obtain ⟨src', hturn, hat⟩ := h.turn_dots (.inl rfl)
    obtain ⟨-, -, rfl, -⟩ := h
    rw [loop, hturn, normalizeLoop]
    trivial
  | case4 x out ih =>
    obtain ⟨src', hturn, hat⟩ := h.turn_dots (.inl rfl)
    obtain ⟨dst', hup, hat'⟩ := hat.stepUp
    obtain ⟨fuel, rfl⟩ := Nat.exists_eq_add_one_of_ne_zero (Nat.ne_zero_of_lt hfuel)
    rw [loop_next (hturn.trans hup), normalizeLoop]
    exact ih hat' not_mem_nil (Nat.zero_le _)
  | case5 rest =>
    obtain ⟨src', hturn, hat⟩ := h.turn_dots (.inr ⟨rest, rfl⟩)
    obtain ⟨-, -, rfl, -⟩ := h
    rw [loop, hturn, normalizeLoop]
    trivial
  | case6 rest x out ih =>
    obtain ⟨src', hturn, hat⟩ := h.turn_dots (.inr ⟨rest, rfl⟩)
    obtain ⟨dst', hup, hat'⟩ := hat.stepUp
    obtain ⟨fuel, rfl⟩ := Nat.exists_eq_add_one_of_ne_zero (Nat.ne_zero_of_lt hfuel)
    rw [loop_next (hturn.trans hup), normalizeLoop]
    exact ih hat' (not_mem_skip fun hno => hnul (by simp [hno])) (by
      have hle := skipSlashes_length rest
      simp only [length_cons] at hfuel
      omega)
  | case7 out rest hdot hslash hdots hup hlast =>
    have hturn := h.turn_copy hnul hdot hslash hdots hup
    have hparts := takeWhile_append_dropWhile (p := (· ≠ '/')) (l := rest)
    rw [hlast, append_nil] at hparts
    obtain ⟨cells', dst', hcopy, hends⟩ := h.copy_end (hparts ▸ clean_takeWhile hnul)
    rw [loop_done (hturn.trans hcopy), normalizeLoop_last hdot hslash hdots hup hlast]
    change Ends cells' dst' (rest.reverse ++ out).reverse
    rwa [reverse_append, reverse_reverse]
  | case8 out rest hdot hslash hdots hup name x tail hmore =>
    rename_i ih
    have hturn := h.turn_copy hnul hdot hslash hdots hup
    have hparts := takeWhile_append_dropWhile (p := (· ≠ '/')) (l := rest)
    have hx : x = '/' := by
      have hhead := List.head?_dropWhile_not (· ≠ '/') rest
      rw [hmore] at hhead
      simpa using hhead
    rw [hmore, hx] at hparts
    have hat := h
    rw [← hparts] at hat
    obtain ⟨cells', src', dst', hcopy, hnext⟩ := hat.copy_slash (clean_takeWhile hnul)
    have hlength := congrArg List.length hparts
    simp only [length_append, length_cons] at hlength
    obtain ⟨fuel, rfl⟩ := Nat.exists_eq_add_one_of_ne_zero (show fuel ≠ 0 by omega)
    rw [loop_next (hturn.trans hcopy), normalizeLoop_more hdot hslash hdots hup hmore]
    refine ih ?_ (not_mem_skip fun hno => hnul ?_) ?_
    · rwa [reverse_cons, reverse_append, reverse_reverse]
    · rw [← hparts]
      simp [hno]
    · have hle := skipSlashes_length tail
      omega

theorem takeWhile_nul (h : nul ∉ s) : (s ++ nul :: t).takeWhile (· ≠ nul) = s := by
  have hall : ∀ x ∈ s, decide (x ≠ nul) = true :=
    fun x hx => decide_eq_true fun hno => h (hno ▸ hx)
  rw [takeWhile_append_of_pos hall]
  simp

theorem write_end (s t : Path) (y : Char) :
    write (s ++ y :: t) s.length nul = some (s ++ nul :: t) := by
  rw [write_of_lt (by simp)]
  simp

theorem head_ne_nul (hs : s ≠ []) (h : nul ∉ s) : (s ++ t)[0]? ≠ some nul := by
  obtain ⟨x, s, rfl⟩ := exists_cons_of_ne_nil hs
  intro hno
  exact h (some.inj hno ▸ mem_cons_self)

theorem finish_slash (hout : out ≠ []) : finish ('/' :: out) = out.reverse := by
  cases out with
  | nil => exact absurd rfl hout
  | cons y out => rfl

theorem finish_reverse (h : ¬ (out ≠ [] ∧ x = '/')) : finish (x :: out) = (x :: out).reverse := by
  by_cases hx : x = '/'
  · subst hx
    obtain rfl : out = [] := not_not.mp fun hno => h ⟨hno, rfl⟩
    rfl
  · unfold finish
    split
    · next hnil => cases hnil
    · next hcons =>
      cases hcons
      exact absurd rfl hx
    · next hcons =>
      cases hcons
      exact absurd rfl hx
    · rfl

/-- A string that is empty is read before its start. -/
theorem Ends.cleanup_nil (h : Ends cells dst []) : cleanup cells dst = none := by
  obtain ⟨x, t, rfl, rfl⟩ := h
  rfl

theorem Ends.cleanup (h : Ends cells dst (x :: out).reverse) (hnul : nul ∉ x :: out) :
    (cleanup cells dst).map (·.takeWhile (· ≠ nul)) = some (finish (x :: out)) := by
  obtain ⟨y, t, rfl, rfl⟩ := h
  have hget : ((x :: out).reverse ++ nul :: t)[out.length]? = some x := by
    simp
  have hout : out.length ≠ 0 ↔ out ≠ [] := not_congr length_eq_zero_iff
  unfold InPlace.cleanup
  rw [write_end, bind_some, length_reverse, length_cons]
  dsimp only
  rw [hget]
  by_cases hslash : out ≠ [] ∧ x = '/'
  · obtain ⟨hne, rfl⟩ := hslash
    have hwrite : write (('/' :: out).reverse ++ nul :: t) out.length nul =
        some (out.reverse ++ nul :: nul :: t) := by
      have hend := write_end out.reverse (nul :: t) '/'
      rw [length_reverse] at hend
      rwa [reverse_cons, append_assoc]
    have hclean : nul ∉ out.reverse :=
      fun hno => hnul (.tail _ (mem_reverse.mp hno))
    rw [if_pos ⟨hout.mpr hne, rfl⟩, hwrite, bind_some,
      if_neg (head_ne_nul (by simpa using hne) hclean), finish_slash hne]
    exact congrArg some (takeWhile_nul hclean)
  · have hclean : nul ∉ (x :: out).reverse := fun hno => hnul (mem_reverse.mp hno)
    rw [if_neg fun hno => hslash ⟨hout.mp hno.1, some.inj hno.2⟩, bind_some,
      if_neg (head_ne_nul (by simp) hclean), finish_reverse hslash]
    exact congrArg some (takeWhile_nul hclean)

/-- The function is the one over two strings, but for a string that the loop leaves empty. -/
theorem dfsNormalizePath_eq (directory filename : Path) (hnul : nul ∉ fullpath directory filename)
    (hclean : ∀ out, normalizeLoop (fullpath directory filename) [] = some out → nul ∉ out) :
    dfsNormalizePath directory filename =
      match normalizeLoop (fullpath directory filename) [] with
      | none => some none
      | some [] => none
      | some out => some (some (finish out)) := by
  have hat : At (fullpath directory filename ++ [nul]) 0 0 [].reverse
      (fullpath directory filename) := ⟨[], rfl, rfl, rfl⟩
  have hmatches := hat.simulates hnul (Nat.le_refl _)
  unfold dfsNormalizePath
  dsimp only
  rw [length_append]
  generalize loop ((fullpath directory filename).length + 1) _ 0 0 = r at *
  generalize normalizeLoop (fullpath directory filename) [] = s at *
  rcases r with - | - | ⟨cells, dst⟩
  · cases s <;> exact hmatches.elim
  · cases s with
    | none => rfl
    | some out => exact hmatches.elim
  · cases s with
    | none => exact hmatches.elim
    | some out =>
      have hends : Ends cells dst out.reverse := hmatches
      cases out with
      | nil =>
        rw [bind_some]
        dsimp only
        rw [hends.cleanup_nil]
        rfl
      | cons x out =>
        have hfinish := hends.cleanup (hclean _ rfl)
        obtain ⟨cells', hcleanup, hstring⟩ := map_eq_some_iff.mp hfinish
        rw [bind_some]
        dsimp only
        rw [hcleanup, ← hstring]
        rfl

end RtKernel.Dfs.InPlace
