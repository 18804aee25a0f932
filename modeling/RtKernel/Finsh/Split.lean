import RtKernel.Finsh.Msh

/-!
# Arguments of a command

What `msh_split` leaves in the line are the tokens of the command, each with its end: a blank after
a word is overwritten when the next round begins, and a quote at once.
-/

open List
open Option (bind_some)

namespace RtKernel.Finsh

/-- The length of a string in quotes: a quote after a backslash does not end it. -/
def closing : (prev : UInt8) → List UInt8 → Nat
  | _, [] => 0
  | prev, c :: rest => if c = quote ∧ prev ≠ backslash then 0 else closing c rest + 1

/-- The tokens of a command. -/
def tokens (cmd : List UInt8) : List (List UInt8) :=
  match h : cmd.dropWhile isBlank with
  | [] => []
  | c :: rest =>
    if c = quote then
      rest.take (closing quote rest) :: tokens (rest.drop (closing quote rest + 1))
    else
      (c :: rest.takeWhile (!isBlank ·)) :: tokens (rest.dropWhile (!isBlank ·))
termination_by cmd.length
decreasing_by
  all_goals
    have hle := (List.dropWhile_suffix isBlank (l := cmd)).length_le
    rw [h, List.length_cons] at hle
  · rw [List.length_drop]
    omega
  · exact Nat.lt_of_le_of_lt (List.dropWhile_suffix _).length_le hle

theorem tokens_blank {cmd : List UInt8} (h : cmd.dropWhile isBlank = []) : tokens cmd = [] := by
  rw [tokens]
  split
  · rfl
  · next heq => simp [h] at heq

variable {cmd rest : List UInt8} {argv : List Nat}

theorem tokens_quote (h : cmd.dropWhile isBlank = quote :: rest) :
    tokens cmd = rest.take (closing quote rest) :: tokens (rest.drop (closing quote rest + 1)) := by
  rw [tokens]
  split
  · next heq => simp [h] at heq
  · next heq =>
    obtain ⟨rfl, rfl⟩ := List.cons.inj (h.symm.trans heq)
    rfl

theorem tokens_word {c : UInt8} (h : cmd.dropWhile isBlank = c :: rest) (hc : c ≠ quote) :
    tokens cmd = (c :: rest.takeWhile (!isBlank ·)) :: tokens (rest.dropWhile (!isBlank ·)) := by
  rw [tokens]
  split
  · next heq => simp [h] at heq
  · next heq =>
    obtain ⟨rfl, rfl⟩ := List.cons.inj (h.symm.trans heq)
    rw [if_neg hc]

section Scans

variable {before after s : List UInt8}

theorem getElem?_at (before : List UInt8) (c : UInt8) (after : List UInt8) :
    (before ++ c :: after)[before.length]? = some c := by
  rw [List.getElem?_append_right (Nat.le_refl _), Nat.sub_self]
  rfl

theorem getElem?_next (before : List UInt8) (c d : UInt8) (after : List UInt8) :
    (before ++ c :: d :: after)[before.length + 1]? = some d := by
  rw [List.getElem?_append_right (Nat.le_succ _), Nat.succ_sub (Nat.le_refl _), Nat.sub_self]
  rfl

/-- What blanks are overwritten with. -/
def cleared (s : List UInt8) : List UInt8 := (s.takeWhile isBlank).map fun _ => 0

theorem length_cleared (s : List UInt8) :
    (cleared s).length + (s.dropWhile isBlank).length = s.length := by
  have hlength := congrArg List.length (takeWhile_append_dropWhile (p := isBlank) (l := s))
  rw [length_append] at hlength
  rw [cleared, length_map]
  exact hlength

theorem head?_cleared (hne : s ≠ []) (h : ∀ c ∈ s.head?, isBlank c = true) (t : List UInt8) :
    (cleared s ++ t).head? = some 0 := by
  obtain ⟨c, s, rfl⟩ := exists_cons_of_ne_nil hne
  rw [cleared, takeWhile_cons_of_pos (h c rfl)]
  rfl

theorem strip_eq (before s after : List UInt8) :
    strip s.length (before ++ (s ++ 0 :: after)) before.length =
      some (before ++ cleared s ++ (s.dropWhile isBlank ++ 0 :: after),
        (before ++ cleared s).length) := by
  unfold cleared
  induction s generalizing before with
  | nil =>
    rw [length_nil, strip]
    simp
  | cons c s ih =>
    rw [length_cons, strip, cons_append, getElem?_at, bind_some]
    by_cases hblank : isBlank c
    · have hwrite : Cells.write (before ++ c :: (s ++ 0 :: after)) before.length 0 =
          some ((before ++ [0]) ++ (s ++ 0 :: after)) := by
        rw [Cells.write_of_lt (by simp)]
        simp
      have hrest := ih (before ++ [0])
      rw [length_append, length_singleton] at hrest
      rw [if_pos hblank, hwrite, bind_some, hrest, takeWhile_cons_of_pos hblank,
        dropWhile_cons_of_pos hblank]
      simp
    · rw [if_neg hblank, takeWhile_cons_of_neg hblank, dropWhile_cons_of_neg hblank]
      simp

theorem skipWord_eq (before s after : List UInt8) :
    skipWord (before ++ (s ++ 0 :: after)) s.length before.length =
      some (before.length + (s.takeWhile (!isBlank ·)).length) := by
  induction s generalizing before with
  | nil =>
    rw [length_nil, skipWord, nil_append, getElem?_at]
    rfl
  | cons c s ih =>
    rw [length_cons, skipWord, cons_append, getElem?_at, bind_some]
    by_cases hblank : isBlank c
    · rw [if_pos hblank, takeWhile_cons_of_neg (by simp [hblank])]
      rfl
    · have hrest := ih (before ++ [c])
      rw [length_append, length_singleton, append_assoc] at hrest
      rw [if_neg hblank, takeWhile_cons_of_pos (by simp [hblank]), length_cons]
      exact hrest.trans (congrArg some (by omega))

/-- Only a quote is told by what stands before it. -/
theorem closing_of_ne {c : UInt8} (hc : c ≠ quote) (prev prev' : UInt8) (s : List UInt8) :
    closing prev (c :: s) = closing prev' (c :: s) := by
  rw [closing, closing, if_neg fun hno => hc hno.1, if_neg fun hno => hc hno.1]

section Turn

variable {text : List UInt8} {n ptr : Nat} {c : UInt8}

theorem skipString_quote (h : text[ptr]? = some quote) :
    skipString text (n + 1) ptr = some ptr := by
  rw [skipString.eq_def]
  dsimp only
  rw [h, bind_some, if_pos rfl]

theorem skipString_escape (h : text[ptr]? = some backslash) (h' : text[ptr + 1]? = some quote) :
    skipString text (n + 2) ptr = skipString text n (ptr + 2) := by
  rw [skipString.eq_def]
  dsimp only
  rw [h, bind_some, if_neg (by decide), if_pos rfl, h', bind_some, if_pos rfl]

/-- A character that neither ends the string nor begins an escape is passed. -/
theorem skipString_pass (h : text[ptr]? = some c) (hquote : c ≠ quote)
    (hescape : c = backslash → ∃ d, text[ptr + 1]? = some d ∧ d ≠ quote) :
    skipString text (n + 1) ptr = skipString text n (ptr + 1) := by
  rw [skipString.eq_def]
  dsimp only
  rw [h, bind_some, if_neg hquote]
  by_cases hback : c = backslash
  · obtain ⟨d, hnext, hd⟩ := hescape hback
    rw [if_pos hback, hnext, bind_some, if_neg hd]
  · rw [if_neg hback]

end Turn

theorem skipString_eq (before s after : List UInt8) {prev : UInt8} (hprev : prev ≠ backslash) :
    skipString (before ++ (s ++ 0 :: after)) s.length before.length =
      some (before.length + closing prev s) := by
  have hend : ∀ before : List UInt8,
      skipString (before ++ ([] ++ 0 :: after)) 0 before.length = some before.length := by
    intro before
    rw [skipString, nil_append, getElem?_at]
    rfl
  have hopen : ∀ (before s : List UInt8) (prev : UInt8), prev ≠ backslash →
      skipString (before ++ (quote :: s ++ 0 :: after)) (s.length + 1) before.length =
        some (before.length + closing prev (quote :: s)) := by
    intro before s prev hprev
    rw [cons_append, skipString_quote (getElem?_at before quote _), closing,
      if_pos ⟨rfl, hprev⟩]
    rfl
  -- one character is passed, and the scan goes on behind it
  have hpass : ∀ {before s : List UInt8} {c prev : UInt8}, c ≠ quote →
      (c = backslash → ∃ d tail, s ++ 0 :: after = d :: tail ∧ d ≠ quote) →
      skipString (before ++ [c] ++ (s ++ 0 :: after)) s.length (before ++ [c]).length =
        some ((before ++ [c]).length + closing c s) →
      skipString (before ++ (c :: s ++ 0 :: after)) (s.length + 1) before.length =
        some (before.length + closing prev (c :: s)) := by
    intro before s c prev hquote hescape hrest
    rw [append_assoc, length_append, length_singleton,
      singleton_append] at hrest
    rw [cons_append, skipString_pass (getElem?_at before c _) hquote, hrest, closing,
      if_neg fun hno => hquote hno.1, Nat.add_right_comm, Nat.add_assoc]
    intro hback
    obtain ⟨d, tail, htail, hd⟩ := hescape hback
    exact ⟨d, htail ▸ getElem?_next before c d tail, hd⟩
  induction s using List.twoStepInduction generalizing before prev with
  | nil => exact hend before
  | singleton c =>
    by_cases hquote : c = quote
    · exact hquote ▸ hopen before [] prev hprev
    · exact hpass hquote (fun _ => ⟨0, after, rfl, by decide⟩) (hend (before ++ [c]))
  | cons_cons c d s ih ih' =>
    by_cases hquote : c = quote
    · exact hquote ▸ hopen before (d :: s) prev hprev
    · by_cases hback : c = backslash
      · by_cases hd : d = quote
        · -- an escaped quote is passed with its backslash
          obtain rfl := hback
          obtain rfl := hd
          have hrest := ih (before ++ [backslash, quote]) (by decide : quote ≠ backslash)
          rw [append_assoc, length_append] at hrest
          rw [length_cons, length_cons, cons_append, cons_append,
            skipString_escape (getElem?_at before backslash _) (getElem?_next before _ _ _),
            closing,
            if_neg fun hno => hquote hno.1, closing, if_neg fun hno => hno.2 rfl]
          exact hrest.trans (congrArg some (Nat.add_right_comm _ _ _))
        · refine hpass hquote (fun _ => ⟨d, s ++ 0 :: after, rfl, hd⟩) ?_
          rw [closing_of_ne hd c quote]
          exact ih' d (before ++ [c]) (by decide)
      · exact hpass hquote (fun hno => absurd hno hback) (ih' d (before ++ [c]) hback)

end Scans

/-- Every string in the line is ended by its last byte. -/
theorem strings_before (before s after : List UInt8)
    (h : ∀ ptr ∈ argv, ptr ≤ before.length + s.length) :
    ∃ words, argv.mapM (Cells.string (before ++ (s ++ 0 :: after))) = some words := by
  have hend : (before ++ (s ++ 0 :: after))[before.length + s.length]? = some 0 := by
    rw [← append_assoc, ← length_append]
    exact getElem?_at _ _ _
  induction argv with
  | nil => exact ⟨[], rfl⟩
  | cons ptr argv ih =>
    obtain ⟨w, hw, -⟩ := Cells.string_of_zero hend (h ptr (.head _))
    obtain ⟨words, hwords⟩ := ih fun p hp => h p (.tail _ hp)
    exact ⟨w :: words, by simp [mapM_cons, hw, hwords]⟩

/-- What a split makes of the rest `s` of a line: the arguments `more` that it adds are the tokens
of the rest, and a blank that the rest begins with is overwritten. -/
structure Splits (free : Nat) (before s after : List UInt8) (s' : List UInt8) (more : List Nat) :
    Prop where
  length : s'.length = s.length
  blank : (∀ c ∈ s.head?, isBlank c = true) → (s' ++ 0 :: after).head? = some 0
  argv : more.map (Cells.string (before ++ (s' ++ 0 :: after))) = ((tokens s).take free).map some

section Round

variable {free : Nat} {before s after rest w tail : List UInt8} {argv : List Nat} {c : UInt8}

theorem mshSplit_stop {stop ptr : Nat} {text : List UInt8} (h : stop ≤ ptr) :
    mshSplit free stop text ptr argv = some (text, argv) := by
  cases free with
  | zero | succ free => exact if_neg (Nat.not_lt.mpr h)

theorem mshSplit_end (hs : s ≠ []) (h : s.dropWhile isBlank = []) :
    mshSplit (free + 1) (before.length + s.length) (before ++ (s ++ 0 :: after)) before.length
        argv =
      some (before ++ cleared s ++ 0 :: after, argv) := by
  have hlength := length_cleared s
  rw [h, length_nil] at hlength
  rw [mshSplit, if_pos (Nat.lt_add_of_pos_right (length_pos_iff.mpr hs)),
    Nat.add_sub_cancel_left, strip_eq, bind_some, h]
  rw [if_pos (by rw [length_append]; omega)]
  rfl

theorem write_at (before : List UInt8) {s : List UInt8} {k : Nat} (hk : k < s.length) (c : UInt8)
    (after : List UInt8) : Cells.write (before ++ (s ++ after)) (before.length + k) c =
      some ((before ++ s.take k ++ [c]) ++ (s.drop (k + 1) ++ after)) := by
  rw [Cells.write_of_lt (by simp only [length_append]; omega),
    set_append_right _ _ (Nat.le_add_right _ _), Nat.add_sub_cancel_left,
    set_append_left _ _ hk, set_eq_take_append_cons_drop, if_pos hk]
  simp

theorem mshSplit_quote (h : s.dropWhile isBlank = quote :: rest) :
    mshSplit (free + 1) (before.length + s.length) (before ++ (s ++ 0 :: after)) before.length
        argv =
      if rest.length ≤ closing quote rest then
        some (before ++ cleared s ++ [quote] ++ (rest ++ 0 :: after),
          argv ++ [(before ++ cleared s ++ [quote]).length])
      else
        mshSplit free (before.length + s.length)
          ((before ++ cleared s ++ [quote] ++ rest.take (closing quote rest) ++ [0]) ++
            (rest.drop (closing quote rest + 1) ++ 0 :: after))
          (before ++ cleared s ++ [quote] ++ rest.take (closing quote rest) ++ [0]).length
          (argv ++ [(before ++ cleared s ++ [quote]).length]) := by
  have hlength := length_cleared s
  rw [h, length_cons] at hlength
  have hline : before ++ cleared s ++ (quote :: rest ++ 0 :: after) =
      before ++ cleared s ++ [quote] ++ (rest ++ 0 :: after) := by simp
  have hptr : (before ++ cleared s).length + 1 = (before ++ cleared s ++ [quote]).length :=
    show (before ++ cleared s).length + [quote].length = _ from length_append.symm
  have hleft :
      before.length + s.length - (before ++ cleared s ++ [quote]).length = rest.length := by
    rw [← hptr, length_append]
    omega
  have hstop : ¬ before.length + s.length ≤ (before ++ cleared s).length := by
    rw [length_append]
    omega
  rw [mshSplit, if_pos (by omega), Nat.add_sub_cancel_left, strip_eq, bind_some, h]
  rw [if_neg hstop, cons_append, getElem?_at, bind_some, if_pos rfl, hptr, hleft,
    ← cons_append, hline, skipString_eq _ _ _ (by decide : quote ≠ backslash),
    bind_some]
  by_cases hend : rest.length ≤ closing quote rest
  · rw [if_pos hend, if_pos (by omega)]
  · have hat := Nat.lt_of_not_le hend
    have hwrite : Cells.write (before ++ cleared s ++ [quote] ++ (rest ++ 0 :: after))
        ((before ++ cleared s ++ [quote]).length + closing quote rest) 0 =
        some ((before ++ cleared s ++ [quote] ++ rest.take (closing quote rest) ++ [0]) ++
          (rest.drop (closing quote rest + 1) ++ 0 :: after)) :=
      write_at _ hat 0 _
    have hptr' : (before ++ cleared s ++ [quote]).length + closing quote rest + 1 =
        (before ++ cleared s ++ [quote] ++ rest.take (closing quote rest) ++ [0]).length := by
      have htake := length_take_of_le (Nat.le_of_lt hat)
      simp only [length_append, htake, length_singleton]
    rw [if_neg hend, if_neg (by omega), hwrite, bind_some, hptr']

/-- The loop ends behind a word that is the last one, and the line is not changed. -/
theorem mshSplit_word (h : s.dropWhile isBlank = c :: rest) (hc : c ≠ quote) :
    mshSplit (free + 1) (before.length + s.length) (before ++ (s ++ 0 :: after)) before.length
        argv =
      mshSplit free (before.length + s.length)
        ((before ++ cleared s ++ c :: rest.takeWhile (!isBlank ·)) ++
          (rest.dropWhile (!isBlank ·) ++ 0 :: after))
        (before ++ cleared s ++ c :: rest.takeWhile (!isBlank ·)).length
        (argv ++ [(before ++ cleared s).length]) := by
  have hlength := length_cleared s
  rw [h, length_cons] at hlength
  have hc' : isBlank c = false := by
    have hhead := List.head?_dropWhile_not isBlank s
    rw [h] at hhead
    exact hhead
  have hword : (c :: rest).takeWhile (!isBlank ·) = c :: rest.takeWhile (!isBlank ·) :=
    takeWhile_cons_of_pos (by rw [hc']; rfl)
  have hsplit := congrArg List.length
    (takeWhile_append_dropWhile (p := (!isBlank ·)) (l := rest))
  have hleft : before.length + s.length - (before ++ cleared s).length = (c :: rest).length := by
    rw [length_append, length_cons]
    omega
  have hstop : ¬ before.length + s.length ≤ (before ++ cleared s).length := by
    rw [length_append]
    omega
  rw [mshSplit, if_pos (by omega), Nat.add_sub_cancel_left, strip_eq, bind_some, h]
  rw [if_neg hstop, cons_append, getElem?_at, bind_some, if_neg hc, hleft,
    ← cons_append, skipWord_eq, bind_some, hword]
  have hline : before ++ cleared s ++ (c :: rest ++ 0 :: after) =
      (before ++ cleared s ++ c :: rest.takeWhile (!isBlank ·)) ++
        (rest.dropWhile (!isBlank ·) ++ 0 :: after) := by
    have hrest := takeWhile_append_dropWhile (p := (!isBlank ·)) (l := rest)
    rw [append_assoc _ (c :: _), cons_append, cons_append,
      ← append_assoc (List.takeWhile _ rest), hrest]
  have hptr : (before ++ cleared s).length + (c :: rest.takeWhile (!isBlank ·)).length =
      (before ++ cleared s ++ c :: rest.takeWhile (!isBlank ·)).length := length_append.symm
  rw [hline, hptr]
  split_ifs with hend
  · exact (mshSplit_stop hend).symm
  · rfl

theorem argv_cons {text pre : List UInt8} {more : List Nat} {ts : List (List UInt8)} (hw : 0 ∉ w)
    (htext : text = pre ++ (w ++ 0 :: tail)) (htokens : tokens s = w :: ts)
    (hmore : more.map (Cells.string text) = (ts.take free).map some) :
    (pre.length :: more).map (Cells.string text) = ((tokens s).take (free + 1)).map some := by
  rw [map_cons, hmore, htokens, htext, Cells.string_append pre hw]
  rfl

theorem Splits.cons {front x pre post tail' : List UInt8} {more : List Nat}
    (h : Splits free (before ++ front) tail after tail' more) (hne : s ≠ [])
    (hfront : front = cleared s ++ x) (hlength : front.length + tail.length = s.length)
    (hw : 0 ∉ w) (htokens : tokens s = w :: tokens tail)
    (htext : before ++ front ++ (tail' ++ 0 :: after) = pre ++ (w ++ 0 :: post)) :
    Splits (free + 1) before s after (front ++ tail') (pre.length :: more) := by
  have hline : before ++ (front ++ tail' ++ 0 :: after) =
      before ++ front ++ (tail' ++ 0 :: after) := by
    rw [append_assoc front, append_assoc before]
  refine ⟨?_, fun hblank => ?_, ?_⟩
  · rw [length_append, h.length, hlength]
  · rw [hfront, append_assoc, append_assoc]
    exact head?_cleared hne hblank _
  · rw [hline]
    exact argv_cons hw htext htokens h.argv

/-- The split of the rest `s` of a line. -/
def Split (free : Nat) (before s after : List UInt8) (argv : List Nat) : Prop :=
  ∃ s' more, mshSplit free (before.length + s.length) (before ++ (s ++ 0 :: after)) before.length
      argv = some (before ++ (s' ++ 0 :: after), argv ++ more) ∧
    Splits free before s after s' more

theorem split_nil : Split free before [] after argv := by
  refine ⟨[], [], ?_, rfl, fun _ => rfl, ?_⟩
  · rw [append_nil]
    exact mshSplit_stop (Nat.le_refl _)
  · rw [tokens_blank rfl, take_nil]
    rfl

/-- There is no more room for arguments, but blanks are overwritten. -/
theorem split_full (hne : s ≠ []) (hargv : ∀ ptr ∈ argv, ptr ≤ before.length + s.length) :
    Split 0 before s after argv := by
  have hlength : (cleared s ++ s.dropWhile isBlank).length = s.length := by
    rw [length_append, length_cleared]
  obtain ⟨words, hwords⟩ :=
    strings_before before (cleared s ++ s.dropWhile isBlank) after (hlength.symm ▸ hargv)
  refine ⟨cleared s ++ s.dropWhile isBlank, [], ?_, hlength, fun h => ?_, rfl⟩
  · rw [mshSplit, if_pos (Nat.lt_add_of_pos_right (length_pos_iff.mpr hne)),
      Nat.add_sub_cancel_left, strip_eq, bind_some]
    rw [append_assoc before, ← append_assoc (cleared s), hwords, append_nil]
    rfl
  · rw [append_assoc]
    exact head?_cleared hne h _

theorem split_blank (hne : s ≠ []) (h : s.dropWhile isBlank = []) :
    Split (free + 1) before s after argv := by
  refine ⟨cleared s, [], ?_, ?_, fun hblank => head?_cleared hne hblank _, ?_⟩
  · rw [mshSplit_end hne h, append_nil, append_assoc]
  · rw [← length_cleared s, h]
    rfl
  · rw [tokens_blank h]
    rfl

/-- The end of the command is the end of the string. -/
theorem split_open (hs : 0 ∉ rest) (h : s.dropWhile isBlank = quote :: rest)
    (hend : rest.length ≤ closing quote rest) : Split (free + 1) before s after argv := by
  have hne : s ≠ [] := by
    rintro rfl
    exact cons_ne_nil _ _ h.symm
  have htext : before ++ (cleared s ++ quote :: rest ++ 0 :: after) =
      before ++ cleared s ++ [quote] ++ (rest ++ 0 :: after) := by simp
  have htokens : tokens s = [rest] := by
    rw [tokens_quote h, take_of_length_le hend,
      drop_of_length_le (Nat.le_succ_of_le hend), tokens_blank rfl]
  refine ⟨cleared s ++ quote :: rest, [(before ++ cleared s ++ [quote]).length], ?_, ?_, ?_,
    argv_cons hs htext htokens (by rw [take_nil]; rfl)⟩
  · rw [mshSplit_quote h, if_pos hend]
    simp
  · rw [← length_cleared s, h, length_append]
  · intro hblank
    rw [append_assoc]
    exact head?_cleared hne hblank _

/-- What a round with a string in quotes passes. -/
def quoted (s rest : List UInt8) : List UInt8 :=
  cleared s ++ quote :: (rest.take (closing quote rest) ++ [0])

theorem length_quoted (h : s.dropWhile isBlank = quote :: rest)
    (hend : closing quote rest < rest.length) :
    (quoted s rest).length + (rest.drop (closing quote rest + 1)).length = s.length := by
  have hlength := length_cleared s
  rw [h, length_cons] at hlength
  rw [quoted, length_append, length_cons, length_append, length_drop,
    length_take_of_le (Nat.le_of_lt hend), length_singleton]
  omega

theorem split_quoted (hs : 0 ∉ rest) (h : s.dropWhile isBlank = quote :: rest)
    (hend : closing quote rest < rest.length)
    (hrest : Split free (before ++ quoted s rest) (rest.drop (closing quote rest + 1)) after
      (argv ++ [(before ++ cleared s ++ [quote]).length])) :
    Split (free + 1) before s after argv := by
  obtain ⟨s', more, hsplit, hsplits⟩ := hrest
  have hne : s ≠ [] := by
    rintro rfl
    exact cons_ne_nil _ _ h.symm
  have hlength := length_quoted h hend
  have hfront : before ++ cleared s ++ [quote] ++ rest.take (closing quote rest) ++ [0] =
      before ++ quoted s rest := by simp [quoted]
  have hstop : (before ++ quoted s rest).length + (rest.drop (closing quote rest + 1)).length =
      before.length + s.length := by
    rw [length_append, Nat.add_assoc, hlength]
  rw [hstop] at hsplit
  have htext : before ++ quoted s rest ++ (s' ++ 0 :: after) = before ++ cleared s ++ [quote] ++
      (rest.take (closing quote rest) ++ 0 :: (s' ++ 0 :: after)) := by simp [quoted]
  refine ⟨_, _, ?_, hsplits.cons hne rfl hlength (fun hno => hs (mem_of_mem_take hno))
    (tokens_quote h) htext⟩
  rw [mshSplit_quote h, if_neg (Nat.not_le.mpr hend), hfront, hsplit]
  simp

theorem length_word (h : s.dropWhile isBlank = c :: rest) :
    (cleared s ++ c :: rest.takeWhile (!isBlank ·)).length +
      (rest.dropWhile (!isBlank ·)).length = s.length := by
  have hlength := length_cleared s
  have hpieces := congrArg List.length
    (takeWhile_append_dropWhile (p := (!isBlank ·)) (l := rest))
  rw [h, length_cons] at hlength
  rw [length_append] at hpieces
  rw [length_append, length_cons]
  omega

theorem split_word (hs : 0 ∉ c :: rest) (h : s.dropWhile isBlank = c :: rest) (hc : c ≠ quote)
    (hrest : Split free (before ++ (cleared s ++ c :: rest.takeWhile (!isBlank ·)))
      (rest.dropWhile (!isBlank ·)) after (argv ++ [(before ++ cleared s).length])) :
    Split (free + 1) before s after argv := by
  obtain ⟨s', more, hsplit, hsplits⟩ := hrest
  have hne : s ≠ [] := by
    rintro rfl
    exact cons_ne_nil _ _ h.symm
  have hlength := length_word h
  have hw : 0 ∉ c :: rest.takeWhile (!isBlank ·) := by
    intro hno
    rcases mem_cons.mp hno with hno | hno
    · exact hs (hno ▸ mem_cons_self)
    · exact hs (.tail _ ((List.takeWhile_prefix _).subset hno))
  have hblank : ∀ d ∈ (rest.dropWhile (!isBlank ·)).head?, isBlank d = true := by
    intro d hd
    have hhead := List.head?_dropWhile_not (!isBlank ·) rest
    rw [Option.mem_def.mp hd] at hhead
    simpa using hhead
  obtain ⟨post, hpost⟩ : ∃ post, s' ++ 0 :: after = 0 :: post :=
    ⟨_, (cons_head?_tail (hsplits.blank hblank)).symm⟩
  have hstop : (before ++ (cleared s ++ c :: rest.takeWhile (!isBlank ·))).length +
      (rest.dropWhile (!isBlank ·)).length = before.length + s.length := by
    rw [length_append, Nat.add_assoc, hlength]
  rw [hstop] at hsplit
  have htext : before ++ (cleared s ++ c :: rest.takeWhile (!isBlank ·)) ++ (s' ++ 0 :: after) =
      before ++ cleared s ++ (c :: rest.takeWhile (!isBlank ·) ++ 0 :: post) := by
    rw [hpost]
    simp
  refine ⟨_, _, ?_, hsplits.cons hne rfl hlength hw (tokens_word h hc) htext⟩
  rw [mshSplit_word h hc, append_assoc before, hsplit]
  simp

end Round

theorem mshSplit_split (free : Nat) (before : List UInt8) {s : List UInt8} (hs : 0 ∉ s)
    (after : List UInt8) (hargv : ∀ ptr ∈ argv, ptr ≤ before.length + s.length) :
    Split free before s after argv := by
  induction free generalizing before s argv with
  | zero =>
    by_cases hne : s = []
    · exact hne ▸ split_nil
    · exact split_full hne hargv
  | succ free ih =>
    by_cases hne : s = []
    · exact hne ▸ split_nil
    have hadd : ∀ {front tail : List UInt8} {p : Nat}, front.length + tail.length = s.length →
        p ≤ before.length + s.length →
        ∀ ptr ∈ argv ++ [p], ptr ≤ (before ++ front).length + tail.length := by
      intro front tail p hlength hp ptr hptr
      rw [length_append, Nat.add_assoc, hlength]
      rcases mem_append.mp hptr with hptr | hptr
      · exact hargv ptr hptr
      · exact mem_singleton.mp hptr ▸ hp
    have hlength := length_cleared s
    have hsuffix : 0 ∉ s.dropWhile isBlank := fun hno => hs ((dropWhile_suffix _).subset hno)
    cases hrest : s.dropWhile isBlank with
    | nil => exact split_blank hne hrest
    | cons c rest =>
      rw [hrest] at hlength hsuffix
      rw [length_cons] at hlength
      have hsuffix' : 0 ∉ rest := fun hno => hsuffix (.tail _ hno)
      by_cases hc : c = quote
      · obtain rfl := hc
        rcases Nat.lt_or_ge (closing quote rest) rest.length with hend | hend
        · refine split_quoted hsuffix' hrest hend (ih _
            (fun hno => hsuffix' (mem_of_mem_drop hno)) (hadd (length_quoted hrest hend) ?_))
          rw [length_append, length_append, length_singleton]
          omega
        · exact split_open hsuffix' hrest hend
      · refine split_word hsuffix hrest hc (ih _
          (fun hno => hsuffix' ((dropWhile_suffix _).subset hno))
          (hadd (length_word hrest) ?_))
        rw [length_append]
        omega

/-- The arguments of a command are its first tokens, whatever stands before it and behind its end;
nothing behind its end is read or written. -/
theorem mshSplit_tokens (before : List UInt8) {cmd : List UInt8} (hcmd : 0 ∉ cmd)
    (after : List UInt8) : ∃ cmd' argv,
      mshSplit finshArgMax (before.length + cmd.length) (before ++ (cmd ++ 0 :: after))
        before.length [] = some (before ++ (cmd' ++ 0 :: after), argv) ∧
      cmd'.length = cmd.length ∧ argv.length ≤ finshArgMax ∧
      argv.map (Cells.string (before ++ (cmd' ++ 0 :: after))) =
        ((tokens cmd).take finshArgMax).map some := by
  have hnone : ∀ ptr ∈ ([] : List Nat), ptr ≤ before.length + cmd.length :=
    fun ptr hptr => absurd hptr List.not_mem_nil
  obtain ⟨cmd', argv, hsplit, hsplits⟩ := mshSplit_split finshArgMax before hcmd after hnone
  have hlength := congrArg List.length hsplits.argv
  rw [List.length_map, List.length_map] at hlength
  exact ⟨cmd', argv, hsplit, hsplits.length, hlength ▸ List.length_take_le _ _, hsplits.argv⟩

/-- `ls "a b"`. -/
theorem mshSplit_ls : ∃ cmd' argv,
    mshSplit finshArgMax 8 [108, 115, 32, 34, 97, 32, 98, 34, 0] 0 [] = some (cmd' ++ [0], argv) ∧
      argv.map (Cells.string (cmd' ++ [0])) = [some [108, 115], some [97, 32, 98]] := by
  have hcmd : (0 : UInt8) ∉ [108, 115, 32, 34, 97, 32, 98, 34] := by decide
  have hword : ([108, 115, 32, 34, 97, 32, 98, 34] : List UInt8).dropWhile isBlank =
      108 :: [115, 32, 34, 97, 32, 98, 34] := by decide
  have hquote : ([32, 34, 97, 32, 98, 34] : List UInt8).dropWhile isBlank =
      quote :: [97, 32, 98, 34] := by decide
  have htokens : tokens [108, 115, 32, 34, 97, 32, 98, 34] = [[108, 115], [97, 32, 98]] :=
    (tokens_word hword (by decide)).trans
      (congrArg _ ((tokens_quote hquote).trans (congrArg _ (tokens_blank rfl))))
  obtain ⟨cmd', argv, hsplit, -, -, hargv⟩ := mshSplit_tokens [] hcmd []
  rw [htokens] at hargv
  exact ⟨cmd', argv, hsplit, hargv⟩

/-- An argument that needs no quotes. -/
def bare (arg : List UInt8) : Bool :=
  arg ≠ [] ∧ arg.head? ≠ some quote ∧ arg.all (!isBlank ·)

/-- A command with these arguments, each behind a blank. -/
def typed (args : List (List UInt8)) : List UInt8 :=
  args.flatMap fun arg => space :: if bare arg then arg else quote :: arg ++ [quote]

/-- A string in quotes has none inside, and no backslash takes the meaning from the last one. -/
def Typable (arg : List UInt8) : Prop :=
  0 ∉ arg ∧ (bare arg = false → quote ∉ arg ∧ arg.getLast? ≠ some backslash)

theorem closing_append {arg : List UInt8} (hquote : quote ∉ arg) {prev : UInt8}
    (hlast : (prev :: arg).getLast? ≠ some backslash) (s : List UInt8) :
    closing prev (arg ++ quote :: s) = arg.length := by
  induction arg generalizing prev with
  | nil => exact if_pos ⟨rfl, fun hprev => hlast (congrArg some hprev)⟩
  | cons c arg ih =>
    rw [mem_cons, not_or] at hquote
    rw [cons_append, closing, if_neg fun h => hquote.1 h.1.symm,
      ih hquote.2 (by rwa [List.getLast?_cons_cons] at hlast), length_cons]

theorem tokens_typed {args : List (List UInt8)} (hargs : ∀ arg ∈ args, Typable arg) :
    tokens (typed args) = args := by
  induction args with
  | nil => exact tokens_blank rfl
  | cons arg args ih =>
    obtain ⟨harg, hrest⟩ := forall_mem_cons.mp hargs
    have hcmd : typed (arg :: args) =
        space :: ((if bare arg then arg else quote :: arg ++ [quote]) ++ typed args) := rfl
    cases hbare : bare arg with
    | true =>
      rw [hbare] at hcmd
      obtain ⟨hne, hhead, hall⟩ := of_decide_eq_true hbare
      obtain ⟨c, word, rfl⟩ := exists_cons_of_ne_nil hne
      rw [all_cons, Bool.and_eq_true, Bool.not_eq_true', all_eq_true] at hall
      have hdrop : (typed ((c :: word) :: args)).dropWhile isBlank = c :: (word ++ typed args) := by
        rw [hcmd]
        exact dropWhile_cons_of_neg (Bool.not_eq_true _ ▸ hall.1)
      have hend : (typed args).takeWhile (!isBlank ·) = [] ∧
          (typed args).dropWhile (!isBlank ·) = typed args := by
        cases args with
        | nil | cons => exact ⟨rfl, rfl⟩
      rw [tokens_word hdrop fun hc => hhead (congrArg some hc), takeWhile_append_of_pos hall.2,
        dropWhile_append_of_pos hall.2, hend.1, hend.2, append_nil, ih hrest]
    | false =>
      rw [hbare, if_neg Bool.false_ne_true] at hcmd
      obtain ⟨hquote, hlast⟩ := harg.2 hbare
      have hdrop : (typed (arg :: args)).dropWhile isBlank = quote :: (arg ++ quote :: typed args) := by
        rw [hcmd, append_assoc]
        rfl
      have hlast' : (quote :: arg).getLast? ≠ some backslash := by
        cases arg with
        | nil => decide
        | cons c word => rwa [List.getLast?_cons_cons]
      rw [tokens_quote hdrop, closing_append hquote hlast', take_left, drop_append,
        Nat.add_sub_cancel_left, drop_of_length_le (Nat.le_succ _), nil_append,
        drop_succ_cons, drop_zero, ih hrest]

/-- What is typed is split into what was meant, as long as there is room for so many arguments. -/
theorem mshSplit_typed (before : List UInt8) {args : List (List UInt8)} (hargs : ∀ arg ∈ args, Typable arg)
    (hroom : args.length ≤ finshArgMax) (after : List UInt8) : ∃ cmd' argv,
      mshSplit finshArgMax (before.length + (typed args).length) (before ++ (typed args ++ 0 :: after))
        before.length [] = some (before ++ (cmd' ++ 0 :: after), argv) ∧
      argv.map (Cells.string (before ++ (cmd' ++ 0 :: after))) = args.map some := by
  have hcmd : 0 ∉ typed args := by
    intro hmem
    obtain ⟨arg, harg, hmem⟩ := List.mem_flatMap.mp hmem
    have hne := (hargs arg harg).1
    split_ifs at hmem <;> simp [space, quote, hne] at hmem
  have hnone : ∀ ptr ∈ ([] : List Nat), ptr ≤ before.length + (typed args).length :=
    fun ptr hptr => absurd hptr List.not_mem_nil
  obtain ⟨cmd', argv, hsplit, hsplits⟩ := mshSplit_split finshArgMax before hcmd after hnone
  refine ⟨cmd', argv, hsplit, ?_⟩
  rw [hsplits.argv, tokens_typed hargs, List.take_of_length_le hroom]

/-- `say`, `a b` and nothing. -/
theorem mshSplit_typed_three : ∃ cmd' argv,
    mshSplit finshArgMax (typed [[115, 97, 121], [97, 32, 98], []]).length
      (typed [[115, 97, 121], [97, 32, 98], []] ++ [0]) 0 [] = some (cmd' ++ [0], argv) ∧
    argv.map (Cells.string (cmd' ++ [0])) = [some [115, 97, 121], some [97, 32, 98], some []] := by
  have hargs : ∀ arg ∈ ([[115, 97, 121], [97, 32, 98], []] : List (List UInt8)), Typable arg := by
    unfold Typable
    decide
  simpa only [List.nil_append, List.length_nil, Nat.zero_add, List.map_cons, List.map_nil] using
    mshSplit_typed [] hargs (by decide) []

end RtKernel.Finsh
