import RtKernel.Ulog.Formater

/-!
# Where a line ends

`ulog_raw` and `ulog_formater` are to write in the log buffer only, and to pass on the length of the
string that they leave there. When they do is said by the lengths of what is put together.
-/

namespace RtKernel.LogLine

open Print List

section

variable {b : Build} {e : Env} {buf level : Nat} {tag : CString} {mem : Nat → UInt8}
  {l t fmt : List UInt8} {args : Args} {s : Line}

theorem getLogBuf_room (b : Build) (e : Env) : getLogBuf b e + b.lineBufSize + 32 < 2 ^ 32 := by
  have hth := b.thRoom
  have hisr := b.isrRoom
  unfold getLogBuf
  split_ifs
  · exact hth
  · exact hisr
  · omega

/-- The `ULOG_LINE_BUF_SIZE + 1` bytes of the buffer. -/
def Inside (b : Build) (e : Env) (a : Nat) : Prop :=
  getLogBuf b e ≠ 0 ∧ getLogBuf b e ≤ a ∧ a ≤ getLogBuf b e + b.lineBufSize

/-- A call has written in the buffer only, and each length that it has passed on is that of the
string in the buffer. -/
structure Ends (b : Build) (e : Env) (mem after : Nat → UInt8) (passed : List Line) : Prop where
  inside : ∀ a, ¬ Inside b e a → after a = mem a
  strings : ∀ s ∈ passed, StringAt s.mem (getLogBuf b e) s.len

theorem Fills.ends (h : Fills b (getLogBuf b e) mem l s) (hnull : getLogBuf b e ≠ 0) (hl : 0 ∉ l)
    (hend : s.mem (getLogBuf b e + l.length) = 0) : Ends b e mem s.mem [s] := by
  refine ⟨fun a ha => h.frame a ?_, forall_mem_singleton.mpr ?_⟩
  · unfold Inside at ha
    omega
  · rw [h.length]
    exact h.reads.stringAt hl hend

/-- A byte beside the buffer does not end as it was, whatever it was. -/
theorem Ends.false_of_alike {after after' : Nat → UInt8} {passed passed' : List Line} {a : Nat}
    (h : Ends b e (fun _ => 0) after passed) (h' : Ends b e (fun _ => 1) after' passed')
    (hout : ¬ Inside b e a) (hsame : after a = after' a) : False := by
  have hne : (0 : UInt8) ≠ 1 := by decide
  exact hne ((h.inside a hout).symm.trans (hsame.trans (h'.inside a hout)))

/-- When `ulog_raw` does what it is to do. -/
structure RawFits (b : Build) (e : Env) (fmt : List UInt8) (args : Args) : Prop where
  initOk : e.initOk = true
  buffer : getLogBuf b e ≠ 0
  short : (text fmt args).length < b.lineBufSize
  noZero : 0 ∉ text fmt args

theorem Fills.nil (b : Build) (buf : Nat) (mem : Nat → UInt8) :
    Fills b buf mem [] { mem, len := 0 } :=
  ⟨rfl, fun _ hi => absurd hi (Nat.not_lt_zero _), fun _ _ => rfl⟩

/-- What `ulog_raw` stores where its place does not come round. -/
theorem ulogRaw_mem (fmt : List UInt8) (args : Args) (mem : Nat → UInt8)
    (hend : getLogBuf b e + (text fmt args).length < 2 ^ 32) :
    (rtVsnprintf mem (getLogBuf b e) b.lineBufSize fmt args).1 =
      overwritten mem (getLogBuf b e) (cut b.lineBufSize (text fmt args)) := by
  have hroom := getLogBuf_room b e
  have hmore := b.more
  exact rtVsnprintf_fst mem (by omega) (by omega) hend

theorem ulogRaw_short (hinit : e.initOk = true) (hshort : (text fmt args).length < b.lineBufSize)
    (mem : Nat → UInt8) : ∃ s, ulogRaw b e (getLogBuf b e) mem fmt args = some s ∧
      Fills b (getLogBuf b e) mem (text fmt args) s ∧
      s.mem (getLogBuf b e + (text fmt args).length) = 0 := by
  have hroom := getLogBuf_room b e
  have hless := b.less
  obtain ⟨t, ht⟩ : ∃ t, t = text fmt args := ⟨_, rfl⟩
  have hcut : cut b.lineBufSize t = t ++ [0] :=
    congrArg (· ++ [0]) (take_of_length_le (by rw [ht]; omega))
  have hmem := ulogRaw_mem (b := b) (e := e) fmt args mem (by omega)
  have hfills := (Fills.nil b (getLogBuf b e) mem).overwritten (t := t ++ [0]) (n := t.length)
    (by rw [length_append, length_nil, length_singleton, ht]; omega) (by simp)
  have hzero : overwritten mem (getLogBuf b e) (t ++ [0]) (getLogBuf b e + t.length) = 0 :=
    (overwritten_reads _ _ _ t.length (by simp)).trans (by simp)
  rw [take_left, nil_append] at hfills
  rw [Nat.add_zero, Nat.zero_add] at hfills
  unfold ulogRaw
  rw [if_pos hinit]
  dsimp only
  rw [rtVsnprintf_snd _ (by omega), int32_of_lt (by omega), hmem, if_pos (by omega),
    Int.toNat_natCast, ← ht, hcut]
  exact ⟨_, rfl, hfills, hzero⟩

theorem RawFits.kept (h : RawFits b e fmt args) (mem : Nat → UInt8) :
    ∃ s, ulogRaw b e (getLogBuf b e) mem fmt args = some s ∧ Ends b e mem s.mem [s] := by
  obtain ⟨s, heq, hfills, hzero⟩ := ulogRaw_short h.initOk h.short mem
  exact ⟨s, heq, hfills.ends h.buffer h.noZero hzero⟩

/-- A place at the beginning of the address space is written to. -/
theorem ulogRaw_low {s s' : Line} (h : ulogRaw b e (getLogBuf b e) (fun _ => 0) fmt args = some s)
    (h' : ulogRaw b e (getLogBuf b e) (fun _ => 1) fmt args = some s')
    (hlow : getLogBuf b e = 0 ∨ 2 ^ 32 ≤ getLogBuf b e + (text fmt args).length) :
    s.mem 0 = s'.mem 0 := by
  have hroom := getLogBuf_room b e
  have hmore := b.more
  obtain ⟨buf, hbuf⟩ : ∃ buf, buf = getLogBuf b e := ⟨_, rfl⟩
  rw [← hbuf] at h h' hlow hroom
  have hadd : add32 buf b.lineBufSize = buf + b.lineBufSize := add32_eq (by omega)
  have hstop : stopOf buf b.lineBufSize = buf + b.lineBufSize := by
    rw [stopOf, hadd, if_neg (by omega)]
  have hsize : roomOf buf b.lineBufSize = b.lineBufSize := by
    rw [roomOf, hadd, if_neg (by omega)]
  have hhit := rtVsnprintf_hit (fun _ => 0) (fun _ => 1) b.lineBufSize fmt args
    (k := if buf = 0 then 0 else 2 ^ 32 - buf) (show buf < 2 ^ 32 by omega)
    (by split_ifs <;> omega) (by rw [hstop]; split_ifs <;> omega) (fun _ => by omega)
  have hat : (buf + if buf = 0 then 0 else 2 ^ 32 - buf) % 2 ^ 32 = 0 := by
    split_ifs <;> omega
  rw [hat] at hhit
  unfold ulogRaw at h h'
  split_ifs at h h'
  cases h
  cases h'
  exact hhit

theorem rawFits_of_kept
    (h : ∀ mem, ∃ s, ulogRaw b e (getLogBuf b e) mem fmt args = some s ∧ Ends b e mem s.mem [s]) :
    RawFits b e fmt args := by
  have hmore := b.more
  obtain ⟨s, heq, hends⟩ := h fun _ => 0
  obtain ⟨s', heq', hends'⟩ := h fun _ => 1
  have hinit : e.initOk = true := by
    unfold ulogRaw at heq
    split_ifs at heq with hinit
    exact hinit
  have hout : ¬ Inside b e 0 := fun hin => hin.1 (Nat.le_zero.mp hin.2.1)
  have hlow := ulogRaw_low heq heq'
  have hbuffer : getLogBuf b e ≠ 0 :=
    fun hnull => hends.false_of_alike hends' hout (hlow (.inl hnull))
  have hround : ¬ 2 ^ 32 ≤ getLogBuf b e + (text fmt args).length :=
    fun hge => hends.false_of_alike hends' hout (hlow (.inr hge))
  have hshort : (text fmt args).length < b.lineBufSize := by
    by_contra hlong
    -- the terminator lies before the length that is passed on
    have hstring := hends.strings s (mem_singleton_self s)
    obtain ⟨t, ht⟩ : ∃ t, t = text fmt args := ⟨_, rfl⟩
    have hmem := ulogRaw_mem (b := b) (e := e) fmt args (fun _ => 0) (by omega)
    have htake : (t.take (b.lineBufSize - 1)).length = b.lineBufSize - 1 := by
      rw [length_take, ht]
      omega
    have hcut : cut b.lineBufSize t = t.take (b.lineBufSize - 1) ++ [0] := rfl
    have hend : overwritten (fun _ => 0) (getLogBuf b e) (cut b.lineBufSize t)
        (getLogBuf b e + (b.lineBufSize - 1)) = 0 := by
      rw [overwritten_reads _ _ _ (b.lineBufSize - 1)
        (by rw [hcut, length_append, htake]; simp)]
      simp [hcut, htake]
    unfold ulogRaw at heq
    rw [if_pos hinit] at heq
    dsimp only at heq
    rw [rtVsnprintf_snd _ (by omega), hmem, ← ht] at heq
    rw [← ht] at hlong hround
    have hs := (Option.some.inj heq).symm
    have hlen : s.len = b.lineBufSize := by
      rw [hs]
      dsimp only
      split_ifs with hboth
      · rcases Nat.lt_or_ge t.length (2 ^ 31) with hsmall | hlarge
        · rw [int32_of_lt hsmall] at hboth ⊢
          omega
        · have hneg := int32_neg hlarge (by omega)
          omega
      · rfl
    refine hstring.chars (b.lineBufSize - 1) (by omega) ?_
    rw [hs]
    exact hend
  refine ⟨hinit, hbuffer, hshort, ?_⟩
  obtain ⟨r, hr, hfills, -⟩ := ulogRaw_short hinit hshort fun _ => 0
  cases heq.symm.trans hr
  exact (hends.strings s (mem_singleton_self s)).not_mem hfills.reads hfills.length.ge

/-- When `ulog_formater` does what it is to do: all that it asserts is so, the name does not go
beyond the line, the message does not come round and has no terminator where it is kept. -/
structure FormaterFits (b : Build) (e : Env) (level : Nat) (tag : CString) (fmt : List UInt8)
    (args : Args) : Prop where
  buffer : getLogBuf b e ≠ 0
  known : level ≤ 7
  info : b.outputLevel = true → (levelOutputInfo level).isSome = true
  name : (named b e level tag).length ≤ b.lineBufSize
  placed : Placed b (getLogBuf b e) (head b e level tag).length (text fmt args).length
  noZero : 0 ∉ (text fmt args).take
    (b.lineBufSize - reserved b - (head b e level tag).length)

/-- Up to the message, where all is so that is asserted. -/
theorem ulogFormater_eq (hbuf : buf + b.lineBufSize + 32 < 2 ^ 32) (hnull : buf ≠ 0)
    (hlevel : level ≤ 7) (hinfo : b.outputLevel = true → (levelOutputInfo level).isSome = true)
    (mem : Nat → UInt8) (tag : CString) :
    ∃ s, (addThread b e buf s).len = (named b e level tag).length ∧
      ((named b e level tag).length ≤ b.lineBufSize →
        Fills b buf mem (named b e level tag) (addThread b e buf s)) ∧
      ∀ newline fmt args, ulogFormater b e buf mem level tag newline fmt args =
        some (addMessage b buf level newline fmt args (addThread b e buf s)) := by
  have hmore := b.more
  have hcolorle := (colorText_spec b level).2
  have hstamp := length_stampText b e
  have hnil : Fills b buf mem (clip b []) { mem, len := 0 } := by
    rw [clip, take_nil]
    exact Fills.nil b buf mem
  have hcolor := (hnil.addColor hbuf level).terminate hbuf (length_clip_le b _)
  obtain ⟨s₁, hs₁⟩ : ∃ s₁, s₁ = terminate buf (addColor b buf level { mem, len := 0 }) := ⟨_, rfl⟩
  rw [← hs₁, clip_of_le (by omega)] at hcolor
  have htime : Fills b buf mem (clip b (colorText b level ++ timeText b e))
      (if b.outputTime then addTime b e buf s₁ else s₁) := by
    unfold timeText
    split_ifs
    · rw [clip_of_le (by rw [length_append]; omega)]
      exact hcolor.addTime hbuf hcolorle
    · rw [append_nil, clip_of_le (by omega)]
      exact hcolor
  obtain ⟨s₂, heq, hlevelled⟩ := htime.addLevel hbuf hinfo
  have htagged := hlevelled.addTag hbuf tag
  obtain ⟨hlen, hfills⟩ := htagged.addThread (e := e) hbuf
  refine ⟨addTag b buf tag s₂, hlen, hfills, fun newline fmt args => ?_⟩
  unfold ulogFormater
  rw [if_neg (by omega), ← hs₁]
  dsimp only
  rw [heq]
  rfl

/-- The line, where what comes before the message fits and the message does not come round. -/
theorem ulogFormater_fills (hnull : getLogBuf b e ≠ 0) (hlevel : level ≤ 7)
    (hinfo : b.outputLevel = true → (levelOutputInfo level).isSome = true)
    (hname : (named b e level tag).length ≤ b.lineBufSize)
    (hplaced : Placed b (getLogBuf b e) (head b e level tag).length (text fmt args).length)
    (newline : Bool) (mem : Nat → UInt8) :
    ∃ s, ulogFormater b e (getLogBuf b e) mem level tag newline fmt args = some s ∧
      Fills b (getLogBuf b e) mem (line b e level tag newline (text fmt args)) s ∧
      s.mem (getLogBuf b e + (line b e level tag newline (text fmt args)).length) = 0 := by
  have hroom := getLogBuf_room b e
  obtain ⟨s, -, hfills, heq⟩ := ulogFormater_eq hroom hnull hlevel hinfo mem tag
  have hmessage := (hfills hname).addMessage hroom hname newline hplaced
  exact ⟨_, heq newline fmt args, hmessage⟩

theorem FormaterFits.kept (h : FormaterFits b e level tag fmt args) (newline : Bool)
    (mem : Nat → UInt8) :
    ∃ s, ulogFormater b e (getLogBuf b e) mem level tag newline fmt args = some s ∧
      Ends b e mem s.mem [s] := by
  obtain ⟨s, heq, hfills, hzero⟩ :=
    ulogFormater_fills h.buffer h.known h.info h.name h.placed newline mem
  refine ⟨s, heq, hfills.ends h.buffer ?_ hzero⟩
  rw [line, take_append, mem_append, mem_append, not_or, not_or]
  exact ⟨⟨fun hmem => head_ne_zero b e level tag (mem_of_mem_take hmem), h.noZero⟩,
    behind_ne_zero b level newline⟩

theorem length_named_le (b : Build) (e : Env) (level : Nat) (tag : CString) :
    (named b e level tag).length ≤ b.lineBufSize + 8 := by
  have hname := length_threadName e
  unfold named
  split_ifs
  · rw [length_append]
    exact Nat.add_le_add (length_clip_le b _) hname
  all_goals exact (length_clip_le b _).trans (Nat.le_add_right _ _)

/-- Where the message begins. -/
def messageAt (b : Build) (e : Env) (level : Nat) (tag : CString) : Nat :=
  if b.lineBufSize < (named b e level tag).length then (named b e level tag).length
  else (head b e level tag).length

theorem strcpy_len_eq (hbuf : buf + b.lineBufSize + 32 < 2 ^ 32)
    (hlen : s.len = (named b e level tag).length)
    (hfills : (named b e level tag).length ≤ b.lineBufSize →
      Fills b buf mem (named b e level tag) s) :
    (strcpy b buf [ch ':', ch ' '] s).len = messageAt b e level tag := by
  have hname := length_named_le b e level tag
  unfold messageAt
  split_ifs with hlong
  · have hnone : b.lineBufSize - s.len = 0 := by omega
    rw [strcpy_eq hbuf (by omega), hnone]
    exact hlen
  · have hclip : Fills b buf mem (clip b (named b e level tag)) s := by
      rw [clip_of_le (by omega)]
      exact hfills (by omega)
    exact (hclip.strcpy hbuf [ch ':', ch ' ']).length

variable {newline : Bool} {p : Nat}

/-- A byte at which the message leaves two memories alike is alike when the line is complete. -/
theorem ulogFormater_alike {a : Nat} {s s' : Line} (hnull : getLogBuf b e ≠ 0)
    (hlevel : level ≤ 7) (hinfo : b.outputLevel = true → (levelOutputInfo level).isSome = true)
    (h : ulogFormater b e (getLogBuf b e) (fun _ => 0) level tag newline fmt args = some s)
    (h' : ulogFormater b e (getLogBuf b e) (fun _ => 1) level tag newline fmt args = some s')
    (hvsn : ∀ mem mem', (rtVsnprintf mem (add32 (getLogBuf b e) (messageAt b e level tag))
        (sub32 b.lineBufSize (messageAt b e level tag)) fmt args).1 a =
      (rtVsnprintf mem' (add32 (getLogBuf b e) (messageAt b e level tag))
        (sub32 b.lineBufSize (messageAt b e level tag)) fmt args).1 a) :
    s.mem a = s'.mem a := by
  have hroom := getLogBuf_room b e
  obtain ⟨r, hlen, hfills, heq⟩ := ulogFormater_eq hroom hnull hlevel hinfo (fun _ => 0) tag
  obtain ⟨r', hlen', hfills', heq'⟩ := ulogFormater_eq hroom hnull hlevel hinfo (fun _ => 1) tag
  cases h.symm.trans (heq newline fmt args)
  cases h'.symm.trans (heq' newline fmt args)
  exact (addMessage_alike newline (strcpy_len_eq hroom hlen hfills)
    (strcpy_len_eq hroom hlen' hfills') hvsn).2

/-- What is asserted is so where the call comes back. -/
theorem ulogFormater_some {s : Line}
    (h : ulogFormater b e buf mem level tag newline fmt args = some s) :
    buf ≠ 0 ∧ level ≤ 7 ∧ (b.outputLevel = true → (levelOutputInfo level).isSome = true) := by
  unfold ulogFormater at h
  by_cases hnull : buf = 0 ∨ 7 < level
  · rw [if_pos hnull] at h
    cases h
  rw [if_neg hnull] at h
  refine ⟨by omega, by omega, fun hlevel => ?_⟩
  obtain ⟨s', hs', -⟩ := Option.map_eq_some_iff.mp h
  unfold addLevel at hs'
  rw [if_pos hlevel] at hs'
  obtain ⟨info, hinfo, -⟩ := Option.map_eq_some_iff.mp hs'
  rw [hinfo]
  rfl

/-- A name that goes beyond the line takes the message with it. -/
theorem vsn_beyond (mem mem' : Nat → UInt8) (hbuf : buf + b.lineBufSize + 32 < 2 ^ 32)
    (hlong : b.lineBufSize < p) (hp : p ≤ b.lineBufSize + 8) :
    (rtVsnprintf mem (add32 buf p) (sub32 b.lineBufSize p) fmt args).1 (buf + p) =
      (rtVsnprintf mem' (add32 buf p) (sub32 b.lineBufSize p) fmt args).1 (buf + p) := by
  have hat : add32 buf p = buf + p := add32_eq (by omega)
  have hend : add32 (buf + p) (sub32 b.lineBufSize p) < buf + p := by
    unfold add32 sub32
    omega
  have hstop : stopOf (buf + p) (sub32 b.lineBufSize p) = 0xffffffff := if_pos hend
  have hroom : roomOf (buf + p) (sub32 b.lineBufSize p) = 0xffffffff - (buf + p) := by
    rw [roomOf, if_pos hend, sub32_eq (by omega) (by decide)]
  have hhit := rtVsnprintf_hit mem mem' (sub32 b.lineBufSize p) fmt args (k := 0)
    (show buf + p < 2 ^ 32 by omega) (Nat.zero_le _) (by rw [hstop]; omega)
    (fun _ => by rw [hroom]; omega)
  rw [Nat.add_zero, Nat.mod_eq_of_lt (show buf + p < 2 ^ 32 by omega)] at hhit
  rw [hat]
  exact hhit

/-- A message that comes round is stored at the beginning of the address space. -/
theorem vsn_round (mem mem' : Nat → UInt8) (hbuf : buf + b.lineBufSize + 32 < 2 ^ 32)
    (hnull : buf ≠ 0) (hp : p ≤ b.lineBufSize) (hround : ¬ Placed b buf p (text fmt args).length) :
    (rtVsnprintf mem (add32 buf p) (sub32 b.lineBufSize p) fmt args).1 0 =
      (rtVsnprintf mem' (add32 buf p) (sub32 b.lineBufSize p) fmt args).1 0 := by
  have hat : add32 buf p = buf + p := add32_eq (by omega)
  have hsize : sub32 b.lineBufSize p = b.lineBufSize - p := sub32_eq hp (by omega)
  have hadd : add32 (buf + p) (b.lineBufSize - p) = buf + b.lineBufSize := by
    rw [add32_eq (by omega)]
    omega
  have hstop : stopOf (buf + p) (b.lineBufSize - p) = buf + b.lineBufSize := by
    rw [stopOf, hadd, if_neg (by omega)]
  have hroom : roomOf (buf + p) (b.lineBufSize - p) = b.lineBufSize - p := by
    rw [roomOf, hadd, if_neg (by omega)]
  unfold Placed at hround
  have hhit := rtVsnprintf_hit mem mem' (b.lineBufSize - p) fmt args (k := 2 ^ 32 - (buf + p))
    (show buf + p < 2 ^ 32 by omega) (by omega)
    (by rw [hstop]; omega) (fun _ => by rw [hroom]; omega)
  have hzero : (buf + p + (2 ^ 32 - (buf + p))) % 2 ^ 32 = 0 := by omega
  rw [hzero] at hhit
  rw [hat, hsize]
  exact hhit

theorem formaterFits_of_kept
    (h : ∀ mem, ∃ s, ulogFormater b e (getLogBuf b e) mem level tag newline fmt args = some s ∧
      Ends b e mem s.mem [s]) : FormaterFits b e level tag fmt args := by
  have hroom := getLogBuf_room b e
  obtain ⟨s, heq, hends⟩ := h fun _ => 0
  obtain ⟨s', heq', hends'⟩ := h fun _ => 1
  obtain ⟨hnull, hlevel, hinfo⟩ := ulogFormater_some heq
  have halike := fun a => ulogFormater_alike (a := a) hnull hlevel hinfo heq heq'
  have hname : (named b e level tag).length ≤ b.lineBufSize := by
    by_contra hlong
    have hlong := Nat.lt_of_not_ge hlong
    have hp : messageAt b e level tag = (named b e level tag).length := if_pos hlong
    refine hends.false_of_alike hends' ?_ (halike (getLogBuf b e + (named b e level tag).length) ?_)
    · unfold Inside
      omega
    · rw [hp]
      exact fun mem mem' => vsn_beyond mem mem' hroom hlong (length_named_le b e level tag)
  have hplaced : Placed b (getLogBuf b e) (head b e level tag).length (text fmt args).length := by
    by_contra hround
    have hp : messageAt b e level tag = (head b e level tag).length := if_neg (by omega)
    refine hends.false_of_alike hends' ?_ (halike 0 ?_)
    · exact fun hin => hin.1 (Nat.le_zero.mp hin.2.1)
    · rw [hp]
      exact fun mem mem' => vsn_round mem mem' hroom hnull (length_clip_le b _) hround
  refine ⟨hnull, hlevel, hinfo, hname, hplaced, fun hmem => ?_⟩
  obtain ⟨r, hr, hfills, -⟩ :=
    ulogFormater_fills hnull hlevel hinfo hname hplaced newline fun _ => 0
  cases heq.symm.trans hr
  have hline := (hends.strings s (mem_singleton_self s)).not_mem hfills.reads
    hfills.length.ge
  rw [line, take_append, mem_append, mem_append, not_or, not_or] at hline
  exact hline.1.2 hmem

end

end RtKernel.LogLine
