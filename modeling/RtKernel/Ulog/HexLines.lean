import RtKernel.Ulog.Hexdump

/-!
# The lines of a dump

The turns of the loop are numbered. While all goes well each of them leaves the rest of the memory
alone; the first that does not stores a byte beside the buffer, which stays there.
-/

namespace RtKernel.LogLine

open Print List

section

variable {b : Build} {e : Env} {buf : Nat} {d : Dump} {mem mem' : Nat → UInt8} {s : Line}
  {h h' : Hex} {i : Nat}

/-- The state before the `k`-th turn. -/
def hexAt (b : Build) (e : Env) (buf : Nat) (d : Dump) (h : Hex) : Nat → Hex
  | 0 => h
  | k + 1 => hexLine b e buf d (k * d.width % 2 ^ 32) (hexAt b e buf d h k)

/-- The turn takes place. -/
def Dump.Visits (d : Dump) (k : Nat) : Prop := ∀ j ≤ k, j * d.width % 2 ^ 32 < d.size

theorem add32_turn (d : Dump) (k : Nat) :
    add32 (k * d.width % 2 ^ 32) d.width = (k + 1) * d.width % 2 ^ 32 := by
  rw [add32, Nat.mod_add_mod, Nat.add_mul, Nat.one_mul]

variable {k : Nat}

theorem Dump.Visits.next (hk : ∀ j < k, d.Visits j)
    (hsize : k * d.width % 2 ^ 32 < d.size) : d.Visits k := by
  intro j hj
  rcases Nat.lt_or_eq_of_le hj with hlt | rfl
  · exact hk j hlt j le_rfl
  · exact hsize

/-- The loop ends in the state before a turn that does not take place. -/
theorem hexLoop_some {fuel k : Nat} {h₀ h' : Hex} (hk : ∀ j < k, d.Visits j)
    (h : hexLoop b e buf d fuel (k * d.width % 2 ^ 32) (hexAt b e buf d h₀ k) = some h') :
    ∃ n, (∀ j < n, d.Visits j) ∧ d.size ≤ n * d.width % 2 ^ 32 ∧ h' = hexAt b e buf d h₀ n := by
  induction fuel generalizing k with
  | zero =>
    rw [hexLoop] at h
    split_ifs at h with hsize
    exact ⟨k, hk, Nat.not_lt.mp hsize, (Option.some.inj h).symm⟩
  | succ fuel ih =>
    rw [hexLoop] at h
    split_ifs at h with hsize
    · rw [add32_turn] at h
      refine ih (k := k + 1) (fun j hj => ?_) h
      rcases Nat.lt_or_eq_of_le (Nat.le_of_lt_succ hj) with hlt | rfl
      · exact hk j hlt
      · exact Dump.Visits.next hk hsize
    · exact ⟨k, hk, Nat.not_lt.mp hsize, (Option.some.inj h).symm⟩

/-- With as many turns as there are the loop ends. -/
theorem hexLoop_eq {n k fuel : Nat} {h₀ : Hex} (hn : ∀ j < n, d.Visits j)
    (hend : d.size ≤ n * d.width % 2 ^ 32) (hk : k + fuel = n) :
    hexLoop b e buf d fuel (k * d.width % 2 ^ 32) (hexAt b e buf d h₀ k) =
      some (hexAt b e buf d h₀ n) := by
  induction fuel generalizing k with
  | zero =>
    obtain rfl : k = n := hk
    rw [hexLoop, if_neg (by omega)]
  | succ fuel ih =>
    rw [hexLoop, if_pos (hn k (by omega) k le_rfl), add32_turn]
    exact ih (k := k + 1) (by omega)

variable {n k : Nat} {a : Nat}

/-- While the loop goes on, the counter does not come back to the beginning. -/
theorem Dump.Visits.ne_zero (hend : d.size ≤ n * d.width % 2 ^ 32) (hk : d.Visits k)
    (hpos : 0 < k) : k * d.width % 2 ^ 32 ≠ 0 := by
  intro hzero
  have hsame : n * d.width % 2 ^ 32 = n % k * d.width % 2 ^ 32 := by
    conv_lhs => rw [← Nat.div_add_mod n k]
    rw [Nat.add_mul, Nat.mul_right_comm, Nat.add_mod, Nat.mul_mod, hzero, Nat.zero_mul,
      Nat.zero_mod, Nat.zero_add, Nat.mod_mod]
  have hlt := hk (n % k) (Nat.mod_lt n hpos).le
  omega

/-- When a turn does what it is to do: there is a buffer, and the head and the addresses fit. -/
def LineFits (b : Build) (e : Env) (d : Dump) (k : Nat) : Prop :=
  getLogBuf b e ≠ 0 ∧
    (hexHead b e d.tag).length + (addressText d (k * d.width % 2 ^ 32)).length ≤ b.lineBufSize

/-- When `ulog_hexdump` does what it is to do. -/
structure HexFits (b : Build) (e : Env) (d : Dump) : Prop where
  initOk : e.initOk = true
  ends : e.filtered = false → ∃ n, d.size ≤ n * d.width % 2 ^ 32
  lines : e.filtered = false → ∀ k, d.Visits k → LineFits b e d k

/-- What holds before the `k`-th turn. -/
structure HexInv (b : Build) (e : Env) (mem : Nat → UInt8) (k : Nat) (h : Hex) : Prop where
  fresh : k = 0 → h.line.len = 0 ∧ h.timeHeadLen = 0
  time : 0 < k → h.timeHeadLen = (hexTimeHead b e).length
  frame : ∀ a, a < getLogBuf b e ∨ getLogBuf b e + b.lineBufSize < a → h.line.mem a = mem a
  strings : ∀ s ∈ h.passed, StringAt s.mem (getLogBuf b e) s.len

/-- The head of a line, first or not. -/
def headOf (b : Build) (e : Env) (buf : Nat) (d : Dump) (i : Nat) (h : Hex) : Hex :=
  if i = 0 then firstHead b e buf d h else nextHead b buf d h

/-- The text of the head. -/
def headText (b : Build) (e : Env) (d : Dump) (i : Nat) : List UInt8 :=
  if i = 0 then hexHead b e d.tag else List.replicate (hexHead b e d.tag).length (ch ' ')

theorem length_headText (b : Build) (e : Env) (d : Dump) (i : Nat) :
    (headText b e d i).length = (hexHead b e d.tag).length := by
  unfold headText
  split_ifs
  · rfl
  · exact length_replicate

theorem headText_ne_zero (b : Build) (e : Env) (d : Dump) (i : Nat) : 0 ∉ headText b e d i := by
  unfold headText
  split_ifs
  · exact hexHead_ne_zero b e d.tag
  · rw [mem_replicate, not_and]
    exact fun _ => by decide

theorem HexInv.head (hinv : HexInv b e mem k h) (hi : i = 0 ↔ k = 0)
    (hle : 0 < k → (hexHead b e d.tag).length ≤ b.lineBufSize) :
    Fills b (getLogBuf b e) mem (clip b (headText b e d i))
        (headOf b e (getLogBuf b e) d i h).line ∧
      (headOf b e (getLogBuf b e) d i h).passed = h.passed ∧
      (headOf b e (getLogBuf b e) d i h).timeHeadLen = (hexTimeHead b e).length := by
  have hroom := getLogBuf_room b e
  unfold headOf headText
  rcases Nat.eq_zero_or_pos k with rfl | hpos
  · have hnil : Fills b (getLogBuf b e) mem [] h.line :=
      ⟨(hinv.fresh rfl).1, fun _ hk => absurd hk (Nat.not_lt_zero _), hinv.frame⟩
    rw [if_pos (hi.mpr rfl), if_pos (hi.mpr rfl)]
    exact firstHead_fills hroom hnil (hinv.fresh rfl).2
  · have hne : i ≠ 0 := fun hzero => hpos.ne' (hi.mp hzero)
    have hnext := nextHead_fills (getLogBuf b e) (hle hpos) (hinv.time hpos) hinv.frame
    rw [if_neg hne, if_neg hne, clip_of_le (by rw [length_replicate]; exact hle hpos)]
    exact ⟨hnext, rfl, hinv.time hpos⟩

theorem HexInv.line (hinv : HexInv b e mem k h) (hi : i = 0 ↔ k = 0)
    (hfits : (hexHead b e d.tag).length + (addressText d i).length ≤ b.lineBufSize) :
    HexInv b e mem (k + 1) (hexLine b e (getLogBuf b e) d i h) := by
  have hroom := getLogBuf_room b e
  have hlen := length_headText b e d i
  obtain ⟨hhead, hpassed, htime⟩ := hinv.head (d := d) hi fun _ => by omega
  rw [clip_of_le (by omega)] at hhead
  have haddresses := addAddresses_fills (d := d) (i := i) hroom hhead (by omega)
  have hclean : Clean b (getLogBuf b e) mem
      (addAddresses b (getLogBuf b e) d i (headOf b e (getLogBuf b e) d i h).line) := by
    refine ⟨headText b e d i ++ addressText d i, ?_, ?_⟩
    · rw [mem_append, not_or]
      exact ⟨headText_ne_zero b e d i, addressText_ne_zero d i⟩
    · rw [clip_of_le (by rw [length_append]; omega)]
      exact haddresses
  obtain ⟨l, hl, hbytes, hend⟩ := hclean.addBytes (d := d) hroom i
  refine ⟨fun hzero => absurd hzero (Nat.succ_ne_zero k), fun _ => htime, hbytes.frame, ?_⟩
  intro s hs
  change s ∈ (headOf b e (getLogBuf b e) d i h).passed ++ [_] at hs
  rw [hpassed, mem_append, mem_singleton] at hs
  rcases hs with hold | rfl
  · exact hinv.strings s hold
  · have hstring := hbytes.reads.stringAt hl hend
    rw [← hbytes.length] at hstring
    exact hstring

/-- Two states are alike at an address. -/
def Hex.Alike (a : Nat) (h h' : Hex) : Prop :=
  Line.Alike a h.line h'.line ∧ h.timeHeadLen = h'.timeHeadLen

theorem addAddresses_alike {s' : Line} (h : Line.Alike a s s') (i : Nat) :
    Line.Alike a (addAddresses b buf d i s) (addAddresses b buf d i s') := by
  unfold addAddresses
  dsimp only
  rw [← h.1, rtVsnprintf_snd _ (add32_lt ..), rtVsnprintf_snd _ (add32_lt ..)]
  exact ⟨rfl, rtVsnprintf_alike _ _ _ _ h.2⟩

theorem hexLine_alike {h' : Hex} (halike : Hex.Alike a h h') (hi : i ≠ 0) :
    Hex.Alike a (hexLine b e buf d i h) (hexLine b e buf d i h') := by
  have hhead : Line.Alike a (nextHead b buf d h).line (nextHead b buf d h').line := by
    unfold nextHead
    dsimp only
    rw [← halike.2, Kservice.rtMemset_eq, Kservice.rtMemset_eq]
    refine ⟨rfl, ?_⟩
    unfold filled
    dsimp only
    rw [halike.1.2]
  unfold hexLine
  rw [if_neg hi, if_neg hi]
  exact ⟨addBytes_alike (addAddresses_alike hhead i) i, halike.2⟩

/-- Of a turn that does not do what it is to do, a byte beside the buffer does not depend on what
was there. -/
theorem HexInv.beyond (hinv : HexInv b e mem k h) (hinv' : HexInv b e mem' k h')
    (hi : i = 0 ↔ k = 0) (hle : 0 < k → (hexHead b e d.tag).length ≤ b.lineBufSize)
    (hno : ¬ (getLogBuf b e ≠ 0 ∧
      (hexHead b e d.tag).length + (addressText d i).length ≤ b.lineBufSize)) :
    ∃ a, ¬ Inside b e a ∧ Hex.Alike a (hexLine b e (getLogBuf b e) d i h)
      (hexLine b e (getLogBuf b e) d i h') := by
  have hroom := getLogBuf_room b e
  have hmore := b.more
  have hlen := length_headText b e d i
  have hsign := length_hexHead b e d.tag
  have haddress := length_addressText d i
  obtain ⟨hhead, -, htime⟩ := hinv.head (d := d) hi hle
  obtain ⟨hhead', -, htime'⟩ := hinv'.head (d := d) hi hle
  have hclip : (clip b (headText b e d i)).length =
      min b.lineBufSize (hexHead b e d.tag).length := by
    rw [clip, length_take, hlen]
  have hline := hhead.length
  have hsame : (headOf b e (getLogBuf b e) d i h).line.len =
      (headOf b e (getLogBuf b e) d i h').line.len := hline.trans hhead'.length.symm
  suffices hbyte : ∃ a, ¬ Inside b e a ∧
      Line.Alike a (addAddresses b (getLogBuf b e) d i (headOf b e (getLogBuf b e) d i h).line)
        (addAddresses b (getLogBuf b e) d i (headOf b e (getLogBuf b e) d i h').line) by
    obtain ⟨a, hout, halike⟩ := hbyte
    exact ⟨a, hout, addBytes_alike halike i, htime.trans htime'.symm⟩
  by_cases hnull : getLogBuf b e = 0
  · -- without a buffer the first character is stored at the null pointer
    refine ⟨0, fun hin => hin.1 hnull, addAddresses_alike ⟨hsame, ?_⟩ i⟩
    have h₀ := hhead.reads 0 (by omega)
    have h₀' := hhead'.reads 0 (by omega)
    have hat : getLogBuf b e + 0 = 0 := hnull
    rw [hat] at h₀ h₀'
    exact h₀.trans h₀'.symm
  · refine ⟨_, fun hin => ?_, addAddresses_end hroom hsame (by omega)⟩
    have hbound := hin.2.2
    omega

theorem Dump.Visits.zero_iff (hend : d.size ≤ n * d.width % 2 ^ 32) (hk : d.Visits k) :
    k * d.width % 2 ^ 32 = 0 ↔ k = 0 := by
  constructor
  · intro hzero
    by_contra hne
    exact hk.ne_zero hend (Nat.pos_of_ne_zero hne) hzero
  · rintro rfl
    rw [Nat.zero_mul, Nat.zero_mod]

/-- The state that the loop begins in. -/
def hexStart (mem : Nat → UInt8) : Hex :=
  { line := { mem, len := 0 }, timeHeadLen := 0, passed := [] }

theorem hexStart_inv (b : Build) (e : Env) (mem : Nat → UInt8) : HexInv b e mem 0 (hexStart mem) :=
  ⟨fun _ => ⟨rfl, rfl⟩, fun hpos => absurd hpos (lt_irrefl 0), fun _ _ => rfl,
    forall_mem_nil _⟩

/-- The turns before `k` have done what they are to do. -/
theorem hexAt_inv (hend : d.size ≤ n * d.width % 2 ^ 32)
    (hfits : ∀ j < k, d.Visits j ∧ LineFits b e d j) (mem : Nat → UInt8) :
    HexInv b e mem k (hexAt b e (getLogBuf b e) d (hexStart mem) k) := by
  induction k with
  | zero => exact hexStart_inv b e mem
  | succ k ih =>
    obtain ⟨hvisits, hline⟩ := hfits k (Nat.lt_succ_self k)
    exact (ih fun j hj => hfits j (Nat.lt_succ_of_lt hj)).line (hvisits.zero_iff hend) hline.2

theorem ulogHexdump_eq (hinit : e.initOk = true) (hpass : e.filtered = false) (fuel : Nat)
    (mem : Nat → UInt8) : ulogHexdump b e buf d fuel mem =
      hexLoop b e buf d fuel (0 * d.width % 2 ^ 32) (hexAt b e buf d (hexStart mem) 0) := by
  rw [Nat.zero_mul, Nat.zero_mod]
  unfold ulogHexdump
  rw [if_pos hinit, hpass, if_neg Bool.false_ne_true]
  rfl

theorem HexFits.kept (hfits : HexFits b e d) :
    ∃ fuel, ∀ mem, ∃ h, ulogHexdump b e (getLogBuf b e) d fuel mem = some h ∧
      Ends b e mem h.line.mem h.passed := by
  cases hpass : e.filtered with
  | true =>
    refine ⟨0, fun mem => ⟨hexStart mem, ?_, fun _ _ => rfl, forall_mem_nil _⟩⟩
    unfold ulogHexdump
    rw [if_pos hfits.initOk, if_pos hpass]
    rfl
  | false =>
    obtain ⟨n, hend, hleast⟩ : ∃ n, d.size ≤ n * d.width % 2 ^ 32 ∧
        ∀ j < n, j * d.width % 2 ^ 32 < d.size := by
      have hex := hfits.ends hpass
      refine ⟨Nat.find hex, Nat.find_spec hex, fun j hj => ?_⟩
      exact Nat.not_le.mp (Nat.find_min hex hj)
    have hvisits : ∀ j < n, d.Visits j := fun j hj i hi => hleast i (lt_of_le_of_lt hi hj)
    refine ⟨n, fun mem => ⟨hexAt b e (getLogBuf b e) d (hexStart mem) n, ?_, ?_⟩⟩
    · rw [ulogHexdump_eq hfits.initOk hpass]
      exact hexLoop_eq hvisits hend (Nat.zero_add n)
    · have hinv := hexAt_inv hend
        (fun j hj => ⟨hvisits j hj, hfits.lines hpass j (hvisits j hj)⟩) mem
      refine ⟨fun a ha => ?_, hinv.strings⟩
      rcases Nat.eq_zero_or_pos n with rfl | hpos
      · rfl
      · have hnull := (hfits.lines hpass 0 (hvisits 0 hpos)).1
        apply hinv.frame
        unfold Inside at ha
        omega

theorem hexFits_of_kept (fuel : Nat)
    (hkept : ∀ mem, ∃ h, ulogHexdump b e (getLogBuf b e) d fuel mem = some h ∧
      Ends b e mem h.line.mem h.passed) : HexFits b e d := by
  obtain ⟨h, heq, hends⟩ := hkept fun _ => 0
  obtain ⟨h', heq', hends'⟩ := hkept fun _ => 1
  have hinit : e.initOk = true := by
    unfold ulogHexdump at heq
    split_ifs at heq with hinit
    · exact hinit
    · exact hinit
  have hfirst : ∀ j < 0, d.Visits j := fun j hj => absurd hj (Nat.not_lt_zero j)
  refine ⟨hinit, fun hpass => ?_, fun hpass k hk => ?_⟩
  · rw [ulogHexdump_eq hinit hpass] at heq
    obtain ⟨n, -, hend, -⟩ := hexLoop_some hfirst heq
    exact ⟨n, hend⟩
  · rw [ulogHexdump_eq hinit hpass] at heq heq'
    obtain ⟨n, hvisits, hend, rfl⟩ := hexLoop_some hfirst heq
    obtain ⟨n', hvisits', hend', rfl⟩ := hexLoop_some hfirst heq'
    have hsame : n = n' := by
      rcases Nat.lt_trichotomy n n' with hlt | heq | hgt
      · have hn := hvisits' n hlt n le_rfl
        omega
      · exact heq
      · have hn := hvisits n' hgt n' le_rfl
        omega
    subst hsame
    -- of the turns that do not do what they are to do, the first
    induction k using Nat.strongRecOn with
    | ind k ih =>
      by_contra hno
      have hlt : k < n := by
        by_contra hge
        have hn := hk n (Nat.not_lt.mp hge)
        omega
      have hbefore : ∀ j < k, d.Visits j ∧ LineFits b e d j := by
        intro j hj
        have hj' : d.Visits j := fun i hi => hk i (by omega)
        exact ⟨hj', ih j hj hj'⟩
      obtain ⟨a, hout, halike⟩ := (hexAt_inv hend hbefore fun _ => 0).beyond
        (hexAt_inv hend hbefore fun _ => 1) (hk.zero_iff hend)
        (fun hpos => (Nat.le_add_right _ _).trans (hbefore 0 hpos).2.2) hno
      have hrest : ∀ m, k + 1 + m ≤ n →
          Hex.Alike a (hexAt b e (getLogBuf b e) d (hexStart fun _ => 0) (k + 1 + m))
            (hexAt b e (getLogBuf b e) d (hexStart fun _ => 1) (k + 1 + m)) := by
        intro m hm
        induction m with
        | zero => exact halike
        | succ m ihm =>
          have hne := (hvisits (k + 1 + m) (by omega)).ne_zero hend (by omega)
          exact hexLine_alike (ihm (by omega)) hne
      have hlast := hrest (n - (k + 1)) (by omega)
      rw [show k + 1 + (n - (k + 1)) = n by omega] at hlast
      exact hends.false_of_alike hends' hout hlast.1.2

end

end RtKernel.LogLine
