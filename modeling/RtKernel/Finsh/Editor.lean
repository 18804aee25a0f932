import RtKernel.Core.Recent
import RtKernel.Finsh.Shell
import Mathlib.Data.List.GetD

/-!
# A line editor

What the shell's line and history should be after some keys. A line that is full is discarded; the
shell sets its cursors back and keeps the characters, so its line is that of the editor as long as
no line is full.
-/

open List Option

namespace RtKernel.Finsh

/-- What completion makes of a line. -/
def completion (table : List FinshSyscall) (text : List UInt8) : List UInt8 :=
  if text = [] then []
  else
    match (table.map FinshSyscall.name).foldl (complete text) none with
    | some (namePtr, minLength) => namePtr.take minLength
    | none => text

/-- A line with a cursor in it, and the commands so far, of which one is `current`. -/
structure Editor where
  stat : InputStat
  before : List UInt8
  after : List UInt8
  commands : List (List UInt8)
  current : Nat

namespace Editor

def init : Editor where
  stat := .waitNormal
  before := []
  after := []
  commands := []
  current := 0

def text (e : Editor) : List UInt8 := e.before ++ e.after

def history (e : Editor) : List (List UInt8) := recent finshHistoryLines e.commands

/-- The cursor is behind a line that is set as a whole. -/
def set (e : Editor) (text : List UInt8) : Editor := { e with before := text, after := [] }

def recallCommand (e : Editor) (index : Nat) : Editor :=
  { e with current := index }.set (e.history.getD index [])

/-- The line is executed unless it is empty. -/
def enter (e : Editor) : Editor :=
  let commands := if e.text = [] then e.commands else e.commands ++ [e.text]
  { e with
    before := []
    after := []
    commands := commands
    current := (recent finshHistoryLines commands).length }

def key (table : List FinshSyscall) (e : Editor) (ch : UInt8) : Key → Editor
  | .none => e
  | .up => if 0 < e.current then e.recallCommand (e.current - 1) else e
  | .down =>
    if e.current + 1 < e.history.length then e.recallCommand (e.current + 1)
    else if e.history ≠ [] then e.recallCommand (e.history.length - 1)
    else e
  | .left =>
    match e.before.getLast? with
    | some c => { e with before := e.before.dropLast, after := c :: e.after }
    | none => e
  | .right =>
    match e.after with
    | c :: after => { e with before := e.before ++ [c], after := after }
    | [] => e
  | .tab => e.set (completion table e.text)
  | .backspace => { e with before := e.before.dropLast }
  | .enter => e.enter
  | .char => { e with before := e.before ++ [ch] }

/-- A character, before the line is discarded. -/
def press (table : List FinshSyscall) (e : Editor) (ch : UInt8) : Editor :=
  { e with stat := (keyOf e.stat ch).1 }.key table ch (keyOf e.stat ch).2

/-- The line stays shorter than `FINSH_CMD_SIZE`. -/
def Room (table : List FinshSyscall) (e : Editor) (ch : UInt8) : Prop :=
  (e.press table ch).text.length < finshCmdSize

instance (table : List FinshSyscall) (e : Editor) (ch : UInt8) : Decidable (e.Room table ch) :=
  Nat.decLt _ _

def step (table : List FinshSyscall) (e : Editor) (ch : UInt8) : Editor :=
  if e.Room table ch then e.press table ch else (e.press table ch).set []

end Editor

/-- A text in an array of `n` bytes, with nothing behind it. -/
def padded (n : Nat) (text : List UInt8) : List UInt8 := text ++ List.replicate (n - text.length) 0

/-- The lines of the history. -/
def rows (commands : List (List UInt8)) : List (List UInt8) :=
  commands.map (padded finshCmdSize) ++
    List.replicate (finshHistoryLines - commands.length) (padded finshCmdSize [])

/-- A text without zeros that is shorter than `FINSH_CMD_SIZE`. -/
structure IsText (text : List UInt8) : Prop where
  nul : 0 ∉ text
  lt : text.length < finshCmdSize

/-- The shell of an editor: its line has the editor's text and nothing behind it, and so have the
lines of its history. -/
def Editor.shell (e : Editor) : FinshShell where
  stat := e.stat
  currentHistory := e.current
  historyCount := e.history.length
  cmdHistory := rows e.history
  line := padded (finshCmdSize + 1) e.text
  linePosition := e.text.length
  lineCurpos := e.before.length

/-- What holds of the editor where no line is full. -/
structure Editor.Valid (e : Editor) : Prop where
  text : IsText e.text
  commands : ∀ c ∈ e.commands, IsText c
  current : e.current ≤ e.history.length

variable {e : Editor} {table : List FinshSyscall} {text : List UInt8} {n : Nat} {text' : List UInt8}

section

variable (h : text.length ≤ n)
include h

theorem length_padded : (padded n text).length = n := by
  rw [padded, length_append, length_replicate, Nat.add_sub_cancel' h]

theorem padded_succ : padded (n + 1) text = text ++ 0 :: List.replicate (n - text.length) 0 := by
  rw [padded, Nat.succ_sub h, replicate_succ]

theorem padded_succ' : padded (n + 1) text = padded n text ++ [0] := by
  rw [padded, padded, Nat.succ_sub h, replicate_succ', append_assoc]

theorem string_padded (hnul : 0 ∉ text) : Cells.string (padded (n + 1) text) 0 = some text := by
  rw [padded_succ h]
  exact Cells.string_append [] hnul _

end

theorem padded_inj (h : IsText text) (h' : IsText text')
    (heq : padded finshCmdSize text = padded finshCmdSize text') : text = text' := by
  have hsucc : padded (finshCmdSize + 1) text = padded (finshCmdSize + 1) text' := by
    rw [padded_succ' h.lt.le, padded_succ' h'.lt.le, heq]
  have hstring := string_padded h.lt.le h.nul
  rw [hsucc, string_padded h'.lt.le h'.nul] at hstring
  exact (some.inj hstring).symm

theorem ends_padded (h : text.length ≤ finshCmdSize) : Ends (padded (finshCmdSize + 1) text) := by
  rw [Ends, padded_succ' h, List.getElem?_append_right (length_padded h).le, length_padded h,
    Nat.sub_self]
  rfl

/-- A text is written over another one that is not longer. -/
theorem write_padded (h : text.length ≤ text'.length) (h' : text'.length ≤ n) :
    Cells.writeBlock (padded n text) 0 text' = some (padded n text') := by
  have hzeros : List.replicate (n - text.length) (0 : UInt8) =
      List.replicate (text'.length - text.length) 0 ++ List.replicate (n - text'.length) 0 := by
    rw [← replicate_add]
    congr 1
    omega
  have hblock : text'.length =
      (text ++ List.replicate (text'.length - text.length) (0 : UInt8)).length := by
    rw [length_append, length_replicate]
    omega
  have hwrite := Cells.writeBlock_append [] (List.replicate (n - text'.length) (0 : UInt8)) hblock
  rw [padded, hzeros, ← append_assoc]
  exact hwrite

theorem readBlock_padded (h : text.length ≤ finshCmdSize) :
    Cells.readBlock (padded (finshCmdSize + 1) text) 0 finshCmdSize =
      some (padded finshCmdSize text) := by
  have hread := Cells.readBlock_append [] (padded finshCmdSize text) [0]
  rw [length_padded h] at hread
  rw [padded_succ' h]
  exact hread

/-- A character more takes the place of a zero behind the text. -/
theorem padded_insert {before after : List UInt8} (h : before.length + after.length < n) :
    ∃ zeros : List UInt8, padded n (before ++ after) = before ++ (after ++ 0 :: zeros) ∧
      ∀ c, padded n (before ++ c :: after) = before ++ c :: (after ++ zeros) := by
  refine ⟨List.replicate (n - (before ++ after).length - 1) 0, ?_, fun c => ?_⟩
  · have hpos : n - (before ++ after).length = n - (before ++ after).length - 1 + 1 := by
      rw [length_append]
      omega
    rw [padded, hpos, append_assoc]
    rfl
  · have hlength : n - (before ++ c :: after).length = n - (before ++ after).length - 1 := by
      rw [length_append, length_append, length_cons]
      omega
    rw [padded, hlength, append_assoc]
    rfl

section History

variable {commands : List (List UInt8)} {index : Nat}

theorem getElem?_rows (h : index < commands.length) :
    (rows commands)[index]? = some (padded finshCmdSize (commands.getD index [])) := by
  rw [rows, List.getElem?_append_left (by rwa [length_map]), List.getElem?_map,
    List.getElem?_eq_getElem h, getD_eq_getElem _ _ h]
  rfl

theorem Editor.getD_mem (e : Editor) (hindex : index < e.history.length) :
    e.history.getD index [] ∈ e.commands := by
  rw [getD_eq_getElem _ _ hindex]
  exact mem_of_mem_recent (getElem_mem hindex)

theorem Editor.Valid.row (h : e.Valid) (hindex : index < e.history.length) :
    e.shell.history index = some (padded finshCmdSize (e.history.getD index [])) := by
  have hmem := e.getD_mem hindex
  have hlength := length_padded (h.commands _ hmem).lt.le
  have hrow : e.shell.cmdHistory[index]? = _ := getElem?_rows hindex
  rw [FinshShell.history, hrow, bind_some, Cells.readBlock_of_le (by omega), drop_zero,
    take_of_length_le hlength.le]

theorem write_rows (h : commands.length < finshHistoryLines) (text : List UInt8) :
    Cells.write (rows commands) commands.length (padded finshCmdSize text) =
      some (rows (commands ++ [text])) := by
  have hfree : finshHistoryLines - commands.length =
      finshHistoryLines - (commands ++ [text]).length + 1 := by
    rw [length_append, length_singleton]
    omega
  have hwrite := Cells.write_append (commands.map (padded finshCmdSize)) (padded finshCmdSize [])
    (padded finshCmdSize text)
    (List.replicate (finshHistoryLines - (commands ++ [text]).length) (padded finshCmdSize []))
  rw [length_map] at hwrite
  rw [rows, hfree, replicate_succ, hwrite, rows, map_append, append_assoc]
  rfl

theorem move_rows (h : commands.length = finshHistoryLines) (text : List UInt8) :
    ∃ moved, Cells.move (rows commands) 0 1 (finshHistoryLines - 1) = some moved ∧
      Cells.write moved (finshHistoryLines - 1) (padded finshCmdSize text) =
        some (rows (commands.tail ++ [text])) := by
  obtain ⟨first, rest, rfl⟩ := exists_cons_of_length_pos
    (Nat.lt_of_lt_of_eq (by decide : 0 < finshHistoryLines) h.symm)
  have hrest : (rest.map (padded finshCmdSize)).length = finshHistoryLines - 1 := by
    rw [length_map]
    exact Nat.eq_sub_of_add_eq h
  obtain ⟨y, hmove⟩ := Cells.move_left [] (rest.map (padded finshCmdSize))
    (padded finshCmdSize first) []
  have hwrite := Cells.write_append (rest.map (padded finshCmdSize)) y (padded finshCmdSize text) []
  rw [hrest] at hmove hwrite
  have hall : rows (first :: rest) =
      padded finshCmdSize first :: (rest.map (padded finshCmdSize) ++ []) := by
    rw [rows, h]
    rfl
  have hall' : rows (rest ++ [text]) =
      rest.map (padded finshCmdSize) ++ [padded finshCmdSize text] := by
    have hlength : (rest ++ [text]).length = finshHistoryLines := by
      rw [length_append]
      exact h
    rw [rows, hlength, map_append]
    exact append_nil _
  rw [hall, tail_cons, hall']
  exact ⟨_, hmove, hwrite⟩

theorem Editor.Valid.store (h : e.Valid) (cmdHistory : List (List UInt8)) (index : Nat) :
    FinshShell.store { e.shell with cmdHistory := cmdHistory } index =
      (Cells.write cmdHistory index (padded finshCmdSize e.text)).map fun cmdHistory =>
        { e.shell with cmdHistory := cmdHistory } := by
  have hread : Cells.readBlock e.shell.line 0 e.shell.linePosition = some e.text :=
    Cells.readBlock_append [] e.text _
  have hwrite : Cells.writeBlock (padded finshCmdSize []) 0 e.text =
      some (padded finshCmdSize e.text) := write_padded (Nat.zero_le _) h.text.lt.le
  unfold FinshShell.store
  rw [hread]
  exact congrArg (Option.bind · _) hwrite

/-- The row of the last command is compared with the line. -/
theorem Editor.Valid.last (h : e.Valid) (hne : e.history ≠ []) : ∃ last,
    e.shell.history (e.history.length - 1) = some last ∧
      (last = padded finshCmdSize e.text ↔ e.history.getLast? = some e.text) := by
  have hpos := length_pos_iff.mpr hne
  refine ⟨_, h.row (Nat.sub_lt hpos Nat.one_pos), ?_⟩
  have hlast : e.history.getLast? = some (e.history.getD (e.history.length - 1) []) := by
    rw [List.getLast?_eq_getElem?, List.getElem?_eq_getElem (Nat.sub_lt hpos Nat.one_pos),
      getD_eq_getElem]
  have hmem : e.history.getD (e.history.length - 1) [] ∈ e.commands :=
    mem_of_mem_recent (mem_of_getLast? hlast)
  rw [hlast, some_inj]
  exact ⟨padded_inj (h.commands _ hmem) h.text, congrArg _⟩

theorem Editor.history_enter_nil (hempty : e.text = []) : e.enter.history = e.history := by
  simp [Editor.enter, Editor.history, hempty]

theorem Editor.history_enter (hne : e.text ≠ []) : e.enter.history =
    if e.history.getLast? = some e.text then e.history
    else if e.history.length < finshHistoryLines then e.history ++ [e.text]
    else e.history.tail ++ [e.text] := by
  have hnext : e.enter.history = recent finshHistoryLines (e.commands ++ [e.text]) := by
    simp [Editor.enter, Editor.history, hne]
  rw [hnext, recent_concat (by decide)]
  rfl

/-- The shell with another history. -/
def Editor.pushed (e : Editor) (history : List (List UInt8)) : FinshShell :=
  { e.shell with
    cmdHistory := rows history
    historyCount := history.length
    currentHistory := history.length }

/-- The line is added to the history unless it is the last command already. -/
theorem Editor.Valid.shellPushHistory (h : e.Valid) :
    e.shell.shellPushHistory = some (e.pushed e.enter.history) := by
  have hlines : e.history.length ≤ finshHistoryLines := length_recent_le _
  have hread : Cells.readBlock e.shell.line 0 finshCmdSize = some (padded finshCmdSize e.text) :=
    readBlock_padded h.text.lt.le
  unfold FinshShell.shellPushHistory
  by_cases hempty : e.text = []
  · rw [if_pos (show e.shell.linePosition = 0 from length_eq_zero_iff.mpr hempty),
      Editor.history_enter_nil hempty]
    rfl
  rw [if_neg (show e.shell.linePosition ≠ 0 from mt length_eq_zero_iff.mp hempty), hread,
    bind_some, Editor.history_enter hempty]
  by_cases hfull : finshHistoryLines ≤ e.history.length
  · have hall := Nat.le_antisymm hlines hfull
    have hne : e.history ≠ [] := by
      intro hno
      rw [hno] at hall
      exact absurd hall (by decide)
    obtain ⟨last, hlast, hiff⟩ := h.last hne
    rw [hall] at hlast
    rw [if_pos (show finshHistoryLines ≤ e.shell.historyCount from hfull), hlast, bind_some]
    by_cases hsame : e.history.getLast? = some e.text
    · rw [if_pos (hiff.mpr hsame), if_pos hsame]
      rfl
    · obtain ⟨moved, hmove, hwrite⟩ := move_rows hall e.text
      have hmove' : Cells.move e.shell.cmdHistory 0 1 (finshHistoryLines - 1) = some moved := hmove
      have hlength : (e.history.tail ++ [e.text]).length = finshHistoryLines := by
        rw [length_append, length_tail, hall]
        rfl
      rw [if_neg (mt hiff.mp hsame), if_neg hsame, if_neg (Nat.not_lt.mpr hfull), hmove',
        bind_some, h.store, hwrite, Editor.pushed, hlength]
      rfl
  · have hroom := Nat.lt_of_not_le hfull
    rw [if_neg (show ¬ finshHistoryLines ≤ e.shell.historyCount from hfull)]
    have hpush : (if e.shell.historyCount = 0 then some true
        else (e.shell.history (e.shell.historyCount - 1)).map fun last =>
          decide (last ≠ padded finshCmdSize e.text)) =
        some (decide (e.history.getLast? ≠ some e.text)) := by
      by_cases hne : e.history = []
      · rw [if_pos (show e.shell.historyCount = 0 from length_eq_zero_iff.mpr hne), hne]
        rfl
      · obtain ⟨last, hlast, hiff⟩ := h.last hne
        rw [if_neg (show e.shell.historyCount ≠ 0 from mt length_eq_zero_iff.mp hne)]
        change (e.shell.history (e.history.length - 1)).map _ = _
        rw [hlast]
        exact congrArg some (decide_eq_decide.mpr (not_congr hiff))
    rw [hpush, bind_some]
    by_cases hsame : e.history.getLast? = some e.text
    · rw [if_pos hsame, if_neg (by simp [hsame])]
      rfl
    · have hlength : (e.history ++ [e.text]).length = inc16 e.history.length := by
        rw [FinshShell.inc16_eq (le_trans hlines (by decide)), length_append]
        rfl
      have hstore := h.store (rows e.history) e.history.length
      rw [write_rows hroom] at hstore
      rw [if_neg hsame, if_pos hroom, if_pos (by simp [hsame]), Editor.pushed, hlength]
      exact congrArg (Option.map _) hstore

end History

@[simp] theorem Editor.shell_stat (e : Editor) : e.shell.stat = e.stat := rfl

@[simp] theorem Editor.shell_linePosition (e : Editor) : e.shell.linePosition = e.text.length := rfl

@[simp] theorem Editor.shell_lineCurpos (e : Editor) : e.shell.lineCurpos = e.before.length := rfl

@[simp] theorem Editor.shell_line (e : Editor) :
    e.shell.line = padded (finshCmdSize + 1) e.text := rfl

/-- The line and the cursors are edited, and the rest stays. -/
theorem Editor.shell_edit (e : Editor) (before after : List UInt8) :
    ({ e with before := before, after := after } : Editor).shell =
      { e.shell with
        line := padded (finshCmdSize + 1) (before ++ after)
        linePosition := (before ++ after).length
        lineCurpos := before.length } := rfl

theorem Editor.shell_set (e : Editor) (text : List UInt8) : (e.set text).shell =
    { e.shell with
      line := padded (finshCmdSize + 1) text
      linePosition := text.length
      lineCurpos := text.length } := by
  rw [Editor.set, e.shell_edit, append_nil]

namespace Editor.Valid

variable {ch : UInt8}

theorem length_lt (h : e.Valid) : e.before.length + e.after.length < finshCmdSize := by
  have hlt := h.text.lt
  rwa [Editor.text, length_append] at hlt

theorem toEnd (e : Editor) (h : IsText text) :
    FinshShell.toEnd { e.shell with line := padded (finshCmdSize + 1) text } =
      some (e.set text).shell := by
  have hlength : text.length % 2 ^ 16 = text.length :=
    Nat.mod_eq_of_lt (Nat.lt_trans h.lt (by decide))
  rw [FinshShell.toEnd, string_padded h.lt.le h.nul, map_some, hlength, e.shell_set]

section

variable (h : e.Valid)
include h

theorem recallLine {index : Nat} (hindex : index < e.history.length) :
    FinshShell.recallLine { e.shell with currentHistory := index } =
      some (e.recallCommand index).shell := by
  have hmem := e.getD_mem hindex
  have htext := h.commands _ hmem
  have hwrite : Cells.writeBlock e.shell.line 0 (padded finshCmdSize (e.history.getD index [])) =
      some (padded (finshCmdSize + 1) (e.history.getD index [])) := by
    have hall := Cells.writeBlock_append [] [0]
      ((length_padded htext.lt.le).trans (length_padded h.text.lt.le).symm)
    rw [← padded_succ' h.text.lt.le, ← padded_succ' htext.lt.le] at hall
    exact hall
  have hrow : FinshShell.history { e.shell with currentHistory := index } index =
      some (padded finshCmdSize (e.history.getD index [])) := h.row hindex
  unfold FinshShell.recallLine
  rw [hrow, bind_some, hwrite]
  exact toEnd { e with current := index } htext

theorem upKey : e.shell.upKey = some (e.key table ch .up).shell := by
  unfold FinshShell.upKey Editor.key
  by_cases hpos : 0 < e.current
  · have hcurrent := h.current
    rw [if_pos hpos, if_pos (show 0 < e.shell.currentHistory from hpos)]
    exact h.recallLine (show e.current - 1 < e.history.length by omega)
  · rw [if_neg hpos, if_neg (show ¬ 0 < e.shell.currentHistory from hpos)]
    have hzero : 0 = e.current := (Nat.eq_zero_of_not_pos hpos).symm
    rw [hzero]
    rfl

theorem downKey : e.shell.downKey = some (e.key table ch .down).shell := by
  unfold FinshShell.downKey Editor.key
  by_cases hnext : e.current + 1 < e.history.length
  · rw [if_pos hnext, if_pos (show e.shell.currentHistory + 1 < e.shell.historyCount from hnext)]
    exact h.recallLine hnext
  · rw [if_neg hnext, if_neg (show ¬ e.shell.currentHistory + 1 < e.shell.historyCount from hnext)]
    by_cases hne : e.history = []
    · rw [if_neg (not_not.mpr hne), if_neg (not_not.mpr
        (show e.shell.historyCount = 0 from length_eq_zero_iff.mpr hne))]
    · rw [if_pos hne, if_pos (show e.shell.historyCount ≠ 0 from mt length_eq_zero_iff.mp hne)]
      exact h.recallLine (Nat.sub_lt (length_pos_iff.mpr hne) Nat.one_pos)

theorem leftKey : e.shell.leftKey = (e.key table ch .left).shell := by
  have hlt := h.length_lt
  unfold FinshShell.leftKey
  rw [e.shell_lineCurpos]
  rcases eq_nil_or_concat' e.before with hbefore | ⟨rest, c, hbefore⟩
  · rw [hbefore]
    simp [Editor.key, hbefore]
  · have hkey : e.key table ch .left = { e with before := rest, after := c :: e.after } := by
      simp [Editor.key, hbefore]
    have htext : rest ++ c :: e.after = e.text := by
      rw [Editor.text, hbefore, append_assoc, singleton_append]
    have hlength : e.before.length = rest.length + 1 := by
      rw [hbefore, length_append, length_singleton]
    rw [hlength, if_pos (Nat.succ_ne_zero _), FinshShell.dec16_eq (by omega) (Nat.succ_ne_zero _),
      hkey, e.shell_edit rest (c :: e.after), htext]
    rfl

theorem rightKey : e.shell.rightKey = some (e.key table ch .right).shell := by
  have hlt := h.length_lt
  have hlength : e.text.length = e.before.length + e.after.length := length_append
  unfold FinshShell.rightKey
  rw [e.shell_lineCurpos, e.shell_linePosition, e.shell_line]
  cases hafter : e.after with
  | nil =>
    rw [hafter, length_nil, Nat.add_zero] at hlength
    rw [if_neg (Nat.not_lt.mpr hlength.le)]
    simp [Editor.key, hafter]
  | cons c after =>
    have hkey : e.key table ch .right = { e with before := e.before ++ [c], after := after } := by
      simp [Editor.key, hafter]
    have htext : e.before ++ [c] ++ after = e.text := by
      rw [Editor.text, hafter, append_assoc, singleton_append]
    have hread : (padded (finshCmdSize + 1) e.text)[e.before.length]? = some c := by
      rw [padded, Editor.text, hafter, append_assoc,
        List.getElem?_append_right (Nat.le_refl _), Nat.sub_self]
      rfl
    rw [hafter, length_cons] at hlength hlt
    rw [if_pos (by omega), hread, map_some, FinshShell.inc16_eq (by omega), hkey,
      e.shell_edit (e.before ++ [c]) after, htext, length_append]
    rfl

/-- The bytes behind the cursor move to the left, or there are none. -/
theorem backspaceKey : e.shell.backspaceKey = some (e.key table ch .backspace).shell := by
  have hlt := h.length_lt
  unfold FinshShell.backspaceKey
  rw [e.shell_lineCurpos, e.shell_linePosition, e.shell_line]
  rcases eq_nil_or_concat' e.before with hbefore | ⟨rest, c, hbefore⟩
  · have hsame : e.before.dropLast = e.before := by
      rw [hbefore]
      rfl
    have hkey : e.key table ch .backspace = e := by
      rw [Editor.key, hsame]
    rw [hkey, hbefore, if_pos length_nil]
  · have hkey : e.key table ch .backspace = { e with before := rest } := by
      simp [Editor.key, hbefore]
    have htext : e.text = rest ++ c :: e.after := by
      rw [Editor.text, hbefore, append_assoc, singleton_append]
    have hlength : e.before.length = rest.length + 1 := by
      rw [hbefore, length_append, length_singleton]
    have hlengthText : e.text.length = rest.length + e.after.length + 1 := by
      rw [htext, length_append, length_cons, Nat.add_assoc]
    obtain ⟨zeros, hline, hline'⟩ :=
      padded_insert (show rest.length + e.after.length < finshCmdSize + 1 by omega)
    have hposition : dec16 (rest.length + e.after.length + 1) = rest.length + e.after.length :=
      FinshShell.dec16_eq (by omega) (Nat.succ_ne_zero _)
    have hcurpos : dec16 (rest.length + 1) = rest.length :=
      FinshShell.dec16_eq (by omega) (Nat.succ_ne_zero _)
    have hnul : 0 ∉ e.after := fun hno => h.text.nul (mem_append_right _ hno)
    rw [hlength, hlengthText, if_neg (Nat.succ_ne_zero _), htext, hline', hposition,
      hcurpos, hkey, e.shell_edit rest e.after, hline, ← length_append]
    dsimp only
    by_cases hafter : e.after = []
    · have hwrite := Cells.write_append rest c 0 zeros
      rw [hafter, append_nil, nil_append, nil_append, hwrite,
        if_neg (Nat.lt_irrefl _), map_some]
    · obtain ⟨y, hmove⟩ := Cells.move_left rest e.after c zeros
      have hwrite := Cells.write_append (rest ++ e.after) y 0 zeros
      have hstring := Cells.string_append rest hnul zeros
      have hpos := length_pos_iff.mpr hafter
      rw [append_assoc, append_assoc] at hwrite
      rw [if_pos (by rw [length_append]; omega), length_append, Nat.add_sub_cancel_left,
        hmove, bind_some, ← length_append, hwrite, bind_some, hstring,
        map_some]

end

/-- The bytes behind the cursor move to the right, or there are none. -/
theorem charKey (e : Editor) (a : Input) (hroom : e.text.length + 1 < finshCmdSize) :
    e.shell.charKey a = some (e.key table a.ch .char).shell := by
  have hlength : e.text.length = e.before.length + e.after.length := length_append
  have hkey : e.key table a.ch .char = { e with before := e.before ++ [a.ch] } := rfl
  have htext : e.before ++ [a.ch] ++ e.after = e.before ++ a.ch :: e.after := by simp
  have hlength' : (e.before ++ a.ch :: e.after).length = e.text.length + 1 := by
    rw [length_append, length_cons, hlength, Nat.add_assoc]
  obtain ⟨zeros, hline, hline'⟩ :=
    padded_insert (show e.before.length + e.after.length < finshCmdSize + 1 by omega)
  have hadvance : ∀ line : List UInt8,
      line = padded (finshCmdSize + 1) (e.before ++ a.ch :: e.after) →
      e.shell.advance line e.text.length = (e.key table a.ch .char).shell := by
    intro line hnew
    unfold FinshShell.advance
    rw [FinshShell.inc16_eq (by omega), if_neg (Nat.not_le.mpr hroom), hnew, hkey,
      e.shell_edit (e.before ++ [a.ch]) e.after, htext, hlength', e.shell_lineCurpos,
      FinshShell.inc16_eq (by omega), length_append]
    rfl
  unfold FinshShell.charKey
  rw [e.shell_lineCurpos, e.shell_linePosition, e.shell_line,
    if_neg (show ¬ finshCmdSize ≤ e.text.length by omega), Editor.text, hline, ← Editor.text]
  by_cases hafter : e.after = []
  · have hwrite := Cells.write_append e.before 0 a.ch zeros
    have hnew := hline' a.ch
    rw [hafter, length_nil, Nat.add_zero] at hlength
    rw [if_neg (Nat.not_lt.mpr hlength.le), hlength, hafter, nil_append, hwrite,
      map_some, ← hlength, hadvance _ (hafter ▸ hnew.symm)]
  · obtain ⟨y, hmove⟩ := Cells.move_right e.before e.after 0 zeros
    have hwrite := Cells.write_append e.before y a.ch (e.after ++ zeros)
    have hpos := length_pos_iff.mpr hafter
    have hends : Ends (e.before ++ a.ch :: (e.after ++ zeros)) := by
      rw [← hline']
      exact ends_padded (by omega)
    obtain ⟨w, hstring, -⟩ := hends.string e.before.length (by omega)
    rw [if_pos (by omega), show e.text.length - e.before.length = e.after.length by omega, hmove,
      bind_some, hwrite, bind_some, hstring, hadvance _ (hline' a.ch).symm]
    cases a.echoMode <;> rfl

section

variable (h : e.Valid)
include h

theorem nul_completion : 0 ∉ completion table e.text := by
  unfold completion
  split_ifs with hempty
  · exact not_mem_nil
  · have hfound := foldl_complete hempty (table.map FinshSyscall.name)
    cases hfold : (table.map FinshSyscall.name).foldl (complete e.text) none with
    | none => exact h.text.nul
    | some found =>
      rw [hfold] at hfound
      intro hno
      obtain ⟨index, -, hname⟩ := mem_map.mp hfound.mem
      exact index.nul (hname ▸ mem_of_mem_take hno)

theorem tabKey (hroom : (completion table e.text).length < finshCmdSize) :
    e.shell.tabKey table = some (e.key table ch .tab).shell := by
  have hkey : e.key table ch .tab = e.set (completion table e.text) := rfl
  have hcomplete : mshAutoComplete table e.shell.line =
      some (padded (finshCmdSize + 1) (completion table e.text)) := by
    unfold mshAutoComplete completion
    rw [e.shell_line, string_padded h.text.lt.le h.text.nul, bind_some]
    by_cases hempty : e.text = []
    · rw [if_pos hempty, if_pos hempty, hempty]
    · rw [if_neg hempty, if_neg hempty]
      have hfound := foldl_complete hempty (table.map FinshSyscall.name)
      rw [completion, if_neg hempty] at hroom
      cases hfold : (table.map FinshSyscall.name).foldl (complete e.text) none with
      | none => rfl
      | some found =>
        rw [hfold] at hfound hroom
        refine write_padded ?_ (Nat.le_succ_of_le hroom.le)
        rw [length_take_of_le ((hfound.common found.2).mp le_rfl).1]
        exact hfound.length_le
  unfold FinshShell.tabKey
  rw [hcomplete]
  exact toEnd e ⟨h.nul_completion, hroom⟩

theorem enterKey : e.shell.enterKey table = some (e.key table ch .enter).shell := by
  have hends : Ends (padded (finshCmdSize + 1) e.text) := ends_padded h.text.lt.le
  obtain ⟨line, hexec⟩ := hends.mshExec table h.text.lt.le
  have hexec' : mshExec table (e.pushed e.enter.history).line
      (e.pushed e.enter.history).linePosition = some line := hexec
  unfold FinshShell.enterKey
  rw [h.shellPushHistory, bind_some, hexec']
  rfl

theorem edit {before after : List UInt8} (htext : IsText (before ++ after)) :
    ({ e with before := before, after := after } : Editor).Valid :=
  ⟨htext, h.commands, h.current⟩

theorem setStat (stat : InputStat) : ({ e with stat := stat } : Editor).Valid :=
  ⟨h.text, h.commands, h.current⟩

theorem recallCommand {index : Nat} (hindex : index < e.history.length) :
    (e.recallCommand index).Valid := by
  have hmem := e.getD_mem hindex
  refine ⟨?_, h.commands, hindex.le⟩
  rw [Editor.recallCommand, Editor.set, Editor.text, append_nil]
  exact h.commands _ hmem

theorem enter : e.enter.Valid := by
  have hempty : IsText (([] : List UInt8) ++ []) := ⟨not_mem_nil, by decide⟩
  refine ⟨hempty, fun c hc => ?_, le_rfl⟩
  unfold Editor.enter at hc
  split_ifs at hc with hempty
  · exact h.commands c hc
  · rcases mem_append.mp hc with hc | hc
    · exact h.commands c hc
    · exact mem_singleton.mp hc ▸ h.text

end

theorem keyOf_char {stat : InputStat} (hchar : (keyOf stat ch).2 = .char) : ch ≠ 0 := by
  rintro rfl
  cases stat <;> exact absurd hchar (by decide)

theorem key (h : e.Valid) {k : Key} (hch : k = .char → ch ≠ 0)
    (hroom : (e.key table ch k).text.length < finshCmdSize) : (e.key table ch k).Valid := by
  have hnul : 0 ∉ e.before ++ e.after := h.text.nul
  cases k with
  | none => exact h
  | up =>
    have hcurrent := h.current
    unfold Editor.key
    dsimp only
    split_ifs
    · exact h.recallCommand (by omega)
    · exact h
  | down =>
    unfold Editor.key
    dsimp only
    split_ifs with hnext hne
    · exact h.recallCommand hnext
    · exact h.recallCommand (Nat.sub_lt (length_pos_iff.mpr hne) Nat.one_pos)
    · exact h
  | left =>
    unfold Editor.key
    dsimp only
    split
    · next c hlast =>
      have hbefore : e.before.dropLast ++ [c] = e.before := dropLast_append_getLast? c hlast
      have htext : e.before.dropLast ++ c :: e.after = e.text := by
        rw [append_cons, hbefore]
        rfl
      exact h.edit (htext ▸ h.text)
    · exact h
  | right =>
    unfold Editor.key
    dsimp only
    split
    · next c after hafter =>
      have htext : e.before ++ [c] ++ after = e.text := by
        rw [Editor.text, hafter, append_assoc, singleton_append]
      exact h.edit (htext ▸ h.text)
    · exact h
  | tab =>
    refine h.edit ⟨?_, hroom⟩
    rw [append_nil]
    exact h.nul_completion
  | backspace =>
    refine h.edit ⟨fun hno => ?_, hroom⟩
    rcases mem_append.mp hno with hno | hno
    · exact hnul (mem_append_left _ (dropLast_subset _ hno))
    · exact hnul (mem_append_right _ hno)
  | enter => exact h.enter
  | char =>
    refine h.edit ⟨fun hno => ?_, hroom⟩
    rcases mem_append.mp hno with hno | hno
    · rcases mem_append.mp hno with hno | hno
      · exact hnul (mem_append_left _ hno)
      · exact hch rfl (mem_singleton.mp hno).symm
    · exact hnul (mem_append_right _ hno)

theorem press (h : e.Valid) (hroom : e.Room table ch) : (e.press table ch).Valid :=
  (h.setStat _).key keyOf_char hroom

/-- A character for which there is room is handled as in the editor. -/
theorem exec (h : e.Valid) {a : Input} (hroom : e.Room table a.ch) :
    e.shell.exec table a = some (e.press table a.ch).shell := by
  have hstat := h.setStat (keyOf e.stat a.ch).1
  unfold Editor.Room Editor.press at hroom
  unfold FinshShell.exec Editor.press
  rw [e.shell_stat]
  cases hkey : (keyOf e.stat a.ch).2 <;> rw [hkey] at hroom <;> dsimp only
  case none => rfl
  case up => exact hstat.upKey
  case down => exact hstat.downKey
  case left => exact congrArg some hstat.leftKey
  case right => exact hstat.rightKey
  case tab => exact hstat.tabKey (by simpa [Editor.key, Editor.set, Editor.text] using hroom)
  case backspace => exact hstat.backspaceKey
  case enter => exact hstat.enterKey
  case char =>
    exact charKey { e with stat := (keyOf e.stat a.ch).1 } a
      (by simpa [Editor.key, Editor.text, Nat.add_assoc] using hroom)

end Editor.Valid

/-- What Enter passes to `msh_exec`. -/
def FinshShell.passed (s : FinshShell) : Option (List UInt8 × Nat) :=
  s.shellPushHistory.map fun s => (s.line, s.linePosition)

/-- The shell and the editor take the same character. -/
def edits (table : List FinshSyscall) (p : FinshShell × Editor) (a : Input) :
    Option (FinshShell × Editor) :=
  (p.1.exec table a).map fun s => (s, p.2.step table a.ch)

theorem Editor.init_valid : Editor.init.Valid := by
  have hempty : IsText Editor.init.text := ⟨not_mem_nil, by decide⟩
  exact ⟨hempty, fun c hc => absurd hc not_mem_nil, le_rfl⟩

/-- Where no key brings the editor's line to `FINSH_CMD_SIZE` characters, Enter passes the editor's
text with zeros behind it, the history has the last commands, and no key accesses bytes outside. -/
theorem reachable_edits (table : List FinshSyscall) (p : FinshShell × Editor)
    (h : Reachable (· = (FinshShell.init, Editor.init))
      (Within (fun p a q => edits table p a = some q) fun p a => p.2.Room table a.ch) p) :
    p.1.passed = some (padded (finshCmdSize + 1) p.2.text, p.2.text.length) ∧
      p.1.historyCount = (recent finshHistoryLines p.2.commands).length ∧
      p.1.cmdHistory.take p.1.historyCount =
        (recent finshHistoryLines p.2.commands).map (padded finshCmdSize) ∧
      ∀ a, p.2.Room table a.ch → ∃ q, edits table p a = some q := by
  have hshell : p.1 = p.2.shell ∧ p.2.Valid := by
    refine h.invariant (I := fun p => p.1 = p.2.shell ∧ p.2.Valid) (fun p hp => ?_)
      fun p a q _ ih hstep => ?_
    · subst hp
      exact ⟨rfl, Editor.init_valid⟩
    · obtain ⟨hroom, hstep⟩ := hstep
      obtain ⟨hshell, hvalid⟩ := ih
      rw [edits, hshell, hvalid.exec hroom, Option.map_some, Editor.step, if_pos hroom] at hstep
      cases hstep
      exact ⟨rfl, hvalid.press hroom⟩
  obtain ⟨hshell, hvalid⟩ := hshell
  refine ⟨?_, ?_, ?_, fun a hroom => ?_⟩
  · rw [FinshShell.passed, hshell, hvalid.shellPushHistory]
    rfl
  · rw [hshell]
    rfl
  · have hlength : p.2.history.length = (p.2.history.map (padded finshCmdSize)).length :=
      (List.length_map _).symm
    rw [hshell]
    change (rows p.2.history).take p.2.history.length = p.2.history.map (padded finshCmdSize)
    rw [rows, hlength, List.take_left]
  · rw [edits, hshell, hvalid.exec hroom]
    exact ⟨_, rfl⟩

/-- `ps` is executed twice and recalled, and a letter is put into it. -/
theorem reachable_edits_recalled : ∃ p : FinshShell × Editor,
    p.2.text = [0x70, 0x61, 0x73] ∧ p.2.commands = [[0x70, 0x73], [0x70, 0x73]] ∧
      p.1.passed = some (padded 81 [0x70, 0x61, 0x73], 3) ∧ p.1.historyCount = 1 ∧
      p.1.cmdHistory.take 1 = [padded 80 [0x70, 0x73]] := by
  obtain ⟨p, hp, htext, hcommands⟩ :
      ∃ p ∈ runWithin (edits FinshShell.commands) (fun p a => p.2.Room FinshShell.commands a.ch) (FinshShell.init, Editor.init) (FinshShell.typed [0x70, 0x73, 0x0d, 0x70, 0x73, 0x0d, 0x1b, 0x5b, 0x41, 0x1b, 0x5b, 0x44, 0x61]),
      p.2.text = [0x70, 0x61, 0x73] ∧
      p.2.commands = [[0x70, 0x73], [0x70, 0x73]] := by decide +kernel
  have hstart : Reachable (· = (FinshShell.init, Editor.init))
      (Within (fun p a q => edits FinshShell.commands p a = some q) fun p a =>
        p.2.Room FinshShell.commands a.ch) (FinshShell.init, Editor.init) := Reachable.start rfl
  obtain ⟨hpassed, hcount, hrows, -⟩ :=
    reachable_edits FinshShell.commands p (hstart.runWithin hp)
  rw [hcommands] at hcount hrows
  rw [htext] at hpassed
  rw [hcount] at hrows
  exact ⟨p, htext, hcommands, hpassed, hcount, hrows⟩

/-- 80 letters and one more. -/
theorem edits_full : ∃ p : FinshShell × Editor,
    Reachable (· = (FinshShell.init, Editor.init))
        (fun p a q => edits FinshShell.commands p a = some q) p ∧
      p.2.text = [0x62] ∧
      (p.1.passed.map fun r => (r.1.take 3, r.2)) = some ([0x62, 0x61, 0x61], 1) := by
  obtain ⟨p, hp, htext, hpassed⟩ : ∃ p ∈ runAll (edits FinshShell.commands) (FinshShell.init,
      Editor.init) (FinshShell.typed (List.replicate 80 0x61 ++ [0x62])),
      p.2.text = [0x62] ∧
      p.1.passed.map (fun r => (r.1.take 3, r.2)) = some ([0x62, 0x61, 0x61], 1) := by decide +kernel
  have hstart : Reachable (· = (FinshShell.init, Editor.init))
      (fun p a q => edits FinshShell.commands p a = some q) (FinshShell.init, Editor.init) :=
    Reachable.start rfl
  exact ⟨p, hstart.runAll hp, htext, hpassed⟩

end RtKernel.Finsh
