import RtKernel.Core.Run
import RtKernel.Finsh.Msh

/-!
# The line of the shell

The loop of `finsh_thread_entry`, one character at a time, with the history. Characters are
bytes; a negative value of `finsh_getchar` is skipped and left out. The device and the
prompt are left out too. There is no result where `line` or `cmd_history` is read or written
outside its array.
-/

open List Option

namespace RtKernel.Finsh

def finshHistoryLines : Nat := 5

/-- `enum input_stat`. -/
inductive InputStat
  | waitNormal
  | waitSpecKey
  | waitFuncKey
  deriving DecidableEq

/-- What a character stands for. -/
inductive Key
  | none
  | up
  | down
  | left
  | right
  | tab
  | backspace
  | enter
  | char
  deriving DecidableEq

/-- A character, with the echo mode while it is handled, which commands may change. -/
structure Input where
  ch : UInt8
  echoMode : Bool

structure FinshShell where
  stat : InputStat
  currentHistory : Nat
  historyCount : Nat
  cmdHistory : List (List UInt8)
  line : List UInt8
  linePosition : Nat
  lineCurpos : Nat

/-- `rt_uint16_t` values are counted up and down. -/
def inc16 (n : Nat) : Nat := (n + 1) % 2 ^ 16
def dec16 (n : Nat) : Nat := (n + (2 ^ 16 - 1)) % 2 ^ 16

/-- A character that does not belong to a special key. -/
def plainKey (ch : UInt8) : Key :=
  if ch = 0 ∨ ch = 0xff then .none
  else if ch = tab then .tab
  else if ch = 0x7f ∨ ch = 0x08 then .backspace
  else if ch = 0x0d ∨ ch = 0x0a then .enter
  else .char

def keyOf (stat : InputStat) (ch : UInt8) : InputStat × Key :=
  if ch = 0x1b then (.waitSpecKey, .none)
  else
    match stat with
    | .waitSpecKey => if ch = 0x5b then (.waitFuncKey, .none) else (.waitNormal, plainKey ch)
    | .waitFuncKey =>
      (.waitNormal,
        if ch = 0x41 then .up
        else if ch = 0x42 then .down
        else if ch = 0x44 then .left
        else if ch = 0x43 then .right
        else plainKey ch)
    | .waitNormal => (.waitNormal, plainKey ch)

namespace FinshShell

/-- `FINSH_CMD_SIZE` bytes of a line of the history. -/
def history (s : FinshShell) (index : Nat) : Option (List UInt8) :=
  s.cmdHistory[index]?.bind fun row => Cells.readBlock row 0 finshCmdSize

/-- The line is copied to a line of the history. -/
def store (s : FinshShell) (index : Nat) : Option FinshShell :=
  (Cells.readBlock s.line 0 s.linePosition).bind fun text =>
    (Cells.writeBlock (List.replicate finshCmdSize 0) 0 text).bind fun row =>
      (Cells.write s.cmdHistory index row).map fun cmdHistory => { s with cmdHistory := cmdHistory }

def shellPushHistory (s : FinshShell) : Option FinshShell :=
  if s.linePosition = 0 then some { s with currentHistory := s.historyCount }
  else
    (Cells.readBlock s.line 0 finshCmdSize).bind fun text =>
      if finshHistoryLines ≤ s.historyCount then
        (s.history (finshHistoryLines - 1)).bind fun last =>
          if last = text then some { s with currentHistory := s.historyCount }
          else
            (Cells.move s.cmdHistory 0 1 (finshHistoryLines - 1)).bind fun cmdHistory =>
              (store { s with cmdHistory := cmdHistory } (finshHistoryLines - 1)).map fun s =>
                { s with historyCount := finshHistoryLines, currentHistory := finshHistoryLines }
      else
        (if s.historyCount = 0 then some true
          else (s.history (s.historyCount - 1)).map fun last => decide (last ≠ text)).bind fun push =>
            if push then
              (s.store s.historyCount).map fun s =>
                { s with
                  historyCount := inc16 s.historyCount
                  currentHistory := inc16 s.historyCount }
            else some { s with currentHistory := s.historyCount }

/-- Both cursors are set to the end of the string on the line, which is printed. -/
def toEnd (s : FinshShell) : Option FinshShell :=
  (Cells.string s.line 0).map fun text =>
    { s with linePosition := text.length % 2 ^ 16, lineCurpos := text.length % 2 ^ 16 }

/-- The line is taken from the history. -/
def recallLine (s : FinshShell) : Option FinshShell :=
  (s.history s.currentHistory).bind fun text =>
    (Cells.writeBlock s.line 0 text).bind fun line => toEnd { s with line := line }

def upKey (s : FinshShell) : Option FinshShell :=
  if 0 < s.currentHistory then recallLine { s with currentHistory := s.currentHistory - 1 }
  else some { s with currentHistory := 0 }

def downKey (s : FinshShell) : Option FinshShell :=
  if s.currentHistory + 1 < s.historyCount then
    recallLine { s with currentHistory := s.currentHistory + 1 }
  else if s.historyCount ≠ 0 then recallLine { s with currentHistory := s.historyCount - 1 }
  else some s

def leftKey (s : FinshShell) : FinshShell :=
  if s.lineCurpos ≠ 0 then { s with lineCurpos := dec16 s.lineCurpos } else s

def rightKey (s : FinshShell) : Option FinshShell :=
  if s.lineCurpos < s.linePosition then
    s.line[s.lineCurpos]?.map fun _ => { s with lineCurpos := inc16 s.lineCurpos }
  else some s

def tabKey (table : List FinshSyscall) (s : FinshShell) : Option FinshShell :=
  (mshAutoComplete table s.line).bind fun line => toEnd { s with line := line }

def backspaceKey (s : FinshShell) : Option FinshShell :=
  if s.lineCurpos = 0 then some s
  else
    let position := dec16 s.linePosition
    let curpos := dec16 s.lineCurpos
    if curpos < position then
      (Cells.move s.line curpos (curpos + 1) (position - curpos)).bind fun line =>
        (Cells.write line position 0).bind fun line =>
          (Cells.string line curpos).map fun _ =>
            { s with line := line, linePosition := position, lineCurpos := curpos }
    else
      (Cells.write s.line position 0).map fun line =>
        { s with line := line, linePosition := position, lineCurpos := curpos }

def enterKey (table : List FinshSyscall) (s : FinshShell) : Option FinshShell :=
  s.shellPushHistory.bind fun s =>
    (mshExec table s.line s.linePosition).map fun _ =>
      { s with line := List.replicate (finshCmdSize + 1) 0, linePosition := 0, lineCurpos := 0 }

/-- The cursors after a character, which start again where the line is full. -/
def advance (s : FinshShell) (line : List UInt8) (position : Nat) : FinshShell :=
  if finshCmdSize ≤ inc16 position then { s with line := line, linePosition := 0, lineCurpos := 0 }
  else { s with line := line, linePosition := inc16 position, lineCurpos := inc16 s.lineCurpos }

def charKey (s : FinshShell) (a : Input) : Option FinshShell :=
  -- a large line is discarded
  let position := if finshCmdSize ≤ s.linePosition then 0 else s.linePosition
  if s.lineCurpos < position then
    (Cells.move s.line (s.lineCurpos + 1) s.lineCurpos (position - s.lineCurpos)).bind fun line =>
      (Cells.write line s.lineCurpos a.ch).bind fun line =>
        (if a.echoMode then Cells.string line s.lineCurpos else some []).map fun _ =>
          s.advance line position
  else (Cells.write s.line position a.ch).map fun line => s.advance line position

/-- The loop of `finsh_thread_entry` for one character. -/
def exec (table : List FinshSyscall) (s : FinshShell) (a : Input) : Option FinshShell :=
  let stat := (keyOf s.stat a.ch).1
  let s' := { s with stat := stat }
  match (keyOf s.stat a.ch).2 with
  | .none => some s'
  | .up => s'.upKey
  | .down => s'.downKey
  | .left => some s'.leftKey
  | .right => s'.rightKey
  | .tab => s'.tabKey table
  | .backspace => s'.backspaceKey
  | .enter => s'.enterKey table
  | .char => s'.charKey a

/-- `finsh_system_init` has made the shell. -/
def init : FinshShell where
  stat := .waitNormal
  currentHistory := 0
  historyCount := 0
  cmdHistory := List.replicate finshHistoryLines (List.replicate finshCmdSize 0)
  line := List.replicate (finshCmdSize + 1) 0
  linePosition := 0
  lineCurpos := 0

structure Kept (s : FinshShell) : Prop where
  curpos : s.lineCurpos ≤ s.linePosition
  position : s.linePosition ≤ finshCmdSize

/-- No character comes while both cursors are behind a full line, and completion fits. -/
def Careful (table : List FinshSyscall) (s : FinshShell) (a : Input) : Prop :=
  match (keyOf s.stat a.ch).2 with
  | .char => s.linePosition = finshCmdSize → s.lineCurpos = 0
  | .tab => Fits table s.line
  | _ => True

structure Sound (s : FinshShell) : Prop extends Kept s where
  length : s.line.length = finshCmdSize + 1
  ends : Ends s.line
  rows : s.cmdHistory.length = finshHistoryLines
  row : ∀ row ∈ s.cmdHistory, row.length = finshCmdSize
  count : s.historyCount ≤ finshHistoryLines
  current : s.currentHistory ≤ s.historyCount

variable {s : FinshShell} {table : List FinshSyscall} {a : Input} {n : Nat}

theorem inc16_eq (h : n ≤ finshCmdSize) : inc16 n = n + 1 :=
  Nat.mod_eq_of_lt (by unfold finshCmdSize at h; omega)

theorem dec16_eq (h : n ≤ finshCmdSize) (hpos : n ≠ 0) : dec16 n = n - 1 := by
  unfold finshCmdSize at h
  unfold dec16
  omega

section

variable (h : Sound s) {line : List UInt8}
include h

theorem Sound.history (index : Nat) (hindex : index < finshHistoryLines) :
    ∃ text, s.history index = some text ∧ text.length = finshCmdSize := by
  have hlt : index < s.cmdHistory.length := h.rows ▸ hindex
  have hrow := h.row _ (getElem_mem hlt)
  unfold FinshShell.history
  rw [List.getElem?_eq_getElem hlt, bind_some, Cells.readBlock_of_le (by omega)]
  exact ⟨_, rfl, Cells.length_block (by omega)⟩

theorem Sound.store (index : Nat) (hindex : index < finshHistoryLines) :
    ∃ cmdHistory, s.store index = some { s with cmdHistory := cmdHistory } ∧
      Sound { s with cmdHistory := cmdHistory } := by
  have hlength := h.length
  have hposition := h.position
  have htext : ((s.line.drop 0).take s.linePosition).length = s.linePosition :=
    Cells.length_block (by omega)
  obtain ⟨row, hwrite, hrow, -, -⟩ := Cells.writeBlock_of_le (List.replicate finshCmdSize 0) 0
    ((s.line.drop 0).take s.linePosition) (by rw [htext, length_replicate]; omega)
  refine ⟨s.cmdHistory.set index row, ?_, ⟨h.curpos, h.position⟩, h.length, h.ends, ?_, ?_, h.count, h.current⟩
  · unfold FinshShell.store
    rw [Cells.readBlock_of_le (by omega), bind_some, hwrite, bind_some,
      Cells.write_of_lt (h.rows ▸ hindex), map_some]
  · rw [length_set]
    exact h.rows
  · intro row' hrow'
    rcases mem_or_eq_of_mem_set hrow' with hrow' | rfl
    · exact h.row row' hrow'
    · rw [hrow, length_replicate]

theorem Sound.moveHistory : ∃ cmdHistory,
    Cells.move s.cmdHistory 0 1 (finshHistoryLines - 1) = some cmdHistory ∧
      Sound { s with cmdHistory := cmdHistory } := by
  have hrows := h.rows
  have hlines : 1 + (finshHistoryLines - 1) ≤ s.cmdHistory.length := by
    rw [hrows]
    decide
  obtain ⟨cmdHistory, hmove, hlength, -⟩ :=
    Cells.move_of_le s.cmdHistory 0 1 (finshHistoryLines - 1) hlines (by omega)
  refine ⟨cmdHistory, hmove, ⟨h.curpos, h.position⟩, h.length, h.ends, hlength.trans hrows, ?_, h.count, h.current⟩
  intro row hrow
  exact h.row row (Cells.mem_of_move hmove row hrow)

theorem Sound.setCounts (count current : Nat) (hcount : count ≤ finshHistoryLines)
    (hcurrent : current ≤ count) :
    Sound { s with historyCount := count, currentHistory := current } :=
  ⟨⟨h.curpos, h.position⟩, h.length, h.ends, h.rows, h.row, hcount, hcurrent⟩

theorem Sound.shellPushHistory : ∃ t, s.shellPushHistory = some t ∧ Sound t := by
  have hsame : Sound { s with currentHistory := s.historyCount } := h.setCounts _ _ h.count le_rfl
  have hlength := h.length
  unfold FinshShell.shellPushHistory
  by_cases hempty : s.linePosition = 0
  · rw [if_pos hempty]
    exact ⟨_, rfl, hsame⟩
  rw [if_neg hempty, Cells.readBlock_of_le (by omega), bind_some]
  by_cases hfull : finshHistoryLines ≤ s.historyCount
  · obtain ⟨last, hlast, -⟩ := h.history (finshHistoryLines - 1) (by decide)
    rw [hlast, bind_some]
    split_ifs with heq
    · exact ⟨_, rfl, hsame⟩
    · obtain ⟨cmdHistory, hmove, hmoved⟩ := h.moveHistory
      obtain ⟨cmdHistory', hstore, hstored⟩ := hmoved.store (finshHistoryLines - 1) (by decide)
      rw [hmove, bind_some, hstore]
      exact ⟨_, rfl, hstored.setCounts _ _ le_rfl le_rfl⟩
  · have hcount : s.historyCount < finshHistoryLines := Nat.lt_of_not_le hfull
    have hpush : ∃ push, (if s.historyCount = 0 then some true
        else (s.history (s.historyCount - 1)).map fun last =>
          decide (last ≠ (s.line.drop 0).take finshCmdSize)) = some push := by
      split_ifs
      · exact ⟨true, rfl⟩
      · obtain ⟨last, hlast, -⟩ := h.history (s.historyCount - 1) (by omega)
        exact ⟨_, by rw [hlast]; rfl⟩
    obtain ⟨push, hpush⟩ := hpush
    rw [if_neg hfull, hpush, bind_some]
    cases push with
    | false => exact ⟨_, rfl, hsame⟩
    | true =>
      obtain ⟨cmdHistory, hstore, hstored⟩ := h.store _ hcount
      have hinc : inc16 s.historyCount = s.historyCount + 1 :=
        inc16_eq (le_trans hcount.le (by decide))
      rw [hstore]
      exact ⟨_, rfl, hstored.setCounts _ _ (by dsimp only; omega) le_rfl⟩

theorem Sound.setLine {position curpos : Nat}
    (hlength : line.length = finshCmdSize + 1) (hends : Ends line) (hcurpos : curpos ≤ position)
    (hposition : position ≤ finshCmdSize) :
    Sound { s with line := line, linePosition := position, lineCurpos := curpos } :=
  ⟨⟨hcurpos, hposition⟩, hlength, hends, h.rows, h.row, h.count, h.current⟩

theorem Sound.setStat (stat : InputStat) : Sound { s with stat := stat } :=
  ⟨⟨h.curpos, h.position⟩, h.length, h.ends, h.rows, h.row, h.count, h.current⟩

theorem Sound.write (ptr : Nat) (hptr : ptr < finshCmdSize) (c : UInt8) :
    ∃ line, Cells.write s.line ptr c = some line ∧ line.length = finshCmdSize + 1 ∧ Ends line := by
  have hlength := h.length
  refine ⟨_, Cells.write_of_lt (by omega), by rw [length_set, hlength], ?_⟩
  unfold Ends
  rw [List.getElem?_set_ne (by omega)]
  exact h.ends

theorem Sound.move (dst src n : Nat) (hdst : dst + n ≤ finshCmdSize)
    (hsrc : src + n ≤ finshCmdSize) :
    ∃ line, Cells.move s.line dst src n = some line ∧ Sound { s with line := line } := by
  have hlength := h.length
  obtain ⟨line, hmove, hlen, hafter⟩ :=
    Cells.move_of_le s.line dst src n (by omega) (by omega)
  exact ⟨line, hmove, h.setLine (hlen.trans hlength) ((hafter _ hdst).trans h.ends) h.curpos h.position⟩

theorem Sound.toEnd : ∃ t, s.toEnd = some t ∧ Sound t := by
  obtain ⟨text, htext, hle⟩ := h.ends.string 0 (Nat.zero_le _)
  unfold FinshShell.toEnd
  rw [htext]
  have hmod : text.length % 2 ^ 16 ≤ finshCmdSize := le_trans (Nat.mod_le _ _) (by omega)
  exact ⟨_, rfl, h.setLine h.length h.ends le_rfl hmod⟩

theorem Sound.recallLine (hcurrent : s.currentHistory < finshHistoryLines) :
    ∃ t, s.recallLine = some t ∧ Sound t := by
  have hlength := h.length
  obtain ⟨text, htext, hlen⟩ := h.history _ hcurrent
  obtain ⟨line, hwrite, hline, hafter, -⟩ :=
    Cells.writeBlock_of_le s.line 0 text (by omega)
  unfold FinshShell.recallLine
  rw [htext, bind_some, hwrite]
  exact (h.setLine (hline.trans hlength) ((hafter _ (by omega)).trans h.ends) h.curpos h.position).toEnd

theorem Sound.upKey : ∃ t, s.upKey = some t ∧ Sound t := by
  have hcount := h.count
  have hcurrent := h.current
  unfold FinshShell.upKey
  split_ifs with hpos
  · exact (h.setCounts s.historyCount (s.currentHistory - 1) hcount
      (by omega)).recallLine (by dsimp only; omega)
  · exact ⟨_, rfl, h.setCounts _ _ hcount (Nat.zero_le _)⟩

theorem Sound.downKey : ∃ t, s.downKey = some t ∧ Sound t := by
  have hcount := h.count
  unfold FinshShell.downKey
  split_ifs with hlt hnone
  · exact (h.setCounts s.historyCount (s.currentHistory + 1) hcount
      (by omega)).recallLine (by dsimp only; omega)
  · exact (h.setCounts s.historyCount (s.historyCount - 1) hcount
      (by omega)).recallLine (by dsimp only; omega)
  · exact ⟨s, rfl, h⟩

theorem Sound.leftKey : Sound s.leftKey := by
  have hcurpos := h.curpos
  have hposition := h.position
  unfold FinshShell.leftKey
  split_ifs with hzero
  · rw [dec16_eq (by omega) hzero]
    exact h.setLine h.length h.ends (by omega) hposition
  · exact h

theorem Sound.rightKey : ∃ t, s.rightKey = some t ∧ Sound t := by
  have hposition := h.position
  unfold FinshShell.rightKey
  split_ifs with hlt
  · obtain ⟨c, hc⟩ := h.ends.read s.lineCurpos (by omega)
    rw [hc, inc16_eq (by omega)]
    exact ⟨_, rfl, h.setLine h.length h.ends (by omega) hposition⟩
  · exact ⟨s, rfl, h⟩

theorem Sound.tabKey (hfits : Fits table s.line) : ∃ t, s.tabKey table = some t ∧ Sound t := by
  obtain ⟨line, hcomplete, hlen, hends⟩ := h.ends.mshAutoComplete hfits
  unfold FinshShell.tabKey
  rw [hcomplete]
  exact (h.setLine (hlen.trans h.length) hends h.curpos h.position).toEnd

theorem Sound.backspaceKey : ∃ t, s.backspaceKey = some t ∧ Sound t := by
  have hcurpos := h.curpos
  have hposition := h.position
  unfold FinshShell.backspaceKey
  split_ifs with hzero
  · exact ⟨s, rfl, h⟩
  rw [dec16_eq (show s.linePosition ≤ finshCmdSize from hposition) (by omega),
    dec16_eq (show s.lineCurpos ≤ finshCmdSize by omega) hzero]
  dsimp only
  split_ifs with hlt
  · obtain ⟨line, hmove, hmoved⟩ := h.move (s.lineCurpos - 1) (s.lineCurpos - 1 + 1)
      (s.linePosition - 1 - (s.lineCurpos - 1)) (by omega) (by omega)
    obtain ⟨line', hwrite, hlen, hends⟩ := hmoved.write (s.linePosition - 1) (by omega) 0
    obtain ⟨text, htext, -⟩ := hends.string (s.lineCurpos - 1) (by omega)
    rw [hmove, bind_some, hwrite, bind_some, htext]
    exact ⟨_, rfl, h.setLine hlen hends (by omega) (by omega)⟩
  · obtain ⟨line, hwrite, hlen, hends⟩ := h.write (s.linePosition - 1) (by omega) 0
    rw [hwrite]
    exact ⟨_, rfl, h.setLine hlen hends (by omega) (by omega)⟩

theorem Sound.enterKey : ∃ t, s.enterKey table = some t ∧ Sound t := by
  obtain ⟨t, hpush, hpushed⟩ := h.shellPushHistory
  obtain ⟨line, hexec⟩ := hpushed.ends.mshExec table hpushed.position
  unfold FinshShell.enterKey
  rw [hpush, bind_some, hexec]
  exact ⟨_, rfl, hpushed.setLine length_replicate (show _ = _ by decide) le_rfl (Nat.zero_le _)⟩

/-- A character before the last byte is followed by the cursors. -/
theorem Sound.advance {position : Nat}
    (hlength : line.length = finshCmdSize + 1) (hends : Ends line) (hcurpos : s.lineCurpos ≤ position)
    (hposition : position < finshCmdSize) : Sound (s.advance line position) := by
  unfold FinshShell.advance
  rw [inc16_eq (show position ≤ finshCmdSize by omega)]
  split_ifs
  · exact h.setLine hlength hends le_rfl (Nat.zero_le _)
  · rw [inc16_eq (by omega)]
    exact h.setLine hlength hends (by omega) (by omega)

theorem Sound.charKey (hfull : s.linePosition = finshCmdSize → s.lineCurpos = 0) :
    ∃ t, s.charKey a = some t ∧ Sound t := by
  have hcurpos := h.curpos
  have hposition := h.position
  have hstart : s.lineCurpos ≤ (if finshCmdSize ≤ s.linePosition then 0 else s.linePosition) ∧
      (if finshCmdSize ≤ s.linePosition then 0 else s.linePosition) < finshCmdSize := by
    split_ifs with hlarge
    · exact ⟨(hfull (by omega)).le, by decide⟩
    · exact ⟨hcurpos, by omega⟩
  unfold FinshShell.charKey
  generalize (if finshCmdSize ≤ s.linePosition then 0 else s.linePosition) = position at hstart
  obtain ⟨hle, hlt⟩ := hstart
  by_cases hinside : s.lineCurpos < position
  · obtain ⟨line, hmove, hmoved⟩ := h.move (s.lineCurpos + 1) s.lineCurpos
      (position - s.lineCurpos) (by omega) (by omega)
    obtain ⟨line', hwrite, hlen, hends⟩ := hmoved.write s.lineCurpos (by omega) a.ch
    obtain ⟨text, htext, -⟩ := hends.string s.lineCurpos (by omega)
    rw [if_pos hinside, hmove, bind_some, hwrite, bind_some, htext]
    cases a.echoMode <;> exact ⟨_, rfl, h.advance hlen hends hle hlt⟩
  · obtain ⟨line, hwrite, hlen, hends⟩ := h.write _ hlt a.ch
    rw [if_neg hinside, hwrite]
    exact ⟨_, rfl, h.advance hlen hends hle hlt⟩

theorem Sound.exec (hcareful : Careful table s a) : ∃ t, s.exec table a = some t ∧ Sound t := by
  have hstat := h.setStat (keyOf s.stat a.ch).1
  unfold Careful at hcareful
  unfold FinshShell.exec
  cases hkey : (keyOf s.stat a.ch).2 <;> rw [hkey] at hcareful <;> dsimp only
  case none => exact ⟨_, rfl, hstat⟩
  case up => exact hstat.upKey
  case down => exact hstat.downKey
  case left => exact ⟨_, rfl, hstat.leftKey⟩
  case right => exact hstat.rightKey
  case tab => exact hstat.tabKey hcareful
  case backspace => exact hstat.backspaceKey
  case enter => exact hstat.enterKey
  case char => exact hstat.charKey hcareful

/-- A step against the condition ends in an access outside or with the cursors apart. -/
theorem Sound.not_kept (hcareful : ¬ Careful table s a) {t : FinshShell}
    (hexec : s.exec table a = some t) : ¬ Kept t := by
  have hcurpos := h.curpos
  unfold Careful at hcareful
  unfold FinshShell.exec at hexec
  cases hkey : (keyOf s.stat a.ch).2 <;> rw [hkey] at hcareful hexec <;> dsimp only at hcareful hexec
  case tab =>
    obtain ⟨line, hcomplete, hend⟩ := bind_eq_some_iff.mp hexec
    obtain ⟨text, htext, -⟩ := map_eq_some_iff.mp hend
    rw [string_of_not_fits h.length hcareful hcomplete] at htext
    cases htext
  case char =>
    obtain ⟨hfull, hbehind⟩ := Classical.not_imp.mp hcareful
    unfold FinshShell.charKey at hexec
    rw [if_pos hfull.ge] at hexec
    obtain ⟨line, -, rfl⟩ := map_eq_some_iff.mp hexec
    intro hkept
    have happart : (inc16 0 : Nat) < inc16 s.lineCurpos := by
      rw [inc16_eq (by omega), inc16_eq (by omega)]
      omega
    unfold FinshShell.advance at hkept
    exact absurd hkept.curpos (Nat.not_le_of_gt happart)
  all_goals exact absurd trivial hcareful

end

theorem init_sound : Sound init := by
  refine ⟨⟨le_rfl, Nat.zero_le _⟩, length_replicate, show _ = _ by decide, length_replicate,
    fun row hrow => ?_, Nat.zero_le _, le_rfl⟩
  rw [eq_of_mem_replicate hrow]
  exact length_replicate

/-- Where no character comes while both cursors are behind a full line, and completion fits, the
cursors stay in their order and in the line; and a character is handled without an access outside
and keeps that just where it meets the condition. -/
theorem reachable_cursorsKept (table : List FinshSyscall) (s : FinshShell)
    (h : Reachable (· = init) (Within (fun s a t => s.exec table a = some t) (Careful table)) s) :
    Kept s ∧ ∀ a, (∃ t, s.exec table a = some t ∧ Kept t) ↔ Careful table s a := by
  have hsound : Sound s := by
    refine h.invariant (fun s h₀ => h₀ ▸ init_sound) fun s a t _ ih hstep => ?_
    obtain ⟨t', hexec, hkept⟩ := ih.exec hstep.1
    rw [hstep.2] at hexec
    cases hexec
    exact hkept
  refine ⟨hsound.toKept, fun a => ⟨?_, fun hcareful => ?_⟩⟩
  · rintro ⟨t, hexec, hkept⟩
    by_contra hcareful
    exact hsound.not_kept hcareful hexec hkept
  · obtain ⟨t, hexec, hafter⟩ := hsound.exec hcareful
    exact ⟨t, hexec, hafter.toKept⟩

instance decidableCareful (table : List FinshSyscall) (s : FinshShell) (a : Input) :
    Decidable (Careful table s a) :=
  match hkey : (keyOf s.stat a.ch).2 with
  | .char => decidable_of_iff (s.linePosition = finshCmdSize → s.lineCurpos = 0) (by simp [Careful, hkey])
  | .tab => decidable_of_iff (Fits table s.line) (by simp [Careful, hkey])
  | .none | .up | .down | .left | .right | .backspace | .enter => .isTrue (by simp [Careful, hkey])

/-- Characters with the echo on. -/
def typed (chs : List UInt8) : List Input := chs.map fun ch => ⟨ch, true⟩

/-- `ps` and `pin`. -/
def commands : List FinshSyscall := [⟨[0x70, 0x73], by decide⟩, ⟨[0x70, 0x69, 0x6e], by decide⟩]

/-- `ps` is executed; `pi` is typed, completed and edited, and `ps` is recalled and edited. -/
def edited : List Input :=
  typed [0x70, 0x73, 0x0d, 0x70, 0x69, tab, 0x1b, 0x5b, 0x44, 0x08, 0x1b, 0x5b, 0x41, 0x1b, 0x5b, 0x44, 0x61]

/-- `ps` is recalled, and a character is put into it. -/
theorem reachable_cursorsKept_edited : ∃ s : FinshShell, s.lineCurpos = 2 ∧ s.linePosition = 3 ∧
    s.line.take 4 = [0x70, 0x61, 0x73, 0] ∧
    Kept s ∧ ∀ a, (∃ t, s.exec commands a = some t ∧ Kept t) ↔ Careful commands s a := by
  obtain ⟨s, hs, hcurpos, hposition, hline⟩ :
      ∃ s ∈ runWithin (exec commands) (Careful commands) init edited, s.lineCurpos = 2 ∧
      s.linePosition = 3 ∧ s.line.take 4 = [0x70, 0x61, 0x73, 0] := by decide +kernel
  have hstart : Reachable (· = init)
      (Within (fun s a t => exec commands s a = some t) (Careful commands)) init := Reachable.start rfl
  exact ⟨s, hcurpos, hposition, hline, reachable_cursorsKept commands s (hstart.runWithin hs)⟩

/-- A full line, its completion, one more character, and one that is taken back. -/
def overfull : List Input := typed (List.replicate finshCmdSize 0x61 ++ [tab, 0x61, 0x08])

/-- The cursors are apart, and the next backspace moves bytes outside the line. -/
theorem overfull_not_kept : ∃ s : FinshShell,
    Reachable (· = init) (fun s a t => s.exec commands a = some t) s ∧
    s.linePosition = 0 ∧ s.lineCurpos = 80 ∧ ¬ Kept s ∧ s.exec commands ⟨0x08, true⟩ = none := by
  obtain ⟨s, hs, hposition, hcurpos, hnone⟩ :
      ∃ s ∈ runAll (exec commands) init overfull, s.linePosition = 0 ∧ s.lineCurpos = 80 ∧
      (s.exec commands ⟨0x08, true⟩).isNone = true := by decide +kernel
  have hstart : Reachable (· = init) (fun s a t => exec commands s a = some t) init := Reachable.start rfl
  refine ⟨s, hstart.runAll hs, hposition, hcurpos, fun hkept => ?_, Option.isNone_iff_eq_none.mp hnone⟩
  have hle := hkept.curpos
  omega

end FinshShell

end RtKernel.Finsh
