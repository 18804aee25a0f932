import Mathlib.Data.List.Basic
import Mathlib.Data.Nat.Basic
import Mathlib.Order.Basic

/-!
# Serial devices in stream mode

In stream mode a carriage return goes before each newline. The interrupt mode tries a
character again after the hardware has refused it, from the carriage return on.
-/

open List

namespace RtKernel.Serial

def newline : UInt8 := 10

def carriageReturn : UInt8 := 13

/-- The buffer with each newline replaced by a carriage return and a newline. -/
def crlf (data : List UInt8) : List UInt8 :=
  data.flatMap fun c => if c = newline then [carriageReturn, newline] else [c]

/-- What `_serial_poll_tx` sends; in polling mode `putc` waits until the hardware accepts. -/
def serialPollTx (stream : Bool) : List UInt8 → List UInt8
  | [] => []
  | c :: data =>
    if c = newline ∧ stream = true then carriageReturn :: c :: serialPollTx stream data
    else c :: serialPollTx stream data

/-- The loop of `_serial_int_tx` between two calls of `putc`. -/
structure IntTx where
  /-- What is left of the buffer. -/
  data : List UInt8
  /-- The carriage return of the first newline has been accepted in this turn. -/
  returned : Bool
  /-- What the hardware has accepted. -/
  sent : List UInt8

namespace IntTx

def start (data : List UInt8) : IntTx := { data := data, returned := false, sent := [] }

/-- The next call of `putc`; when it is refused, the turn is over once the completion is there. -/
def putc (stream : Bool) (s : IntTx) (accepted : Bool) : IntTx :=
  match s.data with
  | [] => s
  | c :: rest =>
    if c = newline ∧ stream = true ∧ s.returned = false then
      if accepted = true then { s with returned := true, sent := s.sent ++ [carriageReturn] }
      else s
    else if accepted = true then { data := rest, returned := false, sent := s.sent ++ [c] }
    else { s with returned := false }

/-- `_serial_int_tx` with these answers of `putc`. -/
def run (stream : Bool) (s : IntTx) (answers : List Bool) : IntTx :=
  answers.foldl (putc stream) s

/-- A newline is not refused after its carriage return has been accepted. -/
def Unsplit (s : IntTx) (answers : List Bool) : Prop :=
  ∀ before after, answers = before ++ false :: after → (s.run true before).returned = false

/-- The first character is a newline where its carriage return has been accepted. -/
def Turned (s : IntTx) : Prop := s.returned = true → s.data.head? = some newline

/-- What the rest of the buffer comes to. -/
def owed (s : IntTx) : List UInt8 :=
  if s.returned = true then (crlf s.data).tail else crlf s.data

theorem crlf_cons (c : UInt8) (data : List UInt8) :
    crlf (c :: data) = (if c = newline then [carriageReturn, newline] else [c]) ++ crlf data :=
  flatMap_cons

theorem serialPollTx_eq (data : List UInt8) : serialPollTx true data = crlf data := by
  induction data with
  | nil => rfl
  | cons c data ih =>
    rw [serialPollTx, crlf_cons, ih]
    by_cases hc : c = newline
    · rw [hc]
      rfl
    · rw [if_neg fun hno => hc hno.1, if_neg hc]
      rfl

variable {s : IntTx} {a : Bool} {answers : List Bool}

theorem turned_start (data : List UInt8) : Turned (start data) := fun hno =>
  absurd hno Bool.false_ne_true

theorem Turned.putc (h : Turned s) (a : Bool) : Turned (s.putc true a) := by
  unfold IntTx.putc
  cases hdata : s.data with
  | nil => exact h
  | cons c rest =>
    dsimp only
    split
    · next hnewline =>
      split
      · intro _
        exact congrArg some hnewline.1
      · exact h
    · split
      all_goals exact fun hno => absurd hno Bool.false_ne_true

/-- Nothing is left to be sent where the buffer is at its end. -/
theorem data_eq_nil_of_owed (h : Turned s) (howed : s.owed = []) : s.data = [] := by
  unfold owed at howed
  cases hdata : s.data with
  | nil => rfl
  | cons c rest =>
    rw [hdata, crlf_cons] at howed
    by_cases hreturned : s.returned = true
    · have hhead := h hreturned
      rw [hdata] at hhead
      cases hhead
      simp [hreturned] at howed
    · rw [if_neg hreturned] at howed
      split at howed
      · cases howed
      · cases howed

/-- A character that is accepted is the next one of those to be sent. -/
theorem putc_accepted (h : Turned s) (hdata : s.data ≠ []) :
    ∃ c, s.owed = c :: (s.putc true true).owed ∧ (s.putc true true).sent = s.sent ++ [c] := by
  unfold putc owed
  cases hs : s.data with
  | nil => exact absurd hs hdata
  | cons c rest =>
    by_cases hc : c = newline
    · subst hc
      cases hreturned : s.returned with
      | false => exact ⟨carriageReturn, by simp [crlf_cons], by simp⟩
      | true => exact ⟨newline, by simp [crlf_cons], by simp⟩
    · cases hreturned : s.returned with
      | false => exact ⟨c, by simp [hc, crlf_cons], by simp [hc]⟩
      | true =>
        have hhead := h hreturned
        rw [hs] at hhead
        exact absurd (Option.some.inj hhead) hc

/-- A refusal at the start of a turn changes nothing. -/
theorem putc_refused (h : s.returned = false) : s.putc true false = s := by
  unfold putc
  rcases s with ⟨data, returned, sent⟩
  cases h
  cases data with
  | nil => rfl
  | cons c rest =>
    dsimp only
    split
    · rfl
    · rfl

/-- A newline that is refused after its carriage return owes another carriage return. -/
theorem putc_split (h : Turned s) (hreturned : s.returned = true) :
    (s.putc true false).sent = s.sent ∧ (s.putc true false).owed = carriageReturn :: s.owed := by
  have hhead := h hreturned
  unfold putc owed
  cases hs : s.data with
  | nil =>
    rw [hs] at hhead
    cases hhead
  | cons c rest =>
    rw [hs] at hhead
    cases hhead
    simp [hreturned, crlf_cons]

/-- What has been sent and what is still to be sent. -/
def total (s : IntTx) : List UInt8 := s.sent ++ s.owed

/-- A call that does not split a newline keeps what is sent in all. -/
theorem total_putc (h : Turned s) (hfit : a = false → s.returned = false) :
    (s.putc true a).total = s.total := by
  cases a with
  | false => rw [putc_refused (hfit rfl)]
  | true =>
    by_cases hdata : s.data = []
    · have hsame : s.putc true true = s := by
        unfold putc
        rw [hdata]
      rw [hsame]
    · obtain ⟨c, howed, hsent⟩ := putc_accepted h hdata
      unfold total
      rw [hsent, howed, append_assoc, singleton_append]

theorem length_total_putc (h : Turned s) (a : Bool) :
    s.total.length ≤ (s.putc true a).total.length := by
  by_cases hfit : a = false → s.returned = false
  · exact (congrArg List.length (total_putc h hfit)).ge
  · rw [Classical.not_imp, Bool.not_eq_false] at hfit
    obtain ⟨rfl, hreturned⟩ := hfit
    obtain ⟨hsent, howed⟩ := putc_split h hreturned
    unfold total
    rw [hsent, howed]
    simp

theorem length_total_run (h : Turned s) (answers : List Bool) :
    s.total.length ≤ (s.run true answers).total.length := by
  induction answers generalizing s with
  | nil => exact le_rfl
  | cons a answers ih => exact (length_total_putc h a).trans (ih (h.putc a))

theorem unsplit_nil : Unsplit s [] := fun before after heq => by simp at heq

theorem unsplit_cons : Unsplit s (a :: answers) ↔
      (a = false → s.returned = false) ∧ Unsplit (s.putc true a) answers := by
  constructor
  · intro h
    refine ⟨fun ha => h [] answers (by rw [ha]; rfl), fun before after heq => ?_⟩
    exact h (a :: before) after (by rw [heq]; rfl)
  · rintro ⟨hfirst, hrest⟩ before after heq
    cases before with
    | nil => exact hfirst (List.cons.inj heq).1
    | cons b before =>
      obtain ⟨rfl, hafter⟩ := List.cons.inj heq
      exact hrest before after hafter

/-- What is sent in all stays the same just when no newline is split. -/
theorem total_run_iff (h : Turned s) :
    (s.run true answers).total = s.total ↔ Unsplit s answers := by
  induction answers generalizing s with
  | nil => exact iff_of_true rfl unsplit_nil
  | cons a answers ih =>
    rw [unsplit_cons, ← ih (h.putc a)]
    by_cases hfit : a = false → s.returned = false
    · rw [total_putc h hfit]
      exact ⟨fun hsame => ⟨hfit, hsame⟩, fun hboth => hboth.2⟩
    · refine iff_of_false (fun hsame => ?_) fun hboth => hfit hboth.1
      rw [Classical.not_imp, Bool.not_eq_false] at hfit
      obtain ⟨rfl, hreturned⟩ := hfit
      obtain ⟨hsent, howed⟩ := putc_split h hreturned
      have hlonger := length_total_run (h.putc false) answers
      have hlength : (s.putc true false).total.length = s.total.length + 1 := by
        unfold total
        rw [hsent, howed]
        simp [Nat.add_assoc]
      have hrun : (s.run true (false :: answers)).total.length = s.total.length :=
        congrArg List.length hsame
      rw [hlength] at hlonger
      exact absurd (hlonger.trans hrun.le) (Nat.not_succ_le_self _)

/-- Each accepted character brings the end nearer. -/
theorem length_owed_run (h : Turned s) (hunsplit : Unsplit s answers) :
    (s.run true answers).owed.length = s.owed.length - answers.count true := by
  induction answers generalizing s with
  | nil => rfl
  | cons a answers ih =>
    obtain ⟨hfit, hrest⟩ := unsplit_cons.mp hunsplit
    have hrun : (s.run true (a :: answers)).owed.length =
        (s.putc true a).owed.length - answers.count true := ih (h.putc a) hrest
    rw [hrun]
    cases a with
    | false =>
      rw [putc_refused (hfit rfl)]
      simp
    | true =>
      rw [count_cons_self]
      by_cases hdata : s.data = []
      · have hsame : s.putc true true = s := by
          unfold putc
          rw [hdata]
        have hnil : s.owed = [] := by
          unfold owed
          rw [hdata]
          cases s.returned <;> rfl
        rw [hsame, hnil]
        simp
      · obtain ⟨c, howed, -⟩ := putc_accepted h hdata
        rw [howed, length_cons]
        omega

theorem Turned.run (h : Turned s) (answers : List Bool) : Turned (s.run true answers) := by
  induction answers generalizing s with
  | nil => exact h
  | cons a answers ih => exact ih (h.putc a)

/-- In stream mode a call that has reached the end of its buffer has sent what the polling mode
sends just when no newline was refused after its carriage return; then it reaches the end as
soon as so many characters have been accepted. -/
theorem serialIntTx_delivers_iff (data : List UInt8) (answers : List Bool) :
    (((start data).run true answers).data = [] →
      (((start data).run true answers).sent = crlf data ∧
          ((start data).run true answers).sent = serialPollTx true data ↔
        Unsplit (start data) answers)) ∧
    (Unsplit (start data) answers → (crlf data).length ≤ answers.count true →
      ((start data).run true answers).data = []) := by
  have hturned := turned_start data
  constructor
  · intro hend
    have hnil : ((start data).run true answers).owed = [] := by
      unfold owed
      rw [hend]
      cases ((start data).run true answers).returned <;> rfl
    have htotal : ((start data).run true answers).total = ((start data).run true answers).sent := by
      rw [total, hnil, List.append_nil]
    have hstart : (start data).total = crlf data := rfl
    rw [serialPollTx_eq, and_self, ← total_run_iff hturned, htotal, hstart]
  · intro hunsplit hcount
    apply data_eq_nil_of_owed (hturned.run answers)
    have hlength := length_owed_run hturned hunsplit
    have hstart : (start data).owed = crlf data := rfl
    rw [hstart, Nat.sub_eq_zero_of_le hcount] at hlength
    exact List.length_eq_zero_iff.mp hlength

/-- The carriage return is refused once, and the letter after the newline twice. -/
theorem serialIntTx_delivers_two :
    ((start [newline, 65]).run true [false, true, true, false, false, true]).sent =
      serialPollTx true [newline, 65] := by
  have hunsplit : Unsplit (start [newline, 65]) [false, true, true, false, false, true] := by
    simp only [unsplit_cons, unsplit_nil, and_true]
    decide
  obtain ⟨hiff, hend⟩ :=
    serialIntTx_delivers_iff [newline, 65] [false, true, true, false, false, true]
  exact ((hiff (hend hunsplit (by decide))).mpr hunsplit).2

/-- A newline is refused once after its carriage return, which is then sent twice. -/
theorem newline_split :
    ¬ ∀ data answers, ((start data).run true answers).data = [] →
      ((start data).run true answers).sent = crlf data := by
  intro hall
  have hsent := hall [newline] [true, false, true, true] (by decide)
  have htwice : ((start [newline]).run true [true, false, true, true]).sent =
      [carriageReturn, carriageReturn, newline] := by decide
  rw [htwice] at hsent
  exact absurd hsent (by decide)

end IntTx

end RtKernel.Serial
