import RtKernel.Core.Run
import Mathlib.Logic.Function.Basic
import Mathlib.Tactic.SplitIfs

/-!
# Sending CAN messages

A write takes a send box, gives its message to the driver and waits for the completion
of the box, which the interrupt reports with a result. In normal mode the boxes that are
free are in `freelist` and a semaphore counts them; in private mode the message names its
box, and a write may use it while its result is `RT_CAN_SND_RESULT_OK`.
`RT_CAN_CMD_SET_PRIV` changes the mode, and what is in the list, box after box.

`β` are the contents of messages and `τ` the threads. A write has whole messages. A token
that is released for a thread that waits stays in the value until the thread takes it.
There is no result where an assertion fails, where a box is taken from an empty list, and
where a box is inserted that is linked already.
-/

namespace RtKernel.CanSend

open Function

/-- `RT_CAN_SND_RESULT_*`. -/
inductive Result
  | ok
  | err
  | wait
  deriving DecidableEq

/-- `struct rt_can_msg`, of which `priv` names a box. -/
structure Msg (β : Type*) where
  priv : Nat
  body : β
  deriving DecidableEq

/-- `struct rt_can_sndbxinx_list` without its list node. -/
structure Box (τ : Type*) where
  result : Result
  /-- `completion.flag` is `RT_COMPLETED`. -/
  flag : Bool
  /-- `completion.suspended_list`, for one thread at most. -/
  suspended : Option τ

/-- What a write knows. -/
structure Call (β : Type*) where
  /-- What is left to be sent. -/
  data : List (Msg β)
  /-- The box, where it has one. -/
  no : Nat
  /-- The transmission of its message, where there is one. -/
  tx : Nat

/-- Where a wait goes on. -/
inductive After
  /-- In `_can_int_tx`. -/
  | collect
  /-- In `_can_int_tx_priv`, with the next look at the box. -/
  | test
  /-- In `_can_int_tx_priv`, with the result. -/
  | read
  deriving DecidableEq

/-- Where a thread is. -/
inductive Phase (β : Type*)
  | idle
  /-- `_can_int_tx`: at `rt_sem_take`. -/
  | take (c : Call β)
  /-- It has a token and takes a box next. -/
  | pop (c : Call β)
  /-- It sets the result to `RT_CAN_SND_RESULT_WAIT` next. -/
  | mark (c : Call β)
  /-- At `sendmsg` in either mode. -/
  | send (priv : Bool) (c : Call β)
  /-- The driver has refused the message. -/
  | undo (c : Call β)
  /-- At the `rt_sem_release` before `continue`. -/
  | retry (c : Call β)
  /-- At `rt_completion_wait`. -/
  | wait (after : After) (c : Call β)
  | suspended (after : After) (c : Call β)
  /-- The thread was resumed. -/
  | woken (after : After) (c : Call β)
  /-- It takes the result and puts the box back next. -/
  | collect (c : Call β)
  /-- At the `rt_sem_release` after that. -/
  | release (c : Call β) (result : Result)
  /-- `_can_int_tx_priv`: it looks at the result of the box next. -/
  | test (c : Call β)
  /-- It takes the result next. -/
  | read (c : Call β)
  /-- `RT_CAN_CMD_SET_PRIV`: the mode has been changed. -/
  | switch
  /-- It looks at a box on the way to private mode. -/
  | toPriv (i : Nat)
  /-- It looks at a box on the way to normal mode. -/
  | toNopriv (i : Nat)

/-- `RT_SEM_VALUE_MAX`. -/
def rtSemValueMax : Nat := 65535

/-- The device, with the threads and what has happened. -/
structure Can (τ β : Type*) where
  /-- `config.sndboxnumber`. -/
  sndboxnumber : Nat
  /-- `config.privmode`. -/
  privmode : Bool
  /-- `tx_fifo->sem.value`. -/
  sem : Nat
  freelist : List Nat
  buffer : Nat → Box τ
  phase : τ → Phase β
  /-- How many messages the driver has accepted. -/
  sent : Nat
  /-- The box of a transmission. -/
  boxOf : Nat → Nat
  /-- What was reported for which transmission. -/
  events : List (Nat × Result)
  /-- The results that writes have counted, with the transmissions of their messages. -/
  counted : List (Nat × Result)

namespace Can

variable {τ β : Type*}

section

variable [DecidableEq τ]

def setPhase (s : Can τ β) (t : τ) (phase : Phase β) : Can τ β :=
  { s with phase := update s.phase t phase }

def setBox (s : Can τ β) (no : Nat) (box : Box τ) : Can τ β :=
  { s with buffer := update s.buffer no box }

def setResult (s : Can τ β) (no : Nat) (result : Result) : Can τ β :=
  s.setBox no { s.buffer no with result := result }

/-- `rt_sem_release`. -/
def rtSemRelease (s : Can τ β) : Can τ β :=
  if s.sem < rtSemValueMax then { s with sem := s.sem + 1 } else s

/-- `rt_list_insert_after(&tx_fifo->freelist, &tx_tosnd->list)`. -/
def insertAfter (s : Can τ β) (no : Nat) : Option (Can τ β) :=
  if no ∈ s.freelist then none else some { s with freelist := no :: s.freelist }

/-- `rt_list_insert_before(&tx_fifo->freelist, &tx_tosnd->list)`. -/
def insertBefore (s : Can τ β) (no : Nat) : Option (Can τ β) :=
  if no ∈ s.freelist then none else some { s with freelist := s.freelist ++ [no] }

/-- `rt_completion_wait`, to where it returns or the thread is suspended. -/
def rtCompletionWait (s : Can τ β) (t : τ) (after : After) (c : Call β) (returned : Phase β) :
    Option (Can τ β) :=
  if (s.buffer c.no).flag then
    some ((s.setBox c.no { s.buffer c.no with flag := false }).setPhase t returned)
  else if (s.buffer c.no).suspended.isNone then
    some ((s.setBox c.no { s.buffer c.no with suspended := some t }).setPhase t (.suspended after c))
  else none

/-- Where a call is when its wait has returned. -/
def returned (after : After) (c : Call β) : Phase β :=
  match after with
  | .collect => .collect c
  | .test => .test c
  | .read => .read c

/-- The head of the loop `while (msgs)`, in the mode of the call. -/
def loop (priv : Bool) (c : Call β) : Phase β :=
  if c.data.isEmpty then .idle else if priv then .test c else .take c

/-- What a call does with the result of its message. -/
def countResult (s : Can τ β) (t : τ) (priv : Bool) (c : Call β) (result : Result) : Can τ β :=
  setPhase { s with counted := s.counted ++ [(c.tx, result)] } t
    (if result = .ok then loop priv { c with data := c.data.tail } else .idle)

/-- The next step of a thread, less those that the driver decides. -/
def next (s : Can τ β) (t : τ) : Option (Can τ β) :=
  match s.phase t with
  | .idle => none
  | .take c => if 0 < s.sem then some (setPhase { s with sem := s.sem - 1 } t (.pop c)) else none
  | .pop c =>
    match s.freelist with
    | [] => none
    | no :: rest => some (setPhase { s with freelist := rest } t (.mark { c with no := no }))
  | .mark c => some ((s.setResult c.no .wait).setPhase t (.send false c))
  | .send _ _ => none
  | .undo c => (s.insertAfter c.no).map fun s => s.setPhase t (.retry c)
  | .retry c => some (s.rtSemRelease.setPhase t (.take c))
  | .wait after c => s.rtCompletionWait t after c (returned after c)
  | .suspended _ _ => none
  | .woken after c =>
    -- clean completed flag
    some ((s.setBox c.no { s.buffer c.no with flag := false }).setPhase t (returned after c))
  | .collect c =>
    (insertBefore { s with freelist := s.freelist.erase c.no } c.no).map fun s' =>
      s'.setPhase t (.release c (s.buffer c.no).result)
  | .release c result => some (s.rtSemRelease.countResult t false c result)
  | .test c =>
    match c.data with
    | [] => none
    | m :: _ =>
      if s.sndboxnumber ≤ m.priv then some (s.setPhase t .idle)
      else if (s.buffer m.priv).result = .ok then
        some ((s.setResult m.priv .wait).setPhase t (.send true { c with no := m.priv }))
      else some (s.setPhase t (.wait .test { c with no := m.priv }))
  | .read c => some (s.countResult t true c (s.buffer c.no).result)
  | .switch => some (s.setPhase t (if s.privmode then .toPriv 0 else .toNopriv 0))
  | .toPriv i =>
    if i < s.sndboxnumber then
      some ((if i ∈ s.freelist then { s with freelist := s.freelist.erase i }
        else s.rtSemRelease).setPhase t (.toPriv (i + 1)))
    else some (s.setPhase t .idle)
  | .toNopriv i =>
    if i < s.sndboxnumber then
      (if (s.buffer i).result = .ok then s.insertBefore i else some s).map fun s =>
        s.setPhase t (.toNopriv (i + 1))
    else some (s.setPhase t .idle)

/-- `sendmsg` of the driver, which accepts the message or refuses it. -/
def sendmsg (s : Can τ β) (t : τ) (accepted : Bool) : Option (Can τ β) :=
  match s.phase t with
  | .send priv c =>
    if accepted then
      some (setPhase
        { s with sent := s.sent + 1, boxOf := update s.boxOf s.sent c.no } t
        (.wait (if priv then .read else .collect) { c with tx := s.sent }))
    else some (s.setPhase t (if priv then .test c else .undo c))
  | _ => none

/-- `rt_completion_done`, where no thread runs before it returns. -/
def rtCompletionDone (s : Can τ β) (no : Nat) : Can τ β :=
  if (s.buffer no).flag then s
  else
    match (s.buffer no).suspended with
    | none => s.setBox no { s.buffer no with flag := true }
    | some t =>
      (s.setBox no { s.buffer no with flag := true, suspended := none }).setPhase t
        (match s.phase t with
        | .suspended after c => .woken after c
        | phase => phase)

/-- The result of a box is set, by the report on a transmission. -/
def report (s : Can τ β) (no tx : Nat) (result : Result) : Can τ β :=
  { s.setResult no result with events := s.events ++ [(tx, result)] }

/-- `rt_hw_can_isr` for `RT_CAN_EVENT_TX_DONE` or `RT_CAN_EVENT_TX_FAIL` with the box `no`. -/
def rtHwCanIsr (s : Can τ β) (no tx : Nat) (done : Bool) : Can τ β :=
  (s.report no tx (if done then .ok else .err)).rtCompletionDone no

/-- `_can_isr`, which names no box, so that it reports to the first one. -/
def canIsr (s : Can τ β) (tx : Nat) (done : Bool) : Can τ β := s.rtHwCanIsr 0 tx done

/-- `RT_CAN_CMD_SET_PRIV`, where the driver changes the mode and then configures the controller. -/
def setPriv (s : Can τ β) (t : τ) (privmode configured : Bool) : Can τ β :=
  if privmode = s.privmode then s
  else setPhase { s with privmode := privmode } t (if configured then .switch else .idle)

/-- What may happen. -/
inductive Act (τ β : Type*)
  | write (t : τ) (data : List (Msg β))
  | setPriv (t : τ) (privmode configured : Bool)
  | next (t : τ)
  | sendmsg (t : τ) (accepted : Bool)
  /-- The transmission is done or has failed; one that has failed may be reported again. -/
  | event (tx : Nat) (done : Bool)

/-- One step of a run. A write of nothing returns at once. -/
def exec (s : Can τ β) : Act τ β → Option (Can τ β)
  | .write t data =>
    match s.phase t, data with
    | .idle, _ :: _ => some (s.setPhase t (loop s.privmode { data := data, no := 0, tx := 0 }))
    | _, _ => none
  | .setPriv t privmode configured =>
    match s.phase t with
    | .idle => some (s.setPriv t privmode configured)
    | _ => none
  | .next t => s.next t
  | .sendmsg t accepted => s.sendmsg t accepted
  | .event tx done =>
    if tx < s.sent ∧ (tx, Result.ok) ∉ s.events then some (s.canIsr tx done) else none

end

/-- `rt_can_open` has been called. -/
structure Initial (s : Can τ β) : Prop where
  sndboxnumber : 1 ≤ s.sndboxnumber ∧ s.sndboxnumber ≤ rtSemValueMax
  sem : s.sem = s.sndboxnumber
  freelist : s.freelist = List.range s.sndboxnumber
  buffer : ∀ no, s.buffer no = { result := .ok, flag := false, suspended := none }
  phase : ∀ t, s.phase t = .idle
  ghost : s.sent = 0 ∧ s.events = [] ∧ s.counted = []

section

variable [DecidableEq τ] {s t : Can τ β} {u : τ}

theorem exec_write {data : List (Msg β)} (h : s.exec (.write u data) = some t) :
    s.phase u = .idle ∧ data ≠ [] ∧
      t = s.setPhase u (loop s.privmode { data := data, no := 0, tx := 0 }) := by
  simp only [exec] at h
  split at h
  · next hidle =>
    cases h
    exact ⟨hidle, List.cons_ne_nil _ _, rfl⟩
  · cases h

theorem exec_setPriv {privmode configured : Bool}
    (h : s.exec (.setPriv u privmode configured) = some t) :
    s.phase u = .idle ∧ t = s.setPriv u privmode configured := by
  simp only [exec] at h
  split at h
  · next hidle =>
    cases h
    exact ⟨hidle, rfl⟩
  · cases h

/-- What happens to the threads when a completion is done. -/
theorem rtCompletionDone_phase (s : Can τ β) (no : Nat) : (s.rtCompletionDone no).phase = s.phase ∨
    ∃ v after c, (s.buffer no).suspended = some v ∧ s.phase v = .suspended after c ∧
      (s.rtCompletionDone no).phase = update s.phase v (.woken after c) := by
  unfold rtCompletionDone
  split_ifs with hflag
  · exact .inl rfl
  · cases hsuspended : (s.buffer no).suspended with
    | none => exact .inl rfl
    | some v =>
      dsimp only [setPhase, setBox]
      cases hv : s.phase v with
      | suspended after c => exact .inr ⟨v, after, c, rfl, hv, rfl⟩
      | _ =>
        left
        dsimp only
        rw [← hv, update_eq_self]

end

/-- A device that has just been opened in normal mode; contents are numbers. -/
def opened (sndboxnumber : Nat) : Can (Fin 2) Nat where
  sndboxnumber := sndboxnumber
  privmode := false
  sem := sndboxnumber
  freelist := List.range sndboxnumber
  buffer := fun _ => { result := .ok, flag := false, suspended := none }
  phase := fun _ => .idle
  sent := 0
  boxOf := fun _ => 0
  events := []
  counted := []

theorem opened_initial (sndboxnumber : Nat)
    (h : 1 ≤ sndboxnumber ∧ sndboxnumber ≤ rtSemValueMax) : Initial (opened sndboxnumber) :=
  ⟨h, rfl, rfl, fun _ => rfl, fun _ => rfl, ⟨rfl, rfl, rfl⟩⟩

/-- A write of one message in normal mode up to where it waits. -/
def writeUntilWait (t : Fin 2) (body : Nat) : List (Act (Fin 2) Nat) :=
  [.write t [{ priv := 0, body := body }], .next t, .next t, .next t, .sendmsg t true, .next t]

end Can

end RtKernel.CanSend
