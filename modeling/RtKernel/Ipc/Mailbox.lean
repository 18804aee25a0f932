import Mathlib.Data.Fin.VecNotation
import RtKernel.Ipc.Wakeup

/-!
# Mailboxes

A mailbox is a ring of mails with two suspend lists, for receivers that find it
empty and for senders that find it full. A thread that is woken goes on with the
loop of its call and may have to wait again.
-/

namespace RtKernel.Mailbox

open Kernel Option Function

/-- `RT_MB_ENTRY_MAX`, the largest `rt_uint16_t`. -/
def rtMbEntryMax : Nat := 65535

/-- `struct rt_mailbox`; its suspend lists are kept with the threads. -/
structure RtMailbox (β : Type*) where
  msgPool : Nat → β
  size : Nat
  entry : Nat
  inOffset : Nat
  outOffset : Nat
  flag : IpcFlag

variable {τ ω β : Type*} [DecidableEq τ] [DecidableEq ω]

/-- `rt_mb_send_wait` from the head of its loop to where it returns or is suspended. -/
def sendLoop (k : Kernel τ ω) (mb : RtMailbox β) (x : Side → ω) (value : β) (timeout : Int) :
    Kernel τ ω × RtMailbox β × Ending :=
  if mb.entry = mb.size then
    if timeout = 0 then (k.setError .eok, mb, .returns .efull)
    else (k.block (x .sender) mb.flag (0 < timeout), mb, .waits)
  else
    let mb := { mb with
      msgPool := update mb.msgPool mb.inOffset value
      inOffset := if mb.size ≤ mb.inOffset + 1 then 0 else mb.inOffset + 1 }
    if mb.entry < rtMbEntryMax then
      let mb := { mb with entry := mb.entry + 1 }
      let (k, ending) := k.resumeFirst (x .receiver)
      (k, mb, ending)
    else (k, mb, .returns .efull)

/-- `rt_mb_send_wait` to where it returns or is suspended. -/
def rtMbSendWait (k : Kernel τ ω) (mb : RtMailbox β) (x : Side → ω) (value : β) (timeout : Int) :
    Option (Kernel τ ω × RtMailbox β × Ending) :=
  if timeout ≠ 0 ∧ k.schedulerLockNest ≠ 0 then none -- RT_DEBUG_SCHEDULER_AVAILABLE
  else if mb.entry = mb.size ∧ timeout = 0 then some (k, mb, .returns .efull)
  else some (sendLoop k mb x value timeout)

/-- `rt_mb_urgent`. -/
def rtMbUrgent (k : Kernel τ ω) (mb : RtMailbox β) (x : Side → ω) (value : β) :
    Kernel τ ω × RtMailbox β × Ending :=
  if mb.entry = mb.size then (k, mb, .returns .efull)
  else
    let mb := { mb with outOffset := if 0 < mb.outOffset then mb.outOffset - 1 else mb.size - 1 }
    let mb := { mb with
      msgPool := update mb.msgPool mb.outOffset value, entry := mb.entry + 1 }
    let (k, ending) := k.resumeFirst (x .receiver)
    (k, mb, ending)

/-- `rt_mb_recv` from the head of its loop to where it returns, maybe with a mail, or is
suspended. -/
def recvLoop (k : Kernel τ ω) (mb : RtMailbox β) (x : Side → ω) (timeout : Int) :
    Kernel τ ω × RtMailbox β × Ending × Option β :=
  if mb.entry = 0 then
    if timeout = 0 then (setError (k.setError .eok) .etimeout, mb, .returns .etimeout, none)
    else (k.block (x .receiver) mb.flag (0 < timeout), mb, .waits, none)
  else
    let value := mb.msgPool mb.outOffset
    let mb := { mb with
      outOffset := if mb.size ≤ mb.outOffset + 1 then 0 else mb.outOffset + 1
      entry := mb.entry - 1 }
    let (k, ending) := k.resumeFirst (x .sender)
    (k, mb, ending, some value)

/-- `rt_mb_recv` to where it returns or is suspended. -/
def rtMbRecv (k : Kernel τ ω) (mb : RtMailbox β) (x : Side → ω) (timeout : Int) :
    Option (Kernel τ ω × RtMailbox β × Ending × Option β) :=
  if timeout ≠ 0 ∧ k.schedulerLockNest ≠ 0 then none -- RT_DEBUG_SCHEDULER_AVAILABLE
  else if mb.entry = 0 ∧ timeout = 0 then some (k, mb, .returns .etimeout, none)
  else some (recvLoop k mb x timeout)

/-- `rt_mb_control` with `RT_IPC_CMD_RESET`, up to its call of `rt_schedule`. -/
def rtMbReset (k : Kernel τ ω) (mb : RtMailbox β) (x : Side → ω) : Kernel τ ω × RtMailbox β :=
  let k := k.ipcListResumeAll (x .receiver)
  let k := k.ipcListResumeAll (x .sender)
  (k, { mb with entry := 0, inOffset := 0, outOffset := 0 })

/-- A call that is suspended or has been, and goes on with its loop. -/
inductive Call (β : Type*)
  | sendWait (value : β) (timeout : Int)
  | recv (timeout : Int)

/-- The list that a call has been suspended on. -/
def waitsOn : Call β → Option Side
  | .sendWait _ _ => some .sender
  | .recv _ => some .receiver

/-- What the current thread, an interrupt or the timer does. -/
inductive Act (τ β : Type*)
  | sendWait (value : β) (timeout : Int)
  | recv (timeout : Int)
  /-- The current thread goes on with its call, with `left` ticks left of a finite timeout. -/
  | go (left : Nat)
  | urgent (value : β)
  | reset
  | isrSend (value : β)
  | isrRecv
  | timeout (t : τ)
  /-- The current thread waits for something else. -/
  | sleep
  | resume (t : τ)
  | background (b : Background τ)

/-- The threads and a mailbox. -/
structure Sys (τ β : Type*) extends Callers τ Side (Call β) where
  mb : RtMailbox β

/-- What there is for each list: mails for the receivers, free room for the senders. -/
def RtMailbox.items (mb : RtMailbox β) : Side → Nat
  | .receiver => mb.entry
  | .sender => mb.size - mb.entry

namespace Sys

/-- The current thread leaves the locked part of the call `c`, or is suspended in it. -/
def finish (s : Sys τ β) (c : Call β) (k : Kernel τ Side) (mb : RtMailbox β) (ending : Ending) :
    Sys τ β :=
  let callers := Callers.enter { s.toCallers with kernel := k }
    (if ending = .waits then some c else none)
  { s with toCallers := callers, mb := mb }

/-- A step; there is none where it cannot happen or an assertion fails. -/
def exec (s : Sys τ β) : Act τ β → Option (Sys τ β)
  | .sendWait value timeout =>
      if s.Free then
        (rtMbSendWait s.kernel s.mb id value timeout).map fun (k, mb, ending) =>
          s.finish (.sendWait value timeout) k mb ending
      else none
  | .recv timeout =>
      if s.Free then
        (rtMbRecv s.kernel s.mb id timeout).map fun (k, mb, ending, _) =>
          s.finish (.recv timeout) k mb ending
      else none
  | .go left =>
      -- the idle thread never waits, so `rt_schedule` comes back only to a thread that runs
      if s.Running then
        (s.call s.kernel.current).map fun c =>
          if (s.kernel.thread s.kernel.current).error ≠ .eok then
            { s with toCallers := s.toCallers.enter none }
          else match c with
            | .sendWait value timeout =>
                let timeout := remaining timeout left
                let (k, mb, ending) := sendLoop s.kernel s.mb id value timeout
                s.finish (.sendWait value timeout) k mb ending
            | .recv timeout =>
                let timeout := remaining timeout left
                let (k, mb, ending, _) := recvLoop s.kernel s.mb id timeout
                s.finish (.recv timeout) k mb ending
      else none
  | .urgent value =>
      let (k, mb, _) := rtMbUrgent s.kernel s.mb id value
      some { s with kernel := k, mb := mb }
  | .reset =>
      let (k, mb) := rtMbReset s.kernel s.mb id
      some { s with kernel := k, mb := mb }
  | .isrSend value =>
      (rtMbSendWait s.kernel s.mb id value 0).map fun (k, mb, _) =>
        { s with kernel := k, mb := mb }
  | .isrRecv =>
      (rtMbRecv s.kernel s.mb id 0).map fun (k, mb, _) => { s with kernel := k, mb := mb }
  | .timeout t => (s.toCallers.timeout t).map fun c => { s with toCallers := c }
  | .sleep => if s.Free then some { s with kernel := s.kernel.rtThreadSleep } else none
  | .resume t => some { s with kernel := s.kernel.rtThreadResume t }
  | .background b => (s.toCallers.background b).map fun c => { s with toCallers := c }

def Step (s : Sys τ β) (a : Act τ β) (s' : Sys τ β) : Prop := s.exec a = some s'

/-- The mailbox has been initialised, and no call has been made. -/
structure Initial (s : Sys τ β) : Prop where
  inv : ∃ started, s.kernel.Inv started
  wait : ∀ x, s.kernel.wait x = []
  call : ∀ t, s.call t = none
  size : s.mb.size ≤ rtMbEntryMax
  entry : s.mb.entry = 0
  inOffset : s.mb.inOffset = 0
  outOffset : s.mb.outOffset = 0

variable [Fintype τ]

/-- The invariant of a run. -/
structure Good (s : Sys τ β) : Prop where
  entry : s.mb.entry ≤ s.mb.size
  size : s.mb.size ≤ rtMbEntryMax
  served : s.Served waitsOn s.mb.items

section

variable {s : Sys τ β}

section

variable (h : s.Good) {x : Side} {mb : RtMailbox β} {s' : Sys τ β}
include h

/-- A locked part that returns and has used up an item of `x` for one of the other list. -/
theorem Good.pass (hrun : s.Running)
    (hon : s.on waitsOn s.kernel.current ≠ some x.other) (c : Call β)
    (hsize : mb.size = s.mb.size) (hentry : mb.entry ≤ mb.size)
    (hx : mb.items x = s.mb.items x - 1) (ho : mb.items x.other = s.mb.items x.other + 1) :
    (s.finish c (s.kernel.resumeFirst x.other).1 mb (s.kernel.resumeFirst x.other).2).Good := by
  refine ⟨hentry, hsize ▸ h.size, ?_⟩
  have hpass := h.served.pass hrun hon hx ho
  have hreturns : (s.kernel.resumeFirst x.other).2 ≠ .waits := by
    rcases resumeFirst_cases h.served.ok.waits x.other with ⟨t, rest, -, heq⟩ | ⟨-, heq⟩
    · rw [heq]
      nofun
    · rw [heq]
      nofun
  unfold finish
  rw [if_neg hreturns]
  exact hpass

/-- A thread that is free or has been woken from the senders' list goes through the loop. -/
theorem Good.sendLoop (hrun : s.Running)
    (hon : s.on waitsOn s.kernel.current ≠ some .receiver) (value : β) (timeout : Int) :
    let (k, mb, ending) := sendLoop s.kernel s.mb id value timeout
    (s.finish (.sendWait value timeout) k mb ending).Good := by
  unfold Mailbox.sendLoop
  by_cases hfull : s.mb.entry = s.mb.size
  · have hroom : s.mb.items .sender = 0 := by
      simp only [RtMailbox.items, hfull, Nat.sub_self]
    rw [if_pos hfull]
    by_cases ht : timeout = 0
    · rw [if_pos ht]
      exact ⟨h.entry, h.size, h.served.refuse (x := .sender) hrun hon hroom .eok⟩
    · rw [if_neg ht]
      exact ⟨h.entry, h.size, h.served.wait (x := .sender) hrun hon hroom rfl _ _⟩
  · have hentry := h.entry
    have hsize := h.size
    simp only [hfull, if_false]
    rw [if_pos (by omega)]
    refine h.pass hrun (x := .sender) hon _ rfl ?_ ?_ rfl
    · simp only
      omega
    · simp only [RtMailbox.items]
      omega

/-- A thread that is free or has been woken from the receivers' list goes through the loop. -/
theorem Good.recvLoop (hrun : s.Running)
    (hon : s.on waitsOn s.kernel.current ≠ some .sender) (timeout : Int) :
    let (k, mb, ending, _) := recvLoop s.kernel s.mb id timeout
    (s.finish (.recv timeout) k mb ending).Good := by
  unfold Mailbox.recvLoop
  by_cases hempty : s.mb.entry = 0
  · rw [if_pos hempty]
    by_cases ht : timeout = 0
    · rw [if_pos ht, setError_setError]
      exact ⟨h.entry, h.size, h.served.refuse (x := .receiver) hrun hon hempty .etimeout⟩
    · rw [if_neg ht]
      exact ⟨h.entry, h.size, h.served.wait (x := .receiver) hrun hon hempty rfl _ _⟩
  · have hentry := h.entry
    simp only [hempty, if_false]
    refine h.pass hrun (x := .receiver) hon _ rfl ?_ rfl ?_
    · simp only
      omega
    · simp only [RtMailbox.items, Side.other]
      omega

/-- An interrupt, or a thread between its calls, has made an item for the list `x`. -/
theorem Good.give (hsize : mb.size = s.mb.size)
    (hentry : mb.entry ≤ mb.size) (hx : mb.items x = s.mb.items x + 1)
    (ho : mb.items x.other ≤ s.mb.items x.other) :
    Good { s with kernel := (s.kernel.resumeFirst x).1, mb := mb } := by
  refine ⟨hentry, hsize ▸ h.size, ?_⟩
  have hle : s.Served waitsOn (update s.mb.items x.other (mb.items x.other)) :=
    h.served.le ?_
  · refine hle.give ?_ ?_
    · rw [update_of_ne x.other_ne.symm]
      exact hx
    · rw [update_self]
  · intro y
    rcases x.eq_or y with rfl | rfl
    · rw [update_of_ne y.other_ne.symm]
    · rw [update_self]
      exact ho

theorem Good.urgent (value : β) : let (k, mb, _) := rtMbUrgent s.kernel s.mb id value
    Good { s with kernel := k, mb := mb } := by
  unfold rtMbUrgent
  by_cases hfull : s.mb.entry = s.mb.size
  · rw [if_pos hfull]
    exact h
  · have hentry := h.entry
    rw [if_neg hfull]
    refine h.give (x := .receiver) rfl ?_ rfl ?_
    · simp only
      omega
    · simp only [RtMailbox.items, Side.other]
      omega

theorem Good.isrSend (hfull : s.mb.entry ≠ s.mb.size) (value : β) :
    let (k, mb, _) := Mailbox.sendLoop s.kernel s.mb id value 0
    Good { s with kernel := k, mb := mb } := by
  have hentry := h.entry
  have hsize := h.size
  unfold Mailbox.sendLoop
  simp only [hfull, if_false]
  rw [if_pos (by omega)]
  refine h.give (x := .receiver) rfl ?_ rfl ?_
  · simp only
    omega
  · simp only [RtMailbox.items, Side.other]
    omega

theorem Good.isrRecv (hempty : s.mb.entry ≠ 0) :
    let (k, mb, _) := Mailbox.recvLoop s.kernel s.mb id 0
    Good { s with kernel := k, mb := mb } := by
  have hentry := h.entry
  unfold Mailbox.recvLoop
  simp only [hempty, if_false]
  refine h.give (x := .sender) rfl ?_ ?_ ?_
  · simp only
    omega
  · simp only [RtMailbox.items]
    omega
  · simp only [RtMailbox.items, Side.other]
    omega

theorem Good.go (hrun : s.Running) {c : Call β} (hc : s.call s.kernel.current = some c)
    {left : Nat} (hstep : Step s (.go left) s') : s'.Good := by
  rw [Step, exec, if_pos hrun, hc, map_some, some.injEq] at hstep
  subst hstep
  by_cases herror : (s.kernel.thread s.kernel.current).error ≠ .eok
  · rw [if_pos herror]
    exact ⟨h.entry, h.size, h.served.leave hrun herror⟩
  · rw [if_neg herror]
    have hon : s.on waitsOn s.kernel.current = waitsOn c := by
      unfold Callers.on
      rw [hc]
      rfl
    cases c with
    | sendWait value timeout => exact h.sendLoop hrun (by rw [hon]; nofun) value _
    | recv timeout => exact h.recvLoop hrun (by rw [hon]; nofun) _

theorem Good.step {a : Act τ β} (hstep : Step s a s') : s'.Good := by
  cases a with
  | sendWait value timeout =>
    simp only [Step, exec, rtMbSendWait] at hstep
    split_ifs at hstep with hfree hlock hfull
    · cases hstep
    · cases hstep
      exact ⟨h.entry, h.size, h.served.enter hfree.1 (hfree.on_eq waitsOn) rfl⟩
    · cases hstep
      exact h.sendLoop hfree.1 (by rw [hfree.on_eq]; nofun) value timeout
  | recv timeout =>
    simp only [Step, exec, rtMbRecv] at hstep
    split_ifs at hstep with hfree hlock hempty
    · cases hstep
    · cases hstep
      exact ⟨h.entry, h.size, h.served.enter hfree.1 (hfree.on_eq waitsOn) rfl⟩
    · cases hstep
      exact h.recvLoop hfree.1 (by rw [hfree.on_eq]; nofun) timeout
  | go left =>
    by_cases hrun : s.Running
    · cases hc : s.call s.kernel.current with
      | none =>
        rw [Step, exec, if_pos hrun, hc] at hstep
        cases hstep
      | some c => exact h.go hrun hc hstep
    · rw [Step, exec, if_neg hrun] at hstep
      cases hstep
  | urgent value =>
    cases hstep
    exact h.urgent value
  | reset =>
    cases hstep
    exact ⟨Nat.zero_le _, h.size, .ipcListResumeAll h.served.ok _⟩
  | isrSend value =>
    simp only [Step, exec, rtMbSendWait, ne_eq, not_true_eq_false, false_and, if_false,
      and_true] at hstep
    split_ifs at hstep with hfull
    · cases hstep
      exact h
    · cases hstep
      exact h.isrSend hfull value
  | isrRecv =>
    simp only [Step, exec, rtMbRecv, ne_eq, not_true_eq_false, false_and, if_false,
      and_true] at hstep
    split_ifs at hstep with hempty
    · cases hstep
      exact h
    · cases hstep
      exact h.isrRecv hempty
  | timeout t =>
    obtain ⟨c, hc, rfl⟩ := map_eq_some_iff.mp hstep
    obtain ⟨k, hk, rfl⟩ := Callers.timeout_cases hc
    exact ⟨h.entry, h.size, h.served.timeout hk⟩
  | sleep =>
    rw [Step, exec] at hstep
    split_ifs at hstep with hfree
    cases hstep
    exact ⟨h.entry, h.size, h.served.rtThreadSleep hfree⟩
  | resume t =>
    cases hstep
    exact ⟨h.entry, h.size, h.served.rtThreadResume t⟩
  | background b =>
    obtain ⟨c, hc, rfl⟩ := map_eq_some_iff.mp hstep
    obtain ⟨k, hk, rfl⟩ := Callers.background_cases hc
    exact ⟨h.entry, h.size, h.served.background hk⟩

end

omit [DecidableEq τ] in
theorem Initial.good (h : s.Initial) : s.Good := by
  refine ⟨?_, h.size, .start h.inv h.wait h.call, fun x => .empty (h.wait x)⟩
  rw [h.entry]
  exact Nat.zero_le _

theorem reachable_good (h : Reachable Initial Step s) : s.Good :=
  h.induct (·.good) (·.step)

end

end Sys

end RtKernel.Mailbox
