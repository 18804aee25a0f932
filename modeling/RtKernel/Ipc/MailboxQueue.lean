import RtKernel.Core.Deque
import RtKernel.Core.Ring
import RtKernel.Ipc.Mailbox

/-!
# A mailbox is a bounded queue

The mails of a mailbox are the items of its ring. Each pass of a call through its
loop is one event at a bounded queue with two ends, and gets the answer of the
queue; a call that is refused may return or wait.
-/

open Option

namespace RtKernel.Mailbox

open Kernel

variable {τ ω β : Type*} [DecidableEq τ] [DecidableEq ω]

/-- The mails, in the order in which they are received. -/
def RtMailbox.mails (mb : RtMailbox β) : List β :=
  ringItems mb.msgPool mb.size mb.outOffset mb.entry

@[simp] theorem length_mails (mb : RtMailbox β) : mb.mails.length = mb.entry := length_ringItems

/-- The counters of a mailbox fit together. -/
structure RtMailbox.Ring (mb : RtMailbox β) : Prop where
  entry : mb.entry ≤ mb.size
  entryMax : mb.size ≤ rtMbEntryMax
  outOffset : mb.outOffset < mb.size
  inOffset : mb.inOffset = (mb.outOffset + mb.entry) % mb.size

/-- What a send has been answered where it ends. -/
def sendAnswer : Ending → QueueAnswer β
  | .returns .efull => .refused
  | .waits => .refused
  | _ => .accepted

/-- What a receive has been answered. -/
def recvAnswer : Option β → QueueAnswer β
  | none => .refused
  | some value => .item value

/-- A function has done at the mailbox what the queue does at the event `e`. -/
structure Serves (mb : RtMailbox β) (e : QueueEvent β) (mb' : RtMailbox β)
    (reply : QueueAnswer β) : Prop where
  ring : mb'.Ring
  size : mb'.size = mb.size
  mails : mb'.mails = (BoundedDeque.step mb.size mb.mails e).1
  answer : reply = (BoundedDeque.step mb.size mb.mails e).2
  refused : reply = .refused → mb' = mb

section

variable {mb : RtMailbox β} {k : Kernel τ ω} {x : Side → ω}

omit [DecidableEq ω] in
/-- Waking the next thread, a send is not refused. -/
theorem sendAnswer_resumeFirst (k : Kernel τ ω) (y : ω) :
    (sendAnswer (k.resumeFirst y).2 : QueueAnswer β) = .accepted := by
  unfold resumeFirst
  split
  · rfl
  · rfl

section

variable (h : mb.Ring) {timeout : Int}
include h

theorem RtMailbox.Ring.full (hfull : mb.entry = mb.size) (value : β) :
    Serves mb (.back value) mb .refused ∧ Serves mb (.front value) mb .refused := by
  have hlength : mb.mails.length = mb.size := (length_mails mb).trans hfull
  constructor
  all_goals
    refine ⟨h, rfl, ?_, ?_, fun _ => rfl⟩
    all_goals rw [BoundedDeque.step, if_pos hlength]

theorem RtMailbox.Ring.empty (hempty : mb.entry = 0) : Serves mb .take mb .refused := by
  have hmails : mb.mails = [] := List.length_eq_zero_iff.mp ((length_mails mb).trans hempty)
  refine ⟨h, rfl, ?_, ?_, fun _ => rfl⟩
  · rw [hmails]
    rfl
  · rw [hmails]
    rfl

theorem RtMailbox.Ring.back (hroom : mb.entry ≠ mb.size) (value : β) :
    Serves mb (.back value) { mb with
        msgPool := Function.update mb.msgPool mb.inOffset value
        inOffset := if mb.size ≤ mb.inOffset + 1 then 0 else mb.inOffset + 1
        entry := mb.entry + 1 } .accepted := by
  have hentry := h.entry
  have hin := h.inOffset
  have hlt : mb.inOffset < mb.size := hin ▸ Nat.mod_lt _ (Nat.zero_lt_of_lt h.outOffset)
  have hlength : mb.mails.length ≠ mb.size := by rwa [length_mails]
  refine ⟨⟨?_, h.entryMax, h.outOffset, ?_⟩, rfl, ?_, ?_, nofun⟩
  · simp only
    omega
  · simp only
    rw [ring_next hlt, hin, Nat.mod_add_mod, Nat.add_assoc]
  · rw [BoundedDeque.step, if_neg hlength]
    rw [hin]
    exact ringItems_back (by omega)
  · rw [BoundedDeque.step, if_neg hlength]

theorem RtMailbox.Ring.front (hroom : mb.entry ≠ mb.size) (value : β) :
    Serves mb (.front value) { mb with
        outOffset := if 0 < mb.outOffset then mb.outOffset - 1 else mb.size - 1
        msgPool := Function.update mb.msgPool
          (if 0 < mb.outOffset then mb.outOffset - 1 else mb.size - 1) value
        entry := mb.entry + 1 } .accepted := by
  have hentry := h.entry
  obtain ⟨hlt, hnext⟩ := ring_prev h.outOffset
  have hlength : mb.mails.length ≠ mb.size := by rwa [length_mails]
  refine ⟨⟨?_, h.entryMax, hlt, ?_⟩, rfl, ?_, ?_, nofun⟩
  · simp only
    omega
  · simp only
    rw [Nat.add_comm mb.entry, ← Nat.add_assoc, ← Nat.mod_add_mod _ mb.size mb.entry, hnext,
      h.inOffset]
  · rw [BoundedDeque.step, if_neg hlength]
    simp only [mails]
    rw [ringItems_front hlt (by omega), ← ringItems_mod (o := _ + 1), hnext]
  · rw [BoundedDeque.step, if_neg hlength]

theorem RtMailbox.Ring.take (hsome : mb.entry ≠ 0) : Serves mb .take { mb with
        outOffset := if mb.size ≤ mb.outOffset + 1 then 0 else mb.outOffset + 1
        entry := mb.entry - 1 } (.item (mb.msgPool mb.outOffset)) := by
  have hentry := h.entry
  have hlt := h.outOffset
  have hmails : mb.mails = mb.msgPool mb.outOffset ::
      ringItems mb.msgPool mb.size (mb.outOffset + 1) (mb.entry - 1) := by
    obtain ⟨m, hm⟩ := Nat.exists_eq_succ_of_ne_zero hsome
    rw [RtMailbox.mails, hm, ringItems_succ, Nat.mod_eq_of_lt hlt, Nat.succ_sub_one]
  refine ⟨⟨?_, h.entryMax, ?_, ?_⟩, rfl, ?_, ?_, nofun⟩
  · simp only
    omega
  · simp only
    rw [ring_next hlt]
    exact Nat.mod_lt _ (Nat.zero_lt_of_lt hlt)
  · have hadd : mb.outOffset + 1 + (mb.entry - 1) = mb.outOffset + mb.entry := by omega
    rw [ring_next hlt, h.inOffset, Nat.mod_add_mod, hadd]
  · rw [hmails]
    simp only [mails]
    rw [ring_next hlt, ringItems_mod]
    rfl
  · rw [hmails]
    rfl

theorem sendLoop_serves (value : β) (timeout : Int) :
    Serves mb (.back value) (sendLoop k mb x value timeout).2.1
      (sendAnswer (sendLoop k mb x value timeout).2.2) := by
  unfold sendLoop
  by_cases hfull : mb.entry = mb.size
  · rw [if_pos hfull]
    by_cases ht : timeout = 0
    · rw [if_pos ht]
      exact (h.full hfull value).1
    · rw [if_neg ht]
      exact (h.full hfull value).1
  · have hentry := h.entry
    have hmax := h.entryMax
    simp only [hfull, if_false]
    rw [if_pos (by omega), sendAnswer_resumeFirst]
    exact h.back hfull value

theorem recvLoop_serves (timeout : Int) : Serves mb .take (recvLoop k mb x timeout).2.1
      (recvAnswer (recvLoop k mb x timeout).2.2.2) := by
  unfold recvLoop
  by_cases hempty : mb.entry = 0
  · rw [if_pos hempty]
    by_cases ht : timeout = 0
    · rw [if_pos ht]
      exact h.empty hempty
    · rw [if_neg ht]
      exact h.empty hempty
  · simp only [hempty, if_false]
    exact h.take hempty

omit [DecidableEq ω] in
theorem rtMbUrgent_serves (value : β) : Serves mb (.front value) (rtMbUrgent k mb x value).2.1
      (sendAnswer (rtMbUrgent k mb x value).2.2) := by
  unfold rtMbUrgent
  by_cases hfull : mb.entry = mb.size
  · rw [if_pos hfull]
    exact (h.full hfull value).2
  · rw [if_neg hfull, sendAnswer_resumeFirst]
    exact h.front hfull value

omit [DecidableEq ω] in
theorem rtMbReset_serves : Serves mb .reset (rtMbReset k mb x).2 .accepted :=
  ⟨⟨Nat.zero_le _, h.entryMax, Nat.zero_lt_of_lt h.outOffset, (Nat.zero_mod _).symm⟩, rfl, rfl, rfl,
    nofun⟩

theorem rtMbSendWait_serves {value : β}
    {r : Kernel τ ω × RtMailbox β × Ending} (hr : rtMbSendWait k mb x value timeout = some r) :
    Serves mb (.back value) r.2.1 (sendAnswer r.2.2) := by
  unfold rtMbSendWait at hr
  split_ifs at hr with hlock hfull
  · cases hr
    exact (h.full hfull.1 value).1
  · cases hr
    exact sendLoop_serves h value timeout

theorem rtMbRecv_serves
    {r : Kernel τ ω × RtMailbox β × Ending × Option β} (hr : rtMbRecv k mb x timeout = some r) :
    Serves mb .take r.2.1 (recvAnswer r.2.2.2) := by
  unfold rtMbRecv at hr
  split_ifs at hr with hlock hempty
  · cases hr
    exact h.empty hempty.1
  · cases hr
    exact recvLoop_serves h timeout

end

end

/-- With a timeout of zero, and for an urgent mail, a call fails where the queue is full or empty and
then changes nothing. -/
structure Refusals (k : Kernel τ ω) (mb : RtMailbox β) (x : Side → ω) : Prop where
  sendFails (value) : mb.mails.length = mb.size →
    rtMbSendWait k mb x value 0 = some (k, mb, .returns .efull)
  sendSucceeds (value) : mb.mails.length ≠ mb.size →
    ∃ r, rtMbSendWait k mb x value 0 = some r ∧ (r.2.2 = .returns .eok ∨ r.2.2 = .schedules)
  urgentFails (value) : mb.mails.length = mb.size →
    rtMbUrgent k mb x value = (k, mb, .returns .efull)
  urgentSucceeds (value) : mb.mails.length ≠ mb.size →
    (rtMbUrgent k mb x value).2.2 = .returns .eok ∨ (rtMbUrgent k mb x value).2.2 = .schedules
  recvFails : mb.mails = [] → rtMbRecv k mb x 0 = some (k, mb, .returns .etimeout, none)
  recvSucceeds (value rest) : mb.mails = value :: rest →
    ∃ r, rtMbRecv k mb x 0 = some r ∧ r.2.2.2 = some value ∧
      (r.2.2.1 = .returns .eok ∨ r.2.2.1 = .schedules)

omit [DecidableEq ω] in
theorem resumeFirst_ending (k : Kernel τ ω) (y : ω) :
    (k.resumeFirst y).2 = .returns .eok ∨ (k.resumeFirst y).2 = .schedules := by
  unfold resumeFirst
  split
  · exact .inr rfl
  · exact .inl rfl

theorem RtMailbox.Ring.refusals {mb : RtMailbox β} (h : mb.Ring) (k : Kernel τ ω) (x : Side → ω) :
    Refusals k mb x := by
  have hentry := h.entry
  have hmax := h.entryMax
  constructor
  · intro value hfull
    rw [length_mails] at hfull
    simp [rtMbSendWait, hfull]
  · intro value hroom
    rw [length_mails] at hroom
    refine ⟨sendLoop k mb x value 0, ?_, ?_⟩
    · simp [rtMbSendWait, hroom]
    · simp only [sendLoop, hroom, if_false]
      rw [if_pos (by omega)]
      exact resumeFirst_ending k (x .receiver)
  · intro value hfull
    rw [length_mails] at hfull
    simp [rtMbUrgent, hfull]
  · intro value hroom
    rw [length_mails] at hroom
    rw [rtMbUrgent, if_neg hroom]
    exact resumeFirst_ending k (x .receiver)
  · intro hempty
    have hzero : mb.entry = 0 := by rw [← length_mails, hempty, List.length_nil]
    simp [rtMbRecv, hzero]
  · intro value rest hmails
    have hsome : mb.entry ≠ 0 := by
      rw [← length_mails, hmails]
      exact Nat.succ_ne_zero _
    have hvalue : QueueAnswer.item (mb.msgPool mb.outOffset) = .item value := by
      rw [(h.take hsome).answer, hmails]
      rfl
    refine ⟨recvLoop k mb x 0, ?_, ?_⟩
    · simp [rtMbRecv, hsome]
    · simp only [recvLoop, hsome, if_false]
      exact ⟨congrArg some (QueueAnswer.item.inj hvalue), resumeFirst_ending k (x .sender)⟩

/-- What a step asks of the mailbox, and the answer. -/
def Sys.observe (s : Sys τ β) : Act τ β → List (QueueEvent β × QueueAnswer β)
  | .sendWait value timeout =>
      match rtMbSendWait s.kernel s.mb id value timeout with
      | none => []
      | some (_, _, ending) => [(.back value, sendAnswer ending)]
  | .recv timeout =>
      match rtMbRecv s.kernel s.mb id timeout with
      | none => []
      | some (_, _, _, value) => [(.take, recvAnswer value)]
  | .go left =>
      if (s.kernel.thread s.kernel.current).error ≠ .eok then []
      else match s.call s.kernel.current with
        | none => []
        | some (.sendWait value timeout) =>
            let (_, _, ending) := sendLoop s.kernel s.mb id value (remaining timeout left)
            [(.back value, sendAnswer ending)]
        | some (.recv timeout) =>
            let (_, _, _, value) := recvLoop s.kernel s.mb id (remaining timeout left)
            [(.take, recvAnswer value)]
  | .urgent value =>
      let (_, _, ending) := rtMbUrgent s.kernel s.mb id value
      [(.front value, sendAnswer ending)]
  | .reset => [(.reset, .accepted)]
  | .isrSend value =>
      match rtMbSendWait s.kernel s.mb id value 0 with
      | none => []
      | some (_, _, ending) => [(.back value, sendAnswer ending)]
  | .isrRecv =>
      match rtMbRecv s.kernel s.mb id 0 with
      | none => []
      | some (_, _, _, value) => [(.take, recvAnswer value)]
  | .timeout _ | .sleep | .resume _ | .background _ => []

/-- A step is no event at the mailbox, or one that it serves. -/
theorem Sys.step_serves {s s' : Sys τ β} {a : Act τ β} (h : s.mb.Ring) (hstep : Step s a s') :
    s.observe a = [] ∧ s'.mb = s.mb ∨
      ∃ e reply, s.observe a = [(e, reply)] ∧ Serves s.mb e s'.mb reply := by
  cases a with
  | sendWait value timeout =>
    simp only [Step, exec] at hstep
    split_ifs at hstep
    obtain ⟨r, hr, rfl⟩ := map_eq_some_iff.mp hstep
    refine .inr ⟨.back value, sendAnswer r.2.2, ?_, rtMbSendWait_serves h hr⟩
    rw [observe, hr]
  | recv timeout =>
    simp only [Step, exec] at hstep
    split_ifs at hstep
    obtain ⟨r, hr, rfl⟩ := map_eq_some_iff.mp hstep
    refine .inr ⟨.take, recvAnswer r.2.2.2, ?_, rtMbRecv_serves h hr⟩
    rw [observe, hr]
  | go left =>
    rw [Step, exec] at hstep
    split_ifs at hstep with hrun herror
    · obtain ⟨c, hc, rfl⟩ := map_eq_some_iff.mp hstep
      exact .inl ⟨if_pos herror, rfl⟩
    · obtain ⟨c, hc, rfl⟩ := map_eq_some_iff.mp hstep
      rw [observe, if_neg herror, hc]
      cases c with
      | sendWait value timeout => exact .inr ⟨_, _, rfl, sendLoop_serves h value _⟩
      | recv timeout => exact .inr ⟨_, _, rfl, recvLoop_serves h _⟩
  | urgent value =>
    cases hstep
    exact .inr ⟨_, _, rfl, rtMbUrgent_serves h value⟩
  | reset =>
    cases hstep
    exact .inr ⟨_, _, rfl, rtMbReset_serves (k := s.kernel) (x := id) h⟩
  | isrSend value =>
    obtain ⟨r, hr, rfl⟩ := map_eq_some_iff.mp hstep
    refine .inr ⟨.back value, sendAnswer r.2.2, ?_, rtMbSendWait_serves h hr⟩
    rw [observe, hr]
  | isrRecv =>
    obtain ⟨r, hr, rfl⟩ := map_eq_some_iff.mp hstep
    refine .inr ⟨.take, recvAnswer r.2.2.2, ?_, rtMbRecv_serves h hr⟩
    rw [observe, hr]
  | timeout t | background b =>
    obtain ⟨c, hc, rfl⟩ := map_eq_some_iff.mp hstep
    exact .inl ⟨rfl, rfl⟩
  | sleep =>
    rw [Step, exec] at hstep
    split_ifs at hstep
    cases hstep
    exact .inl ⟨rfl, rfl⟩
  | resume t =>
    cases hstep
    exact .inl ⟨rfl, rfl⟩

/-- The system with what its calls have asked of the mailbox so far. -/
structure Traced (τ β : Type*) where
  sys : Sys τ β
  trace : List (QueueEvent β × QueueAnswer β)

namespace Traced

def exec (s : Traced τ β) (a : Act τ β) : Option (Traced τ β) :=
  (s.sys.exec a).map fun sys => { sys := sys, trace := s.trace ++ s.sys.observe a }

def Step (s : Traced τ β) (a : Act τ β) (s' : Traced τ β) : Prop := s.exec a = some s'

/-- The mailbox has been initialised with room for `n` mails, and no call has been made. -/
structure Initial (n : Nat) (s : Traced τ β) : Prop where
  initial : s.sys.Initial
  size : s.sys.mb.size = n
  trace : s.trace = []

/-- The mailbox is the queue of its history. -/
structure Refines (n : Nat) (s : Traced τ β) : Prop where
  ring : s.sys.mb.Ring
  size : s.sys.mb.size = n
  answers : BoundedDeque.Answers n s.trace s.sys.mb.mails

variable {n : Nat} {s s' : Traced τ β}

theorem Refines.step {a : Act τ β} (h : s.Refines n) (hstep : Step s a s') : s'.Refines n := by
  obtain ⟨sys, hsys, rfl⟩ := map_eq_some_iff.mp hstep
  rcases Sys.step_serves h.ring hsys with ⟨hobserve, hmb⟩ | ⟨e, reply, hobserve, hserves⟩
  · refine ⟨?_, ?_, ?_⟩
    · exact hmb ▸ h.ring
    · exact hmb ▸ h.size
    · simp only [hobserve, List.append_nil, hmb]
      exact h.answers
  · refine ⟨hserves.ring, hserves.size.trans h.size, ?_⟩
    simp only [hobserve]
    rw [hserves.answer, hserves.mails, h.size]
    exact h.answers.next e

omit [DecidableEq τ] in
theorem Initial.refines (hn : 1 ≤ n) (h : s.Initial n) : s.Refines n := by
  have hentry := h.initial.entry
  have hsize := h.size
  have hout := h.initial.outOffset
  refine ⟨⟨by omega, h.initial.size, by omega, ?_⟩, hsize, ?_⟩
  · rw [h.initial.inOffset, hout, hentry, Nat.zero_mod]
  · have hmails : s.sys.mb.mails = [] := by
      rw [RtMailbox.mails, hentry, ringItems_zero]
    rw [h.trace, hmails]
    exact .start

/-- In every run the mailbox answers as a queue with two ends and room for `n` items; a call that is
refused leaves it alone, and its counters fit together. -/
theorem reachable_bounded_deque (hn : 1 ≤ n) (h : Reachable (Initial n) Step s) :
    BoundedDeque.Answers n s.trace s.sys.mb.mails ∧
      (∀ a e sys, s.sys.exec a = some sys → (e, .refused) ∈ s.sys.observe a → sys.mb = s.sys.mb) ∧
      Refusals s.sys.kernel s.sys.mb id ∧
      s.sys.mb.mails.length = s.sys.mb.entry ∧ s.sys.mb.size = n ∧ s.sys.mb.entry ≤ n ∧
      s.sys.mb.inOffset = (s.sys.mb.outOffset + s.sys.mb.entry) % n := by
  have hrefines : s.Refines n :=
    h.invariant (fun _ h₀ => h₀.refines hn) fun _ _ _ _ hi hstep => hi.step hstep
  have hentry := hrefines.ring.entry
  have hin := hrefines.ring.inOffset
  rw [hrefines.size] at hentry hin
  refine ⟨hrefines.answers, ?_, hrefines.ring.refusals _ _, length_mails _, hrefines.size, hentry,
    hin⟩
  intro a e sys hsys hmem
  rcases Sys.step_serves hrefines.ring hsys with ⟨-, hmb⟩ | ⟨e', reply, hobserve, hserves⟩
  · exact hmb
  · rw [hobserve, List.mem_singleton, Prod.mk.injEq] at hmem
    exact hserves.refused hmem.2.symm

/-- Two threads and an empty mailbox of two mails. -/
def start : Traced (Fin 2) Nat :=
  { sys :=
      { kernel := boot (fun t => 10 * t + 10) 0 [1]
        call := fun _ => none
        mb := { msgPool := fun _ => 0, size := 2, entry := 0, inOffset := 0, outOffset := 0
                flag := .prio } }
    trace := [] }

theorem start_initial : Initial 2 start where
  initial :=
    { inv := ⟨_, boot_inv (by decide) 0 [1]⟩
      wait := fun _ => congrFun (boot_wait) _
      call := fun _ => rfl
      size := by decide
      entry := rfl
      inOffset := rfl
      outOffset := rfl }
  size := rfl
  trace := rfl

/-- An urgent mail goes back over the end of the ring, and the next one is refused. -/
theorem reachable_bounded_deque_wraps : ∃ s : Traced (Fin 2) Nat,
    s.sys.mb.mails = [8, 7] ∧ s.sys.mb.outOffset = 1 ∧
      BoundedDeque.Answers 2 s.trace s.sys.mb.mails ∧
      rtMbUrgent s.sys.kernel s.sys.mb id 9 = (s.sys.kernel, s.sys.mb, .returns .efull) ∧
      s.sys.mb.inOffset = (s.sys.mb.outOffset + s.sys.mb.entry) % 2 := by
  have hrun : ∃ s ∈ runAll exec start [.sendWait 7 0, .urgent 8, .urgent 9],
      s.sys.mb.mails = [8, 7] ∧ s.sys.mb.outOffset = 1 := by decide +kernel
  obtain ⟨s, hs, heq⟩ := Reachable.of_runAll start_initial hrun
  obtain ⟨hanswers, -, hrefusals, -, hsize, -, hin⟩ :=
    reachable_bounded_deque (by decide) hs
  refine ⟨s, heq.1, heq.2, hanswers, hrefusals.urgentFails 9 ?_, hin⟩
  rw [heq.1, hsize]
  rfl

end Traced

end RtKernel.Mailbox
