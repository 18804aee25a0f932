import Mathlib.Data.Fintype.Sum
import RtKernel.Ipc.Mailbox
import RtKernel.Ipc.MessagePool

/-!
# Message queues under any interleaving

Each part of a call moves at most one message, and what it does to the threads is
one of a few things. So both the places of the messages and the threads that wait
for them are accounted for in every run.
-/

open List Option Function

namespace RtKernel.MessageQueue

open Kernel

variable {τ ι β γ : Type*} [DecidableEq τ]

/-- What there is for each list: messages for the receivers, free ones for the senders. -/
def RtMessagequeue.items (mq : RtMessagequeue β) (free : List Nat) : Side → Nat
  | .receiver => mq.entry
  | .sender => free.length

/-- What a part of a call does to the threads: `old` is the list it has been suspended on before, and
`c` is what is to come. It is suspended or refused only where it may wait. -/
inductive Effect (k : Kernel τ Side) (items : Side → Nat) (old : Option Side) (mayWait : Prop) :
    Kernel τ Side → (Side → Nat) → Option (Call β) → Prop
  | quiet {c} (hold : old = none) (hc : c.bind waitsOn = none) :
      Effect k items old mayWait k items c
  | refuse (x err) (hold : old ≠ some x.other) (hx : items x = 0) (hwait : mayWait) :
      Effect k items old mayWait (k.setError err) items none
  | wait (x flag timed) {c} (hold : old ≠ some x.other) (hx : items x = 0)
      (hc : waitsOn c = some x) (hwait : mayWait) :
      Effect k items old mayWait (k.block x flag timed) items (some c)
  | take (x) {items' c} (hold : old ≠ some x.other) (hc : c.bind waitsOn = none)
      (hx : items' x = items x - 1) (ho : items' x.other = items x.other) :
      Effect k items old mayWait k items' c
  | give (x) {items'} (hold : old = none) (hx : items' x = items x + 1)
      (ho : items' x.other = items x.other) :
      Effect k items old mayWait (k.resumeFirst x).1 items' none

section

variable [Fintype γ] [DecidableEq γ] {k k' : Kernel τ Side} {mq mq' : RtMessagequeue β}
  {calls : γ → Option (Call β)} {log : Log γ β} {free queue : List Nat} {q : Deque (List β)} {g : γ}
  {next : Next β}

/-- What a part of a call of `g` has done. -/
def Done (k : Kernel τ Side) (mq : RtMessagequeue β) (calls : γ → Option (Call β)) (log : Log γ β)
    (free : List Nat) (g : γ) (mayWait : Prop) (k' : Kernel τ Side) (mq' : RtMessagequeue β)
    (next : Next β) : Prop :=
  ∃ free' queue' q',
    Pool mq' (update calls g next.call) (log.note g (calls g) next) free' queue' q' ∧
      Effect k (mq.items free) ((calls g).bind waitsOn) mayWait k' (mq'.items free') next.call

omit [DecidableEq τ] [Fintype γ] [DecidableEq γ] in
theorem call_ofEnding (ending : Ending) : (Next.ofEnding ending : Next β).call = none := by
  cases ending <;> rfl

omit [Fintype γ] [DecidableEq γ] in
/-- The last part of a send, when the queue is not too long. -/
theorem sendLink_eq (h : mq.entry < rtMqEntryMax) (msg : Nat) (urgent : Bool) :
    sendLink k mq id msg urgent =
      ((k.resumeFirst .receiver).1,
        { (if urgent then linkFront mq msg else linkBack mq msg) with entry := mq.entry + 1 },
        .ofEnding (k.resumeFirst .receiver).2) := by
  cases urgent with
  | false | true => exact if_pos h

variable {mayWait : Prop}

section

variable (h : Pool mq calls log free queue q) {timeout : Int}
include h

/-- The first part of a send that is begun or goes on. -/
theorem Pool.sendLoop {buffer : List β}
    (hcall : calls g = none ∨ ∃ t, calls g = some (.sendWait buffer t))
    (hwait : mq.msgQueueFree = none → mayWait) (hbuffer : buffer.length ≤ mq.msgSize)
    (hk : sendLoop k mq id buffer timeout = (k', mq', next)) :
    Done k mq calls log free g mayWait k' mq' next := by
  have hidle : (calls g).bind Call.msg = none := by
    rcases hcall with hc | ⟨t, hc⟩ <;> rw [hc] <;> rfl
  have hold : (calls g).bind waitsOn ≠ some .receiver := by
    rcases hcall with hc | ⟨t, hc⟩ <;> rw [hc] <;> nofun
  have hnote : ∀ next : Next β, (∀ msg size, next.call ≠ some (.recvCopy msg size)) →
      log.note g (calls g) next = log := by
    intro next hnext
    rcases hcall with hc | ⟨t, hc⟩ <;> rw [hc] <;> unfold Log.note <;> split <;> simp_all
  unfold MessageQueue.sendLoop at hk
  cases hfree : mq.msgQueueFree with
  | none =>
    rw [hfree] at hk
    have hempty : mq.items free .sender = 0 := by
      obtain rfl := h.lists.freeList.nil_iff.mp hfree
      rfl
    by_cases ht : timeout = 0
    · simp only [ht, if_true] at hk
      cases hk
      refine ⟨free, queue, q, ?_, .refuse .sender .eok hold hempty (hwait hfree)⟩
      rw [hnote _ (by nofun)]
      exact h.idle hidle rfl nofun
    · simp only [ht, if_false] at hk
      cases hk
      refine ⟨free, queue, q, ?_, .wait .sender _ _ hold hempty rfl (hwait hfree)⟩
      rw [hnote _ (by nofun)]
      refine h.idle hidle rfl ?_
      intro c hc
      cases hc
      exact hbuffer
  | some msg =>
    rw [hfree] at hk
    cases hk
    obtain ⟨rest, rfl, hpool⟩ := h.takeFree hidle hfree hbuffer false
    refine ⟨rest, queue, q, ?_, .take .sender hold rfl rfl rfl⟩
    rw [hnote _ (by nofun)]
    exact hpool

/-- The first part of a receive that is begun or goes on. -/
theorem Pool.recvLoop {size : Nat} (hcall : calls g = none ∨ ∃ t, calls g = some (.recvWait size t))
    (hwait : mq.entry = 0 → mayWait) (hk : recvLoop k mq id size timeout = some (k', mq', next)) :
    Done k mq calls log free g mayWait k' mq' next := by
  have hidle : (calls g).bind Call.msg = none := by
    rcases hcall with hc | ⟨t, hc⟩ <;> rw [hc] <;> rfl
  have hold : (calls g).bind waitsOn ≠ some .sender := by
    rcases hcall with hc | ⟨t, hc⟩ <;> rw [hc] <;> nofun
  unfold MessageQueue.recvLoop at hk
  by_cases hempty : mq.entry = 0
  · have hnote : ∀ next : Next β, (∀ msg size, next.call ≠ some (.recvCopy msg size)) →
        log.note g (calls g) next = log := by
      intro next hnext
      rcases hcall with hc | ⟨t, hc⟩ <;> rw [hc] <;> unfold Log.note <;> split <;> simp_all
    by_cases ht : timeout = 0
    · simp only [hempty, ht, if_true] at hk
      cases hk
      refine ⟨free, queue, q, ?_, ?_⟩
      · rw [hnote _ (by nofun)]
        exact h.idle hidle rfl nofun
      · rw [setError_setError]
        exact .refuse .receiver .etimeout hold hempty (hwait hempty)
    · simp only [hempty, ht, if_true, if_false] at hk
      cases hk
      refine ⟨free, queue, q, ?_, .wait .receiver _ _ hold hempty rfl (hwait hempty)⟩
      rw [hnote _ (by nofun)]
      refine h.idle hidle rfl ?_
      intro c hc
      cases hc
      trivial
  · obtain ⟨msg, hhead, queue', q', hpool⟩ := h.take hidle hempty size
    simp only [hempty, if_false, hhead, map_some, some.injEq] at hk
    cases hk
    refine ⟨free, queue', q', ?_, .take .receiver hold rfl rfl rfl⟩
    have hnote : log.note g (calls g) (.goes (.recvCopy msg size)) = log.take g := by
      rcases hcall with hc | ⟨t, hc⟩ <;> rw [hc] <;> rfl
    rw [hnote]
    exact hpool

theorem Pool.start (hcall : calls g = none) {r : Request β}
    (hk : start k mq id r = some (k', mq', next)) :
    Done k mq calls log free g (r.timeout ≠ 0) k' mq' next := by
  have hidle : (calls g).bind Call.msg = none := by
    rw [hcall]
    rfl
  have hold : (calls g).bind waitsOn = none := by
    rw [hcall]
    rfl
  -- the call returns at once
  have hreturn : ∀ err, Done k mq calls log free g (r.timeout ≠ 0) k mq (.returns err) := by
    intro err
    refine ⟨free, queue, q, ?_, .quiet hold rfl⟩
    have hnote : log.note g (calls g) (.returns err) = log := by
      rw [hcall]
      rfl
    rw [hnote]
    exact h.idle hidle rfl nofun
  cases r with
  | sendWait buffer timeout =>
    simp only [MessageQueue.start, rtMqSendWait] at hk
    split_ifs at hk with hempty hlock hsize hfull
    · cases hk
      exact hreturn _
    · cases hk
      exact hreturn _
    · refine h.sendLoop (.inl hcall) ?_ (by omega) (some.inj hk)
      intro hfree ht
      exact hfull ⟨hfree, ht⟩
  | urgent buffer =>
    simp only [MessageQueue.start, rtMqUrgent] at hk
    split_ifs at hk with hempty hsize
    · cases hk
    · cases hk
      exact hreturn _
    · cases hfree : mq.msgQueueFree with
      | none =>
        rw [hfree] at hk
        cases hk
        exact hreturn _
      | some msg =>
        rw [hfree] at hk
        cases hk
        have hbuffer : buffer.length ≤ mq.msgSize := by omega
        obtain ⟨rest, rfl, hpool⟩ := h.takeFree hidle hfree hbuffer true
        refine ⟨rest, queue, q, ?_, .take .sender (by rw [hold]; nofun) rfl rfl rfl⟩
        rw [hcall]
        exact hpool
  | recv size timeout =>
    simp only [MessageQueue.start, rtMqRecv] at hk
    split_ifs at hk with hempty hlock hfull
    · cases hk
      exact hreturn _
    · refine h.recvLoop (.inl hcall) ?_ hk
      intro hentry ht
      exact hfull ⟨hentry, ht⟩

theorem Pool.proceed {c : Call β} (hcall : calls g = some c)
    {left : Nat} (hk : proceed k mq id left c = some (k', mq', next)) :
    Done k mq calls log free g (waitsOn c ≠ none) k' mq' next := by
  have hrelies := h.relies g c hcall
  cases c with
  | sendWait buffer timeout =>
    exact h.sendLoop (.inr ⟨timeout, hcall⟩) (fun _ => nofun) hrelies (some.inj hk)
  | recvWait size timeout => exact h.recvLoop (.inr ⟨timeout, hcall⟩) (fun _ => nofun) hk
  | sendCopy msg buffer urgent =>
    cases hk
    refine ⟨free, queue, q, ?_, .quiet (by rw [hcall]; rfl) rfl⟩
    rw [hcall]
    exact h.copy hcall
  | recvCopy msg size =>
    cases hk
    refine ⟨free, queue, q, ?_, .quiet (by rw [hcall]; rfl) rfl⟩
    rw [hcall]
    exact h.read hcall
  | sendLink msg buffer urgent =>
    obtain ⟨hentry, queue', q', hpool⟩ := h.link hcall
    rw [MessageQueue.proceed, sendLink_eq hentry] at hk
    cases hk
    refine ⟨free, queue', q', ?_, ?_⟩
    · rw [hcall, call_ofEnding]
      exact hpool
    · rw [call_ofEnding]
      exact .give .receiver (by rw [hcall]; rfl) rfl rfl
  | recvFree msg size buffer =>
    have hpool := h.putFree hcall
    cases hk
    refine ⟨msg :: free, queue, q, ?_, ?_⟩
    · rw [hcall, call_ofEnding]
      exact hpool
    · rw [call_ofEnding]
      exact .give .sender (by rw [hcall]; rfl) rfl rfl

end

end

section

variable [Fintype τ] {k : Kernel τ Side} {s : Callers τ Side (Call β)} {items items' : Side → Nat}

variable {c : Option (Call β)}

/-- A part of a call of the current thread serves both lists. -/
theorem Effect.served
    (h : s.Served waitsOn items) (hrun : s.Running)
    (he : Effect s.kernel items (s.on waitsOn s.kernel.current) mayWait k items' c) :
    k.current = s.kernel.current ∧
      (Callers.enter { s with kernel := k } c).Served waitsOn items' := by
  cases he with
  | quiet hold hc => exact ⟨rfl, h.enter hrun hold hc⟩
  | refuse x err hold hx => exact ⟨rfl, h.refuse hrun hold hx err⟩
  | wait x flag timed hold hx hc =>
    exact ⟨(block_spec x flag timed hrun).1, h.wait hrun hold hx hc flag timed⟩
  | take x hold hc hx ho => exact ⟨rfl, h.take hrun hold hc hx ho⟩
  | give x hold hx ho =>
    have hgive := (h.enter hrun hold (c := none) rfl).give hx ho
    have hcur := resumeFirst_current h.ok.waits x
    refine ⟨hcur, ?_⟩
    unfold Callers.enter at hgive ⊢
    simp only [hcur]
    exact hgive

/-- So does one of an interrupt, which does not wait. -/
theorem Effect.served_isr
    {old : Option Side}
    (h : s.Served waitsOn items) (he : Effect s.kernel items old mayWait k items' c)
    (hwait : ¬ mayWait) : Callers.Served waitsOn { s with kernel := k } items' ∧
      c.bind waitsOn = none := by
  cases he with
  | quiet hold hc => exact ⟨h, hc⟩
  | refuse x err hold hx hmay | wait x flag timed hold hx hc hmay => exact absurd hmay hwait
  | take x hold hc hx ho =>
    refine ⟨h.le fun y => ?_, hc⟩
    rcases x.eq_or y with rfl | rfl
    · rw [hx]
      exact Nat.sub_le _ _
    · exact ho.le
  | give x hold hx ho => exact ⟨h.give hx ho, rfl⟩

end

namespace Sys

variable [Fintype τ] [Fintype ι] [DecidableEq ι]

/-- The calls of the threads and of the interrupts. -/
def calls (s : Sys τ ι β) : τ ⊕ ι → Option (Call β) := Sum.elim s.call s.isr

/-- The invariant of a run. -/
structure Good (s : Sys τ ι β) (free queue : List Nat) (q : Deque (List β)) : Prop where
  pool : Pool s.mq s.calls s.log free queue q
  served : s.Served waitsOn (s.mq.items free)
  isr : ∀ i, (s.isr i).bind waitsOn = none

variable {s : Sys τ ι β} {free queue : List Nat} {q : Deque (List β)}

section

variable (h : s.Good free queue q) {mq : RtMessagequeue β} {next : Next β}
include h

/-- A part of a call of the current thread keeps the invariant. -/
theorem Good.finish (hrun : s.Running)
    (hdone : Done s.kernel s.mq s.calls s.log free (.inl s.kernel.current) mayWait k mq next) :
    ∃ free queue q, (s.finish k mq next).Good free queue q := by
  obtain ⟨free', queue', q', hpool, heffect⟩ := hdone
  obtain ⟨hcur, hserved⟩ := Effect.served h.served hrun heffect
  refine ⟨free', queue', q', ?_, hserved, h.isr⟩
  have hcalls : (s.finish k mq next).calls =
      update s.calls (.inl s.kernel.current) next.call := by
    unfold calls Sys.finish Callers.enter
    simp only [hcur]
    exact (Sum.update_elim_inl ..).symm
  rw [hcalls]
  exact hpool

/-- A part of a call of an interrupt keeps the invariant. -/
theorem Good.isrFinish {i : ι} (hwait : ¬ mayWait)
    (hdone : Done s.kernel s.mq s.calls s.log free (.inr i) mayWait k mq next) :
    ∃ free queue q, (s.isrFinish i k mq next).Good free queue q := by
  obtain ⟨free', queue', q', hpool, heffect⟩ := hdone
  obtain ⟨hserved, hcall⟩ := Effect.served_isr h.served heffect hwait
  refine ⟨free', queue', q', ?_, hserved, ?_⟩
  · have hcalls : (s.isrFinish i k mq next).calls = update s.calls (.inr i) next.call :=
      (Sum.update_elim_inr ..).symm
    rw [hcalls]
    exact hpool
  · intro j
    by_cases hj : j = i
    · subst hj
      change (update s.isr j next.call j).bind waitsOn = none
      rw [update_self]
      exact hcall
    · change (update s.isr i next.call j).bind waitsOn = none
      rw [update_of_ne hj]
      exact h.isr j

theorem Good.step {s' : Sys τ ι β} {a : Act τ ι β} (hstep : Step s a s') :
    ∃ free queue q, s'.Good free queue q := by
  cases a with
  | call r =>
    rw [Step, exec] at hstep
    split_ifs at hstep with hfree
    obtain ⟨⟨k, mq, next⟩, hk, rfl⟩ := map_eq_some_iff.mp hstep
    exact h.finish hfree.1 (h.pool.start (g := Sum.inl s.kernel.current) hfree.call_eq hk)
  | go left =>
    rw [Step, exec] at hstep
    split_ifs at hstep with hrun
    obtain ⟨c, hc, hstep⟩ := bind_eq_some_iff.mp hstep
    split_ifs at hstep with herror
    · cases hstep
      have hidle : c.msg = none := by
        cases c with
        | sendWait buffer timeout => rfl
        | recvWait size timeout => rfl
        | _ => exact absurd rfl herror.1
      refine ⟨free, queue, q, ?_, h.served.leave hrun herror.2, h.isr⟩
      have hcalls : Sys.calls { s with toCallers := s.toCallers.enter none } =
          update s.calls (.inl s.kernel.current) none := (Sum.update_elim_inl ..).symm
      rw [hcalls]
      refine h.pool.idle ?_ rfl nofun
      change (s.call s.kernel.current).bind Call.msg = none
      rw [hc]
      exact hidle
    · obtain ⟨⟨k, mq, next⟩, hk, rfl⟩ := map_eq_some_iff.mp hstep
      exact h.finish hrun (h.pool.proceed (g := Sum.inl s.kernel.current) hc hk)
  | isrCall i r =>
    rw [Step, exec] at hstep
    split_ifs at hstep with hr
    obtain ⟨⟨k, mq, next⟩, hk, rfl⟩ := map_eq_some_iff.mp hstep
    have hnone : s.isr i = none := isNone_iff_eq_none.mp hr.1
    exact h.isrFinish (not_not.mpr hr.2) (h.pool.start (g := Sum.inr i) hnone hk)
  | isrGo i =>
    obtain ⟨c, hc, hstep⟩ := bind_eq_some_iff.mp hstep
    obtain ⟨⟨k, mq, next⟩, hk, rfl⟩ := map_eq_some_iff.mp hstep
    have hnone := h.isr i
    rw [hc] at hnone
    exact h.isrFinish (not_not.mpr hnone) (h.pool.proceed (g := Sum.inr i) hc hk)
  | reset =>
    obtain ⟨mq', hmq', hpool⟩ := h.pool.reset
    simp only [Step, exec, rtMqReset, hmq', map_some, some.injEq] at hstep
    subst hstep
    exact ⟨_, _, _, hpool, .ipcListResumeAll h.served.ok _, h.isr⟩
  | timeout t =>
    obtain ⟨c, hc, rfl⟩ := map_eq_some_iff.mp hstep
    obtain ⟨k, hk, rfl⟩ := Callers.timeout_cases hc
    exact ⟨free, queue, q, h.pool, h.served.timeout hk, h.isr⟩
  | sleep =>
    rw [Step, exec] at hstep
    split_ifs at hstep with hfree
    cases hstep
    exact ⟨free, queue, q, h.pool, h.served.rtThreadSleep hfree, h.isr⟩
  | resume t =>
    cases hstep
    exact ⟨free, queue, q, h.pool, h.served.rtThreadResume t, h.isr⟩
  | background b =>
    obtain ⟨c, hc, rfl⟩ := map_eq_some_iff.mp hstep
    obtain ⟨k, hk, rfl⟩ := Callers.background_cases hc
    exact ⟨free, queue, q, h.pool, h.served.background hk, h.isr⟩

end

/-- The loop of `rt_mq_init` makes a list of all messages. -/
theorem init_lists (mq : RtMessagequeue β) (hfree : mq.msgQueueFree = none) (n : Nat) :
    Linked ((List.range n).foldl putFree mq).next ((List.range n).foldl putFree mq).msgQueueFree
        (List.range n).reverse ∧
      ((List.range n).foldl putFree mq).msgQueueHead = mq.msgQueueHead ∧
      ((List.range n).foldl putFree mq).msgQueueTail = mq.msgQueueTail ∧
      ((List.range n).foldl putFree mq).entry = mq.entry ∧
      ((List.range n).foldl putFree mq).maxMsgs = mq.maxMsgs := by
  induction n with
  | zero => exact ⟨hfree, rfl, rfl, rfl, rfl⟩
  | succ n ih =>
    obtain ⟨hlist, hhead, htail, hentry, hmax⟩ := ih
    rw [range_succ, foldl_append, reverse_append]
    refine ⟨hlist.push ?_, hhead, htail, hentry, hmax⟩
    rw [mem_reverse, mem_range]
    exact lt_irrefl n

omit [DecidableEq τ] [DecidableEq ι] in
theorem Initial.good (h : s.Initial) : ∃ free queue q, s.Good free queue q := by
  obtain ⟨msgpool, next, msgSize, poolSize, flag, hmq⟩ := h.mq
  obtain ⟨hlist, hhead, htail, hentry, hmax⟩ : Linked s.mq.next s.mq.msgQueueFree
        (List.range (poolSize / (rtAlign msgSize % 65536 + 4) % 65536)).reverse ∧
      s.mq.msgQueueHead = none ∧ s.mq.msgQueueTail = none ∧ s.mq.entry = 0 ∧
      s.mq.maxMsgs = poolSize / (rtAlign msgSize % 65536 + 4) % 65536 :=
    hmq ▸ init_lists
      { msgSize := rtAlign msgSize % 65536
        maxMsgs := poolSize / (rtAlign msgSize % 65536 + 4) % 65536
        entry := 0, msgQueueHead := none, msgQueueTail := none, msgQueueFree := none
        flag := flag, next := next, bytes := msgpool } rfl _
  rw [← hmax] at hlist
  have hcalls : ∀ g, s.calls g = none := by
    intro g
    cases g with
    | inl t => exact h.call t
    | inr i => exact h.isr i
  have hnodup : (List.range s.mq.maxMsgs).reverse.Nodup := nodup_reverse.mpr nodup_range
  refine ⟨(List.range s.mq.maxMsgs).reverse, [], { items := [], taken := [] }, ?_, ?_, ?_⟩
  · refine ⟨⟨hlist, hhead, htail, ?_⟩, hentry, ?_, ?_, ?_, h.takes, .nil, ?_, ?_, ?_⟩
    · rw [append_nil]
      exact hnodup
    · rw [hmax]
      exact Nat.le_of_lt_succ (Nat.mod_lt _ (by decide))
    · intro n
      have hhands : hands s.calls n = 0 := count_eq_zero fun g => by
        rw [hcalls]
        nofun
      rw [hhands, hnodup.count]
      simp only [mem_reverse, mem_range, count_nil, Nat.add_zero]
    · rw [h.history]
      rfl
    · intro g c hc
      cases (hcalls g).symm.trans hc
    · rw [h.received]
      nofun
    · intro number
      have hreading : reading s.calls s.log.ticket number = 0 := count_eq_zero fun g => by
        rw [hcalls]
        nofun
      rw [hreading, h.received]
      exact Nat.zero_le _
  · exact ⟨.start h.inv h.wait h.call, fun x => .empty (h.wait x)⟩
  · intro i
    rw [h.isr]
    rfl

theorem reachable_good (h : Reachable Initial Step s) : ∃ free queue q, s.Good free queue q :=
  h.invariant (fun _ h₀ => h₀.good) fun _ _ _ _ ⟨_, _, _, hgood⟩ hstep => hgood.step hstep

/-- Every message is in one place, and what has been received is what the queue has given out. -/
structure Accounted (s : Sys τ ι β) (free queue : List Nat) (q : Deque (List β)) : Prop where
  freeList : Linked s.mq.next s.mq.msgQueueFree free
  queueList : Linked s.mq.next s.mq.msgQueueHead queue
  /-- A message of the pool is free, in the queue, or in the hands of a call. -/
  place : ∀ n, free.count n + queue.count n + hands s.calls n = if n < s.mq.maxMsgs then 1 else 0
  entry : s.mq.entry = queue.length
  tail : s.mq.msgQueueTail = queue.getLast?
  /-- What has been linked, taken and reset leaves these items and has given out those taken. -/
  replay : Deque.replay s.log.history = some q
  items : List.Forall₂ (fun item n => item <+: s.mq.bytes n) q.items queue
  received : ∀ r ∈ s.log.received,
    ∃ item, q.taken[r.ticket]? = some item ∧ Copied item r.size r.buffer
  once : (s.log.received.map Receipt.ticket).Nodup

/-- In every run of threads and interrupts the messages are accounted for. -/
theorem reachable_accounted (s : Sys τ ι β) (h : Reachable Initial Step s) :
    ∃ free queue q, s.Accounted free queue q := by
  obtain ⟨free, queue, q, hgood⟩ := reachable_good h
  have hpool := hgood.pool
  refine ⟨free, queue, q, hpool.lists.freeList, hpool.lists.queueList, hpool.place, hpool.entry,
    hpool.lists.tail, hpool.replay, hpool.items.imp fun _ _ => And.left, hpool.received, ?_⟩
  rw [List.nodup_iff_count_le_one]
  intro number
  have hnumber := hpool.once number
  split_ifs at hnumber <;> omega

/-- Thread `0` is the more urgent of two, and the pool has room for two messages. -/
def start : Sys (Fin 2) Unit Nat :=
  { kernel := boot (fun t => 10 * t + 10) 0 [1]
    call := fun _ => none, isr := fun _ => none
    mq := rtMqInit (fun _ => [0, 0, 0, 0]) (fun _ => none) 4 16 .prio
    log := { history := [], takes := 0, ticket := fun _ => 0, received := [] } }

theorem start_initial : start.Initial where
  inv := ⟨_, boot_inv (by decide) 0 [1]⟩
  wait _ := congrFun (boot_wait) _
  call _ := rfl
  isr _ := rfl
  mq := ⟨_, _, _, _, _, rfl⟩
  history := rfl
  takes := rfl
  received := rfl

/-- A thread waits, and while another one sends, an interrupt sends an urgent message. -/
def overtaken : List (Act (Fin 2) Unit Nat) :=
  [.call (.recv 4 (-1)), .background .schedule, .call (.sendWait [7] 0), .isrCall () (.urgent [8]),
    .go 0, .isrGo (), .go 0, .isrGo (), .background .schedule, .go 0, .go 0, .go 0]

/-- The urgent message is received, the other one is still in the queue. -/
theorem reachable_accounted_overtaken : ∃ s : Sys (Fin 2) Unit Nat,
    s.log.received.map Receipt.buffer = [[8, 0, 0, 0]] ∧ s.mq.entry = 1 ∧
      ∃ free queue q, s.Accounted free queue q := by
  have hrun : ∃ s ∈ runAll exec start overtaken,
      s.log.received.map Receipt.buffer = [[8, 0, 0, 0]] ∧ s.mq.entry = 1 := by decide +kernel
  obtain ⟨s, hs, heq⟩ := Reachable.of_runAll start_initial hrun
  exact ⟨s, heq.1, heq.2, reachable_accounted s hs⟩

end Sys

end RtKernel.MessageQueue

namespace RtKernel

variable {τ ι β : Type*} [DecidableEq τ] [DecidableEq ι] [Fintype τ] [Fintype ι]

/-- In every run of a mailbox or a message queue, once each thread resumed from a list has gone on
with its call, nobody waits for what is there. -/
theorem reachable_no_lost_wakeup :
    (∀ s : Mailbox.Sys τ β, Reachable Mailbox.Sys.Initial Mailbox.Sys.Step s →
      ((∀ t, ¬ s.Woken Mailbox.waitsOn .receiver t) →
        ¬ (0 < s.mb.entry ∧ s.kernel.wait .receiver ≠ [])) ∧
      ((∀ t, ¬ s.Woken Mailbox.waitsOn .sender t) →
        ¬ (s.mb.entry < s.mb.size ∧ s.kernel.wait .sender ≠ []))) ∧
    ∀ s : MessageQueue.Sys τ ι β, Reachable MessageQueue.Sys.Initial MessageQueue.Sys.Step s →
      ((∀ t, ¬ s.Woken MessageQueue.waitsOn .receiver t) →
        ¬ (0 < s.mq.entry ∧ s.kernel.wait .receiver ≠ [])) ∧
      ((∀ t, ¬ s.Woken MessageQueue.waitsOn .sender t) →
        ¬ (s.mq.msgQueueFree ≠ none ∧ s.kernel.wait .sender ≠ [])) := by
  refine ⟨?_, ?_⟩
  · intro s h
    have hgood := Mailbox.Sys.reachable_good h
    refine ⟨?_, ?_⟩
    · rintro hwoken ⟨hitems, hwait⟩
      have hnone : s.mb.entry = 0 := hgood.served.none_left hwoken hwait
      omega
    · rintro hwoken ⟨hitems, hwait⟩
      have hnone : s.mb.size - s.mb.entry = 0 := hgood.served.none_left hwoken hwait
      omega
  · intro s h
    obtain ⟨free, queue, q, hgood⟩ := MessageQueue.Sys.reachable_good h
    refine ⟨?_, ?_⟩
    · rintro hwoken ⟨hitems, hwait⟩
      have hnone : s.mq.entry = 0 := hgood.served.none_left hwoken hwait
      omega
    · rintro hwoken ⟨hitems, hwait⟩
      have hnone : free.length = 0 := hgood.served.none_left hwoken hwait
      have hfree := hgood.pool.lists.freeList.nil_iff
      exact hitems (hfree.mpr (List.eq_nil_of_length_eq_zero hnone))

/-- Two threads and an empty mailbox of one mail. -/
def Mailbox.Sys.start : Mailbox.Sys (Fin 2) Nat :=
  { kernel := Kernel.boot (fun t => 10 * t + 10) 0 [1]
    call := fun _ => none
    mb := { msgPool := fun _ => 0, size := 1, entry := 0, inOffset := 0, outOffset := 0
            flag := .prio } }

theorem Mailbox.Sys.start_initial : Mailbox.Sys.start.Initial where
  inv := ⟨_, Kernel.boot_inv (by decide) 0 [1]⟩
  wait _ := congrFun (Kernel.boot_wait) _
  call _ := rfl
  size := by decide
  entry := rfl
  inOffset := rfl
  outOffset := rfl

/-- A sender that waits leaves no mail behind that a receiver waits for, and two messages sent to a
queue of two leave no receiver waiting. -/
theorem reachable_no_lost_wakeup_full :
    (∃ s : Mailbox.Sys (Fin 2) Nat, s.kernel.wait .sender = [0] ∧ 0 < s.mb.entry ∧
      ¬ (0 < s.mb.entry ∧ s.kernel.wait .receiver ≠ [])) ∧
    ∃ s : MessageQueue.Sys (Fin 2) Unit Nat, 0 < s.mq.entry ∧
      ¬ (0 < s.mq.entry ∧ s.kernel.wait .receiver ≠ []) := by
  obtain ⟨s, hs, heq⟩ :
      ∃ s ∈ runAll Mailbox.Sys.exec Mailbox.Sys.start [.sendWait 7 0, .sendWait 8 (-1)],
      s.kernel.wait .sender = [0] ∧ 0 < s.mb.entry ∧
      (∀ t, ¬ s.Woken Mailbox.waitsOn .receiver t) := by decide +kernel
  obtain ⟨s', hs', heq'⟩ :
      ∃ s ∈ runAll MessageQueue.Sys.exec MessageQueue.Sys.start [.call (.sendWait [7] 0),
      .go 0, .go 0], 0 < s.mq.entry ∧
      (∀ t, ¬ s.Woken MessageQueue.waitsOn .receiver t) := by decide +kernel
  have h := (Reachable.start Mailbox.Sys.start_initial).runAll hs
  have h' := (Reachable.start MessageQueue.Sys.start_initial).runAll hs'
  exact ⟨⟨s, heq.1, heq.2.1, ((@reachable_no_lost_wakeup (Fin 2) Unit Nat _ _ _ _).1 s h).1 heq.2.2⟩,
    s', heq'.1, (reachable_no_lost_wakeup.2 s' h').1 heq'.2⟩

end RtKernel
