import RtKernel.Ipc.MessageQueue

/-!
# The messages of a pool

Every message of the pool is in one place, and what a receive copies is the item
that the queue, seen as a queue with two ends, gives out. This is kept by each
part of a call, whichever thread or interrupt does it.
-/

open List Option Function

namespace RtKernel.MessageQueue

variable {β γ : Type*}

/-- The lists of free and of queued messages. -/
structure RtMessagequeue.Lists (mq : RtMessagequeue β) (free queue : List Nat) : Prop where
  freeList : Linked mq.next mq.msgQueueFree free
  queueList : Linked mq.next mq.msgQueueHead queue
  tail : mq.msgQueueTail = queue.getLast?
  nodup : (free ++ queue).Nodup

/-- The message begins with the bytes of `item`. -/
def RtMessagequeue.Holds (mq : RtMessagequeue β) (item : List β) (msg : Nat) : Prop :=
  item <+: mq.bytes msg ∧ item.length ≤ mq.msgSize

/-- What a buffer has got of an item of which `size` bytes have been asked for. -/
def Copied (item : List β) (size : Nat) (buffer : List β) : Prop :=
  buffer.take item.length = item.take size

namespace RtMessagequeue.Lists

variable {mq : RtMessagequeue β} {free queue : List Nat} {msg : Nat}

section

variable (h : mq.Lists free queue)
include h

/-- A change of the link of a message that is in no list. -/
theorem setNext (hfree : msg ∉ free) (hqueue : msg ∉ queue)
    (p : Option Nat) : Lists { mq with next := update mq.next msg p } free queue :=
  ⟨h.freeList.update hfree p, h.queueList.update hqueue p, h.tail, h.nodup⟩

theorem takeFree (hmsg : mq.msgQueueFree = some msg) : ∃ rest, free = msg :: rest ∧
      Lists { mq with msgQueueFree := mq.next msg } rest queue := by
  obtain ⟨rest, rfl, hrest⟩ := (hmsg ▸ h.freeList).pop
  exact ⟨rest, rfl, hrest, h.queueList, h.tail, (nodup_cons.mp h.nodup).2⟩

theorem putFree (hfree : msg ∉ free) (hqueue : msg ∉ queue) :
    (putFree mq msg).Lists (msg :: free) queue := by
  refine ⟨h.freeList.push hfree, h.queueList.update hqueue _, h.tail, ?_⟩
  rw [cons_append, nodup_cons, mem_append]
  exact ⟨not_or_intro hfree hqueue, h.nodup⟩

theorem unlink (hmsg : mq.msgQueueHead = some msg) :
    ∃ rest, queue = msg :: rest ∧ (unlink mq msg).Lists free rest := by
  obtain ⟨rest, rfl, hrest⟩ := (hmsg ▸ h.queueList).pop
  have hnodup := nodup_append.mp h.nodup
  have hnot : msg ∉ rest := (nodup_cons.mp hnodup.2.1).1
  refine ⟨rest, rfl, h.freeList, hrest, ?_, ?_⟩
  · unfold MessageQueue.unlink
    simp only [h.tail]
    exact getLast?_pop hnot
  · exact h.nodup.sublist ((sublist_cons_self msg rest).append_left free)

theorem linkFront (hfree : msg ∉ free) (hqueue : msg ∉ queue) :
    (linkFront mq msg).Lists free (msg :: queue) := by
  have hnodup : (free ++ msg :: queue).Nodup := by
    rw [nodup_middle, nodup_cons, mem_append]
    exact ⟨not_or_intro hfree hqueue, h.nodup⟩
  have hlink := h.queueList.push hqueue
  have hfree' := h.freeList.update hfree mq.msgQueueHead
  refine ⟨hfree', hlink, ?_, hnodup⟩
  unfold MessageQueue.linkFront
  rw [h.tail]
  cases queue with
  | nil => simp
  | cons first rest => simp [List.getLast?_cons_cons]

theorem linkBack (hfree : msg ∉ free) (hqueue : msg ∉ queue)
    (hnext : mq.next msg = none) : (linkBack mq msg).Lists free (queue ++ [msg]) := by
  have hnodup := nodup_append.mp h.nodup
  have hnodup' : (free ++ (queue ++ [msg])).Nodup := by
    rw [← append_assoc, nodup_append_comm, singleton_append, nodup_cons,
      mem_append]
    exact ⟨not_or_intro hfree hqueue, h.nodup⟩
  have htail := h.tail
  have hhead := h.queueList.nil_iff
  unfold MessageQueue.linkBack
  cases hlast : queue.getLast? with
  | none =>
    obtain rfl := List.getLast?_eq_none_iff.mp hlast
    have hnone := hhead.mpr rfl
    simp only [htail, hnone, if_true]
    exact ⟨h.freeList, ⟨rfl, hnext⟩, rfl, hnodup'⟩
  | some last =>
    rw [hlast] at htail
    have hmem : last ∈ queue := mem_of_getLast? hlast
    have hne : mq.msgQueueHead ≠ none := by
      rw [ne_eq, hhead]
      rintro rfl
      cases hmem
    have hlastfree : last ∉ free := fun hc => hnodup.2.2 last hc last hmem rfl
    simp only [htail, hne, if_false]
    refine ⟨h.freeList.update hlastfree _, h.queueList.append hlast hnodup.2.1 hqueue hnext, ?_, hnodup'⟩
    rw [List.getLast?_concat]

/-- The loop of `rt_mq_control` moves the whole queue to the free list. -/
theorem freeAll {turns : Nat} (hturns : queue.length ≤ turns) :
    ∃ mq', MessageQueue.freeAll mq turns = some mq' ∧ mq'.Lists (queue.reverse ++ free) [] ∧
      mq'.bytes = mq.bytes ∧ mq'.msgSize = mq.msgSize ∧ mq'.maxMsgs = mq.maxMsgs ∧
      ∀ n ∉ queue, mq'.next n = mq.next n := by
  induction queue generalizing mq free turns with
  | nil =>
    have hhead := h.queueList.nil_iff.mpr rfl
    refine ⟨mq, ?_, h, rfl, rfl, rfl, fun _ _ => rfl⟩
    cases turns with
    | zero =>
      unfold MessageQueue.freeAll
      rw [if_pos hhead]
    | succ turns =>
      unfold MessageQueue.freeAll
      rw [hhead]
  | cons msg rest ih =>
    obtain ⟨turns, rfl⟩ : ∃ n, turns = n + 1 := Nat.exists_eq_succ_of_ne_zero (by
      rintro rfl
      cases hturns)
    have hhead : mq.msgQueueHead = some msg := h.queueList.1
    have hnodup := nodup_append.mp h.nodup
    have hnot : msg ∉ rest := (nodup_cons.mp hnodup.2.1).1
    have hfree : msg ∉ free := fun hc => hnodup.2.2 msg hc msg (.head _) rfl
    obtain ⟨rest', heq, hunlink⟩ := h.unlink hhead
    obtain ⟨-, rfl⟩ := List.cons.inj heq
    have hturns' : rest.length ≤ turns := by
      rw [length_cons] at hturns
      omega
    obtain ⟨mq', hmq', hlists, hbytes, hsize, hmax, hnext⟩ :=
      ih (hunlink.putFree hfree hnot) hturns'
    refine ⟨mq', ?_, ?_, hbytes, hsize, hmax, ?_⟩
    · rw [MessageQueue.freeAll, hhead]
      exact hmq'
    · rw [reverse_cons, append_assoc]
      exact hlists
    · intro n hn
      rw [mem_cons, not_or] at hn
      rw [hnext n hn.2]
      exact update_of_ne hn.1 ..

end

end RtMessagequeue.Lists

/-- The call reads or frees a message that it has taken from the queue. -/
def Call.receiving : Call β → Bool
  | .recvCopy _ _ | .recvFree _ _ _ => true
  | _ => false

/-- What a call under way relies on, where `item` number `ticket` is the one it receives. -/
def CallOk (mq : RtMessagequeue β) (taken : List (List β)) (ticket : Nat) : Call β → Prop
  | .sendWait buffer _ | .sendCopy _ buffer _ => buffer.length ≤ mq.msgSize
  | .sendLink msg buffer urgent => mq.Holds buffer msg ∧ (urgent = false → mq.next msg = none)
  | .recvWait _ _ => True
  | .recvCopy msg _ => ∃ item, taken[ticket]? = some item ∧ mq.Holds item msg
  | .recvFree _ size buffer => ∃ item, taken[ticket]? = some item ∧ Copied item size buffer

variable [Fintype γ]

/-- How many calls have the message in their hands. -/
def hands (calls : γ → Option (Call β)) (msg : Nat) : Nat :=
  count fun g => (calls g).bind Call.msg = some msg

/-- How many calls are receiving the item with the number. -/
def reading (calls : γ → Option (Call β)) (ticket : γ → Nat) (number : Nat) : Nat :=
  count fun g => (calls g).any Call.receiving ∧ ticket g = number

/-- Each item taken from the queue is received by one call at most, and no other is received. -/
def OnceEach (calls : γ → Option (Call β)) (log : Log γ β) (taken : List (List β)) : Prop :=
  ∀ number, (log.received.map Receipt.ticket).count number + reading calls log.ticket number ≤
    if number < taken.length then 1 else 0

/-- Each message of the pool is in one place, and the queue holds what its history says. -/
structure Pool (mq : RtMessagequeue β) (calls : γ → Option (Call β)) (log : Log γ β)
    (free queue : List Nat) (q : Deque (List β)) : Prop where
  lists : mq.Lists free queue
  entry : mq.entry = queue.length
  size : mq.maxMsgs ≤ rtMqEntryMax
  place : ∀ n, free.count n + queue.count n + hands calls n = if n < mq.maxMsgs then 1 else 0
  replay : Deque.replay log.history = some q
  takes : log.takes = q.taken.length
  items : List.Forall₂ mq.Holds q.items queue
  relies : ∀ g c, calls g = some c → CallOk mq q.taken (log.ticket g) c
  received : ∀ r ∈ log.received, ∃ item, q.taken[r.ticket]? = some item ∧ Copied item r.size r.buffer
  once : OnceEach calls log q.taken

section

variable {mq mq' : RtMessagequeue β} {calls : γ → Option (Call β)} {log : Log γ β}
  {free queue : List Nat} {q : Deque (List β)}

omit [Fintype γ] in
/-- What a call relies on stays so while its message is not touched. -/
theorem CallOk.frame {taken taken' : List (List β)} {ticket : Nat} {c : Call β}
    (h : CallOk mq taken ticket c) (hsize : mq'.msgSize = mq.msgSize)
    (hmsg : ∀ n, c.msg = some n → mq'.next n = mq.next n ∧ mq'.bytes n = mq.bytes n)
    (htaken : taken <+: taken') : CallOk mq' taken' ticket c := by
  have hholds : ∀ item n, c.msg = some n → mq.Holds item n → mq'.Holds item n := by
    intro item n hn hitem
    unfold RtMessagequeue.Holds
    rw [(hmsg n hn).2, hsize]
    exact hitem
  have hget : ∀ item, taken[ticket]? = some item → taken'[ticket]? = some item := by
    intro item hitem
    obtain ⟨rest, rfl⟩ := htaken
    rw [List.getElem?_append_left (List.getElem?_eq_some_iff.mp hitem).1]
    exact hitem
  cases c with
  | sendWait buffer timeout | sendCopy msg buffer urgent =>
    change buffer.length ≤ mq'.msgSize
    rw [hsize]
    exact h
  | sendLink msg buffer urgent =>
    refine ⟨hholds buffer msg rfl h.1, fun hurgent => ?_⟩
    rw [(hmsg msg rfl).1]
    exact h.2 hurgent
  | recvWait size timeout => trivial
  | recvCopy msg size =>
    obtain ⟨item, hitem, hcopy⟩ := h
    exact ⟨item, hget item hitem, hholds item msg rfl hcopy⟩
  | recvFree msg size buffer =>
    obtain ⟨item, hitem, hcopy⟩ := h
    exact ⟨item, hget item hitem, hcopy⟩

omit [Fintype γ] in
/-- The messages of the queue hold their items while they are not touched. -/
theorem items_frame {items : List (List β)} (h : List.Forall₂ mq.Holds items queue)
    (hsize : mq'.msgSize = mq.msgSize) (hbytes : ∀ n ∈ queue, mq'.bytes n = mq.bytes n) :
    List.Forall₂ mq'.Holds items queue := by
  induction h with
  | nil => exact .nil
  | cons hitem _ ih =>
    refine .cons ?_ (ih fun n hn => hbytes n (.tail _ hn))
    unfold RtMessagequeue.Holds
    rw [hbytes _ (.head _), hsize]
    exact hitem

variable [DecidableEq γ]

theorem hands_update (calls : γ → Option (Call β)) (g : γ) (c : Option (Call β)) (n : Nat) :
    hands (update calls g c) n + (if (calls g).bind Call.msg = some n then 1 else 0) =
      hands calls n + if c.bind Call.msg = some n then 1 else 0 := by
  have hchange := count_change (p := fun x => (calls x).bind Call.msg = some n)
    (q := fun x => (update calls g c x).bind Call.msg = some n) g fun x hx => by
      rw [update_of_ne hx]
  simp only [update_self] at hchange
  exact hchange

theorem reading_update (calls : γ → Option (Call β)) (g : γ) (c : Option (Call β)) (ticket : γ → Nat) (t number : Nat) :
    reading (update calls g c) (update ticket g t) number +
        (if (calls g).any Call.receiving ∧ ticket g = number then 1 else 0) =
      reading calls ticket number +
        if c.any Call.receiving ∧ t = number then 1 else 0 := by
  have hchange := count_change
    (p := fun x => (calls x).any Call.receiving ∧ ticket x = number)
    (q := fun x => (update calls g c x).any Call.receiving ∧
      update ticket g t x = number) g fun x hx => by
      rw [update_of_ne hx, update_of_ne hx]
  simp only [update_self] at hchange
  exact hchange

variable {g : γ} {n : Nat}

/-- A message in the hands of a call is in no list and in the hands of no other call. -/
theorem Pool.held (h : Pool mq calls log free queue q) (hn : (calls g).bind Call.msg = some n) :
    n ∉ free ∧ n ∉ queue ∧ ∀ g' ≠ g, (calls g').bind Call.msg ≠ some n := by
  have hplace := h.place n
  have hupdate := hands_update calls g none n
  rw [if_pos hn, if_neg (by nofun)] at hupdate
  have hle : free.count n + queue.count n + hands calls n ≤ 1 := by
    rw [hplace]
    split_ifs <;> omega
  refine ⟨?_, ?_, ?_⟩
  · rw [← List.count_eq_zero]
    omega
  · rw [← List.count_eq_zero]
    omega
  · intro g' hg hn'
    have hpos : 0 < hands (update calls g none) n := by
      apply count_pos (t := g')
      rw [update_of_ne hg]
      exact hn'
    omega

/-- A call that has a message of a list in no one's hands. -/
theorem Pool.listed (h : Pool mq calls log free queue q) (hn : n ∈ free ∨ n ∈ queue)
    (g : γ) : (calls g).bind Call.msg ≠ some n := by
  intro hc
  obtain ⟨hfree, hqueue, -⟩ := h.held hc
  exact hn.elim hfree hqueue

variable {c : Option (Call β)}

omit [Fintype γ] [DecidableEq γ] in
theorem receiving_msg (h : c.bind Call.msg = none) : c.any Call.receiving = false := by
  cases c with
  | none => rfl
  | some c =>
    cases c with
    | recvCopy msg size => cases h
    | recvFree msg size buffer => cases h
    | _ => rfl

/-- Only the call of `g` changes, and does not begin or end to receive an item. -/
theorem OnceEach.update {taken : List (List β)} (h : OnceEach calls log taken)
    (hc : c.any Call.receiving = (calls g).any Call.receiving) :
    OnceEach (update calls g c) log taken := by
  intro number
  have hchange := reading_update calls g c log.ticket (log.ticket g) number
  rw [update_eq_self, hc] at hchange
  have hnumber := h number
  omega

section

variable (h : Pool mq calls log free queue q)
include h

theorem Pool.part (g : γ) {log' : Log γ β} {free' queue' : List Nat} {q' : Deque (List β)}
    (hlists : mq'.Lists free' queue') (hentry : mq'.entry = queue'.length)
    (hmax : mq'.maxMsgs = mq.maxMsgs) (hsize : mq'.msgSize = mq.msgSize)
    (hplace : ∀ n, free'.count n + queue'.count n + (if c.bind Call.msg = some n then 1 else 0) =
      free.count n + queue.count n + if (calls g).bind Call.msg = some n then 1 else 0)
    (hkeep : ∀ g' ≠ g, ∀ n, (calls g').bind Call.msg = some n →
      mq'.next n = mq.next n ∧ mq'.bytes n = mq.bytes n)
    (hticket : ∀ g' ≠ g, log'.ticket g' = log.ticket g') (htaken : q.taken <+: q'.taken)
    (hself : ∀ c', c = some c' → CallOk mq' q'.taken (log'.ticket g) c')
    (hreplay : Deque.replay log'.history = some q') (htakes : log'.takes = q'.taken.length)
    (hitems : List.Forall₂ mq'.Holds q'.items queue') (hreceived : ∀ r ∈ log'.received,
      ∃ item, q'.taken[r.ticket]? = some item ∧ Copied item r.size r.buffer)
    (honce : OnceEach (update calls g c) log' q'.taken) :
    Pool mq' (update calls g c) log' free' queue' q' := by
  refine ⟨hlists, hentry, hmax ▸ h.size, ?_, hreplay, htakes, hitems, ?_, hreceived, honce⟩
  · intro n
    have hold := h.place n
    have hnew := hplace n
    have hhands := hands_update calls g c n
    rw [hmax]
    omega
  · intro g' c' hc'
    by_cases hg : g' = g
    · subst hg
      rw [update_self] at hc'
      exact hself c' hc'
    · rw [update_of_ne hg] at hc'
      rw [hticket g' hg]
      refine (h.relies g' c' hc').frame hsize ?_ htaken
      intro n hn
      refine hkeep g' hg n ?_
      rw [hc']
      exact hn

omit [DecidableEq γ] in
theorem Pool.received_mono {taken : List (List β)} (htaken : q.taken <+: taken) :
    ∀ r ∈ log.received, ∃ item, taken[r.ticket]? = some item ∧ Copied item r.size r.buffer := by
  intro r hr
  obtain ⟨item, hitem, hcopy⟩ := h.received r hr
  obtain ⟨rest, rfl⟩ := htaken
  refine ⟨item, ?_, hcopy⟩
  rw [List.getElem?_append_left (List.getElem?_eq_some_iff.mp hitem).1]
  exact hitem

/-- A call that has no message begins, waits or returns. -/
theorem Pool.idle (hold : (calls g).bind Call.msg = none) (hnew : c.bind Call.msg = none)
    (hself : ∀ c', c = some c' → CallOk mq q.taken (log.ticket g) c') :
    Pool mq (update calls g c) log free queue q := by
  refine h.part g h.lists h.entry rfl rfl ?_ (fun _ _ _ _ => ⟨rfl, rfl⟩) (fun _ _ => rfl)
    (prefix_refl _) hself h.replay h.takes h.items h.received (h.once.update ?_)
  · intro n
    rw [hold, hnew]
  · rw [receiving_msg hold, receiving_msg hnew]

end

variable {buffer : List β}

section

variable (h : Pool mq calls log free queue q) {msg : Nat} {urgent : Bool} {msg size : Nat}
include h

theorem Pool.takeFree
    (hold : (calls g).bind Call.msg = none) (hmsg : mq.msgQueueFree = some msg)
    (hbuffer : buffer.length ≤ mq.msgSize) (urgent : Bool) : ∃ rest, free = msg :: rest ∧
      Pool { mq with msgQueueFree := mq.next msg }
        (update calls g (some (.sendCopy msg buffer urgent))) log rest queue q := by
  obtain ⟨rest, rfl, hlists⟩ := h.lists.takeFree hmsg
  refine ⟨rest, rfl, ?_⟩
  refine h.part g hlists h.entry rfl rfl ?_ (fun _ _ _ _ => ⟨rfl, rfl⟩) (fun _ _ => rfl)
    (prefix_refl _) ?_ h.replay h.takes h.items h.received (h.once.update ?_)
  · intro n
    have hnew : (Option.bind (some (.sendCopy msg buffer urgent)) Call.msg : Option Nat) =
      some msg := rfl
    rw [hold, hnew, count_cons]
    simp only [some.injEq, beq_iff_eq, reduceCtorEq, if_false]
    omega
  · intro c hc
    cases hc
    exact hbuffer
  · rw [receiving_msg hold]
    rfl

theorem Pool.copy (hc : calls g = some (.sendCopy msg buffer urgent)) :
    Pool (sendCopy mq msg buffer urgent)
      (update calls g (some (.sendLink msg buffer urgent))) log free queue q := by
  have hmsg : (calls g).bind Call.msg = some msg := by
    rw [hc]
    rfl
  obtain ⟨hfree, hqueue, hothers⟩ := h.held hmsg
  have hbuffer : buffer.length ≤ mq.msgSize := h.relies g _ hc
  have hlists : (sendCopy mq msg buffer urgent).Lists free queue := by
    cases urgent with
    | false =>
      have hlists := h.lists.setNext hfree hqueue none
      exact ⟨hlists.freeList, hlists.queueList, hlists.tail, hlists.nodup⟩
    | true => exact ⟨h.lists.freeList, h.lists.queueList, h.lists.tail, h.lists.nodup⟩
  have hbytes : ∀ n ≠ msg, (sendCopy mq msg buffer urgent).bytes n = mq.bytes n := fun n hn =>
    update_of_ne hn ..
  refine h.part g hlists h.entry rfl rfl ?_ ?_ (fun _ _ => rfl) (prefix_refl _) ?_ h.replay
    h.takes ?_ h.received (h.once.update ?_)
  · intro n
    rw [hmsg]
    rfl
  · intro g' hg n hn
    have hne : n ≠ msg := by
      rintro rfl
      exact hothers g' hg hn
    refine ⟨?_, hbytes n hne⟩
    cases urgent with
    | false => exact update_of_ne hne ..
    | true => rfl
  · intro c hc
    cases hc
    refine ⟨⟨?_, hbuffer⟩, ?_⟩
    · unfold sendCopy
      simp only [update_self]
      exact prefix_append _ _
    · rintro rfl
      exact update_self ..
  · refine items_frame h.items rfl fun n hn => hbytes n ?_
    rintro rfl
    exact hqueue hn
  · rw [hc]
    rfl

omit [DecidableEq γ] in
/-- A list of different messages of the pool is not longer than the pool. -/
theorem Pool.length_le {l : List Nat} (hnodup : l.Nodup)
    (hl : ∀ n ∈ l, 0 < free.count n + queue.count n + hands calls n) : l.length ≤ mq.maxMsgs := by
  have hsub : l ⊆ List.range mq.maxMsgs := by
    intro n hn
    have hpos := hl n hn
    rw [h.place] at hpos
    rw [mem_range]
    by_contra hlt
    rw [if_neg hlt] at hpos
    exact absurd hpos (lt_irrefl 0)
  have hle := (subperm_of_subset hnodup hsub).length_le
  rwa [length_range] at hle

theorem Pool.link (hc : calls g = some (.sendLink msg buffer urgent)) :
    mq.entry < rtMqEntryMax ∧ ∃ queue' q',
      Pool { (if urgent then linkFront mq msg else linkBack mq msg) with entry := mq.entry + 1 }
        (update calls g none) (log.link buffer urgent) free queue' q' := by
  have hmsg : (calls g).bind Call.msg = some msg := by
    rw [hc]
    rfl
  obtain ⟨hfree, hqueue, hothers⟩ := h.held hmsg
  obtain ⟨hholds, hnext⟩ : mq.Holds buffer msg ∧ (urgent = false → mq.next msg = none) :=
    h.relies g _ hc
  have hentry := h.entry
  have honce : OnceEach (update calls g none) (log.link buffer urgent) q.taken := by
    have honce : OnceEach calls (log.link buffer urgent) q.taken := h.once
    refine honce.update ?_
    rw [hc]
    rfl
  refine ⟨?_, ?_⟩
  · have hnodup := (nodup_append.mp h.lists.nodup).2.1
    have hle := h.length_le (nodup_cons.mpr ⟨hqueue, hnodup⟩) (fun n hn => by
      rcases mem_cons.mp hn with rfl | hn
      · have := count_pos (p := fun x => (calls x).bind Call.msg = some n) hmsg
        unfold hands
        omega
      · have := count_pos_iff.mpr hn
        omega)
    have hsize := h.size
    rw [length_cons] at hle
    omega
  · cases urgent with
    | true =>
      have hlists := h.lists.linkFront hfree hqueue
      refine ⟨msg :: queue, { q with items := buffer :: q.items },
        h.part g (c := none) ⟨hlists.freeList, hlists.queueList, hlists.tail, hlists.nodup⟩ ?_ rfl
          rfl ?_ ?_ (fun _ _ => rfl) (prefix_refl _) nofun ?_ h.takes (.cons hholds h.items)
          h.received honce⟩
      · change mq.entry + 1 = _
        rw [length_cons]
        omega
      · intro n
        rw [hmsg, count_cons]
        simp only [bind_none, some.injEq, beq_iff_eq, reduceCtorEq, if_false]
        omega
      · intro g' hg n hn
        have hne : n ≠ msg := by
          rintro rfl
          exact hothers g' hg hn
        exact ⟨update_of_ne hne .., rfl⟩
      · exact Deque.replay_concat h.replay _
    | false =>
      have hlists := h.lists.linkBack hfree hqueue (hnext rfl)
      refine ⟨queue ++ [msg], { q with items := q.items ++ [buffer] },
        h.part g (c := none) ⟨hlists.freeList, hlists.queueList, hlists.tail, hlists.nodup⟩ ?_ rfl
          rfl ?_ ?_ (fun _ _ => rfl) (prefix_refl _) nofun ?_ h.takes
          (rel_append h.items (.cons hholds .nil)) h.received honce⟩
      · change mq.entry + 1 = _
        rw [length_append, length_singleton]
        omega
      · intro n
        rw [hmsg, count_append, count_singleton]
        simp only [bind_none, some.injEq, beq_iff_eq, reduceCtorEq, if_false]
        omega
      · intro g' hg n hn
        obtain ⟨-, hn', -⟩ := h.held hn
        refine ⟨?_, rfl⟩
        unfold linkBack
        rw [h.lists.tail]
        cases hlast : queue.getLast? with
        | none => rfl
        | some last =>
          apply update_of_ne
          rintro rfl
          exact hn' (mem_of_getLast? hlast)
      · exact Deque.replay_concat h.replay _

/-- A receive takes the first message of the queue. -/
theorem Pool.take (hold : (calls g).bind Call.msg = none) (hentry : mq.entry ≠ 0) (size : Nat) :
    ∃ msg, mq.msgQueueHead = some msg ∧ ∃ queue' q',
      Pool { unlink mq msg with entry := mq.entry - 1 }
        (update calls g (some (.recvCopy msg size))) (log.take g) free queue' q' := by
  cases queue with
  | nil => exact absurd h.entry hentry
  | cons msg rest =>
    have hhead : mq.msgQueueHead = some msg := h.lists.queueList.1
    obtain ⟨rest', heq, hlists⟩ := h.lists.unlink hhead
    obtain ⟨-, rfl⟩ := List.cons.inj heq
    obtain ⟨item, items, hholds, hitems, hq⟩ := List.forall₂_cons_right_iff.mp h.items
    have htaken : q.taken <+: q.taken ++ [item] := prefix_append _ _
    refine ⟨msg, hhead, rest, { items := items, taken := q.taken ++ [item] },
      h.part g ⟨hlists.freeList, hlists.queueList, hlists.tail, hlists.nodup⟩ ?_ rfl rfl ?_
        (fun _ _ _ _ => ⟨rfl, rfl⟩) ?_ htaken ?_ ?_ ?_ hitems (h.received_mono htaken) ?_⟩
    · change mq.entry - 1 = rest.length
      rw [h.entry, length_cons, Nat.add_sub_cancel]
    · intro n
      have hnew : Option.bind (some (.recvCopy msg size)) (Call.msg : Call β → Option Nat) =
        some msg := rfl
      rw [hold, hnew, count_cons]
      simp only [some.injEq, beq_iff_eq, reduceCtorEq, if_false]
      omega
    · intro g' hg
      exact update_of_ne hg ..
    · intro c hc
      cases hc
      refine ⟨item, ?_, hholds⟩
      simp only [Log.take, update_self, h.takes, List.getElem?_concat_length]
    · have hreplay := Deque.replay_concat h.replay .take
      rw [Deque.step, hq] at hreplay
      exact hreplay
    · change log.takes + 1 = (q.taken ++ [item]).length
      rw [h.takes, length_append, length_singleton]
    · -- the number of the new item was not in use
      intro number
      have hnumber := h.once number
      have hchange := reading_update calls g (some (.recvCopy msg size)) log.ticket
        log.takes number
      have hreceiving : Option.any (Call.receiving : Call β → Bool) (some (.recvCopy msg size)) =
        true := rfl
      rw [receiving_msg hold, hreceiving] at hchange
      rw [length_append, length_singleton]
      unfold Log.take
      simp only [Bool.false_eq_true, false_and, if_false, true_and, h.takes] at hchange ⊢
      split_ifs at hnumber hchange ⊢ <;> omega

theorem Pool.read (hc : calls g = some (.recvCopy msg size)) :
    Pool mq (update calls g (some (.recvFree msg size (recvCopy mq msg size)))) log free
      queue q := by
  obtain ⟨item, hitem, hprefix, hlength⟩ := h.relies g _ hc
  refine h.part g h.lists h.entry rfl rfl ?_ (fun _ _ _ _ => ⟨rfl, rfl⟩) (fun _ _ => rfl)
    (prefix_refl _) ?_ h.replay h.takes h.items h.received (h.once.update ?_)
  · intro n
    rw [hc]
    rfl
  · intro c hc'
    cases hc'
    refine ⟨item, hitem, ?_⟩
    obtain ⟨rest, hrest⟩ := hprefix
    unfold Copied recvCopy
    rw [← hrest, take_take, take_append_of_le_length (Nat.min_le_left _ _)]
    split_ifs with hsize
    · rw [Nat.min_eq_left hlength, take_length, take_of_length_le (by omega)]
    · rw [take_eq_take_iff]
      omega
  · rw [hc]
    rfl

theorem Pool.putFree (hc : calls g = some (.recvFree msg size buffer)) :
    Pool (putFree mq msg) (update calls g none) (log.receive g size buffer) (msg :: free)
      queue q := by
  have hmsg : (calls g).bind Call.msg = some msg := by
    rw [hc]
    rfl
  obtain ⟨hfree, hqueue, hothers⟩ := h.held hmsg
  obtain ⟨item, hitem, hcopy⟩ := h.relies g _ hc
  refine h.part g (h.lists.putFree hfree hqueue) h.entry rfl rfl ?_ ?_ (fun _ _ => rfl)
    (prefix_refl _) nofun h.replay h.takes (items_frame h.items rfl fun _ _ => rfl) ?_ ?_
  · intro n
    rw [hmsg, count_cons]
    simp only [bind_none, some.injEq, beq_iff_eq, reduceCtorEq, if_false]
    omega
  · intro g' hg n hn
    refine ⟨update_of_ne ?_ .., rfl⟩
    rintro rfl
    exact hothers g' hg hn
  · intro r hr
    rcases mem_append.mp hr with hr | hr
    · exact h.received r hr
    · obtain rfl := mem_singleton.mp hr
      exact ⟨item, hitem, hcopy⟩
  · intro number
    have hnumber := h.once number
    have hchange := reading_update calls g none log.ticket (log.ticket g) number
    have hreceiving : (calls g).any Call.receiving = true := by
      rw [hc]
      rfl
    rw [update_eq_self, hreceiving] at hchange
    simp only [any_none, Bool.false_eq_true, false_and, if_false, true_and] at hchange
    unfold Log.receive
    rw [map_append, count_append, map_singleton, count_singleton]
    simp only [beq_iff_eq]
    omega

/-- A reset moves all messages of the queue to the free list. -/
theorem Pool.reset : ∃ mq', freeAll mq mq.maxMsgs = some mq' ∧
      Pool { mq' with entry := 0 } calls log.reset (queue.reverse ++ free) []
        { q with items := [] } := by
  have hnodup := (nodup_append.mp h.lists.nodup).2.1
  have hle := h.length_le hnodup fun n hn => by
    have := count_pos_iff.mpr hn
    omega
  obtain ⟨mq', hmq', hlists, hbytes, hsize, hmax, hnext⟩ := h.lists.freeAll hle
  refine ⟨mq', hmq', ⟨hlists.freeList, hlists.queueList, hlists.tail, hlists.nodup⟩, rfl, hmax ▸ h.size, ?_,
    Deque.replay_concat h.replay _, h.takes, .nil, ?_, h.received, h.once⟩
  · intro n
    have hplace := h.place n
    rw [count_append, count_reverse]
    simp only [count_nil, hmax]
    omega
  · intro g c hc
    refine (h.relies g c hc).frame hsize ?_ (prefix_refl _)
    intro n hn
    have hmsg : (calls g).bind Call.msg = some n := by
      rw [hc]
      exact hn
    refine ⟨hnext n fun hqueue => h.listed (.inr hqueue) g hmsg, ?_⟩
    exact congrFun hbytes n

end

end

end RtKernel.MessageQueue
