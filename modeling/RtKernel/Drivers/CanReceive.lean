import RtKernel.Core.Places
import RtKernel.Core.Run
import RtKernel.Core.Word

/-!
# Received CAN messages

The messages that the receive interrupt stores wait in nodes, which are numbered. A
node is in the list of the free ones, in the list of those in use, or with a call of
`rt_can_read` that copies its message with interrupts enabled.

`β` are messages and `τ` the threads. The build is without `RT_CAN_USING_HDR`; the
counters of `status` and the callback are left out. There is no result where an
assertion fails.
-/

namespace RtKernel.CanReceive

open Function List

/-- `sizeof(struct rt_can_msg)`. -/
def sizeofRtCanMsg : Nat := 16

/-- A call of `_can_int_rx`, the messages at its buffer in the order in which they were copied. -/
structure Call (β : Type*) where
  id : Nat
  size : Nat
  /-- `msgs`, of 32 bits. -/
  msgs : Nat
  data : List β
  deriving DecidableEq

/-- Where a thread is. -/
inductive Phase (β : Type*)
  | idle
  /-- At `while (msgs)`. -/
  | loops (c : Call β)
  /-- It has taken a node, and copies the message next. -/
  | copies (c : Call β) (listmsg : Nat)
  /-- It has copied the message, and frees the node next. -/
  | frees (c : Call β) (listmsg : Nat)
  deriving DecidableEq

namespace Phase

variable {β : Type*}

def call : Phase β → Option (Call β)
  | idle => none
  | loops c | copies c _ | frees c _ => some c

/-- The call of a thread, by its number. -/
def id (p : Phase β) : Option Nat := p.call.map Call.id

/-- The node that a call has in its hands. -/
def node : Phase β → Option Nat
  | idle | loops _ => none
  | copies _ n | frees _ n => some n

/-- How many messages a call has written to its buffer or is going to write next. -/
def written : Phase β → Nat
  | idle => 0
  | loops c | frees c _ => c.data.length
  | copies c _ => c.data.length + 1

end Phase

/-- What became of a message that was stored. -/
inductive Fate
  | read (id : Nat)
  | dropped
  deriving DecidableEq

/-- A call that has returned. -/
structure Return (β : Type*) where
  call : Call β
  value : Nat

/-- The messages that a call has taken. -/
def takenBy {β : Type*} (served : List (β × Fate)) (id : Nat) : List β :=
  (served.filter fun m => m.2 = .read id).map Prod.fst

/-- The messages of a call that has returned are those that it took, in the order in which they
arrived, and it wrote and returned no more bytes than it was asked for. -/
structure Return.Right {β : Type*} (r : Return β) (served : List (β × Fate)) : Prop where
  data : r.call.data = takenBy served r.call.id
  written : sizeofRtCanMsg * r.call.data.length ≤ r.call.size
  value : r.value = sizeofRtCanMsg * r.call.data.length

variable {β : Type*} {served : List (β × Fate)} {served served' : List (β × Fate)} {phase : Phase β}

@[simp] theorem takenBy_append (served : List (β × Fate)) (m : β) (fate : Fate) (id : Nat) :
    takenBy (served ++ [(m, fate)]) id =
      takenBy served id ++ if fate = .read id then [m] else [] := by
  by_cases h : fate = .read id <;> simp [takenBy, h]

theorem takenBy_eq_nil {id : Nat} (h : ∀ m ∈ served, m.2 ≠ .read id) : takenBy served id = [] := by
  unfold takenBy
  rw [filter_eq_nil_iff.mpr]
  · rfl
  · intro m hm
    simpa using h m hm

/-- What a call has at its buffer is what it took, and `msgs` is what it has left. -/
def Phase.Sound {β : Type*} (data : Nat → β) (served : List (β × Fate)) : Phase β → Prop
  | .idle => True
  | .loops c => c.size < 2 ^ 32 ∧ c.size = sizeofRtCanMsg * c.data.length + c.msgs ∧
      takenBy served c.id = c.data
  | .copies c n => c.size < 2 ^ 32 ∧ c.size = sizeofRtCanMsg * c.data.length + c.msgs ∧
      sizeofRtCanMsg ≤ c.msgs ∧ takenBy served c.id = c.data ++ [data n]
  | .frees c _ => c.size < 2 ^ 32 ∧
      c.size + sizeofRtCanMsg = sizeofRtCanMsg * c.data.length + c.msgs ∧
      sizeofRtCanMsg ≤ c.msgs ∧ c.msgs ≤ c.size ∧ takenBy served c.id = c.data

theorem Phase.Sound.congr {data data' : Nat → β} (h : phase.Sound data served)
    (hdata : ∀ n, phase.node = some n → data' n = data n)
    (htaken : ∀ id, phase.id = some id → takenBy served' id = takenBy served id) :
    phase.Sound data' served' := by
  cases phase with
  | idle => trivial
  | loops c | frees c n =>
    simp only [Phase.Sound, htaken c.id rfl] at h ⊢
    exact h
  | copies c n =>
    simp only [Phase.Sound, htaken c.id rfl, hdata n rfl] at h ⊢
    exact h

theorem Phase.Sound.written_le {data : Nat → β} (h : phase.Sound data served) {c : Call β}
    (hc : phase.call = some c) : sizeofRtCanMsg * phase.written ≤ c.size := by
  cases phase with
  | idle => cases hc
  | loops d | copies d n | frees d n =>
    cases hc
    simp only [Phase.Sound, Phase.written, sizeofRtCanMsg] at h ⊢
    omega

theorem Return.Right.congr {r : Return β}
    (h : r.Right served) (htaken : takenBy served' r.call.id = takenBy served r.call.id) :
    r.Right served' :=
  ⟨h.data.trans htaken.symm, h.written, h.value⟩

/-- `struct rt_can_rx_fifo`, with the threads and what has happened. -/
structure RtCanRxFifo (τ β : Type*) where
  /-- `config.msgboxsz`. -/
  msgboxsz : Nat
  freenumbers : Nat
  freelist : List Nat
  uselist : List Nat
  /-- The message of a node. -/
  data : Nat → β
  phase : τ → Phase β
  /-- How many calls there have been. -/
  calls : Nat
  /-- What the controller has delivered. -/
  arrived : List β
  /-- What was taken from `uselist`. -/
  served : List (β × Fate)
  returns : List (Return β)

namespace RtCanRxFifo

variable {τ : Type*}

section

variable [DecidableEq τ]

def setPhase (s : RtCanRxFifo τ β) (t : τ) (phase : Phase β) : RtCanRxFifo τ β :=
  { s with phase := update s.phase t phase }

/-- `rt_can_read`. -/
def rtCanRead (s : RtCanRxFifo τ β) (t : τ) (size : Nat) : RtCanRxFifo τ β :=
  setPhase { s with calls := s.calls + 1 } t
    (.loops { id := s.calls, size := size, msgs := size, data := [] })

/-- `return (size - msgs)`. -/
def finish (s : RtCanRxFifo τ β) (t : τ) (c : Call β) : RtCanRxFifo τ β :=
  setPhase { s with returns := s.returns ++ [{ call := c, value := sub32 c.size c.msgs }] } t .idle

/-- The first node leaves `uselist`. -/
def removeUsed (s : RtCanRxFifo τ β) (t : τ) (c : Call β) (listmsg : Nat) (rest : List Nat) :
    RtCanRxFifo τ β :=
  setPhase { s with uselist := rest, served := s.served ++ [(s.data listmsg, Fate.read c.id)] } t
    (.copies c listmsg)

/-- `rt_memcpy` to the buffer. -/
def copyOut (s : RtCanRxFifo τ β) (t : τ) (c : Call β) (listmsg : Nat) : RtCanRxFifo τ β :=
  s.setPhase t (.frees { c with data := c.data ++ [s.data listmsg] } listmsg)

/-- The node goes to the end of `freelist`, and the buffer moves on by a message. -/
def insertFree (s : RtCanRxFifo τ β) (t : τ) (c : Call β) (listmsg : Nat) : RtCanRxFifo τ β :=
  setPhase { s with freelist := s.freelist ++ [listmsg], freenumbers := s.freenumbers + 1 } t
    (.loops { c with msgs := sub32 c.msgs sizeofRtCanMsg })

/-- The next step of `_can_int_rx`. -/
def next (s : RtCanRxFifo τ β) (t : τ) : Option (RtCanRxFifo τ β) :=
  match s.phase t with
  | .idle => none
  | .loops c =>
    if c.msgs = 0 then some (s.finish t c)
    else
      match s.uselist with
      | [] => some (s.finish t c)
      | listmsg :: rest => some (s.removeUsed t c listmsg rest)
  | .copies c listmsg => some (s.copyOut t c listmsg)
  | .frees c listmsg =>
    if s.freenumbers + 1 ≤ s.msgboxsz then some (s.insertFree t c listmsg) else none

/-- `rt_hw_can_isr` for `RT_CAN_EVENT_RX_IND` and `RT_CAN_EVENT_RXOF_IND`, where `recvmsg` has
returned a message; no thread runs until it ends. -/
def rtHwCanIsr (s : RtCanRxFifo τ β) (tmpmsg : β) : Option (RtCanRxFifo τ β) :=
  let s := { s with arrived := s.arrived ++ [tmpmsg] }
  match s.freelist with
  | listmsg :: rest =>
    if 0 < s.freenumbers then
      some { s with
        freelist := rest
        freenumbers := s.freenumbers - 1
        data := update s.data listmsg tmpmsg
        uselist := s.uselist ++ [listmsg] }
    else none
  | [] =>
    match s.uselist with
    | listmsg :: rest =>
      some { s with
        served := s.served ++ [(s.data listmsg, Fate.dropped)]
        data := update s.data listmsg tmpmsg
        uselist := rest ++ [listmsg] }
    | [] => some s

/-- What may happen; `recvmsg` may fail. -/
inductive Act (τ β : Type*)
  | read (t : τ) (size : Nat)
  | next (t : τ)
  | isr (recvmsg : Option β)

/-- One step of a run. A call for no byte returns at once. -/
def exec (s : RtCanRxFifo τ β) : Act τ β → Option (RtCanRxFifo τ β)
  | .read t size =>
    if (s.phase t).call.isNone ∧ 0 < size ∧ size < 2 ^ 32 then some (s.rtCanRead t size) else none
  | .next t => s.next t
  | .isr none => some s
  | .isr (some tmpmsg) => s.rtHwCanIsr tmpmsg

end

/-- `rt_can_open` has been called. -/
structure Initial (s : RtCanRxFifo τ β) : Prop where
  freenumbers : s.freenumbers = s.msgboxsz
  freelist : s.freelist = List.range s.msgboxsz
  uselist : s.uselist = []
  phase : ∀ t, s.phase t = .idle
  ghost : s.calls = 0 ∧ s.arrived = [] ∧ s.served = [] ∧ s.returns = []

structure Kept (s : RtCanRxFifo τ β) : Prop where
  /-- Each node is in one of the lists or in the hands of one call. -/
  placed : Placed s.msgboxsz (s.freelist ++ s.uselist) fun t => (s.phase t).node
  counted : s.freenumbers = s.freelist.length
  /-- What is in the list is what has arrived after all that was read or dropped. -/
  order : s.arrived = s.served.map Prod.fst ++ s.uselist.map s.data
  calls : ∀ t c, (s.phase t).call = some c → sizeofRtCanMsg * (s.phase t).written ≤ c.size
  returns : ∀ r ∈ s.returns, r.Right s.served

/-- A call with less than a message left finds none, and an interrupt finds a node. -/
def Careful (s : RtCanRxFifo τ β) : Act τ β → Prop
  | .next t =>
    match s.phase t with
    | .loops c => 0 < c.msgs → c.msgs < sizeofRtCanMsg → s.uselist = []
    | _ => True
  | .isr (some _) => s.freelist ≠ [] ∨ s.uselist ≠ []
  | .isr none | .read _ _ => True

/-- The calls in progress and those that have returned have different numbers. -/
structure Numbered (s : RtCanRxFifo τ β) : Prop where
  lt : ∀ t id, (s.phase t).id = some id → id < s.calls
  own : ∀ t u id, (s.phase t).id = some id → (s.phase u).id = some id → t = u
  returned : ∀ r ∈ s.returns, r.call.id < s.calls ∧ ∀ t, (s.phase t).id ≠ some r.call.id
  served : ∀ m ∈ s.served, ∀ id, m.2 = .read id → id < s.calls

/-- What holds in a run whose steps meet the condition. -/
structure Sound (s : RtCanRxFifo τ β) : Prop where
  placed : Placed s.msgboxsz (s.freelist ++ s.uselist) fun t => (s.phase t).node
  counted : s.freenumbers = s.freelist.length
  order : s.arrived = s.served.map Prod.fst ++ s.uselist.map s.data
  numbered : Numbered s
  phases : ∀ t, (s.phase t).Sound s.data s.served
  returns : ∀ r ∈ s.returns, r.Right s.served

theorem Sound.kept {s : RtCanRxFifo τ β} (h : Sound s) : Kept s :=
  ⟨h.placed, h.counted, h.order, fun t _ hc => (h.phases t).written_le hc, h.returns⟩

theorem Initial.sound {s : RtCanRxFifo τ β} (h : Initial s) : Sound s := by
  obtain ⟨hcalls, harrived, hserved, hreturns⟩ := h.ghost
  refine ⟨⟨?_, fun t n hn => ?_, fun n => ?_⟩, ?_, ?_, ⟨fun t id hid => ?_, fun t u id hid => ?_, ?_, ?_⟩,
    fun t => ?_, ?_⟩
  · rw [h.freelist, h.uselist, append_nil]
    exact nodup_range
  · rw [h.phase] at hn
    cases hn
  · simp [h.freelist, h.uselist, h.phase, Phase.node]
  · rw [h.freenumbers, h.freelist, length_range]
  · rw [harrived, hserved, h.uselist]
    rfl
  · rw [h.phase] at hid
    cases hid
  · rw [h.phase] at hid
    cases hid
  · rw [hreturns]
    exact fun r hr => absurd hr not_mem_nil
  · rw [hserved]
    exact fun m hm => absurd hm not_mem_nil
  · rw [h.phase]
    trivial
  · rw [hreturns]
    exact fun r hr => absurd hr not_mem_nil

variable {s t : RtCanRxFifo τ β}

/-- Nothing happens to the calls and what they took. -/
theorem Numbered.same (h : Numbered s) (hid : ∀ u, (t.phase u).id = (s.phase u).id)
    (hcalls : t.calls = s.calls) (hreturns : t.returns = s.returns)
    (hserved : ∀ m ∈ t.served, ∀ id, m.2 = .read id → m ∈ s.served ∨ ∃ u, (s.phase u).id = some id) :
    Numbered t := by
  refine ⟨fun u id hu => ?_, fun u v id hu hv => ?_, fun r hr => ?_, fun m hm id hread => ?_⟩
  · rw [hcalls]
    exact h.lt u id (hid u ▸ hu)
  · exact h.own u v id (hid u ▸ hu) (hid v ▸ hv)
  · rw [hreturns] at hr
    refine ⟨hcalls ▸ (h.returned r hr).1, fun u => ?_⟩
    rw [hid]
    exact (h.returned r hr).2 u
  · rw [hcalls]
    rcases hserved m hm id hread with hold | ⟨u, hu⟩
    · exact h.served m hold id hread
    · exact h.lt u id hu

variable [DecidableEq τ] {u : τ} {phase : Phase β} {c : Call β}

/-- A step of a call, of which its node and what it took come from the other parts. -/
theorem Sound.thread (h : Sound s) (hphase : t.phase = update s.phase u phase)
    (hid : phase.id = (s.phase u).id) (hcalls : t.calls = s.calls)
    (hreturns : t.returns = s.returns) (hdata : t.data = s.data) (hserved : t.served = s.served ∨
      ∃ m id, (s.phase u).id = some id ∧ t.served = s.served ++ [(m, .read id)])
    (hsound : phase.Sound t.data t.served) :
    Numbered t ∧ (∀ v, (t.phase v).Sound t.data t.served) ∧ ∀ r ∈ t.returns, r.Right t.served := by
  -- what other calls took stays the same
  have htaken : ∀ id, (s.phase u).id ≠ some id → takenBy t.served id = takenBy s.served id := by
    intro id hne
    rcases hserved with heq | ⟨m, own, hown, heq⟩
    · rw [heq]
    · have hother : Fate.read own ≠ .read id := by
        intro hread
        cases hread
        exact hne hown
      rw [heq, takenBy_append, if_neg hother, append_nil]
  refine ⟨h.numbered.same (fun v => ?_) hcalls hreturns fun m hm id hread => ?_, fun v => ?_, fun r hr => ?_⟩
  · rw [hphase]
    by_cases hv : v = u
    · rw [hv, update_self, hid]
    · rw [update_of_ne hv]
  · rcases hserved with heq | ⟨m', own, hown, heq⟩
    · exact .inl (heq ▸ hm)
    · rw [heq] at hm
      rcases mem_append.mp hm with hold | hnew
      · exact .inl hold
      · obtain rfl := mem_singleton.mp hnew
        cases hread
        exact .inr ⟨u, hown⟩
  · rw [hphase]
    by_cases hv : v = u
    · rw [hv, update_self]
      exact hsound
    · rw [update_of_ne hv]
      refine (h.phases v).congr (fun n _ => by rw [hdata]) fun id hvid => htaken id fun huid => ?_
      exact hv (h.numbered.own v u id hvid huid)
  · rw [hreturns] at hr
    exact (h.returns r hr).congr (htaken _ ((h.numbered.returned r hr).2 u))

theorem Sound.rtCanRead (h : Sound s) {size : Nat} (hidle : s.phase u = .idle) (hsize : size < 2 ^ 32) :
    Sound (s.rtCanRead u size) := by
  have hphase : (s.rtCanRead u size).phase =
      update s.phase u (.loops { id := s.calls, size := size, msgs := size, data := [] }) := rfl
  have hself : ((s.rtCanRead u size).phase u).id = some s.calls := by
    rw [hphase, update_self]
    rfl
  have hother : ∀ v, v ≠ u → (s.rtCanRead u size).phase v = s.phase v := by
    intro v hv
    rw [hphase, update_of_ne hv]
  -- no call in progress or before has the number
  have hfresh : ∀ v, (s.phase v).id ≠ some s.calls :=
    fun v hv => absurd (h.numbered.lt v _ hv) (Nat.lt_irrefl _)
  refine ⟨h.placed.perm (.refl _) fun v => ?_, h.counted, h.order,
    ⟨fun v id hv => ?_, fun v w id hv hw => ?_, fun r hr => ?_, fun m hm id hread => ?_⟩,
    fun v => ?_, h.returns⟩
  · by_cases hv : v = u
    · rw [hv, hphase, update_self, hidle]
      rfl
    · rw [hother v hv]
  · by_cases hvu : v = u
    · rw [hvu, hself] at hv
      exact Option.some.inj hv ▸ Nat.lt_succ_self _
    · rw [hother v hvu] at hv
      exact Nat.lt_succ_of_lt (h.numbered.lt v id hv)
  · by_cases hvu : v = u <;> by_cases hwu : w = u
    · rw [hvu, hwu]
    · rw [hvu, hself] at hv
      rw [hother w hwu, ← hv] at hw
      exact absurd hw (hfresh w)
    · rw [hwu, hself] at hw
      rw [hother v hvu, ← hw] at hv
      exact absurd hv (hfresh v)
    · rw [hother v hvu] at hv
      rw [hother w hwu] at hw
      exact h.numbered.own v w id hv hw
  · obtain ⟨hlt, hne⟩ := h.numbered.returned r hr
    refine ⟨Nat.lt_succ_of_lt hlt, fun v => ?_⟩
    by_cases hvu : v = u
    · rw [hvu, hself]
      intro heq
      exact absurd hlt (Option.some.inj heq ▸ Nat.lt_irrefl _)
    · rw [hother v hvu]
      exact hne v
  · exact Nat.lt_succ_of_lt (h.numbered.served m hm id hread)
  · by_cases hv : v = u
    · rw [hv, hphase, update_self]
      refine ⟨hsize, (Nat.zero_add size).symm, takenBy_eq_nil fun m hm hread => ?_⟩
      exact absurd (h.numbered.served m hm _ hread) (Nat.lt_irrefl _)
    · rw [hother v hv]
      exact h.phases v

theorem Sound.finish (h : Sound s) (hu : s.phase u = .loops c) : Sound (s.finish u c) := by
  have hphase : (s.finish u c).phase = update s.phase u .idle := rfl
  have hself : (s.finish u c).phase u = .idle := by rw [hphase, update_self]
  have hother : ∀ v, v ≠ u → (s.finish u c).phase v = s.phase v := by
    intro v hv
    rw [hphase, update_of_ne hv]
  have hid : (s.phase u).id = some c.id := by
    rw [hu]
    rfl
  have hold : ∀ v id, ((s.finish u c).phase v).id = some id → v ≠ u ∧ (s.phase v).id = some id := by
    intro v id hv
    by_cases hvu : v = u
    · rw [hvu, hself] at hv
      cases hv
    · rw [hother v hvu] at hv
      exact ⟨hvu, hv⟩
  have hsound := h.phases u
  rw [hu] at hsound
  obtain ⟨hlt, hsize, htaken⟩ := hsound
  refine ⟨h.placed.perm (.refl _) fun v => ?_, h.counted, h.order,
    ⟨fun v id hv => h.numbered.lt v id (hold v id hv).2,
      fun v w id hv hw => h.numbered.own v w id (hold v id hv).2 (hold w id hw).2, fun r hr => ?_,
      h.numbered.served⟩, fun v => ?_, fun r hr => ?_⟩
  · by_cases hv : v = u
    · rw [hv, hself, hu]
      rfl
    · rw [hother v hv]
  · rcases mem_append.mp hr with hr | hr
    · refine ⟨(h.numbered.returned r hr).1, fun v hv => ?_⟩
      exact (h.numbered.returned r hr).2 v (hold v _ hv).2
    · obtain rfl := mem_singleton.mp hr
      refine ⟨h.numbered.lt u c.id hid, fun v hv => ?_⟩
      exact (hold v _ hv).1 (h.numbered.own v u c.id (hold v _ hv).2 hid)
  · by_cases hv : v = u
    · rw [hv, hself]
      trivial
    · rw [hother v hv]
      exact h.phases v
  · rcases mem_append.mp hr with hr | hr
    · exact h.returns r hr
    · obtain rfl := mem_singleton.mp hr
      refine ⟨htaken.symm, ?_, ?_⟩
      · dsimp only
        omega
      · dsimp only
        rw [sub32_eq (by omega) hlt]
        omega

variable {listmsg : Nat}

theorem Sound.removeUsed {rest : List Nat} (h : Sound s)
    (hu : s.phase u = .loops c) (hmsgs : sizeofRtCanMsg ≤ c.msgs) (huse : s.uselist = listmsg :: rest) :
    Sound (s.removeUsed u c listmsg rest) := by
  have hid : (s.phase u).id = some c.id := by
    rw [hu]
    rfl
  have hsound := h.phases u
  rw [hu] at hsound
  obtain ⟨hlt, hsize, htaken⟩ := hsound
  have hcopies : Phase.Sound s.data (s.served ++ [(s.data listmsg, Fate.read c.id)])
      (.copies c listmsg) := by
    refine ⟨hlt, hsize, hmsgs, ?_⟩
    rw [takenBy_append, if_pos rfl, htaken]
  obtain ⟨hnumbered, hphases, hreturns⟩ := h.thread (t := s.removeUsed u c listmsg rest)
    rfl hid.symm rfl rfl rfl (.inr ⟨_, c.id, hid, rfl⟩) hcopies
  refine ⟨h.placed.take (u := u) (n := listmsg) ?_ (by rw [hu]; rfl) fun v => ?_, h.counted, ?_,
    hnumbered, hphases, hreturns⟩
  · rw [huse]
    exact perm_middle
  · dsimp only [RtCanRxFifo.removeUsed, setPhase]
    by_cases hv : v = u
    · rw [if_pos hv, hv, update_self]
      rfl
    · rw [if_neg hv, update_of_ne hv]
  · dsimp only [RtCanRxFifo.removeUsed, setPhase]
    rw [h.order, huse]
    simp

theorem Sound.copyOut (h : Sound s) (hu : s.phase u = .copies c listmsg) :
    Sound (s.copyOut u c listmsg) := by
  have hid : (s.phase u).id = some c.id := by
    rw [hu]
    rfl
  have hsound := h.phases u
  rw [hu] at hsound
  obtain ⟨hlt, hsize, hmsgs, htaken⟩ := hsound
  have hfrees : Phase.Sound s.data s.served
      (.frees { c with data := c.data ++ [s.data listmsg] } listmsg) := by
    refine ⟨hlt, ?_, hmsgs, ?_, htaken⟩
    · dsimp only
      rw [length_append, length_singleton, Nat.mul_succ]
      omega
    · dsimp only
      omega
  obtain ⟨hnumbered, hphases, hreturns⟩ := h.thread (t := s.copyOut u c listmsg)
    rfl hid.symm rfl rfl rfl (.inl rfl) hfrees
  refine ⟨h.placed.perm (.refl _) fun v => ?_, h.counted, h.order, hnumbered, hphases, hreturns⟩
  dsimp only [RtCanRxFifo.copyOut, setPhase]
  by_cases hv : v = u
  · rw [hv, update_self, hu]
    rfl
  · rw [update_of_ne hv]

theorem Sound.insertFree (h : Sound s)
    (hu : s.phase u = .frees c listmsg) : Sound (s.insertFree u c listmsg) := by
  have hid : (s.phase u).id = some c.id := by
    rw [hu]
    rfl
  have hsound := h.phases u
  rw [hu] at hsound
  obtain ⟨hlt, hsize, hmsgs, hle, htaken⟩ := hsound
  have hloops : Phase.Sound s.data s.served (.loops { c with msgs := sub32 c.msgs sizeofRtCanMsg }) := by
    refine ⟨hlt, ?_, htaken⟩
    dsimp only
    rw [sub32_eq hmsgs (by omega)]
    omega
  obtain ⟨hnumbered, hphases, hreturns⟩ := h.thread (t := s.insertFree u c listmsg)
    rfl hid.symm rfl rfl rfl (.inl rfl) hloops
  refine ⟨h.placed.put (u := u) (n := listmsg) ?_ (by rw [hu]; rfl) fun v => ?_, ?_, h.order,
    hnumbered, hphases, hreturns⟩
  · dsimp only [RtCanRxFifo.insertFree, setPhase]
    rw [append_assoc]
    exact perm_middle
  · dsimp only [RtCanRxFifo.insertFree, setPhase]
    by_cases hv : v = u
    · rw [if_pos hv, hv, update_self]
      rfl
    · rw [if_neg hv, update_of_ne hv]
  · dsimp only [RtCanRxFifo.insertFree, setPhase]
    rw [length_append, h.counted, length_singleton]

theorem Sound.next (h : Sound s) (hcareful : Careful s (.next u)) (hnext : s.next u = some t) :
    Sound t := by
  unfold RtCanRxFifo.next at hnext
  cases hu : s.phase u with
  | idle =>
    rw [hu] at hnext
    cases hnext
  | loops c =>
    rw [hu] at hnext
    simp only [Careful, hu] at hcareful
    dsimp only at hnext
    split_ifs at hnext with hzero
    · cases hnext
      exact h.finish hu
    · cases huse : s.uselist with
      | nil =>
        rw [huse] at hnext
        cases hnext
        exact h.finish hu
      | cons listmsg rest =>
        rw [huse] at hnext hcareful
        cases hnext
        refine h.removeUsed hu (Nat.le_of_not_lt fun hlt => ?_) huse
        cases hcareful (Nat.pos_of_ne_zero hzero) hlt
  | copies c listmsg =>
    rw [hu] at hnext
    cases hnext
    exact h.copyOut hu
  | frees c listmsg =>
    rw [hu] at hnext
    split_ifs at hnext with hroom
    cases hnext
    exact h.insertFree hu

theorem map_update_concat {l : List Nat} (data : Nat → β) (tmpmsg : β) (h : listmsg ∉ l) :
    (l ++ [listmsg]).map (update data listmsg tmpmsg) = l.map data ++ [tmpmsg] := by
  have hold : l.map (update data listmsg tmpmsg) = l.map data := by
    refine map_congr_left fun n hn => update_of_ne ?_ _ _
    rintro rfl
    exact h hn
  rw [map_append, hold, map_singleton, update_self]

section

variable (h : Sound s) {a : Act τ β}
include h

omit [DecidableEq τ] in
/-- The interrupt writes to a node that no call has in its hands, and takes nothing for a call. -/
theorem Sound.isr (listmsg : Nat) (tmpmsg : β) (hphase : t.phase = s.phase)
    (hcalls : t.calls = s.calls) (hreturns : t.returns = s.returns)
    (hlistmsg : listmsg ∈ s.freelist ++ s.uselist) (hdata : t.data = update s.data listmsg tmpmsg)
    (hserved : t.served = s.served ∨ ∃ m, t.served = s.served ++ [(m, .dropped)]) :
    Numbered t ∧ (∀ v, (t.phase v).Sound t.data t.served) ∧ ∀ r ∈ t.returns, r.Right t.served := by
  have htaken : ∀ id, takenBy t.served id = takenBy s.served id := by
    intro id
    rcases hserved with heq | ⟨m, heq⟩
    · rw [heq]
    · rw [heq, takenBy_append, if_neg (by simp), append_nil]
  refine ⟨h.numbered.same (fun v => by rw [hphase]) hcalls hreturns fun m hm id hread => ?_, fun v => ?_,
    fun r hr => ?_⟩
  · rcases hserved with heq | ⟨m', heq⟩
    · exact .inl (heq ▸ hm)
    · rw [heq] at hm
      rcases mem_append.mp hm with hold | hnew
      · exact .inl hold
      · obtain rfl := mem_singleton.mp hnew
        cases hread
  · rw [hphase]
    refine (h.phases v).congr (fun n hn => ?_) fun id _ => htaken id
    rw [hdata]
    refine update_of_ne ?_ _ _
    rintro rfl
    exact (h.placed.apart v n hn).1 hlistmsg
  · rw [hreturns] at hr
    exact (h.returns r hr).congr (htaken _)

omit [DecidableEq τ] in
theorem Sound.rtHwCanIsr {tmpmsg : β} (hnode : s.freelist ≠ [] ∨ s.uselist ≠ [])
    (hisr : s.rtHwCanIsr tmpmsg = some t) : Sound t := by
  unfold RtCanRxFifo.rtHwCanIsr at hisr
  have hnodup := h.placed.nodup
  cases hfree : s.freelist with
  | cons listmsg rest =>
    rw [hfree] at hisr hnodup
    dsimp only at hisr
    split_ifs at hisr with hpos
    have hnew : listmsg ∉ s.uselist := by
      intro hin
      exact (nodup_cons.mp hnodup).1 (mem_append_right _ hin)
    obtain ⟨hnumbered, hphases, hreturns⟩ := h.isr (t := t) listmsg tmpmsg
      (by cases hisr; rfl) (by cases hisr; rfl) (by cases hisr; rfl) (by rw [hfree]; simp)
      (by cases hisr; rfl) (by cases hisr; exact .inl rfl)
    cases hisr
    refine ⟨h.placed.perm ?_ fun _ => rfl, ?_, ?_, hnumbered, hphases, hreturns⟩
    · dsimp only
      rw [hfree, ← append_assoc]
      exact perm_append_singleton listmsg (rest ++ s.uselist)
    · dsimp only
      rw [h.counted, hfree, length_cons, Nat.add_sub_cancel]
    · dsimp only
      rw [map_update_concat _ _ hnew, h.order, append_assoc]
  | nil =>
    rw [hfree] at hisr hnodup
    cases huse : s.uselist with
    | nil => exact absurd huse (hnode.resolve_left (not_not.mpr hfree))
    | cons listmsg rest =>
      rw [huse] at hisr hnodup
      have hnew : listmsg ∉ rest := (nodup_cons.mp hnodup).1
      obtain ⟨hnumbered, hphases, hreturns⟩ := h.isr (t := t) listmsg tmpmsg
        (by cases hisr; rfl) (by cases hisr; rfl) (by cases hisr; rfl) (by rw [huse]; simp)
        (by cases hisr; rfl) (by cases hisr; exact .inr ⟨_, rfl⟩)
      cases hisr
      refine ⟨h.placed.perm ?_ fun _ => rfl, ?_, ?_, hnumbered, hphases, hreturns⟩
      · dsimp only
        rw [hfree, huse]
        exact perm_append_singleton listmsg rest
      · dsimp only
        rw [h.counted, hfree]
      · dsimp only
        rw [map_update_concat _ _ hnew, h.order, huse]
        simp

theorem Sound.exec (hcareful : Careful s a) (hexec : s.exec a = some t) :
    Sound t := by
  cases a with
  | read u size =>
    obtain ⟨⟨hidle, -, hsize⟩, hexec⟩ := Option.ite_none_right_eq_some.mp hexec
    cases hexec
    refine h.rtCanRead ?_ hsize
    cases hphase : s.phase u with
    | idle => rfl
    | loops c | copies c n | frees c n =>
      rw [hphase] at hidle
      cases hidle
  | next u => exact h.next hcareful hexec
  | isr recvmsg =>
    cases recvmsg with
    | none =>
      cases hexec
      exact h
    | some tmpmsg => exact h.rtHwCanIsr hcareful hexec

/-- A step against the condition breaks something. -/
theorem Sound.not_kept (hcareful : ¬ Careful s a) (hexec : s.exec a = some t) : ¬ Kept t := by
  intro hkept
  cases a with
  | read u size => exact hcareful trivial
  | next u =>
    cases hu : s.phase u with
    | idle | copies c n | frees c n =>
      simp only [Careful, hu, not_true_eq_false] at hcareful
    | loops c =>
      simp only [Careful, hu, Classical.not_imp] at hcareful
      obtain ⟨hpos, hlt, huse⟩ := hcareful
      obtain ⟨listmsg, rest, huse⟩ := exists_cons_of_ne_nil huse
      change s.next u = some t at hexec
      unfold RtCanRxFifo.next at hexec
      rw [hu] at hexec
      dsimp only at hexec
      rw [if_neg (Nat.ne_of_gt hpos), huse] at hexec
      cases hexec
      have hsound := h.phases u
      rw [hu] at hsound
      have hcalls := hkept.calls u c (by simp [RtCanRxFifo.removeUsed, setPhase, Phase.call])
      simp only [RtCanRxFifo.removeUsed, setPhase, update_self, Phase.written,
        Nat.mul_succ] at hcalls
      have hsize := hsound.2.1
      omega
  | isr recvmsg =>
    cases recvmsg with
    | none => exact hcareful trivial
    | some tmpmsg =>
      simp only [Careful, ne_eq, not_or, not_not] at hcareful
      unfold RtCanRxFifo.exec RtCanRxFifo.rtHwCanIsr at hexec
      rw [hcareful.1, hcareful.2] at hexec
      cases hexec
      have horder := hkept.order
      rw [h.order] at horder
      simp at horder

theorem Sound.next_isSome (hbusy : (s.phase u).call.isSome) : (s.next u).isSome := by
  unfold RtCanRxFifo.next
  cases hu : s.phase u with
  | idle =>
    rw [hu] at hbusy
    cases hbusy
  | loops c =>
    dsimp only
    split_ifs
    · rfl
    · cases s.uselist <;> rfl
  | copies c listmsg => rfl
  | frees c listmsg =>
    -- the node is not among the free ones
    have hnode : (s.phase u).node = some listmsg := by
      rw [hu]
      rfl
    have hlen := h.placed.length_lt hnode
    rw [length_append] at hlen
    have hroom : s.freenumbers + 1 ≤ s.msgboxsz := by
      rw [h.counted]
      omega
    dsimp only
    rw [if_pos hroom]
    rfl

omit [DecidableEq τ] in
theorem Sound.rtHwCanIsr_isSome (tmpmsg : β) : (s.rtHwCanIsr tmpmsg).isSome := by
  unfold RtCanRxFifo.rtHwCanIsr
  cases hfree : s.freelist with
  | nil => cases s.uselist <;> rfl
  | cons listmsg rest =>
    have hpos : 0 < s.freenumbers := by
      rw [h.counted, hfree]
      exact Nat.succ_pos _
    dsimp only
    rw [if_pos hpos]
    rfl

end

/-- In a run of steps that meet the condition everything is kept and no assertion fails, and the
condition is met just by the steps that keep it. -/
theorem reachable_fifoKept (s : RtCanRxFifo τ β)
    (h : Reachable Initial (Within (fun s a t => s.exec a = some t) Careful) s) :
    Kept s ∧ (∀ a t, s.exec a = some t → (Kept t ↔ Careful s a)) ∧
      (∀ t, (s.phase t).call.isSome → (s.next t).isSome) ∧
      ∀ tmpmsg, (s.rtHwCanIsr tmpmsg).isSome := by
  have hsound : Sound s :=
    h.inductWithin (·.sound) (·.exec)
  refine ⟨hsound.kept, fun a t hexec => ⟨fun hkept => ?_, fun hcareful => ?_⟩,
    fun t hbusy => hsound.next_isSome hbusy, hsound.rtHwCanIsr_isSome⟩
  · by_contra hcareful
    exact hsound.not_kept hcareful hexec hkept
  · exact (hsound.exec hcareful hexec).kept

instance decidableCareful (s : RtCanRxFifo τ β) (a : Act τ β) : Decidable (Careful s a) :=
  match a with
  | .next t =>
    match hphase : s.phase t with
    | .loops c =>
      decidable_of_iff (0 < c.msgs → c.msgs < sizeofRtCanMsg → s.uselist.isEmpty)
        (by simp [Careful, hphase])
    | .idle | .copies _ _ | .frees _ _ => .isTrue (by simp [Careful, hphase])
  | .isr (some _) =>
    decidable_of_iff (¬ s.freelist.isEmpty ∨ ¬ s.uselist.isEmpty) (by simp [Careful])
  | .isr none | .read _ _ => .isTrue trivial

/-- A device that has just been opened; messages are numbers. -/
def opened (msgboxsz : Nat) : RtCanRxFifo (Fin 2) Nat where
  msgboxsz := msgboxsz
  freenumbers := msgboxsz
  freelist := List.range msgboxsz
  uselist := []
  data := fun _ => 0
  phase := fun _ => .idle
  calls := 0
  arrived := []
  served := []
  returns := []

theorem opened_initial (msgboxsz : Nat) : Initial (opened msgboxsz) :=
  ⟨rfl, rfl, rfl, fun _ => rfl, ⟨rfl, rfl, rfl, rfl⟩⟩

/-- Three messages for two nodes, and a call for two that another message interrupts. -/
def overflowRead : List (Act (Fin 2) Nat) :=
  [.isr (some 5), .isr (some 6), .isr (some 7), .read 0 32, .next 0, .isr none, .next 0, .next 0,
    .isr (some 8), .next 0, .next 0, .next 0, .next 0]

/-- The oldest message was dropped, and the call has the next two. -/
theorem reachable_fifoKept_overflow : ∃ s : RtCanRxFifo (Fin 2) Nat,
    s.served = [(5, .dropped), (6, .read 0), (7, .read 0)] ∧
      s.returns.map (fun r => (r.call.data, r.value)) = [([6, 7], 32)] ∧
      (Kept s ∧ (∀ a t, s.exec a = some t → (Kept t ↔ Careful s a)) ∧
        (∀ t, (s.phase t).call.isSome → (s.next t).isSome) ∧
        ∀ tmpmsg, (s.rtHwCanIsr tmpmsg).isSome) := by
  obtain ⟨s, hs, heq⟩ : ∃ s ∈ runWithin exec Careful (opened 2) overflowRead,
      s.served = [(5, .dropped), (6, .read 0), (7, .read 0)] ∧
      s.returns.map (fun r => (r.call.data, r.value)) = [([6, 7], 32)] := by decide +kernel
  exact ⟨s, heq.1, heq.2, reachable_fifoKept s ((Reachable.start (opened_initial 2)).runWithin hs)⟩

/-- A call for one byte takes a message of sixteen, and says that it has read sixteen. And where the
only node is in the hands of a call, a message that arrives is not stored. -/
theorem oddSize_not_kept :
    (∃ s : RtCanRxFifo (Fin 2) Nat, Reachable Initial (fun s a t => s.exec a = some t) s ∧
      s.returns.map (fun r => (r.call.size, r.call.data, r.value)) = [(1, [5], 16)] ∧ ¬ Kept s) ∧
    ∃ s : RtCanRxFifo (Fin 2) Nat, Reachable Initial (fun s a t => s.exec a = some t) s ∧
      s.arrived = [5, 6] ∧ s.served = [(5, .read 0)] ∧ s.uselist = [] ∧ ¬ Kept s := by
  obtain ⟨s, hs, heq⟩ :
      ∃ s ∈ runAll exec (opened 1) [.isr (some 5), .read 0 1, .next 0, .next 0, .next 0,
      .next 0],
      s.returns.map (fun r => (r.call.size, r.call.data, r.value)) = [(1, [5], 16)] := by decide +kernel
  obtain ⟨t, ht, harrived, hserved, huse⟩ :
      ∃ s ∈ runAll exec (opened 1) [.isr (some 5), .read 0 16, .next 0, .isr (some 6)],
      s.arrived = [5, 6] ∧ s.served = [(5, .read 0)] ∧ s.uselist = [] := by decide +kernel
  refine ⟨⟨s, (Reachable.start (opened_initial 1)).runAll hs, heq, fun hkept => ?_⟩,
    t, (Reachable.start (opened_initial 1)).runAll ht, harrived, hserved, huse, fun hkept => ?_⟩
  · obtain ⟨r, hr, hr'⟩ : ∃ r ∈ s.returns, (r.call.size, r.call.data, r.value) = (1, [5], 16) := by
      rw [← List.mem_map, heq]
      exact List.mem_singleton_self _
    simp only [Prod.mk.injEq] at hr'
    have hwritten := (hkept.returns r hr).written
    rw [hr'.1, hr'.2.1] at hwritten
    exact absurd hwritten (by decide)
  · have horder := hkept.order
    rw [harrived, hserved, huse, List.map_nil] at horder
    exact absurd horder (by decide)

end RtCanRxFifo

end RtKernel.CanReceive
