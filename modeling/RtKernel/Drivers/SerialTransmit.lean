import RtKernel.Core.Run
import RtKernel.Drivers.DataQueue

/-!
# Transmission by DMA

Threads push their buffers on the data queue of a serial device. A thread that finds
the DMA not activated starts it with its own buffer; afterwards the interrupt of each
completed transfer starts the next one from the queue. Pushing, testing the flag and
starting are three separate steps.
-/

namespace RtKernel.Serial

open DataQueue Function List

variable {τ β : Type*}

/-- Where a thread is in `_serial_dma_tx`. -/
inductive Writer (β : Type*)
  | idle
  /-- It is about to push, again maybe. -/
  | pushing (data : β)
  | suspended (data : β)
  /-- Its buffer is the one with this number of those that have been pushed. -/
  | pushed (data : β) (number : Nat)
  /-- It has set activated and has not called `dma_transmit` yet. -/
  | starting (data : β)
  deriving DecidableEq

/-- A serial device that transmits by DMA; a buffer is a pointer with its length. -/
structure Transmitter (τ β : Type*) where
  dataQueue : RtDataQueue τ β
  activated : Bool
  writer : τ → Writer β
  /-- The buffers that the hardware transmits. -/
  inFlight : List β
  /-- The buffers that have been pushed, in this order, and who has pushed them. -/
  accepted : List (τ × β)
  /-- The buffers that have been handed to `dma_transmit`. -/
  handed : List β
  /-- The buffers that have been transmitted, and those that tx_complete was called with. -/
  transmitted : List β
  completed : List (Option β)

/-- What threads and the interrupt do. -/
inductive TransmitAct (τ β : Type*)
  | write (t : τ) (data : β)
  | push (t : τ)
  | test (t : τ)
  | start (t : τ)
  | txDmadone

namespace Transmitter

/-- `dma_transmit`. -/
def dmaTransmit (s : Transmitter τ β) (data : β) : Transmitter τ β :=
  { s with inFlight := s.inFlight ++ [data], handed := s.handed ++ [data] }

variable [DecidableEq τ]

/-- A thread that `rt_data_queue_pop` resumes tries to push again. -/
def resume (writer : τ → Writer β) : Option τ → τ → Writer β
  | none => writer
  | some t =>
    match writer t with
    | .suspended data => update writer t (.pushing data)
    | _ => writer

/-- `rt_hw_serial_isr` with `RT_SERIAL_EVENT_TX_DMADONE`. -/
def txDmadone (s : Transmitter τ β) : Transmitter τ β :=
  let (dataQueue, lastDataPtr, resumed) := rtDataQueuePop s.dataQueue
  let s := { s with dataQueue := dataQueue, writer := resume s.writer resumed }
  let s :=
    match rtDataQueuePeek s.dataQueue with
    -- transmit next data node
    | some data => { s with activated := true }.dmaTransmit data
    | none => { s with activated := false }
  { s with completed := s.completed ++ [lastDataPtr] }

def exec (s : Transmitter τ β) : TransmitAct τ β → Option (Transmitter τ β)
  | .write t data =>
    match s.writer t with
    | .idle => some { s with writer := update s.writer t (.pushing data) }
    | _ => none
  | .push t =>
    match s.writer t with
    | .pushing data =>
      some (match rtDataQueuePush s.dataQueue t data with
        | (dataQueue, true) =>
          { s with
            dataQueue := dataQueue
            writer := update s.writer t (.pushed data s.accepted.length)
            accepted := s.accepted ++ [(t, data)] }
        | (dataQueue, false) =>
          { s with
            dataQueue := dataQueue
            writer := update s.writer t (.suspended data) })
    | _ => none
  | .test t =>
    match s.writer t with
    | .pushed data _ =>
      some (if s.activated ≠ true then
        { s with activated := true, writer := update s.writer t (.starting data) }
      else { s with writer := update s.writer t .idle })
    | _ => none
  | .start t =>
    match s.writer t with
    | .starting data =>
      some { s.dmaTransmit data with writer := update s.writer t .idle }
    | _ => none
  | .txDmadone =>
    match s.inFlight with
    | data :: rest =>
      some { s with inFlight := rest, transmitted := s.transmitted ++ [data] }.txDmadone
    | [] => none

/-- A device that `rt_serial_open` has just made ready. -/
def Initial (s : Transmitter τ β) : Prop :=
  ∃ cells, s =
    { dataQueue := rtDataQueueInit cells 8 4, activated := false, writer := fun _ => .idle
      inFlight := [], accepted := [], handed := [], transmitted := [], completed := [] }

/-- The hardware gets the buffers in the order they were pushed, one at a time, all of them when the
threads have returned and it is idle, and what it has transmitted is reported. -/
structure InOrder (s : Transmitter τ β) : Prop where
  handed : s.handed <+: s.accepted.map Prod.snd
  one : s.inFlight.length ≤ 1
  completed : s.completed = s.transmitted.map some
  all : s.inFlight = [] → (∀ t, s.writer t = .idle) → s.handed = s.accepted.map Prod.snd

/-- A thread that finds the DMA not activated has pushed the buffer that is the oldest one held. -/
def Careful (s : Transmitter τ β) : TransmitAct τ β → Prop
  | .test t => s.activated = false → ∀ data number, s.writer t = .pushed data number →
      number = s.completed.length
  | .write _ _ | .push _ | .start _ | .txDmadone => True

/-- A thread is not in one of the two last steps. -/
def Outside (w : Writer β) : Prop :=
  (∀ data i, w ≠ .pushed data i) ∧ ∀ data, w ≠ .starting data

theorem outside_idle : Outside (Writer.idle : Writer β) := by
  constructor <;> simp

theorem outside_pushing (data : β) : Outside (Writer.pushing data) := by
  constructor <;> simp

theorem outside_suspended (data : β) : Outside (Writer.suspended data) := by
  constructor <;> simp

/-- What the hardware is doing, where `q` is the data queue. -/
inductive Phase (q : List β) (s : Transmitter τ β) : Prop
  /-- It is idle, and whoever has pushed what is still there has not tested the flag. -/
  | off (hactivated : s.activated = false) (hidle : s.inFlight = [])
      (hstarting : ∀ t data, s.writer t ≠ .starting data)
      (hwaits : ∀ i t data, s.transmitted.length ≤ i → s.accepted[i]? = some (t, data) →
        s.writer t = .pushed data i)
  /-- One thread is about to start it with the oldest buffer. -/
  | starts (t : τ) (data : β) (hactivated : s.activated = true) (hidle : s.inFlight = [])
      (hstarting : ∀ t' data', s.writer t' = .starting data' ↔ t' = t ∧ data' = data)
      (hhead : q.head? = some data)
  /-- It transmits the oldest buffer. -/
  | flies (data : β) (hactivated : s.activated = true) (hflight : s.inFlight = [data])
      (hstarting : ∀ t data, s.writer t ≠ .starting data) (hhead : q.head? = some data)

/-- The data queue holds what has been accepted and not transmitted. -/
structure Good (q : List β) (s : Transmitter τ β) : Prop where
  holds : Holds 8 s.dataQueue q
  accepted : s.accepted.map Prod.snd = s.transmitted ++ q
  handed : s.handed = s.transmitted ++ s.inFlight
  completed : s.completed = s.transmitted.map some
  pushed : ∀ t data i, s.writer t = .pushed data i → s.accepted[i]? = some (t, data)
  phase : Phase q s

section

omit [DecidableEq τ]

variable {s s' : Transmitter τ β} {q : List β}

theorem Initial.good (h : Initial s) : Good [] s := by
  obtain ⟨cells, rfl⟩ := h
  refine ⟨holds_init (by decide) (by decide), rfl, rfl, rfl,
    fun _ data i hw => absurd hw (outside_idle.1 data i),
    .off rfl rfl (fun _ data hw => absurd hw (outside_idle.2 data)) fun i t data _ hi => ?_⟩
  exact absurd hi (by simp)

theorem Good.inOrder (h : Good q s) : InOrder s := by
  have hhanded := h.handed
  have haccepted := h.accepted
  cases h.phase with
  | off hactivated hidle hstarting hwaits =>
    refine ⟨?_, ?_, h.completed, fun _ hall => ?_⟩
    · rw [hhanded, haccepted, hidle, append_nil]
      exact prefix_append _ _
    · rw [hidle]
      exact Nat.zero_le 1
    · have hnil : q = [] := by
        cases q with
        | nil => rfl
        | cons data rest =>
          have hlt : s.transmitted.length < s.accepted.length := by
            have hlength := congrArg List.length haccepted
            rw [length_map, length_append, length_cons] at hlength
            omega
          have hpushed := hwaits _ _ _ le_rfl (List.getElem?_eq_getElem hlt)
          rw [hall] at hpushed
          cases hpushed
      rw [hhanded, haccepted, hidle, hnil]
  | starts t data hactivated hidle hstarting hhead =>
    refine ⟨?_, ?_, h.completed, fun _ hall => ?_⟩
    · rw [hhanded, haccepted, hidle, append_nil]
      exact prefix_append _ _
    · rw [hidle]
      exact Nat.zero_le 1
    · have ht := (hstarting t data).mpr ⟨rfl, rfl⟩
      rw [hall] at ht
      cases ht
  | flies data hactivated hflight hstarting hhead =>
    refine ⟨?_, ?_, h.completed, fun hidle => ?_⟩
    · obtain ⟨rest, rfl⟩ := List.head?_eq_some_iff.mp hhead
      rw [hhanded, haccepted, hflight]
      exact (prefix_append_right_inj _).mpr ⟨rest, rfl⟩
    · rw [hflight, length_singleton]
    · rw [hflight] at hidle
      cases hidle

/-- What the threads do outside of the two last steps does not matter. -/
theorem Good.of_writer (h : Good q s) {writer : τ → Writer β}
    (hpushed : ∀ t data i, writer t = .pushed data i ↔ s.writer t = .pushed data i)
    (hstarts : ∀ t data, writer t = .starting data ↔ s.writer t = .starting data) :
    Good q { s with writer := writer } := by
  refine ⟨h.holds, h.accepted, h.handed, h.completed,
    fun t data i hw => h.pushed t data i ((hpushed t data i).mp hw), ?_⟩
  cases h.phase with
  | off hactivated hidle hstarting hwaits =>
    exact .off hactivated hidle (fun t data hw => hstarting t data ((hstarts t data).mp hw))
      fun i t data hi hget => (hpushed t data i).mpr (hwaits i t data hi hget)
  | starts t data hactivated hidle hstarting hhead =>
    exact .starts t data hactivated hidle (fun t' data' => (hstarts t' data').trans (hstarting t' data'))
      hhead
  | flies data hactivated hflight hstarting hhead =>
    exact .flies data hactivated hflight (fun t data hw => hstarting t data ((hstarts t data).mp hw))
      hhead

/-- The data queue may list other threads that wait. -/
theorem Good.of_queue (h : Good q s) {dataQueue : RtDataQueue τ β} (hholds : Holds 8 dataQueue q) :
    Good q { s with dataQueue := dataQueue } := by
  refine ⟨hholds, h.accepted, h.handed, h.completed, h.pushed, ?_⟩
  cases h.phase with
  | off hactivated hidle hstarting hwaits => exact .off hactivated hidle hstarting hwaits
  | starts t data hactivated hidle hstarting hhead =>
    exact .starts t data hactivated hidle hstarting hhead
  | flies data hactivated hflight hstarting hhead =>
    exact .flies data hactivated hflight hstarting hhead

end

section

variable {s s' : Transmitter τ β} {q : List β}

/-- A thread that moves outside of the two last steps. -/
theorem Good.move (h : Good q s) {t : τ} {w : Writer β}
    (hold : Outside (s.writer t)) (hnew : Outside w) :
    Good q { s with writer := update s.writer t w } := by
  apply h.of_writer
  · intro t' data i
    by_cases ht : t' = t
    · subst ht
      rw [update_self]
      exact ⟨fun hw => absurd hw (hnew.1 data i), fun hw => absurd hw (hold.1 data i)⟩
    · rw [update_of_ne ht]
  · intro t' data
    by_cases ht : t' = t
    · subst ht
      rw [update_self]
      exact ⟨fun hw => absurd hw (hnew.2 data), fun hw => absurd hw (hold.2 data)⟩
    · rw [update_of_ne ht]

theorem Good.resume (h : Good q s) (resumed : Option τ) :
    Good q { s with writer := Transmitter.resume s.writer resumed } := by
  cases resumed with
  | none => exact h
  | some t =>
    simp only [Transmitter.resume]
    cases hw : s.writer t with
    | suspended data =>
      apply h.move
      · rw [hw]
        exact outside_suspended data
      · exact outside_pushing data
    | idle => exact h
    | pushing data => exact h
    | pushed data i => exact h
    | starting data => exact h

variable {data : β}

section

variable (h : Good q s) {t : τ}
include h

/-- A buffer that there is room for becomes the last one. -/
theorem Good.push (hw : s.writer t = .pushing data)
    {dataQueue : RtDataQueue τ β} (hholds : Holds 8 dataQueue (q ++ [data])) : Good (q ++ [data])
      { s with
        dataQueue := dataQueue
        writer := update s.writer t (.pushed data s.accepted.length)
        accepted := s.accepted ++ [(t, data)] } := by
  have hlt : ∀ {i x}, s.accepted[i]? = some x → i < s.accepted.length :=
    fun hi => (List.getElem?_eq_some_iff.mp hi).1
  have hstarts : ∀ t' data', update s.writer t (.pushed data s.accepted.length) t' =
      .starting data' ↔ s.writer t' = .starting data' := by
    intro t' data'
    by_cases ht : t' = t
    · subst ht
      rw [update_self, hw]
      simp only [reduceCtorEq]
    · rw [update_of_ne ht]
  have hhead : ∀ {x}, q.head? = some x → (q ++ [data]).head? = some x := by
    intro x hx
    obtain ⟨rest, rfl⟩ := List.head?_eq_some_iff.mp hx
    rfl
  refine ⟨hholds, ?_, h.handed, h.completed, fun t' data' i hw' => ?_, ?_⟩
  · show (s.accepted ++ [(t, data)]).map Prod.snd = s.transmitted ++ (q ++ [data])
    rw [map_append, h.accepted, append_assoc]
    rfl
  · show (s.accepted ++ [(t, data)])[i]? = some (t', data')
    by_cases ht : t' = t
    · subst ht
      have hw' : update s.writer t' (.pushed data s.accepted.length) t' = .pushed data' i := hw'
      rw [update_self] at hw'
      obtain ⟨rfl, rfl⟩ := Writer.pushed.inj hw'
      exact List.getElem?_concat_length
    · have hw' : update s.writer t (.pushed data s.accepted.length) t' = .pushed data' i := hw'
      rw [update_of_ne ht] at hw'
      have hi := h.pushed t' data' i hw'
      rw [List.getElem?_append_left (hlt hi)]
      exact hi
  · cases h.phase with
    | off hactivated hidle hstarting hwaits =>
      refine .off hactivated hidle (fun t' data' hno => hstarting t' data' ((hstarts t' data').mp hno)) ?_
      intro i t' data' hi hget
      show update s.writer t (.pushed data s.accepted.length) t' = .pushed data' i
      by_cases hlast : i < s.accepted.length
      · rw [List.getElem?_append_left hlast] at hget
        have hw' := hwaits i t' data' hi hget
        rw [update_of_ne ?_]
        · exact hw'
        · rintro rfl
          rw [hw] at hw'
          cases hw'
      · have hend := (List.getElem?_eq_some_iff.mp hget).1
        rw [length_append, length_singleton] at hend
        have heq : i = s.accepted.length := by omega
        subst heq
        rw [List.getElem?_concat_length] at hget
        cases hget
        rw [update_self]
    | starts t' data' hactivated hidle hstarting hq =>
      exact .starts t' data' hactivated hidle
        (fun u x => (hstarts u x).trans (hstarting u x)) (hhead hq)
    | flies data' hactivated hflight hstarting hq =>
      exact .flies data' hactivated hflight (fun u x hno => hstarting u x ((hstarts u x).mp hno))
        (hhead hq)

/-- A thread that has tested the flag has nothing more to do, or will start with the oldest buffer. -/
theorem Good.test {i : Nat} (hw : s.writer t = .pushed data i)
    (hcareful : Careful s (.test t)) : Good q (if s.activated ≠ true then
      { s with activated := true, writer := update s.writer t (.starting data) }
    else { s with writer := update s.writer t .idle }) := by
  have hpushed : ∀ (w : Writer β), (∀ data i, w ≠ .pushed data i) → ∀ t' data' i',
      update s.writer t w t' = .pushed data' i' → s.accepted[i']? = some (t', data') := by
    intro w hne t' data' i' hw'
    by_cases ht : t' = t
    · subst ht
      rw [update_self] at hw'
      exact absurd hw' (hne data' i')
    · rw [update_of_ne ht] at hw'
      exact h.pushed t' data' i' hw'
  cases h.phase with
  | off hactivated hidle hstarting hwaits =>
    rw [if_pos (by rw [hactivated]; exact Bool.false_ne_true)]
    refine ⟨h.holds, h.accepted, h.handed, h.completed,
      hpushed (.starting data) (fun _ _ => by simp), .starts t data rfl hidle ?_ ?_⟩
    · intro t' data'
      show update s.writer t (.starting data) t' = .starting data' ↔ _
      by_cases ht : t' = t
      · subst ht
        rw [update_self]
        exact ⟨fun heq => ⟨rfl, (Writer.starting.inj heq).symm⟩, fun heq => by rw [heq.2]⟩
      · rw [update_of_ne ht]
        exact ⟨fun hno => absurd hno (hstarting t' data'), fun hno => absurd hno.1 ht⟩
    · -- its number is that of the oldest buffer
      have hi := hcareful hactivated data i hw
      rw [h.completed, length_map] at hi
      have hmine := h.pushed t data i hw
      have hget : (s.accepted.map Prod.snd)[i]? = (s.transmitted ++ q)[i]? := by rw [h.accepted]
      rw [List.getElem?_map, hmine, Option.map_some, hi, List.getElem?_append_right le_rfl,
        Nat.sub_self] at hget
      rw [List.head?_eq_getElem?, ← hget]
  | starts t' data' hactivated hidle hstarting hhead =>
    rw [if_neg (by rw [hactivated]; exact fun hno => hno rfl)]
    have ht' : t' ≠ t := by
      rintro rfl
      have hno := (hstarting t' data').mpr ⟨rfl, rfl⟩
      rw [hw] at hno
      cases hno
    refine ⟨h.holds, h.accepted, h.handed, h.completed,
      hpushed .idle (fun data i => outside_idle.1 data i), .starts t' data' hactivated hidle ?_ hhead⟩
    intro u x
    show update s.writer t .idle u = .starting x ↔ _
    by_cases hu : u = t
    · subst hu
      rw [update_self]
      exact ⟨fun hno => absurd hno (outside_idle.2 x), fun hno => absurd hno.1.symm ht'⟩
    · rw [update_of_ne hu]
      exact hstarting u x
  | flies data' hactivated hflight hstarting hhead =>
    rw [if_neg (by rw [hactivated]; exact fun hno => hno rfl)]
    refine ⟨h.holds, h.accepted, h.handed, h.completed,
      hpushed .idle (fun data i => outside_idle.1 data i), .flies data' hactivated hflight ?_ hhead⟩
    intro u x
    show update s.writer t .idle u ≠ .starting x
    by_cases hu : u = t
    · subst hu
      rw [update_self]
      exact outside_idle.2 x
    · rw [update_of_ne hu]
      exact hstarting u x

/-- The thread that has set the flag starts the hardware. -/
theorem Good.start (hw : s.writer t = .starting data) :
    Good q { s.dmaTransmit data with writer := update s.writer t .idle } := by
  have hpushed : ∀ t' data' i', update s.writer t .idle t' = .pushed data' i' →
      s.accepted[i']? = some (t', data') := by
    intro t' data' i' hw'
    by_cases ht : t' = t
    · subst ht
      rw [update_self] at hw'
      exact absurd hw' (outside_idle.1 data' i')
    · rw [update_of_ne ht] at hw'
      exact h.pushed t' data' i' hw'
  cases h.phase with
  | off hactivated hidle hstarting hwaits
  | flies data' hactivated hflight hstarting hhead => exact absurd hw (hstarting t data)
  | starts t' data' hactivated hidle hstarting hhead =>
    obtain ⟨rfl, rfl⟩ := (hstarting t data).mp hw
    refine ⟨h.holds, h.accepted, ?_, h.completed, hpushed, .flies data hactivated ?_ ?_ hhead⟩
    · show s.handed ++ [data] = s.transmitted ++ (s.inFlight ++ [data])
      rw [h.handed, append_assoc]
    · show s.inFlight ++ [data] = [data]
      rw [hidle, nil_append]
    · intro u x
      show update s.writer t .idle u ≠ .starting x
      by_cases hu : u = t
      · subst hu
        rw [update_self]
        exact outside_idle.2 x
      · rw [update_of_ne hu]
        exact fun hno => hu ((hstarting u x).mp hno).1

/-- The next buffer follows the one that has been transmitted. -/
theorem Good.txDmadone {others : List β} (hflight : s.inFlight = data :: others) : ∃ q', Good q'
      { s with inFlight := others, transmitted := s.transmitted ++ [data] }.txDmadone := by
  cases h.phase with
  | off hactivated hidle hstarting hwaits | starts t data' hactivated hidle hstarting hhead =>
    rw [hflight] at hidle
    cases hidle
  | flies data' hactivated hone hstarting hhead =>
    rw [hflight] at hone
    cases hone
    obtain ⟨rest, rfl⟩ := List.head?_eq_some_iff.mp hhead
    obtain ⟨dataQueue, resumed, hpop, hholds, -⟩ := h.holds.pop
    have haccepted : s.accepted.map Prod.snd = s.transmitted ++ [data] ++ rest := by
      rw [h.accepted, append_assoc]
      rfl
    have hhanded : s.handed = s.transmitted ++ [data] := by rw [h.handed, hflight]
    have hcompleted : s.completed ++ [some data] = (s.transmitted ++ [data]).map some := by
      rw [h.completed, map_append]
      rfl
    refine ⟨rest, ?_⟩
    unfold Transmitter.txDmadone
    simp only [hpop, hholds.peek]
    cases rest with
    | nil =>
      have hdone : Good [] { s with
          dataQueue := dataQueue
          activated := false
          inFlight := []
          transmitted := s.transmitted ++ [data]
          completed := s.completed ++ [some data] } := by
        refine ⟨hholds, haccepted, ?_, hcompleted, h.pushed, .off rfl rfl hstarting ?_⟩
        · rw [hhanded, append_nil]
        · intro i t x hi hget
          have hlt := (List.getElem?_eq_some_iff.mp hget).1
          have hlength := congrArg List.length haccepted
          rw [length_map, append_nil] at hlength
          exact absurd hlt (by show ¬ i < s.accepted.length; rw [hlength]; exact Nat.not_lt.mpr hi)
      exact hdone.resume resumed
    | cons next rest =>
      have hnext : Good (next :: rest) { s with
          dataQueue := dataQueue
          activated := true
          inFlight := [next]
          handed := s.handed ++ [next]
          transmitted := s.transmitted ++ [data]
          completed := s.completed ++ [some data] } := by
        refine ⟨hholds, haccepted, ?_, hcompleted, h.pushed, .flies next rfl rfl hstarting rfl⟩
        rw [hhanded]
      exact hnext.resume resumed

theorem Good.exec {a : TransmitAct τ β} (hcareful : Careful s a)
    (hexec : exec s a = some s') : ∃ q', Good q' s' := by
  cases a with
  | write t data =>
    simp only [Transmitter.exec] at hexec
    cases hw : s.writer t with
    | idle =>
      simp only [hw] at hexec
      cases hexec
      exact ⟨q, h.move (by rw [hw]; exact outside_idle) (outside_pushing data)⟩
    | pushing _ | suspended _ | pushed _ _ | starting _ => simp only [hw] at hexec; cases hexec
  | push t =>
    simp only [Transmitter.exec] at hexec
    cases hw : s.writer t with
    | pushing data =>
      simp only [hw] at hexec
      cases hexec
      by_cases hroom : q.length < 8
      · obtain ⟨dataQueue, hpush, hholds, -⟩ := h.holds.push hroom t data
        rw [hpush]
        exact ⟨_, h.push hw hholds⟩
      · have hfull : q.length = 8 := Nat.le_antisymm h.holds.length_le (Nat.not_lt.mp hroom)
        rw [h.holds.push_full hfull]
        have hlisted : Holds 8 { s.dataQueue with
            suspendedPushList := s.dataQueue.suspendedPushList ++ [t] } q :=
          ⟨h.holds.size, h.holds.small, h.holds.get_lt, h.holds.put_eq, h.holds.length_le, h.holds.items,
            h.holds.isEmpty, h.holds.isFull⟩
        exact ⟨q, (h.of_queue hlisted).move (by rw [hw]; exact outside_pushing data)
          (outside_suspended data)⟩
    | idle | suspended _ | pushed _ _ | starting _ => simp only [hw] at hexec; cases hexec
  | test t =>
    simp only [Transmitter.exec] at hexec
    cases hw : s.writer t with
    | pushed data i =>
      simp only [hw] at hexec
      cases hexec
      exact ⟨q, h.test hw hcareful⟩
    | idle | pushing _ | suspended _ | starting _ => simp only [hw] at hexec; cases hexec
  | start t =>
    simp only [Transmitter.exec] at hexec
    cases hw : s.writer t with
    | starting data =>
      simp only [hw] at hexec
      cases hexec
      exact ⟨q, h.start hw⟩
    | idle | pushing _ | suspended _ | pushed _ _ => simp only [hw] at hexec; cases hexec
  | txDmadone =>
    simp only [Transmitter.exec] at hexec
    cases hflight : s.inFlight with
    | nil => simp only [hflight] at hexec; cases hexec
    | cons data rest =>
      simp only [hflight] at hexec
      cases hexec
      exact h.txDmadone hflight

end

/-- As long as the hardware is started only by the thread whose buffer is the oldest one, it gets all
buffers in order, and each is reported when it has been transmitted. -/
theorem reachable_inOrder
    (h : Reachable Initial (Within (fun (s : Transmitter τ β) a t => exec s a = some t) Careful) s) :
    InOrder s := by
  have hgood : ∃ q, Good q s := by
    apply h.invariant (fun _ h₀ => ⟨[], h₀.good⟩)
    rintro s a t - ⟨q, hq⟩ ⟨hcareful, hexec⟩
    exact hq.exec hcareful hexec
  obtain ⟨q, hq⟩ := hgood
  exact hq.inOrder

end

/-- A device for two threads whose buffers are numbers. -/
def ready : Transmitter (Fin 2) Nat where
  dataQueue := rtDataQueueInit (fun _ => 0) 8 4
  activated := false
  writer := fun _ => .idle
  inFlight := []
  accepted := []
  handed := []
  transmitted := []
  completed := []

theorem ready_initial : Initial ready := ⟨fun _ => 0, rfl⟩

instance (s : Transmitter τ β) (a : TransmitAct τ β) : Decidable (Careful s a) :=
  match a with
  | .test t =>
    match hw : s.writer t with
    | .pushed _ number =>
      decidable_of_iff (s.activated = false → number = s.completed.length) (by simp [Careful, hw])
    | .idle => .isTrue (by simp [Careful, hw])
    | .pushing _ => .isTrue (by simp [Careful, hw])
    | .suspended _ => .isTrue (by simp [Careful, hw])
    | .starting _ => .isTrue (by simp [Careful, hw])
  | .write _ _ | .push _ | .start _ | .txDmadone => .isTrue trivial

/-- Two buffers are transmitted, the second one by the interrupt. -/
theorem reachable_inOrder_two : ∃ s : Transmitter (Fin 2) Nat,
    (s.handed = [7, 9] ∧ s.completed = [some 7, some 9]) ∧ InOrder s := by
  have hrun : ∃ s ∈ runWithin exec Careful ready [.write 0 7, .push 0, .write 1 9, .push 1, .test 0,
      .test 1, .start 0, .txDmadone, .txDmadone],
      s.handed = [7, 9] ∧ s.completed = [some 7, some 9] := by decide +kernel
  obtain ⟨s, hs, htuple⟩ := Reachable.of_runWithin ready_initial hrun
  exact ⟨s, htuple, reachable_inOrder hs⟩

/-- The second thread starts with its own buffer, which is then transmitted twice. -/
theorem overtaken_not_inOrder :
    ¬ ∀ s : Transmitter (Fin 2) Nat, Reachable Initial (fun s a t => exec s a = some t) s →
      InOrder s := by
  intro hall
  have hrun : ∃ s ∈ runAll exec ready [.write 0 7, .push 0, .write 1 9, .push 1, .test 1, .start 1,
      .txDmadone, .test 0, .txDmadone],
      s.handed = [9, 9] ∧ s.accepted.map Prod.snd = [7, 9] := by decide +kernel
  obtain ⟨s, hs, hhanded, haccepted⟩ := Reachable.of_runAll ready_initial hrun
  have horder := (hall s hs).handed
  rw [hhanded, haccepted] at horder
  exact absurd horder (by decide)

end Transmitter

end RtKernel.Serial
