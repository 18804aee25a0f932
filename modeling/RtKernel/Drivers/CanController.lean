import RtKernel.Core.Run

/-!
# The receive buffer of the CAN controller

The controller puts the frames that arrive into its receive buffer and raises one flag
for them. `_can_isr` runs for any of the interrupts of the controller, takes a frame
where the buffer has overflowed, and takes a frame where the flag is raised. Frames may
arrive between any two of its steps.

`β` are frames. The flags that only report errors or the end of a transmission are left
out; `rt_hw_can_isr` calls `_can_recvmsg` first, and what it does with the frame is not
needed here.
-/

open List

namespace RtKernel.CanController

/-- Where `_can_isr` is. -/
inductive Phase
  | idle
  /-- At the test of `CAN_FLAG_RX_BUF_OVF`. -/
  | overflow
  /-- In `rt_hw_can_isr` with `RT_CAN_EVENT_RXOF_IND`. -/
  | overflowRead
  /-- At `CAN_ClearStatus` of `CAN_FLAG_RX_BUF_OVF`. -/
  | overflowClear
  /-- At the test of `CAN_FLAG_RX`. -/
  | rx
  /-- At `CAN_ClearStatus` of `CAN_FLAG_RX`. -/
  | rxClear
  /-- In `rt_hw_can_isr` with `RT_CAN_EVENT_RX_IND`. -/
  | rxRead
  deriving DecidableEq

/-- The registers of the receiver. -/
structure Can (β : Type*) where
  /-- How many frames the receive buffer has room for. -/
  slots : Nat
  rb : List β
  /-- `RCTRL.ROV`. -/
  rov : Bool
  /-- `RTIF.RIF`, for which an interrupt is pending. -/
  rif : Bool
  phase : Phase
  /-- What `_can_recvmsg` has returned. -/
  received : List β
  deriving DecidableEq

namespace Can

variable {β : Type*} {s t : Can β}

/-- `RCTRL.RREL`: the slot of the first frame is released. -/
def rrel (s : Can β) : Can β := { s with rb := s.rb.tail, rov := false }

/-- `CAN_GetRxFrame`. -/
def canGetRxFrame (s : Can β) : Option β × Can β :=
  match s.rb with
  | [] => (none, s)
  | frame :: _ => (some frame, s.rrel)

/-- `_can_recvmsg`, by `rt_hw_can_isr`. -/
def canRecvmsg (s : Can β) : Can β :=
  match s.canGetRxFrame with
  | (none, s) => s
  | (some frame, s) => { s with received := s.received ++ [frame] }

/-- The next step of `_can_isr`. -/
def next (s : Can β) : Option (Can β) :=
  match s.phase with
  | .idle => none
  | .overflow => some { s with phase := if s.rov then .overflowRead else .rx }
  | .overflowRead => some { s.canRecvmsg with phase := .overflowClear }
  | .overflowClear => some { s.rrel with phase := .rx }
  | .rx => some { s with phase := if s.rif then .rxClear else .idle }
  | .rxClear => some { s with rif := false, phase := .rxRead }
  | .rxRead => some { s.canRecvmsg with phase := .idle }

/-- A frame arrives; where the buffer is full it is discarded (`CAN_RX_OVF_DISCARD_NEW`). -/
def arrive (s : Can β) (frame : β) : Can β :=
  if s.rb.length < s.slots then { s with rb := s.rb ++ [frame], rif := true }
  else { s with rov := true, rif := true }

/-- What may happen. -/
inductive Act (β : Type*)
  | arrive (frame : β)
  /-- An interrupt of the controller is served, of whatever kind. -/
  | canIsr
  | next

/-- One step of a run. -/
def exec (s : Can β) : Act β → Option (Can β)
  | .arrive frame => some (s.arrive frame)
  | .canIsr => if s.phase = .idle then some { s with phase := .overflow } else none
  | .next => s.next

/-- No frame has arrived since the controller was set up. -/
structure Initial (s : Can β) : Prop where
  rb : s.rb = []
  rov : s.rov = false
  rif : s.rif = false
  phase : s.phase = .idle
  received : s.received = []

/-- Where `_can_isr` has returned and nothing is pending, no frame waits. -/
def Kept (s : Can β) : Prop := s.phase = .idle → s.rif = false → s.rb = []

/-- The flag is cleared while no more than one frame waits. -/
def Careful (s : Can β) : Act β → Prop
  | .next => s.phase = .rxClear → s.rb.length ≤ 1
  | .arrive _ | .canIsr => True

/-- A frame that waits is announced by the flag, or is the one that is read next. -/
structure Sound (s : Can β) : Prop where
  flag : s.phase ≠ .rxRead → s.rif = false → s.rb = []
  one : s.phase = .rxRead → s.rif = false → s.rb.length ≤ 1

@[simp] theorem canRecvmsg_rb (s : Can β) : s.canRecvmsg.rb = s.rb.tail := by
  unfold canRecvmsg canGetRxFrame
  cases hrb : s.rb with
  | nil => exact hrb
  | cons frame rest => exact congrArg List.tail hrb

@[simp] theorem canRecvmsg_rif (s : Can β) : s.canRecvmsg.rif = s.rif := by
  unfold canRecvmsg canGetRxFrame
  cases s.rb <;> rfl

theorem arrive_rif (s : Can β) (frame : β) : (s.arrive frame).rif = true := by
  unfold arrive
  split <;> rfl

theorem Sound.next (h : Sound s) (hcareful : Careful s .next) (hnext : s.next = some t) : Sound t := by
  unfold Can.next at hnext
  cases hphase : s.phase with
  | idle =>
    rw [hphase] at hnext
    cases hnext
  | overflow | rx =>
    rw [hphase] at hnext
    cases hnext
    refine ⟨fun _ hrif => h.flag (by rw [hphase]; decide) hrif, fun hread => ?_⟩
    split at hread <;> cases hread
  | overflowRead =>
    rw [hphase] at hnext
    cases hnext
    refine ⟨fun _ hrif => ?_, fun hread => by cases hread⟩
    rw [canRecvmsg_rif] at hrif
    rw [canRecvmsg_rb, h.flag (by rw [hphase]; decide) hrif, tail_nil]
  | overflowClear =>
    rw [hphase] at hnext
    cases hnext
    refine ⟨fun _ hrif => ?_, fun hread => by cases hread⟩
    show s.rb.tail = []
    rw [h.flag (by rw [hphase]; decide) hrif, tail_nil]
  | rxClear =>
    rw [hphase] at hnext
    cases hnext
    exact ⟨fun hread => absurd rfl hread, fun _ _ => hcareful hphase⟩
  | rxRead =>
    rw [hphase] at hnext
    cases hnext
    refine ⟨fun _ hrif => ?_, fun hread => by cases hread⟩
    -- the only frame is read now
    rw [canRecvmsg_rif] at hrif
    have hone := h.one hphase hrif
    rw [canRecvmsg_rb, ← length_eq_zero_iff, length_tail]
    omega

theorem Sound.exec {a : Act β} (h : Sound s) (hcareful : Careful s a) (hexec : s.exec a = some t) :
    Sound t := by
  cases a with
  | arrive frame =>
    cases hexec
    have hrif := arrive_rif s frame
    refine ⟨fun _ hoff => ?_, fun _ hoff => ?_⟩
    all_goals
      rw [hrif] at hoff
      cases hoff
  | canIsr =>
    obtain ⟨hidle, hexec⟩ := Option.ite_none_right_eq_some.mp hexec
    cases hexec
    exact ⟨fun _ hrif => h.flag (by rw [hidle]; decide) hrif, fun hread => by cases hread⟩
  | next => exact h.next hcareful hexec

theorem Initial.sound (h : Initial s) : Sound s := by
  refine ⟨fun _ _ => h.rb, fun hread => ?_⟩
  rw [h.phase] at hread
  cases hread

/-- `_can_isr` has cleared the flag and returned, and no frame has arrived meanwhile. -/
theorem isr_clears (hphase : s.phase = .rxClear) : s.next.bind next = some { s with
      rif := false, rb := s.rb.tail, rov := s.rov && s.rb.isEmpty, phase := .idle
      received := s.received ++ s.rb.head?.toList } := by
  unfold next
  rw [hphase]
  unfold canRecvmsg canGetRxFrame rrel
  cases hrb : s.rb with
  | nil => simp
  | cons frame rest => simp

/-- In a run in which the flag is cleared only while at most one frame waits, no frame waits where
nothing is pending. And `_can_isr`, if nothing arrives before it returns, leaves none waiting
exactly if it cleared the flag so. -/
theorem reachable_controllerKept (s : Can β)
    (h : Reachable Initial (Within (fun s a t => s.exec a = some t) Careful) s) :
    Kept s ∧ (s.phase = .rxClear →
      ((∀ t, s.next.bind next = some t → Kept t) ↔ Careful s .next)) := by
  have hsound : Sound s :=
    h.inductWithin (·.sound) (·.exec)
  refine ⟨fun hidle => hsound.flag (by rw [hidle]; decide), fun hphase => ?_⟩
  rw [isr_clears hphase]
  have hlen : s.rb.tail = [] ↔ s.rb.length ≤ 1 := by
    rw [← List.length_eq_zero_iff, List.length_tail]
    omega
  constructor
  · intro hkept _
    exact hlen.mp (hkept _ rfl rfl rfl)
  · rintro hcareful t ht
    cases ht
    exact fun _ _ => hlen.mpr (hcareful hphase)

instance decidableCareful (s : Can β) (a : Act β) : Decidable (Careful s a) :=
  match a with
  | .next => inferInstanceAs (Decidable (s.phase = .rxClear → s.rb.length ≤ 1))
  | .arrive _ | .canIsr => .isTrue trivial

/-- A controller that has been set up, with ten slots; frames are numbers. -/
def setUp : Can Nat where
  slots := 10
  rb := []
  rov := false
  rif := false
  phase := .idle
  received := []

theorem setUp_initial : Initial setUp := ⟨rfl, rfl, rfl, rfl, rfl⟩

/-- A frame arrives after the flag was cleared for another one, and is read when it is served. -/
theorem reachable_controllerKept_two : ∃ s : Can Nat, s.received = [5] ∧ s.rb = [6] ∧ s.rif = true ∧
    (Kept s ∧ (s.phase = .rxClear →
      ((∀ t, s.next.bind next = some t → Kept t) ↔ Careful s .next))) := by
  have hrun : ∃ s ∈ runWithin exec Careful setUp [.arrive 5, .canIsr, .next, .next, .next,
      .arrive 6, .next],
      s.received = [5] ∧ s.rb = [6] ∧ s.rif = true := by decide +kernel
  obtain ⟨s, hs, hreceived, hrb, hrif⟩ := Reachable.of_runWithin setUp_initial hrun
  exact ⟨s, hreceived, hrb, hrif, reachable_controllerKept s hs⟩

/-- Two frames arrive before the interrupt is served: the second one is left. -/
theorem twoFrames_not_kept : ∃ s : Can Nat,
    Reachable Initial (fun s a t => s.exec a = some t) s ∧
      s.phase = .idle ∧ s.rif = false ∧ s.received = [5] ∧ s.rb = [6] ∧ ¬ Kept s := by
  have hrun : runAll exec setUp [.arrive 5, .arrive 6, .canIsr, .next, .next, .next, .next] =
      some { setUp with rb := [6], received := [5] } := by decide +kernel
  refine ⟨_, (Reachable.start setUp_initial).runAll hrun, rfl, rfl, rfl, rfl, fun hkept => ?_⟩
  cases hkept rfl rfl

end Can

end RtKernel.CanController
