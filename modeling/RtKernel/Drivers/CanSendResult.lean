import RtKernel.Drivers.CanSendMode

/-!
# The results of sent messages

The result and the completion of a send box outlive the message that they belong to. They
belong to one message at a time where a box has one write at a time and a transmission is
reported once, from the first box.
-/

namespace RtKernel.CanSend

open Function List

/-- The box that a write uses, from where it has it to where it has the result. -/
def Phase.uses {β : Type*} : Phase β → Option Nat
  | .mark c | .send _ c | .undo c | .collect c | .read c => some c.no
  | .wait .collect c | .wait .read c => some c.no
  | .suspended .collect c | .suspended .read c => some c.no
  | .woken .collect c | .woken .read c => some c.no
  | _ => none

/-- The transmission that a write waits for. -/
def Phase.awaits {β : Type*} : Phase β → Option Nat
  | .wait .collect c | .wait .read c => some c.tx
  | .suspended .collect c | .suspended .read c => some c.tx
  | _ => none

/-- Nobody waits for the box, and nothing is left of an earlier message. -/
structure Box.Quiet {τ : Type*} (box : Box τ) : Prop where
  flag : box.flag = false
  suspended : box.suspended = none

namespace Can

variable {τ β : Type*} {s t : Can τ β}

/-- Nothing has been reported for a transmission. -/
def Going (s : Can τ β) (tx : Nat) : Prop := ∀ result, (tx, result) ∉ s.events

structure ResultsKept [Fintype τ] (s : Can τ β) : Prop where
  /-- The result that a write counts was reported for its own message. -/
  counted : ∀ m ∈ s.counted, m ∈ s.events
  /-- Who waits on a box waits while a transmission of the box is under way. -/
  waits : ∀ t after c, s.phase t = .suspended after c →
    ∃ tx, tx < s.sent ∧ s.boxOf tx = c.no ∧ Going s tx
  /-- In normal mode, unless it is being changed, a box that no write has is in the list, and the
  list has a token for each of its boxes, but for those that a write is to release. -/
  usable : s.privmode = false → (∀ t, (s.phase t).role.switching = false) →
    Placed s.sndboxnumber s.freelist (fun t => (s.phase t).role.box) ∧
      s.freelist.length = s.sem + count fun t => (s.phase t).role.owed = true

/-- Nobody uses a box. -/
def Unused (s : Can τ β) (no : Nat) : Prop := ∀ t, (s.phase t).uses ≠ some no

/-- A transmission is reported once, and it is one of the first box; a write takes a box that no
other write uses, and a write in private mode looks at such a box when its result is
`RT_CAN_SND_RESULT_OK`. -/
def Orderly (s : Can τ β) : Act τ β → Prop
  | .event tx _ => Going s tx ∧ s.boxOf tx = 0
  | .next t =>
    match s.phase t with
    | .pop _ => ∀ no ∈ s.freelist.head?, Unused s no
    | .test c => ∀ m ∈ c.data.head?, m.priv < s.sndboxnumber →
        (s.buffer m.priv).result = .ok ∧ Unused s m.priv
    | _ => True
  | .write _ _ | .setPriv _ _ _ | .sendmsg _ _ => True

/-- A message that was accepted by the driver. -/
structure Accepted (s : Can τ β) (c : Call β) : Prop where
  tx : c.tx < s.sent
  box : s.boxOf c.tx = c.no

/-- What a write knows of its box. -/
def Knows (s : Can τ β) (t : τ) : Phase β → Prop
  | .mark c | .send _ c | .undo c => (s.buffer c.no).Quiet
  | .wait after c => after ≠ .test ∧ Accepted s c ∧ (s.buffer c.no).suspended = none ∧
      (Going s c.tx ∧ (s.buffer c.no).flag = false ∨
        (c.tx, (s.buffer c.no).result) ∈ s.events ∧ (s.buffer c.no).flag = true)
  | .suspended after c => after ≠ .test ∧ Accepted s c ∧ (s.buffer c.no).suspended = some t ∧
      Going s c.tx ∧ (s.buffer c.no).flag = false
  | .woken after c => after ≠ .test ∧ (s.buffer c.no).suspended = none ∧
      (c.tx, (s.buffer c.no).result) ∈ s.events
  | .collect c | .read c => (s.buffer c.no).Quiet ∧ (c.tx, (s.buffer c.no).result) ∈ s.events
  | .release c result => (c.tx, result) ∈ s.events
  | _ => True

structure Owned (s : Can τ β) : Prop where
  quiet : ∀ no, Unused s no → (s.buffer no).Quiet
  one : ∀ t u no, (s.phase t).uses = some no → (s.phase u).uses = some no → t = u
  knows : ∀ t, Knows s t (s.phase t)
  /-- Somebody waits for each message that is under way. -/
  awaited : ∀ tx, tx < s.sent → Going s tx → ∃ t, (s.phase t).awaits = some tx
  events : ∀ m ∈ s.events, m.1 < s.sent
  counted : ∀ m ∈ s.counted, m ∈ s.events

theorem Owned.kept [Fintype τ] (h : Owned s) (hsound : Sound s) : ResultsKept s := by
  refine ⟨h.counted, fun t after c hphase => ?_, fun hmode hnobody => ?_⟩
  · have hknows := h.knows t
    rw [hphase] at hknows
    obtain ⟨-, haccepted, -, hgoing, -⟩ := hknows
    exact ⟨c.tx, haccepted.tx, haccepted.box, hgoing⟩
  · have hresting := hsound.resting hnobody
    rw [Resting, hmode] at hresting
    exact hresting

theorem Initial.owned (h : Initial s) : Owned s := by
  obtain ⟨hsent, hevents, hcounted⟩ := h.ghost
  refine ⟨fun no _ => ?_, fun t u no ht => ?_, fun t => ?_, fun tx htx => ?_, ?_, ?_⟩
  · rw [h.buffer]
    exact ⟨rfl, rfl⟩
  · rw [h.phase] at ht
    cases ht
  · rw [h.phase]
    trivial
  · rw [hsent] at htx
    exact absurd htx (Nat.not_lt_zero tx)
  · rw [hevents]
    exact fun m hm => absurd hm not_mem_nil
  · rw [hcounted]
    exact fun m hm => absurd hm not_mem_nil

/-- A write that is not about this box knows what it knew. -/
theorem Knows.congr {v : τ} {phase : Phase β} (h : Knows s v phase)
    (hbuffer : ∀ no, phase.uses = some no → t.buffer no = s.buffer no)
    (hmono : ∀ m ∈ s.events, m ∈ t.events)
    (hgoing : ∀ tx, phase.awaits = some tx → Going s tx → Going t tx)
    (hsent : s.sent ≤ t.sent) (hboxOf : ∀ tx, tx < s.sent → t.boxOf tx = s.boxOf tx) :
    Knows t v phase := by
  have haccepted : ∀ c : Call β, Accepted s c → Accepted t c := fun c hc =>
    ⟨Nat.lt_of_lt_of_le hc.tx hsent, (hboxOf c.tx hc.tx).trans hc.box⟩
  cases phase with
  | mark c | send priv c | undo c =>
    simp only [Knows] at h ⊢
    rw [hbuffer c.no rfl]
    exact h
  | wait after c =>
    obtain ⟨hafter, hc, hsuspended, hstate⟩ := h
    have huses : (Phase.wait after c).uses = some c.no ∧ (Phase.wait after c).awaits = some c.tx := by
      cases after with
      | test => exact absurd rfl hafter
      | collect | read => exact ⟨rfl, rfl⟩
    simp only [Knows]
    rw [hbuffer c.no huses.1]
    exact ⟨hafter, haccepted c hc, hsuspended, hstate.imp
      (fun hg => ⟨hgoing c.tx huses.2 hg.1, hg.2⟩) fun he => ⟨hmono _ he.1, he.2⟩⟩
  | suspended after c =>
    obtain ⟨hafter, hc, hsuspended, hg, hflag⟩ := h
    have huses : (Phase.suspended after c).uses = some c.no ∧
        (Phase.suspended after c).awaits = some c.tx := by
      cases after with
      | test => exact absurd rfl hafter
      | collect | read => exact ⟨rfl, rfl⟩
    simp only [Knows]
    rw [hbuffer c.no huses.1]
    exact ⟨hafter, haccepted c hc, hsuspended, hgoing c.tx huses.2 hg, hflag⟩
  | woken after c =>
    obtain ⟨hafter, hsuspended, he⟩ := h
    have huses : (Phase.woken after c).uses = some c.no := by
      cases after with
      | test => exact absurd rfl hafter
      | collect | read => rfl
    simp only [Knows]
    rw [hbuffer c.no huses]
    exact ⟨hafter, hsuspended, hmono _ he⟩
  | collect c | read c =>
    simp only [Knows] at h ⊢
    rw [hbuffer c.no rfl]
    exact ⟨h.1, hmono _ h.2⟩
  | release c result => exact hmono _ h
  | _ => trivial

variable [DecidableEq τ] {u : τ} {phase : Phase β}

section

variable (h : Owned s) {after : After} {c : Call β}
include h

section

variable (hphase : t.phase = update s.phase u phase) {no : Nat} {box : Box τ}
include hphase

/-- A step of one thread, which changes no box that another write uses. -/
theorem Owned.thread
    (hbuffer : ∀ no, t.buffer no = s.buffer no ∨ ∀ v, v ≠ u → (s.phase v).uses ≠ some no)
    (huses : ∀ no, phase.uses = some no → ∀ v, v ≠ u → (s.phase v).uses ≠ some no)
    (hquiet : ∀ no, phase.uses ≠ some no →
      t.buffer no = s.buffer no ∧ (s.phase u).uses ≠ some no ∨ (t.buffer no).Quiet)
    (hevents : t.events = s.events) (hsent : s.sent ≤ t.sent)
    (hboxOf : ∀ tx, tx < s.sent → t.boxOf tx = s.boxOf tx)
    (hawaits : ∀ tx, tx < t.sent → Going s tx → phase.awaits = some tx ∨
      tx < s.sent ∧ (s.phase u).awaits ≠ some tx)
    (hcounted : ∀ m ∈ t.counted, m ∈ s.events) (hknows : Knows t u phase) : Owned t := by
  have hself : t.phase u = phase := by rw [hphase, update_self]
  have hother : ∀ v, v ≠ u → t.phase v = s.phase v := by
    intro v hv
    rw [hphase, update_of_ne hv]
  have hgoing : ∀ tx, Going t tx ↔ Going s tx := fun tx => by unfold Going; rw [hevents]
  refine ⟨fun no hno => ?_, fun v w no hv hw => ?_, fun v => ?_, fun tx htx hg => ?_, fun m hm => ?_,
    fun m hm => ?_⟩
  · rcases hquiet no (hself ▸ hno u) with ⟨heq, hu⟩ | hquiet
    · rw [heq]
      refine h.quiet no fun v hv => ?_
      by_cases hvu : v = u
      · exact hu (hvu ▸ hv)
      · exact hno v (hother v hvu ▸ hv)
    · exact hquiet
  · by_cases hvu : v = u <;> by_cases hwu : w = u
    · rw [hvu, hwu]
    · rw [hvu, hself] at hv
      rw [hother w hwu] at hw
      exact absurd hw (huses no hv w hwu)
    · rw [hwu, hself] at hw
      rw [hother v hvu] at hv
      exact absurd hv (huses no hw v hvu)
    · rw [hother v hvu] at hv
      rw [hother w hwu] at hw
      exact h.one v w no hv hw
  · by_cases hvu : v = u
    · rw [hvu, hself]
      exact hknows
    · rw [hother v hvu]
      refine (h.knows v).congr (fun no hno => ?_) (fun m hm => hevents ▸ hm)
        (fun tx _ hg => (hgoing tx).mpr hg) hsent hboxOf
      exact (hbuffer no).resolve_right fun hfree => hfree v hvu hno
  · rcases hawaits tx htx ((hgoing tx).mp hg) with hu | ⟨hlt, hu⟩
    · exact ⟨u, by rw [hself, hu]⟩
    · obtain ⟨v, hv⟩ := h.awaited tx hlt ((hgoing tx).mp hg)
      have hvu : v ≠ u := by
        rintro rfl
        exact hu hv
      exact ⟨v, by rw [hother v hvu, hv]⟩
  · rw [hevents] at hm
    exact Nat.lt_of_lt_of_le (h.events m hm) hsent
  · rw [hevents]
    exact hcounted m hm

/-- A step of a thread that neither had a box nor has one. -/
theorem Owned.without
    (hbuffer : t.buffer = s.buffer) (huses : phase.uses = none) (hold : (s.phase u).uses = none)
    (hevents : t.events = s.events) (hsent : t.sent = s.sent) (hboxOf : t.boxOf = s.boxOf)
    (hcounted : ∀ m ∈ t.counted, m ∈ s.events) (hknows : Knows t u phase) : Owned t := by
  have hawaits : ∀ phase : Phase β, phase.uses = none → phase.awaits = none := by
    intro phase hnone
    cases phase with
    | wait after c | suspended after c =>
      cases after with
      | test => rfl
      | collect | read => cases hnone
    | _ => rfl
  refine h.thread hphase (fun no => .inl (congrFun hbuffer no)) (fun no hno => ?_) (fun no _ => .inl ?_)
    hevents (Nat.le_of_eq hsent.symm) (fun tx _ => congrFun hboxOf tx) (fun tx htx _ => .inr ?_)
    hcounted hknows
  · rw [huses] at hno
    cases hno
  · rw [hold]
    exact ⟨congrFun hbuffer no, nofun⟩
  · rw [hawaits _ hold]
    exact ⟨hsent ▸ htx, fun htx => by cases htx⟩

theorem Owned.withBox (hold : (s.phase u).uses = some no)
    (hbuffer : t.buffer = update s.buffer no box)
    (huses : phase.uses = some no ∨ phase.uses = none ∧ box.Quiet)
    (hevents : t.events = s.events) (hsent : s.sent ≤ t.sent)
    (hboxOf : ∀ tx, tx < s.sent → t.boxOf tx = s.boxOf tx)
    (hawaits : ∀ tx, tx < t.sent → Going s tx → phase.awaits = some tx ∨
      tx < s.sent ∧ (s.phase u).awaits ≠ some tx)
    (hcounted : ∀ m ∈ t.counted, m ∈ s.events) (hknows : Knows t u phase) : Owned t := by
  have halone : ∀ v, v ≠ u → (s.phase v).uses ≠ some no := fun v hv hno => hv (h.one v u no hno hold)
  refine h.thread hphase (fun k => ?_) (fun k hk => ?_) (fun k hk => ?_) hevents hsent hboxOf hawaits
    hcounted hknows
  · by_cases hkno : k = no
    · rw [hkno]
      exact .inr halone
    · rw [hbuffer]
      exact .inl (update_of_ne hkno _ _)
  · rcases huses with heq | ⟨hnone, -⟩
    · rw [heq] at hk
      cases hk
      exact halone
    · rw [hnone] at hk
      cases hk
  · by_cases hkno : k = no
    · rw [hkno] at hk ⊢
      rw [hbuffer, update_self]
      exact .inr (huses.resolve_left hk).2
    · left
      rw [hbuffer, update_of_ne hkno, hold]
      exact ⟨rfl, fun heq => hkno (Option.some.inj heq).symm⟩

theorem Owned.takes (hold : (s.phase u).uses = none)
    (hunused : Unused s no) (hbuffer : t.buffer = update s.buffer no box)
    (huses : phase.uses = some no) (hevents : t.events = s.events) (hsent : t.sent = s.sent)
    (hboxOf : t.boxOf = s.boxOf) (hawaits : (s.phase u).awaits = none)
    (hcounted : t.counted = s.counted) (hknows : Knows t u phase) : Owned t := by
  refine h.thread hphase (fun k => ?_) (fun k hk v _ => ?_) (fun k hk => ?_) hevents
    (Nat.le_of_eq hsent.symm) (fun tx _ => congrFun hboxOf tx) (fun tx htx _ => .inr ?_) ?_ hknows
  · by_cases hkno : k = no
    · rw [hkno]
      exact .inr fun v _ => hunused v
    · rw [hbuffer]
      exact .inl (update_of_ne hkno _ _)
  · rw [huses] at hk
    cases hk
    exact hunused v
  · have hkno : k ≠ no := by
      rintro rfl
      exact hk huses
    left
    rw [hbuffer, update_of_ne hkno, hold]
    exact ⟨rfl, fun heq => by cases heq⟩
  · rw [hawaits]
    exact ⟨hsent ▸ htx, fun heq => by cases heq⟩
  · rw [hcounted]
    exact h.counted

theorem Owned.gives
    (hold : (s.phase u).uses = some no) (hbuffer : t.buffer = s.buffer) (huses : phase.uses = none)
    (hquiet : (s.buffer no).Quiet) (hevents : t.events = s.events) (hsent : t.sent = s.sent)
    (hboxOf : t.boxOf = s.boxOf) (hawaits : (s.phase u).awaits = none)
    (hcounted : ∀ m ∈ t.counted, m ∈ s.events) (hknows : Knows t u phase) : Owned t := by
  refine h.withBox hphase hold (hbuffer.trans (update_eq_self no s.buffer).symm)
    (.inr ⟨huses, hquiet⟩) hevents (Nat.le_of_eq hsent.symm) (fun tx _ => congrFun hboxOf tx)
    (fun tx htx _ => .inr ⟨hsent ▸ htx, ?_⟩) hcounted hknows
  rw [hawaits]
  exact fun heq => by cases heq

end

theorem Owned.wait (hu : s.phase u = .wait after c)
    (hwait : s.rtCompletionWait u after c (returned after c) = some t) : Owned t := by
  have hknows := h.knows u
  rw [hu] at hknows
  obtain ⟨hafter, haccepted, hsuspended, hstate⟩ := hknows
  have huses : (s.phase u).uses = some c.no := by
    rw [hu]
    cases after with
    | test => exact absurd rfl hafter
    | collect | read => rfl
  have hawaits : (s.phase u).awaits = some c.tx := by
    rw [hu]
    cases after with
    | test => exact absurd rfl hafter
    | collect | read => rfl
  unfold rtCompletionWait at hwait
  split_ifs at hwait with hflag hnobody
  · -- the result was reported before the wait
    have hevent : (c.tx, (s.buffer c.no).result) ∈ s.events := by
      rcases hstate with ⟨-, hoff⟩ | ⟨hevent, -⟩
      · rw [hoff] at hflag
        cases hflag
      · exact hevent
    have hquiet : Box.Quiet { s.buffer c.no with flag := false } := ⟨rfl, hsuspended⟩
    cases hwait
    cases after with
    | test => exact absurd rfl hafter
    | collect | read =>
      refine h.withBox rfl huses rfl (.inl rfl) rfl (Nat.le_refl _) (fun _ _ => rfl)
        (fun tx htx hg => .inr ⟨htx, fun heq => ?_⟩) h.counted ?_
      · rw [hawaits] at heq
        exact hg _ (Option.some.inj heq ▸ hevent)
      · simp only [Knows, returned, setPhase, setBox, update_self]
        exact ⟨hquiet, hevent⟩
  · -- it was not
    cases hwait
    rw [Bool.not_eq_true] at hflag
    have hg : Going s c.tx := by
      rcases hstate with hg | ⟨-, hon⟩
      · exact hg.1
      · rw [hflag] at hon
        cases hon
    have hphase : (Phase.suspended after c).uses = some c.no ∧
        (Phase.suspended after c).awaits = some c.tx := by
      cases after with
      | test => exact absurd rfl hafter
      | collect | read => exact ⟨rfl, rfl⟩
    refine h.withBox rfl huses rfl (.inl hphase.1) rfl (Nat.le_refl _) (fun _ _ => rfl)
      (fun tx htx _ => ?_) h.counted ?_
    · rw [hphase.2, hawaits]
      by_cases heq : some c.tx = some tx
      · exact .inl heq
      · exact .inr ⟨htx, heq⟩
    · simp only [Knows, setPhase, setBox, update_self]
      exact ⟨hafter, ⟨haccepted.tx, haccepted.box⟩, trivial, hg, hflag⟩

/-- A write that was resumed takes the result of its own message. -/
theorem Owned.woken (hu : s.phase u = .woken after c) :
    Owned ((s.setBox c.no { s.buffer c.no with flag := false }).setPhase u (returned after c)) := by
  have hknows := h.knows u
  rw [hu] at hknows
  obtain ⟨hafter, hsuspended, hevent⟩ := hknows
  have hquiet : Box.Quiet { s.buffer c.no with flag := false } := ⟨rfl, hsuspended⟩
  cases after with
  | test => exact absurd rfl hafter
  | collect | read =>
    refine h.withBox rfl (by rw [hu]; rfl) rfl (.inl rfl) rfl (Nat.le_refl _) (fun _ _ => rfl)
      (fun tx htx _ => .inr ⟨htx, by rw [hu]; exact fun heq => by cases heq⟩) h.counted ?_
    simp only [Knows, returned, setPhase, setBox, update_self]
    exact ⟨hquiet, hevent⟩

end

section

omit [DecidableEq τ]

theorem Owned.counted_append {m : Nat × Result} (h : Owned s) (hm : m ∈ s.events) :
    ∀ m' ∈ s.counted ++ [m], m' ∈ s.events := by
  intro m' hm'
  rcases mem_append.mp hm' with hm' | hm'
  · exact h.counted m' hm'
  · obtain rfl := mem_singleton.mp hm'
    exact hm

/-- Where a write is when it has counted a result. -/
theorem count_phase (s : Can τ β) (u : τ) (priv : Bool) (c : Call β) (result : Result) :
    (if result = .ok then loop priv c else .idle).uses = none ∧
      Knows s u (if result = .ok then loop priv c else .idle) := by
  have hloop : (loop priv c).uses = none ∧ Knows s u (loop priv c) := by
    unfold loop
    by_cases hnil : c.data.isEmpty
    · rw [if_pos hnil]
      exact ⟨rfl, trivial⟩
    · rw [if_neg hnil]
      cases priv <;> exact ⟨rfl, trivial⟩
  by_cases hok : result = .ok
  · rw [if_pos hok]
    exact hloop
  · rw [if_neg hok]
    exact ⟨rfl, trivial⟩

/-- A token that is released leaves boxes and messages alone. -/
theorem rtSemRelease_eq (s : Can τ β) : ∃ sem, s.rtSemRelease = { s with sem := sem } := by
  unfold rtSemRelease
  split_ifs
  · exact ⟨_, rfl⟩
  · exact ⟨s.sem, rfl⟩

end

section

variable (h : Owned s) {c : Call β} {tx : Nat}
include h

/-- A write takes a box from `freelist`. -/
theorem Owned.pop (hu : s.phase u = .pop c) (horderly : Orderly s (.next u))
    (hnext : s.next u = some t) : Owned t := by
  unfold Can.next at hnext
  simp only [Orderly, hu] at horderly
  rw [hu] at hnext
  cases hfree : s.freelist with
  | nil =>
    rw [hfree] at hnext
    cases hnext
  | cons no rest =>
    rw [hfree] at hnext horderly
    cases hnext
    have hunused := horderly no rfl
    exact h.takes rfl (by rw [hu]; rfl) hunused (update_eq_self no s.buffer).symm rfl
      rfl rfl rfl (by rw [hu]; rfl) rfl (h.quiet no hunused)

/-- A private write looks at the box of its message. -/
theorem Owned.test (hu : s.phase u = .test c) (horderly : Orderly s (.next u))
    (hnext : s.next u = some t) : Owned t := by
  unfold Can.next at hnext
  simp only [Orderly, hu] at horderly
  rw [hu] at hnext
  dsimp only at hnext
  cases hdata : c.data with
  | nil =>
    rw [hdata] at hnext
    cases hnext
  | cons m rest =>
    rw [hdata] at hnext horderly
    dsimp only at hnext
    split_ifs at hnext with hmax hok
    · cases hnext
      exact h.without rfl rfl rfl (by rw [hu]; rfl) rfl rfl rfl h.counted trivial
    · cases hnext
      obtain ⟨-, hunused⟩ := horderly m rfl (Nat.lt_of_not_le hmax)
      have hquiet := h.quiet m.priv hunused
      refine h.takes rfl (by rw [hu]; rfl) hunused rfl rfl rfl rfl rfl (by rw [hu]; rfl) rfl ?_
      simp only [Knows, setPhase, setResult, setBox, update_self]
      exact ⟨hquiet.flag, hquiet.suspended⟩
    · exact absurd (horderly m rfl (Nat.lt_of_not_le hmax)).1 hok

theorem Owned.next (horderly : Orderly s (.next u)) (hnext : s.next u = some t) : Owned t := by
  have hknows := h.knows u
  unfold Can.next at hnext
  cases hu : s.phase u with
  | idle | send priv c | suspended after c =>
    rw [hu] at hnext
    cases hnext
  | take c =>
    rw [hu] at hnext
    obtain ⟨-, hnext⟩ := Option.ite_none_right_eq_some.mp hnext
    cases hnext
    exact h.without rfl rfl rfl (by rw [hu]; rfl) rfl rfl rfl h.counted trivial
  | pop c => exact h.pop hu horderly hnext
  | mark c =>
    rw [hu] at hnext hknows
    cases hnext
    refine h.withBox rfl (by rw [hu]; rfl) rfl (.inl rfl) rfl (Nat.le_refl _) (fun _ _ => rfl)
      (fun tx htx _ => .inr ⟨htx, by rw [hu]; exact fun heq => by cases heq⟩) h.counted ?_
    simp only [Knows, setPhase, setResult, setBox, update_self]
    exact ⟨hknows.flag, hknows.suspended⟩
  | undo c =>
    rw [hu] at hnext hknows
    dsimp only [insertAfter] at hnext
    split_ifs at hnext
    · cases hnext
    · cases hnext
      exact h.gives rfl (by rw [hu]; rfl) rfl rfl hknows rfl rfl rfl (by rw [hu]; rfl) h.counted trivial
  | retry c =>
    rw [hu] at hnext
    obtain ⟨sem, hsem⟩ := rtSemRelease_eq s
    rw [hsem] at hnext
    cases hnext
    exact h.without rfl rfl rfl (by rw [hu]; rfl) rfl rfl rfl h.counted trivial
  | wait after c =>
    rw [hu] at hnext
    exact h.wait hu hnext
  | woken after c =>
    rw [hu] at hnext
    cases hnext
    exact h.woken hu
  | collect c =>
    rw [hu] at hnext hknows
    dsimp only [insertBefore] at hnext
    split_ifs at hnext
    · cases hnext
    · cases hnext
      exact h.gives rfl (by rw [hu]; rfl) rfl rfl hknows.1 rfl rfl rfl (by rw [hu]; rfl) h.counted
        hknows.2
  | release c result =>
    rw [hu] at hnext hknows
    obtain ⟨sem, hsem⟩ := rtSemRelease_eq s
    rw [hsem] at hnext
    cases hnext
    obtain ⟨huses, hknows'⟩ := count_phase
      (countResult { s with sem := sem } u false c result) u false { c with data := c.data.tail } result
    exact h.without rfl rfl huses (by rw [hu]; rfl) rfl rfl rfl (h.counted_append hknows) hknows'
  | read c =>
    rw [hu] at hnext hknows
    cases hnext
    obtain ⟨huses, hknows'⟩ := count_phase
      (s.countResult u true c (s.buffer c.no).result) u true { c with data := c.data.tail }
      (s.buffer c.no).result
    exact h.gives rfl (by rw [hu]; rfl) rfl huses hknows.1 rfl rfl rfl (by rw [hu]; rfl)
      (h.counted_append hknows.2) hknows'
  | test c => exact h.test hu horderly hnext
  | switch =>
    rw [hu] at hnext
    cases hnext
    have hphase : ∀ phase : Phase β, phase = .toPriv 0 ∨ phase = .toNopriv 0 →
        Owned (s.setPhase u phase) := by
      rintro phase (rfl | rfl) <;>
      exact h.without rfl rfl rfl (by rw [hu]; rfl) rfl rfl rfl h.counted trivial
    refine hphase _ ?_
    cases s.privmode
    · exact .inr rfl
    · exact .inl rfl
  | toPriv i =>
    rw [hu] at hnext
    obtain ⟨sem, hsem⟩ := rtSemRelease_eq s
    dsimp only at hnext
    rw [hsem] at hnext
    split_ifs at hnext
    all_goals
      cases hnext
      exact h.without rfl rfl rfl (by rw [hu]; rfl) rfl rfl rfl h.counted trivial
  | toNopriv i =>
    rw [hu] at hnext
    dsimp only [insertBefore] at hnext
    split_ifs at hnext
    all_goals cases hnext
    all_goals exact h.without rfl rfl rfl (by rw [hu]; rfl) rfl rfl rfl h.counted trivial

theorem Owned.sendmsg {accepted : Bool} (hsend : s.sendmsg u accepted = some t) : Owned t := by
  have hknows := h.knows u
  unfold Can.sendmsg at hsend
  cases hu : s.phase u with
  | send priv c =>
    rw [hu] at hsend hknows
    have huses : (s.phase u).uses = some c.no ∧ (s.phase u).awaits = none := by
      rw [hu]
      exact ⟨rfl, rfl⟩
    cases accepted with
    | true =>
      cases hsend
      -- nothing can have been reported for a message that is new
      have hnew : Going s s.sent := fun result hevent => absurd (h.events _ hevent) (Nat.lt_irrefl _)
      have hafter : ∀ after : After, after ≠ .test → Owned (setPhase
          { s with sent := s.sent + 1, boxOf := update s.boxOf s.sent c.no } u
          (.wait after { c with tx := s.sent })) := by
        intro after hafter
        have hphase : (Phase.wait after { c with tx := s.sent }).uses = some c.no ∧
            (Phase.wait after { c with tx := s.sent }).awaits = some s.sent := by
          cases after with
          | test => exact absurd rfl hafter
          | collect | read => exact ⟨rfl, rfl⟩
        refine h.withBox rfl huses.1 (update_eq_self c.no s.buffer).symm (.inl hphase.1) rfl
          (Nat.le_succ _) (fun tx htx => update_of_ne (Nat.ne_of_lt htx) _ _)
          (fun tx htx _ => ?_) h.counted ?_
        · rw [hphase.2, huses.2]
          rcases Nat.lt_succ_iff_lt_or_eq.mp htx with hlt | rfl
          · exact .inr ⟨hlt, fun heq => by cases heq⟩
          · exact .inl rfl
        · exact ⟨hafter, ⟨Nat.lt_succ_self _, update_self _ _ _⟩, hknows.suspended,
            .inl ⟨hnew, hknows.flag⟩⟩
      cases priv with
      | true => exact hafter .read (by decide)
      | false => exact hafter .collect (by decide)
    | false =>
      cases hsend
      cases priv with
      | true => exact h.gives rfl huses.1 rfl rfl hknows rfl rfl rfl huses.2 h.counted trivial
      | false =>
        exact h.withBox rfl huses.1 (update_eq_self c.no s.buffer).symm (.inl rfl) rfl
          (Nat.le_refl _) (fun _ _ => rfl)
          (fun tx htx _ => .inr ⟨htx, by rw [huses.2]; exact fun heq => by cases heq⟩) h.counted hknows
  | _ =>
    rw [hu] at hsend
    cases hsend

theorem Owned.setPriv {privmode configured : Bool} (hidle : s.phase u = .idle) :
    Owned (s.setPriv u privmode configured) := by
  unfold Can.setPriv
  split_ifs
  · exact h
  all_goals exact h.without rfl rfl rfl (by rw [hidle]; rfl) rfl rfl rfl h.counted trivial

omit [DecidableEq τ] in
/-- Who is in the list of the completion is suspended. -/
theorem Owned.suspended_cases (hu : (s.phase u).awaits = some tx) :
    ∃ after c, after ≠ .test ∧ c.tx = tx ∧ Accepted s c ∧ (s.phase u).uses = some c.no ∧
      (s.phase u = .wait after c ∧ (s.buffer c.no).suspended = none ∨
        s.phase u = .suspended after c ∧ (s.buffer c.no).suspended = some u) := by
  have hknows := h.knows u
  cases hphase : s.phase u with
  | wait after c =>
    rw [hphase] at hu hknows
    obtain ⟨hafter, haccepted, hsuspended, -⟩ := hknows
    cases after with
    | test => exact absurd rfl hafter
    | collect | read =>
      exact ⟨_, c, hafter, Option.some.inj hu, haccepted, rfl, .inl ⟨rfl, hsuspended⟩⟩
  | suspended after c =>
    rw [hphase] at hu hknows
    obtain ⟨hafter, haccepted, hsuspended, -⟩ := hknows
    cases after with
    | test => exact absurd rfl hafter
    | collect | read =>
      exact ⟨_, c, hafter, Option.some.inj hu, haccepted, rfl, .inr ⟨rfl, hsuspended⟩⟩
  | _ =>
    rw [hphase] at hu
    cases hu

/-- The first report on a message reaches the write that waits for it. -/
theorem Owned.reported (phase : Phase β) (result : Result) (box : Box τ)
    (htx : tx < s.sent) (hold : (s.phase u).uses = some (s.boxOf tx)) (hawaits : (s.phase u).awaits = some tx)
    (hphase : t.phase = update s.phase u phase) (huses : phase.uses = some (s.boxOf tx))
    (hbuffer : t.buffer = update s.buffer (s.boxOf tx) box)
    (hevents : t.events = s.events ++ [(tx, result)]) (hsent : t.sent = s.sent)
    (hboxOf : t.boxOf = s.boxOf) (hcounted : t.counted = s.counted) (hknows : Knows t u phase) :
    Owned t := by
  have hself : t.phase u = phase := by rw [hphase, update_self]
  have hother : ∀ v, v ≠ u → t.phase v = s.phase v := by
    intro v hv
    rw [hphase, update_of_ne hv]
  have hsame : ∀ v, (t.phase v).uses = (s.phase v).uses := by
    intro v
    by_cases hv : v = u
    · rw [hv, hself, huses, hold]
    · rw [hother v hv]
  have halone : ∀ v, v ≠ u → (s.phase v).uses ≠ some (s.boxOf tx) :=
    fun v hv huses => hv (h.one v u _ huses hold)
  have hold_of_going : ∀ tx', Going t tx' → Going s tx' := by
    intro tx' hg result' hin
    exact hg result' (hevents ▸ mem_append_left _ hin)
  refine ⟨fun no hno => ?_, fun v w no hv hw => ?_, fun v => ?_, fun tx' htx' hg => ?_, fun m hm => ?_,
    fun m hm => ?_⟩
  · have hne : no ≠ s.boxOf tx := by
      rintro rfl
      exact hno u (hsame u ▸ hold)
    rw [hbuffer, update_of_ne hne]
    exact h.quiet no fun v hv => hno v (hsame v ▸ hv)
  · rw [hsame] at hv hw
    exact h.one v w no hv hw
  · by_cases hv : v = u
    · rw [hv, hself]
      exact hknows
    · rw [hother v hv]
      refine (h.knows v).congr (fun no hno => ?_) (fun m hm => hevents ▸ mem_append_left _ hm)
        (fun tx' hv' hg result' hin => ?_) (Nat.le_of_eq hsent.symm) fun tx' _ => congrFun hboxOf tx'
      · rw [hbuffer, update_of_ne]
        rintro rfl
        exact halone v hv hno
      · rw [hevents] at hin
        rcases mem_append.mp hin with hin | hin
        · exact hg result' hin
        · -- another write would wait for the same message at the same box
          obtain ⟨after, c, -, hctx, haccepted, hcuses, -⟩ := h.suspended_cases hv'
          have heq : tx' = tx := congrArg Prod.fst (mem_singleton.mp hin)
          rw [← haccepted.box, hctx, heq] at hcuses
          exact halone v hv hcuses
  · obtain ⟨v, hv⟩ := h.awaited tx' (hsent ▸ htx') (hold_of_going tx' hg)
    have hvu : v ≠ u := by
      rintro rfl
      rw [hawaits] at hv
      cases hv
      exact hg result (hevents ▸ mem_append_right _ (mem_singleton_self _))
    exact ⟨v, by rw [hother v hvu, hv]⟩
  · rw [hsent]
    rw [hevents] at hm
    rcases mem_append.mp hm with hm | hm
    · exact h.events m hm
    · obtain rfl := mem_singleton.mp hm
      exact htx
  · rw [hcounted] at hm
    rw [hevents]
    exact mem_append_left _ (h.counted m hm)

theorem Owned.event (htx : tx < s.sent) (hg : Going s tx)
    (hzero : s.boxOf tx = 0) (done : Bool) : Owned (s.canIsr tx done) := by
  have hisr : s.canIsr tx done = s.rtHwCanIsr (s.boxOf tx) tx done := by rw [hzero, canIsr]
  rw [hisr]
  obtain ⟨u, hu⟩ := h.awaited tx htx hg
  obtain ⟨after, c, hafter, rfl, haccepted, huses, hstate⟩ := h.suspended_cases hu
  have hknows := h.knows u
  have hbox := haccepted.box
  have hwoken : (Phase.woken after c).uses = some (s.boxOf c.tx) := by
    rw [hbox]
    cases after with
    | test => exact absurd rfl hafter
    | collect | read => rfl
  unfold rtHwCanIsr rtCompletionDone
  generalize (if done then Result.ok else .err) = result
  have hbuffer : (s.report (s.boxOf c.tx) c.tx result).buffer (s.boxOf c.tx) =
      { s.buffer c.no with result := result } := by
    simp only [report, setResult, setBox, hbox, update_self]
  have hevent : (c.tx, result) ∈ s.events ++ [(c.tx, result)] :=
    mem_append_right _ (mem_singleton_self _)
  rw [hbuffer]
  rcases hstate with ⟨hphase, hsuspended⟩ | ⟨hphase, hsuspended⟩
  · -- the write finds the result when it comes to wait
    rw [hphase] at hknows
    have hflag : (s.buffer c.no).flag = false := by
      rcases hknows.2.2.2 with hgoing | ⟨hevent, -⟩
      · exact hgoing.2
      · exact absurd hevent (hg _)
    dsimp only
    rw [hflag, hsuspended]
    refine h.reported (.wait after c) result { result := result, flag := true, suspended := none } htx
      (hbox ▸ huses) hu ?_ ?_ ?_ rfl rfl rfl rfl ?_
    · rw [← hphase, update_eq_self]
      rfl
    · rw [hbox, ← hphase]
      exact huses
    · show update (update s.buffer (s.boxOf c.tx) _) (s.boxOf c.tx) _ = _
      rw [update_idem]
    · refine ⟨hafter, ⟨htx, hbox⟩, ?_, .inr ?_⟩
      · simp [setBox, hbox]
      · simp [setBox, hbox, report]
  · -- the write is resumed
    rw [hphase] at hknows
    have hflag : (s.buffer c.no).flag = false := hknows.2.2.2.2
    have hphase' : (s.report (s.boxOf c.tx) c.tx result).phase u = .suspended after c := hphase
    rw [hflag, hsuspended]
    dsimp only
    rw [hphase']
    refine h.reported (.woken after c) result { result := result, flag := true, suspended := none } htx
      (hbox ▸ huses) hu rfl hwoken ?_ rfl rfl rfl rfl ?_
    · show update (update s.buffer (s.boxOf c.tx) _) (s.boxOf c.tx) _ = _
      rw [update_idem]
    · refine ⟨hafter, ?_, ?_⟩
      · simp [setBox, setPhase, hbox]
      · simp [setBox, setPhase, hbox, report]

theorem Owned.exec {a : Act τ β} (horderly : Orderly s a) (hexec : s.exec a = some t) :
    Owned t := by
  cases a with
  | write u data =>
    obtain ⟨hidle, -, rfl⟩ := exec_write hexec
    obtain ⟨huses, hknows⟩ := count_phase
      (s.setPhase u (loop s.privmode { data := data, no := 0, tx := 0 })) u s.privmode
      { data := data, no := 0, tx := 0 } .ok
    exact h.without rfl rfl huses (by rw [hidle]; rfl) rfl rfl rfl h.counted hknows
  | setPriv u privmode configured =>
    obtain ⟨hidle, rfl⟩ := exec_setPriv hexec
    exact h.setPriv hidle
  | next u => exact h.next horderly hexec
  | sendmsg u accepted => exact h.sendmsg hexec
  | event tx done =>
    obtain ⟨⟨htx, -⟩, hexec⟩ := Option.ite_none_right_eq_some.mp hexec
    cases hexec
    exact h.event htx horderly.1 horderly.2 done

end

variable [Fintype τ]

/-- Where each transmission is reported once and from its box, each box has one write at a time, and
changes of the mode keep apart, a write counts the result of its own message, it waits only while
its box has a message under way, and in normal mode the boxes and their tokens come back. -/
theorem reachable_resultsKept (s : Can τ β)
    (h : Reachable Initial (Within (fun s a t => s.exec a = some t)
      fun s a => Orderly s a ∧ Apart s a) s) : ResultsKept s := by
  have howned : Owned s :=
    h.invariant (fun s h₀ => h₀.owned) fun s a t _ ih hstep => ih.exec hstep.1.1 hstep.2
  have hsound : Sound s :=
    h.invariant (fun s h₀ => h₀.sound) fun s a t _ ih hstep => ih.exec hstep.1.2 hstep.2
  exact howned.kept hsound

instance decidableUnused (s : Can τ β) (no : Nat) : Decidable (Unused s no) :=
  inferInstanceAs (Decidable (∀ t, (s.phase t).uses ≠ some no))

instance decidableGoing (s : Can τ β) (tx : Nat) : Decidable (Going s tx) :=
  decidable_of_iff (∀ m ∈ s.events, m.1 ≠ tx) (by
    unfold Going
    constructor
    · rintro h result hin
      exact h _ hin rfl
    · rintro h ⟨tx', result⟩ hin rfl
      exact h result hin)

instance decidableOrderly (s : Can τ β) (a : Act τ β) : Decidable (Orderly s a) :=
  match a with
  | .event tx _ => inferInstanceAs (Decidable (Going s tx ∧ s.boxOf tx = 0))
  | .next t =>
    match hphase : s.phase t with
    | .pop _ =>
      decidable_of_iff (∀ no ∈ s.freelist.head?, Unused s no) (by simp [Orderly, hphase])
    | .test c =>
      decidable_of_iff (∀ m ∈ c.data.head?, m.priv < s.sndboxnumber →
        (s.buffer m.priv).result = .ok ∧ Unused s m.priv) (by simp [Orderly, hphase])
    | .idle | .take _ | .mark _ | .send _ _ | .undo _ | .retry _ | .wait _ _ | .suspended _ _
    | .woken _ _ | .collect _ | .release _ _ | .read _ | .switch | .toPriv _ | .toNopriv _ =>
      .isTrue (by simp [Orderly, hphase])
  | .write _ _ | .setPriv _ _ _ | .sendmsg _ _ => .isTrue trivial

/-- A message fails, the driver refuses the next one at first, and then it is sent. -/
def failThenSend : List (Act (Fin 2) Nat) :=
  writeUntilWait 0 7 ++ ([.event 0 false, .next 0, .next 0, .next 0,
    .write 1 [{ priv := 0, body := 8 }], .next 1, .next 1, .next 1, .sendmsg 1 false, .next 1,
    .next 1, .next 1, .next 1, .next 1, .sendmsg 1 true, .event 1 true, .next 1, .next 1, .next 1] :
      List (Act (Fin 2) Nat))

/-- Of two messages the first one fails, and its box is to be had again. -/
theorem reachable_resultsKept_fail : ∃ s : Can (Fin 2) Nat,
    s.counted = [(0, .err), (1, .ok)] ∧ s.freelist = [0] ∧ s.sem = 1 ∧ ResultsKept s := by
  obtain ⟨s, hs, heq⟩ :
      ∃ s ∈ runWithin exec (fun s a => Orderly s a ∧ Apart s a) (opened 1) failThenSend,
      s.counted = [(0, .err), (1, .ok)] ∧ s.freelist = [0] ∧ s.sem = 1 := by decide +kernel
  have hstart : Reachable Initial (Within (fun s a t => exec s a = some t)
      fun s a => Orderly s a ∧ Apart s a) (opened 1) :=
    Reachable.start (opened_initial 1 (by decide))
  exact ⟨s, heq.1, heq.2.1, heq.2.2, reachable_resultsKept s (hstart.runWithin hs)⟩

/-- A message fails; it is reported done when the next one has been given to the driver. -/
def lateDone : List (Act (Fin 2) Nat) :=
  writeUntilWait 0 7 ++ ([.event 0 false, .next 0, .next 0, .next 0] : List (Act (Fin 2) Nat)) ++
    writeUntilWait 0 8 ++
    ([.event 0 true, .next 0, .next 0, .next 0] : List (Act (Fin 2) Nat))

/-- In private mode, a message fails and another one is written. -/
def failPrivate : List (Act (Fin 2) Nat) :=
  [.setPriv 0 true true, .next 0, .next 0, .next 0, .write 0 [{ priv := 0, body := 7 }], .next 0,
    .sendmsg 0 true, .next 0, .event 0 false, .next 0, .next 0, .write 0 [{ priv := 0, body := 8 }],
    .next 0, .next 0]

/-- In private mode, the driver refuses a message. -/
def refusePrivate : List (Act (Fin 2) Nat) :=
  [.setPriv 0 true true, .next 0, .next 0, .next 0, .write 0 [{ priv := 0, body := 7 }], .next 0,
    .sendmsg 0 false, .next 0, .next 0]

/-- In private mode, a message is sent from the second box. -/
def sendSecond : List (Act (Fin 2) Nat) :=
  [.setPriv 0 true true, .next 0, .next 0, .next 0, .next 0, .write 0 [{ priv := 1, body := 7 }],
    .next 0, .sendmsg 0 true, .next 0, .event 0 true]

/-- The call and the box of the first thread, where it is suspended. -/
def suspendedOn (s : Can (Fin 2) Nat) : Option Nat :=
  match s.phase 0 with
  | .suspended _ c => some c.no
  | _ => none

theorem not_kept_of_suspendedOn {s : Can (Fin 2) Nat} {no : Nat} (h : s.suspendedOn = some no)
    (hended : ∀ tx < s.sent, ∃ result, (tx, result) ∈ s.events) : ¬ ResultsKept s := by
  intro hkept
  unfold suspendedOn at h
  split at h
  · next after c hphase =>
    obtain ⟨tx, htx, -, hg⟩ := hkept.waits 0 after c hphase
    obtain ⟨result, hevent⟩ := hended tx htx
    exact hg result hevent
  · cases h

/-- A write counts as sent a message of which nothing was reported, since an earlier one was
reported late. And in private mode a write waits for good on a box that has failed, that never had
a message, or that is not the first one. -/
theorem lateDone_not_kept :
    (∃ s : Can (Fin 2) Nat, Reachable Initial (fun s a t => s.exec a = some t) s ∧
      s.counted = [(0, .err), (1, .ok)] ∧ s.events = [(0, .err), (0, .ok)] ∧ ¬ ResultsKept s) ∧
    (∃ s : Can (Fin 2) Nat, Reachable Initial (fun s a t => s.exec a = some t) s ∧
      s.suspendedOn = some 0 ∧ s.sent = 1 ∧ s.events = [(0, .err)] ∧ ¬ ResultsKept s) ∧
    (∃ s : Can (Fin 2) Nat, Reachable Initial (fun s a t => s.exec a = some t) s ∧
      s.suspendedOn = some 0 ∧ s.sent = 0 ∧ ¬ ResultsKept s) ∧
    ∃ s : Can (Fin 2) Nat, Reachable Initial (fun s a t => s.exec a = some t) s ∧
      s.suspendedOn = some 1 ∧ s.sent = 1 ∧ s.events = [(0, .ok)] ∧ ¬ ResultsKept s := by
  obtain ⟨s, hs, hcounted, hevents⟩ :
      ∃ s ∈ runAll exec (opened 1) lateDone, s.counted = [(0, .err), (1, .ok)] ∧
      s.events = [(0, .err), (0, .ok)] := by decide +kernel
  obtain ⟨s₁, hs₁, hon₁, hsent₁, hevents₁⟩ :
      ∃ s ∈ runAll exec (opened 1) failPrivate, s.suspendedOn = some 0 ∧ s.sent = 1 ∧
      s.events = [(0, .err)] := by decide +kernel
  obtain ⟨s₂, hs₂, hon₂, hsent₂⟩ : ∃ s ∈ runAll exec (opened 1) refusePrivate, s.suspendedOn = some 0 ∧
      s.sent = 0 := by decide +kernel
  obtain ⟨s₃, hs₃, hon₃, hsent₃, hevents₃⟩ :
      ∃ s ∈ runAll exec (opened 2) sendSecond, s.suspendedOn = some 1 ∧ s.sent = 1 ∧
      s.events = [(0, .ok)] := by decide +kernel
  have hopened : ∀ n, 1 ≤ n ∧ n ≤ rtSemValueMax →
      Reachable Initial (fun s a t => exec s a = some t) (opened n) :=
    fun n hn => Reachable.start (opened_initial n hn)
  have hone := hopened 1 (by decide)
  refine ⟨⟨s, hone.runAll hs, hcounted, hevents, fun hkept => ?_⟩,
    ⟨s₁, hone.runAll hs₁, hon₁, hsent₁, hevents₁, not_kept_of_suspendedOn hon₁ ?_⟩,
    ⟨s₂, hone.runAll hs₂, hon₂, hsent₂, not_kept_of_suspendedOn hon₂ ?_⟩,
    s₃, (hopened 2 (by decide)).runAll hs₃, hon₃, hsent₃, hevents₃, not_kept_of_suspendedOn hon₃ ?_⟩
  · have hown := hkept.counted (1, .ok) (by rw [hcounted]; decide)
    rw [hevents] at hown
    exact absurd hown (by decide)
  · rw [hsent₁, hevents₁]
    intro tx htx
    obtain rfl := Nat.lt_one_iff.mp htx
    exact ⟨.err, List.mem_singleton_self _⟩
  · rw [hsent₂]
    exact fun tx htx => absurd htx (Nat.not_lt_zero tx)
  · rw [hsent₃, hevents₃]
    intro tx htx
    obtain rfl := Nat.lt_one_iff.mp htx
    exact ⟨.ok, List.mem_singleton_self _⟩

end Can

end RtKernel.CanSend
