import RtKernel.Core.Count
import RtKernel.Core.Places
import RtKernel.Drivers.CanSend

/-!
# The send boxes and the change of mode

In normal mode the semaphore counts the boxes of the list and those that are on their way
from or to it. A change of the mode takes the list to pieces or puts it together from what
the boxes look like; it is right while no write of normal mode is under way and, on the
way back, where the result of each box is `RT_CAN_SND_RESULT_OK`.
-/

namespace RtKernel.CanSend

open Function List

/-- What a thread has to do with the list. -/
structure Role where
  /-- It is in `_can_int_tx`. -/
  nopriv : Bool
  /-- The box that it has taken from the list. -/
  box : Option Nat
  /-- It has a token, and its box is in the list. -/
  owed : Bool
  /-- It changes the mode. -/
  switching : Bool
  deriving DecidableEq

namespace Role

/-- Nothing. -/
def outside : Role := { nopriv := false, box := none, owed := false, switching := false }

/-- A write with no token. -/
def begins : Role := { nopriv := true, box := none, owed := false, switching := false }

/-- A write with a token and no box. -/
def owes : Role := { nopriv := true, box := none, owed := true, switching := false }

def has (no : Nat) : Role := { nopriv := true, box := some no, owed := false, switching := false }

def switches : Role := { nopriv := false, box := none, owed := false, switching := true }

end Role

def After.role {β : Type*} (after : After) (c : Call β) : Role :=
  match after with
  | .collect => .has c.no
  | .test | .read => .outside

def Phase.role {β : Type*} : Phase β → Role
  | .idle | .send true _ | .test _ | .read _ => .outside
  | .take _ => .begins
  | .pop _ | .retry _ | .release _ _ => .owes
  | .mark c | .send false c | .undo c | .collect c => .has c.no
  | .wait after c | .suspended after c | .woken after c => after.role c
  | .switch | .toPriv _ | .toNopriv _ => .switches

variable {β : Type*}

theorem After.role_switching (after : After) (c : Call β) : (after.role c).switching = false := by
  cases after <;> rfl

theorem Phase.outside_of_not_nopriv {phase : Phase β} (h : phase.role.nopriv = false) :
    phase.role.box = none ∧ phase.role.owed = false := by
  cases phase with
  | send priv c =>
    cases priv with
    | true => exact ⟨rfl, rfl⟩
    | false => cases h
  | wait after c | suspended after c | woken after c =>
    cases after with
    | collect => cases h
    | test | read => exact ⟨rfl, rfl⟩
  | idle | test c | read c | switch | toPriv i | toNopriv i => exact ⟨rfl, rfl⟩
  | _ => cases h

namespace Can

variable {τ : Type*} {s t : Can τ β}

/-- The value of the semaphore is the number of boxes in the list, which are distinct. -/
structure Balanced (s : Can τ β) : Prop where
  sem : s.sem = s.freelist.length
  nodup : s.freelist.Nodup

structure BoxesKept (s : Can τ β) : Prop where
  /-- In normal mode, while nobody writes and nobody changes the mode. -/
  balanced : s.privmode = false → (∀ t, s.phase t = .idle) → Balanced s
  /-- Whoever has a token finds a box. -/
  found : ∀ t c, s.phase t = .pop c → s.freelist ≠ []

/-- No write of normal mode and no other change of the mode is under way while the mode is changed,
the driver can configure the controller, and on the way back no box is passed over and none is in
the list already. -/
def Apart (s : Can τ β) : Act τ β → Prop
  | .write _ _ => s.privmode = false → ∀ u, (s.phase u).role.switching = false
  | .setPriv _ privmode configured => privmode ≠ s.privmode → configured = true ∧
      ∀ u, (s.phase u).role.switching = false ∧ (s.phase u).role.nopriv = false
  | .next t => ∀ i, s.phase t = .toNopriv i → i < s.sndboxnumber →
      (s.buffer i).result = .ok ∧ i ∉ s.freelist
  | .sendmsg _ _ | .event _ _ => True

/-- What is in the list. -/
def Linked (s : Can τ β) (p : Nat → Prop) : Prop := s.freelist.Nodup ∧ ∀ k, k ∈ s.freelist ↔ p k

/-- All boxes or none; all are there where the device was opened in private mode. -/
def AllOrNone (s : Can τ β) : Prop := Linked s (· < s.sndboxnumber) ∨ s.freelist = []

/-- What is in the list while the mode is changed. -/
def Switching (s : Can τ β) : Phase β → Prop
  | .switch => s.sem = s.sndboxnumber ∧
      if s.privmode then Linked s (· < s.sndboxnumber) else AllOrNone s
  | .toPriv i => s.privmode = true ∧ s.sem = s.sndboxnumber ∧
      Linked s fun k => i ≤ k ∧ k < s.sndboxnumber
  | .toNopriv i => s.privmode = false ∧ s.sem = s.sndboxnumber ∧ i ≤ s.sndboxnumber ∧
      (Linked s (· < i) ∨ i = 0 ∧ Linked s (· < s.sndboxnumber))
  | _ => True

/-- What is in the list while nobody changes the mode. -/
def Resting [Fintype τ] (s : Can τ β) : Prop :=
  if s.privmode then AllOrNone s ∧ s.sem = s.sndboxnumber
  else Placed s.sndboxnumber s.freelist (fun t => (s.phase t).role.box) ∧
    s.freelist.length = s.sem + count fun t => (s.phase t).role.owed = true

structure Sound [Fintype τ] (s : Can τ β) : Prop where
  size : 1 ≤ s.sndboxnumber ∧ s.sndboxnumber ≤ rtSemValueMax
  nopriv : ∀ t, (s.phase t).role.nopriv = true →
    s.privmode = false ∧ ∀ u, (s.phase u).role.switching = false
  one : ∀ t u, (s.phase t).role.switching = true → (s.phase u).role.switching = true → t = u
  switching : ∀ t, Switching s (s.phase t)
  resting : (∀ u, (s.phase u).role.switching = false) → Resting s

variable [Fintype τ]

theorem Sound.kept (h : Sound s) : BoxesKept s := by
  refine ⟨fun hmode hidle => ?_, fun t c hpop hnil => ?_⟩
  · have hresting := h.resting fun u => by rw [hidle]; rfl
    rw [Resting, hmode] at hresting
    obtain ⟨hplaced, hlen⟩ := hresting
    refine ⟨?_, hplaced.nodup⟩
    rw [hlen, count_eq_zero fun t => by rw [hidle]; exact Bool.false_ne_true]
    rfl
  · obtain ⟨hmode, hswitch⟩ := h.nopriv t (by rw [hpop]; rfl)
    have hresting := h.resting hswitch
    rw [Resting, hmode] at hresting
    have hlen := hresting.2
    have hpos : 0 < count fun t => (s.phase t).role.owed = true :=
      count_pos (t := t) (by rw [hpop]; rfl)
    rw [hnil, length_nil] at hlen
    omega

theorem Initial.sound (h : Initial s) : Sound s := by
  have hrole : ∀ t, (s.phase t).role = .outside := by
    intro t
    rw [h.phase]
    rfl
  refine ⟨h.sndboxnumber, fun t ht => ?_, fun t u ht => ?_, fun t => ?_, fun _ => ?_⟩
  · rw [hrole] at ht
    cases ht
  · rw [hrole] at ht
    cases ht
  · rw [h.phase]
    trivial
  · have hlinked : Linked s (· < s.sndboxnumber) := by
      rw [Linked, h.freelist]
      exact ⟨nodup_range, fun _ => mem_range⟩
    unfold Resting
    split
    · exact ⟨.inl hlinked, h.sem⟩
    · refine ⟨?_, ?_⟩
      · rw [h.freelist]
        exact .range fun t => by rw [hrole]; rfl
      · rw [count_eq_zero fun t => by rw [hrole]; exact Bool.false_ne_true, h.freelist, length_range, h.sem]
        rfl

/-- A step that leaves the list, the semaphore and the mode alone. -/
structure SameLists (s t : Can τ β) : Prop where
  sndboxnumber : t.sndboxnumber = s.sndboxnumber
  privmode : t.privmode = s.privmode
  sem : t.sem = s.sem
  freelist : t.freelist = s.freelist

omit [Fintype τ] in
theorem Switching.congr {phase : Phase β} (h : Switching s phase) (hsame : SameLists s t) :
    Switching t phase := by
  obtain ⟨hn, hmode, hsem, hfree⟩ := hsame
  cases phase with
  | switch | toPriv i | toNopriv i =>
    simpa only [Switching, AllOrNone, Linked, hn, hmode, hsem, hfree] using h
  | _ => trivial

theorem Sound.quiet (h : Sound s) (hsame : SameLists s t) (hphase : ∀ u, t.phase u = s.phase u ∨
      (t.phase u).role = (s.phase u).role ∧ (s.phase u).role.switching = false) : Sound t := by
  have hrole : ∀ u, (t.phase u).role = (s.phase u).role := by
    intro u
    rcases hphase u with heq | heq
    · rw [heq]
    · exact heq.1
  refine ⟨by rw [hsame.sndboxnumber]; exact h.size, fun u hu => ?_, fun u v hu hv => ?_, fun u => ?_,
    fun hswitch => ?_⟩
  · rw [hrole] at hu
    rw [hsame.privmode]
    simp only [hrole]
    exact h.nopriv u hu
  · rw [hrole] at hu hv
    exact h.one u v hu hv
  · rcases hphase u with heq | ⟨heq, hout⟩
    · rw [heq]
      exact (h.switching u).congr hsame
    · rw [← heq] at hout
      cases hu : t.phase u with
      | switch | toPriv i | toNopriv i =>
        rw [hu] at hout
        cases hout
      | _ => trivial
  · simp only [hrole] at hswitch
    have hresting := h.resting hswitch
    simpa only [Resting, AllOrNone, Linked, hsame.sndboxnumber, hsame.privmode, hsame.sem,
      hsame.freelist, hrole] using hresting

variable [DecidableEq τ] {u : τ} {phase : Phase β} {n : Nat} {i : Nat} {c : Call β}

theorem Sound.normal (h : Sound s) (hnopriv : (s.phase u).role.nopriv = true)
    (hphase : t.phase = update s.phase u phase) (hswitch : phase.role.switching = false)
    (hn : t.sndboxnumber = s.sndboxnumber) (hmode : t.privmode = s.privmode)
    (hplaced : Placed s.sndboxnumber s.freelist (fun v => (s.phase v).role.box) →
      Placed s.sndboxnumber t.freelist (fun v => (t.phase v).role.box))
    (hlen : t.freelist.length + s.sem + (if (s.phase u).role.owed = true then 1 else 0) =
      s.freelist.length + t.sem + if phase.role.owed = true then 1 else 0) : Sound t := by
  obtain ⟨hnormal, hnobody⟩ := h.nopriv u hnopriv
  have hself : t.phase u = phase := by rw [hphase, update_self]
  have hother : ∀ v, v ≠ u → t.phase v = s.phase v := by
    intro v hv
    rw [hphase, update_of_ne hv]
  have hnobody' : ∀ v, (t.phase v).role.switching = false := by
    intro v
    by_cases hv : v = u
    · rw [hv, hself]
      exact hswitch
    · rw [hother v hv]
      exact hnobody v
  refine ⟨by rw [hn]; exact h.size, fun _ _ => ⟨hmode.trans hnormal, hnobody'⟩, fun v w hv => ?_,
    fun v => ?_, fun _ => ?_⟩
  · rw [hnobody' v] at hv
    cases hv
  · have hv := hnobody' v
    cases hphase' : t.phase v with
    | switch | toPriv i | toNopriv i =>
      rw [hphase'] at hv
      cases hv
    | _ => trivial
  · have hresting := h.resting hnobody
    rw [Resting, hnormal] at hresting
    obtain ⟨hplaced', hlen'⟩ := hresting
    rw [Resting, hmode, hnormal]
    refine ⟨hn ▸ hplaced hplaced', ?_⟩
    have hchange := count_change (p := fun v => (s.phase v).role.owed = true)
      (q := fun v => (t.phase v).role.owed = true) u fun v hv => by rw [hother v hv]
    rw [hself] at hchange
    omega

theorem Sound.switches (h : Sound s) (hu : (s.phase u).role.switching = true)
    (hphase : t.phase = update s.phase u phase) (hrole : phase.role = .switches)
    (hn : t.sndboxnumber = s.sndboxnumber) (hsound : Switching t phase) : Sound t := by
  have hself : t.phase u = phase := by rw [hphase, update_self]
  have hother : ∀ v, v ≠ u → t.phase v = s.phase v := by
    intro v hv
    rw [hphase, update_of_ne hv]
  have hone : ∀ v, (t.phase v).role.switching = true → v = u := by
    intro v hv
    by_contra hne
    rw [hother v hne] at hv
    exact hne (h.one v u hv hu)
  refine ⟨by rw [hn]; exact h.size, fun v hv => ?_, fun v w hv hw => (hone v hv).trans (hone w hw).symm,
    fun v => ?_, fun hnobody => ?_⟩
  · by_cases hvu : v = u
    · rw [hvu, hself, hrole] at hv
      cases hv
    · rw [hother v hvu] at hv
      have hoff := (h.nopriv v hv).2 u
      rw [hu] at hoff
      cases hoff
  · by_cases hvu : v = u
    · rw [hvu, hself]
      exact hsound
    · cases hv : t.phase v with
      | switch | toPriv i | toNopriv i => exact absurd (hone v (by rw [hv]; rfl)) hvu
      | _ => trivial
  · have hoff := hnobody u
    rw [hself, hrole] at hoff
    cases hoff

theorem Sound.switched (h : Sound s) (hu : (s.phase u).role.switching = true)
    (hphase : t.phase = update s.phase u .idle) (hn : t.sndboxnumber = s.sndboxnumber)
    (hresting : (∀ v, (t.phase v).role.nopriv = false) → Resting t) : Sound t := by
  have hself : t.phase u = .idle := by rw [hphase, update_self]
  have hother : ∀ v, v ≠ u → t.phase v = s.phase v := by
    intro v hv
    rw [hphase, update_of_ne hv]
  have hnobody : ∀ v, (t.phase v).role.switching = false := by
    intro v
    by_cases hvu : v = u
    · rw [hvu, hself]
      rfl
    · rw [hother v hvu, ← Bool.not_eq_true]
      exact fun hv => hvu (h.one v u hv hu)
  have hnopriv : ∀ v, (t.phase v).role.nopriv = false := by
    intro v
    by_cases hvu : v = u
    · rw [hvu, hself]
      rfl
    · rw [hother v hvu, ← Bool.not_eq_true]
      intro hv
      have hoff := (h.nopriv v hv).2 u
      rw [hu] at hoff
      cases hoff
  refine ⟨by rw [hn]; exact h.size, fun v hv => ?_, fun v w hv => ?_, fun v => ?_,
    fun _ => hresting hnopriv⟩
  · rw [hnopriv] at hv
    cases hv
  · rw [hnobody] at hv
    cases hv
  · cases hv : t.phase v with
    | switch | toPriv i | toNopriv i =>
      have hoff := hnobody v
      rw [hv] at hoff
      cases hoff
    | _ => trivial

omit [Fintype τ] [DecidableEq τ] in
theorem Linked.length (h : Linked s (· < n)) : s.freelist.length = n := by
  have hperm : s.freelist.Perm (List.range n) :=
    (perm_ext_iff_of_nodup h.1 nodup_range).mpr fun k => by rw [h.2, mem_range]
  rw [hperm.length_eq, length_range]

omit [Fintype τ] [DecidableEq τ] in
theorem Linked.placed {held : τ → Option Nat} (h : Linked s (· < n))
    (hnone : ∀ t, held t = none) : Placed n s.freelist held := by
  refine ⟨h.1, fun t k hk => ?_, fun k => ?_⟩
  · rw [hnone] at hk
    cases hk
  · rw [h.2]
    simp [hnone]

omit [DecidableEq τ] in
theorem Resting.of_priv (hmode : s.privmode = true) (hall : AllOrNone s)
    (hsem : s.sem = s.sndboxnumber) : Resting s := by
  rw [Resting, if_pos hmode]
  exact ⟨hall, hsem⟩

omit [DecidableEq τ] in
/-- Normal mode, with all boxes and tokens in their places. -/
theorem Resting.of_linked (hmode : s.privmode = false) (hsem : s.sem = s.sndboxnumber)
    (hlinked : Linked s (· < s.sndboxnumber)) (hnopriv : ∀ t, (s.phase t).role.nopriv = false) :
    Resting s := by
  rw [Resting, hmode]
  have hnone := fun t => Phase.outside_of_not_nopriv (hnopriv t)
  refine ⟨hlinked.placed fun t => (hnone t).1, ?_⟩
  rw [count_eq_zero fun t => by rw [(hnone t).2]; exact Bool.false_ne_true, hlinked.length, hsem]
  rfl

theorem Sound.toPriv (h : Sound s) (hu : s.phase u = .toPriv i) (hnext : s.next u = some t) :
    Sound t := by
  have hswitch : (s.phase u).role.switching = true := by
    rw [hu]
    rfl
  have hsound := h.switching u
  rw [hu] at hsound
  obtain ⟨hmode, hsem, hnodup, hmem⟩ := hsound
  unfold Can.next at hnext
  rw [hu] at hnext
  dsimp only at hnext
  split_ifs at hnext with hi hin
  · cases hnext
    refine h.switches hswitch rfl rfl rfl ⟨hmode, hsem, hnodup.erase i, fun k => ?_⟩
    dsimp only [setPhase]
    rw [hnodup.mem_erase_iff, hmem]
    omega
  · exact absurd ((hmem i).mpr ⟨Nat.le_refl i, hi⟩) hin
  · cases hnext
    refine h.switched hswitch rfl rfl fun _ =>
      Resting.of_priv (s := s.setPhase u .idle) hmode (.inr ?_) hsem
    refine eq_nil_iff_forall_not_mem.mpr fun k hk => ?_
    have hk' := (hmem k).mp hk
    omega

theorem Sound.toNopriv (h : Sound s) (hu : s.phase u = .toNopriv i)
    (hapart : Apart s (.next u)) (hnext : s.next u = some t) : Sound t := by
  have hswitch : (s.phase u).role.switching = true := by
    rw [hu]
    rfl
  have hsound := h.switching u
  rw [hu] at hsound
  obtain ⟨hmode, hsem, hle, hlinked⟩ := hsound
  unfold Can.next at hnext
  rw [hu] at hnext
  dsimp only at hnext
  by_cases hi : i < s.sndboxnumber
  · obtain ⟨hok, hout⟩ := hapart i hu hi
    rw [if_pos hi, if_pos hok, insertBefore, if_neg hout] at hnext
    cases hnext
    obtain ⟨hnodup, hmem⟩ := hlinked.resolve_right fun hfull => hout ((hfull.2.2 i).mpr hi)
    refine h.switches hswitch rfl rfl rfl ⟨hmode, hsem, hi, .inl ⟨?_, fun k => ?_⟩⟩
    · exact nodup_append.mpr ⟨hnodup, nodup_singleton i, by
        rintro a ha b hb rfl
        exact hout (mem_singleton.mp hb ▸ ha)⟩
    · dsimp only [setPhase]
      rw [mem_append, hmem, mem_singleton]
      omega
  · rw [if_neg hi] at hnext
    cases hnext
    have hfull : Linked s (· < s.sndboxnumber) := by
      rcases hlinked with hlinked | ⟨-, hfull⟩
      · have heq : i = s.sndboxnumber := by omega
        rw [heq] at hlinked
        exact hlinked
      · exact hfull
    exact h.switched hswitch rfl rfl fun hnopriv =>
      Resting.of_linked (s := s.setPhase u .idle) hmode hsem hfull hnopriv

theorem Sound.switch (h : Sound s) (hu : s.phase u = .switch) (hnext : s.next u = some t) : Sound t := by
  have hswitch : (s.phase u).role.switching = true := by
    rw [hu]
    rfl
  have hsound := h.switching u
  rw [hu] at hsound
  obtain ⟨hsem, hlinked⟩ := hsound
  unfold Can.next at hnext
  rw [hu] at hnext
  cases hnext
  cases hmode : s.privmode with
  | true =>
    rw [hmode] at hlinked
    refine h.switches hswitch rfl rfl rfl ⟨hmode, hsem, hlinked.1, fun k => ?_⟩
    show k ∈ s.freelist ↔ 0 ≤ k ∧ k < s.sndboxnumber
    rw [hlinked.2]
    simp
  | false =>
    rw [hmode] at hlinked
    refine h.switches hswitch rfl rfl rfl ⟨hmode, hsem, Nat.zero_le _, ?_⟩
    rcases hlinked with hfull | hnil
    · exact .inr ⟨rfl, hfull⟩
    · refine .inl ⟨?_, fun k => ?_⟩
      · show s.freelist.Nodup
        rw [hnil]
        exact nodup_nil
      · show k ∈ s.freelist ↔ k < 0
        rw [hnil]
        simp

/-- All boxes are in the list in normal mode, and all or none in private mode. -/
theorem Resting.switching {privmode : Bool} (h : Resting s)
    (hnopriv : ∀ v, (s.phase v).role.nopriv = false) (hne : privmode ≠ s.privmode) :
    Switching (setPhase { s with privmode := privmode } u .switch) .switch := by
  cases privmode with
  | true =>
    have hmode : s.privmode = false := by
      cases hmode : s.privmode with
      | true => exact absurd hmode.symm hne
      | false => rfl
    rw [Resting, hmode] at h
    have hnone := fun v => Phase.outside_of_not_nopriv (hnopriv v)
    have hperm := h.1.perm_range fun v => (hnone v).1
    refine ⟨?_, h.1.nodup, fun k => ?_⟩
    · have hlen := h.2
      rw [count_eq_zero fun v => by rw [(hnone v).2]; exact Bool.false_ne_true, hperm.length_eq,
        length_range] at hlen
      exact hlen.symm
    · show k ∈ s.freelist ↔ k < s.sndboxnumber
      rw [hperm.mem_iff, mem_range]
  | false =>
    have hmode : s.privmode = true := by
      cases hmode : s.privmode with
      | true => rfl
      | false => exact absurd hmode.symm hne
    rw [Resting, if_pos hmode] at h
    exact ⟨h.2, h.1⟩

theorem Sound.setPriv {privmode configured : Bool} (h : Sound s)
    (hapart : Apart s (.setPriv u privmode configured)) : Sound (s.setPriv u privmode configured) := by
  unfold Can.setPriv
  split_ifs with hsame hconfigured
  · exact h
  · obtain ⟨-, hnobody⟩ := hapart hsame
    have hresting := h.resting fun v => (hnobody v).1
    have hother : ∀ v, v ≠ u → update s.phase u .switch v = s.phase v :=
      fun v hv => update_of_ne hv _ _
    have hone : ∀ v, (update s.phase u .switch v).role.switching = true → v = u := by
      intro v hv
      by_contra hne
      rw [hother v hne, (hnobody v).1] at hv
      cases hv
    refine ⟨h.size, fun v hv => ?_, fun v w hv hw => (hone v hv).trans (hone w hw).symm, fun v => ?_,
      fun hoff => ?_⟩
    · dsimp only [setPhase] at hv
      by_cases hvu : v = u
      · rw [hvu, update_self] at hv
        cases hv
      · rw [hother v hvu, (hnobody v).2] at hv
        cases hv
    · dsimp only [setPhase]
      by_cases hvu : v = u
      · rw [hvu, update_self]
        exact Resting.switching hresting (fun v => (hnobody v).2) hsame
      · rw [hother v hvu]
        have hv := (hnobody v).1
        cases hphase : s.phase v with
        | switch | toPriv i | toNopriv i =>
          rw [hphase] at hv
          cases hv
        | _ => trivial
    · have hu := hoff u
      dsimp only [setPhase] at hu
      rw [update_self] at hu
      cases hu
  · exact absurd (hapart hsame).1 hconfigured

theorem Sound.own (h : Sound s) (hsame : SameLists s t) (hphase : t.phase = update s.phase u phase)
    (hrole : phase.role = (s.phase u).role) (hswitch : (s.phase u).role.switching = false) : Sound t := by
  refine h.quiet hsame fun v => ?_
  rw [hphase]
  by_cases hv : v = u
  · rw [hv, update_self]
    exact .inr ⟨hrole, hswitch⟩
  · exact .inl (update_of_ne hv _ _)

omit [Fintype τ] in
theorem rtCompletionWait_cases {after : After} {phase : Phase β}
    (hwait : s.rtCompletionWait u after c phase = some t) : SameLists s t ∧
      (t.phase = update s.phase u phase ∨
        t.phase = update s.phase u (.suspended after c)) := by
  unfold rtCompletionWait at hwait
  split_ifs at hwait with hflag hnobody
  · cases hwait
    exact ⟨⟨rfl, rfl, rfl, rfl⟩, .inl rfl⟩
  · cases hwait
    exact ⟨⟨rfl, rfl, rfl, rfl⟩, .inr rfl⟩

theorem returned_role (after : After) (c : Call β) : (returned after c).role = after.role c := by
  cases after <;> rfl

omit [DecidableEq τ] in
/-- A write of normal mode has less tokens than there are boxes. -/
theorem Sound.sem_lt (h : Sound s) (hnopriv : (s.phase u).role.nopriv = true)
    (howed : (s.phase u).role.owed = true) : s.sem < s.sndboxnumber := by
  obtain ⟨hmode, hnobody⟩ := h.nopriv u hnopriv
  have hresting := h.resting hnobody
  rw [Resting, hmode] at hresting
  have hle := hresting.1.length_le
  have hpos : 0 < count fun v => (s.phase v).role.owed = true := count_pos howed
  have hlen := hresting.2
  omega

theorem Sound.write {data : List (Msg β)} (h : Sound s) (hidle : s.phase u = .idle)
    (hapart : Apart s (.write u data)) (c : Call β) : Sound (s.setPhase u (loop s.privmode c)) := by
  have hidle' : (s.phase u).role = .outside := by
    rw [hidle]
    rfl
  have hswitch : (s.phase u).role.switching = false := by rw [hidle']; rfl
  unfold loop
  split_ifs with hnil hmode
  · exact h.own ⟨rfl, rfl, rfl, rfl⟩ rfl hidle'.symm hswitch
  · exact h.own ⟨rfl, rfl, rfl, rfl⟩ rfl hidle'.symm hswitch
  · -- a write begins in normal mode, while nobody changes the mode
    rw [Bool.not_eq_true] at hmode
    have hnobody := hapart hmode
    have hresting := h.resting hnobody
    rw [Resting, hmode] at hresting
    have hrole : ∀ v, (update s.phase u (.take c) v).role.switching = false ∧
        (update s.phase u (.take c) v).role.box = (s.phase v).role.box ∧
        (update s.phase u (.take c) v).role.owed = (s.phase v).role.owed := by
      intro v
      by_cases hv : v = u
      · rw [hv, update_self, hidle']
        exact ⟨rfl, rfl, rfl⟩
      · rw [update_of_ne hv]
        exact ⟨hnobody v, rfl, rfl⟩
    refine ⟨h.size, fun v _ => ⟨hmode, fun w => (hrole w).1⟩, fun v w hv => ?_, fun v => ?_, fun _ => ?_⟩
    · dsimp only [setPhase] at hv
      rw [(hrole v).1] at hv
      cases hv
    · have hv := (hrole v).1
      dsimp only [setPhase]
      cases hphase : update s.phase u (.take c) v with
      | switch | toPriv i | toNopriv i =>
        rw [hphase] at hv
        cases hv
      | _ => trivial
    · have hmode' : (s.setPhase u (.take c)).privmode = false := hmode
      rw [Resting, hmode']
      refine ⟨hresting.1.perm (.refl _) fun v => (hrole v).2.1, hresting.2.trans ?_⟩
      congr 1
      refine count_congr fun v => ?_
      dsimp only [setPhase]
      rw [(hrole v).2.2]

omit [DecidableEq τ] in
theorem Sound.placed (h : Sound s) (hnopriv : (s.phase u).role.nopriv = true) :
    Placed s.sndboxnumber s.freelist fun v => (s.phase v).role.box := by
  obtain ⟨hmode, hnobody⟩ := h.nopriv u hnopriv
  have hresting := h.resting hnobody
  rw [Resting, hmode] at hresting
  exact hresting.1

omit [Fintype τ] in
theorem update_box (s : Can τ β) (u : τ) (phase : Phase β) (v : τ) :
    (update s.phase u phase v).role.box =
      if v = u then phase.role.box else (s.phase v).role.box := by
  by_cases hv : v = u
  · rw [hv, update_self, if_pos rfl]
  · rw [update_of_ne hv, if_neg hv]

theorem Sound.token (h : Sound s) (hnopriv : (s.phase u).role.nopriv = true)
    (hphase : t.phase = update s.phase u phase) (hswitch : phase.role.switching = false)
    (hn : t.sndboxnumber = s.sndboxnumber) (hmode : t.privmode = s.privmode)
    (hfree : t.freelist = s.freelist) (hbox : phase.role.box = (s.phase u).role.box)
    (hsem : s.sem + (if (s.phase u).role.owed = true then 1 else 0) =
      t.sem + if phase.role.owed = true then 1 else 0) : Sound t := by
  refine h.normal hnopriv hphase hswitch hn hmode (fun hplaced => ?_) ?_
  · refine hplaced.perm (by rw [hfree]) fun v => ?_
    rw [hphase, update_box, hbox]
    by_cases hv : v = u
    · rw [if_pos hv, hv]
    · rw [if_neg hv]
  · rw [hfree]
    omega

omit [Fintype τ] [DecidableEq τ] in
theorem rtSemRelease_of_lt (h : s.sem < rtSemValueMax) :
    s.rtSemRelease = { s with sem := s.sem + 1 } := if_pos h

theorem Sound.putBack (h : Sound s) (hrole : (s.phase u).role = .has c.no)
    (hphase : t.phase = update s.phase u phase) (howes : phase.role = .owes)
    (hn : t.sndboxnumber = s.sndboxnumber) (hmode : t.privmode = s.privmode) (hsem : t.sem = s.sem)
    (hfree : t.freelist.Perm (c.no :: s.freelist)) : Sound t := by
  have hnopriv : (s.phase u).role.nopriv = true := by rw [hrole]; rfl
  refine h.normal hnopriv hphase (by rw [howes]; rfl) hn hmode (fun hplaced => ?_) ?_
  · refine hplaced.put hfree (u := u) (by rw [hrole]; rfl) fun v => ?_
    rw [hphase, update_box, howes]
    rfl
  · rw [hfree.length_eq, hrole, howes, hsem]
    show s.freelist.length + 1 + s.sem + 0 = s.freelist.length + s.sem + 1
    omega

theorem loop_role (priv : Bool) (c : Call β) : (loop priv c).role = .outside ∨
    priv = false ∧ (loop priv c).role = .begins := by
  unfold loop
  by_cases hnil : c.data.isEmpty
  · rw [if_pos hnil]
    exact .inl rfl
  · rw [if_neg hnil]
    cases priv with
    | true => exact .inl rfl
    | false => exact .inr ⟨rfl, rfl⟩

/-- A write that has counted a result has neither a token nor a box. -/
theorem count_role (priv : Bool) (c : Call β) (result : Result) :
    (if result = .ok then loop priv { c with data := c.data.tail } else .idle).role = .outside ∨
      priv = false ∧
        (if result = .ok then loop priv { c with data := c.data.tail } else .idle).role = .begins := by
  split_ifs
  · exact loop_role priv _
  · exact .inl rfl

theorem Sound.nextNormal (h : Sound s) (hnopriv : (s.phase u).role.nopriv = true)
    (hnext : s.next u = some t) : Sound t := by
  unfold Can.next at hnext
  cases hu : s.phase u with
  | take c =>
    rw [hu] at hnext
    obtain ⟨hpos, hnext⟩ := Option.ite_none_right_eq_some.mp hnext
    cases hnext
    refine h.token hnopriv rfl rfl rfl rfl rfl (by rw [hu]; rfl) ?_
    rw [hu]
    show s.sem + 0 = s.sem - 1 + 1
    omega
  | pop c =>
    rw [hu] at hnext
    cases hfree : s.freelist with
    | nil =>
      rw [hfree] at hnext
      cases hnext
    | cons no rest =>
      rw [hfree] at hnext
      cases hnext
      refine h.normal hnopriv rfl rfl rfl rfl (fun hplaced => ?_) ?_
      · refine hplaced.take (u := u) (n := no) (by rw [hfree]; exact .refl _) (by rw [hu]; rfl) fun v => ?_
        exact update_box s u (.mark { c with no := no }) v
      · rw [hu, hfree]
        show rest.length + s.sem + 1 = rest.length + 1 + s.sem + 0
        omega
  | mark c =>
    rw [hu] at hnext
    cases hnext
    exact h.own ⟨rfl, rfl, rfl, rfl⟩ rfl (by rw [hu]; rfl) (by rw [hu]; rfl)
  | undo c =>
    have hout := ((h.placed hnopriv).apart u c.no (by rw [hu]; rfl)).1
    rw [hu] at hnext
    dsimp only at hnext
    rw [insertAfter, if_neg hout] at hnext
    cases hnext
    exact h.putBack (by rw [hu]; rfl) rfl rfl rfl rfl rfl (.refl _)
  | collect c =>
    have hout := ((h.placed hnopriv).apart u c.no (by rw [hu]; rfl)).1
    rw [hu] at hnext
    dsimp only [insertBefore] at hnext
    rw [erase_of_not_mem hout, if_neg hout] at hnext
    cases hnext
    exact h.putBack (by rw [hu]; rfl) rfl rfl rfl rfl rfl (perm_append_singleton _ _)
  | retry c =>
    have hlt := h.sem_lt hnopriv (by rw [hu]; rfl)
    rw [hu] at hnext
    rw [rtSemRelease_of_lt (Nat.lt_of_lt_of_le hlt h.size.2)] at hnext
    cases hnext
    refine h.token hnopriv rfl rfl rfl rfl rfl (by rw [hu]; rfl) ?_
    rw [hu]
    rfl
  | release c result =>
    have hlt := h.sem_lt hnopriv (by rw [hu]; rfl)
    rw [hu] at hnext
    rw [rtSemRelease_of_lt (Nat.lt_of_lt_of_le hlt h.size.2)] at hnext
    cases hnext
    rcases count_role false c result with hrole | ⟨-, hrole⟩
    all_goals
      refine h.token hnopriv rfl (by rw [hrole]; rfl) rfl rfl rfl (by rw [hrole, hu]; rfl) ?_
      rw [hrole, hu]
      rfl
  | wait after c =>
    rw [hu] at hnext
    obtain ⟨hsame, hphase | hphase⟩ := rtCompletionWait_cases hnext
    · exact h.own hsame hphase (by rw [hu, returned_role]; rfl) (by rw [hu]; exact after.role_switching c)
    · exact h.own hsame hphase (by rw [hu]; rfl) (by rw [hu]; exact after.role_switching c)
  | woken after c =>
    rw [hu] at hnext
    cases hnext
    exact h.own ⟨rfl, rfl, rfl, rfl⟩ rfl (by rw [hu, returned_role]; rfl)
      (by rw [hu]; exact after.role_switching c)
  | idle | send priv c | suspended after c =>
    rw [hu] at hnext
    cases hnext
  | test c | read c | switch | toPriv i | toNopriv i =>
    rw [hu] at hnopriv
    cases hnopriv

theorem Sound.next (h : Sound s) (hapart : Apart s (.next u)) (hnext : s.next u = some t) : Sound t := by
  by_cases hnopriv : (s.phase u).role.nopriv = true
  · exact h.nextNormal hnopriv hnext
  cases hu : s.phase u with
  | switch => exact h.switch hu hnext
  | toPriv i => exact h.toPriv hu hnext
  | toNopriv i => exact h.toNopriv hu hapart hnext
  | test c =>
    unfold Can.next at hnext
    rw [hu] at hnext
    dsimp only at hnext
    have hswitch : (s.phase u).role.switching = false := by rw [hu]; rfl
    cases hdata : c.data with
    | nil =>
      rw [hdata] at hnext
      cases hnext
    | cons m rest =>
      rw [hdata] at hnext
      dsimp only at hnext
      split_ifs at hnext
      all_goals
        cases hnext
        exact h.own ⟨rfl, rfl, rfl, rfl⟩ rfl (by rw [hu]; rfl) hswitch
  | read c =>
    unfold Can.next at hnext
    rw [hu] at hnext
    cases hnext
    refine h.own ⟨rfl, rfl, rfl, rfl⟩ rfl ?_ (by rw [hu]; rfl)
    rcases count_role true c (s.buffer c.no).result with hrole | ⟨hpriv, -⟩
    · rw [hrole, hu]
      rfl
    · cases hpriv
  | idle | send priv c | suspended after c =>
    unfold Can.next at hnext
    rw [hu] at hnext
    cases hnext
  | wait after c =>
    unfold Can.next at hnext
    rw [hu] at hnext
    have hswitch : (s.phase u).role.switching = false := by rw [hu]; exact after.role_switching c
    obtain ⟨hsame, hphase | hphase⟩ := rtCompletionWait_cases hnext
    · exact h.own hsame hphase (by rw [hu, returned_role]; rfl) hswitch
    · exact h.own hsame hphase (by rw [hu]; rfl) hswitch
  | woken after c =>
    unfold Can.next at hnext
    rw [hu] at hnext
    cases hnext
    exact h.own ⟨rfl, rfl, rfl, rfl⟩ rfl (by rw [hu, returned_role]; rfl)
      (by rw [hu]; exact after.role_switching c)
  | _ =>
    rw [hu] at hnopriv
    exact absurd rfl hnopriv

theorem Sound.sendmsg {accepted : Bool} (h : Sound s) (hsend : s.sendmsg u accepted = some t) :
    Sound t := by
  unfold Can.sendmsg at hsend
  cases hu : s.phase u with
  | send priv c =>
    rw [hu] at hsend
    have hswitch : (s.phase u).role.switching = false := by rw [hu]; cases priv <;> rfl
    cases accepted with
    | true | false =>
      cases hsend
      refine h.own ⟨rfl, rfl, rfl, rfl⟩ rfl ?_ hswitch
      rw [hu]
      cases priv <;> rfl
  | _ =>
    rw [hu] at hsend
    cases hsend

omit [Fintype τ] in
theorem rtCompletionDone_lists (s : Can τ β) (no : Nat) : SameLists s (s.rtCompletionDone no) := by
  unfold rtCompletionDone
  split_ifs
  · exact ⟨rfl, rfl, rfl, rfl⟩
  · split <;> exact ⟨rfl, rfl, rfl, rfl⟩

theorem Sound.event (h : Sound s) (tx : Nat) (done : Bool) : Sound (s.canIsr tx done) := by
  unfold canIsr rtHwCanIsr
  obtain ⟨hn, hmode, hsem, hfree⟩ := rtCompletionDone_lists
    (s.report 0 tx (if done then .ok else .err)) 0
  refine h.quiet ⟨hn, hmode, hsem, hfree⟩ fun v => ?_
  rcases rtCompletionDone_phase (s.report 0 tx (if done then .ok else .err)) 0 with
    heq | ⟨w, after, c, -, hw, heq⟩
  · exact .inl (congrFun heq v)
  · rw [heq]
    by_cases hv : v = w
    · rw [hv, update_self]
      change s.phase w = .suspended after c at hw
      rw [hw]
      exact .inr ⟨rfl, after.role_switching c⟩
    · exact .inl (update_of_ne hv _ _)

theorem Sound.exec {a : Act τ β} (h : Sound s) (hapart : Apart s a) (hexec : s.exec a = some t) :
    Sound t := by
  cases a with
  | write u data =>
    obtain ⟨hidle, -, rfl⟩ := exec_write hexec
    exact h.write hidle hapart _
  | setPriv u privmode configured =>
    obtain ⟨-, rfl⟩ := exec_setPriv hexec
    exact h.setPriv hapart
  | next u => exact h.next hapart hexec
  | sendmsg u accepted => exact h.sendmsg hexec
  | event tx done =>
    obtain ⟨-, hexec⟩ := Option.ite_none_right_eq_some.mp hexec
    cases hexec
    exact h.event tx done

/-- Where writes and changes of the mode keep apart, and all boxes are well when the mode changes
back, the semaphore counts the boxes of the list and whoever has a token finds one. -/
theorem reachable_boxesKept (s : Can τ β)
    (h : Reachable Initial (Within (fun s a t => s.exec a = some t) Apart) s) : BoxesKept s := by
  have hsound : Sound s :=
    h.inductWithin (·.sound) (·.exec)
  exact hsound.kept

instance decidableApart (s : Can τ β) (a : Act τ β) : Decidable (Apart s a) :=
  match a with
  | .write _ _ =>
    inferInstanceAs (Decidable (s.privmode = false → ∀ u, (s.phase u).role.switching = false))
  | .setPriv _ privmode configured =>
    inferInstanceAs (Decidable (privmode ≠ s.privmode → configured = true ∧
      ∀ u, (s.phase u).role.switching = false ∧ (s.phase u).role.nopriv = false))
  | .next t =>
    match hphase : s.phase t with
    | .toNopriv i =>
      decidable_of_iff (i < s.sndboxnumber → (s.buffer i).result = .ok ∧ i ∉ s.freelist)
        (by simp [Apart, hphase])
    | .idle | .take _ | .pop _ | .mark _ | .send _ _ | .undo _ | .retry _ | .wait _ _
    | .suspended _ _ | .woken _ _ | .collect _ | .release _ _ | .test _ | .read _ | .switch
    | .toPriv _ => .isTrue (by simp [Apart, hphase])
  | .sendmsg _ _ | .event _ _ => .isTrue trivial

/-- Messages in either mode, and two changes of the mode. -/
def thereAndBack : List (Act (Fin 2) Nat) :=
  writeUntilWait 0 7 ++ ([.event 0 true, .next 0, .next 0, .next 0, .setPriv 0 true true, .next 0,
    .next 0, .next 0, .next 0, .write 1 [{ priv := 0, body := 8 }], .next 1, .sendmsg 1 true,
    .event 1 true, .next 1, .next 1, .setPriv 0 false true, .next 0, .next 0, .next 0, .next 0] :
      List (Act (Fin 2) Nat))

/-- The driver is in private mode for one message, and back in the other mode for the next. -/
theorem reachable_boxesKept_back : ∃ s : Can (Fin 2) Nat, s.privmode = false ∧ s.sem = 2 ∧
    s.freelist = [0, 1] ∧ s.counted = [(0, .ok), (1, .ok)] ∧ BoxesKept s := by
  obtain ⟨s, hs, hmode, hsem, hfree, hcounted⟩ :
      ∃ s ∈ runWithin exec Apart (opened 2) thereAndBack, s.privmode = false ∧ s.sem = 2 ∧
      s.freelist = [0, 1] ∧ s.counted = [(0, .ok), (1, .ok)] := by decide +kernel
  have hstart : Reachable Initial (Within (fun s a t => exec s a = some t) Apart) (opened 2) :=
    Reachable.start (opened_initial 2 (by decide))
  exact ⟨s, hmode, hsem, hfree, hcounted, reachable_boxesKept s (hstart.runWithin hs)⟩

/-- A message fails, and the mode is changed and changed back. -/
def failThereAndBack : List (Act (Fin 2) Nat) :=
  writeUntilWait 0 7 ++ ([.event 0 false, .next 0, .next 0, .next 0, .setPriv 0 true true, .next 0,
    .next 0, .next 0, .setPriv 0 false true, .next 0, .next 0, .next 0] : List (Act (Fin 2) Nat))

/-- The mode is changed and changed back while a write waits. -/
def waitThereAndBack : List (Act (Fin 2) Nat) :=
  writeUntilWait 0 7 ++ ([.setPriv 1 true true, .next 1, .next 1, .next 1, .setPriv 1 false true,
    .next 1, .next 1, .next 1, .event 0 true, .next 0, .next 0, .next 0] : List (Act (Fin 2) Nat))

/-- Whether nobody writes and nobody changes the mode. -/
def quiet (s : Can (Fin 2) Nat) : Bool :=
  decide (∀ t, (match s.phase t with | .idle => true | _ => false) = true)

theorem idle_of_quiet {s : Can (Fin 2) Nat} (h : s.quiet = true) (t : Fin 2) : s.phase t = .idle := by
  have ht := of_decide_eq_true h t
  split at ht
  · assumption
  · cases ht

/-- The only box has failed once and is not put back into the list, so that the semaphore counts
one that is not there. And where a write waits while the mode is changed and changed back, the
semaphore counts the only box once for the change and once for the write. -/
theorem passedOver_not_kept :
    (∃ s : Can (Fin 2) Nat, Reachable Initial (fun s a t => s.exec a = some t) s ∧
      s.sndboxnumber = 1 ∧ s.privmode = false ∧ (∀ t, s.phase t = .idle) ∧ s.sem = 1 ∧
      s.freelist = [] ∧ ¬ BoxesKept s) ∧
    ∃ s : Can (Fin 2) Nat, Reachable Initial (fun s a t => s.exec a = some t) s ∧
      s.sndboxnumber = 1 ∧ s.privmode = false ∧ (∀ t, s.phase t = .idle) ∧ s.sem = 2 ∧
      s.freelist = [0] ∧ ¬ BoxesKept s := by
  obtain ⟨s, hs, hn, hmode, hquiet, hsem, hfree⟩ :
      ∃ s ∈ runAll exec (opened 1) failThereAndBack, s.sndboxnumber = 1 ∧
      s.privmode = false ∧ s.quiet = true ∧ s.sem = 1 ∧ s.freelist = [] := by decide +kernel
  obtain ⟨t, ht, hn', hmode', hquiet', hsem', hfree'⟩ :
      ∃ s ∈ runAll exec (opened 1) waitThereAndBack, s.sndboxnumber = 1 ∧
      s.privmode = false ∧ s.quiet = true ∧ s.sem = 2 ∧ s.freelist = [0] := by decide +kernel
  have hopened : Reachable Initial (fun s a t => exec s a = some t) (opened 1) :=
    Reachable.start (opened_initial 1 (by decide))
  refine ⟨⟨s, hopened.runAll hs, hn, hmode, idle_of_quiet hquiet, hsem, hfree, fun hkept => ?_⟩,
    t, hopened.runAll ht, hn', hmode', idle_of_quiet hquiet', hsem', hfree', fun hkept => ?_⟩
  · have hbalanced := (hkept.balanced hmode (idle_of_quiet hquiet)).sem
    rw [hsem, hfree] at hbalanced
    cases hbalanced
  · have hbalanced := (hkept.balanced hmode' (idle_of_quiet hquiet')).sem
    rw [hsem', hfree'] at hbalanced
    cases hbalanced

end Can

end RtKernel.CanSend
