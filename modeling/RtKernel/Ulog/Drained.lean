import RtKernel.Ulog.Notice

/-!
# What is output

The logs are output in the order of the calls. When the notice is reset with care, nothing is left
once the output thread is suspended and no call is in progress.
-/

open List Option

namespace RtKernel.Ulog

open Rbb RingBuffer Function

namespace RtUlog

variable {τ : Type*} [DecidableEq τ] {c : Setup τ} {s s' : RtUlog τ} {t : τ} {pc : Caller}

@[simp] theorem setPc_self (s : RtUlog τ) (t : τ) (pc : Caller) : (s.setPc t pc).pc t = pc :=
  update_self ..

section

variable (ht : s.outputLocker = some t)
include ht

omit [DecidableEq τ] in
theorem filling_eq : s.filling = (s.pc t).filling := by
  rw [filling, ht]
  rfl

omit [DecidableEq τ] in
theorem pending_iff : s.Pending ↔ (s.pc t).pending = true := by
  simp [Pending, ht]

theorem filling_setPc : (s.setPc t pc).filling = pc.filling := by
  change (s.outputLocker.elim [] fun u => ((s.setPc t pc).pc u).filling) = pc.filling
  rw [ht, elim_some, setPc_self]

end

/-- Only the pc of the thread that holds the lock matters. -/
theorem filling_congr (hlocker : s'.outputLocker = s.outputLocker) (ht : s.outputLocker ≠ some t)
    (hpc : s'.pc = update s.pc t pc) : s'.filling = s.filling := by
  unfold filling
  rw [hlocker]
  cases hs : s.outputLocker with
  | none => rfl
  | some u =>
    have hu : u ≠ t := fun he => ht (he ▸ hs)
    rw [hpc, elim_some, elim_some, update_of_ne hu]

theorem pending_congr (hlocker : s'.outputLocker = s.outputLocker) (ht : s.outputLocker ≠ some t)
    (hpc : s'.pc = update s.pc t pc) (h : s.Pending) : s'.Pending := by
  obtain ⟨u, hs, hpending⟩ := h
  refine ⟨u, hlocker ▸ hs, ?_⟩
  have hu : u ≠ t := fun he => ht (he ▸ hs)
  rwa [hpc, update_of_ne hu]

namespace Calls

section

omit [DecidableEq τ]

theorem not_locker (h : s.Calls) (ht : (s.pc t).locked = false) : s.outputLocker ≠ some t := by
  intro hs
  rw [(h.locked t).mpr hs] at ht
  cases ht

theorem recursion_eq (h : s.Calls) (ht : s.outputLocker = some t) :
    s.voutputRecursion = (s.pc t).recursing := by
  rw [h.recursion, ht]
  rfl

/-- A call that holds `output_locker` has set what the others see. -/
theorem inside_eq (h : s.Calls) (hpc : s.pc t = pc) (hlocked : pc.locked = true) :
    s.outputLocker = some t ∧ s.voutputRecursion = pc.recursing ∧ s.filling = pc.filling := by
  subst hpc
  have ht := (h.locked t).mp hlocked
  exact ⟨ht, h.recursion_eq ht, filling_eq ht⟩

/-- Nothing is filled while nobody has set the flag. -/
theorem filling_nil (h : s.Calls) (hrecursion : s.voutputRecursion = false) : s.filling = [] := by
  rw [h.recursion] at hrecursion
  unfold filling
  cases hs : s.outputLocker with
  | none => rfl
  | some u =>
    rw [hs, any_some] at hrecursion
    rw [elim_some]
    cases hu : s.pc u with
    | package | putBlk =>
      rw [hu] at hrecursion
      cases hrecursion
    | _ => rfl

end

/-- A step of the thread that holds the lock then. -/
theorem inside (h : s.Calls) (ht : ∀ u, s.outputLocker = some u → u = t)
    (hlocker : s'.outputLocker = some t) (hpc : s'.pc = update s.pc t pc)
    (hlocked : pc.locked = true) (hrecursion : s'.voutputRecursion = pc.recursing)
    (hpacked : ∀ n log, pc = .putBlk n log → s'.frames n = log.frame) : s'.Calls where
  locked u := by
    rw [hlocker, hpc]
    by_cases hu : u = t
    · rw [hu, update_self, hlocked]
      exact iff_of_true rfl rfl
    · rw [update_of_ne hu, h.locked]
      refine iff_of_false (fun hs => hu (ht u hs)) fun he => hu ?_
      exact (some.inj he).symm
  recursion := by rw [hlocker, hpc, any_some, update_self, hrecursion]
  packed u n log hu := by
    by_cases hut : u = t
    · rw [hpc, hut, update_self] at hu
      exact hpacked n log hu
    · rw [hpc, update_of_ne hut] at hu
      exact absurd (ht u ((h.locked u).mp (by rw [hu]; rfl))) hut

theorem outside (h : s.Calls) (ht : (s.pc t).locked = false)
    (hlocker : s'.outputLocker = s.outputLocker) (hpc : s'.pc = update s.pc t pc)
    (hlocked : pc.locked = false) (hrecursion : s'.voutputRecursion = s.voutputRecursion)
    (hpacked : ∀ u n log, s.pc u = .putBlk n log → s'.frames n = s.frames n) : s'.Calls where
  locked u := by
    rw [hlocker, hpc]
    by_cases hu : u = t
    · rw [hu, update_self, hlocked]
      exact iff_of_false nofun (h.not_locker ht)
    · rw [update_of_ne hu]
      exact h.locked u
  recursion := by
    rw [hrecursion, h.recursion, hlocker, hpc]
    cases hs : s.outputLocker with
    | none => rfl
    | some u =>
      have hu : u ≠ t := fun he => h.not_locker ht (he ▸ hs)
      rw [any_some, any_some, update_of_ne hu]
  packed u n log hu := by
    by_cases hut : u = t
    · rw [hpc, hut, update_self] at hu
      rw [hu] at hlocked
      cases hlocked
    · rw [hpc, update_of_ne hut] at hu
      exact (hpacked u n log hu).trans (h.packed u n log hu)

theorem unlock (h : s.Calls) (ht : s.outputLocker = some t) (hlocker : s'.outputLocker = none)
    (hpc : s'.pc = update s.pc t .idle) (hrecursion : s'.voutputRecursion = false) : s'.Calls where
  locked u := by
    rw [hlocker, hpc]
    refine iff_of_false (fun hu => ?_) nofun
    by_cases hut : u = t
    · rw [hut, update_self] at hu
      cases hu
    · rw [update_of_ne hut, h.locked, ht] at hu
      exact hut (some.inj hu).symm
  recursion := by rw [hlocker, hrecursion, any_none]
  packed u n log hu := by
    by_cases hut : u = t
    · rw [hpc, hut, update_self] at hu
      cases hu
    · rw [hpc, update_of_ne hut] at hu
      have hs := (h.locked u).mp (by rw [hu]; rfl)
      exact absurd (some.inj (hs.symm.trans ht)) hut

end Calls

theorem Sound.not_locked (h : s.Sound) (ht : (s.pc t).locked = false) (pc : Caller) :
    (s.setPc t pc).filling = s.filling :=
  filling_congr rfl (h.calls.not_locker ht) rfl

/-- The notice is sent in a step that ends at `pc`. -/
theorem sound_release {s : RtUlog τ} {filling : List (Nat × Log)} {puts free : List Nat}
    {logs : List Log} (hfilling : (s.setPc t pc).filling = filling)
    (hblocks : Blocks s.asyncRbb s.frames s.out filling s.framed s.called puts free logs)
    (hplaced : Rbb.Placed s.asyncRbb) (hcalls : (s.setPc t pc).Calls) : (s.semRelease.setPc t pc).Sound := by
  obtain ⟨out, value, heq, hheld, hunread⟩ := s.semRelease_spec
  subst hfilling
  refine ⟨⟨puts, free, logs, ?_⟩, ?_, ?_, .release rfl rfl⟩
  · rw [heq]
    exact hblocks.congr hheld hunread
  · rw [heq]
    exact hplaced
  · rw [heq]
    exact ⟨hcalls.locked, hcalls.recursion, hcalls.packed⟩

variable {log : Log}

theorem Sound.isrVoutput (h : s.Sound) (ht : (s.pc t).locked = false)
    (hbounded : Bounded s.asyncRbb (.alloc log.blkSize))
    (heq : s.isrVoutput log = some s') : (s'.setPc t .idle).Sound := by
  obtain ⟨puts, free, logs, hblocks⟩ := h.blocks
  have hlocker := h.calls.not_locker ht
  unfold RtUlog.isrVoutput at heq
  split_ifs at heq with hrecursion
  · cases heq
    refine ⟨⟨puts, free, logs, (h.not_locked ht .idle).symm ▸ hblocks⟩, h.placed, ?_, ?_⟩
    · exact h.calls.outside ht rfl rfl rfl rfl fun _ _ _ _ => rfl
    · exact h.noticed.keep rfl rfl id (pending_congr rfl hlocker rfl)
  · have hnil := h.calls.filling_nil (Bool.eq_false_iff.mpr hrecursion)
    rw [hnil] at hblocks
    obtain ⟨⟨s₁, logBlk⟩, halloc, hput⟩ := bind_eq_some_iff.mp heq
    obtain ⟨⟨rbb, result⟩, hrbb, hr⟩ := map_eq_some_iff.mp halloc
    have hplaced := h.placed.call (a := .alloc _) log.blkSize_pos hbounded hrbb
    obtain ⟨hnone, free', hblocks'⟩ | ⟨n, free', hsome, hblocks'⟩ := hblocks.alloc log hrbb
    · obtain rfl : result = none := hnone
      cases hr
      cases hput
      refine ⟨⟨puts, free', logs, ?_⟩, hplaced, ?_, ?_⟩
      · have hfill : (setPc { s with asyncRbb := rbb } t .idle).filling = s.filling :=
          filling_congr rfl hlocker rfl
        rw [hfill, hnil]
        exact hblocks'
      · exact h.calls.outside ht rfl rfl rfl rfl fun _ _ _ _ => rfl
      · refine h.noticed.keep rfl rfl ?_ (pending_congr rfl hlocker rfl)
        exact Or.imp_left fun hput => hblocks.holdsPut_iff.mpr (hblocks'.holdsPut_iff.mp hput)
    · obtain rfl : result = some n := hsome
      cases hr
      obtain ⟨s₂, hblkPut, rfl⟩ := map_eq_some_iff.mp hput
      obtain ⟨rbb', hrbb', rfl⟩ := map_eq_some_iff.mp hblkPut
      have hput := (hblocks'.package log.frame).putFilled (update_self ..) hrbb'
      have hfill : (setPc { s with asyncRbb := rbb } t .idle).filling = s.filling :=
        filling_congr rfl hlocker rfl
      refine sound_release (hfill.trans hnil) hput (hblocks'.placed_put hplaced hrbb') ?_
      · refine h.calls.outside ht rfl rfl rfl rfl fun u m log' hu => ?_
        have hu' := (h.calls.locked u).mp (by rw [hu]; rfl)
        rw [filling_eq hu', hu] at hnil
        cases hnil

/-- The whole of `ulog_raw` with the ring buffer in an interrupt. -/
theorem Sound.isrRaw (h : s.Sound) (ht : (s.pc t).locked = false) {logBuf : List UInt8}
    (heq : s.isrRaw logBuf = some s') : (s'.setPc t .idle).Sound := by
  obtain ⟨puts, free, logs, hblocks⟩ := h.blocks
  have hlocker := h.calls.not_locker ht
  unfold RtUlog.isrRaw at heq
  cases hrb : s.asyncRb with
  | none =>
    rw [hrb] at heq
    cases heq
    refine ⟨⟨puts, free, logs, (h.not_locked ht .idle).symm ▸ hblocks⟩, h.placed, ?_, ?_⟩
    · exact h.calls.outside ht rfl rfl rfl rfl fun _ _ _ _ => rfl
    · exact h.noticed.keep rfl rfl id (pending_congr rfl hlocker rfl)
  | some rb =>
    rw [hrb] at heq
    obtain ⟨⟨s₁, writeIndex⟩, hput, heq⟩ := bind_eq_some_iff.mp heq
    obtain ⟨ring, -, hput⟩ := bind_eq_some_iff.mp hput
    obtain ⟨r, -, hr⟩ := map_eq_some_iff.mp hput
    cases hr
    obtain ⟨s₂, hindex, rfl⟩ := map_eq_some_iff.mp heq
    obtain ⟨ring', -, rfl⟩ := map_eq_some_iff.mp hindex
    have hfill : (s.setPc t .idle).filling = s.filling := filling_congr rfl hlocker rfl
    exact sound_release hfill hblocks h.placed
      (h.calls.outside ht rfl rfl rfl rfl fun _ _ _ _ => rfl)

variable {rings : List RtRingbuffer} {malloc : Bool}

section

variable (h : s.Sound) {n : Nat}
include h

/-- A call that does not hold the lock goes on, and leaves the blocks alone. -/
theorem Sound.goes_outside (ht : (s.pc t).locked = false) (hpc : pc.locked = false)
    {asyncRb : Option Nat}
    (hraw : HoldsRaw { s with rings := rings, asyncRb := asyncRb } → s.HoldsRaw) :
    (setPc { s with rings := rings, asyncRb := asyncRb } t pc).Sound := by
  obtain ⟨puts, free, logs, hblocks⟩ := h.blocks
  refine ⟨⟨puts, free, logs, (h.not_locked ht pc).symm ▸ hblocks⟩, h.placed, ?_, ?_⟩
  · exact h.calls.outside ht rfl rfl hpc rfl fun _ _ _ _ => rfl
  · refine h.noticed.keep rfl rfl (Or.imp_right hraw) ?_
    exact pending_congr rfl (h.calls.not_locker ht) rfl

theorem Sound.lock (heq : s.lock t pc = some s') (hlocked : pc.locked = true)
    (hfill : pc.filling = []) (hrecursion : pc.recursing = false) : s'.Sound := by
  unfold RtUlog.lock at heq
  split_ifs at heq with hs
  cases heq
  obtain ⟨puts, free, logs, hblocks⟩ := h.blocks
  have hnil : s.filling = [] := by rw [filling, hs, elim_none]
  refine ⟨⟨puts, free, logs, ?_⟩, h.placed, ?_, ?_⟩
  · have hfill' : filling { s.setPc t pc with outputLocker := some t } = [] := by
      rw [filling_eq rfl, setPc_self, hfill]
    rw [hfill', ← hnil]
    exact hblocks
  · refine h.calls.inside ?_ rfl rfl hlocked ?_ ?_
    · intro u hu
      cases hs.symm.trans hu
    · rw [hrecursion]
      have hflag := h.calls.recursion
      rw [hs, any_none] at hflag
      exact hflag
    · rintro n log rfl
      cases hfill
  · refine h.noticed.keep rfl rfl id ?_
    rintro ⟨u, hu, -⟩
    cases hs.symm.trans hu

/-- The thread that holds the lock goes on, and leaves the blocks alone. -/
theorem Sound.goes_inside (ht : s.outputLocker = some t) (hlocked : pc.locked = true)
    {recursion : Bool} (hfill : (s.pc t).filling = pc.filling)
    (hrecursion : recursion = pc.recursing)
    (hpacked : ∀ n log, pc = .putBlk n log → s.frames n = log.frame)
    (hnoticed : pc.pending = true ∨ (s.pc t).pending = false ∧ rings = s.rings) :
    Sound { s.setPc t pc with rings := rings, voutputRecursion := recursion } := by
  obtain ⟨puts, free, logs, hblocks⟩ := h.blocks
  refine ⟨⟨puts, free, logs, ?_⟩, h.placed, ?_, ?_⟩
  · have hfill' : filling { s.setPc t pc with rings := rings, voutputRecursion := recursion } =
        s.filling := by
      change (s.outputLocker.elim [] fun u => ((s.setPc t pc).pc u).filling) = s.filling
      rw [filling_eq ht, ht, elim_some, setPc_self, hfill]
    rw [hfill']
    exact hblocks
  · refine h.calls.inside ?_ ht rfl hlocked hrecursion hpacked
    intro u hu
    exact (some.inj (ht.symm.trans hu)).symm
  · obtain hpending | ⟨hpending, rfl⟩ := hnoticed
    · exact .of_pending ⟨t, ht, (congrArg _ (setPc_self s t pc)).trans hpending⟩
    · refine h.noticed.keep rfl rfl id fun hs => ?_
      rw [pending_iff ht, hpending] at hs
      cases hs

theorem Sound.allocate (hpc : s.pc t = .output log)
    (hbounded : Bounded s.asyncRbb (.alloc log.blkSize))
    {r : RtUlog τ × Option Nat} (heq : s.blkAlloc log = some r) :
    (match r.2 with
      | none => r.1.setPc t .clear
      | some n => r.1.setPc t (.package n log)).Sound := by
  obtain ⟨puts, free, logs, hblocks⟩ := h.blocks
  obtain ⟨ht, hrecursion, hfill⟩ := h.calls.inside_eq hpc rfl
  have honly : ∀ u, s.outputLocker = some u → u = t := fun u hu =>
    (some.inj (ht.symm.trans hu)).symm
  have hblocks₀ := hfill ▸ hblocks
  obtain ⟨⟨rbb, result⟩, hrbb, rfl⟩ := map_eq_some_iff.mp heq
  have hplaced := h.placed.call (a := .alloc _) log.blkSize_pos hbounded hrbb
  obtain ⟨hnone, free', hblocks'⟩ | ⟨n, free', hsome, hblocks'⟩ := hblocks₀.alloc log hrbb
  · obtain rfl : result = none := hnone
    refine ⟨⟨puts, free', logs, ?_⟩, hplaced, ?_, ?_⟩
    · have hfill' : (setPc { s with asyncRbb := rbb } t .clear).filling = [] := filling_setPc ht
      exact hfill' ▸ hblocks'
    · exact h.calls.inside honly ht rfl rfl hrecursion nofun
    · refine h.noticed.keep rfl rfl ?_ fun hs => ?_
      · exact Or.imp_left fun hput => hblocks.holdsPut_iff.mpr (hblocks'.holdsPut_iff.mp hput)
      · rw [pending_iff ht, hpc] at hs
        cases hs
  · obtain rfl : result = some n := hsome
    refine ⟨⟨puts, free', logs, ?_⟩, hplaced, ?_, ?_⟩
    · have hfill' : (setPc { s with asyncRbb := rbb, called := s.called ++ [log] } t
          (.package n log)).filling = [(n, log)] := filling_setPc ht
      exact hfill' ▸ hblocks'
    · exact h.calls.inside honly ht rfl rfl hrecursion nofun
    · exact .of_pending ⟨t, ht, congrArg _ (setPc_self _ t _)⟩

/-- A thread packages its log, and puts the block. -/
theorem Sound.package (hpc : s.pc t = .package n log) :
    ((s.package n log).setPc t (.putBlk n log)).Sound := by
  obtain ⟨puts, free, logs, hblocks⟩ := h.blocks
  obtain ⟨ht, hrecursion, hfill⟩ := h.calls.inside_eq hpc rfl
  refine ⟨⟨puts, free, logs, ?_⟩, h.placed, ?_, .of_pending ⟨t, ht, congrArg _ (setPc_self _ t _)⟩⟩
  · have hfill' : ((s.package n log).setPc t (.putBlk n log)).filling = [(n, log)] := filling_setPc ht
    have hblocks' := hfill ▸ hblocks
    exact hfill' ▸ hblocks'.package log.frame
  · refine h.calls.inside ?_ ht rfl rfl hrecursion ?_
    · exact fun u hu => (some.inj (ht.symm.trans hu)).symm
    · rintro _ _ ⟨⟩
      exact update_self ..

theorem Sound.putBlk (hpc : s.pc t = .putBlk n log)
    (heq : s.blkPut n = some s') : (s'.setPc t .notice).Sound := by
  obtain ⟨puts, free, logs, hblocks⟩ := h.blocks
  obtain ⟨ht, hrecursion, hfill⟩ := h.calls.inside_eq hpc rfl
  obtain ⟨rbb, hrbb, rfl⟩ := map_eq_some_iff.mp heq
  have hblocks' := hfill ▸ hblocks
  refine ⟨⟨puts ++ [n], free, logs ++ [log], ?_⟩, hblocks'.placed_put h.placed hrbb, ?_,
    .of_pending ⟨t, ht, congrArg _ (setPc_self _ t _)⟩⟩
  · have hfill' : (setPc { s with asyncRbb := rbb } t .notice).filling = [] := filling_setPc ht
    exact hfill' ▸ hblocks'.putFilled (h.calls.packed t n log hpc) hrbb
  · refine h.calls.inside ?_ ht rfl rfl hrecursion nofun
    exact fun u hu => (some.inj (ht.symm.trans hu)).symm

theorem Sound.release (ht : s.outputLocker = some t) (hlocked : pc.locked = true)
    (hfill : (s.pc t).filling = []) (hfill' : pc.filling = [])
    (hrecursion : pc.recursing = (s.pc t).recursing) : (s.semRelease.setPc t pc).Sound := by
  obtain ⟨puts, free, logs, hblocks⟩ := h.blocks
  have hnil := (filling_eq ht).trans hfill
  refine sound_release ?_ (hnil ▸ hblocks) h.placed ?_
  · exact (filling_setPc ht).trans hfill'
  · refine h.calls.inside ?_ ht rfl hlocked ?_ ?_
    · exact fun u hu => (some.inj (ht.symm.trans hu)).symm
    · exact (h.calls.recursion_eq ht).trans hrecursion.symm
    · rintro n log rfl
      cases hfill'

theorem Sound.unlock (hpc : s.pc t = .unlock) :
    Sound { s.setPc t .idle with outputLocker := none } := by
  obtain ⟨puts, free, logs, hblocks⟩ := h.blocks
  obtain ⟨ht, hrecursion, hfill⟩ := h.calls.inside_eq hpc rfl
  rw [hfill] at hblocks
  refine ⟨⟨puts, free, logs, hblocks⟩, h.placed, h.calls.unlock ht rfl rfl hrecursion, ?_⟩
  refine h.noticed.keep rfl rfl id fun hs => ?_
  rw [pending_iff ht, hpc] at hs
  cases hs

end

omit [DecidableEq τ] in
theorem not_holdsRaw_create (heq : s.ringCreate c malloc = some s') :
    ¬ s'.HoldsRaw ∧ ∃ rings asyncRb, s' = { s with rings := rings, asyncRb := asyncRb } := by
  cases malloc with
  | false =>
    cases heq
    exact ⟨nofun, s.rings, none, rfl⟩
  | true =>
    obtain ⟨ring, hring, rfl⟩ := map_eq_some_iff.mp heq
    refine ⟨?_, _, _, rfl⟩
    rintro ⟨rb, hrb, ring', hring', hlen⟩
    cases hrb
    rw [List.getElem?_concat_length] at hring'
    cases hring'
    unfold rtRingbufferInit at hring
    split_ifs at hring
    cases hring
    exact hlen rfl

theorem Sound.callerStep (h : s.Sound)
    (hbounded : ∀ log ∈ (s.pc t).allocates (c.isr t), Bounded s.asyncRbb (.alloc log.blkSize))
    (heq : s.callerStep c t malloc = some s') : s'.Sound := by
  unfold RtUlog.callerStep at heq
  cases hpc : s.pc t with
  | idle =>
    rw [hpc] at heq
    cases heq
  | voutput log =>
    rw [hpc] at heq hbounded
    dsimp only at heq
    split_ifs at heq with hisr
    · obtain ⟨s₁, hs₁, rfl⟩ := map_eq_some_iff.mp heq
      exact h.isrVoutput (by rw [hpc]; rfl) (hbounded log (if_pos hisr)) hs₁
    · exact h.lock heq rfl rfl rfl
  | recursion log =>
    obtain ⟨ht, hrecursion, -⟩ := h.calls.inside_eq hpc rfl
    rw [hpc] at heq
    rw [hrecursion] at heq
    cases heq
    exact h.goes_inside ht rfl (by rw [hpc]; rfl) rfl nofun (.inr ⟨by rw [hpc]; rfl, rfl⟩)
  | output log =>
    rw [hpc] at heq hbounded
    obtain ⟨r, hr, rfl⟩ := map_eq_some_iff.mp heq
    exact h.allocate hpc (hbounded log rfl) hr
  | package n log =>
    rw [hpc] at heq
    cases heq
    exact h.package hpc
  | putBlk n log =>
    rw [hpc] at heq
    obtain ⟨s₁, hs₁, rfl⟩ := map_eq_some_iff.mp heq
    exact h.putBlk hpc hs₁
  | notice | rawNotice =>
    obtain ⟨ht, -⟩ := h.calls.inside_eq hpc rfl
    rw [hpc] at heq
    cases heq
    exact h.release ht rfl (by rw [hpc]; rfl) rfl (by rw [hpc]; rfl)
  | clear =>
    obtain ⟨ht, -⟩ := h.calls.inside_eq hpc rfl
    rw [hpc] at heq
    cases heq
    exact h.goes_inside ht rfl (by rw [hpc]; rfl) rfl nofun (.inr ⟨by rw [hpc]; rfl, rfl⟩)
  | raw logBuf =>
    rw [hpc] at heq
    have hout : (s.pc t).locked = false := by rw [hpc]; rfl
    cases hrb : s.asyncRb with
    | none | some rb =>
      rw [hrb] at heq
      cases heq
      exact h.goes_outside hout rfl id
  | create logBuf =>
    rw [hpc] at heq
    obtain ⟨s₁, hs₁, rfl⟩ := map_eq_some_iff.mp heq
    obtain ⟨hraw, rings, asyncRb, rfl⟩ := not_holdsRaw_create hs₁
    exact h.goes_outside (by rw [hpc]; rfl) rfl fun hs => absurd hs hraw
  | rawLock logBuf =>
    rw [hpc] at heq
    dsimp only at heq
    split_ifs at heq with hisr
    · obtain ⟨s₁, hs₁, rfl⟩ := map_eq_some_iff.mp heq
      exact h.isrRaw (by rw [hpc]; rfl) hs₁
    · exact h.lock heq rfl rfl rfl
  | outputRaw logBuf =>
    obtain ⟨ht, hrecursion, -⟩ := h.calls.inside_eq hpc rfl
    rw [hpc] at heq
    cases hrb : s.asyncRb with
    | none =>
      rw [hrb] at heq
      cases heq
      exact h.goes_inside ht rfl (by rw [hpc]; rfl) hrecursion nofun
        (.inr ⟨by rw [hpc]; rfl, rfl⟩)
    | some rb =>
      rw [hrb] at heq
      cases heq
      exact h.goes_inside ht rfl (by rw [hpc]; rfl) hrecursion nofun (.inl rfl)
  | putRing logBuf =>
    obtain ⟨ht, hrecursion, -⟩ := h.calls.inside_eq hpc rfl
    rw [hpc] at heq
    obtain ⟨rb, -, heq⟩ := bind_eq_some_iff.mp heq
    obtain ⟨r, hput, rfl⟩ := map_eq_some_iff.mp heq
    obtain ⟨ring, -, hput⟩ := bind_eq_some_iff.mp hput
    obtain ⟨r', -, rfl⟩ := map_eq_some_iff.mp hput
    exact h.goes_inside ht rfl (by rw [hpc]; rfl) hrecursion nofun (.inl rfl)
  | putIndex rb writeIndex =>
    obtain ⟨ht, hrecursion, -⟩ := h.calls.inside_eq hpc rfl
    rw [hpc] at heq
    obtain ⟨s₁, hs₁, rfl⟩ := map_eq_some_iff.mp heq
    obtain ⟨ring, -, rfl⟩ := map_eq_some_iff.mp hs₁
    exact h.goes_inside ht rfl (by rw [hpc]; rfl) hrecursion nofun (.inl rfl)
  | unlock =>
    rw [hpc] at heq
    cases heq
    exact h.unlock hpc

omit [DecidableEq τ] in
/-- The output thread goes on without a block in its hand, and does not wait. -/
theorem Sound.reads (h : s.Sound) (hheld : s.out.held = []) (hunread : s.out.unread = [])
    (out : Out) (hheld' : out.held = []) (hunread' : out.unread = []) (hawake : out.waits = false)
    {entries : List Entry} (hentries : entries.filter (fun entry => !entry.isRaw) = s.framed) :
    Sound { s with rings := rings, entries := entries, out := out } := by
  obtain ⟨puts, free, logs, hblocks⟩ := h.blocks
  refine ⟨⟨puts, free, logs, ?_⟩, h.placed, ⟨h.calls.locked, h.calls.recursion, h.calls.packed⟩,
    .awake hawake⟩
  rw [← hentries] at hblocks
  exact hblocks.congr (hheld'.trans hheld.symm) (hunread'.trans hunread.symm)

omit [DecidableEq τ] in
theorem Sound.outStep (h : s.Sound) (hcareful : s.out.resets = true → s.Leftover → s.Pending)
    (heq : s.outStep malloc = some s') : s'.Sound := by
  obtain ⟨puts, free, logs, hblocks⟩ := h.blocks
  have hcalls : ∀ {out : Out} {rbb : RtRbb} {entries : List Entry} {notice : Nat},
      Calls { s with out := out, asyncRbb := rbb, entries := entries, asyncNotice := notice } :=
    fun {_ _ _ _} => ⟨h.calls.locked, h.calls.recursion, h.calls.packed⟩
  unfold RtUlog.outStep at heq
  cases hout : s.out with
  | start timed =>
    rw [hout] at heq
    dsimp only at heq
    split_ifs at heq
    · cases heq
      exact h.reads (by rw [hout]; rfl) (by rw [hout]; rfl) (.get timed) rfl rfl rfl rfl
    · cases heq
      exact h.reads (by rw [hout]; rfl) (by rw [hout]; rfl) (.reset timed) rfl rfl rfl rfl
  | get timed =>
    rw [hout] at heq hblocks
    obtain ⟨⟨rbb, logBlk⟩, hget, rfl⟩ := map_eq_some_iff.mp heq
    obtain ⟨hnone, -⟩ | ⟨n, rest, -, hsome, hblocks'⟩ := hblocks.get rfl rfl hget
    · cases hnone
      exact h.reads (by rw [hout]; rfl) (by rw [hout]; rfl) (.raw timed) rfl rfl rfl rfl
    · obtain rfl : logBlk = some n := hsome
      exact ⟨⟨rest, free, logs, hblocks' timed⟩, h.placed.call (a := .get) trivial trivial hget, hcalls, .awake rfl⟩
  | output timed n =>
    rw [hout] at heq hblocks
    obtain ⟨log, rest, -, hframe, hblocks'⟩ := hblocks.read
    have hmagic : (s.frames n).magic = ulogFrameMagic := by rw [hframe]; rfl
    dsimp only at heq
    rw [if_pos hmagic, hframe] at heq
    cases heq
    refine ⟨⟨puts, free, rest, ?_⟩, h.placed, hcalls, .awake rfl⟩
    have hframed : framed { s with
        entries := s.entries ++ [log.frame.entry], out := .free timed n } =
        s.framed ++ [log.frame.entry] := filter_append ..
    rw [hframed]
    exact hblocks'
  | free timed n =>
    rw [hout] at heq hblocks
    obtain ⟨rbb, hfree, rfl⟩ := map_eq_some_iff.mp heq
    exact ⟨⟨puts, n :: free, logs, hblocks.release hfree⟩, hblocks.placed_free h.placed hfree, hcalls, .awake rfl⟩
  | raw timed =>
    rw [hout] at heq
    dsimp only at heq
    split at heq
    · cases heq
      exact h.reads (by rw [hout]; rfl) (by rw [hout]; rfl) (.reset timed) rfl rfl rfl rfl
    · obtain ⟨ring, -, rfl⟩ := map_eq_some_iff.mp heq
      cases malloc with
      | false =>
        exact h.reads (by rw [hout]; rfl) (by rw [hout]; rfl) (.reset timed) rfl rfl rfl rfl
      | true =>
        exact h.reads (by rw [hout]; rfl) (by rw [hout]; rfl) (.getRing timed _) rfl rfl rfl rfl
  | getRing timed logLen =>
    rw [hout] at heq
    obtain ⟨rb, -, heq⟩ := bind_eq_some_iff.mp heq
    obtain ⟨r, hget, rfl⟩ := map_eq_some_iff.mp heq
    obtain ⟨ring, -, hget⟩ := bind_eq_some_iff.mp hget
    obtain ⟨r', -, rfl⟩ := map_eq_some_iff.mp hget
    exact h.reads (by rw [hout]; rfl) (by rw [hout]; rfl) (.getIndex timed _ _ _) rfl rfl rfl rfl
  | getIndex timed rb readIndex log =>
    rw [hout] at heq
    obtain ⟨s₁, hs₁, rfl⟩ := map_eq_some_iff.mp heq
    obtain ⟨ring, -, rfl⟩ := map_eq_some_iff.mp hs₁
    exact h.reads (by rw [hout]; rfl) (by rw [hout]; rfl) (.outputRaw timed log) rfl rfl rfl rfl
  | outputRaw timed log =>
    rw [hout] at heq
    cases heq
    refine h.reads (by rw [hout]; rfl) (by rw [hout]; rfl) (.reset timed) rfl rfl rfl ?_
    exact (filter_append ..).trans (append_nil _)
  | reset timed =>
    rw [hout] at heq hblocks
    cases heq
    refine ⟨⟨puts, free, logs, hblocks.congr rfl rfl⟩, h.placed, hcalls, ?_⟩
    refine ⟨fun _ _ hleft => ?_, fun _ => nofun⟩
    exact .inl (hcareful (by rw [hout]; rfl) hleft)
  | take timed =>
    rw [hout] at heq hblocks
    dsimp only at heq
    split_ifs at heq with hpos
    · cases heq
      exact ⟨⟨puts, free, logs, hblocks.congr rfl rfl⟩, h.placed, hcalls, .awake rfl⟩
    · cases heq
      refine ⟨⟨puts, free, logs, hblocks.congr rfl rfl⟩, h.placed, hcalls, fun _ => nofun, ?_⟩
      exact fun _ _ hleft => (h.noticed.take timed hout hleft).resolve_right hpos
  | suspended timed =>
    rw [hout] at heq
    cases heq

theorem Sound.exec (h : s.Sound) {a : Act τ} (hcareful : Careful c s a)
    (heq : RtUlog.exec c s a = some s') : s'.Sound := by
  cases a with
  | log t log | logRaw t logBuf =>
    simp only [RtUlog.exec] at heq
    split_ifs at heq with hidle
    cases heq
    exact h.goes_outside (by rw [hidle]; rfl) rfl id
  | caller t malloc => exact h.callerStep hcareful heq
  | out malloc => exact h.outStep hcareful heq
  | timeout =>
    simp only [RtUlog.exec] at heq
    split at heq
    · rename_i hout
      cases heq
      exact h.reads (by rw [hout]; rfl) (by rw [hout]; rfl) (.start false) rfl rfl rfl rfl
    · cases heq

omit [DecidableEq τ] in
theorem Initial.sound (h : s.Initial) : s.Sound := by
  obtain ⟨rbb, frames, hrbb, rfl⟩ := h
  refine ⟨⟨[], _, [], hrbb.lists, nofun, nofun, nofun, rfl, rfl⟩, hrbb.placed, ?_, .awake rfl⟩
  exact ⟨fun t => iff_of_false nofun nofun, rfl, nofun⟩

omit [DecidableEq τ] in
theorem Sound.drained (h : s.Sound) : s.Drained := by
  obtain ⟨puts, free, logs, hblocks⟩ := h.blocks
  obtain ⟨used, free', hlists, hgeometry⟩ := h.placed
  refine ⟨⟨used, hgeometry.separate hlists⟩, hblocks.called ▸ prefix_append _ _,
    fun hidle hsuspended => ?_⟩
  have hpending : ¬ s.Pending := by
    rintro ⟨t, -, ht⟩
    rw [hidle t] at ht
    cases ht
  obtain ⟨timed, hout⟩ : ∃ timed, s.out = .suspended timed := by
    cases hs : s.out with
    | suspended timed => exact ⟨timed, rfl⟩
    | _ =>
      rw [hs] at hsuspended
      cases hsuspended
  have hleft := mt (h.noticed.suspended timed hout) hpending
  rw [Leftover, not_or, hblocks.holdsPut_iff, not_not] at hleft
  obtain ⟨rfl, hraw⟩ := hleft
  refine ⟨mt hblocks.holdsPut_iff.mp (fun hne => hne rfl), hraw, ?_⟩
  have hlogs : logs = [] := by
    have hframes := hblocks.frames
    rw [hout] at hframes
    exact map_eq_nil_iff.mp hframes.symm
  have hnil : s.filling = [] := by
    unfold filling
    cases s.outputLocker with
    | none => rfl
    | some u =>
      rw [elim_some, hidle u]
      rfl
  rw [hblocks.called, hlogs, hnil]
  exact (append_nil _).symm

/-- In every run that resets the notice with care, the logs are output in the order of the calls, and
nothing is left once the output thread is suspended and no call is in progress. -/
theorem reachable_drained (s : RtUlog τ)
    (h : Reachable Initial (Within (fun s a s' => RtUlog.exec c s a = some s') (Careful c)) s) :
    s.Drained := by
  have hsound : s.Sound := by
    refine h.invariant (fun _ h₀ => h₀.sound) ?_
    intro s a s' _ hsound ⟨hcareful, hstep⟩
    exact hsound.exec hcareful hstep
  exact hsound.drained

/-- A thread logs to a buffer of 256 bytes with four descriptors. -/
def setup1 : Setup (Fin 1) := { bufSize := 256, isr := fun _ => false }

def ulog1 : RtUlog (Fin 1) :=
  { asyncEnabled := true
    asyncRbb := rtRbbInit 4096 256 (fun _ => { status := .unused, size := 0, buf := 0 }) 4
    frames := fun _ =>
      { magic := 0, isRaw := false, logLen := 0, level := 0, log := [], tag := [] }
    asyncRb := none, rings := [], asyncNotice := 0, outputLocker := none
    voutputRecursion := false, pc := fun _ => .idle, out := .start false, called := []
    entries := [] }

theorem ulog1_initial : ulog1.Initial :=
  ⟨_, _, ⟨4096, 256, _, 4, by decide, by decide, rfl⟩, rfl⟩

/-- A log of three characters. -/
def log1 : Log := { level := 6, tag := [77], text := [72, 105, 10], short := by decide }

/-- The thread logs while the output thread is suspended, which then outputs the log and is suspended
again. -/
theorem reachable_drained_once : ∃ s : RtUlog (Fin 1), (∀ t, s.pc t = .idle) ∧
    s.out = .suspended true ∧ s.framed = [log1.frame.entry] ∧ s.Drained := by
  have hrun : ∃ s ∈ runWithin (exec setup1) (Careful setup1) ulog1 (List.replicate 5 (.out true) ++
      ([.log 0 log1] : List (Act (Fin 1))) ++ List.replicate 8 (.caller 0 true) ++
      List.replicate 8 (.out true)),
      s.pc 0 = .idle ∧ s.out = .suspended true ∧ s.framed = [log1.frame.entry] := by decide +kernel
  obtain ⟨s, hs, heq⟩ := Reachable.of_runWithin ulog1_initial hrun
  have hdrained := reachable_drained s hs
  exact ⟨s, fun t => Subsingleton.elim 0 t ▸ heq.1, heq.2.1, heq.2.2, hdrained⟩

/-- The thread logs after the output thread has read the buffers, and the notice is reset. -/
theorem reset_not_drained : ∃ s : RtUlog (Fin 1),
    Reachable Initial (fun s a s' => exec setup1 s a = some s') s ∧ ¬ s.Drained := by
  have hrun : ∃ s ∈ runAll (exec setup1) ulog1 (List.replicate 3 (.out true) ++
      ([.log 0 log1] : List (Act (Fin 1))) ++ List.replicate 8 (.caller 0 true) ++
      List.replicate 2 (.out true)),
      s.pc 0 = .idle ∧ s.out = .suspended false ∧ HoldsPut s.asyncRbb := by decide +kernel
  obtain ⟨s, hs, hidle, hout, hput⟩ := Reachable.of_runAll ulog1_initial hrun
  refine ⟨s, hs, fun hdrained => ?_⟩
  have hall := hdrained.all (fun t => Subsingleton.elim 0 t ▸ hidle) (by rw [hout]; rfl)
  exact hall.1 hput

end RtUlog

end RtKernel.Ulog
