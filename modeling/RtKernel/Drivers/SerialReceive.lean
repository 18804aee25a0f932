import RtKernel.Drivers.SerialFifo

/-!
# What a serial device has received

With interrupt reception the buffer is a queue of one character less than its size,
and the oldest character makes room for a new one. With DMA reception it is a queue
of all its bytes, as long as no index goes beyond 16 bits.
-/

open Option
open Nat (mod_lt mod_eq_of_lt mod_add_mod add_assoc)

open List

namespace RtKernel.Serial

open RtSerialRxFifo Function

/-- The characters held after interrupts. -/
structure HoldsChars (n : Nat) (f : RtSerialRxFifo) (q : List UInt8) : Prop where
  bufsz : f.bufsz = n
  small : n < 2 ^ 16
  get_lt : f.getIndex < n
  put_eq : f.putIndex = (f.getIndex + q.length) % n
  length_lt : q.length < n
  items : ringItems f.buffer n f.getIndex q.length = q
  full : f.isFull = true → q.length + 1 = n

section

variable {n : Nat} {f : RtSerialRxFifo} {q : List UInt8} {buffer : Nat → UInt8} {x y z : Nat} {full : Bool}

theorem HoldsChars.put_lt (h : HoldsChars n f q) : f.putIndex < n := by
  rw [h.put_eq]
  exact mod_lt _ (Nat.zero_lt_of_lt h.get_lt)

/-- An index goes on at zero after the last position. -/
theorem index16_next {x : Nat} (hx : x < n) (hn : n < 2 ^ 16) :
    (if index16 (x + 1) ≥ n then 0 else index16 (x + 1)) = (x + 1) % n := by
  rw [index16, mod_eq_of_lt (by omega : x + 1 < 2 ^ 16)]
  exact ring_next hx

theorem ite_putIndex (c : Prop) [Decidable c] :
    (if c then RtSerialRxFifo.mk n buffer x z full else RtSerialRxFifo.mk n buffer y z full) =
      RtSerialRxFifo.mk n buffer (if c then x else y) z full := by
  split <;> rfl

theorem ite_getIndex (c : Prop) [Decidable c] :
    (if c then RtSerialRxFifo.mk n buffer z x full else RtSerialRxFifo.mk n buffer z y full) =
      RtSerialRxFifo.mk n buffer z (if c then x else y) full := by
  split <;> rfl

section

variable (h : HoldsChars n f q)
include h

/-- The buffer is empty where its indices agree, and they differ where it is full. -/
theorem HoldsChars.empty_iff (hn : 2 ≤ n) :
    (f.getIndex = f.putIndex ∧ f.isFull = false) ↔ q = [] := by
  have hput := h.put_eq
  have hget := h.get_lt
  have hlt := h.length_lt
  constructor
  · rintro ⟨heq, -⟩
    apply length_eq_zero_iff.mp
    rw [hput, ring_forward hget hlt.le] at heq
    split at heq <;> omega
  · rintro rfl
    refine ⟨?_, ?_⟩
    · rw [hput, length_nil, Nat.add_zero, mod_eq_of_lt hget]
    · cases hfull : f.isFull with
      | false => rfl
      | true =>
        have := h.full hfull
        rw [length_nil] at this
        omega

/-- When the device is full, the next position to write is the one before the oldest. -/
theorem HoldsChars.full_index (hfull : f.isFull = true) : f.getIndex = (f.putIndex + 1) % n := by
  have hlen := h.full hfull
  rw [h.put_eq, mod_add_mod, add_assoc, hlen, Nat.add_mod_right, mod_eq_of_lt h.get_lt]

/-- The length that is indicated is the number of characters held. -/
theorem HoldsChars.rxLength_eq : f.rxLength = q.length := by
  have hget := h.get_lt
  have hlt := h.length_lt
  have hput := h.put_eq
  rw [ring_forward hget hlt.le] at hput
  unfold rxLength
  rw [h.bufsz]
  split at hput <;> split <;> omega

/-- A character is appended, and takes the place of the oldest one when there is no room. -/
theorem HoldsChars.rxChar (hn : 2 ≤ n) (ch : UInt8) :
    HoldsChars n (f.rxChar ch) ((q ++ [ch]).drop (q.length + 1 - (n - 1))) := by
  have hput := h.put_lt
  have hget := h.get_lt
  have hlt := h.length_lt
  have hnext := index16_next hput h.small
  have hgetnext := index16_next hget h.small
  have hback : ringItems (update f.buffer f.putIndex ch) n f.getIndex (q.length + 1) =
      q ++ [ch] := by
    rw [h.put_eq, ringItems_back hlt, h.items]
  have hputnext : (f.putIndex + 1) % n = (f.getIndex + (q.length + 1)) % n := by
    rw [h.put_eq, mod_add_mod, add_assoc]
  by_cases hroom : q.length + 1 = n
  · have hmeet : (f.putIndex + 1) % n = f.getIndex := by
      rw [hputnext, hroom, Nat.add_mod_right, mod_eq_of_lt hget]
    have hdrop : q.length + 1 - (n - 1) = 1 := by omega
    have hlength : ((q ++ [ch]).drop 1).length = q.length := by simp
    have hf : f.rxChar ch =
        { f with
          buffer := update f.buffer f.putIndex ch
          putIndex := (f.putIndex + 1) % n
          getIndex := (f.getIndex + 1) % n
          isFull := true } := by
      simp only [RtSerialRxFifo.rxChar, ite_putIndex, ite_getIndex, h.bufsz, hnext,
        hgetnext, if_pos hmeet]
    rw [hdrop, hf]
    refine ⟨h.bufsz, h.small, mod_lt _ (by omega), ?_, ?_, ?_, fun _ => ?_⟩
    · show (f.putIndex + 1) % n = ((f.getIndex + 1) % n + ((q ++ [ch]).drop 1).length) % n
      rw [hlength, mod_add_mod, hputnext]
      congr 1
      omega
    · rw [hlength]
      exact hlt
    · show ringItems _ n ((f.getIndex + 1) % n) ((q ++ [ch]).drop 1).length = _
      rw [ringItems_mod, hlength, ← hback, drop_ringItems, Nat.add_sub_cancel]
    · rw [hlength]
      exact hroom
  · have hmeet : (f.putIndex + 1) % n ≠ f.getIndex := by
      rw [hputnext, ring_forward hget (by omega : q.length + 1 ≤ n)]
      split <;> omega
    have hdrop : q.length + 1 - (n - 1) = 0 := by omega
    have hf : f.rxChar ch =
        { f with
          buffer := update f.buffer f.putIndex ch
          putIndex := (f.putIndex + 1) % n } := by
      simp only [RtSerialRxFifo.rxChar, ite_putIndex, h.bufsz, hnext, if_neg hmeet]
    rw [hdrop, drop_zero, hf]
    refine ⟨h.bufsz, h.small, hget, ?_, ?_, ?_, fun hfull => ?_⟩
    · rw [length_append]
      exact hputnext
    · rw [length_append, length_singleton]
      omega
    · rw [length_append, length_singleton]
      exact hback
    · exact absurd (h.full hfull) hroom

/-- The oldest character is read, if there is one. -/
theorem HoldsChars.intRx (hn : 2 ≤ n) : (q = [] ∧ f.intRx = none) ∨
      ∃ ch rest f', q = ch :: rest ∧ f.intRx = some (f', ch) ∧ HoldsChars n f' rest := by
  have hempty := h.empty_iff hn
  have hget := h.get_lt
  cases q with
  | nil => exact .inl ⟨rfl, by rw [RtSerialRxFifo.intRx, if_pos (hempty.mpr rfl)]⟩
  | cons ch rest =>
    right
    have hlt := h.length_lt
    have hitems := h.items
    rw [length_cons, ringItems_succ, mod_eq_of_lt hget] at hitems
    obtain ⟨hch, hrest⟩ := List.cons.inj hitems
    have hnext := index16_next hget h.small
    refine ⟨ch, rest, { f with getIndex := (f.getIndex + 1) % n, isFull := false }, rfl, ?_, ?_⟩
    · rw [RtSerialRxFifo.intRx, if_neg (fun hno => cons_ne_nil _ _ (hempty.mp hno))]
      simp only [clearFull, ite_getIndex, h.bufsz, hnext, hch]
      cases hfull : f.isFull with
      | false => rw [if_neg Bool.false_ne_true]
      | true => rw [if_pos rfl]
    · refine ⟨h.bufsz, h.small, mod_lt _ (by omega), ?_, ?_, ?_, fun hno => absurd hno (by simp)⟩
      · show f.putIndex = ((f.getIndex + 1) % n + rest.length) % n
        rw [h.put_eq, mod_add_mod, length_cons, add_assoc, Nat.add_comm rest.length]
      · rw [length_cons] at hlt
        omega
      · show ringItems f.buffer n ((f.getIndex + 1) % n) rest.length = rest
        rw [ringItems_mod]
        exact hrest

end

end

/-- A call of `_serial_int_rx`: the length that is left, and the characters read. -/
structure IntRead where
  length : Nat
  data : List UInt8

/-- A receive buffer with its readers. -/
structure IntReceiver (τ : Type*) where
  rxFifo : RtSerialRxFifo
  reading : τ → Option IntRead
  /-- The calls that have returned, and what they returned. -/
  results : τ → List (List UInt8)
  /-- What the buffer has been asked, and what it has answered. -/
  trace : List (FifoEvent UInt8 × FifoAnswer UInt8)
  /-- Who has taken which character. -/
  taken : List (τ × UInt8)

/-- What can happen to a device that receives by interrupts. -/
inductive IntAct (τ : Type*)
  | rxInd (chars : List UInt8)
  | read (t : τ) (size : Nat)
  | turn (t : τ)

namespace IntReceiver

variable {τ : Type*} [DecidableEq τ]

/-- A read returns. -/
def finish (s : IntReceiver τ) (t : τ) (data : List UInt8) : IntReceiver τ :=
  { s with
    reading := update s.reading t none
    results := update s.results t (s.results t ++ [data]) }

def exec (s : IntReceiver τ) : IntAct τ → Option (IntReceiver τ)
  | .rxInd chars =>
    some { s with
      rxFifo := (s.rxFifo.rxInd chars).1
      trace := s.trace ++ chars.map fun ch => (.putForce [ch], { count := 1, items := [] }) }
  | .read t size =>
    if s.reading t = none then
      -- `rt_serial_read` returns at once when the size is zero
      if size = 0 then some (s.finish t [])
      else some { s with reading := update s.reading t (some { length := size, data := [] }) }
    else none
  | .turn t =>
    (s.reading t).map fun call =>
      if call.length = 0 then s.finish t call.data
      else
        match s.rxFifo.intRx with
        | none =>
          finish { s with trace := s.trace ++ [(.get 1, { count := 0, items := [] })] } t call.data
        | some (rxFifo, ch) =>
          { s with
            rxFifo := rxFifo
            reading := update s.reading t
              (some { length := call.length - 1, data := call.data ++ [ch] })
            trace := s.trace ++ [(.get 1, { count := 1, items := [ch] })]
            taken := s.taken ++ [(t, ch)] }

/-- A device that has just been opened. -/
def Initial (bufsz : Nat) (s : IntReceiver τ) : Prop :=
  s = { rxFifo := rxFifoInit bufsz, reading := fun _ => none, results := fun _ => [], trace := []
        taken := [] }

/-- All that a thread has read so far. -/
def received (s : IntReceiver τ) (t : τ) : List UInt8 :=
  (s.results t).flatten ++ ((s.reading t).map IntRead.data).getD []

/-- The buffer is a queue, and its characters go to the readers. -/
structure Orderly (bufsz : Nat) (s : IntReceiver τ) : Prop where
  queue : ∃ held, Fifo.Answers (bufsz - 1) s.trace held ∧ HoldsChars bufsz s.rxFifo held
  taken : s.taken.map Prod.snd = s.trace.flatMap fun e => e.2.items
  received : ∀ t, s.received t = (s.taken.filter fun e => e.1 = t).map Prod.snd

section

variable {bufsz : Nat} {s : IntReceiver τ} {call : IntRead}

/-- A read that returns keeps what the thread has read. -/
theorem received_finish {t : τ} (h : s.reading t = some call) (u : τ) :
    (s.finish t call.data).received u = s.received u := by
  unfold IntReceiver.received finish
  by_cases hu : u = t
  · subst hu
    simp [h]
  · simp [hu]

theorem Orderly.finish (h : Orderly bufsz s) {t : τ}
    (hcall : s.reading t = some call) : Orderly bufsz (s.finish t call.data) :=
  ⟨h.queue, h.taken, fun u => by rw [received_finish hcall]; exact h.received u⟩

theorem Initial.orderly (h : Initial bufsz s) (hmin : 2 ≤ bufsz) (hmax : bufsz < 2 ^ 16) :
    Orderly bufsz s := by
  subst h
  constructor
  · refine ⟨[], .start, rfl, hmax, by show 0 < bufsz; omega, ?_, by show 0 < bufsz; omega, rfl, ?_⟩
    · show 0 = (0 + 0) % bufsz
      rw [Nat.zero_mod]
    · exact fun hfull => absurd hfull Bool.false_ne_true
  · rfl
  · exact fun _ => rfl

/-- The characters of an interrupt are forced into the queue one after the other. -/
theorem chars_queue (hmin : 2 ≤ bufsz) {f : RtSerialRxFifo} (chars : List UInt8)
    {trace : List (FifoEvent UInt8 × FifoAnswer UInt8)} {held : List UInt8}
    (hanswers : Fifo.Answers (bufsz - 1) trace held) (hholds : HoldsChars bufsz f held) :
    ∃ held', Fifo.Answers (bufsz - 1)
        (trace ++ chars.map fun ch => (.putForce [ch], { count := 1, items := [] })) held' ∧
      HoldsChars bufsz (chars.foldl RtSerialRxFifo.rxChar f) held' := by
  induction chars generalizing f trace held with
  | nil => exact ⟨held, by rwa [map_nil, append_nil], hholds⟩
  | cons ch rest ih =>
    have hserves := Fifo.Serves.putForce (n := bufsz - 1) (q := held) [ch]
    rw [length_singleton, Nat.min_eq_left (by omega)] at hserves
    obtain ⟨held', hanswers', hholds'⟩ := ih (hanswers.next hserves) (hholds.rxChar hmin ch)
    rw [append_assoc] at hanswers'
    exact ⟨held', hanswers', hholds'⟩

theorem Orderly.exec (h : Orderly bufsz s) (hmin : 2 ≤ bufsz) {a : IntAct τ} {s' : IntReceiver τ}
    (hexec : exec s a = some s') : Orderly bufsz s' := by
  obtain ⟨held, hanswers, hholds⟩ := h.queue
  cases a with
  | rxInd chars =>
    cases hexec
    refine ⟨chars_queue hmin chars hanswers hholds, ?_, h.received⟩
    have hnone : ∀ chars : List UInt8,
        ((chars.map fun ch =>
          ((FifoEvent.putForce [ch], { count := 1, items := [] }) :
            FifoEvent UInt8 × FifoAnswer UInt8)).flatMap fun e => e.2.items) = [] := by
      intro chars
      simp [flatMap_map]
    rw [flatMap_append, hnone, append_nil]
    exact h.taken
  | read t size =>
    obtain ⟨hidle, hexec⟩ := ite_none_right_eq_some.mp hexec
    by_cases hsize : size = 0
    · rw [if_pos hsize] at hexec
      cases hexec
      refine ⟨h.queue, h.taken, fun u => ?_⟩
      rw [show (s.finish t []).taken = s.taken from rfl, ← h.received u]
      unfold IntReceiver.received IntReceiver.finish
      by_cases hu : u = t
      · subst hu
        simp [hidle]
      · simp [hu]
    · rw [if_neg hsize] at hexec
      cases hexec
      refine ⟨h.queue, h.taken, fun u => ?_⟩
      rw [← h.received u]
      unfold IntReceiver.received
      by_cases hu : u = t
      · subst hu
        simp [hidle]
      · simp [hu]
  | turn t =>
    obtain ⟨call, hcall, hexec⟩ := map_eq_some_iff.mp hexec
    by_cases hlength : call.length = 0
    · rw [if_pos hlength] at hexec
      subst hexec
      exact h.finish hcall
    · rw [if_neg hlength] at hexec
      rcases hholds.intRx hmin with ⟨rfl, hnone⟩ | ⟨ch, rest, f', rfl, hsome, hholds'⟩
      · rw [hnone] at hexec
        subst hexec
        have hasked : Orderly bufsz
            { s with trace := s.trace ++ [(.get 1, { count := 0, items := [] })] } := by
          refine ⟨⟨[], hanswers.next (.get 1), hholds⟩, ?_, h.received⟩
          simpa using h.taken
        exact hasked.finish hcall
      · rw [hsome] at hexec
        subst hexec
        refine ⟨⟨rest, ?_, hholds'⟩, ?_, fun u => ?_⟩
        · have hserves := Fifo.Serves.get (n := bufsz - 1) (q := ch :: rest) 1
          exact hanswers.next hserves
        · simp [h.taken]
        · have hreceived := h.received u
          unfold IntReceiver.received at hreceived ⊢
          by_cases hu : u = t
          · subst hu
            simp only [hcall, map_some, getD_some] at hreceived
            simp [← hreceived]
          · simp [hu, Ne.symm hu, ← hreceived]

/-- After any interrupts and reads the buffer has answered as a queue that gives up its oldest
character on overflow, and each thread has read what it has taken, in this order. -/
theorem reachable_queue (hmin : 2 ≤ bufsz) (hmax : bufsz < 2 ^ 16)
    (h : Reachable (Initial bufsz) (fun (s : IntReceiver τ) a t => exec s a = some t) s) :
    (∃ held, Fifo.Answers (bufsz - 1) s.trace held ∧
      ringItems s.rxFifo.buffer bufsz s.rxFifo.getIndex held.length = held ∧
      s.rxFifo.rxLength = held.length) ∧
    s.rxFifo.putIndex < bufsz ∧ s.rxFifo.getIndex < bufsz ∧
    (s.rxFifo.isFull = true → s.rxFifo.getIndex = (s.rxFifo.putIndex + 1) % bufsz) ∧
    s.taken.map Prod.snd = (s.trace.flatMap fun e => e.2.items) ∧
    (∀ t, s.received t = (s.taken.filter fun e => e.1 = t).map Prod.snd) := by
  have horderly : Orderly bufsz s :=
    h.invariant (fun _ h₀ => h₀.orderly hmin hmax) fun _ _ _ _ ih hexec => ih.exec hmin hexec
  obtain ⟨held, hanswers, hholds⟩ := horderly.queue
  exact ⟨⟨held, hanswers, hholds.items, hholds.rxLength_eq⟩, hholds.put_lt, hholds.get_lt,
    hholds.full_index, horderly.taken, horderly.received⟩

/-- A device with three positions that has just been opened. -/
def opened : IntReceiver (Fin 2) where
  rxFifo := rxFifoInit 3
  reading := fun _ => none
  results := fun _ => []
  trace := []
  taken := []

/-- Of three characters two are kept, which two threads read in turn. -/
theorem reachable_queue_three : ∃ s : IntReceiver (Fin 2),
    (s.received 0 = [2] ∧ s.received 1 = [3]) ∧
      ((∃ held, Fifo.Answers 2 s.trace held ∧
        ringItems s.rxFifo.buffer 3 s.rxFifo.getIndex held.length = held ∧
        s.rxFifo.rxLength = held.length) ∧
      s.rxFifo.putIndex < 3 ∧ s.rxFifo.getIndex < 3 ∧
      (s.rxFifo.isFull = true → s.rxFifo.getIndex = (s.rxFifo.putIndex + 1) % 3) ∧
      s.taken.map Prod.snd = (s.trace.flatMap fun e => e.2.items) ∧
      (∀ t, s.received t = (s.taken.filter fun e => e.1 = t).map Prod.snd)) := by
  have hrun : ∃ s ∈ runAll exec opened [.read 0 5, .rxInd [1, 2, 3], .turn 0, .read 1 1, .turn 1,
      .turn 1, .turn 0],
      s.received 0 = [2] ∧ s.received 1 = [3] := by decide +kernel
  have hstart : Initial 3 opened := rfl
  obtain ⟨s, hreach, hread⟩ := Reachable.of_runAll hstart hrun
  exact ⟨s, hread, reachable_queue (by decide) (by decide) hreach⟩

end

end IntReceiver

/-- The bytes held after events of the DMA. -/
structure HoldsBytes (n : Nat) (f : RtSerialRxFifo) (q : List UInt8) : Prop where
  bufsz : f.bufsz = n
  get_lt : f.getIndex < n
  put_eq : f.putIndex = (f.getIndex + q.length) % n
  length_le : q.length ≤ n
  items : ringItems f.buffer n f.getIndex q.length = q
  full : f.isFull = true ↔ q.length = n

section

variable {n : Nat} {f : RtSerialRxFifo} {q : List UInt8}

section

variable (h : HoldsBytes n f q) {len : Nat}
include h

theorem HoldsBytes.put_lt : f.putIndex < n := by
  rw [h.put_eq]
  exact mod_lt _ (Nat.zero_lt_of_lt h.get_lt)

/-- Where the put index is, seen from the get index. -/
theorem HoldsBytes.put_cases : (q.length < n - f.getIndex ∧ f.putIndex = f.getIndex + q.length) ∨
      (n - f.getIndex ≤ q.length ∧ f.putIndex + n = f.getIndex + q.length) := by
  have hget := h.get_lt
  have hput := h.put_eq
  rw [ring_forward hget h.length_le] at hput
  split at hput <;> omega

theorem HoldsBytes.recvedLen_eq : f.rtDmaCalcRecvedLen = q.length := by
  have hle := h.length_le
  have hfull := h.full
  have hput := h.put_cases
  unfold rtDmaCalcRecvedLen serialFifoCalcRecvedLen
  rw [h.bufsz]
  by_cases heq : f.putIndex = f.getIndex
  · rw [if_pos heq]
    cases hf : f.isFull with
    | false =>
      have hne : q.length ≠ n := fun hlen => by
        rw [hf] at hfull
        exact Bool.false_ne_true (hfull.mpr hlen)
      rw [if_pos rfl]
      omega
    | true =>
      exact (hfull.mp hf).symm
  · rw [if_neg heq]
    split <;> omega

/-- An event that leaves room counts the put index on. -/
theorem HoldsBytes.update_room (hword : f.putIndex + len < 2 ^ 16) (hroom : q.length + len < n) :
    f.rtDmaRecvUpdatePutIndex len = { f with putIndex := (f.putIndex + len) % n } := by
  have hget := h.get_lt
  have hcases := h.put_cases
  have hfull : f.isFull = false := Bool.eq_false_iff.mpr fun hf => by
    have hlen := h.full.mp hf
    omega
  unfold rtDmaRecvUpdatePutIndex overwriteGetIndex
  simp only [index16, mod_eq_of_lt hword, h.bufsz]
  by_cases hle : f.getIndex ≤ f.putIndex
  · simp only [if_pos hle]
    by_cases hend : f.putIndex + len ≥ n
    · have hbehind : ¬ (f.putIndex + len) % n ≥ f.getIndex := by
        rw [Nat.mod_eq_sub_mod hend, mod_eq_of_lt (by omega)]
        omega
      simp only [if_pos hend, if_neg hbehind, hfull, if_neg Bool.false_ne_true]
    · simp only [if_neg hend, mod_eq_of_lt (Nat.lt_of_not_le hend), hfull,
        if_neg Bool.false_ne_true]
  · have hbehind : ¬ f.putIndex + len ≥ f.getIndex := by omega
    simp only [if_neg hle, if_neg hbehind, hfull, if_neg Bool.false_ne_true,
      mod_eq_of_lt (by omega : f.putIndex + len < n)]

/-- An event that leaves none moves both indices to the position after the last byte. -/
theorem HoldsBytes.update_full (hlen : len ≤ n)
    (hword : f.putIndex + len < 2 ^ 16) (hover : n ≤ q.length + len) :
    f.rtDmaRecvUpdatePutIndex len =
      { f with
        putIndex := (f.putIndex + len) % n
        getIndex := (f.putIndex + len) % n
        isFull := true } := by
  have hput := h.put_lt
  have hcases := h.put_cases
  have hlength := h.length_le
  unfold rtDmaRecvUpdatePutIndex overwriteGetIndex
  simp only [index16, mod_eq_of_lt hword, h.bufsz]
  by_cases hle : f.getIndex ≤ f.putIndex
  · simp only [if_pos hle]
    by_cases hend : f.putIndex + len ≥ n
    · by_cases hbehind : (f.putIndex + len) % n ≥ f.getIndex
      · simp only [if_pos hend, if_pos hbehind, if_true]
      · -- it was full before, and the event does not reach the get index
        have hfull : f.isFull = true := h.full.mpr (by
          rw [Nat.mod_eq_sub_mod hend, mod_eq_of_lt (by omega)] at hbehind
          omega)
        simp only [if_pos hend, if_neg hbehind, hfull, if_true]
    · have hfull : f.isFull = true := h.full.mpr (by omega)
      simp only [if_neg hend, mod_eq_of_lt (Nat.lt_of_not_le hend), hfull, if_true]
  · have hbehind : f.putIndex + len ≥ f.getIndex := by omega
    simp only [if_neg hle, if_pos hbehind, if_true]
    by_cases hend : f.putIndex + len ≥ n
    · simp only [if_pos hend]
    · simp only [if_neg hend, mod_eq_of_lt (Nat.lt_of_not_le hend)]

/-- The reported bytes are appended, and the last ones are kept. -/
theorem HoldsBytes.rxDmadone {bytes : List UInt8} (hlen : bytes.length ≤ n)
    (hword : f.putIndex + bytes.length < 2 ^ 16) :
    HoldsBytes n (f.rxDmadone bytes).1 ((q ++ bytes).drop (q.length + bytes.length - n)) := by
  have hget := h.get_lt
  have hlength := h.length_le
  have hstore : ∀ d, q.length + bytes.length - n ≤ d → d ≤ q.length + bytes.length →
      ringItems (ringStore f.buffer n f.putIndex bytes) n (f.getIndex + d)
        (q.length + bytes.length - d) = (q ++ bytes).drop d := by
    intro d hd hle
    rw [h.put_eq, ringStore_mod, ringItems_store f.buffer bytes hlength hlen hd hle, h.items]
  have hwritten : HoldsBytes n { f with buffer := ringStore f.buffer n f.putIndex bytes }
      (ringItems (ringStore f.buffer n f.putIndex bytes) n f.getIndex q.length) := by
    refine ⟨h.bufsz, hget, ?_, ?_, ?_, ?_⟩ <;> rw [length_ringItems]
    · exact h.put_eq
    · exact hlength
    · exact h.full
  have hnext : (f.putIndex + bytes.length) % n = (f.getIndex + (q.length + bytes.length)) % n := by
    rw [h.put_eq, mod_add_mod, add_assoc]
  have hsize : ringStore f.buffer f.bufsz f.putIndex bytes =
      ringStore f.buffer n f.putIndex bytes := by
    rw [h.bufsz]
  unfold RtSerialRxFifo.rxDmadone
  simp only [hsize]
  by_cases hover : n ≤ q.length + bytes.length
  · obtain ⟨d, hd⟩ := Nat.exists_eq_add_of_le hover
    have hsub : q.length + bytes.length - n = d := by omega
    have hrest : q.length + bytes.length - d = n := by omega
    have hkept : ((q ++ bytes).drop d).length = n := by
      rw [length_drop, length_append, hrest]
    have hitems := hstore d hsub.le (by omega)
    rw [hrest] at hitems
    have hposition : (f.getIndex + (q.length + bytes.length)) % n = (f.getIndex + d) % n := by
      rw [hd, Nat.add_left_comm, Nat.add_mod_left]
    rw [hwritten.update_full hlen hword (by rwa [length_ringItems]), hsub]
    refine ⟨h.bufsz, mod_lt _ (Nat.zero_lt_of_lt hget), ?_, hkept.le, ?_, ?_⟩
    · rw [hkept, Nat.add_mod_right, Nat.mod_mod]
    · rw [hkept, hnext, hposition, ringItems_mod]
      exact hitems
    · exact ⟨fun _ => hkept, fun _ => rfl⟩
  · have hsub : q.length + bytes.length - n = 0 := by omega
    have hkept : (q ++ bytes).length = q.length + bytes.length := length_append
    rw [hwritten.update_room hword (by rw [length_ringItems]; omega), hsub, drop_zero]
    refine ⟨h.bufsz, hget, ?_, ?_, ?_, ?_⟩ <;> rw [hkept]
    · exact hnext
    · omega
    · exact hstore 0 hsub.le (Nat.zero_le _)
    · exact ⟨fun hf => absurd (h.full.mp hf) (by omega), fun hlen => absurd hlen (by omega)⟩

theorem HoldsBytes.copyOut {p m : Nat} (hend : p + m ≤ n) :
    f.copyOut p m = some (ringItems f.buffer n p m) := by
  rw [RtSerialRxFifo.copyOut, h.bufsz, if_pos hend, ringItems_eq hend]

/-- The get index counts on, where it stays in 16 bits. -/
theorem HoldsBytes.updateGetIndex (hlen : len ≤ q.length) (hword : f.getIndex + len < 2 ^ 16) :
    ∃ f', f.rtDmaRecvUpdateGetIndex len = some f' ∧ HoldsBytes n f' (q.drop len) := by
  have hget := h.get_lt
  have hlength := h.length_le
  have hwrap : (if f.getIndex + len ≥ n then (f.getIndex + len) % n else f.getIndex + len) =
      (f.getIndex + len) % n := by
    split
    · rfl
    · rw [mod_eq_of_lt (by omega)]
  refine ⟨{ f with
    getIndex := (f.getIndex + len) % n
    isFull := if f.isFull = true ∧ len ≠ 0 then false else f.isFull }, ?_, ?_⟩
  · rw [rtDmaRecvUpdateGetIndex, h.recvedLen_eq, if_pos hlen]
    simp only [index16]
    by_cases hfull : f.isFull = true ∧ len ≠ 0
    · simp only [if_pos hfull, mod_eq_of_lt hword, h.bufsz, ite_getIndex, hwrap]
    · simp only [if_neg hfull, mod_eq_of_lt hword, h.bufsz, ite_getIndex, hwrap]
  · refine ⟨h.bufsz, mod_lt _ (Nat.zero_lt_of_lt hget), ?_, ?_, ?_, ?_⟩ <;>
      rw [length_drop]
    · show f.putIndex = ((f.getIndex + len) % n + (q.length - len)) % n
      rw [h.put_eq, mod_add_mod, add_assoc, Nat.add_sub_cancel' hlen]
    · omega
    · show ringItems f.buffer n ((f.getIndex + len) % n) (q.length - len) = q.drop len
      rw [ringItems_mod, ← drop_ringItems, h.items]
    · show (if f.isFull = true ∧ len ≠ 0 then false else f.isFull) = true ↔ q.length - len = n
      by_cases hfull : f.isFull = true ∧ len ≠ 0
      · rw [if_pos hfull]
        exact ⟨fun hno => absurd hno Bool.false_ne_true, fun heq => by omega⟩
      · rw [if_neg hfull, h.full]
        by_cases hzero : len = 0
        · rw [hzero, Nat.sub_zero]
        · have hnot : q.length ≠ n := fun heq => hfull ⟨h.full.mpr heq, hzero⟩
          omega

/-- The oldest bytes are read, where the size is one of an `int` and the index stays in 16 bits. -/
theorem HoldsBytes.serialDmaRx {size : Nat} (hsize : size < 2 ^ 31)
    (hword : f.getIndex + min size q.length < 2 ^ 16) :
    ∃ f', f.serialDmaRx size = some (f', q.take size) ∧ HoldsBytes n f' (q.drop size) := by
  have hget := h.get_lt
  have hlength := h.length_le
  have hrecv : (if toInt size < (q.length : Int) then size else q.length) = min size q.length := by
    rw [toInt, if_pos hsize]
    split <;> omega
  have hitems : ∀ m ≤ q.length, ringItems f.buffer n f.getIndex m = q.take m := by
    intro m hm
    rw [← take_ringItems hm, h.items]
  obtain ⟨f', hupdate, hholds⟩ := h.updateGetIndex (Nat.min_le_right size q.length) hword
  rw [← drop_eq_drop_min] at hholds
  refine ⟨f', ?_, hholds⟩
  have hdata := hitems (min size q.length) (Nat.min_le_right size q.length)
  rw [← take_eq_take_min] at hdata
  unfold RtSerialRxFifo.serialDmaRx
  simp only [h.recvedLen_eq, hrecv, h.bufsz]
  by_cases hend : f.getIndex + min size q.length < n
  · rw [if_pos hend, h.copyOut hend.le, hdata, bind_some, hupdate, map_some]
  · have hparts : min size q.length =
        n - f.getIndex + (min size q.length + f.getIndex - n) := by
      omega
    have hrest : ringItems f.buffer n (f.getIndex + (n - f.getIndex))
        (min size q.length + f.getIndex - n) =
          ringItems f.buffer n 0 (min size q.length + f.getIndex - n) := by
      rw [Nat.add_sub_cancel' hget.le, ← ringItems_mod, Nat.mod_self]
    rw [hparts, ringItems_add, hrest] at hdata
    rw [if_neg hend, h.copyOut (by omega), bind_some, h.copyOut (by omega), map_some,
      hdata, bind_some, hupdate, map_some]

end

end

/-- A receive buffer with its history. -/
structure DmaReceiver where
  rxFifo : RtSerialRxFifo
  trace : List (FifoEvent UInt8 × FifoAnswer UInt8)

/-- What can happen to a device that receives by DMA. -/
inductive DmaAct
  | rxDmadone (bytes : List UInt8)
  | read (size : Nat)

namespace DmaReceiver

def exec (s : DmaReceiver) : DmaAct → Option DmaReceiver
  | .rxDmadone bytes =>
    -- the DMA has written one byte at least, and no more than once around
    if bytes ≠ [] ∧ bytes.length ≤ s.rxFifo.bufsz then
      some
        { rxFifo := (s.rxFifo.rxDmadone bytes).1
          trace := s.trace ++ [(.putForce bytes, { count := bytes.length, items := [] })] }
    else none
  | .read size =>
    if size = 0 then some { s with trace := s.trace ++ [(.get 0, { count := 0, items := [] })] }
    else
      (s.rxFifo.serialDmaRx size).map fun (rxFifo, data) =>
        { rxFifo := rxFifo
          trace := s.trace ++ [(.get size, { count := data.length, items := data })] }

/-- A device that has just been opened. -/
def Initial (bufsz : Nat) (s : DmaReceiver) : Prop := s = { rxFifo := rxFifoInit bufsz, trace := [] }

/-- No index goes beyond 16 bits, and the size is one of an `int`. -/
def Careful (s : DmaReceiver) : DmaAct → Prop
  | .rxDmadone bytes => s.rxFifo.putIndex + bytes.length < 2 ^ 16
  | .read size => size < 2 ^ 31 ∧ s.rxFifo.getIndex + min size s.rxFifo.rtDmaCalcRecvedLen < 2 ^ 16

instance (s : DmaReceiver) (a : DmaAct) : Decidable (Careful s a) :=
  match a with
  | .rxDmadone bytes => inferInstanceAs (Decidable (s.rxFifo.putIndex + bytes.length < 2 ^ 16))
  | .read size =>
    inferInstanceAs
      (Decidable (size < 2 ^ 31 ∧ s.rxFifo.getIndex + min size s.rxFifo.rtDmaCalcRecvedLen < 2 ^ 16))

/-- The buffer has answered as a queue of `bufsz` bytes, and counts what that queue holds. -/
def Counted (bufsz : Nat) (s : DmaReceiver) : Prop :=
  ∃ held, Fifo.Answers bufsz s.trace held ∧ s.rxFifo.rtDmaCalcRecvedLen = held.length

/-- The bytes held are those of a queue that gave the same answers. -/
def Refines (bufsz : Nat) (s : DmaReceiver) : Prop :=
  ∃ held, Fifo.Answers bufsz s.trace held ∧ HoldsBytes bufsz s.rxFifo held

variable {bufsz : Nat} {s t : DmaReceiver}

theorem Initial.refines (h : Initial bufsz s) (hmin : 2 ≤ bufsz) : Refines bufsz s := by
  subst h
  refine ⟨[], .start, rfl, by show 0 < bufsz; omega, ?_, Nat.zero_le _, rfl, ?_⟩
  · show 0 = (0 + 0) % bufsz
    rw [Nat.zero_mod]
  · exact ⟨fun hno => absurd hno Bool.false_ne_true, fun hlen => by
      rw [length_nil] at hlen
      omega⟩

theorem Refines.exec {a : DmaAct} (h : Refines bufsz s) (hcareful : Careful s a)
    (hexec : exec s a = some t) : Refines bufsz t := by
  obtain ⟨held, hanswers, hholds⟩ := h
  cases a with
  | rxDmadone bytes =>
    obtain ⟨⟨-, hlen⟩, hexec⟩ := ite_none_right_eq_some.mp hexec
    cases hexec
    rw [hholds.bufsz] at hlen
    have hserves := Fifo.Serves.putForce (n := bufsz) (q := held) bytes
    rw [Nat.min_eq_left hlen] at hserves
    exact ⟨_, hanswers.next hserves, hholds.rxDmadone hlen hcareful⟩
  | read size =>
    by_cases hsize : size = 0
    · rw [DmaReceiver.exec, if_pos hsize] at hexec
      cases hexec
      have hserves := Fifo.Serves.get (n := bufsz) (q := held) 0
      exact ⟨_, hanswers.next hserves, hholds⟩
    · obtain ⟨hint, hword⟩ := hcareful
      rw [hholds.recvedLen_eq] at hword
      obtain ⟨f', hread, hholds'⟩ := hholds.serialDmaRx hint hword
      rw [DmaReceiver.exec, if_neg hsize, hread] at hexec
      cases hexec
      refine ⟨_, hanswers.next ?_, hholds'⟩
      rw [length_take]
      exact .get size

/-- As long as no index goes beyond 16 bits the buffer answers as a queue that keeps its last
bytes, and every read is answered. -/
theorem reachable_counted (hmin : 2 ≤ bufsz)
    (h : Reachable (Initial bufsz) (Within (fun s a t => exec s a = some t) Careful) s) :
    Counted bufsz s ∧ ∀ size, Careful s (.read size) → ∃ t, exec s (.read size) = some t := by
  have hrefines : Refines bufsz s :=
    h.invariant (fun _ h₀ => h₀.refines hmin) fun _ _ _ _ ih hstep => ih.exec hstep.1 hstep.2
  obtain ⟨held, hanswers, hholds⟩ := hrefines
  refine ⟨⟨held, hanswers, hholds.recvedLen_eq⟩, fun size hcareful => ?_⟩
  by_cases hsize : size = 0
  · exact ⟨_, by rw [exec, if_pos hsize]⟩
  · obtain ⟨hint, hword⟩ := hcareful
    rw [hholds.recvedLen_eq] at hword
    obtain ⟨f', hread, -⟩ := hholds.serialDmaRx hint hword
    exact ⟨_, by rw [exec, if_neg hsize, hread]; rfl⟩

/-- Five bytes go into a buffer of four, and all that it holds is read. -/
theorem reachable_counted_four : ∃ s : DmaReceiver,
    s.trace.map (fun e => e.2.items) = [[], [1], [], [3, 4, 5, 6]] ∧
      Counted 4 s ∧ ∀ size, Careful s (.read size) → ∃ t, exec s (.read size) = some t := by
  have hrun : ∃ s ∈ runWithin exec Careful { rxFifo := rxFifoInit 4, trace := [] } [.rxDmadone [1,
      2, 3], .read 1, .rxDmadone [4, 5, 6], .read 9],
      s.trace.map (fun e => e.2.items) = [[], [1], [], [3, 4, 5, 6]] := by decide +kernel
  have hstart : Initial 4 { rxFifo := rxFifoInit 4, trace := [] } := rfl
  obtain ⟨s, hreach, htrace⟩ := Reachable.of_runWithin hstart hrun
  exact ⟨s, htrace, reachable_counted (by decide) hreach⟩

/-- Two events that take the put index of a buffer of 65535 bytes beyond 16 bits. -/
theorem exec_beyond {a b : List UInt8} (ha : a.length = 40000) (hb : b.length = 30000) :
    ∃ s, runAll exec { rxFifo := rxFifoInit 65535, trace := [] } [.rxDmadone a, .rxDmadone b] =
        some s ∧
      s.rxFifo.rtDmaCalcRecvedLen = 4464 ∧
      s.trace = [(.putForce a, { count := 40000, items := [] }),
        (.putForce b, { count := 30000, items := [] })] := by
  have hfirst : ((rxFifoInit 65535).rxDmadone a).1 =
      { rxFifoInit 65535 with
        buffer := ringStore (rxFifoInit 65535).buffer 65535 0 a, putIndex := 40000 } := by
    rw [RtSerialRxFifo.rxDmadone, ha]
    simp [rtDmaRecvUpdatePutIndex, overwriteGetIndex, rxFifoInit, index16]
  have hsecond : (((rxFifoInit 65535).rxDmadone a).1.rxDmadone b).1 =
      { ((rxFifoInit 65535).rxDmadone a).1 with
        buffer := ringStore ((rxFifoInit 65535).rxDmadone a).1.buffer 65535 40000 b
        putIndex := 4464 } := by
    rw [hfirst, RtSerialRxFifo.rxDmadone, hb]
    simp [rtDmaRecvUpdatePutIndex, overwriteGetIndex, rxFifoInit, index16]
  have hne : ∀ l : List UInt8, 0 < l.length → l ≠ [] := fun _ hl => ne_nil_of_length_pos hl
  have hone : exec { rxFifo := rxFifoInit 65535, trace := [] } (.rxDmadone a) = some
      { rxFifo := ((rxFifoInit 65535).rxDmadone a).1
        trace := [(.putForce a, { count := 40000, items := [] })] } := by
    rw [exec, if_pos ⟨hne a (by omega), by show a.length ≤ 65535; omega⟩, ha]
    rfl
  have htwo : exec { rxFifo := ((rxFifoInit 65535).rxDmadone a).1
                     trace := [(.putForce a, { count := 40000, items := [] })] } (.rxDmadone b) = some
      { rxFifo := (((rxFifoInit 65535).rxDmadone a).1.rxDmadone b).1
        trace := [(.putForce a, { count := 40000, items := [] }),
          (.putForce b, { count := 30000, items := [] })] } := by
    rw [exec, if_pos ⟨hne b (by omega), by rw [hfirst]; show b.length ≤ 65535; omega⟩, hb]
    rfl
  refine ⟨_, by rw [runAll, hone, bind_some, runAll, htwo]; rfl, ?_, rfl⟩
  rw [hsecond, hfirst]
  rfl

theorem length_forced {n : Nat} {a b held : List UInt8} {x y : FifoAnswer UInt8}
    (h : Fifo.Answers n ([] ++ [(.putForce a, x)] ++ [(.putForce b, y)]) held)
    (hn : n ≤ a.length + b.length) : held.length = n := by
  obtain ⟨q, hone, htwo⟩ := h.last
  obtain ⟨empty, -, hone⟩ := hone.last
  cases htwo
  cases hone
  simp only [length_drop, length_append]
  omega

/-- The put index of a large buffer goes beyond 16 bits, and the bytes received are not counted. -/
theorem large_not_counted : ¬ ∀ bufsz, 2 ≤ bufsz → bufsz < 2 ^ 16 → ∀ s,
    Reachable (Initial bufsz) (fun s a t => exec s a = some t) s → Counted bufsz s := by
  intro hall
  obtain ⟨s, hrun, hrecved, htrace⟩ := exec_beyond (a := List.replicate 40000 0)
    (b := List.replicate 30000 0) List.length_replicate List.length_replicate
  have hstart : Initial 65535 { rxFifo := rxFifoInit 65535, trace := [] } := rfl
  have hreach := (Reachable.start hstart).runAll hrun
  obtain ⟨held, hanswers, hcount⟩ := hall 65535 (by decide) (by decide) s hreach
  rw [hrecved] at hcount
  have hlength : held.length = 65535 := by
    rw [htrace] at hanswers
    apply length_forced hanswers
    rw [List.length_replicate, List.length_replicate]
    decide
  omega

end DmaReceiver

end RtKernel.Serial
