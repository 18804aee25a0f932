import RtKernel.Core.Ledger
import RtKernel.Core.Run
import RtKernel.Link.Frames

/-!
# Packages that rt-link receives

What `rt_link_parse_frame` does with a frame: space is allocated for a package, frames are
copied into it, and it is handed to the service or freed. Packages are numbered, and what is
copied is left out, but where it goes. What is sent is left out, and the sender only sets
the sequence and the first frame that the parser looks at. Anything may happen between two
passes of the parser; `rt_malloc` may fail, and does for no byte.
-/

open List Option

namespace RtKernel.Link

/-- `rt_link_utils_num1`. -/
def num1 (n : Nat) : Nat := (List.range 32).countP n.testBit

/-- The number of frames of a package, a byte. -/
def frameTotal (size : UInt16) : Nat :=
  (if size.toNat % maxDataLength = 0 then size.toNat / maxDataLength
    else size.toNat / maxDataLength + 1) % 256

/-- The receiving side of a session, with what has happened to the packages. -/
structure Session where
  rx : Rx
  rxSeq : Nat
  total : Nat
  longCount : Nat
  dataspace : Option Nat
  txSeq : Nat
  /-- `total` of the first frame of `tx_data_slist`. -/
  txFirst : Option Nat
  /-- The services that are attached; whether they have a `recv_cb`. -/
  service : Nat → Option Bool
  /-- `longframetimer.parameter`. -/
  longTimer : Nat
  /-- The sizes that were allocated. -/
  sizes : List Nat
  /-- Into which package, from where on and how many bytes were copied. -/
  copies : List (Nat × Nat × Nat)
  /-- What was passed to `recv_cb`, with its size. -/
  handed : List (Nat × Nat)
  freed : List Nat

namespace Session

/-- `rt_malloc`, where `mem` says whether there is memory. -/
def malloc (s : Session) (size : Nat) (mem : Bool) : Session :=
  if mem ∧ size ≠ 0 then
    { s with sizes := s.sizes ++ [size], dataspace := some s.sizes.length }
  else { s with dataspace := none }

/-- The package is freed, if there is one. -/
def freeDataspace (s : Session) : Session :=
  match s.dataspace with
  | some id => { s with freed := s.freed ++ [id], dataspace := none }
  | none => s

def stopRecvLong (s : Session) : Session := { s.freeDataspace with longCount := 0, total := 0 }

/-- `rt_link_frame_stop_receive`; the bytes of the frame are set to zero. -/
def frameStopReceive (s : Session) : Session :=
  { s.stopRecvLong with
    rx := { s.rx with receiveFrame := { Frame.init with attr := .resend } } }

def recvFinish (s : Session) (serv id size : Nat) : Session :=
  match s.service serv with
  | none => s
  | some false => { s with freed := s.freed ++ [id] }
  | some true => { s with handed := s.handed ++ [(id, size)] }

def shortHandle (s : Session) (mem : Bool) : Session :=
  let frame := s.rx.receiveFrame
  let s := s.malloc frame.dataLen mem
  match s.dataspace with
  | some id =>
    let s := { s with rxSeq := frame.sequence, copies := s.copies ++ [(id, 0, frame.dataLen)] }
    { s.recvFinish frame.service id frame.dataLen with dataspace := none }
  | none => s

def longHandleFirst (s : Session) (mem : Bool) : Session :=
  { s.malloc s.rx.receiveFrame.parameter.toNat mem with total := frameTotal s.rx.receiveFrame.parameter }

def longHandleSecond (s : Session) : Session :=
  let frame := s.rx.receiveFrame
  let index := seqIndex frame.sequence s.rxSeq
  if framesMax < index ∨ s.longCount.testBit index then s
  else
    match s.dataspace with
    | none => s
    | some id =>
      let s := { s with
        longCount := s.longCount ||| 1 <<< index
        copies := s.copies ++ [(id, maxDataLength * index, frame.dataLen)] }
      if num1 s.longCount = s.total then
        { s.recvFinish frame.service id frame.parameter.toNat with
          rxSeq := (s.rxSeq + s.total) % 256
          dataspace := none
          longCount := 0
          total := 0 }
      else s

def longHandle (s : Session) (mem : Bool) : Session :=
  let s := if s.longCount = 0 then s.longHandleFirst mem else s
  if 0 < s.total then s.longHandleSecond else s

/-- `rt_link_parse_frame`; three kinds of frames are for the sender or the service. -/
def parseFrame (s : Session) (mem : Bool) : Session :=
  match s.rx.receiveFrame.attr with
  | .resend | .confirm | .detach | .reserve => s
  | .handshake =>
    { s with rxSeq := s.rx.receiveFrame.sequence, txSeq := s.rx.receiveFrame.parameter.toNat % 256 }
  | .sessionEnd => s.frameStopReceive
  | .shortData => s.shortHandle mem
  | .longData => s.longHandle mem

def context (s : Session) (calculateCrc : List UInt8 → Nat) : Context where
  rxSeq := s.rxSeq
  txSeq := s.txSeq
  txFirst := s.txFirst
  calculateCrc := calculateCrc

variable (calculateCrc : List UInt8 → Nat)

/-- One pass of the loop of `rt_link_frame_check`. -/
def frameCheck (s : Session) (mem : Bool) : Session :=
  match s.rx.frameCheck (s.context calculateCrc) with
  | .stop rx => { s with rx := rx }
  | .findHead rx =>
    let s := frameStopReceive { s with rx := rx }
    { s with rx := s.rx.restart }
  | .handle rx =>
    let s := parseFrame { s with rx := rx } mem
    -- `data` is `NULL` until the next head
    { s with rx := { s.rx.restart with point := 0 } }

def longRecvTimeout (s : Session) : Session :=
  if 5 ≤ s.longTimer then { s.stopRecvLong with longTimer := 0 } else s

/-- What may happen. -/
inductive Act
  /-- `rt_link_hw_write_cb`. -/
  | write (bytes : List UInt8)
  | check (mem : Bool)
  /-- `rt_link_frame_recv_timeout`. -/
  | recvTimeout
  /-- `rt_link_receive_long_frame_callback`. -/
  | longTimer
  /-- `rt_link_long_recv_timeout`. -/
  | longTimeout
  /-- Something has happened to the frames that are to be sent. -/
  | send (txSeq : Nat) (txFirst : Option Nat)
  | attach (serv : Nat) (recvCb : Bool)
  | detach (serv : Nat)

def exec (s : Session) : Act → Option Session
  | .write bytes => (s.rx.hwBufferWrite bytes).map fun rx => { s with rx := rx }
  | .check mem => some (s.frameCheck calculateCrc mem)
  | .recvTimeout => some { s with rx := s.rx.skip s.rx.recvLen }
  | .longTimer => some { s with longTimer := (s.longTimer + 1) % 2 ^ 32 }
  | .longTimeout => some s.longRecvTimeout
  | .send txSeq txFirst => some { s with txSeq := txSeq, txFirst := txFirst }
  | .attach serv recvCb => some { s with service := Function.update s.service serv (some recvCb) }
  | .detach serv => some { s with service := Function.update s.service serv none }

/-- `rt_link_init` and `rt_link_hw_init` have been called. -/
def init : Session where
  rx :=
    { data := fun _ => 0
      readPoint := 0
      writePoint := 0
      analysisStatus := .findFrameHead
      receiveFrame := { Frame.init with attr := .resend }
      point := 0
      buffLen := headLength }
  rxSeq := 255
  total := 0
  longCount := 0
  dataspace := none
  txSeq := 129
  txFirst := none
  service := fun _ => none
  longTimer := 0
  sizes := []
  copies := []
  handed := []
  freed := []

/-- What has happened to packages is in order. -/
structure Accounts (sizes : List Nat) (copies : List (Nat × Nat × Nat)) (handed : List (Nat × Nat))
    (freed : List Nat) (dataspace : Option Nat) : Prop where
  /-- What was copied lies in its package. -/
  copied : ∀ id offset count, (id, offset, count) ∈ copies → ∃ size ∈ sizes[id]?, offset + count ≤ size
  passed : ∀ id count, (id, count) ∈ handed → ∃ size ∈ sizes[id]?, count ≤ size
  /-- Every package is in hand, or it was passed on or freed once. -/
  ledger : Ledger sizes.length (freed ++ handed.map Prod.fst) dataspace

def Kept (s : Session) : Prop := Accounts s.sizes s.copies s.handed s.freed s.dataspace

/-- A package of `size` bytes may be handed to a service as `count` bytes. -/
def Finishes (s : Session) (serv count size : Nat) : Prop :=
  match s.service serv with
  | none => False
  | some false => True
  | some true => count ≤ size

/-- The size of the package that a long frame goes to. -/
def packageSize (s : Session) (mem : Bool) : Option Nat :=
  if s.longCount = 0 then
    if mem ∧ s.rx.receiveFrame.parameter.toNat ≠ 0 then some s.rx.receiveFrame.parameter.toNat
    else none
  else s.dataspace.bind fun id => s.sizes[id]?

/-- A short frame comes between packages and for a service; a long frame that is copied lies in its
package, and the last one has the size of the package and a service. -/
def FrameFits (s : Session) (mem : Bool) : Prop :=
  let frame := s.rx.receiveFrame
  let index := seqIndex frame.sequence s.rxSeq
  match frame.attr with
  | .shortData => s.dataspace = none ∧ (mem ∧ frame.dataLen ≠ 0 → s.service frame.service ≠ none)
  | .longData =>
    ∀ size ∈ s.packageSize mem, ¬ s.longCount.testBit index →
      maxDataLength * index + frame.dataLen ≤ size ∧
      (num1 (s.longCount ||| 1 <<< index) =
          (if s.longCount = 0 then frameTotal frame.parameter else s.total) →
        s.Finishes frame.service frame.parameter.toNat size)
  | .resend | .confirm | .detach | .reserve | .handshake | .sessionEnd => True

/-- The frame that a pass handles, if any, fits. -/
def Careful (s : Session) : Act → Prop
  | .check mem =>
    match s.rx.frameCheck (s.context calculateCrc) with
    | .stop _ | .findHead _ => True
    | .handle rx => FrameFits { s with rx := rx } mem
  | .write _ | .recvTimeout | .longTimer | .longTimeout | .send _ _ | .attach _ _ | .detach _ => True

namespace Accounts

variable {sizes : List Nat} {copies : List (Nat × Nat × Nat)} {handed : List (Nat × Nat)}
  {freed : List Nat} {dataspace : Option Nat} {id size offset count : Nat}

theorem alloc (h : Accounts sizes copies handed freed none) (size : Nat) :
    Accounts (sizes ++ [size]) copies handed freed (some sizes.length) := by
  have hold : ∀ id old : Nat, old ∈ sizes[id]? → old ∈ (sizes ++ [size])[id]? := by
    intro id old hid
    have hlt := (List.getElem?_eq_some_iff.mp hid).1
    rw [List.getElem?_append_left hlt]
    exact hid
  refine ⟨fun id offset count hmem => ?_, fun id count hmem => ?_, ?_⟩
  · obtain ⟨old, hsize, hle⟩ := h.copied id offset count hmem
    exact ⟨old, hold id old hsize, hle⟩
  · obtain ⟨old, hsize, hle⟩ := h.passed id count hmem
    exact ⟨old, hold id old hsize, hle⟩
  · rw [length_append]
    exact h.ledger.alloc

theorem copy (h : Accounts sizes copies handed freed dataspace) (hsize : size ∈ sizes[id]?)
    (hle : offset + count ≤ size) :
    Accounts sizes (copies ++ [(id, offset, count)]) handed freed dataspace := by
  refine ⟨fun id' offset' count' hmem => ?_, h.passed, h.ledger⟩
  rcases mem_append.mp hmem with hmem | hmem
  · exact h.copied id' offset' count' hmem
  · cases mem_singleton.mp hmem
    exact ⟨size, hsize, hle⟩

section

variable (h : Accounts sizes copies handed freed (some id))
include h

theorem hand (hsize : size ∈ sizes[id]?)
    (hle : count ≤ size) : Accounts sizes copies (handed ++ [(id, count)]) freed none := by
  refine ⟨h.copied, fun id' count' hmem => ?_, h.ledger.release.perm ?_⟩
  · rcases mem_append.mp hmem with hmem | hmem
    · exact h.passed id' count' hmem
    · cases mem_singleton.mp hmem
      exact ⟨size, hsize, hle⟩
  · rw [map_append, ← append_assoc]
    exact perm_append_singleton id _

theorem free : Accounts sizes copies handed (freed ++ [id]) none := by
  refine ⟨h.copied, h.passed, h.ledger.release.perm ?_⟩
  rw [append_assoc]
  exact perm_middle

end

end Accounts

variable {s : Session} {mem : Bool} {serv id count size : Nat}

theorem Kept.stopRecvLong (h : Kept s) : Kept s.stopRecvLong ∧ s.stopRecvLong.dataspace = none := by
  unfold Session.stopRecvLong freeDataspace
  unfold Kept at h
  cases hdata : s.dataspace with
  | none =>
    rw [hdata] at h
    exact ⟨by unfold Kept; rw [hdata]; exact h, hdata⟩
  | some id =>
    rw [hdata] at h
    exact ⟨h.free, rfl⟩

theorem Kept.recvFinish (h : Kept s) (hdata : s.dataspace = some id)
    (hsize : size ∈ s.sizes[id]?) (hfin : s.Finishes serv count size) :
    Kept { s.recvFinish serv id count with dataspace := none } := by
  unfold Kept at h
  rw [hdata] at h
  unfold Finishes at hfin
  unfold Session.recvFinish
  cases hserv : s.service serv with
  | none =>
    rw [hserv] at hfin
    exact hfin.elim
  | some recvCb =>
    rw [hserv] at hfin
    cases recvCb with
    | false => exact h.free
    | true => exact h.hand hsize hfin

theorem finishes_of_kept (hlt : id < s.sizes.length)
    (hsize : size ∈ s.sizes[id]?) (hout : id ∉ s.freed ++ s.handed.map Prod.fst)
    (hkept : Kept { s.recvFinish serv id count with dataspace := none }) :
    s.Finishes serv count size := by
  unfold Session.recvFinish at hkept
  unfold Finishes
  cases hserv : s.service serv with
  | none =>
    rw [hserv] at hkept
    exact hout (hkept.ledger.mem hlt (by simp))
  | some recvCb =>
    rw [hserv] at hkept
    cases recvCb with
    | false => exact trivial
    | true =>
      obtain ⟨size', hsize', hle⟩ := hkept.passed id count (mem_append_right _ (mem_singleton_self _))
      obtain rfl := some.inj ((show s.sizes[id]? = some size' from hsize').symm.trans hsize)
      exact hle

/-- What holds of the record. -/
structure Record (s : Session) : Prop where
  kept : Kept s
  /-- Space is there only where a frame has come, and more than none are expected. -/
  count : s.longCount = 0 → s.dataspace = none
  total : s.dataspace ≠ none → 0 < s.total

theorem frameTotal_pos {size : UInt16} (h : size.toNat ≠ 0) : 0 < frameTotal size := by
  have hlt := size.toNat_lt
  unfold frameTotal maxDataLength
  split_ifs <;> omega

theorem recvFinish_rest (s : Session) (serv id size : Nat) :
    (s.recvFinish serv id size).rx = s.rx ∧ (s.recvFinish serv id size).sizes = s.sizes ∧
    (s.recvFinish serv id size).copies = s.copies ∧
    ∀ x ∈ (s.recvFinish serv id size).freed ++ (s.recvFinish serv id size).handed.map Prod.fst,
      x = id ∨ x ∈ s.freed ++ s.handed.map Prod.fst := by
  unfold Session.recvFinish
  split
  · exact ⟨rfl, rfl, rfl, fun x hx => .inr hx⟩
  · refine ⟨rfl, rfl, rfl, fun x hx => ?_⟩
    simp only [mem_append, mem_singleton] at hx ⊢
    tauto
  · refine ⟨rfl, rfl, rfl, fun x hx => ?_⟩
    simp only [map_append, map_cons, map_nil, mem_append, mem_singleton] at hx ⊢
    tauto

/-- The data of a short frame are in new space. -/
def stored (s : Session) : Session :=
  { s with
    sizes := s.sizes ++ [s.rx.receiveFrame.dataLen]
    dataspace := some s.sizes.length
    rxSeq := s.rx.receiveFrame.sequence
    copies := s.copies ++ [(s.sizes.length, 0, s.rx.receiveFrame.dataLen)] }

theorem shortHandle_of_mem (hmem : mem ∧ s.rx.receiveFrame.dataLen ≠ 0) : s.shortHandle mem =
    { s.stored.recvFinish s.rx.receiveFrame.service s.sizes.length s.rx.receiveFrame.dataLen with
      dataspace := none } := by
  have hmalloc : s.malloc s.rx.receiveFrame.dataLen mem = { s with
      sizes := s.sizes ++ [s.rx.receiveFrame.dataLen], dataspace := some s.sizes.length } := if_pos hmem
  unfold shortHandle
  dsimp only
  rw [hmalloc]
  rfl

theorem shortHandle_of_not_mem (hmem : ¬ (mem ∧ s.rx.receiveFrame.dataLen ≠ 0)) :
    s.shortHandle mem = { s with dataspace := none } := by
  have hmalloc : s.malloc s.rx.receiveFrame.dataLen mem = { s with dataspace := none } := if_neg hmem
  unfold shortHandle
  dsimp only
  rw [hmalloc]

theorem stored_size (s : Session) : s.rx.receiveFrame.dataLen ∈ s.stored.sizes[s.sizes.length]? :=
  List.getElem?_concat_length

theorem Record.shortHandle (h : Record s) (hattr : s.rx.receiveFrame.attr = .shortData)
    (hfits : s.FrameFits mem) : Record (s.shortHandle mem) := by
  simp only [FrameFits, hattr] at hfits
  obtain ⟨hnone, hserv⟩ := hfits
  have hkept := h.kept
  unfold Kept at hkept
  rw [hnone] at hkept
  by_cases hmem : mem ∧ s.rx.receiveFrame.dataLen ≠ 0
  · rw [shortHandle_of_mem hmem]
    have hstored : Kept s.stored :=
      (hkept.alloc s.rx.receiveFrame.dataLen).copy s.stored_size (Nat.le_of_eq (Nat.zero_add _))
    refine ⟨hstored.recvFinish rfl s.stored_size ?_, fun _ => rfl, fun hne => (hne rfl).elim⟩
    unfold Finishes
    cases hcb : s.stored.service s.rx.receiveFrame.service with
    | none => exact hserv hmem hcb
    | some recvCb =>
      cases recvCb with
      | false => exact trivial
      | true => exact Nat.le_refl _
  · rw [shortHandle_of_not_mem hmem]
    exact ⟨hkept, fun _ => rfl, fun hne => (hne rfl).elim⟩

theorem Record.shortFits (h : Record s) (hattr : s.rx.receiveFrame.attr = .shortData)
    (hafter : Kept (s.shortHandle mem)) : s.FrameFits mem := by
  simp only [FrameFits, hattr]
  have hnone : s.dataspace = none := by
    cases hdata : s.dataspace with
    | none => rfl
    | some id =>
      -- the package in hand is lost
      have hout := h.kept.ledger.not_mem (.inl hdata)
      have hlt := h.kept.ledger.held_lt id hdata
      by_cases hmem : mem ∧ s.rx.receiveFrame.dataLen ≠ 0
      · rw [shortHandle_of_mem hmem] at hafter
        obtain ⟨-, hsizes, -, hreleased⟩ := recvFinish_rest s.stored s.rx.receiveFrame.service
          s.sizes.length s.rx.receiveFrame.dataLen
        have hlen : id < (s.stored.recvFinish s.rx.receiveFrame.service s.sizes.length
            s.rx.receiveFrame.dataLen).sizes.length := by
          rw [hsizes]
          show id < (s.sizes ++ [s.rx.receiveFrame.dataLen]).length
          rw [length_append]
          omega
        rcases hreleased id (hafter.ledger.mem hlen (by simp)) with heq | hin
        · exact absurd heq (Nat.ne_of_lt hlt)
        · exact absurd hin hout
      · rw [shortHandle_of_not_mem hmem] at hafter
        exact absurd (hafter.ledger.mem hlt (by simp)) hout
  refine ⟨hnone, fun hmem hserv => ?_⟩
  rw [shortHandle_of_mem hmem] at hafter
  have hfin := finishes_of_kept (by simp [stored]) s.stored_size
    (h.kept.ledger.not_mem (.inr (Nat.le_refl _))) hafter
  unfold Finishes at hfin
  rw [show s.stored.service s.rx.receiveFrame.service = none from hserv] at hfin
  exact hfin

/-- The session in which a long frame is copied. -/
def started (s : Session) (mem : Bool) : Session := if s.longCount = 0 then s.longHandleFirst mem else s

/-- The frame goes into the package in hand. -/
def LongFits (s : Session) : Prop :=
  let frame := s.rx.receiveFrame
  let index := seqIndex frame.sequence s.rxSeq
  ∀ id ∈ s.dataspace, ∀ size ∈ s.sizes[id]?, ¬ s.longCount.testBit index →
    maxDataLength * index + frame.dataLen ≤ size ∧
    (num1 (s.longCount ||| 1 <<< index) = s.total →
      s.Finishes frame.service frame.parameter.toNat size)

theorem longHandleFirst_of_mem (hmem : mem ∧ s.rx.receiveFrame.parameter.toNat ≠ 0) :
    s.longHandleFirst mem = { s with
      sizes := s.sizes ++ [s.rx.receiveFrame.parameter.toNat]
      dataspace := some s.sizes.length
      total := frameTotal s.rx.receiveFrame.parameter } := by
  unfold longHandleFirst malloc
  rw [if_pos hmem]

theorem longHandleFirst_of_not_mem (hmem : ¬ (mem ∧ s.rx.receiveFrame.parameter.toNat ≠ 0)) :
    s.longHandleFirst mem =
      { s with dataspace := none, total := frameTotal s.rx.receiveFrame.parameter } := by
  unfold longHandleFirst malloc
  rw [if_neg hmem]

theorem Record.started (h : Record s) (mem : Bool) (hattr : s.rx.receiveFrame.attr = .longData) :
    Kept (s.started mem) ∧ ((s.started mem).dataspace ≠ none → 0 < (s.started mem).total) ∧
    (s.started mem).rx = s.rx ∧ (s.started mem).rxSeq = s.rxSeq ∧
    (s.FrameFits mem ↔ (s.started mem).LongFits) := by
  unfold Session.started
  by_cases hcount : s.longCount = 0
  · rw [if_pos hcount]
    have hkept := h.kept
    unfold Kept at hkept
    rw [h.count hcount] at hkept
    by_cases hmem : mem ∧ s.rx.receiveFrame.parameter.toNat ≠ 0
    · rw [longHandleFirst_of_mem hmem]
      refine ⟨hkept.alloc _, fun _ => frameTotal_pos hmem.2, rfl, rfl, ?_⟩
      have hsize : (s.sizes ++ [s.rx.receiveFrame.parameter.toNat])[s.sizes.length]? =
          some s.rx.receiveFrame.parameter.toNat := List.getElem?_concat_length
      simp only [FrameFits, hattr, packageSize, LongFits, if_pos hcount, if_pos hmem,
        mem_some_iff, forall_eq', hsize]
      rfl
    · rw [longHandleFirst_of_not_mem hmem]
      refine ⟨hkept, fun hne => (hne rfl).elim, rfl, rfl, ?_⟩
      simp only [FrameFits, hattr, packageSize, LongFits, if_pos hcount, if_neg hmem]
      simp
  · rw [if_neg hcount]
    refine ⟨h.kept, h.total, rfl, rfl, ?_⟩
    simp only [FrameFits, hattr, packageSize, LongFits, if_neg hcount]
    simp only [mem_def, bind_eq_some_iff]
    exact ⟨fun hall id hid size hsize => hall size ⟨id, hid, hsize⟩,
      fun hall size ⟨id, hid, hsize⟩ => hall id hid size hsize⟩

theorem shiftLeft_ne_zero (n index : Nat) : n ||| 1 <<< index ≠ 0 := by
  intro hzero
  have hbit := congrArg (fun n => n.testBit index) hzero
  simp at hbit

/-- A frame that fits is copied, and the last one finishes the package. -/
theorem Kept.longHandleSecond (h : Kept s) (htotal : s.dataspace ≠ none → 0 < s.total)
    (hindex : seqIndex s.rx.receiveFrame.sequence s.rxSeq ≤ framesMax) (hfits : s.LongFits) :
    Record s.longHandleSecond := by
  unfold Session.longHandleSecond
  by_cases hbit : s.longCount.testBit (seqIndex s.rx.receiveFrame.sequence s.rxSeq)
  · rw [if_pos (.inr hbit)]
    refine ⟨h, fun hzero => ?_, htotal⟩
    rw [hzero] at hbit
    simp at hbit
  rw [if_neg (by rintro (hlt | hset); exacts [Nat.not_lt.mpr hindex hlt, hbit hset])]
  cases hdata : s.dataspace with
  | none => exact ⟨h, fun _ => hdata, htotal⟩
  | some id =>
    have hlt := h.ledger.held_lt id hdata
    have hsize : s.sizes[id] ∈ s.sizes[id]? := List.getElem?_eq_getElem hlt
    obtain ⟨hle, hfin⟩ := hfits id hdata _ hsize hbit
    have hcopied := Accounts.copy h hsize hle
    rw [hdata] at hcopied
    dsimp only
    split_ifs with hlast
    · exact ⟨Kept.recvFinish hcopied rfl hsize (hfin hlast), fun _ => rfl, fun hne => (hne rfl).elim⟩
    · refine ⟨hcopied, fun hzero => absurd hzero (shiftLeft_ne_zero _ _), fun _ => ?_⟩
      exact htotal (by rw [hdata]; simp)

theorem Kept.longFits (h : Kept s)
    (hindex : seqIndex s.rx.receiveFrame.sequence s.rxSeq ≤ framesMax)
    (hafter : Kept s.longHandleSecond) : s.LongFits := by
  intro id hid size hsize hbit
  have hlt := h.ledger.held_lt id hid
  have hout := h.ledger.not_mem (.inl hid)
  unfold Session.longHandleSecond at hafter
  dsimp only at hafter
  rw [if_neg (by rintro (hlt | hset); exacts [Nat.not_lt.mpr hindex hlt, hbit hset]),
    show s.dataspace = some id from hid] at hafter
  dsimp only at hafter
  generalize seqIndex s.rx.receiveFrame.sequence s.rxSeq = index at hafter
  have hle : ∀ copied : List (Nat × Nat × Nat),
      (id, maxDataLength * index, s.rx.receiveFrame.dataLen) ∈ copied →
      (∀ id offset count, (id, offset, count) ∈ copied → ∃ size ∈ s.sizes[id]?, offset + count ≤ size) →
      maxDataLength * index + s.rx.receiveFrame.dataLen ≤ size := by
    intro copied hmem hall
    obtain ⟨size', hsize', hle⟩ := hall _ _ _ hmem
    rw [mem_unique hsize hsize']
    exact hle
  have hnew : (id, maxDataLength * index, s.rx.receiveFrame.dataLen) ∈
      s.copies ++ [(id, maxDataLength * index, s.rx.receiveFrame.dataLen)] :=
    mem_append_right _ (mem_singleton_self _)
  by_cases hlast : num1 (s.longCount ||| 1 <<< index) = s.total
  · rw [if_pos hlast] at hafter
    refine ⟨?_, fun _ => ?_⟩
    · obtain ⟨-, hsizes, hcopies, -⟩ := recvFinish_rest { s with
          longCount := s.longCount ||| 1 <<< index
          dataspace := some id
          copies := s.copies ++ [(id, maxDataLength * index, s.rx.receiveFrame.dataLen)] }
        s.rx.receiveFrame.service id s.rx.receiveFrame.parameter.toNat
      have hcopied := hafter.copied
      rw [hsizes, hcopies] at hcopied
      exact hle _ hnew hcopied
    · exact finishes_of_kept (s := { s with
          longCount := s.longCount ||| 1 <<< index
          dataspace := some id
          copies := s.copies ++ [(id, maxDataLength * index, s.rx.receiveFrame.dataLen)] })
        hlt hsize hout hafter
  · rw [if_neg hlast] at hafter
    exact ⟨hle _ hnew hafter.copied, fun heq => absurd heq hlast⟩

theorem shortHandle_rx (s : Session) (mem : Bool) : (s.shortHandle mem).rx = s.rx := by
  by_cases hmem : mem ∧ s.rx.receiveFrame.dataLen ≠ 0
  · rw [shortHandle_of_mem hmem]
    exact (recvFinish_rest ..).1
  · rw [shortHandle_of_not_mem hmem]

theorem longHandleSecond_rx (s : Session) : s.longHandleSecond.rx = s.rx := by
  unfold longHandleSecond
  dsimp only
  split
  · rfl
  · split
    · rfl
    · split
      · exact (recvFinish_rest ..).1
      · rfl

theorem started_rx (s : Session) (mem : Bool) : (s.started mem).rx = s.rx := by
  unfold started longHandleFirst malloc
  split_ifs <;> rfl

theorem longHandle_eq (s : Session) (mem : Bool) : s.longHandle mem =
    if 0 < (s.started mem).total then (s.started mem).longHandleSecond else s.started mem := rfl

theorem parseFrame_rx (s : Session) (mem : Bool) :
    (s.parseFrame mem).rx.readPoint = s.rx.readPoint ∧
    (s.parseFrame mem).rx.writePoint = s.rx.writePoint := by
  unfold parseFrame
  cases s.rx.receiveFrame.attr with
  | resend | confirm | detach | reserve | handshake | sessionEnd => exact ⟨rfl, rfl⟩
  | shortData =>
    rw [shortHandle_rx]
    exact ⟨rfl, rfl⟩
  | longData =>
    dsimp only
    rw [longHandle_eq]
    split_ifs
    · rw [longHandleSecond_rx, started_rx]
      exact ⟨rfl, rfl⟩
    · rw [started_rx]
      exact ⟨rfl, rfl⟩

theorem Record.longHandle (h : Record s) (hattr : s.rx.receiveFrame.attr = .longData)
    (hindex : seqIndex s.rx.receiveFrame.sequence s.rxSeq ≤ framesMax) (hfits : s.FrameFits mem) :
    Record (s.longHandle mem) := by
  obtain ⟨hkept, htotal, hrx, hrxSeq, hiff⟩ := h.started mem hattr
  rw [longHandle_eq]
  split_ifs with hpos
  · exact hkept.longHandleSecond htotal (by rw [hrx, hrxSeq]; exact hindex) (hiff.mp hfits)
  · have hnone : (s.started mem).dataspace = none := by
      by_contra hne
      exact hpos (htotal hne)
    exact ⟨hkept, fun _ => hnone, htotal⟩

theorem Record.longFits (h : Record s) (hattr : s.rx.receiveFrame.attr = .longData)
    (hindex : seqIndex s.rx.receiveFrame.sequence s.rxSeq ≤ framesMax)
    (hafter : Kept (s.longHandle mem)) : s.FrameFits mem := by
  obtain ⟨hkept, htotal, hrx, hrxSeq, hiff⟩ := h.started mem hattr
  rw [longHandle_eq] at hafter
  refine hiff.mpr ?_
  split_ifs at hafter with hpos
  · exact hkept.longFits (by rw [hrx, hrxSeq]; exact hindex) hafter
  · intro id hid
    exact absurd (htotal (by rw [show (s.started mem).dataspace = some id from hid]; simp)) hpos

theorem Record.parseFrame (h : Record s) (hfresh : Rx.Fresh s.rxSeq s.rx.receiveFrame)
    (hfits : s.FrameFits mem) : Record (s.parseFrame mem) := by
  unfold Session.parseFrame
  cases hattr : s.rx.receiveFrame.attr with
  | resend | confirm | detach | reserve => exact h
  | handshake => exact ⟨h.kept, h.count, h.total⟩
  | sessionEnd =>
    obtain ⟨hkept, hnone⟩ := h.kept.stopRecvLong
    exact ⟨hkept, fun _ => hnone, fun hne => (hne hnone).elim⟩
  | shortData => exact h.shortHandle hattr hfits
  | longData => exact h.longHandle hattr (hfresh (.inl hattr)) hfits

/-- A frame after which the packages are in order fits. -/
theorem Record.frameFits (h : Record s) (hfresh : Rx.Fresh s.rxSeq s.rx.receiveFrame)
    (hafter : Kept (s.parseFrame mem)) : s.FrameFits mem := by
  unfold Session.parseFrame at hafter
  cases hattr : s.rx.receiveFrame.attr with
  | resend | confirm | detach | reserve | handshake | sessionEnd => simp [FrameFits, hattr]
  | shortData =>
    rw [hattr] at hafter
    exact h.shortFits hattr hafter
  | longData =>
    rw [hattr] at hafter
    exact h.longFits hattr (hfresh (.inl hattr)) hafter

structure Sound (s : Session) : Prop extends Record s where
  inside : s.rx.Inside
  accepted : s.rx.Accepted s.rxSeq

variable {calculateCrc : List UInt8 → Nat} {t : Session} {a : Act}

theorem Record.restart {rx : Rx} (h : Record s) (hinside : rx.Inside) (point : Nat) :
    Sound { s with rx := { rx.restart with point := point } } := by
  refine ⟨⟨h.kept, h.count, h.total⟩, ⟨hinside.readPoint, hinside.writePoint⟩, ?_⟩
  rintro (heq | heq) <;> cases heq

theorem Sound.frameCheck (h : Sound s) (hcareful : Careful calculateCrc s (.check mem)) :
    Sound (s.frameCheck calculateCrc mem) := by
  have hpass := h.inside.frameCheck (c := s.context calculateCrc) h.accepted
  unfold Careful at hcareful
  unfold Session.frameCheck
  cases hcheck : s.rx.frameCheck (s.context calculateCrc) with
  | stop rx =>
    rw [hcheck] at hpass
    exact ⟨⟨h.kept, h.count, h.total⟩, hpass.1, hpass.2⟩
  | findHead rx =>
    rw [hcheck] at hpass
    obtain ⟨hkept, hnone⟩ := Kept.stopRecvLong (s := { s with rx := rx }) h.kept
    have hrecord : Record { s with rx := rx }.frameStopReceive :=
      ⟨hkept, fun _ => hnone, fun hne => (hne hnone).elim⟩
    have hinside : Rx.Inside { rx with receiveFrame := { Frame.init with attr := .resend } } :=
      ⟨hpass.readPoint, hpass.writePoint⟩
    exact hrecord.restart hinside rx.point
  | handle rx =>
    rw [hcheck] at hpass hcareful
    have hrecord : Record { s with rx := rx } := ⟨h.kept, h.count, h.total⟩
    obtain ⟨hread, hwrite⟩ := parseFrame_rx { s with rx := rx } mem
    exact (hrecord.parseFrame hpass.2 hcareful).restart
      ⟨by rw [hread]; exact hpass.1.readPoint, by rw [hwrite]; exact hpass.1.writePoint⟩ 0

theorem Sound.exec (h : Sound s) (hcareful : Careful calculateCrc s a) :
    ∃ t, s.exec calculateCrc a = some t ∧ Sound t := by
  cases a with
  | write bytes =>
    obtain ⟨data, writePoint, hwrite, hlt⟩ := h.inside.hwBufferWrite bytes
    refine ⟨{ s with rx := { s.rx with data := data, writePoint := writePoint } }, ?_,
      ⟨h.kept, h.count, h.total⟩, ⟨h.inside.readPoint, hlt⟩, h.accepted⟩
    show (s.rx.hwBufferWrite bytes).map _ = _
    rw [hwrite]
    rfl
  | check mem => exact ⟨_, rfl, h.frameCheck hcareful⟩
  | recvTimeout => exact ⟨_, rfl, ⟨h.kept, h.count, h.total⟩, h.inside.skip _, h.accepted⟩
  | longTimer | send txSeq txFirst | attach serv recvCb
  | detach serv => exact ⟨_, rfl, ⟨h.kept, h.count, h.total⟩, h.inside, h.accepted⟩
  | longTimeout =>
    refine ⟨_, rfl, ?_⟩
    unfold longRecvTimeout
    split_ifs
    · obtain ⟨hkept, hnone⟩ := h.kept.stopRecvLong
      have hrest : s.stopRecvLong.rx = s.rx ∧ s.stopRecvLong.rxSeq = s.rxSeq := by
        unfold stopRecvLong freeDataspace
        split <;> exact ⟨rfl, rfl⟩
      refine ⟨⟨hkept, fun _ => hnone, fun hne => (hne hnone).elim⟩, ?_, ?_⟩
      · show s.stopRecvLong.rx.Inside
        rw [hrest.1]
        exact h.inside
      · show s.stopRecvLong.rx.Accepted s.stopRecvLong.rxSeq
        rw [hrest.1, hrest.2]
        exact h.accepted
    · exact h

theorem Sound.careful (h : Sound s) (hexec : s.exec calculateCrc a = some t) (hafter : Kept t) :
    Careful calculateCrc s a := by
  cases a with
  | write | recvTimeout | longTimer | longTimeout | send | attach | detach => exact trivial
  | check mem =>
    have hpass := h.inside.frameCheck (c := s.context calculateCrc) h.accepted
    cases hexec
    unfold Session.frameCheck at hafter
    unfold Careful
    cases hcheck : s.rx.frameCheck (s.context calculateCrc) with
    | stop rx | findHead rx => exact trivial
    | handle rx =>
      rw [hcheck] at hpass hafter
      have hrecord : Record { s with rx := rx } := ⟨h.kept, h.count, h.total⟩
      exact hrecord.frameFits hpass.2 hafter

theorem init_sound : Sound init := by
  refine ⟨⟨⟨fun id offset count h => absurd h not_mem_nil,
    fun id count h => absurd h not_mem_nil, .start⟩, fun _ => rfl, fun h => (h rfl).elim⟩,
    ⟨by decide, by decide⟩, ?_⟩
  rintro (heq | heq) <;> cases heq

/-- Where the frames that are handled fit, what is copied and handed to a service lies in its
package and no package is lost; the receive buffer is not left by a write; and a step keeps that
just where it meets the condition. -/
theorem reachable_packagesKept (calculateCrc : List UInt8 → Nat) (s : Session)
    (h : Reachable (· = init) (Within (fun s a t => s.exec calculateCrc a = some t)
      (Careful calculateCrc)) s) :
    Kept s ∧ ∀ a, (∃ t, s.exec calculateCrc a = some t ∧ Kept t) ↔ Careful calculateCrc s a := by
  have hsound : Sound s := by
    refine h.invariant (fun s h₀ => h₀ ▸ init_sound) fun s a t _ ih hstep => ?_
    obtain ⟨t', hexec, hsound⟩ := ih.exec hstep.1
    rw [hstep.2] at hexec
    cases hexec
    exact hsound
  refine ⟨hsound.kept, fun a => ⟨?_, fun hcareful => ?_⟩⟩
  · rintro ⟨t, hexec, hafter⟩
    exact hsound.careful hexec hafter
  · obtain ⟨t, hexec, hafter⟩ := hsound.exec hcareful
    exact ⟨t, hexec, hafter.kept⟩

instance decidableFinishes (s : Session) (serv count size : Nat) : Decidable (s.Finishes serv count size) :=
  match hserv : s.service serv with
  | none => .isFalse (by simp [Finishes, hserv])
  | some false => .isTrue (by simp [Finishes, hserv])
  | some true => decidable_of_iff (count ≤ size) (by simp [Finishes, hserv])

instance decidableFrameFits (s : Session) (mem : Bool) : Decidable (s.FrameFits mem) :=
  let frame := s.rx.receiveFrame
  let index := seqIndex frame.sequence s.rxSeq
  match hattr : s.rx.receiveFrame.attr with
  | .shortData =>
    decidable_of_iff (s.dataspace = none ∧ (mem ∧ frame.dataLen ≠ 0 → s.service frame.service ≠ none))
      (by simp only [FrameFits, hattr, frame])
  | .longData =>
    decidable_of_iff (∀ size ∈ s.packageSize mem, ¬ s.longCount.testBit index →
        maxDataLength * index + frame.dataLen ≤ size ∧
        (num1 (s.longCount ||| 1 <<< index) =
            (if s.longCount = 0 then frameTotal frame.parameter else s.total) →
          s.Finishes frame.service frame.parameter.toNat size))
      (by simp only [FrameFits, hattr, frame, index])
  | .resend | .confirm | .detach | .reserve | .handshake | .sessionEnd =>
    .isTrue (by simp [FrameFits, hattr])

instance decidableCareful (s : Session) (a : Act) : Decidable (Careful calculateCrc s a) :=
  match a with
  | .check mem =>
    match hcheck : s.rx.frameCheck (s.context calculateCrc) with
    | .stop _ | .findHead _ => .isTrue (by simp [Careful, hcheck])
    | .handle rx => decidable_of_iff (FrameFits { s with rx := rx } mem) (by simp [Careful, hcheck])
  | .write _ | .recvTimeout | .longTimer | .longTimeout | .send _ _ | .attach _ _ | .detach _ => .isTrue trivial

/-- A short frame of 4 bytes for service 1. -/
def shortFrame (sequence : UInt8) : List UInt8 := [0x15, sequence, 0x81, 0, 1, 2, 3, 4]

/-- A long frame of 4 bytes for service 1, of a package of `low + 256 * high` bytes. -/
def longFrame (sequence low high : UInt8) : List UInt8 :=
  [0x35, sequence, 0x81, 0, 5, 0, low, high, 1, 2, 3, 4]

/-- Bytes come and are looked at. -/
def received (bytes : List UInt8) : List Act := [.write bytes, .check true, .check true, .check true]

/-- A short frame in two pieces, and a package of two long frames, the second one first. -/
def shortAndLong : List Act :=
  [.attach 1 true] ++ received ((shortFrame 0).take 5) ++ received ((shortFrame 0).drop 5) ++
    received (longFrame 2 0xf8 3) ++ [.longTimer, .longTimeout] ++ received (longFrame 1 0xf8 3)

/-- A short package, and one of two frames. -/
theorem reachable_packagesKept_two : ∃ s : Session, s.sizes = [4, 1016] ∧
    s.copies = [(0, 0, 4), (1, 1012, 4), (1, 0, 4)] ∧ s.handed = [(0, 4), (1, 1016)] ∧
    (Kept s ∧ ∀ a, (∃ t, s.exec (fun _ => 0) a = some t ∧ Kept t) ↔ Careful (fun _ => 0) s a) := by
  obtain ⟨s, hs, hsizes, hcopies, hhanded⟩ :
      ∃ s ∈ runWithin (exec fun _ => 0) (Careful fun _ => 0) init shortAndLong,
      s.sizes = [4, 1016] ∧ s.copies = [(0, 0, 4), (1, 1012, 4), (1, 0, 4)] ∧
      s.handed = [(0, 4), (1, 1016)] := by decide +kernel
  have hstart : Reachable (· = init) (Within (fun s a t => exec (fun _ => 0) s a = some t)
      (Careful fun _ => 0)) init := Reachable.start rfl
  exact ⟨s, hsizes, hcopies, hhanded, reachable_packagesKept (fun _ => 0) s (hstart.runWithin hs)⟩

/-- A package of 2 bytes has a frame of 4. -/
def smallPackage : List Act := [.attach 1 true] ++ received (longFrame 0 2 0)

/-- The frames of a package of 1016 bytes disagree about its size. -/
def otherSize : List Act :=
  [.attach 1 true] ++ received (longFrame 0 0xf8 3) ++ received (longFrame 1 0xd0 7)

/-- A short frame comes amid a package of 1016 bytes. -/
def shortBetween : List Act :=
  [.attach 1 true] ++ received (longFrame 0 0xf8 3) ++ received (shortFrame 1)

/-- Bytes are copied outside a package; a service is passed more bytes than were allocated; and a
package is lost. -/
theorem frameSizes_not_kept :
    (∃ s : Session, Reachable (· = init) (fun s a t => s.exec (fun _ => 0) a = some t) s ∧
      s.sizes = [2] ∧ s.copies = [(0, 0, 4)] ∧ ¬ Kept s) ∧
    (∃ s : Session, Reachable (· = init) (fun s a t => s.exec (fun _ => 0) a = some t) s ∧
      s.sizes = [1016] ∧ s.handed = [(0, 2000)] ∧ ¬ Kept s) ∧
    ∃ s : Session, Reachable (· = init) (fun s a t => s.exec (fun _ => 0) a = some t) s ∧
      s.sizes = [1016, 4] ∧ s.dataspace = none ∧ s.handed = [(1, 4)] ∧ s.freed = [] ∧ ¬ Kept s := by
  have hstart : Reachable (· = init) (fun s a t => exec (fun _ => 0) s a = some t) init := Reachable.start rfl
  obtain ⟨s, hs, heq⟩ : ∃ s ∈ runAll (exec fun _ => 0) init smallPackage, s.sizes = [2] ∧
      s.copies = [(0, 0, 4)] := by decide +kernel
  obtain ⟨s', hs', heq'⟩ : ∃ s ∈ runAll (exec fun _ => 0) init otherSize, s.sizes = [1016] ∧
      s.handed = [(0, 2000)] := by decide +kernel
  obtain ⟨s'', hs'', heq''⟩ : ∃ s ∈ runAll (exec fun _ => 0) init shortBetween, s.sizes = [1016, 4] ∧
      s.dataspace = none ∧ s.handed = [(1, 4)] ∧ s.freed = [] := by decide +kernel
  refine ⟨⟨s, hstart.runAll hs, heq.1, heq.2, fun hkept => ?_⟩,
    ⟨s', hstart.runAll hs', heq'.1, heq'.2, fun hkept => ?_⟩,
    s'', hstart.runAll hs'', heq''.1, heq''.2.1, heq''.2.2.1, heq''.2.2.2, fun hkept => ?_⟩
  · obtain ⟨size, hsize, hle⟩ := hkept.copied 0 0 4 (by rw [heq.2]; exact List.mem_singleton_self _)
    rw [heq.1] at hsize
    cases hsize
    omega
  · obtain ⟨size, hsize, hle⟩ := hkept.passed 0 2000 (by rw [heq'.2]; exact List.mem_singleton_self _)
    rw [heq'.1] at hsize
    cases hsize
    omega
  · have hgone := hkept.ledger.mem (show 0 < s''.sizes.length by rw [heq''.1]; decide)
      (by rw [heq''.2.1]; decide)
    rw [heq''.2.2.1, heq''.2.2.2] at hgone
    exact absurd hgone (by decide)

end Session

end RtKernel.Link
