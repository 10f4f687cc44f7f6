import OpenIon.Driver.Manager
import OpenIon.Lib.Memory
import Mathlib.Algebra.Group.Nat.Defs
import Mathlib.Data.List.Basic
import Mathlib.Logic.Function.Iterate

/-! # Receiving packets from the LAN9118

`receive` of the driver takes a status word from one FIFO of the device and then the data words of
the packet from the other. It reads exactly the words of one packet, whatever the length of the
packet, the buffer of the caller and the error bit, so every call finds the next packet.
-/
namespace OpenIon.Drivers.Lan9118
open Lib.Memory
open Driver (DriverErr)

structure Device where
  rxStatus : List UInt32
  rxData : List UInt32

namespace Device

/-- `RX_FIFO_INF`: the number of status words in bits 16 to 23, and the number of data bytes. -/
def rxFifoInf (dev : Device) : UInt32 :=
  UInt32.ofNat (dev.rxStatus.length % 2 ^ 8 * 2 ^ 16 + 4 * dev.rxData.length % 2 ^ 16)

/-- Reading a FIFO takes out a word, or gives 0 when there is none. -/
def readStatus (dev : Device) : UInt32 × Device :=
  (dev.rxStatus.headD 0, { dev with rxStatus := dev.rxStatus.tail })

def readData (dev : Device) : UInt32 × Device :=
  (dev.rxData.headD 0, { dev with rxData := dev.rxData.tail })

def hasRxData (dev : Device) : Bool :=
  let rxInf := dev.rxFifoInf
  let rxUsed := (rxInf >>> 16) &&& 0xFF
  rxUsed > 0

end Device

def pktLen (status : UInt32) : ℕ := ((status >>> 16) &&& 0x3FFF).toNat

def hasError (status : UInt32) : Bool := (status &&& ((1 : UInt32) <<< 15)) != 0

/-- The body of the loop over the bytes of a word. -/
def storeByte (len : ℕ) (s : ℕ × List UInt8) (byte : UInt8) : ℕ × List UInt8 :=
  (s.1 + 1, if s.1 < len ∧ s.1 < s.2.length then s.2.set s.1 byte else s.2)

/-- The body of the loop over the words: the device, `read_len` and the buffer. -/
def readWord (len : ℕ) (error : Bool) (s : Device × ℕ × List UInt8) : Device × ℕ × List UInt8 :=
  let (val, dev) := s.1.readData
  (dev, if error then s.2 else (toLeBytes val).foldl (storeByte len) s.2)

/-- The result, the buffer and the device after a call. -/
def receive (dev : Device) (buf : List UInt8) : Except DriverErr ℕ × List UInt8 × Device :=
  let rxInf := dev.rxFifoInf
  let rxUsed := (rxInf >>> 16) &&& 0xFF
  if rxUsed = 0 then (.ok 0, buf, dev)
  else
    let (status, dev) := dev.readStatus
    let len := pktLen status
    let error := hasError status
    -- `& !3` leaves a multiple of 4
    let padLen := (len + 3) / 4 * 4
    let words := padLen / 4
    let (dev, _, buf) := (readWord len error)^[words] (dev, 0, buf)
    if error then (.error .hardwareFault, buf, dev) else (.ok (min len buf.length), buf, dev)

/-- A packet as the device stores it: its bytes, padded to whole words. -/
structure Packet where
  status : UInt32
  words : List UInt32
  padded : words.length = (pktLen status + 3) / 4

def Packet.bytes (p : Packet) : List UInt8 := (p.words.flatMap toLeBytes).take (pktLen p.status)

/-- What a call that finds the packet should return and leave in its buffer. -/
def Packet.expected (p : Packet) (buf : List UInt8) : Except DriverErr ℕ × List UInt8 :=
  if hasError p.status then (.error .hardwareFault, buf)
  else
    let n := min (pktLen p.status) buf.length
    (.ok n, p.bytes.take n ++ buf.drop n)

structure Call where
  buf : List UInt8
  result : Except DriverErr ℕ
  filled : List UInt8

structure World where
  dev : Device
  arrived : List Packet
  calls : List Call

inductive Act where
  | arrive (p : Packet)
  | receive (buf : List UInt8)

def World.new : World := ⟨⟨[], []⟩, [], []⟩

def step (w : World) : Act → World
  | .arrive p =>
    { w with
      dev := ⟨w.dev.rxStatus ++ [p.status], w.dev.rxData ++ p.words⟩
      arrived := w.arrived ++ [p] }
  | .receive buf =>
    let r := receive w.dev buf
    { w with
      dev := r.2.2
      calls := if w.dev.hasRxData then w.calls ++ [⟨buf, r.1, r.2.1⟩] else w.calls }

/-- The calls took the first packets, one each, and the words of the others are in the FIFOs. -/
structure InStep (w : World) : Prop where
  taken : w.calls.length ≤ w.arrived.length
  answers : ∀ (k : ℕ) (call : Call), w.calls[k]? = some call →
    ∃ p : Packet, w.arrived[k]? = some p ∧ (call.result, call.filled) = p.expected call.buf
  status : w.dev.rxStatus = (w.arrived.drop w.calls.length).map Packet.status
  data : w.dev.rxData = (w.arrived.drop w.calls.length).flatMap Packet.words

/-! ## The words of one packet -/

variable {len : ℕ} {dev : Device} {buf : List UInt8} {p : Packet} {w : World}

theorem length_flatMap_toLeBytes (words : List UInt32) :
    (words.flatMap toLeBytes).length = 4 * words.length := by
  induction words with
  | nil => rfl
  | cons val words ih =>
    rw [List.flatMap_cons, List.length_append, length_toLeBytes, ih, List.length_cons]
    omega

/-- The bytes go to the places from `k` on that are within the packet and the buffer. -/
theorem foldl_storeByte (len : ℕ) (bytes : List UInt8) (k : ℕ) (buf : List UInt8) :
    (bytes.foldl (storeByte len) (k, buf)).1 = k + bytes.length ∧
      ∀ j, (bytes.foldl (storeByte len) (k, buf)).2[j]? =
        if k ≤ j ∧ j < k + bytes.length ∧ j < len ∧ j < buf.length then bytes[j - k]?
        else buf[j]? := by
  induction bytes generalizing k buf with
  | nil =>
    refine ⟨rfl, fun j => ?_⟩
    rw [if_neg (by simp; omega)]
    rfl
  | cons byte bytes ih =>
    obtain ⟨hnext, hplaces⟩ := ih (k + 1) (storeByte len (k, buf) byte).2
    have hlength : (storeByte len (k, buf) byte).2.length = buf.length := by
      unfold storeByte
      dsimp only
      split_ifs <;> simp
    rw [List.foldl_cons, List.length_cons]
    refine ⟨by rw [← Nat.add_assoc, Nat.add_right_comm]; exact hnext, fun j => ?_⟩
    refine (hplaces j).trans ?_
    rw [hlength]
    by_cases hj : j = k
    · subst hj
      rw [if_neg (by omega), Nat.sub_self, List.getElem?_cons_zero]
      unfold storeByte
      dsimp only
      by_cases hin : j < len ∧ j < buf.length
      · rw [if_pos hin, if_pos (by omega), List.getElem?_set_self hin.2]
      · rw [if_neg hin, if_neg (by omega)]
    · have hkeep : (storeByte len (k, buf) byte).2[j]? = buf[j]? := by
        unfold storeByte
        dsimp only
        split_ifs
        · rw [List.getElem?_set_ne (Ne.symm hj)]
        · rfl
      rw [hkeep]
      by_cases hin : k ≤ j ∧ j < k + (bytes.length + 1) ∧ j < len ∧ j < buf.length
      · rw [if_pos (by omega), if_pos hin, show j - k = j - (k + 1) + 1 by omega,
          List.getElem?_cons_succ]
      · rw [if_neg (by omega), if_neg hin]

/-- The loop reads as many words as it runs through, with the error bit or without. -/
theorem iterate_readWord (len : ℕ) (error : Bool) (status words rest : List UInt32)
    (s : ℕ × List UInt8) :
    (readWord len error)^[words.length] (⟨status, words ++ rest⟩, s) =
      (⟨status, rest⟩, if error then s
        else (words.flatMap toLeBytes).foldl (storeByte len) s) := by
  induction words generalizing s with
  | nil => cases error <;> rfl
  | cons val words ih =>
    rw [List.length_cons, Function.iterate_succ_apply]
    change (readWord len error)^[words.length] (⟨status, words ++ rest⟩, _) = _
    rw [ih]
    cases error with
    | true => rfl
    | false => simp [List.flatMap_cons, List.foldl_append]

theorem Packet.length_bytes (p : Packet) : p.bytes.length = pktLen p.status := by
  rw [Packet.bytes, List.length_take, length_flatMap_toLeBytes, p.padded]
  omega

/-- The buffer holds the beginning of the packet and is unchanged after it. -/
theorem Packet.stored (p : Packet) (buf : List UInt8) :
    ((p.words.flatMap toLeBytes).foldl (storeByte (pktLen p.status)) (0, buf)).2 =
      p.bytes.take (min (pktLen p.status) buf.length) ++
        buf.drop (min (pktLen p.status) buf.length) := by
  have hwords : pktLen p.status ≤ (p.words.flatMap toLeBytes).length := by
    rw [length_flatMap_toLeBytes, p.padded]
    omega
  have hbytes := p.length_bytes
  apply List.ext_getElem?
  intro j
  rw [(foldl_storeByte _ _ 0 buf).2 j, List.getElem?_append, List.length_take, hbytes]
  by_cases hj : j < pktLen p.status ∧ j < buf.length
  · rw [if_pos (by omega), if_pos (by omega), List.getElem?_take, if_pos (by omega), Packet.bytes,
      List.getElem?_take, if_pos hj.1, Nat.sub_zero]
  · rw [if_neg (by omega), if_neg (by omega), List.getElem?_drop]
    congr 1
    omega

theorem Device.hasRxData_iff : dev.hasRxData = true ↔ ¬(dev.rxFifoInf >>> 16) &&& 0xFF = 0 := by
  rw [Device.hasRxData, decide_eq_true_eq, gt_iff_lt, UInt32.pos_iff_ne_zero]

theorem Device.rxStatus_ne_nil (h : dev.hasRxData = true) : dev.rxStatus ≠ [] := by
  intro hnil
  apply Device.hasRxData_iff.mp h
  have hinf : dev.rxFifoInf.toNat = 4 * dev.rxData.length % 2 ^ 16 := by
    rw [Device.rxFifoInf, hnil, UInt32.toNat_ofNat']
    simp
    omega
  have hshift : dev.rxFifoInf >>> 16 = 0 := by
    apply UInt32.toNat_inj.mp
    rw [UInt32.toNat_shiftRight, hinf]
    simp [Nat.shiftRight_eq_div_pow]
  rw [hshift, UInt32.zero_and]

theorem receive_of_not_hasRxData (buf : List UInt8) (h : ¬dev.hasRxData = true) :
    receive dev buf = (.ok 0, buf, dev) := by
  rw [Device.hasRxData_iff, not_not] at h
  rw [receive, if_pos h]

/-- A call that finds a packet takes its words and returns what it should. -/
theorem receive_packet {status data : List UInt32} (p : Packet) (buf : List UInt8)
    (h : Device.hasRxData ⟨p.status :: status, p.words ++ data⟩ = true) :
    receive ⟨p.status :: status, p.words ++ data⟩ buf =
      ((p.expected buf).1, (p.expected buf).2, ⟨status, data⟩) := by
  have hwords : (pktLen p.status + 3) / 4 * 4 / 4 = p.words.length := by
    rw [p.padded]
    omega
  have hloop := iterate_readWord (pktLen p.status) (hasError p.status) status p.words data (0, buf)
  rw [receive, if_neg (Device.hasRxData_iff.mp h)]
  simp only [Device.readStatus, List.headD_cons, List.tail_cons, hwords, hloop, Packet.expected]
  cases hasError p.status with
  | true => rfl
  | false =>
    have hlength : (p.bytes.take (min (pktLen p.status) buf.length) ++
        buf.drop (min (pktLen p.status) buf.length)).length = buf.length := by
      rw [List.length_append, List.length_take, List.length_drop, p.length_bytes]
      omega
    simp only [Bool.false_eq_true, if_false, p.stored, hlength]

/-! ## Runs -/

theorem InStep.arrive (h : InStep w) (p : Packet) : InStep (step w (.arrive p)) where
  taken := by
    rw [step, List.length_append]
    exact Nat.le_trans h.taken (Nat.le_add_right _ _)
  answers k call hcall := by
    obtain ⟨q, hq, hanswer⟩ := h.answers k call hcall
    refine ⟨q, ?_, hanswer⟩
    exact (List.getElem?_append_left (List.getElem?_eq_some_iff.mp hq).1).trans hq
  status := by
    simp [step, h.status, List.drop_append_of_le_length h.taken]
  data := by
    simp [step, h.data, List.drop_append_of_le_length h.taken]

/-- The device that has a packet for the driver holds the words of the first one not taken. -/
theorem InStep.next (h : InStep w) (hdata : w.dev.hasRxData = true) :
    ∃ p rest, w.arrived[w.calls.length]? = some p ∧
      w.arrived.drop (w.calls.length + 1) = rest ∧
      w.dev = ⟨p.status :: rest.map Packet.status, p.words ++ rest.flatMap Packet.words⟩ := by
  have hne := Device.rxStatus_ne_nil hdata
  rw [h.status, ne_eq, List.map_eq_nil_iff, List.drop_eq_nil_iff, Nat.not_le] at hne
  refine ⟨w.arrived[w.calls.length], _, List.getElem?_eq_getElem hne, rfl, ?_⟩
  have hdrop := List.drop_eq_getElem_cons hne
  have hstatus := h.status
  have hwords := h.data
  rw [hdrop, List.map_cons] at hstatus
  rw [hdrop, List.flatMap_cons] at hwords
  rw [← hstatus, ← hwords]

theorem InStep.receive (h : InStep w) (buf : List UInt8) : InStep (step w (.receive buf)) := by
  by_cases hdata : w.dev.hasRxData = true
  · obtain ⟨p, rest, hp, hrest, hdev⟩ := h.next hdata
    have hlt : w.calls.length < w.arrived.length := (List.getElem?_eq_some_iff.mp hp).1
    have hstep : step w (.receive buf) =
        ⟨⟨rest.map Packet.status, rest.flatMap Packet.words⟩, w.arrived,
          w.calls ++ [⟨buf, (p.expected buf).1, (p.expected buf).2⟩]⟩ := by
      have hreceive := receive_packet p buf (hdev ▸ hdata)
      rw [← hdev] at hreceive
      simp only [step, hreceive, if_pos hdata]
    rw [hstep]
    constructor
    · simpa using Nat.succ_le_of_lt hlt
    · intro k call hcall
      obtain hk | hk := Nat.lt_or_ge k w.calls.length
      · rw [List.getElem?_append_left hk] at hcall
        exact h.answers k call hcall
      · have hlast : k = w.calls.length := by
          have := (List.getElem?_eq_some_iff.mp hcall).1
          simp at this
          omega
        subst hlast
        rw [List.getElem?_concat_length] at hcall
        cases hcall
        exact ⟨p, hp, rfl⟩
    · simp [hrest]
    · simp [hrest]
  · have hstep : step w (.receive buf) = w := by
      simp only [step, receive_of_not_hasRxData buf hdata, if_neg hdata]
    rw [hstep]
    exact h

/-- Whatever arrives and whatever buffers are given, the calls stay in step with the packets. -/
theorem receive_in_step (acts : List Act) : InStep (acts.foldl step World.new) := by
  apply List.foldlRecOn (motive := InStep)
  · exact ⟨Nat.le_refl 0, fun k call h => (by simp [World.new] at h), rfl, rfl⟩
  · intro w h act _
    cases act with
    | arrive p => exact h.arrive p
    | receive buf => exact h.receive buf

end OpenIon.Drivers.Lan9118
