import OpenIon.Driver.RxBuffer

/-! # The order of the console input

`pop_from_rx_buf` of `driver/char.rs` takes a byte from the receive ring or, when the ring is empty,
from the UART itself, while the receive interrupt of `ns16550a` moves bytes from the UART to the
ring. A call of the ring is one step here, since `RxBuffer` allows any interleaving inside it.
-/
namespace OpenIon.Driver.ConsoleInput
open Lib RxBuffer

structure RxRing where
  data : ℕ → UInt8
  head : ℕ
  tail : ℕ

def RxRing.new : RxRing := ⟨fun _ => 0, 0, 0⟩

/-- `RxBuffer::push`; `none` is the answer `false`, which leaves the ring as it is. -/
def RxRing.push (r : RxRing) (val : UInt8) : Option RxRing :=
  let nextHead := (r.head + 1) % bufSize
  if nextHead = r.tail then none
  else some { r with data := Function.update r.data r.head val, head := nextHead }

def RxRing.pop (r : RxRing) : Option (UInt8 × RxRing) :=
  if r.tail = r.head then none
  else some (r.data r.tail, { r with tail := (r.tail + 1) % bufSize })

def RxRing.unread (r : RxRing) : List UInt8 :=
  (List.range ((r.head + bufSize - r.tail) % bufSize)).map fun i => r.data ((r.tail + i) % bufSize)

inductive Consumer where
  /-- No call is running. -/
  | idle
  | pop
  /-- Read the poll function under its lock. -/
  | lock
  | disableIrq
  | poll
  /-- Enable the interrupts and return the polled byte, if there is one. -/
  | enableIrq (byte : Option UInt8)
  | popAgain
deriving DecidableEq

structure World where
  ring : RxRing
  /-- The bytes the UART has received and nobody has read. -/
  fifo : List UInt8
  /-- `RX_POLL_FN` is set. -/
  polled : Bool
  irqEnabled : Bool
  /-- `handle_irq` is running. -/
  handling : Bool
  consumer : Consumer
  received : List UInt8
  returned : List UInt8

def World.new (polled : Bool) : World := ⟨RxRing.new, [], polled, true, false, .idle, [], []⟩

/-- `getc`: the data bit of the line status is set when a byte waits. -/
def getc : List UInt8 → Option UInt8 × List UInt8
  | [] => (none, [])
  | byte :: rest => (some byte, rest)

/-- `push_to_rx_buf`: a byte that the ring refuses is dropped. -/
def pushToRxBuf (r : RxRing) (byte : UInt8) : RxRing := (r.push byte).getD r

/-- One turn of the loop of `handle_irq`. -/
def drain (w : World) : World :=
  match getc w.fifo with
  | (some byte, rest) => { w with ring := pushToRxBuf w.ring byte, fifo := rest }
  | (none, rest) => { w with fifo := rest, handling := false }

def World.answer (w : World) (byte : Option UInt8) : World :=
  { w with consumer := .idle, returned := w.returned ++ byte.toList }

def consume (w : World) : World :=
  match w.consumer with
  | .idle => { w with consumer := .pop }
  | .pop =>
    match w.ring.pop with
    | some (byte, ring) => { w with ring }.answer (some byte)
    | none => { w with consumer := .lock }
  | .lock => if w.polled then { w with consumer := .disableIrq } else w.answer none
  | .disableIrq => { w with irqEnabled := false, consumer := .poll }
  | .poll => { w with fifo := (getc w.fifo).2, consumer := .enableIrq (getc w.fifo).1 }
  | .enableIrq (some byte) => { w with irqEnabled := true }.answer (some byte)
  | .enableIrq none => { w with irqEnabled := true, consumer := .popAgain }
  | .popAgain =>
    match w.ring.pop with
    | some (byte, ring) => { w with ring }.answer (some byte)
    | none => w.answer none

inductive Act where
  /-- The UART receives a byte. -/
  | receive (byte : UInt8)
  /-- The hart takes the receive interrupt. -/
  | interrupt
  | drain
  | consume

/-- The handler runs on the consumer's hart, so the consumer waits for its end. -/
def step (w : World) : Act → Option World
  | .receive byte => some { w with fifo := w.fifo ++ [byte], received := w.received ++ [byte] }
  | .interrupt =>
    if w.irqEnabled ∧ ¬ w.handling then some { w with handling := true } else none
  | .drain => if w.handling then some (drain w) else none
  | .consume => if w.handling then none else some (consume w)

/-- The byte that the consumer has polled and not returned yet. -/
def World.held (w : World) : List UInt8 :=
  match w.consumer with
  | .enableIrq byte => byte.toList
  | _ => []

/-- The received bytes are the returned ones and the ones still on their way, in this order. -/
def InOrder (w : World) : Prop :=
  w.received = w.returned ++ w.held ++ w.ring.unread ++ w.fifo

/-- The ring refuses no byte in this step. -/
def Fits (w : World) : Act → Prop
  | .drain => w.fifo ≠ [] → (w.ring.head + 1) % bufSize ≠ w.ring.tail
  | _ => True

/-- A direct poll that finds a byte finds it while the ring is empty. -/
def InTurn (w : World) : Act → Prop
  | .consume => w.consumer = .poll → w.fifo ≠ [] → w.ring.tail = w.ring.head
  | _ => True

instance Fits.instDecidable (w : World) : (act : Act) → Decidable (Fits w act)
  | .receive _ | .interrupt | .consume => isTrue trivial
  | .drain => inferInstanceAs (Decidable (w.fifo ≠ [] → (w.ring.head + 1) % bufSize ≠ w.ring.tail))

instance InTurn.instDecidable (w : World) : (act : Act) → Decidable (InTurn w act)
  | .receive _ | .interrupt | .drain => isTrue trivial
  | .consume =>
    inferInstanceAs (Decidable (w.consumer = .poll → w.fifo ≠ [] → w.ring.tail = w.ring.head))

/-! ## The ring between two calls -/

abbrev Contents (r : RxRing) (pending : List UInt8) : Prop :=
  Ring.Filled bufSize r.data r.tail r.head pending

variable {r r' : RxRing} {pending : List UInt8} {byte : UInt8}

theorem Contents.new : Contents RxRing.new [] := ⟨Ring.Holds.nil, by decide, by decide, rfl⟩

theorem Contents.unread (h : Contents r pending) : r.unread = pending := by
  have hcount : (r.head + bufSize - r.tail) % bufSize = pending.length := by
    have hroom := h.room
    have htail := h.start_lt
    rw [h.stop_eq, bufSize] at *
    omega
  refine List.ext_getElem (by simp [RxRing.unread, hcount]) fun i hi hi' => ?_
  simpa [RxRing.unread] using h.holds i hi'

theorem Contents.pushToRxBuf (h : Contents r pending) (hfit : (r.head + 1) % bufSize ≠ r.tail) :
    Contents (pushToRxBuf r byte) (pending ++ [byte]) := by
  rw [ConsoleInput.pushToRxBuf, RxRing.push, if_neg hfit, Option.getD_some]
  exact h.write.push (h.free_of_ne hfit) (Function.update_self ..)

theorem Contents.pop_some (h : Contents r pending) (hpop : r.pop = some (byte, r')) :
    ∃ rest, pending = byte :: rest ∧ Contents r' rest := by
  unfold RxRing.pop at hpop
  split_ifs at hpop with hempty
  obtain ⟨rfl, rfl⟩ := Prod.mk.inj (Option.some.inj hpop)
  obtain ⟨first, rest, rfl⟩ :=
    List.exists_cons_of_ne_nil fun heq => hempty (h.empty_iff.mpr heq)
  exact ⟨rest, by rw [h.head], h.tail⟩

/-! ## The order of the bytes -/

structure Pending (w : World) (pending : List UInt8) : Prop where
  contents : Contents w.ring pending
  order : w.received = w.returned ++ w.held ++ pending ++ w.fifo

variable {w w' : World}

theorem Pending.inOrder (h : Pending w pending) : InOrder w := by
  rw [InOrder, h.contents.unread]
  exact h.order

/-- A call that holds no byte returns the first byte of the ring. -/
theorem Pending.answer_pop (h : Pending w pending) (hheld : w.held = [])
    (hpop : w.ring.pop = some (byte, r)) :
    ∃ pending', Pending ({ w with ring := r }.answer (some byte)) pending' := by
  obtain ⟨rest, rfl, hrest⟩ := h.contents.pop_some hpop
  refine ⟨rest, hrest, ?_⟩
  have horder := h.order
  rw [hheld, List.append_nil] at horder
  simpa [World.answer, World.held] using horder

theorem Pending.drain (h : Pending w pending) (hfit : Fits w .drain) :
    ∃ pending', Pending (drain w) pending' := by
  have horder := h.order
  cases hfifo : w.fifo with
  | nil =>
    rw [hfifo] at horder
    refine ⟨pending, ?_⟩
    rw [ConsoleInput.drain, hfifo]
    exact ⟨h.contents, horder⟩
  | cons byte rest =>
    have hfree : (w.ring.head + 1) % bufSize ≠ w.ring.tail := hfit (by simp [hfifo])
    rw [hfifo] at horder
    refine ⟨pending ++ [byte], ?_⟩
    rw [ConsoleInput.drain, hfifo]
    refine ⟨h.contents.pushToRxBuf hfree, ?_⟩
    calc w.received = w.returned ++ w.held ++ pending ++ byte :: rest := horder
      _ = w.returned ++ w.held ++ (pending ++ [byte]) ++ rest := by simp

theorem Pending.consume (h : Pending w pending) (hturn : InTurn w .consume) :
    ∃ pending', Pending (consume w) pending' := by
  have horder := h.order
  unfold ConsoleInput.consume
  cases hpc : w.consumer with
  | idle => exact ⟨pending, h.contents, by simpa [World.held, hpc] using horder⟩
  | pop =>
    cases hpop : w.ring.pop with
    | none => exact ⟨pending, h.contents, by simpa [World.held, hpc] using horder⟩
    | some popped => exact h.answer_pop (by simp [World.held, hpc]) hpop
  | lock =>
    dsimp only
    split_ifs
    · exact ⟨pending, h.contents, by simpa [World.held, hpc] using horder⟩
    · exact ⟨pending, h.contents, by simpa [World.answer, World.held, hpc] using horder⟩
  | disableIrq => exact ⟨pending, h.contents, by simpa [World.held, hpc] using horder⟩
  | poll =>
    refine ⟨pending, h.contents, ?_⟩
    cases hfifo : w.fifo with
    | nil => simpa [World.held, hpc, getc, hfifo] using horder
    | cons byte rest =>
      -- The byte overtakes nothing, because the ring is empty.
      have hempty : pending = [] := h.contents.empty_iff.mp (hturn hpc (by simp [hfifo]))
      simpa [World.held, hpc, getc, hfifo, hempty] using horder
  | enableIrq byte =>
    cases byte with
    | none => exact ⟨pending, h.contents, by simpa [World.held, hpc] using horder⟩
    | some byte =>
      exact ⟨pending, h.contents, by simpa [World.answer, World.held, hpc] using horder⟩
  | popAgain =>
    cases hpop : w.ring.pop with
    | none => exact ⟨pending, h.contents, by simpa [World.answer, World.held, hpc] using horder⟩
    | some popped => exact h.answer_pop (by simp [World.held, hpc]) hpop

theorem Pending.step (h : Pending w pending) {act : Act} (hfit : Fits w act) (hturn : InTurn w act)
    (hstep : step w act = some w') : ∃ pending', Pending w' pending' := by
  unfold ConsoleInput.step at hstep
  cases act with
  | receive byte =>
    cases hstep
    refine ⟨pending, h.contents, ?_⟩
    rw [h.order, List.append_assoc]
    rfl
  | interrupt =>
    dsimp only at hstep
    split_ifs at hstep
    cases hstep
    exact ⟨pending, h.contents, h.order⟩
  | drain =>
    dsimp only at hstep
    split_ifs at hstep
    cases hstep
    exact h.drain hfit
  | consume =>
    dsimp only at hstep
    split_ifs at hstep
    cases hstep
    exact h.consume hturn

def Allowed (w : World) (act : Act) : Prop := Fits w act ∧ InTurn w act

instance Allowed.instDecidable (w : World) (act : Act) : Decidable (Allowed w act) :=
  inferInstanceAs (Decidable (_ ∧ _))

/-- While the ring refuses no byte and no direct poll overtakes the ring, the returned bytes are the
received ones in the order of their arrival, and all others are still on their way. -/
theorem input_in_order (polled : Bool) (acts : List Act)
    (halong : Along step Allowed (World.new polled) acts) :
    Always step InOrder (World.new polled) acts := by
  have hstart : Pending (World.new polled) [] := ⟨Contents.new, rfl⟩
  have halways : Always step (fun w => ∃ pending, Pending w pending) (World.new polled) acts :=
    halong.always (fun w act w' h hok hstep => h.elim fun _ hw => hw.step hok.1 hok.2 hstep)
      ⟨[], hstart⟩
  exact halways.imp fun w h => h.elim fun _ hw => hw.inOrder

/-- One byte is popped from the ring, the next one polled. -/
def quietInput : List Act :=
  [.receive 0x61, .interrupt, .drain, .drain, .consume, .consume, .consume, .consume, .consume,
    .consume, .receive 0x62, .consume, .consume]

theorem quiet_input_in_order :
    Along step Allowed (World.new true) quietInput ∧
      ∃ w, run step (World.new true) quietInput = some w ∧ w.returned = [0x61, 0x62] ∧
        InOrder w := by
  have hallowed : Along step Allowed (World.new true) quietInput := by decide
  have htest : (run step (World.new true) quietInput).any (fun w =>
      decide (w.returned = [0x61, 0x62])) = true := by
    decide
  obtain ⟨w, hrun, hreturned⟩ := (Option.any_eq_true _ _).mp htest
  exact ⟨hallowed, w, hrun, of_decide_eq_true hreturned,
    (input_in_order true quietInput hallowed).last hrun⟩

/-- The interrupt moves the first byte to the ring after the consumer found the ring empty, and the
second byte reaches the UART before the poll. -/
def overtaken : List Act :=
  [.consume, .consume, .receive 0x61, .interrupt, .drain, .drain, .consume, .consume,
    .receive 0x62, .consume, .consume, .consume, .consume]

/-- The ring never fills, and the two bytes are returned in the wrong order. -/
theorem polled_byte_overtakes :
    Along step Fits (World.new true) overtaken ∧
      ∃ w, run step (World.new true) overtaken = some w ∧ w.received = [0x61, 0x62] ∧
        w.returned = [0x62, 0x61] ∧ ¬ InOrder w := by
  refine ⟨by decide, ?_⟩
  have htest : (run step (World.new true) overtaken).any (fun w =>
      decide (w.received = [0x61, 0x62] ∧ w.returned = [0x62, 0x61])) = true := by
    decide
  obtain ⟨w, hrun, hfacts⟩ := (Option.any_eq_true _ _).mp htest
  obtain ⟨hreceived, hreturned⟩ := of_decide_eq_true hfacts
  refine ⟨w, hrun, hreceived, hreturned, fun horder => ?_⟩
  rw [InOrder, hreceived, hreturned] at horder
  simp at horder

/-- The condition on the polls is needed: with different bytes, a poll that overtakes the ring
breaks the order at once. -/
theorem Pending.overtakes (h : Pending w pending) (hnodup : w.received.Nodup)
    (hpc : w.consumer = .poll) (hfifo : w.fifo ≠ []) (hsome : w.ring.tail ≠ w.ring.head) :
    ¬ InOrder (ConsoleInput.consume w) := by
  obtain ⟨byte, rest, hfifo⟩ := List.exists_cons_of_ne_nil hfifo
  obtain ⟨first, others, rfl⟩ :=
    List.exists_cons_of_ne_nil fun heq => hsome (h.contents.empty_iff.mpr heq)
  intro horder
  have hreceived := h.order
  simp only [InOrder, ConsoleInput.consume, hpc, World.held, hfifo, getc, h.contents.unread,
    Option.toList_some, List.append_assoc, List.nil_append] at horder hreceived
  have heq : byte = first := by
    rw [hreceived] at horder
    exact (List.cons.inj (List.append_cancel_left horder)).1.symm
  rw [hreceived, heq] at hnodup
  simp [List.nodup_append, List.nodup_cons] at hnodup

end OpenIon.Driver.ConsoleInput
