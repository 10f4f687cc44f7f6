import OpenIon.Lib.Run
import OpenIon.Lib.Ring

/-! # The receive ring of the UART

`RxBuffer` of `driver/char.rs` with one producer and one consumer, which take steps of one access
to the shared memory in any order. The bytes that `push` accepted and `pop` returned and the
number of refused bytes are recorded. The unread bytes are always in the ring, in their order.
-/
namespace OpenIon.Driver.RxBuffer
open Lib

def bufSize : ℕ := 128

inductive Producer where
  | idle
  | loadTail (val : UInt8) (head : ℕ)
  | write (val : UInt8) (head : ℕ)
  | storeHead (val : UInt8) (head : ℕ)

inductive Consumer where
  | idle
  | loadHead (tail : ℕ)
  | read (tail : ℕ)
  | storeTail (tail : ℕ) (val : UInt8)

structure World where
  data : ℕ → UInt8
  head : ℕ
  tail : ℕ
  producer : Producer
  consumer : Consumer
  accepted : List UInt8
  refused : ℕ
  returned : List UInt8

def World.new : World := ⟨fun _ => 0, 0, 0, .idle, .idle, [], 0, []⟩

def produce (w : World) : Option World :=
  match w.producer with
  | .idle => none
  | .loadTail val head =>
    if (head + 1) % bufSize = w.tail then
      some { w with producer := .idle, refused := w.refused + 1 }
    else some { w with producer := .write val head }
  | .write val head =>
    some { w with data := Function.update w.data head val, producer := .storeHead val head }
  | .storeHead val head =>
    some { w with
      head := (head + 1) % bufSize
      producer := .idle
      accepted := w.accepted ++ [val] }

def consume (w : World) : Option World :=
  match w.consumer with
  | .idle => none
  | .loadHead tail =>
    if tail = w.head then some { w with consumer := .idle }
    else some { w with consumer := .read tail }
  | .read tail => some { w with consumer := .storeTail tail (w.data tail) }
  | .storeTail tail val =>
    some { w with
      tail := (tail + 1) % bufSize
      consumer := .idle
      returned := w.returned ++ [val] }

inductive Act where
  /-- The first access of `push(val)`. -/
  | push (val : UInt8)
  | produce
  /-- The first access of `pop`. -/
  | pop
  | consume

def step (w : World) : Act → Option World
  | .push val =>
    match w.producer with
    | .idle => some { w with producer := .loadTail val w.head }
    | _ => none
  | .produce => produce w
  | .pop =>
    match w.consumer with
    | .idle => some { w with consumer := .loadHead w.tail }
    | _ => none
  | .consume => consume w

def World.unread (w : World) : List UInt8 := w.accepted.drop w.returned.length

/-- The producer has seen the head, and a cell that was free when it looked is still free. -/
def ProducerOk (w : World) (pending : List UInt8) : Prop :=
  match w.producer with
  | .idle => True
  | .loadTail _ head => head = w.head
  | .write _ head => head = w.head ∧ pending.length + 1 < bufSize
  | .storeHead val head => head = w.head ∧ pending.length + 1 < bufSize ∧ w.data head = val

/-- The consumer has seen the tail, and a byte that was there when it looked is still first. -/
def ConsumerOk (w : World) (pending : List UInt8) : Prop :=
  match w.consumer with
  | .idle => True
  | .loadHead tail => tail = w.tail
  | .read tail => tail = w.tail ∧ pending ≠ []
  | .storeTail tail val => tail = w.tail ∧ pending.head? = some val

/-- The ring holds the bytes `pending`, and both sides know what they may do. -/
structure Queue (w : World) (pending : List UInt8) : Prop where
  history : w.accepted = w.returned ++ pending
  ring : Ring.Filled bufSize w.data w.tail w.head pending
  producer : ProducerOk w pending
  consumer : ConsumerOk w pending

variable {w w' : World} {pending : List UInt8}

theorem Queue.unread (h : Queue w pending) : w.unread = pending := by
  rw [World.unread, h.history, List.drop_left]

theorem Queue.produce (h : Queue w pending) (hstep : produce w = some w') :
    Queue w' pending ∨ ∃ val, Queue w' (pending ++ [val]) := by
  have hproducer := h.producer
  unfold ProducerOk at hproducer
  unfold RxBuffer.produce at hstep
  cases hpc : w.producer with
  | idle => simp [hpc] at hstep
  | loadTail val head =>
    simp only [hpc] at hproducer hstep
    subst hproducer
    split_ifs at hstep with hfull
    · rw [← Option.some.inj hstep]
      exact .inl ⟨h.history, h.ring, trivial, h.consumer⟩
    · rw [← Option.some.inj hstep]
      exact .inl ⟨h.history, h.ring, ⟨rfl, h.ring.free_of_ne hfull⟩, h.consumer⟩
  | write val head =>
    simp only [hpc] at hproducer hstep
    obtain ⟨rfl, hfree⟩ := hproducer
    rw [← Option.some.inj hstep]
    exact .inl ⟨h.history, h.ring.write, ⟨rfl, hfree, Function.update_self ..⟩, h.consumer⟩
  | storeHead val head =>
    simp only [hpc] at hproducer hstep
    obtain ⟨rfl, hfree, hval⟩ := hproducer
    rw [← Option.some.inj hstep]
    refine .inr ⟨val, ?_, h.ring.push hfree hval, trivial, ?_⟩
    · rw [h.history, List.append_assoc]
    · have hconsumer := h.consumer
      unfold ConsumerOk at hconsumer ⊢
      cases hc : w.consumer with
      | idle => trivial
      | loadHead tail => simpa [hc] using hconsumer
      | read tail =>
        simp only [hc] at hconsumer ⊢
        exact ⟨hconsumer.1, by simp⟩
      | storeTail tail byte =>
        simp only [hc] at hconsumer ⊢
        exact ⟨hconsumer.1, by rw [List.head?_append, hconsumer.2]; rfl⟩

theorem Queue.consume (h : Queue w pending) (hstep : consume w = some w') :
    Queue w' pending ∨ ∃ val rest, pending = val :: rest ∧ Queue w' rest := by
  have hconsumer := h.consumer
  unfold ConsumerOk at hconsumer
  unfold RxBuffer.consume at hstep
  cases hpc : w.consumer with
  | idle => simp [hpc] at hstep
  | loadHead tail =>
    simp only [hpc] at hconsumer hstep
    subst hconsumer
    split_ifs at hstep with hempty
    · rw [← Option.some.inj hstep]
      exact .inl ⟨h.history, h.ring, h.producer, trivial⟩
    · rw [← Option.some.inj hstep]
      have hsome : pending ≠ [] := fun heq => hempty (h.ring.empty_iff.mpr heq)
      exact .inl ⟨h.history, h.ring, h.producer, ⟨rfl, hsome⟩⟩
  | read tail =>
    simp only [hpc] at hconsumer hstep
    obtain ⟨rfl, hsome⟩ := hconsumer
    rw [← Option.some.inj hstep]
    obtain ⟨val, rest, rfl⟩ := List.exists_cons_of_ne_nil hsome
    exact .inl ⟨h.history, h.ring, h.producer, ⟨rfl, by rw [h.ring.head]; rfl⟩⟩
  | storeTail tail val =>
    simp only [hpc] at hconsumer hstep
    obtain ⟨rfl, hfirst⟩ := hconsumer
    rw [← Option.some.inj hstep]
    obtain ⟨rest, rfl⟩ : ∃ rest, pending = val :: rest := List.head?_eq_some_iff.mp hfirst
    refine .inr ⟨val, rest, rfl, ?_, h.ring.tail, ?_, trivial⟩
    · rw [h.history, List.append_assoc]
      rfl
    · have hproducer := h.producer
      unfold ProducerOk at hproducer ⊢
      cases hp : w.producer with
      | idle => trivial
      | loadTail byte head => simpa [hp] using hproducer
      | write byte head =>
        simp only [hp, List.length_cons] at hproducer ⊢
        exact ⟨hproducer.1, by omega⟩
      | storeHead byte head =>
        simp only [hp, List.length_cons] at hproducer ⊢
        exact ⟨hproducer.1, by omega, hproducer.2.2⟩

theorem Queue.step (h : Queue w pending) {act : Act} (hstep : step w act = some w') :
    ∃ pending', Queue w' pending' := by
  cases act with
  | push val =>
    unfold RxBuffer.step at hstep
    cases hpc : w.producer with
    | idle =>
      simp only [hpc] at hstep
      rw [← Option.some.inj hstep]
      exact ⟨pending, h.history, h.ring, rfl, h.consumer⟩
    | _ => simp [hpc] at hstep
  | produce =>
    rcases h.produce hstep with hsame | ⟨val, hmore⟩
    · exact ⟨pending, hsame⟩
    · exact ⟨_, hmore⟩
  | pop =>
    unfold RxBuffer.step at hstep
    cases hpc : w.consumer with
    | idle =>
      simp only [hpc] at hstep
      rw [← Option.some.inj hstep]
      exact ⟨pending, h.history, h.ring, h.producer, rfl⟩
    | _ => simp [hpc] at hstep
  | consume =>
    rcases h.consume hstep with hsame | ⟨val, rest, -, hless⟩
    · exact ⟨pending, hsame⟩
    · exact ⟨rest, hless⟩

theorem Queue.new : Queue World.new [] :=
  ⟨rfl, ⟨Ring.Holds.nil, by decide, by decide, rfl⟩, trivial, trivial⟩

/-- Only a push that loads the tail and finds it after the head is refused. -/
theorem step_refused {act : Act} (hstep : step w act = some w') :
    w'.refused = w.refused ∨
      ∃ val head, w.producer = .loadTail val head ∧ (head + 1) % bufSize = w.tail := by
  cases act with
  | produce =>
    simp only [step, produce] at hstep
    split at hstep
    case h_2 val head hpc =>
      split_ifs at hstep with hfull
      · exact .inr ⟨val, head, hpc, hfull⟩
      · cases hstep
        exact .inl rfl
    all_goals
      cases hstep
      try exact .inl rfl
  | consume =>
    left
    simp only [step, consume] at hstep
    split at hstep <;> (try split_ifs at hstep) <;> cases hstep <;> rfl
  | push val =>
    left
    simp only [step] at hstep
    split at hstep <;> cases hstep
    rfl
  | pop =>
    left
    simp only [step] at hstep
    split at hstep <;> cases hstep
    rfl

/-- A pop ends without a byte only if it loads the head and finds it at the tail. -/
theorem consume_misses (hstep : consume w = some w') (hidle : w'.consumer = .idle)
    (hsame : w'.returned = w.returned) : w.consumer = .loadHead w.head := by
  unfold consume at hstep
  split at hstep
  · cases hstep
  · rename_i tail hpc
    split_ifs at hstep with hempty
    · rw [hpc, hempty]
    · cases hstep
      cases hidle
  · cases hstep
    cases hidle
  · cases hstep
    simp at hsame

theorem Queue.refuse (h : Queue w pending) {val : UInt8} {head : ℕ}
    (hpc : w.producer = .loadTail val head) (hfull : (head + 1) % bufSize = w.tail) :
    pending.length + 1 = bufSize := by
  have hproducer := h.producer
  simp only [ProducerOk, hpc] at hproducer
  exact h.ring.full_iff.mp (hproducer ▸ hfull)

theorem Queue.miss (h : Queue w pending) (hpc : w.consumer = .loadHead w.head) : pending = [] := by
  have hconsumer := h.consumer
  simp only [ConsumerOk, hpc] at hconsumer
  exact h.ring.empty_iff.mp hconsumer.symm

/-- In every run the returned bytes are a beginning of the accepted ones, the ring holds the unread
bytes in their order, the indices stay below its size, a step that refuses a byte finds 127 unread
ones, and a pop that ends without a byte finds none. -/
theorem ring_is_fifo (acts : List Act) (w : World) (hrun : run step World.new acts = some w) :
    w.returned <+: w.accepted ∧ w.head < bufSize ∧ w.tail < bufSize ∧
      w.unread.length < bufSize ∧ Ring.Holds bufSize w.data w.tail w.unread ∧
      (∀ act w', step w act = some w' → w'.refused ≠ w.refused → w.unread.length = 127) ∧
      ∀ w', step w .consume = some w' → w'.consumer = .idle → w'.returned = w.returned →
        w.unread = [] := by
  obtain ⟨pending, h⟩ : ∃ pending, Queue w pending :=
    run_preserves (P := fun w => ∃ pending, Queue w pending)
      (fun w act w' hw hstep => hw.elim fun _ h => h.step hstep) ⟨[], Queue.new⟩ hrun
  rw [h.unread]
  refine ⟨⟨pending, h.history.symm⟩, ?_, h.ring.start_lt, h.ring.room, h.ring.holds, ?_, ?_⟩
  · rw [h.ring.stop_eq]
    exact Nat.mod_lt _ (by decide)
  · intro act w' hstep hrefused
    rcases step_refused hstep with hsame | ⟨val, head, hpc, hfull⟩
    · exact absurd hsame hrefused
    · exact Nat.succ.inj (h.refuse hpc hfull)
  · intro w' hstep hidle hsame
    exact h.miss (consume_misses hstep hidle hsame)

/-- A byte is pushed and popped, with the accesses of the two calls interleaved. -/
def handover : List Act :=
  [.push 0x41, .produce, .produce, .pop, .produce, .consume, .push 0x42, .consume, .produce,
    .produce, .consume, .produce]

theorem handover_is_fifo :
    ∃ w, run step World.new handover = some w ∧ w.accepted = [0x41, 0x42] ∧
      w.returned = [0x41] ∧ w.returned <+: w.accepted := by
  have htest : (run step World.new handover).any (fun w =>
      decide (w.accepted = [0x41, 0x42] ∧ w.returned = [0x41])) = true := by
    decide
  obtain ⟨w, hrun, hfacts⟩ := (Option.any_eq_true _ _).mp htest
  obtain ⟨haccepted, hreturned⟩ := of_decide_eq_true hfacts
  exact ⟨w, hrun, haccepted, hreturned, (ring_is_fifo handover w hrun).1⟩

end OpenIon.Driver.RxBuffer
