import DnsLattice.LengthPrefixed
import DnsLattice.StreamModel

/-!
# The reader of a stream connection

The loop that cuts what a connection receives into frames and hands each of
them to `dispatch`.  What `dispatch` does with a frame is left open: it is
any function of a state of its own.  The peer's bytes come in reads of any
sizes, and whatever those are, the frames handed over are those of the whole
stream.
-/

namespace DnsLattice

open Run

namespace StreamConn

def maxFrameLen : ℕ := 2 + 65535

def initialReadBuffer : ℕ := 2048

/-- The reader between two reads.  `incoming` is what the peer still sends
before it closes the connection; `reads` and `peak` count the reads and the
most bytes buffered so far, and `handed` lists the frames `dispatch` got. -/
structure ReaderState (σ : Type) where
  shared : σ
  buf : List UInt8
  capacity : ℕ
  incoming : List UInt8
  reads : ℕ
  handed : List (List UInt8)
  peak : ℕ

inductive ReaderEnd where
  /-- `dispatch` returned false. -/
  | stopped
  /-- The stream ended, and the connection failed. -/
  | failed (failure : Failure)
deriving DecidableEq

section Reader

variable {σ : Type} (dispatch : σ → List UInt8 → Bool × σ)

/-- One round of the inner loop, over the bytes after `consumed`. -/
def dispatchStep (buf : List UInt8)
    (state : ℕ × σ × List (List UInt8)) :
    Run Error ((ℕ × σ × List (List UInt8)) ⊕
      (Bool × ℕ × σ × List (List UInt8))) :=
  let (consumed, shared, handed) := state
  match splitFrame (buf.drop consumed) with
  | none => .ok (.inr (true, consumed, shared, handed))
  | some (frame, _) =>
      match dispatch shared frame with
      | (false, shared) =>
          .ok (.inr (false, consumed, shared, handed ++ [frame]))
      | (true, shared) =>
          .ok (.inl (consumed + (2 + frame.length), shared,
            handed ++ [frame]))

def dispatchFrames (state : ReaderState σ) :
    Run Error (Bool × ℕ × σ × List (List UInt8)) :=
  loop (dispatchStep dispatch state.buf) (state.buf.length + 1)
    (0, state.shared, state.handed)

def grownCapacity (len capacity : ℕ) : ℕ :=
  if len = capacity then
    len + max (min (max (capacity * 2) initialReadBuffer) maxFrameLen - len) 1
  else capacity

/-- One round of the outer loop.  A read returns at least one byte until the
stream ends and never more than there is room for; `sizes` says how many it
would return otherwise. -/
def readerStep (sizes : ℕ → ℕ) (state : ReaderState σ) :
    Run Error (ReaderState σ ⊕ (ReaderEnd × ReaderState σ)) := do
  let (goesOn, consumed, shared, handed) ← dispatchFrames dispatch state
  if goesOn then
    let buf := state.buf.drop consumed
    let capacity := grownCapacity buf.length state.capacity
    let count := min (sizes state.reads + 1) (capacity - buf.length)
    match state.incoming.take count with
    | [] =>
        let reason :=
          if buf.isEmpty then "upstream closed the connection"
          else "upstream closed the connection in the middle of a response"
        .ok (.inr (.failed (.closed reason),
          { state with shared, handed, buf, capacity }))
    | byte :: more =>
        let received := buf ++ byte :: more
        .ok (.inl
          { shared, handed, capacity, buf := received
            incoming := state.incoming.drop count
            reads := state.reads + 1
            peak := max state.peak received.length })
  else
    .ok (.inr (.stopped, { state with shared, handed }))

def runReader (sizes : ℕ → ℕ) (shared : σ) (stream : List UInt8) :
    Run Error (ReaderEnd × ReaderState σ) :=
  loop (readerStep dispatch sizes) (stream.length + 1)
    { shared, buf := [], capacity := initialReadBuffer, incoming := stream
      reads := 0, handed := [], peak := 0 }

/-! ## What a sequence of frames does -/

/-- Handing over frames one after the other until one is refused: those
handed over, the state they leave, and whether all were taken. -/
def handOver : σ → List (List UInt8) → List (List UInt8) × σ × Bool
  | shared, [] => ([], shared, true)
  | shared, frame :: frames =>
      match dispatch shared frame with
      | (false, after) => ([frame], after, false)
      | (true, after) =>
          let (handed, last, goesOn) := handOver after frames
          (frame :: handed, last, goesOn)

variable {dispatch}

theorem handOver_append
    {shared after : σ} {frames handed : List (List UInt8)} {goesOn : Bool}
    (hframes : handOver dispatch shared frames = (handed, after, goesOn))
    (more : List (List UInt8)) :
    handOver dispatch shared (frames ++ more) =
      if goesOn then
        (handed ++ (handOver dispatch after more).1,
          (handOver dispatch after more).2)
      else (handed, after, false) := by
  induction frames generalizing shared handed with
  | nil =>
    obtain ⟨rfl, rfl, rfl⟩ : [] = handed ∧ shared = after ∧ true = goesOn := by
      simpa [handOver] using hframes
    simp
  | cons frame frames ih =>
    rcases hdispatch : dispatch shared frame with ⟨taken, next⟩
    cases taken with
    | false =>
      obtain ⟨rfl, rfl, rfl⟩ :
          [frame] = handed ∧ next = after ∧ false = goesOn := by
        simpa [handOver, hdispatch] using hframes
      simp [handOver, hdispatch]
    | true =>
      rcases hrest : handOver dispatch next frames with
        ⟨later, last, through⟩
      obtain ⟨rfl, rfl, rfl⟩ :
          frame :: later = handed ∧ last = after ∧ through = goesOn := by
        simpa [handOver, hdispatch, hrest] using hframes
      simp only [List.cons_append, handOver, hdispatch, ih hrest]
      cases through <;> simp

/-- Of a stream, the frames in `handed` were handed over, which left `rest`
and, if `goesOn`, were all taken. -/
structure Handed (dispatch : σ → List UInt8 → Bool × σ) (start : σ)
    (stream : List UInt8) (handed : List (List UInt8)) (shared : σ)
    (rest : List UInt8) (goesOn : Bool) : Prop where
  hserved : handOver dispatch start handed = (handed, shared, goesOn)
  hstream : handed.flatMap frameWire ++ rest = stream
  hlength : ∀ frame ∈ handed, frame.length < 65536

variable {start shared after : σ} {stream rest frame : List UInt8}
  {handed : List (List UInt8)} {goesOn : Bool}

theorem Handed.next
    (hhanded : Handed dispatch start stream handed shared
      (frameWire frame ++ rest) true)
    (hframe : frame.length < 65536)
    (hdispatch : dispatch shared frame = (goesOn, after)) :
    Handed dispatch start stream (handed ++ [frame]) after rest goesOn where
  hserved := by
    rw [handOver_append hhanded.hserved, if_pos rfl]
    cases goesOn <;> simp [handOver, hdispatch]
  hstream := by
    rw [← hhanded.hstream]
    simp
  hlength := by
    simpa [or_imp, forall_and] using ⟨hhanded.hlength, hframe⟩

theorem Handed.framesOf_eq
    (hhanded : Handed dispatch start stream handed shared rest goesOn) :
    framesOf stream = (handed ++ (framesOf rest).1, (framesOf rest).2) := by
  rw [← hhanded.hstream, framesOf_append hhanded.hlength]

/-! ## The loops -/

def Drained (dispatch : σ → List UInt8 → Bool × σ) (start : σ)
    (stream : List UInt8) (state : ReaderState σ) :
    Bool × ℕ × σ × List (List UInt8) → Prop
  | (true, consumed, shared, handed) =>
      Handed dispatch start stream handed shared
          (state.buf.drop consumed ++ state.incoming) true ∧
        splitFrame (state.buf.drop consumed) = none
  | (false, _, shared, handed) =>
      ∃ rest, Handed dispatch start stream handed shared rest false

theorem dispatchFrames_spec {state : ReaderState σ}
    (hhanded : Handed dispatch start stream state.handed state.shared
      (state.buf ++ state.incoming) true) :
    ∃ value, dispatchFrames dispatch state = .ok value ∧
      Drained dispatch start stream state value := by
  refine exists_loop_of_measure
    (fun inner : ℕ × σ × List (List UInt8) =>
      Handed dispatch start stream inner.2.2 inner.2.1
        (state.buf.drop inner.1 ++ state.incoming) true)
    (fun inner => (state.buf.drop inner.1).length) _ ?_ hhanded
    (Nat.lt_succ_self state.buf.length)
  rintro ⟨consumed, shared, handed⟩ hinvariant
  simp only at hinvariant
  rcases hsplit : splitFrame (state.buf.drop consumed) with
    _ | ⟨frame, rest⟩
  · exact .inr ⟨(true, consumed, shared, handed),
      by simp only [dispatchStep, hsplit], hinvariant, hsplit⟩
  · obtain ⟨hdrop, hframe⟩ := eq_frameWire_of_splitFrame hsplit
    have hrest : state.buf.drop (consumed + (2 + frame.length)) = rest := by
      rw [← List.drop_drop, hdrop, ← length_frameWire, List.drop_left]
    rcases hdispatch : dispatch shared frame with ⟨taken, next⟩
    rw [hdrop, List.append_assoc] at hinvariant
    have hnext := hinvariant.next hframe hdispatch
    cases taken with
    | false =>
      exact .inr ⟨(false, consumed, next, handed ++ [frame]),
        by simp only [dispatchStep, hsplit, hdispatch], _, hnext⟩
    | true =>
      refine .inl
        ⟨(consumed + (2 + frame.length), next, handed ++ [frame]),
          by simp only [dispatchStep, hsplit, hdispatch], ?_, ?_⟩
      · simpa only [hrest] using hnext
      · simp only [hrest, hdrop, List.length_append, length_frameWire]
        omega

/-- What holds before every round: the buffer has at most its capacity, which
never exceeds the longest frame. -/
structure ReaderState.Sound (dispatch : σ → List UInt8 → Bool × σ) (start : σ)
    (stream : List UInt8) (state : ReaderState σ) : Prop where
  hhanded : Handed dispatch start stream state.handed state.shared
    (state.buf ++ state.incoming) true
  hbuf : state.buf.length ≤ state.capacity
  hpositive : 0 < state.capacity
  hcapacity : state.capacity ≤ maxFrameLen
  hpeak : state.peak ≤ maxFrameLen

/-- A buffer without a complete frame is given room for another byte, and
never more than a frame needs. -/
theorem grownCapacity_spec
    {len capacity : ℕ} (hlen : len ≤ capacity) (hpositive : 0 < capacity)
    (hcapacity : capacity ≤ maxFrameLen) (hpart : len < 2 + 65535) :
    len < grownCapacity len capacity ∧
      grownCapacity len capacity ≤ maxFrameLen := by
  simp only [grownCapacity, initialReadBuffer, maxFrameLen] at hcapacity ⊢
  split_ifs with hfull
  · omega
  · exact ⟨lt_of_le_of_ne hlen hfull, hcapacity⟩

structure ReaderState.Final (dispatch : σ → List UInt8 → Bool × σ) (start : σ)
    (stream : List UInt8) (ended : ReaderEnd) (state : ReaderState σ) :
    Prop where
  hhanded : (state.handed, state.shared, decide (ended ≠ .stopped)) =
    handOver dispatch start (framesOf stream).1
  hended : ended ≠ .stopped →
    state.buf = (framesOf stream).2 ∧
    ended = .failed (.closed
      (if (framesOf stream).2 = [] then "upstream closed the connection"
        else "upstream closed the connection in the middle of a response"))
  hpeak : state.peak ≤ maxFrameLen

theorem readerStep_spec (sizes : ℕ → ℕ) {state : ReaderState σ}
    (hstate : state.Sound dispatch start stream) :
    (∃ next, readerStep dispatch sizes state = .ok (.inl next) ∧
      next.Sound dispatch start stream ∧
      next.incoming.length < state.incoming.length) ∨
    ∃ value, readerStep dispatch sizes state = .ok (.inr value) ∧
      value.2.Final dispatch start stream value.1 := by
  obtain ⟨⟨goesOn, consumed, shared, handed⟩, hframes, hresult⟩ :=
    dispatchFrames_spec hstate.hhanded
  cases goesOn with
  | false =>
    -- a refused frame ends the reader, whatever is still buffered
    obtain ⟨rest, hhanded⟩ := hresult
    refine .inr ⟨(.stopped, { state with shared, handed }),
      by simp [readerStep, hframes], ?_, by simp, hstate.hpeak⟩
    rw [hhanded.framesOf_eq, handOver_append hhanded.hserved]
    simp
  | true =>
    obtain ⟨hhanded, hpart⟩ := hresult
    obtain ⟨hroom, hcapacity⟩ := grownCapacity_spec
      ((List.drop_sublist consumed state.buf).length_le.trans hstate.hbuf)
      hstate.hpositive hstate.hcapacity
      (length_lt_of_splitFrame_none hpart)
    generalize hbuf : state.buf.drop consumed = buf at *
    generalize hgrown : grownCapacity buf.length state.capacity = capacity
      at *
    rcases hread : state.incoming.take
        (min (sizes state.reads + 1) (capacity - buf.length)) with
      _ | ⟨byte, more⟩
    · -- there was room, so nothing is left of the stream
      have hincoming : state.incoming = [] := by
        rcases List.take_eq_nil_iff.mp hread with hzero | hnil
        · omega
        · exact hnil
      rw [hincoming, List.append_nil] at hhanded
      have hframesOf := hhanded.framesOf_eq
      rw [framesOf_of_none hpart, List.append_nil] at hframesOf
      refine .inr ⟨_, by
        simp only [readerStep, hframes, ok_bind, hbuf, hgrown, hread, if_true]
        rfl, ?_, ?_, hstate.hpeak⟩
      · simpa [hframesOf] using hhanded.hserved.symm
      · simp [hframesOf]
    · have hlength := congrArg List.length hread
      rw [List.length_take, List.length_cons] at hlength
      refine .inl ⟨_, by
        simp only [readerStep, hframes, ok_bind, hbuf, hgrown, hread, if_true]
        rfl, ?_, ?_⟩
      · refine ⟨?_, ?_, Nat.zero_lt_of_lt hroom, hcapacity, ?_⟩
        · rw [List.append_assoc, ← hread, List.take_append_drop]
          exact hhanded
        · simp only [List.length_append, List.length_cons]
          omega
        · simp only [List.length_append, List.length_cons]
          have hpeak := hstate.hpeak
          omega
      · simp only [List.length_drop]
        omega

/-- However a stream is cut into reads, the reader hands over its complete
frames in order, up to the first that is refused, keeps the incomplete rest,
and reports a close in the middle of a response exactly when that is not
empty.  It never buffers more than the longest frame. -/
theorem runReader_eq_framesOf
    {σ : Type} (dispatch : σ → List UInt8 → Bool × σ) (start : σ)
    (stream : List UInt8) (sizes : ℕ → ℕ) :
    ∃ ended state,
      runReader dispatch sizes start stream = .ok (ended, state) ∧
      (state.handed, state.shared, decide (ended ≠ .stopped)) =
        handOver dispatch start (framesOf stream).1 ∧
      (ended ≠ .stopped →
        state.buf = (framesOf stream).2 ∧
        ended = .failed (.closed
          (if (framesOf stream).2 = [] then "upstream closed the connection"
            else
              "upstream closed the connection in the middle of a response"))) ∧
      state.peak ≤ 65537 := by
  have hrun : ∃ value, runReader dispatch sizes start stream = .ok value ∧
      value.2.Final dispatch start stream value.1 :=
    exists_loop_of_measure (ReaderState.Sound dispatch start stream)
      (fun state => state.incoming.length) _
      (fun state hstate => readerStep_spec sizes hstate)
      ⟨⟨rfl, rfl, by simp⟩, by simp, Nat.succ_pos 2047,
        by simp [initialReadBuffer, maxFrameLen], by simp⟩
      (Nat.lt_succ_self stream.length)
  obtain ⟨⟨ended, state⟩, hvalue, hfinal⟩ := hrun
  exact ⟨ended, state, hvalue, hfinal.hhanded, hfinal.hended, hfinal.hpeak⟩

end Reader

end StreamConn

end DnsLattice
