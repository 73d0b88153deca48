import Rotonda.Comms.Gate
import Rotonda.Lib.Bytes
import Rotonda.Lib.Chunks
import Rotonda.Net

/-!
The stream of BMP messages that comes over a connection: one frame per call, while statuses of the
gate come in.

The socket delivers chunks of bytes and errors.  After an error that is not fatal the socket is
kept, but the part of a frame that had been read is gone with the buffer.

* `bmpRead`: one frame; `next`: one call, with what the gate does meanwhile;
* `framing_of_boundaries`: if no error falls inside a frame, the calls return the frames one by one;
* `frame_lost`: an error after the first byte of a frame, and no frame is returned any more.
-/

namespace Rotonda.BmpIn.Stream

open Lib.Bytes Lib.Chunks List
open Comms (GateStatus)

variable {rx : Socket} {f : Frame} {frames : List Frame}

inductive ErrorKind where
  | timedOut
  | interrupted
  | notFound
  | permissionDenied
  | connectionRefused
  | connectionReset
  | connectionAborted
  | notConnected
  | addrInUse
  | addrNotAvailable
  | brokenPipe
  | alreadyExists
  | wouldBlock
  | invalidInput
  | invalidData
  | writeZero
  | unsupported
  | unexpectedEof
  | outOfMemory
  | other
  | unlisted
  deriving DecidableEq

structure IoError where
  kind : ErrorKind
  text : String
  deriving DecidableEq

def IoError.isFatal (err : IoError) : Bool :=
  match err.kind with
  | .timedOut | .interrupted | .other => false
  | _ => true

inductive TracingMode where
  | off
  | ifRequested
  | on
  deriving DecidableEq

def minBmpMsgLen : Nat := 6
def maxBmpMsgLen : Nat := 2 * 1024 * 1024

abbrev Socket := List (Event IoError)

/-- The end of the input, in the words of the library. -/
def earlyEof : IoError := ⟨.unexpectedEof, "early eof"⟩

def lengthError (len : Nat) : IoError :=
  ⟨.invalidData, s!"BMP message length {len} out of range [{minBmpMsgLen}, {maxBmpMsgLen}]"⟩

def noReceiver : IoError := ⟨.other, "Internal error: no receiver available"⟩

/-- The high half of the version byte is a trace id, unless tracing is off. -/
def takeTraceId (mode : TracingMode) (msgBuf : Bytes) : Bytes × UInt8 :=
  if mode ≠ .off then
    match msgBuf with
    | version :: rest => ((version &&& 0x0F) :: rest, version >>> 4)
    | [] => ([], 0)
  else (msgBuf, 0)

section Reading

-- what the parser has against a message, if anything
variable (fromOctets : Bytes → Option String)

def bmpRead (rx : Socket) (mode : TracingMode) :
    Except (Socket × IoError) (Socket × Bytes × UInt8) :=
  match readExact earlyEof 5 rx with
  | .error (err, rx) => .error (rx, err)
  | .ok (header, rx) =>
    let (header, traceId) := takeTraceId mode header
    let len := readBe ((header.drop 1).take 4)
    if ¬ (minBmpMsgLen ≤ len ∧ len ≤ maxBmpMsgLen) then .error (rx, lengthError len)
    else
      match readExact earlyEof (len - 5) rx with
      | .error (err, rx) => .error (rx, err)
      | .ok (body, rx) =>
        match fromOctets (header ++ body) with
        | none => .ok (rx, header ++ body, traceId)
        | some err => .error (rx, ⟨.other, err⟩)

structure BmpStream where
  rx : Option Socket

variable {κ : Type}

/-- What a call meets: the tracing mode, and what the gate returns before the read is done. -/
structure Call (κ : Type) where
  mode : TracingMode
  statuses : List (GateStatus κ)
  terminated : Bool

abbrev Returned (κ : Type) := Except IoError (Option Bytes × Option (GateStatus κ) × UInt8)

def next (s : BmpStream) (call : Call κ) : BmpStream × Returned κ :=
  match s.rx with
  | none => (s, .error noReceiver)
  | some rx =>
    if call.terminated then (⟨none⟩, .ok (none, none, 0))
    else
      match bmpRead fromOctets rx call.mode with
      | .error (rx, err) => (⟨if err.isFatal then none else some rx⟩, .error err)
      | .ok (rx, msg, traceId) => (⟨some rx⟩, .ok (some msg, call.statuses.getLast?, traceId))

def nexts (s : BmpStream) : List (Call κ) → BmpStream × List (Returned κ)
  | [] => (s, [])
  | call :: calls =>
    let (s, r) := next fromOctets s call
    let (s, rs) := nexts s calls
    (s, r :: rs)

end Reading

/-! ## Frames -/

def lengthField (bs : Bytes) : Nat := readBe ((bs.drop 1).take 4)

/-- A message whose length field is its length, and within the limits. -/
structure Frame where
  bytes : Bytes
  length_eq : lengthField bytes = bytes.length
  min_le : minBmpMsgLen ≤ bytes.length
  le_max : bytes.length ≤ maxBmpMsgLen

/-- What the calls meet on the socket, one after the other. -/
inductive Item where
  | frame (f : Frame)
  | error (e : IoError)

def framesOf : List Item → List Frame
  | [] => []
  | .frame f :: items => f :: framesOf items
  | .error _ :: items => framesOf items

def errorsOf : List Item → List IoError
  | [] => []
  | .frame _ :: items => errorsOf items
  | .error e :: items => e :: errorsOf items

/-- What a call returns for an item: a frame without its trace id if it can be parsed, and an error
otherwise. -/
def expected {κ : Type} (fromOctets : Bytes → Option String) (call : Call κ) : Item → Returned κ
  | .error e => .error e
  | .frame f =>
    let (msg, traceId) := takeTraceId call.mode f.bytes
    match fromOctets msg with
    | none => .ok (some msg, call.statuses.getLast?, traceId)
    | some err => .error ⟨.other, err⟩

def stream (frames : List Frame) : Bytes := (frames.map Frame.bytes).flatten

def AtBoundary (frames : List Frame) (before : Bytes) : Prop :=
  ∃ k, before = stream (frames.take k)

theorem Frame.bytes_ne_nil (f : Frame) : f.bytes ≠ [] := by
  intro h
  have hmin : 6 ≤ f.bytes.length := f.min_le
  rw [h] at hmin
  simp at hmin

theorem takeTraceId_append (mode : TracingMode) {header : Bytes} (hne : header ≠ []) (body : Bytes) :
    takeTraceId mode (header ++ body) =
      ((takeTraceId mode header).1 ++ body, (takeTraceId mode header).2) := by
  cases header with
  | nil => exact absurd rfl hne
  | cons version rest => cases mode <;> rfl

/-- The trace id is not in the length field. -/
theorem lengthField_takeTraceId (mode : TracingMode) (bs : Bytes) :
    lengthField (takeTraceId mode bs).1 = lengthField bs := by
  cases bs <;> cases mode <;> rfl

theorem lengthField_take (bs : Bytes) : lengthField (bs.take 5) = lengthField bs := by
  rw [lengthField, lengthField, drop_take, take_take]
  rfl

/-! ## One call -/

section Calls

variable (fromOctets : Bytes → Option String) {κ : Type}

/-- A frame with no error among its bytes is read, and nothing more. -/
theorem bmpRead_frame {more : Bytes} (hproper : Proper rx) (hbytes : bytes rx = f.bytes ++ more)
    (hclear : ErrorsAt (fun before => f.bytes.length ≤ before.length) rx) :
    ∃ rest, Took f.bytes.length rx rest ∧ ∀ mode, bmpRead fromOctets rx mode =
      match fromOctets (takeTraceId mode f.bytes).1 with
      | none => .ok (rest, (takeTraceId mode f.bytes).1, (takeTraceId mode f.bytes).2)
      | some err => .error (rest, ⟨.other, err⟩) := by
  have hmin : 6 ≤ f.bytes.length := f.min_le
  have hfive : (bytes rx).take 5 = f.bytes.take 5 := by
    rw [hbytes, take_append_of_le_length (by omega)]
  -- the header
  obtain ⟨rx₁, hread₁, htook₁⟩ := readExact_of_clear earlyEof hproper
    (by rw [hbytes, length_append]; omega)
    (hclear.imp fun before (h : f.bytes.length ≤ before.length) => (by omega : 5 ≤ before.length))
  have hbytes₁ : bytes rx₁ = f.bytes.drop 5 ++ more := by
    rw [htook₁.bytes, hbytes, drop_append_of_le_length (by omega)]
  have hclear₁ : ErrorsAt (fun before => f.bytes.length - 5 ≤ before.length) rx₁ := by
    refine (htook₁.errorsAt _ hclear).imp fun before h => ?_
    rw [hfive, length_append, length_take] at h
    omega
  -- what the length field announces
  obtain ⟨rx₂, hread₂, htook₂⟩ := readExact_of_clear earlyEof htook₁.proper
    (by rw [hbytes₁, length_append, length_drop]; omega) hclear₁
  have hbody : (bytes rx₁).take (f.bytes.length - 5) = f.bytes.drop 5 := by
    rw [hbytes₁]
    exact take_left' length_drop
  have hsize : 5 + (f.bytes.length - 5) = f.bytes.length := by omega
  refine ⟨rx₂, hsize ▸ htook₁.trans htook₂, fun mode => ?_⟩
  have hlen : readBe (((takeTraceId mode (f.bytes.take 5)).1.drop 1).take 4) = f.bytes.length := by
    have h := lengthField_takeTraceId mode (f.bytes.take 5)
    rw [lengthField_take, f.length_eq] at h
    exact h
  have hwhole : takeTraceId mode f.bytes =
      ((takeTraceId mode (f.bytes.take 5)).1 ++ f.bytes.drop 5,
        (takeTraceId mode (f.bytes.take 5)).2) := by
    have hne : f.bytes.take 5 ≠ [] := by
      rw [ne_eq, take_eq_nil_iff, not_or]
      exact ⟨by omega, f.bytes_ne_nil⟩
    rw [← takeTraceId_append mode hne, take_append_drop]
  have hlegal : minBmpMsgLen ≤ f.bytes.length ∧ f.bytes.length ≤ maxBmpMsgLen :=
    ⟨f.min_le, f.le_max⟩
  simp only [bmpRead, hread₁, hfive, hlen, hlegal, and_self, not_true_eq_false, if_false, hread₂,
    hbody, hwhole]

theorem next_frame {more : Bytes} (hproper : Proper rx) (hbytes : bytes rx = f.bytes ++ more)
    (hclear : ErrorsAt (fun before => f.bytes.length ≤ before.length) rx) :
    ∃ rest, Took f.bytes.length rx rest ∧ ∀ call : Call κ, call.terminated = false →
      next fromOctets ⟨some rx⟩ call = (⟨some rest⟩, expected fromOctets call (.frame f)) := by
  obtain ⟨rest, htook, hread⟩ := bmpRead_frame fromOctets hproper hbytes hclear
  refine ⟨rest, htook, fun call hcall => ?_⟩
  simp only [next, hcall, Bool.false_eq_true, if_false, hread, expected]
  cases fromOctets (takeTraceId call.mode f.bytes).1 with
  | none => rfl
  | some err => rfl

/-- An error before the first byte of a frame is returned and nothing is lost. -/
theorem next_readError {e : IoError} (he : e.isFatal = false) (rest : Socket) {call : Call κ}
    (hcall : call.terminated = false) :
    next fromOctets ⟨some (.error e :: rest)⟩ call =
      (⟨some rest⟩, expected fromOctets call (.error e)) := by
  simp [next, hcall, bmpRead, readExact, he, expected]

/-- A length out of range is fatal. -/
theorem next_outOfRange (hproper : Proper rx) (hlen : 5 ≤ (bytes rx).length)
    (hclear : ErrorsAt (fun before => 5 ≤ before.length) rx)
    (hrange : ¬ (minBmpMsgLen ≤ lengthField (bytes rx) ∧ lengthField (bytes rx) ≤ maxBmpMsgLen))
    {call : Call κ} (hcall : call.terminated = false) :
    next fromOctets ⟨some rx⟩ call = (⟨none⟩, .error (lengthError (lengthField (bytes rx)))) := by
  obtain ⟨rest, hread, _⟩ := readExact_of_clear earlyEof hproper hlen hclear
  have hfield : readBe (((takeTraceId call.mode ((bytes rx).take 5)).1.drop 1).take 4) =
      lengthField (bytes rx) := by
    have h := lengthField_takeTraceId call.mode ((bytes rx).take 5)
    rw [lengthField_take] at h
    exact h
  have hfatal : (lengthError (lengthField (bytes rx))).isFatal = true := rfl
  simp only [next, hcall, Bool.false_eq_true, if_false, bmpRead, hread, hfield, hrange,
    not_false_eq_true, if_true, hfatal]

theorem nexts_cons (s : BmpStream) (call : Call κ) (calls : List (Call κ)) :
    nexts fromOctets s (call :: calls) =
      ((nexts fromOctets (next fromOctets s call).1 calls).1,
        (next fromOctets s call).2 :: (nexts fromOctets (next fromOctets s call).1 calls).2) := rfl

theorem nexts_none (calls : List (Call κ)) :
    nexts fromOctets ⟨none⟩ calls = (⟨none⟩, calls.map fun _ => .error noReceiver) := by
  induction calls with
  | nil => rfl
  | cons call calls ih =>
    have hnext : next fromOctets ⟨none⟩ call = (⟨none⟩, .error noReceiver) := rfl
    rw [nexts_cons, hnext, ih, map_cons]

theorem nexts_append (s : BmpStream) (calls more : List (Call κ)) :
    nexts fromOctets s (calls ++ more) =
      ((nexts fromOctets (nexts fromOctets s calls).1 more).1,
        (nexts fromOctets s calls).2 ++ (nexts fromOctets (nexts fromOctets s calls).1 more).2) := by
  induction calls generalizing s with
  | nil => rfl
  | cons call calls ih =>
    rw [cons_append, nexts_cons, nexts_cons, ih, cons_append]

end Calls

/-! ## Successive calls -/

theorem stream_cons (f : Frame) (frames : List Frame) :
    stream (f :: frames) = f.bytes ++ stream frames := rfl

/-- A boundary that is not at the start is not inside the first frame. -/
theorem AtBoundary.le {before : Bytes} (h : AtBoundary (f :: frames) before) (hne : before ≠ []) :
    f.bytes.length ≤ before.length := by
  obtain ⟨k, rfl⟩ := h
  cases k with
  | zero => exact absurd rfl hne
  | succ k =>
    rw [take_succ_cons, stream_cons, length_append]
    omega

theorem AtBoundary.tail {before : Bytes}
    (h : AtBoundary (f :: frames) (f.bytes ++ before)) : AtBoundary frames before := by
  obtain ⟨k, hk⟩ := h
  cases k with
  | zero => exact absurd (append_eq_nil_iff.mp hk).1 f.bytes_ne_nil
  | succ k =>
    rw [take_succ_cons, stream_cons] at hk
    exact ⟨k, append_cancel_left hk⟩

/-- The socket starts with an error, or there are bytes before every error. -/
theorem error_or_ne_nil {P : Bytes → Prop} (hproper : Proper rx) (h : ErrorsAt P rx) :
    (∃ e rest, rx = .error e :: rest) ∨
      ErrorsAt (fun before => P before ∧ before ≠ []) rx := by
  cases rx with
  | nil => exact .inr (errorsAt_nil _)
  | cons ev rx =>
    cases ev with
    | error e => exact .inl ⟨e, rx, rfl⟩
    | data chunk =>
      refine .inr (errorsAt_data fun pre e post hs => ⟨h.data pre e post hs, fun hnil => ?_⟩)
      have hchunk := (append_eq_nil_iff.mp hnil).1
      exact hproper (by rw [hchunk]; exact mem_cons_self)

section Runs

variable (fromOctets : Bytes → Option String) {κ : Type}

/-- The calls return the items one by one, and then the socket is at `rest`. -/
def Reads (κ : Type) (rx : Socket) (items : List Item) (rest : Socket) : Prop :=
  ∀ calls : List (Call κ), calls.length = items.length → (∀ c ∈ calls, c.terminated = false) →
    nexts fromOctets ⟨some rx⟩ calls =
      (⟨some rest⟩, List.zipWith (expected fromOctets) calls items)

theorem reads_nil (rx : Socket) : Reads fromOctets κ rx [] rx := by
  intro calls hlen _
  obtain rfl : calls = [] := length_eq_zero_iff.mp hlen
  rfl

theorem Reads.cons {rx' rest : Socket} {item : Item} {items : List Item}
    (hnext : ∀ call : Call κ, call.terminated = false →
      next fromOctets ⟨some rx⟩ call = (⟨some rx'⟩, expected fromOctets call item))
    (h : Reads fromOctets κ rx' items rest) : Reads fromOctets κ rx (item :: items) rest := by
  intro calls hlen hcalls
  cases calls with
  | nil => cases hlen
  | cons call calls =>
    have hrest := h calls (Nat.succ.inj hlen) fun c hc => hcalls c (mem_cons_of_mem _ hc)
    rw [nexts_cons, hnext call (hcalls call mem_cons_self), hrest, zipWith_cons_cons]

/-- The frames of a socket on which no error falls inside a frame. -/
theorem reads_frames {tail : Bytes} (hproper : Proper rx)
    (hbytes : bytes rx = stream frames ++ tail) (hnonfatal : ∀ e ∈ errors rx, e.isFatal = false)
    (hboundary : ErrorsAt (AtBoundary frames) rx) :
    ∃ items rest, framesOf items = frames ∧ errorsOf items = errors rx ∧ Proper rest ∧
      bytes rest = tail ∧ errors rest = [] ∧ Reads fromOctets κ rx items rest := by
  -- every call takes a frame or an error
  induction hsize : frames.length + (errors rx).length using Nat.strongRecOn
    generalizing rx frames with
  | _ n ih =>
    rcases error_or_ne_nil hproper hboundary with ⟨e, rx', rfl⟩ | hlater
    · have hfatal := hnonfatal e mem_cons_self
      obtain ⟨items, rest, hframes, herrors, hrest⟩ := ih (frames.length + (errors rx').length)
        (by rw [← hsize, errors, length_cons]; omega) hproper.tail hbytes
        (fun e' he' => hnonfatal e' (mem_cons_of_mem _ he')) hboundary.error.2 rfl
      refine ⟨.error e :: items, rest, hframes, congrArg (e :: ·) herrors, hrest.1, hrest.2.1,
        hrest.2.2.1, hrest.2.2.2.cons fromOctets fun call hcall => ?_⟩
      exact next_readError fromOctets hfatal rx' hcall
    · cases frames with
      | nil =>
        have hnone : errors rx = [] := by
          refine errors_eq_nil (hlater.imp ?_)
          rintro before ⟨⟨k, hk⟩, hne⟩
          exact hne (by rw [hk]; simp [stream])
        exact ⟨[], rx, rfl, hnone.symm, hproper, hbytes, hnone, reads_nil fromOctets rx⟩
      | cons f frames =>
        have hclear : ErrorsAt (fun before => f.bytes.length ≤ before.length) rx :=
          hlater.imp fun before h => h.1.le h.2
        rw [stream_cons, append_assoc] at hbytes
        obtain ⟨rx', htook, hnext⟩ :
            ∃ rx', Took f.bytes.length rx rx' ∧ ∀ call : Call κ, call.terminated = false →
              next fromOctets ⟨some rx⟩ call =
                (⟨some rx'⟩, expected fromOctets call (.frame f)) :=
          next_frame fromOctets hproper hbytes hclear
        have htake : (bytes rx).take f.bytes.length = f.bytes := by
          rw [hbytes]
          exact take_left
        have hbytes' : bytes rx' = stream frames ++ tail := by
          rw [htook.bytes, hbytes]
          exact drop_left
        have hboundary' : ErrorsAt (AtBoundary frames) rx' := by
          refine (htook.errorsAt _ hboundary).imp fun before h => ?_
          rw [htake] at h
          exact h.tail
        obtain ⟨items, rest, hframes, herrors, hrest⟩ := ih (frames.length + (errors rx').length)
          (by rw [← hsize, htook.errors, length_cons]; omega) htook.proper hbytes'
          (by rwa [htook.errors]) hboundary' rfl
        exact ⟨.frame f :: items, rest, congrArg (f :: ·) hframes, herrors.trans htook.errors,
          hrest.1, hrest.2.1, hrest.2.2.1, hrest.2.2.2.cons fromOctets hnext⟩

/-- What is left starts with a header whose length is out of range. -/
def OutOfRange (tail : Bytes) : Prop :=
  5 ≤ tail.length ∧ ¬ (minBmpMsgLen ≤ lengthField tail ∧ lengthField tail ≤ maxBmpMsgLen)

/-- If no error falls inside a frame, successive calls return the frames and the errors one by one.
A length out of range after them is a fatal error, and then nothing is returned any more. -/
theorem framing_of_boundaries {rx : Socket} {frames : List Frame} {tail : Bytes}
    (hproper : Proper rx) (hbytes : bytes rx = stream frames ++ tail)
    (hnonfatal : ∀ e ∈ errors rx, e.isFatal = false)
    (hboundary : ErrorsAt (AtBoundary frames) rx) :
    ∃ items, framesOf items = frames ∧ errorsOf items = errors rx ∧
      ∀ calls : List (Call κ), calls.length = items.length →
        (∀ c ∈ calls, c.terminated = false) →
        (nexts fromOctets ⟨some rx⟩ calls).2 = List.zipWith (expected fromOctets) calls items ∧
        ∀ call more, call.terminated = false → OutOfRange tail →
          (lengthError (lengthField tail)).isFatal = true ∧
          (nexts fromOctets ⟨some rx⟩ (calls ++ call :: more)).2 =
            List.zipWith (expected fromOctets) calls items ++
              .error (lengthError (lengthField tail)) :: more.map fun _ => .error noReceiver := by
  obtain ⟨items, rest, hframes, herrors, hproper', hbytes', herrors', hreads⟩ :
      ∃ items rest, framesOf items = frames ∧ errorsOf items = errors rx ∧ Proper rest ∧
        bytes rest = tail ∧ errors rest = [] ∧ Reads fromOctets κ rx items rest :=
    reads_frames fromOctets hproper hbytes hnonfatal hboundary
  refine ⟨items, hframes, herrors, fun calls hlen hcalls => ?_⟩
  have hrun := hreads calls hlen hcalls
  refine ⟨by rw [hrun], fun call more hcall htail => ⟨rfl, ?_⟩⟩
  have hclear : ErrorsAt (fun before => 5 ≤ before.length) rest := by
    intro pre e post hs
    rw [hs] at herrors'
    exact absurd herrors' (by simp [errors_append, errors])
  have hnext := next_outOfRange fromOctets hproper' (by rw [hbytes']; exact htail.1) hclear
    (by rw [hbytes']; exact htail.2) hcall
  rw [nexts_append, hrun, nexts_cons, hnext, nexts_none, hbytes']

end Runs

/-! ### Frames of six bytes -/

/-- An Initiation message without information. -/
def initiation : Frame := ⟨[3, 0, 0, 0, 6, 4], by decide, by decide, by decide⟩

def timeout : IoError := ⟨.timedOut, "timed out"⟩

/-- A call with tracing off and no status. -/
def quiet : Call Unit := ⟨.off, [], false⟩

/-- Two frames with a timeout after the first byte: the rest of the first frame is taken for a
header, and the connection ends without a message. -/
theorem frame_lost :
    let rx : Socket := [.data [3], .error timeout, .data [0, 0, 0, 6, 4], .data [3, 0, 0, 0, 6, 4]]
    Proper rx ∧ bytes rx = stream [initiation, initiation] ∧
      (∀ e ∈ errors rx, e.isFatal = false) ∧
      (nexts (fun _ => none) ⟨some rx⟩ [quiet, quiet, quiet, quiet]).2 =
        [.error timeout, .error earlyEof, .error noReceiver, .error noReceiver] := by
  exact ⟨by simp [Proper], rfl, by decide, rfl⟩

/-- Two frames in four reads, with a timeout between the frames. -/
theorem framing_two_frames :
    let rx : Socket := [.data [3, 0], .data [0, 0, 6, 4], .error timeout, .data [3, 0, 0, 0, 6],
      .data [4]]
    (∃ items, framesOf items = [initiation, initiation] ∧ errorsOf items = [timeout] ∧
      ∀ calls : List (Call Unit), calls.length = items.length →
        (∀ c ∈ calls, c.terminated = false) →
        (nexts (fun _ => none) ⟨some rx⟩ calls).2 =
          List.zipWith (expected fun _ => none) calls items) ∧
    (nexts (fun _ => none) ⟨some rx⟩ [quiet, quiet, quiet]).2 =
      [.ok (some initiation.bytes, none, 0), .error timeout,
        .ok (some initiation.bytes, none, 0)] := by
  intro rx
  have hboundary : ErrorsAt (AtBoundary [initiation, initiation]) rx :=
    errorsAt_data (errorsAt_data (errorsAt_error ⟨1, rfl⟩
      (errorsAt_data (errorsAt_data (errorsAt_nil _)))))
  have hproper : Proper rx := by simp [rx, Proper]
  have hbytes : bytes rx = stream [initiation, initiation] ++ [] := rfl
  have hnonfatal : ∀ e ∈ errors rx, e.isFatal = false := by decide
  obtain ⟨items, hframes, herrors, hcalls⟩ :=
    framing_of_boundaries (κ := Unit) (fun _ => none) hproper hbytes hnonfatal hboundary
  exact ⟨⟨items, hframes, herrors, fun calls hlen hterm => (hcalls calls hlen hterm).1⟩, rfl⟩

end Rotonda.BmpIn.Stream
