import Armadito.Jrpc.Framing
import Armadito.Lib.Block

/-!
# Jrpc.Buffer

`buffer.c`, and `connection_send` with the buffer in which it collects the
message: the dumper of the JSON library hands over the text in pieces of its
own choice, the buffer doubles until a piece fits, and what is written at the
end is the text with two line ends behind it. Memory is taken to be
available; a write outside of the block that was allocated is a fault, and so
is a loop that does not end.
-/

namespace Armadito.Jrpc

/-! ## The buffer -/

/-- `struct buffer`, with the block that `p` points to. -/
structure Buffer where
  p : List (Option Char)
  filledSize : UInt64
  allocedSize : UInt64

/-- The ways a message is not sent at all. -/
inductive SendFault where
  | assertFailed
  | outOfBounds
  | diverges
  deriving DecidableEq, Repr

/-- `DEFAULT_INITIAL_SIZE`. -/
def defaultInitialSize : UInt64 := 128

/-- `buffer_init`. -/
def bufferInit (initialSize : UInt64) : Buffer :=
  let allocedSize := if initialSize = 0 then defaultInitialSize else initialSize
  { p := Block.fresh allocedSize.toNat, filledSize := 0, allocedSize := allocedSize }

/-- The loop of `buffer_grow`; the fuel is the number of times that its
condition may be tested. -/
def growLoop : Nat → UInt64 → UInt64 → Option UInt64
  | 0, _, _ => none
  | fuel + 1, size, allocedSize =>
    if size ≥ allocedSize then growLoop fuel size (allocedSize * 2) else some allocedSize

/-- `buffer_grow`. -/
def bufferGrow (fuel : Nat) (b : Buffer) (needed : UInt64) : Except SendFault Buffer :=
  if b.filledSize + needed ≥ b.allocedSize then
    match growLoop fuel (b.filledSize + needed) b.allocedSize with
    | none => .error .diverges
    | some allocedSize =>
      .ok { b with p := Block.resize allocedSize.toNat b.p, allocedSize := allocedSize }
  else .ok b

/-- `buffer_increment`. -/
def bufferIncrement (b : Buffer) (size : UInt64) : Buffer :=
  { b with filledSize := b.filledSize + size }

/-- `buffer_append`. -/
def bufferAppend (fuel : Nat) (b : Buffer) (data : List Char) (size : UInt64) :
    Except SendFault Buffer := do
  let b ← bufferGrow fuel b size
  match Block.copy b.p b.filledSize.toNat data size.toNat with
  | none => .error .outOfBounds
  | some p => return bufferIncrement { b with p := p } size

/-- `buffer_size`. -/
def bufferSize (b : Buffer) : UInt64 := b.filledSize

/-! ## Sending through the buffer -/

/-- What the dumper of the JSON library does with a value: the pieces of text
that it hands to its callback, and whether it fails behind them. -/
structure Dump where
  pieces : List (List Char)
  fails : Bool

/-- The callback is called while it returns 0. -/
def dumpPieces (callback : List Char → UInt64 → Buffer → Except SendFault (Int × Buffer)) :
    List (List Char) → Buffer → Except SendFault (Int × Buffer)
  | [], b => .ok (0, b)
  | piece :: pieces, b => do
    let (ret, b) ← callback piece (UInt64.ofNat piece.length) b
    if ret ≠ 0 then return (-1, b)
    dumpPieces callback pieces b

/-- `json_dump_callback` of the library. -/
def jsonDumpCallback (dump : Dump)
    (callback : List Char → UInt64 → Buffer → Except SendFault (Int × Buffer)) (b : Buffer) :
    Except SendFault (Int × Buffer) := do
  let (ret, b) ← dumpPieces callback dump.pieces b
  return (if dump.fails then -1 else ret, b)

/-- `json_buffer_dump_cb`. -/
def jsonBufferDumpCb (fuel : Nat) (buffer : List Char) (size : UInt64) (b : Buffer) :
    Except SendFault (Int × Buffer) := do
  let b ← bufferAppend fuel b buffer size
  return (0, b)

/-- The literal `"\r\n\r\n\0"`, with the NUL that ends every literal. -/
def frameLiteral : List Char := frameEnd ++ ['\x00', '\x00']

/-- `connection_send` with its buffer: the status, and the buffers that were
handed to the write callback. -/
def connectionSendBuffered (fuel : Nat) (dump : Dump)
    (writeCb : Option (List (Option Char) → Int)) :
    Except SendFault (Int × List (List (Option Char))) :=
  match writeCb with
  | none => .error .assertFailed
  | some writeCb => do
    let (ret, b) ← jsonDumpCallback dump (jsonBufferDumpCb fuel) (bufferInit 0)
    if ret < 0 then return (jrpcErrInternalError, [])
    let b ← bufferAppend fuel b frameLiteral 5
    -- without the NUL that was appended for a debug message
    match Block.read b.p (bufferSize b - 1).toNat with
    | none => .error .outOfBounds
    | some data => return (if writeCb data < 0 then jrpcErrInternalError else jrpcOk, [data])

/-! ## What the buffer holds -/

/-- The buffer holds the data, in a block of its size that is not full. -/
structure Buffer.Holds (b : Buffer) (data : List Char) : Prop where
  begins : Block.Begins b.p data
  filledSize_eq : b.filledSize.toNat = data.length
  filledSize_lt : b.filledSize < b.allocedSize
  length_p : b.p.length = b.allocedSize.toNat

theorem bufferInit_holds (initialSize : UInt64) : (bufferInit initialSize).Holds [] := by
  refine ⟨Block.begins_nil _, rfl, ?_, Block.length_fresh _⟩
  simp only [bufferInit]
  split
  · decide
  · next hsize => exact UInt64.pos_iff_ne_zero.mpr hsize

/-- A size below 2^63 is doubled over before the doubled size wraps around. -/
theorem growLoop_spec (fuel : Nat) :
    ∀ size allocedSize : UInt64, 0 < allocedSize.toNat → size.toNat < 2 ^ 63 →
      size.toNat < allocedSize.toNat * 2 ^ fuel →
      ∃ grown, growLoop (fuel + 1) size allocedSize = some grown ∧
        size < grown ∧ allocedSize ≤ grown := by
  induction fuel with
  | zero =>
    intro size allocedSize _ _ hfuel
    have hlt : size < allocedSize := by
      rw [UInt64.lt_iff_toNat_lt]
      omega
    exact ⟨allocedSize, if_neg (UInt64.not_le.mpr hlt), hlt, UInt64.le_refl _⟩
  | succ fuel ih =>
    intro size allocedSize hpos hsize hfuel
    rw [growLoop]
    by_cases hge : size ≥ allocedSize
    · have hle : allocedSize.toNat ≤ size.toNat := UInt64.le_iff_toNat_le.mp hge
      have htwice : (allocedSize * 2).toNat = allocedSize.toNat * 2 := by
        rw [UInt64.toNat_mul, show (2 : UInt64).toNat = 2 from rfl]
        omega
      obtain ⟨grown, hgrown, hlt, hmono⟩ := ih size (allocedSize * 2)
        (by omega) hsize (by rw [htwice, Nat.mul_assoc, ← Nat.pow_succ']; exact hfuel)
      rw [if_pos hge]
      refine ⟨grown, hgrown, hlt, ?_⟩
      rw [UInt64.le_iff_toNat_le, htwice] at hmono
      rw [UInt64.le_iff_toNat_le]
      omega
    · rw [if_neg hge]
      exact ⟨allocedSize, rfl, UInt64.not_le.mp hge, UInt64.le_refl _⟩

theorem bufferGrow_holds {b : Buffer} {data : List Char} (h : b.Holds data) {needed : UInt64}
    (hsize : data.length + needed.toNat < 2 ^ 63) {fuel : Nat} (hfuel : 64 ≤ fuel) :
    ∃ b', bufferGrow fuel b needed = .ok b' ∧ b'.Holds data ∧
      data.length + needed.toNat < b'.allocedSize.toNat := by
  have hsum : (b.filledSize + needed).toNat = data.length + needed.toNat := by
    rw [UInt64.toNat_add, h.filledSize_eq]
    omega
  have hfilled := UInt64.lt_iff_toNat_lt.mp h.filledSize_lt
  by_cases hge : b.filledSize + needed ≥ b.allocedSize
  · obtain ⟨fuel, rfl⟩ := Nat.exists_eq_add_of_le' hfuel
    obtain ⟨grown, hgrown, hlt, hmono⟩ := growLoop_spec (fuel + 63)
      (b.filledSize + needed) b.allocedSize (by omega) (by rw [hsum]; exact hsize) (by
        have hpow : 2 ^ 63 ≤ 2 ^ (fuel + 63) := Nat.pow_le_pow_right (by omega) (by omega)
        have hmul := Nat.mul_le_mul (show 1 ≤ b.allocedSize.toNat by omega) hpow
        omega)
    have hroom : data.length + needed.toNat < grown.toNat := by
      rw [← hsum]
      exact UInt64.lt_iff_toNat_lt.mp hlt
    have hgrow : bufferGrow (fuel + 64) b needed =
        .ok { b with p := Block.resize grown.toNat b.p, allocedSize := grown } := by
      rw [bufferGrow, if_pos hge, hgrown]
    refine ⟨_, hgrow, ⟨?_, h.filledSize_eq, ?_, ?_⟩, hroom⟩
    · exact h.begins.resize (by omega)
    · exact UInt64.lt_of_lt_of_le h.filledSize_lt hmono
    · exact Block.length_resize _ _
  · refine ⟨b, if_neg hge, h, ?_⟩
    rw [← hsum]
    exact UInt64.lt_iff_toNat_lt.mp (UInt64.not_le.mp hge)

/-- What is appended lies inside of the block, which is not full after it. -/
theorem bufferAppend_holds {b : Buffer} {data : List Char} (h : b.Holds data)
    (source : List Char) {size : UInt64} (hsource : size.toNat ≤ source.length)
    (hsize : data.length + size.toNat < 2 ^ 63) {fuel : Nat} (hfuel : 64 ≤ fuel) :
    ∃ b', bufferAppend fuel b source size = .ok b' ∧
      b'.Holds (data ++ source.take size.toNat) := by
  obtain ⟨b₁, hgrow, h₁, hroom⟩ := bufferGrow_holds h hsize hfuel
  obtain ⟨p, hcopy, hlength, hbegins⟩ := h₁.begins.copy source hsource
    (by rw [h₁.length_p]; omega)
  have hfilled : (b₁.filledSize + size).toNat = data.length + size.toNat := by
    rw [UInt64.toNat_add, h₁.filledSize_eq]
    omega
  refine ⟨bufferIncrement { b₁ with p := p } size, ?_, hbegins, ?_, ?_, ?_⟩
  · rw [bufferAppend, hgrow]
    simp only [Bind.bind, Except.bind, h₁.filledSize_eq, hcopy]
    rfl
  · rw [bufferIncrement, hfilled, List.length_append, List.length_take]
    omega
  · rw [bufferIncrement, UInt64.lt_iff_toNat_lt, hfilled]
    exact hroom
  · exact hlength.trans h₁.length_p

/-- Pieces of any sizes are collected one behind the other. -/
theorem dumpPieces_holds {fuel : Nat} (hfuel : 64 ≤ fuel) (pieces : List (List Char)) :
    ∀ {b : Buffer} {data : List Char}, b.Holds data →
      data.length + pieces.flatten.length < 2 ^ 63 →
      ∃ b', dumpPieces (jsonBufferDumpCb fuel) pieces b = .ok (0, b') ∧
        b'.Holds (data ++ pieces.flatten) := by
  induction pieces with
  | nil =>
    intro b data h _
    exact ⟨b, rfl, by rwa [List.flatten_nil, List.append_nil]⟩
  | cons piece pieces ih =>
    intro b data h hsize
    rw [List.flatten_cons, List.length_append] at hsize
    have hlen : (UInt64.ofNat piece.length).toNat = piece.length :=
      UInt64.toNat_ofNat_of_lt' (by rw [UInt64.size]; omega)
    obtain ⟨b₁, happend, h₁⟩ := bufferAppend_holds h piece (Nat.le_of_eq hlen)
      (by rw [hlen]; omega) hfuel
    rw [hlen, List.take_length] at h₁
    obtain ⟨b', hrest, h'⟩ := ih h₁ (by rw [List.length_append]; omega)
    refine ⟨b', ?_, ?_⟩
    · rw [dumpPieces, jsonBufferDumpCb, happend]
      exact hrest
    · rwa [List.flatten_cons, ← List.append_assoc]

/-- The dumper hands over its pieces, and says whether it failed. -/
theorem jsonDumpCallback_holds {fuel : Nat} (hfuel : 64 ≤ fuel) (dump : Dump)
    (hsize : dump.pieces.flatten.length < 2 ^ 63) :
    ∃ b, jsonDumpCallback dump (jsonBufferDumpCb fuel) (bufferInit 0) =
        .ok (if dump.fails then -1 else 0, b) ∧ b.Holds dump.pieces.flatten := by
  obtain ⟨b, hpieces, h⟩ := dumpPieces_holds hfuel dump.pieces (bufferInit_holds 0)
    (by rw [List.length_nil]; omega)
  exact ⟨b, bind_eq_ok.mpr ⟨_, hpieces, rfl⟩, h⟩

/-! ## What is sent -/

/-- A text whose dump fails is not sent, and neither is a part of it. -/
theorem connectionSendBuffered_of_fails {dump : Dump} (hdump : dump.fails = true)
    (hsize : dump.pieces.flatten.length < 2 ^ 63) (writeCb : List (Option Char) → Int)
    {fuel : Nat} (hfuel : 64 ≤ fuel) :
    connectionSendBuffered fuel dump (some writeCb) = .ok (jrpcErrInternalError, []) := by
  obtain ⟨b, hcall, -⟩ := jsonDumpCallback_holds hfuel dump hsize
  rw [hdump] at hcall
  exact bind_eq_ok.mpr ⟨_, hcall, rfl⟩

/-- The text and the line ends behind it are written, once. -/
theorem connectionSendBuffered_eq {dump : Dump} (hdump : dump.fails = false)
    (hsize : dump.pieces.flatten.length < 2 ^ 62) (writeCb : List (Option Char) → Int)
    {fuel : Nat} (hfuel : 64 ≤ fuel) :
    connectionSendBuffered fuel dump (some writeCb) =
      .ok (if writeCb ((dump.pieces.flatten ++ frameEnd).map some) < 0 then
          jrpcErrInternalError else jrpcOk,
        [(dump.pieces.flatten ++ frameEnd).map some]) := by
  have hfive : (5 : UInt64).toNat = 5 := rfl
  have hone : (1 : UInt64).toNat = 1 := rfl
  obtain ⟨b, hcall, h⟩ := jsonDumpCallback_holds hfuel dump (by omega)
  rw [hdump] at hcall
  have hliteral : (5 : UInt64).toNat ≤ frameLiteral.length := by decide
  obtain ⟨b', happend, h'⟩ := bufferAppend_holds h frameLiteral hliteral
    (by rw [hfive]; omega) hfuel
  have hframe : frameLiteral.take (5 : UInt64).toNat = frameEnd ++ ['\x00'] := rfl
  rw [hframe, ← List.append_assoc] at h'
  -- the size of what is written leaves the NUL out
  have hcount : (bufferSize b' - 1).toNat = (dump.pieces.flatten ++ frameEnd).length := by
    have hfilled := h'.filledSize_eq
    rw [List.length_append, List.length_singleton] at hfilled
    have hle : (1 : UInt64) ≤ b'.filledSize := by
      rw [UInt64.le_iff_toNat_le, hfilled, hone]
      omega
    rw [bufferSize, UInt64.toNat_sub_of_le _ _ hle, hfilled, hone, Nat.add_sub_cancel]
  refine bind_eq_ok.mpr ⟨_, hcall, bind_eq_ok.mpr ⟨b', happend, ?_⟩⟩
  rw [hcount, h'.begins.read]
  rfl

/-- The dumper hands over the compact text of a value, in some pieces. -/
structure Dump.Gives (dump : Dump) (text : List Char) : Prop where
  flatten_eq : dump.pieces.flatten = text
  succeeds : dump.fails = false

/-- With its buffer, the code does what is said of it in terms of whole
messages. -/
theorem connectionSendBuffered_refines {lib : JsonLibrary} {obj : Json} {dump : Dump}
    (hdump : dump.Gives (lib.dumps obj)) (hsize : (lib.dumps obj).length < 2 ^ 62)
    (writeCb : List (Option Char) → Int) {fuel : Nat} (hfuel : 64 ≤ fuel) :
    connectionSendBuffered fuel dump (some writeCb) =
      let sent := connectionSend lib (fun data => ¬ writeCb (data.map some) < 0) (some obj)
      .ok (sent.1, [sent.2.map some]) := by
  rw [← hdump.flatten_eq] at hsize
  rw [connectionSendBuffered_eq hdump.succeeds hsize writeCb hfuel, hdump.flatten_eq]
  by_cases hwrite : writeCb ((lib.dumps obj ++ frameEnd).map some) < 0
  · simp only [connectionSend, hwrite, if_true]
    rfl
  · simp only [connectionSend, hwrite, if_false]
    rfl

/-- **One framed message is written**, however the text is cut into pieces:
after any of them the buffer holds what was handed over so far, in a block
that it does not fill, and the message ends with the two line ends. -/
theorem connectionSend_writesOneMessage (lib : JsonLibrary) (obj : Json) (dump : Dump)
    (hdump : dump.Gives (lib.dumps obj)) (hsize : (lib.dumps obj).length < 2 ^ 62)
    (writeCb : List (Option Char) → Int) (fuel : Nat) (hfuel : 64 ≤ fuel) :
    (∀ before after, dump.pieces = before ++ after →
      ∃ b, dumpPieces (jsonBufferDumpCb fuel) before (bufferInit 0) = .ok (0, b) ∧
        b.Holds before.flatten) ∧
      connectionSendBuffered fuel dump (some writeCb) =
        .ok (if writeCb ((lib.dumps obj ++ frameEnd).map some) < 0 then
            jrpcErrInternalError else jrpcOk,
          [(lib.dumps obj ++ frameEnd).map some]) := by
  rw [← hdump.flatten_eq] at hsize ⊢
  refine ⟨?_, connectionSendBuffered_eq hdump.succeeds hsize writeCb hfuel⟩
  intro before after hpieces
  rw [hpieces, List.flatten_append, List.length_append] at hsize
  obtain ⟨b, hrun, h⟩ := dumpPieces_holds hfuel before (bufferInit_holds 0)
    (by rw [List.length_nil]; omega)
  exact ⟨b, hrun, h⟩

/-- The library on strings without special characters. -/
def plainStrings : JsonLibrary where
  dumps := fun obj =>
    match obj with
    | .string text => '"' :: text ++ ['"']
    | _ => []
  loadb := fun _ => none

/-- A string of 200 characters: the block of 128 doubles at the second piece,
and the quotation marks come as pieces of their own. -/
theorem longString_writesOneMessage :
    connectionSendBuffered 64 ⟨[['"'], List.replicate 200 'a', ['"']], false⟩
        (some fun data => data.length) =
      .ok (jrpcOk, [('"' :: List.replicate 200 'a' ++ ['"'] ++ frameEnd).map some]) := by
  have hgives : Dump.Gives ⟨[['"'], List.replicate 200 'a', ['"']], false⟩
      (plainStrings.dumps (.string (List.replicate 200 'a'))) :=
    ⟨by simp [plainStrings, -List.reduceReplicate], rfl⟩
  have hsize : (plainStrings.dumps (.string (List.replicate 200 'a'))).length < 2 ^ 62 := by
    simp [plainStrings, -List.reduceReplicate]
  have hsent := (connectionSend_writesOneMessage plainStrings (.string (List.replicate 200 'a'))
    ⟨[['"'], List.replicate 200 'a', ['"']], false⟩ hgives hsize
    (fun data => data.length) 64 (Nat.le_refl 64)).2
  rw [if_neg (Int.not_lt.mpr (Int.natCast_nonneg _))] at hsent
  exact hsent

end Armadito.Jrpc
