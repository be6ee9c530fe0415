import Armadito.Jrpc.Marshall
import Armadito.Lib.Framing

/-!
# Jrpc.Framing

`connection_send` and `connection_receive` over a stream socket. A message
is written with two line ends behind it, which the receiver does not look
for: it decodes the first value of what one read returns and drops the rest.
So messages that arrive together are lost but for the first one, and a
message that arrives in two parts is a parse error.
-/

namespace Armadito.Jrpc

/-! ## Sending and receiving -/

/-- What the code calls of its JSON library: the compact text of a value,
and the decoder of the first value in a buffer, which fails when there is
none. -/
structure JsonLibrary where
  dumps : Json → List Char
  loadb : List Char → Option Json

/-- What ends a message on the wire. -/
def frameEnd : List Char := ['\r', '\n', '\r', '\n']

/-- The status, and what is handed to the write callback; a NULL object
cannot be dumped. -/
def connectionSend (lib : JsonLibrary) (writeCb : List Char → Bool) (obj : Option Json) :
    Int × List Char :=
  match obj with
  | none => (jrpcErrInternalError, [])
  | some obj =>
    let buffer := lib.dumps obj ++ frameEnd
    (if writeCb buffer then jrpcOk else jrpcErrInternalError, buffer)

/-- The size of the buffer of one read. -/
def defaultInputBufferSize : Nat := 4096

/-- The status, and the object that was received; the read callback may
fail. What a read returns, at most `defaultInputBufferSize` bytes of the
stream, is not kept for the next one. -/
def connectionReceive (lib : JsonLibrary) (read : Option (List Char)) : Int × Option Json :=
  match read with
  | none => (jrpcErrInternalError, none)
  | some [] => (jrpcEof, none)
  | some buffer =>
    match lib.loadb buffer with
    | none => (jrpcErrParseError, none)
    | some obj => (jrpcOk, some obj)

/-- The bytes of some objects that were sent. -/
def sentBytes (lib : JsonLibrary) (objs : List Json) : List Char :=
  objs.flatMap fun obj => (connectionSend lib (fun _ => true) (some obj)).2

/-! ## What is received -/

theorem connectionReceive_eq_ok {lib : JsonLibrary} {chunk : List Char} {obj : Json} :
    connectionReceive lib (some chunk) = (jrpcOk, some obj) ↔
      chunk ≠ [] ∧ lib.loadb chunk = some obj := by
  cases chunk with
  | nil => simp [connectionReceive, jrpcEof, jrpcOk]
  | cons c chunk =>
    cases hload : lib.loadb (c :: chunk) with
    | none => simp [connectionReceive, hload]
    | some obj' => simp [connectionReceive, hload]

/-- The objects are received if and only if all chunks decode to them. -/
theorem connectionReceive_all {lib : JsonLibrary} {objs : List Json}
    (hobjs : ∀ obj ∈ objs, Framing.Decodes frameEnd lib.dumps lib.loadb obj)
    (chunks : List (List Char)) :
    chunks.map (fun chunk => connectionReceive lib (some chunk)) =
        objs.map (fun obj => (jrpcOk, some obj)) ↔
      chunks.map lib.loadb = objs.map some := by
  induction objs generalizing chunks with
  | nil => simp
  | cons obj objs ih =>
    cases chunks with
    | nil => simp
    | cons chunk chunks =>
      have hrest := ih (fun o ho => hobjs o (List.mem_cons_of_mem _ ho)) chunks
      have hone : connectionReceive lib (some chunk) = (jrpcOk, some obj) ↔
          lib.loadb chunk = some obj := by
        rw [connectionReceive_eq_ok]
        exact ⟨And.right, fun h => ⟨(hobjs obj List.mem_cons_self).ne_nil h, h⟩⟩
      rw [List.map_cons, List.map_cons, List.map_cons, List.map_cons, List.cons.injEq,
        List.cons.injEq, hone, hrest]

/-- **The objects that were sent are received** if and only if every read
returns exactly one of their messages. -/
theorem received_iff {lib : JsonLibrary} {objs : List Json}
    (hobjs : ∀ obj ∈ objs, Framing.Decodes frameEnd lib.dumps lib.loadb obj)
    {chunks : List (List Char)} (hstream : chunks.flatten = sentBytes lib objs) :
    chunks.map (fun chunk => connectionReceive lib (some chunk)) =
        objs.map (fun obj => (jrpcOk, some obj)) ↔
      List.Forall₂ (Framing.OneMessage frameEnd lib.dumps) chunks objs := by
  rw [connectionReceive_all hobjs]
  exact Framing.decoded_iff hobjs hstream

/-! ## Empty objects -/

/-- The library on texts of empty objects. -/
def emptyObjects : JsonLibrary where
  dumps := fun _ => ['{', '}']
  loadb := fun buffer =>
    match buffer.dropWhile fun c => c = '\r' ∨ c = '\n' with
    | '{' :: '}' :: _ => some (.object [])
    | _ => none

theorem loadb_emptyObjects {before : List Char} (hbefore : before ⊆ frameEnd)
    (rest : List Char) : emptyObjects.loadb (before ++ rest) = emptyObjects.loadb rest := by
  have hskip : (before ++ rest).dropWhile (fun c => c = '\r' ∨ c = '\n') =
      rest.dropWhile fun c => c = '\r' ∨ c = '\n' := by
    apply List.dropWhile_append_of_pos
    intro c hc
    have hmem := hbefore hc
    simp only [frameEnd, List.mem_cons, List.not_mem_nil, or_false] at hmem
    rw [decide_eq_true_eq]
    tauto
  simp only [emptyObjects, hskip]

theorem mem_of_loadb_emptyObjects {buffer : List Char} {obj : Json}
    (h : emptyObjects.loadb buffer = some obj) : '{' ∈ buffer := by
  simp only [emptyObjects] at h
  split at h
  · next heq =>
    have hmem : '{' ∈ buffer.dropWhile fun c => c = '\r' ∨ c = '\n' := by
      rw [heq]
      exact List.mem_cons_self
    exact (List.dropWhile_sublist _).subset hmem
  · cases h

theorem emptyObjects_decodes :
    Framing.Decodes frameEnd emptyObjects.dumps emptyObjects.loadb (.object []) where
  nonempty := List.cons_ne_nil _ _
  whole := by
    intro before after hbefore
    rw [List.append_assoc, loadb_emptyObjects hbefore]
    rfl
  cutEnd := by
    intro before piece cut hbefore hcut htext
    rw [loadb_emptyObjects hbefore]
    have hlen := congrArg List.length htext
    rcases piece with _ | ⟨a, _ | ⟨b, piece⟩⟩
    · rfl
    · simp only [emptyObjects, List.cons_append, List.cons.injEq] at htext
      rw [← htext.1]
      rfl
    · rw [List.length_append] at hlen
      have hpos := List.length_pos_iff.mpr hcut
      simp only [emptyObjects, List.length_cons, List.length_nil] at hlen
      omega
  cutStart := by
    intro cut piece after hcut hframe hload
    obtain ⟨c, cut, rfl⟩ := List.exists_cons_of_ne_nil hcut
    have htail : ['}', '\r', '\n', '\r', '\n'] = cut ++ piece ++ after := by
      injection hframe
    have hmem : '{' ∈ ['}', '\r', '\n', '\r', '\n'] := by
      rw [htail]
      exact List.mem_append_left _
        (List.mem_append_right _ (mem_of_loadb_emptyObjects hload))
    exact absurd hmem (by decide)

/-- Two objects, the first read ending in the middle of the line ends. -/
theorem received_split_in_line_ends :
    [['{', '}', '\r'], ['\n', '\r', '\n', '{', '}', '\r', '\n', '\r', '\n']].map
        (fun chunk => connectionReceive emptyObjects (some chunk)) =
      [.object [], .object []].map fun obj => (jrpcOk, some obj) := by
  have hobjs : ∀ obj ∈ [Json.object [], .object []],
      Framing.Decodes frameEnd emptyObjects.dumps emptyObjects.loadb obj := by
    intro obj hobj
    have heq : obj = .object [] := by simpa using hobj
    rw [heq]
    exact emptyObjects_decodes
  have hstream : ([['{', '}', '\r'],
      ['\n', '\r', '\n', '{', '}', '\r', '\n', '\r', '\n']] : List (List Char)).flatten =
        sentBytes emptyObjects [.object [], .object []] := rfl
  refine (received_iff hobjs hstream).mpr (.cons ⟨[], ['\r'], ?_, ?_, rfl⟩
    (.cons ⟨['\n', '\r', '\n'], frameEnd, ?_, ?_, rfl⟩ .nil))
  · exact List.nil_subset _
  · simp [frameEnd]
  · simp [frameEnd]
  · exact List.Subset.refl _

/-- Two objects that arrive together are one, and an object that arrives in
two parts is none. -/
theorem received_merged_or_cut :
    ([sentBytes emptyObjects [.object [], .object []]].map fun chunk =>
        connectionReceive emptyObjects (some chunk)) = [(jrpcOk, some (.object []))] ∧
      ([['{'], ['}', '\r', '\n', '\r', '\n']] : List (List Char)).flatten =
        sentBytes emptyObjects [.object []] ∧
      [['{'], ['}', '\r', '\n', '\r', '\n']].map
          (fun chunk => connectionReceive emptyObjects (some chunk)) =
        [(jrpcErrParseError, none), (jrpcErrParseError, none)] :=
  ⟨rfl, rfl, rfl⟩

end Armadito.Jrpc
