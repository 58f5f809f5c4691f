/-!
# Output streams

A stream takes bytes one after the other. It may have room for a number of bytes only, and it
may let itself be flushed a number of times only. Which bytes were taken is part of the result of
a write, so nothing is lost when a write fails halfway.
-/

namespace ExprLang

/-- The sort of a failure of input or output. -/
inductive FaultKind where
  | storageFull
  | brokenPipe
  | invalidData
deriving DecidableEq, Repr

/-- A failure of input or output. -/
structure Fault where
  kind : FaultKind
  message : String
deriving DecidableEq, Repr

/-- An end of what a stream can do. -/
structure Limit where
  /-- How much the stream can still do. -/
  left : Nat
  /-- The failure when it is to do more. -/
  refusal : Fault
deriving DecidableEq, Repr

/-- An output stream. -/
structure Stream where
  /-- The end of its room, counted in bytes, if it has one. -/
  room : Option Limit
  /-- The end of its flushes, if there is one. -/
  flushes : Option Limit
deriving DecidableEq, Repr

/-- The result of a write: what was taken, the stream after it, and the failure, if it failed. -/
structure Writing where
  taken : List UInt8
  stream : Stream
  fault : Option Fault
deriving DecidableEq, Repr

/-- Goes on with another write, unless one has failed. -/
def Writing.andThen (first : Writing) (next : Stream → Writing) : Writing :=
  match first.fault with
  | some _ => first
  | none =>
    let second := next first.stream
    ⟨first.taken ++ second.taken, second.stream, second.fault⟩

namespace Stream

/-- A stream that never fails. -/
def endless : Stream := ⟨none, none⟩

/-- Writes bytes. A stream with too little room takes what it has room for, and fails. -/
def write (stream : Stream) (bytes : List UInt8) : Writing :=
  match stream.room with
  | none => ⟨bytes, stream, none⟩
  | some room =>
    ⟨bytes.take room.left, { stream with room := some ⟨room.left - bytes.length, room.refusal⟩ },
      if bytes.length ≤ room.left then none else some room.refusal⟩

/-- Flushes a stream, which takes no bytes. -/
def flush (stream : Stream) : Writing :=
  match stream.flushes with
  | none => ⟨[], stream, none⟩
  | some flushes =>
    ⟨[], { stream with flushes := some ⟨flushes.left - 1, flushes.refusal⟩ },
      if 1 ≤ flushes.left then none else some flushes.refusal⟩

end Stream

/-- The UTF-8 bytes of a text. -/
def utf8 (text : String) : List UInt8 := text.toUTF8.data.toList

/-- The text with these UTF-8 bytes, if they are valid. -/
def decodeUtf8? (bytes : List UInt8) : Option String := String.fromUTF8? ⟨bytes.toArray⟩

end ExprLang
