import Mathlib.Data.Int.Notation
import TTLinux.Lib.Bytes

/-!
# The SSL relay of tcpserver

`translate` passes data between an SSL connection and a child process, by `sslRead` and `sslWrite`
(base/ucspi-tcp/ucspi-tcp-matrixssl.patch). MatrixSSL is the parameter `Library` for what is
encoded; for what is decoded it is a list of records, of which `matrixSslDecode` takes one at a
time as soon as its bytes are there. A buffer is the bytes between `start` and `end`, and its size.
The socket is in blocking mode. Answers of the kernel come from lists; a call that finds none
does not return.
-/

set_option autoImplicit false

namespace TTLinux.Model.MatrixSsl

open TTLinux.Lib

/-! ## The connection -/

/-- What a `send` or a `write` returns: a number of bytes, as far as there are as many, or -1. -/
inductive WriteOutcome where
  | wrote (k : ℕ)
  | eintr
  | failed
deriving DecidableEq

/-- What a `recv` returns: a number of bytes, as far as there are as many, or -1. -/
inductive RecvOutcome where
  | arrived (n : ℕ)
  | failed
deriving DecidableEq

/-- What `matrixSslEncode` returns, with the record that it appends. -/
inductive Encoded (S : Type) where
  | error
  | full
  | record (wire : Bytes) (ssl : S)

/-- MatrixSSL, with `S` the state of a session. -/
structure Library (S : Type) where
  /-- `SSL_MAX_BUF_SIZE` -/
  maxBufSize : ℕ
  /-- `matrixSslEncode` of a plaintext into a buffer with so many bytes of its size in use. -/
  matrixSslEncode : S → Bytes → ℕ → ℕ → Encoded S

/-- A record that was encoded, with the plaintext that it carries. -/
structure Sealed where
  wire : Bytes
  plaintext : Bytes
deriving DecidableEq

/-- What a record of the peer leads to, when it is decoded. -/
inductive Content where
  /-- `SSL_PROCESS_DATA` -/
  | data (plaintext : Bytes)
  /-- `SSL_SUCCESS` -/
  | success
  /-- `SSL_SEND_RESPONSE` -/
  | response (bytes : Bytes)
  /-- `SSL_ALERT` with `SSL_ALERT_CLOSE_NOTIFY` -/
  | closeNotify
  /-- `SSL_ALERT` -/
  | alert
  /-- `SSL_ERROR` -/
  | error
deriving DecidableEq

/-- A record of the peer, with at least a header. -/
structure Record where
  wire : Bytes
  content : Content
  wire_ne_nil : wire ≠ []
deriving DecidableEq

/-- `sslConn_t` with its socket.
SOURCE: ucspi-tcp-matrixssl.patch:1480-1487 -/
structure Conn (S : Type) where
  ssl : S
  outsock : Bytes
  outsockSize : ℕ
  outBufferCount : ℕ
  insock : Bytes
  insockSize : ℕ
  /-- Decoded data that was not yet returned. -/
  inbuf : Bytes
  /-- The records that are not yet decoded. -/
  undecoded : List Record
  /-- The bytes that have not yet arrived. -/
  network : Bytes
  /-- The bytes that have arrived. -/
  received : Bytes
  /-- The records that were encoded. -/
  records : List Sealed
  /-- The bytes that were sent. -/
  sent : Bytes
  /-- `errno` is `EINTR`. -/
  intr : Bool

variable {S : Type}

/-- One `send` of some bytes: how many were sent, if it did not fail. -/
def Conn.send (c : Conn S) (bytes : Bytes) : WriteOutcome → Option ℕ × Conn S
  | .wrote k => (some (min k bytes.length), { c with sent := c.sent ++ bytes.take k })
  | .eintr => (none, { c with intr := true })
  | .failed => (none, { c with intr := false })

/-! ## `sslWrite` -/

/-- The loop behind `retryEncode`: whether the plaintext is encoded.
SOURCE: ucspi-tcp-matrixssl.patch:985-1000 -/
def retryEncode (lib : Library S) (buf : Bytes) : ℕ → Conn S → Option (Bool × Conn S)
  | 0, _ => none
  | fuel + 1, c =>
    match lib.matrixSslEncode c.ssl buf c.outsock.length c.outsockSize with
    | .error => some (false, c)
    | .full =>
      if c.outsockSize > lib.maxBufSize then some (false, c)
      else retryEncode lib buf fuel { c with outsockSize := c.outsockSize * 2 }
    | .record wire ssl =>
      some (true, { c with ssl := ssl, outsock := c.outsock ++ wire, records := c.records ++ [⟨wire, buf⟩] })

/-- `sslWrite` from `send` on: the return value, the connection and the answers that are left.
SOURCE: ucspi-tcp-matrixssl.patch:1002-1021 -/
def sendOutsock (buf : Bytes) (c : Conn S) (sends : List WriteOutcome) :
    Option (ℤ × Conn S × List WriteOutcome) :=
  match sends with
  | [] => none
  | a :: sends =>
    match c.send c.outsock a with
    | (none, c) => some (-1, c, sends)
    | (some k, c) =>
      let c := { c with outsock := c.outsock.drop k }
      if c.outsock = [] then some (buf.length, { c with outBufferCount := 0 }, sends)
      else some (0, { c with outBufferCount := buf.length }, sends)

/-- `sslWrite`.
SOURCE: ucspi-tcp-matrixssl.patch:954-1022 -/
def sslWrite (lib : Library S) (fuel : ℕ) (buf : Bytes) (c : Conn S) (sends : List WriteOutcome) :
    Option (ℤ × Conn S × List WriteOutcome) :=
  if 0 < c.outBufferCount ∧ buf.length ≠ c.outBufferCount then some (-1, c, sends)
  else
    match if c.outBufferCount = 0 then retryEncode lib buf fuel c else some (true, c) with
    | none => none
    | some (false, c) => some (-1, c, sends)
    | some (true, c) => sendOutsock buf c sends

/-- The loop of `allwritessl`, with `w` the value of the last `sslWrite`.
SOURCE: ucspi-tcp-matrixssl.patch:255-270 -/
def allwritesslLoop (lib : Library S) :
    ℕ → ℤ → Bytes → Conn S → List WriteOutcome → Option (ℤ × Conn S)
  | 0, _, _, _, _ => none
  | fuel + 1, w, buf, c, sends =>
    if buf = [] then some (w, c)
    else
      match sslWrite lib fuel buf c sends with
      | none => none
      | some (w, c, sends) =>
        if w = -1 then
          if c.intr then allwritesslLoop lib fuel w buf c sends else some (-1, c)
        else if w = 0 then allwritesslLoop lib fuel w buf c sends
        else allwritesslLoop lib fuel w (buf.drop w.toNat) c sends

/-- `allwritessl`. -/
def allwritessl (lib : Library S) (fuel : ℕ) (buf : Bytes) (c : Conn S) (sends : List WriteOutcome) :
    Option (ℤ × Conn S) :=
  allwritesslLoop lib fuel 0 buf c sends

/-! ## `sslRead` -/

/-- `SSLSOCKET_EOF` and `SSLSOCKET_CLOSE_NOTIFY`.
SOURCE: ucspi-tcp-matrixssl.patch:1474-1475 -/
def SSLSOCKET_EOF : ℕ := 1
def SSLSOCKET_CLOSE_NOTIFY : ℕ := 2

/-- What `sslRead` returns: an error, or data (also none) and the status. -/
inductive ReadResult where
  | error
  | data (bytes : Bytes) (status : ℕ)
deriving DecidableEq

/-- `matrixSslDecode`: the content of the next record, if its bytes are there. `SSL_FULL` only makes
`sslRead` call it again with a larger buffer.
SOURCE: ucspi-tcp-matrixssl.patch:774-778, 903-914 -/
def matrixSslDecode (c : Conn S) : Option (Content × Conn S) :=
  match c.undecoded with
  | r :: rest =>
    if r.wire <+: c.insock then
      some (r.content, { c with undecoded := rest, insock := c.insock.drop r.wire.length })
    else none
  | [] => none

/-- `recv` into the free part of `insock`: the connection, or what `sslRead` returns.
SOURCE: ucspi-tcp-matrixssl.patch:752-765 -/
def receive (c : Conn S) : RecvOutcome → Except ReadResult (Conn S)
  | .failed => .error .error
  | .arrived n =>
    let chunk := c.network.take (min n (c.insockSize - c.insock.length))
    if chunk = [] then .error (.data [] SSLSOCKET_EOF)
    else
      .ok { c with
        insock := c.insock ++ chunk
        network := c.network.drop chunk.length
        received := c.received ++ chunk }

/-- `SSL_PARTIAL`: a full buffer is made larger; none is `goto readError`.
SOURCE: ucspi-tcp-matrixssl.patch:879-893 -/
def growInsock (lib : Library S) (c : Conn S) : Option (Conn S) :=
  if c.insock.length = c.insockSize then
    if c.insockSize > lib.maxBufSize then none else some { c with insockSize := c.insockSize * 2 }
  else some c

/-- `SSL_SEND_RESPONSE`: one `send`, and another one for the rest.
SOURCE: ucspi-tcp-matrixssl.patch:811-848 -/
def sendResponse (bytes : Bytes) (c : Conn S) (sends : List WriteOutcome) : Option (ReadResult × Conn S) :=
  match sends with
  | [] => none
  | a :: sends =>
    match c.send bytes a with
    | (none, c) => some (.error, c)
    | (some k, c) =>
      if k < bytes.length then
        match sends with
        | [] => none
        | a :: _ =>
          match c.send (bytes.drop k) a with
          | (none, c) => some (.error, c)
          | (some _, c) => some (.data [] 0, c)
      else some (.data [] 0, c)

/-- What is done with a decoded record.
SOURCE: ucspi-tcp-matrixssl.patch:779-877 -/
def process (len : ℕ) (content : Content) (c : Conn S) (sends : List WriteOutcome) :
    Option (ReadResult × Conn S) :=
  match content with
  | .data plaintext => some (.data (plaintext.take len) 0, { c with inbuf := plaintext.drop len })
  | .success => some (.data [] 0, c)
  | .response bytes => sendResponse bytes c sends
  | .closeNotify => some (.data [] SSLSOCKET_CLOSE_NOTIFY, c)
  | .alert => some (.error, c)
  | .error => some (.error, c)

/-- `sslRead` from `recv` on.
SOURCE: ucspi-tcp-matrixssl.patch:751-899 -/
def readMore (lib : Library S) (len : ℕ) (recv : RecvOutcome) (sends : List WriteOutcome) (c : Conn S) :
    Option (ReadResult × Conn S) :=
  match receive c recv with
  | .error r => some (r, c)
  | .ok c =>
    match matrixSslDecode c with
    | some (content, c) => process len content c sends
    | none =>
      match growInsock lib c with
      | none => some (.error, c)
      | some c => some (.data [] 0, c)

/-- `sslRead` into a buffer of `len` bytes.
SOURCE: ucspi-tcp-matrixssl.patch:707-933 -/
def sslRead (lib : Library S) (len : ℕ) (recv : RecvOutcome) (sends : List WriteOutcome) (c : Conn S) :
    Option (ReadResult × Conn S) :=
  if len = 0 then some (.error, c)
  else if c.inbuf ≠ [] then some (.data (c.inbuf.take len) 0, { c with inbuf := c.inbuf.drop len })
  else if c.insock = [] then readMore lib len recv sends c
  else
    match matrixSslDecode c with
    | some (content, c) => process len content c sends
    | none =>
      match growInsock lib c with
      | none => some (.error, c)
      | some c => readMore lib len recv sends c

/-! ## The relay -/

/-- `BUFLENGTH`.
SOURCE: ucspi-tcp-matrixssl.patch:274 -/
def BUFLENGTH : ℕ := 8192

/-- `allwrite`, with `w` the value of the last `write`: the return value and what was written.
SOURCE: ucspi-tcp-matrixssl.patch:238-253 -/
def allwrite : List WriteOutcome → ℤ → Bytes → Option (ℤ × Bytes)
  | _, w, [] => some (w, [])
  | [], _, _ :: _ => none
  | .eintr :: writes, _, b :: buf => allwrite writes (-1) (b :: buf)
  | .failed :: _, _, _ :: _ => some (-1, [])
  | .wrote k :: writes, _, b :: buf =>
    (allwrite writes (min k (b :: buf).length) ((b :: buf).drop k)).map fun (w, written) =>
      (w, (b :: buf).take k ++ written)

/-- The relay when it calls `iopause`, with all that was written to the child. -/
structure Relay (S : Type) where
  conn : Conn S
  child : Bytes

/-- What the kernel answers in one round of the loop. -/
structure Round where
  /-- `iop[0].revents` and `iop[1].revents` -/
  ssl : Bool
  clear : Bool
  recv : RecvOutcome
  /-- The answers for a response that `sslRead` sends. -/
  responses : List WriteOutcome
  writes : List WriteOutcome
  /-- What `read(clearin)` returns, if it does not fail. -/
  read : Option Bytes
  sends : List WriteOutcome

/-- How a round ends: back to `iopause`, out of the loop, or in one of the fatal errors. -/
inductive RoundEnd where
  | again
  | left
  | died
deriving DecidableEq

/-- The part of a round for data on the network.
SOURCE: ucspi-tcp-matrixssl.patch:306-315 -/
def fromNetwork (lib : Library S) (r : Round) (s : Relay S) : Option (RoundEnd × Relay S) :=
  if !r.ssl then some (.again, s)
  else
    match sslRead lib BUFLENGTH r.recv r.responses s.conn with
    | none => none
    | some (.error, c) => some (.died, { s with conn := c })
    | some (.data bytes status, c) =>
      match allwrite r.writes 0 bytes with
      | none => none
      | some (w, written) =>
        let s := ⟨c, s.child ++ written⟩
        if w < 0 then some (.died, s)
        else if bytes = [] ∧ status ≠ 0 then some (.left, s)
        else some (.again, s)

/-- The part of a round for data from the child.
SOURCE: ucspi-tcp-matrixssl.patch:316-326 -/
def fromChild (lib : Library S) (fuel : ℕ) (r : Round) (s : Relay S) : Option (RoundEnd × Relay S) :=
  if !r.clear then some (.again, s)
  else
    match r.read with
    | none => some (.died, s)
    | some bytes =>
      let bytes := bytes.take BUFLENGTH
      match allwritessl lib fuel bytes s.conn r.sends with
      | none => none
      | some (w, c) =>
        let s := { s with conn := c }
        if w < 0 then some (.died, s)
        else if bytes = [] then some (.left, s)
        else some (.again, s)

/-- A round of the loop of `translate`, from one call of `iopause` to the next.
SOURCE: ucspi-tcp-matrixssl.patch:292-329 -/
def translateRound (lib : Library S) (fuel : ℕ) (r : Round) (s : Relay S) : Option (RoundEnd × Relay S) :=
  match fromNetwork lib r s with
  | none => none
  | some (.died, s) => some (.died, s)
  | some (e, s) =>
    match fromChild lib fuel r s with
    | none => none
    | some (.died, s) => some (.died, s)
    | some (e', s) =>
      if !r.ssl ∧ !r.clear then some (.died, s)
      else if e = .left ∨ e' = .left then some (.left, s)
      else some (.again, s)

end TTLinux.Model.MatrixSsl
