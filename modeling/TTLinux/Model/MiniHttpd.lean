import TTLinux.Model.MatrixSsl

/-!
# Writing of mini_httpd

`my_write` of mini_httpd over MatrixSSL (apps/internet/mini_httpd/patches/mini_httpd-1.19-matrixssl.patch).
Its `sslWrite` (lines 502-572 there) is the one of ucspi-tcp apart from two messages, so the model
of that one is used; `my_write` does not look at the status. `SSL_MAX_PLAINTEXT_LEN` comes from a
header of MatrixSSL and is a parameter.
-/

set_option autoImplicit false

namespace TTLinux.Model.MiniHttpd

open TTLinux.Lib TTLinux.Model.MatrixSsl

variable {S : Type}

/-- What follows on a return of `sslWrite` in the inner loop: the value, the connection and the
answers that are left, where `again` makes the next call.
SOURCE: mini_httpd-1.19-matrixssl.patch:912 -/
def retryWrite (again : Conn S → List WriteOutcome → Option (ℤ × Conn S × List WriteOutcome)) :
    Option (ℤ × Conn S × List WriteOutcome) → Option (ℤ × Conn S × List WriteOutcome)
  | none => none
  | some (r, c, sends) => if r = 0 then again c sends else some (r, c, sends)

/-- The inner loop: `sslWrite` of the same chunk until it does not return 0.
SOURCE: mini_httpd-1.19-matrixssl.patch:912 -/
def writeChunk (lib : Library S) (chunk : Bytes) :
    ℕ → Conn S → List WriteOutcome → Option (ℤ × Conn S × List WriteOutcome)
  | 0, _, _ => none
  | fuel + 1, c, sends => retryWrite (writeChunk lib chunk fuel) (sslWrite lib fuel chunk c sends)

/-- The outer loop, with the `size` bytes of `buf` that are left.
SOURCE: mini_httpd-1.19-matrixssl.patch:910-915 -/
def myWriteLoop (lib : Library S) (SSL_MAX_PLAINTEXT_LEN : ℕ) :
    ℕ → ℤ → Bytes → Conn S → List WriteOutcome → Option (ℤ × Conn S × List WriteOutcome)
  | 0, _, _, _, _ => none
  | fuel + 1, r, buf, c, sends =>
    if 0 < buf.length ∧ 0 ≤ r then
      let s := if buf.length < SSL_MAX_PLAINTEXT_LEN then buf.length else SSL_MAX_PLAINTEXT_LEN
      match writeChunk lib (buf.take s) fuel c sends with
      | none => none
      | some (r, c, sends) => myWriteLoop lib SSL_MAX_PLAINTEXT_LEN fuel r (buf.drop s) c sends
    else some (r, c, sends)

/-- `my_write` where `do_ssl` is set: the return value, the connection, and the answers of `send` that
are left.
SOURCE: mini_httpd-1.19-matrixssl.patch:901-924 -/
def myWrite (lib : Library S) (SSL_MAX_PLAINTEXT_LEN fuel : ℕ) (buf : Bytes) (c : Conn S)
    (sends : List WriteOutcome) : Option (ℤ × Conn S × List WriteOutcome) :=
  myWriteLoop lib SSL_MAX_PLAINTEXT_LEN fuel 0 buf c sends

end TTLinux.Model.MiniHttpd
