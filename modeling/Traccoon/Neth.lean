import Traccoon.Header

/-!
# `neth.c`: parameters in a request text, and what is sent

A `char*` into the request is the text from there on. What a function sends is the list of the pieces it hands to `send`, one
entry a call.
-/

namespace Traccoon

open CString

/-- `textAfter(buf, param)`. -/
def textAfter (buf param : Bytes) : Option Bytes := (strstr buf param).map (·.drop param.length)

/-- The loop condition of `decodedStrlen`: `mlen==-1||i<mlen`. -/
def withinMlen (mlen : Int) (i : Nat) : Bool := mlen == -1 || decide ((i : Int) < mlen)

/-- The loop of `decodedStrlen` from `str + i` on. The two bytes behind a `%` are skipped if they are there, also past `mlen`. -/
def decodedStrlenFrom (mlen : Int) : Bytes → Nat → Nat
  | [], _ => 0
  | 37 :: _ :: _ :: str, i => if withinMlen mlen i then decodedStrlenFrom mlen str (i + 3) + 1 else 0
  | _ :: str, i => if withinMlen mlen i then decodedStrlenFrom mlen str (i + 1) + 1 else 0

/-- `decodedStrlen(str, mlen)`. -/
def decodedStrlen (str : Bytes) (mlen : Int) : Nat := decodedStrlenFrom mlen str 0

/-- `tolower` in the C locale. -/
def tolower (b : UInt8) : UInt8 := if 65 ≤ b ∧ b ≤ 90 then b + 32 else b

/-- `strtolower(in)`. -/
def strtolower (s : Bytes) : Bytes := s.map tolower

/-- The bytes of a parameter value: up to an `&`, a blank or the end. -/
def isParamByte (b : UInt8) : Bool := b != 38 && b != 32

/-- `httpParamLength(in)`. -/
def httpParamLength (s : Bytes) : Nat := (s.takeWhile isParamByte).length

/-- `sendString(fd, msg)`: one piece, up to the terminator. -/
def sendString (msg : Bytes) : List Bytes := [cstr msg]

/-- `sendHttpHeaders(fd, rcode, headers)`. -/
def sendHttpHeaders (rcode headers : Bytes) : List Bytes :=
  sendString (ascii "HTTP/1.1 ") ++ sendString rcode ++ sendString (ascii "\r\n") ++ sendString headers ++
    sendString (ascii "Content-type: text/plain\r\nConnection: close\r\nServer: traccoon\r\n\r\n")

/-! ## Lengths of values -/

/-- A value followed by an `&` or the end is measured whole. -/
theorem httpParamLength_append {v t : Bytes} (hv : ∀ b ∈ v, isParamByte b = true) (ht : ∀ b ∈ t.head?, isParamByte b = false) :
    httpParamLength (v ++ t) = v.length := by
  rw [httpParamLength, List.takeWhile_append_of_pos hv]
  cases t with
  | nil => simp
  | cons b t => simp [ht b (by simp)]

@[simp] theorem withinMlen_natCast (mlen i : Nat) : withinMlen mlen i = decide (i < mlen) := by
  have h : ((mlen : Int) == -1) = false := by
    rw [beq_eq_false_iff_ne]
    omega
  rw [withinMlen, h, Bool.false_or]
  exact decide_eq_decide.2 Int.ofNat_lt

/-- An escape counts once, whatever the two bytes behind its sign are. -/
theorem decodedStrlenFrom_percent (mlen : Nat) (x y : UInt8) (s : Bytes) (i : Nat) :
    decodedStrlenFrom mlen (37 :: x :: y :: s) i = if i < mlen then decodedStrlenFrom mlen s (i + 3) + 1 else 0 := by
  simp only [decodedStrlenFrom, withinMlen_natCast, decide_eq_true_eq]

/-- So does any other byte. -/
theorem decodedStrlenFrom_literal {b : UInt8} (hb : b ≠ 37) (mlen : Nat) (s : Bytes) (i : Nat) :
    decodedStrlenFrom mlen (b :: s) i = if i < mlen then decodedStrlenFrom mlen s (i + 1) + 1 else 0 := by
  rw [decodedStrlenFrom]
  · simp only [withinMlen_natCast, decide_eq_true_eq]
  · intro x y s h
    exact absurd h hb

/-- A count takes at least one byte of the value. -/
theorem decodedStrlenFrom_le (str : Bytes) (mlen i : Nat) : decodedStrlenFrom mlen str i ≤ mlen - i := by
  fun_induction decodedStrlenFrom mlen str i with
  | case1 => omega
  | case2 x y str i hw ih =>
    rw [withinMlen_natCast, decide_eq_true_eq] at hw
    omega
  | case3 x y str i hw => omega
  | case4 b str i hne hw ih =>
    rw [withinMlen_natCast, decide_eq_true_eq] at hw
    omega
  | case5 b str i hne hw => omega

/-- The count is over when the index has reached the end of the value. -/
theorem decodedStrlenFrom_done {mlen i : Nat} (h : mlen ≤ i) (s : Bytes) : decodedStrlenFrom mlen s i = 0 := by
  have hle := decodedStrlenFrom_le s mlen i
  omega

/-- A value whose decoded length is counted has at most three bytes a count. -/
theorem le_decodedStrlenFrom {str : Bytes} {mlen i : Nat} (h : mlen ≤ i + str.length) :
    mlen ≤ i + 3 * decodedStrlenFrom mlen str i := by
  fun_induction decodedStrlenFrom mlen str i with
  | case1 => simpa using h
  | case2 x y str i hw ih =>
    have := ih (by simp only [List.length_cons] at h; omega)
    omega
  | case3 x y str i hw => simp [withinMlen] at hw; omega
  | case4 b str i hne hw ih =>
    have := ih (by simp only [List.length_cons] at h; omega)
    omega
  | case5 b str i hne hw => simp [withinMlen] at hw; omega

/-- A value that decodes to a hash or peer id fits the buffer it is copied to. -/
theorem httpParamLength_le {s : Bytes} (h : decodedStrlen s (httpParamLength s) = maxHashLen) :
    httpParamLength s ≤ maxUrlencHashLen := by
  have hle : httpParamLength s ≤ s.length := (List.takeWhile_prefix _).length_le
  have := @le_decodedStrlenFrom s (httpParamLength s) 0 (by omega)
  rw [← decodedStrlen, h] at this
  simp only [maxUrlencHashLen]
  omega

end Traccoon
