import ExternalServo.CDouble

/-!
# The C runtime a program leans on

Memory errors, allocation and the string functions, as far as a program's result
depends on them:

* `Fault` — what ends a process that divides an integer by zero, leaves an array or
  hands a null pointer to a string function. Code that can do one of these returns
  in `Except Fault`.
* `readAt`, `writeAt` — array accesses that fault outside the array.
* `calloc` — an allocation is granted or refused by the environment (`grants`), but
  never granted beyond `PTRDIFF_MAX`.
* `strdup`, `strncpy`, `atoi`, `strtod` — on strings as the caller sees them.
-/

namespace CArith

/-- How a process ends when it does what the language leaves undefined. Only the kinds that the
program can reach are listed; a signed overflow is not a fault here, as the target wraps around, and
is spoken of where a theorem is about it. -/
inductive Fault : Type where
  /-- an integer division or remainder by zero -/
  | divByZero : Fault
  /-- an access outside an array -/
  | outOfBounds : Fault
  /-- a string function applied to a null pointer -/
  | nullPointer : Fault
  deriving DecidableEq

/-- A function of a result that did not fault. -/
theorem map_eq_ok {ε α β : Type} {f : α → β} {x : Except ε α} {b : β} :
    x.map f = .ok b ↔ ∃ a, x = .ok a ∧ f a = b := by
  cases x with
  | error e => simp [Except.map]
  | ok a => simp [Except.map]

/-! ## Arrays -/

section Arrays

variable {α : Type}

/-- The element at index `i`. -/
def readAt (xs : List α) (i : Nat) : Except Fault α :=
  match xs[i]? with
  | some x => .ok x
  | none => .error .outOfBounds

/-- The array with the element at index `i` replaced. -/
def writeAt (xs : List α) (i : Nat) (x : α) : Except Fault (List α) :=
  if i < xs.length then .ok (xs.set i x) else .error .outOfBounds

theorem readAt_of_lt {xs : List α} {i : Nat} (h : i < xs.length) : readAt xs i = .ok xs[i] := by
  simp [readAt, h]

theorem writeAt_of_lt {xs : List α} {i : Nat} (h : i < xs.length) (x : α) :
    writeAt xs i x = .ok (xs.set i x) := if_pos h

/-- The array with its first `n` elements zeroed. -/
def memset0 (zero : α) (xs : List α) (n : Nat) : Except Fault (List α) :=
  if n ≤ xs.length then .ok (List.replicate n zero ++ xs.drop n) else .error .outOfBounds

/-- The remainder of two nonnegative `int`s. -/
def remainder (a b : Nat) : Except Fault Nat :=
  if b = 0 then .error .divByZero else .ok (a % b)

theorem remainder_of_pos {b : Nat} (h : 0 < b) (a : Nat) : remainder a b = .ok (a % b) :=
  if_neg h.ne'

end Arrays

/-! ## Allocation -/

/-- The largest size an object can have. -/
def PTRDIFF_MAX : Nat := 2 ^ 63 - 1

/-- The product `length * elem` in the type `size_t`, for an `int` length. -/
def arraySize (length : Int) (elem : Nat) : Nat := (length * elem % 2 ^ 64).toNat

/-- Whether a request for `size` zeroed bytes succeeds. A request of no bytes may succeed; one that
is larger than any object never does. Apart from that the environment decides, and nothing is proved
from what it grants. -/
def calloc (grants : Nat → Bool) (size : Nat) : Bool :=
  decide (size ≤ PTRDIFF_MAX) && grants size

/-- A negative length converts to a size no allocation grants. -/
theorem calloc_negative (grants : Nat → Bool) {length : Int} {elem : Nat}
    (hneg : length < 0) (hlen : -2 ^ 31 ≤ length) (hpos : 0 < elem) (helem : elem ≤ 16) :
    calloc grants (arraySize length elem) = false := by
  have hlo : -2 ^ 35 ≤ length * elem := by nlinarith
  have hhi : length * elem < 0 := by nlinarith
  have hsize : ¬ arraySize length elem ≤ PTRDIFF_MAX := by
    rw [arraySize, PTRDIFF_MAX]
    omega
  simp [calloc, hsize]

/-! ## Strings -/

/-- A copy of a string: it ends at the first NUL character. -/
def strdup (s : String) : String :=
  String.ofList (s.toList.takeWhile fun c => c != Char.ofNat 0)

/-- The bytes of a string. -/
def bytesOf (s : String) : List UInt8 := s.toUTF8.data.toList

/-- Copy at most `n` bytes of a string into a buffer, filling up with NUL. -/
def strncpy (dst : List UInt8) (src : String) (n : Nat) : List UInt8 :=
  (bytesOf src).take n ++ List.replicate (n - (bytesOf src).length) 0 ++ dst.drop n

/-- The characters `isspace` accepts. -/
def isSpace (c : Char) : Bool := c.toNat == 32 || (9 ≤ c.toNat && c.toNat ≤ 13)

/-- An optional sign: whether the number is negative, and the rest. -/
def scanSign : List Char → Bool × List Char
  | '-' :: cs => (true, cs)
  | '+' :: cs => (false, cs)
  | cs => (false, cs)

/-- The digit a character stands for in base ten or sixteen. -/
def digit (base : Nat) (c : Char) : Option Nat :=
  let d := if c.isDigit then c.toNat - 48
    else if 97 ≤ c.toNat ∧ c.toNat ≤ 102 then c.toNat - 87
    else if 65 ≤ c.toNat ∧ c.toNat ≤ 70 then c.toNat - 55
    else base
  if d < base then some d else none

/-- Read digits: the value so far, the number of digits so far and the rest. -/
def scanDigits (base : Nat) (v n : Nat) : List Char → Nat × Nat × List Char
  | [] => (v, n, [])
  | c :: cs =>
    match digit base c with
    | some d => scanDigits base (v * base + d) (n + 1) cs
    | none => (v, n, c :: cs)

/-- `strtol` in base ten: the value saturates at the bounds of `long`. -/
def strtol (s : String) : Int :=
  let (neg, cs) := scanSign (s.toList.dropWhile isSpace)
  let v := (scanDigits 10 0 0 cs).1
  if neg then max (-v) (-2 ^ 63) else min v (2 ^ 63 - 1)

/-- `atoi` is `strtol` narrowed to `int`, as the C library implements it: a text beyond the range of
`long` saturates first, and is then cut to its low 32 bits. -/
def atoi (s : String) : Int := (strtol s).bmod (2 ^ 32)

theorem atoi_range (s : String) : -2 ^ 31 ≤ atoi s ∧ atoi s < 2 ^ 31 := by
  rw [atoi]
  refine ⟨?_, ?_⟩
  · exact Int.le_bmod (by decide)
  · exact Int.bmod_lt (by decide)

/-- An exponent part introduced by one of two letters; zero if there is none. -/
def scanExponent (lower upper : Char) : List Char → Int
  | c :: cs =>
    if c == lower || c == upper then
      let (neg, ds) := scanSign cs
      let v := (scanDigits 10 0 0 ds).1
      if neg then -v else v
    else 0
  | [] => 0

/-- `m * b ^ e` for an exponent of either sign. -/
def scale (m b : Nat) (e : Int) : ℚ :=
  if 0 ≤ e then (m * b ^ e.toNat : Nat) else (m : ℚ) / (b ^ (-e).toNat : Nat)

/-- The digits of a number in base `base` around an optional point, followed by an exponent to
base `expBase`: its value, if there is at least one digit. A digit after the point counts
`pointWeight` down in the exponent. -/
def scanNumber (base expBase pointWeight : Nat) (lower upper : Char) (cs : List Char) :
    Option ℚ :=
  let (v, n, rest) := scanDigits base 0 0 cs
  let (v, k, rest) :=
    match rest with
    | '.' :: ds => scanDigits base v 0 ds
    | _ => (v, 0, rest)
  if n + k = 0 then none
  else some (scale v expBase (scanExponent lower upper rest - pointWeight * k))

/-- The text starts with the given lower-case letters, in either case. -/
def startsWith (word : String) (cs : List Char) : Bool :=
  (cs.take word.length).map Char.toLower == word.toList

/-- `strtod`, without the end pointer: white space, a sign, then an infinity, a NaN, a hexadecimal
or a decimal number; zero if there is none of them. The constant is rounded by `CDouble.lit`, once,
as the library rounds it. -/
def strtod {D : Type} [CDouble D] (s : String) : D :=
  let (neg, cs) := scanSign (s.toList.dropWhile isSpace)
  let magnitude : D :=
    if startsWith "inf" cs then CDouble.infinity
    else if startsWith "nan" cs then CDouble.nan
    else
      let hex := if startsWith "0x" cs then scanNumber 16 2 4 'p' 'P' (cs.drop 2) else none
      let dec := scanNumber 10 10 1 'e' 'E' cs
      CDouble.lit ((hex.or dec).getD 0)
  if neg then -magnitude else magnitude

example : atoi " -12px" = -12 ∧ atoi "4294967296" = 0 ∧ atoi "x" = 0 := by decide +kernel

example : (strtod "2.50e-1" : XRat) = .fin (1 / 4) ∧ (strtod "-0x1.8p1" : XRat) = .fin (-3) ∧
    (strtod "1e" : XRat) = .fin 1 ∧ (strtod "-Inf" : XRat) = .inf true := by decide +kernel

/-- Absolute value in `long long`; the least value stays where it is, as its negation overflows and
wraps around on the target. -/
def llabs (x : Int64) : Int64 := if x < 0 then -x else x

/-- The negation of a value that has one. -/
theorem toInt_neg {x : Int64} (h : x ≠ Int64.minValue) : (-x).toInt = -x.toInt := by
  have hlo := Int64.le_toInt x
  have hhi := Int64.toInt_lt x
  have hne : x.toInt ≠ -2 ^ 63 := by
    intro heq
    exact h (Int64.toInt_inj.mp heq)
  rw [Int64.toInt_neg]
  exact Int.bmod_eq_of_le (by omega) (by omega)

/-- The magnitude of a value that has one. -/
theorem toInt_llabs {x : Int64} (h : x ≠ Int64.minValue) : (llabs x).toInt = |x.toInt| := by
  rw [llabs]
  split
  · next hneg =>
    have hlt : x.toInt < 0 := Int64.lt_iff_toInt_lt.mp hneg
    rw [toInt_neg h, abs_of_neg hlt]
  · next hneg =>
    have hge : 0 ≤ x.toInt := by
      by_contra hlt
      exact hneg (Int64.lt_iff_toInt_lt.mpr (not_le.mp hlt))
    rw [abs_of_nonneg hge]

/-- The unsigned value of a signed one is the same integer modulo `2 ^ 64`. -/
theorem toUInt64_ofInt (n : Int) : (Int64.ofInt n).toUInt64 = UInt64.ofInt n := by
  apply UInt64.toBitVec_inj.mp
  apply BitVec.eq_of_toNat_eq
  rw [Int64.toBitVec_toUInt64, Int64.toBitVec_ofInt, BitVec.toNat_ofInt, UInt64.ofInt]
  have hlt : (n % 2 ^ 64).toNat < 2 ^ 64 := by omega
  exact (UInt64.toNat_ofNat_of_lt' hlt).symm

end CArith
