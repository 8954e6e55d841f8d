import Mathlib.Data.Nat.Digits.Defs
import Mathlib.Tactic.Ring

/-!
# Byte order

Numbers laid out in bytes, least or most significant byte first, and the byte swap
that turns one into the other. `leValue` is what a little-endian host reads from
memory, `beValue` is what the bytes mean in network order, and `byteSwap_leValue`
says that swapping what was read gives what was meant. Positional values are
`Nat.ofDigits` to base 256.
-/

namespace ByteOrder

/-- The number written in `bs`, least significant byte first. This is what a host of the target's
byte order loads from memory, whichever order the bytes were meant in. -/
def leValue (bs : List UInt8) : Nat := Nat.ofDigits 256 (bs.map UInt8.toNat)

/-- The number written in `bs`, most significant byte first: what the bytes mean in network order.
-/
def beValue (bs : List UInt8) : Nat := leValue bs.reverse

/-- The low `w` bytes of `n`, least significant byte first. -/
def leBytes : Nat → Nat → List UInt8
  | 0, _ => []
  | w + 1, n => UInt8.ofNat n :: leBytes w (n / 256)

/-- The number whose `w` bytes are those of `n` in the opposite order. Bytes of `n` beyond the `w`
lowest ones are dropped, as the functions of the C library get an argument of that width. -/
def byteSwap (w n : Nat) : Nat := beValue (leBytes w n)

@[simp] theorem leValue_nil : leValue [] = 0 := rfl

@[simp] theorem leValue_cons (b : UInt8) (bs : List UInt8) :
    leValue (b :: bs) = b.toNat + 256 * leValue bs := by
  simp [leValue, Nat.ofDigits_cons]

@[simp] theorem length_leBytes (w n : Nat) : (leBytes w n).length = w := by
  induction w generalizing n with
  | zero => rfl
  | succ w ih => simp [leBytes, ih]

theorem leValue_append (as bs : List UInt8) :
    leValue (as ++ bs) = leValue as + 256 ^ as.length * leValue bs := by
  simp [leValue, Nat.ofDigits_append]

/-- Fewer bytes hold smaller numbers. -/
theorem leValue_lt (bs : List UInt8) : leValue bs < 256 ^ bs.length := by
  have h : ∀ d ∈ bs.map UInt8.toNat, d < 256 := by
    intro d hd
    obtain ⟨b, -, rfl⟩ := List.mem_map.mp hd
    exact b.toNat_lt
  simpa [leValue] using Nat.ofDigits_lt_base_pow_length (by decide) h

/-- Reading back what was written keeps the low bytes. -/
theorem leValue_leBytes (w n : Nat) : leValue (leBytes w n) = n % 256 ^ w := by
  induction w generalizing n with
  | zero => simp [leBytes, Nat.mod_one]
  | succ w ih =>
    rw [leBytes, leValue_cons, ih, pow_succ', Nat.mod_mul]
    simp

/-- Writing what was read gives the same bytes. -/
theorem leBytes_leValue (bs : List UInt8) : leBytes bs.length (leValue bs) = bs := by
  induction bs with
  | nil => rfl
  | cons b bs ih =>
    have hb : b.toNat < 256 := b.toNat_lt
    have hdiv : (b.toNat + 256 * leValue bs) / 256 = leValue bs := by omega
    have hmod : UInt8.ofNat (b.toNat + 256 * leValue bs) = b := by
      apply UInt8.toNat_inj.mp
      rw [UInt8.toNat_ofNat']
      omega
    rw [List.length_cons, leValue_cons, leBytes, hdiv, hmod, ih]

/-! ## Network order -/

@[simp] theorem beValue_nil : beValue [] = 0 := rfl

theorem beValue_append (as bs : List UInt8) :
    beValue (as ++ bs) = beValue as * 256 ^ bs.length + beValue bs := by
  rw [beValue, List.reverse_append, leValue_append, List.length_reverse, beValue, beValue]
  ring

theorem beValue_singleton (b : UInt8) : beValue [b] = b.toNat := by
  simp [beValue]

theorem beValue_lt (bs : List UInt8) : beValue bs < 256 ^ bs.length := by
  simpa [beValue] using leValue_lt bs.reverse

/-- The last byte is the least significant one: changing it changes the number. -/
theorem beValue_concat_inj {as : List UInt8} {b c : UInt8}
    (h : beValue (as ++ [b]) = beValue (as ++ [c])) : b = c := by
  rw [beValue_append, beValue_append, beValue_singleton, beValue_singleton] at h
  apply UInt8.toNat_inj.mp
  simpa using h

/-! ## Swapping -/

/-- Swapping what a little-endian host reads gives the number in network order. -/
theorem byteSwap_leValue (bs : List UInt8) : byteSwap bs.length (leValue bs) = beValue bs := by
  rw [byteSwap, leBytes_leValue]

theorem byteSwap_lt (w n : Nat) : byteSwap w n < 256 ^ w := by
  simpa [byteSwap] using beValue_lt (leBytes w n)

/-- Swapping twice is the identity on numbers of `w` bytes. -/
theorem byteSwap_byteSwap {w n : Nat} (hn : n < 256 ^ w) : byteSwap w (byteSwap w n) = n := by
  have h := leBytes_leValue (leBytes w n).reverse
  rw [List.length_reverse, length_leBytes] at h
  calc byteSwap w (byteSwap w n) = beValue (leBytes w n).reverse := congrArg beValue h
    _ = leValue (leBytes w n) := by rw [beValue, List.reverse_reverse]
    _ = n := by rw [leValue_leBytes, Nat.mod_eq_of_lt hn]

end ByteOrder
