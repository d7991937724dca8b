import Mathlib.Data.List.Basic
/-!
# Base64

Three bytes as four characters of an alphabet of 64, with padding at the end. The decoder
passes over what is not in the alphabet and stops at the padding, as Python's does unless
it is told to validate.
-/

namespace Lib.Base64

def alphabet : List Char := "ABCDEFGHIJKLMNOPQRSTUVWXYZabcdefghijklmnopqrstuvwxyz0123456789+/".toList

def digit (n : Nat) : Char := alphabet[n]?.getD 'A'

def value (c : Char) : Option Nat := alphabet.idxOf? c

def encode : List UInt8 → List Char
  | a :: b :: c :: bs =>
    digit (a.toNat / 4) :: digit (a.toNat % 4 * 16 + b.toNat / 16) :: digit (b.toNat % 16 * 4 + c.toNat / 64) ::
      digit (c.toNat % 64) :: encode bs
  | [a, b] => [digit (a.toNat / 4), digit (a.toNat % 4 * 16 + b.toNat / 16), digit (b.toNat % 16 * 4), '=']
  | [a] => [digit (a.toNat / 4), digit (a.toNat % 4 * 16), '=', '=']
  | [] => []

/-- The loop of the decoder: the place in the group of four, the bits that are left of the
character before, and the padding since then. -/
def decodeLoop : Nat → Nat → Nat → List Char → Option (List UInt8)
  | quad, _, _, [] => if quad = 0 then some [] else none
  | quad, left, pads, c :: cs =>
    if c = '=' then
      if 2 ≤ quad ∧ 4 ≤ quad + (pads + 1) then some []
      else decodeLoop quad left (if 2 ≤ quad then pads + 1 else pads) cs
    else
      match value c with
      | none => decodeLoop quad left pads cs
      | some n =>
        match quad with
        | 0 => decodeLoop 1 n 0 cs
        | 1 => (decodeLoop 2 (n % 16) 0 cs).map (UInt8.ofNat (left * 4 + n / 16) :: ·)
        | 2 => (decodeLoop 3 (n % 4) 0 cs).map (UInt8.ofNat (left * 16 + n / 4) :: ·)
        | _ => (decodeLoop 0 0 0 cs).map (UInt8.ofNat (left * 64 + n) :: ·)

def decode (cs : List Char) : Option (List UInt8) := decodeLoop 0 0 0 cs

theorem length_lt_encode {bs : List UInt8} (h : bs ≠ []) : bs.length < (encode bs).length := by
  induction bs using encode.induct with
  | case1 a b c bs ih =>
    by_cases hnil : bs = []
    · subst hnil
      simp [encode]
    · have hlt := ih hnil
      simp only [encode, List.length_cons]
      omega
  | case2 a b => simp [encode]
  | case3 a => simp [encode]
  | case4 => exact absurd rfl h

/-! ## Digits -/

theorem value_digit : ∀ n < 64, value (digit n) = some n ∧ digit n ≠ '=' := by decide +kernel

theorem digit_mem {n} : digit n ∈ alphabet := by
  unfold digit
  cases h : alphabet[n]? with
  | some c => exact List.mem_of_getElem? h
  | none => decide

theorem mem_encode {bs c} (h : c ∈ encode bs) : c ∈ alphabet ∨ c = '=' := by
  have hd {n} : c = digit n → c ∈ alphabet := fun heq => heq ▸ digit_mem
  induction bs using encode.induct with
  | case1 a b d bs ih =>
    simp only [encode, List.mem_cons] at h
    rcases h with h | h | h | h | h
    on_goal 5 => exact ih h
    all_goals exact .inl (hd h)
  | case2 | case3 =>
    simp only [encode, List.mem_cons, List.not_mem_nil, or_false] at h
    rcases h with h | h | h | h <;> first | exact .inl (hd h) | exact .inr h
  | case4 => cases h

/-! ## The round trip -/

section Loop
variable {n left pads : Nat} {cs : List Char}

theorem decodeLoop_zero (h : n < 64) : decodeLoop 0 left pads (digit n :: cs) = decodeLoop 1 n 0 cs := by
  rw [decodeLoop, if_neg (value_digit n h).2, (value_digit n h).1]
  rfl

theorem decodeLoop_one (h : n < 64) :
    decodeLoop 1 left pads (digit n :: cs) = (decodeLoop 2 (n % 16) 0 cs).map (UInt8.ofNat (left * 4 + n / 16) :: ·) := by
  rw [decodeLoop, if_neg (value_digit n h).2, (value_digit n h).1]
  rfl

theorem decodeLoop_two (h : n < 64) :
    decodeLoop 2 left pads (digit n :: cs) = (decodeLoop 3 (n % 4) 0 cs).map (UInt8.ofNat (left * 16 + n / 4) :: ·) := by
  rw [decodeLoop, if_neg (value_digit n h).2, (value_digit n h).1]
  rfl

theorem decodeLoop_three (h : n < 64) :
    decodeLoop 3 left pads (digit n :: cs) = (decodeLoop 0 0 0 cs).map (UInt8.ofNat (left * 64 + n) :: ·) := by
  rw [decodeLoop, if_neg (value_digit n h).2, (value_digit n h).1]
  rfl

end Loop

theorem ofNat_eq {n} {b : UInt8} (h : n = b.toNat) : UInt8.ofNat n = b := by
  rw [h, UInt8.ofNat_toNat]

theorem decode_encode (bs : List UInt8) : decode (encode bs) = some bs := by
  unfold decode
  induction bs using encode.induct with
  | case1 a b c bs ih =>
    have ha := a.toNat_lt
    have hb := b.toNat_lt
    have hc := c.toNat_lt
    rw [encode, decodeLoop_zero (by omega), decodeLoop_one (by omega), decodeLoop_two (by omega),
      decodeLoop_three (by omega), ih]
    simp only [Option.map_some, Option.some.injEq]
    rw [ofNat_eq (b := a) (by omega), ofNat_eq (b := b) (by omega), ofNat_eq (b := c) (by omega)]
  | case2 a b =>
    have ha := a.toNat_lt
    have hb := b.toNat_lt
    rw [encode, decodeLoop_zero (by omega), decodeLoop_one (by omega), decodeLoop_two (by omega), decodeLoop, if_pos rfl,
      if_pos (by omega)]
    simp only [Option.map_some, Option.some.injEq]
    rw [ofNat_eq (b := a) (by omega), ofNat_eq (b := b) (by omega)]
  | case3 a =>
    have ha := a.toNat_lt
    rw [encode, decodeLoop_zero (by omega), decodeLoop_one (by omega), decodeLoop, if_pos rfl, if_neg (by omega),
      if_pos (Nat.le_refl 2), decodeLoop, if_pos rfl, if_pos (by omega)]
    simp only [Option.map_some, Option.some.injEq]
    rw [ofNat_eq (b := a) (by omega)]
  | case4 => rfl

end Lib.Base64
