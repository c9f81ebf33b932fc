import JsWaku.Js.Bytes

/-!
# JsWaku.Js.Protobuf

The protobuf wire format as `protobufjs` reads and writes it. A reader is the bytes it has left.

* `varint`, `uint32` — base-128 integers. The reader takes 32 bits from the first five bytes and,
  when the fifth still says that more follow, steps over five more (`uint32_varint`).
* `bytes`, `double` — length-prefixed bytes and eight-byte numbers.
* `skipType` — stepping over a field of an unknown number; groups nest.
* Every reader leaves at most what it was given; a `uint32` leaves strictly less (`uint32_lt`), so a
  field loop ends.
-/

namespace JsWaku
namespace Js
namespace Protobuf

def varint (n : Nat) : Bytes :=
  if n < 128 then [UInt8.ofNat n] else UInt8.ofNat (n % 128 + 128) :: varint (n / 128)
termination_by n

/-- `writer.bytes(b)` -/
def lenPrefixed (b : Bytes) : Bytes := varint b.length ++ b

/-- The bytes of a `uint32` that may be followed by `k` whole ones and a last of four bits. -/
def uint32Loop : Nat → Bytes → Except Thrown (Nat × Bytes)
  | _, [] => .error .rangeError
  | 0, x :: rest =>
    if x.toNat < 128 then .ok (x.toNat % 16, rest)
    else if rest.length < 5 then .error .rangeError
    else .ok (x.toNat % 16, rest.drop 5)
  | k + 1, x :: rest =>
    if x.toNat < 128 then .ok (x.toNat, rest)
    else do
      let (v, rest) ← uint32Loop k rest
      return (x.toNat % 128 + 128 * v, rest)

/-- `reader.uint32()` -/
def uint32 (b : Bytes) : Except Thrown (Nat × Bytes) := uint32Loop 4 b

/-- `reader.skip(n)` -/
def skip (n : Nat) (b : Bytes) : Except Thrown Bytes :=
  if b.length < n then .error .rangeError else .ok (b.drop n)

/-- `reader.bytes()` -/
def bytes (b : Bytes) : Except Thrown (Bytes × Bytes) := do
  let (len, rest) ← uint32 b
  if rest.length < len then .error .rangeError else .ok (rest.take len, rest.drop len)

/-- `reader.double()`, as a bit pattern. -/
def double (b : Bytes) : Except Thrown (UInt64 × Bytes) :=
  if b.length < 8 then .error .rangeError
  else .ok (UInt64.ofNat (leVal (b.take 8)), b.drop 8)

/-- `reader.skip()`: over one varint of any length. -/
def skipVarint : Bytes → Except Thrown Bytes
  | [] => .error .rangeError
  | x :: rest => if x.toNat < 128 then .ok rest else skipVarint rest

/-- `reader.skipType(wireType)`. A group (3) runs to its end tag (4); `fuel` bounds the fields in
it, each of which is at least one byte. -/
def skipType : Nat → Nat → Bytes → Except Thrown Bytes
  | _, 0, b => skipVarint b
  | _, 1, b => skip 8 b
  | _, 2, b => do
    let (len, rest) ← uint32 b
    skip len rest
  | 0, 3, _ => .error .rangeError
  | fuel + 1, 3, b => do
    let (tag, rest) ← uint32 b
    if tag % 8 = 4 then return rest
    let rest ← skipType fuel (tag % 8) rest
    skipType fuel 3 rest
  | _, 5, b => skip 4 b
  | _, _, _ => .error (.error "invalid wire type")

/-! ## Reading back what was written -/

theorem uint32Loop_varint (rest : Bytes) :
    ∀ (k n : Nat), n < 128 ^ k * 16 → uint32Loop k (varint n ++ rest) = .ok (n, rest) := by
  intro k
  induction k with
  | zero =>
    intro n h
    have hx : (UInt8.ofNat n).toNat = n := by simp; omega
    rw [varint, if_pos (by omega)]
    simp only [List.cons_append, List.nil_append, uint32Loop, hx]
    rw [if_pos (by omega), Nat.mod_eq_of_lt (by omega)]
  | succ k ih =>
    intro n h
    rw [varint]
    split
    · rename_i hn
      have hx : (UInt8.ofNat n).toNat = n := by simp; omega
      simp only [List.cons_append, List.nil_append, uint32Loop, hx]
      rw [if_pos hn]
    · rename_i hn
      have hx : (UInt8.ofNat (n % 128 + 128)).toNat = n % 128 + 128 := by simp; omega
      have hlt : n / 128 < 128 ^ k * 16 := by
        rw [Nat.div_lt_iff_lt_mul (by omega)]
        calc n < 128 ^ (k + 1) * 16 := h
          _ = 128 ^ k * 16 * 128 := by rw [Nat.pow_succ]; ring
      simp only [List.cons_append, uint32Loop, hx, ih _ hlt, ok_bind]
      rw [if_neg (by omega)]
      simp only [pure, Except.pure]
      congr 2
      omega

theorem uint32_varint {n : Nat} (h : n < 2 ^ 32) (rest : Bytes) :
    uint32 (varint n ++ rest) = .ok (n, rest) :=
  uint32Loop_varint rest 4 n (by simpa using h)

theorem bytes_lenPrefixed {b : Bytes} (h : b.length < 2 ^ 32) (rest : Bytes) :
    bytes (lenPrefixed b ++ rest) = .ok (b, rest) := by
  simp only [bytes, lenPrefixed, List.append_assoc, uint32_varint h, ok_bind]
  rw [if_neg (by simp), List.take_left, List.drop_left]

theorem double_leBytes (x : UInt64) (rest : Bytes) :
    double (leBytes 8 x.toNat ++ rest) = .ok (x, rest) := by
  have hlen : (leBytes 8 x.toNat).length = 8 := leBytes_length _ _
  have hval : leVal (leBytes 8 x.toNat) = x.toNat := by
    rw [leVal_leBytes, Nat.mod_eq_of_lt (by simpa using x.toNat_lt)]
  rw [double, if_neg (by simp), List.take_left' hlen, List.drop_left' hlen, hval]
  simp

theorem uint32Loop_lt : ∀ {k : Nat} {b : Bytes} {v : Nat} {rest : Bytes},
    uint32Loop k b = .ok (v, rest) → rest.length < b.length := by
  intro k
  induction k with
  | zero =>
    intro b v rest h
    cases b with
    | nil => cases h
    | cons x b =>
      simp only [uint32Loop] at h
      split at h
      · cases h; simp
      · split at h
        · cases h
        · cases h; simp
  | succ k ih =>
    intro b v rest h
    cases b with
    | nil => cases h
    | cons x b =>
      simp only [uint32Loop] at h
      split at h
      · cases h; simp
      · obtain ⟨⟨v', rest'⟩, hr, h⟩ := bind_eq_ok h
        cases h
        have := ih hr
        simp; omega

theorem uint32_lt {b : Bytes} {v : Nat} {rest : Bytes} (h : uint32 b = .ok (v, rest)) :
    rest.length < b.length := uint32Loop_lt h

theorem skip_le {n : Nat} {b rest : Bytes} (h : skip n b = .ok rest) : rest.length ≤ b.length := by
  unfold skip at h
  split at h
  · cases h
  · cases h; simp

theorem bytes_lt {b v rest : Bytes} (h : bytes b = .ok (v, rest)) : rest.length < b.length := by
  obtain ⟨⟨len, rest'⟩, hr, h⟩ := bind_eq_ok h
  have := uint32_lt hr
  simp only at h
  split at h
  · cases h
  · cases h; simp; omega

theorem double_le {b : Bytes} {v : UInt64} {rest : Bytes} (h : double b = .ok (v, rest)) :
    rest.length ≤ b.length := by
  unfold double at h
  split at h
  · cases h
  · cases h; simp

theorem skipVarint_le : ∀ {b rest : Bytes}, skipVarint b = .ok rest → rest.length ≤ b.length := by
  intro b
  induction b with
  | nil => intro rest h; cases h
  | cons x b ih =>
    intro rest h
    simp only [skipVarint] at h
    split at h
    · cases h; simp
    · have := ih h; simp; omega

theorem skipType_le : ∀ {fuel wireType : Nat} {b rest : Bytes},
    skipType fuel wireType b = .ok rest → rest.length ≤ b.length := by
  intro fuel wireType b
  induction fuel, wireType, b using skipType.induct with
  | case1 fuel b => intro rest h; exact skipVarint_le (by simpa [skipType] using h)
  | case2 fuel b => intro rest h; exact skip_le (by simpa [skipType] using h)
  | case3 fuel b =>
    intro rest h
    simp only [skipType] at h
    obtain ⟨⟨len, rest'⟩, hr, h⟩ := bind_eq_ok h
    have h0 := uint32_lt hr
    have h1 : rest.length ≤ rest'.length := skip_le h
    omega
  | case4 b => intro rest h; simp [skipType] at h
  | case5 fuel b ih1 ih2 =>
    intro rest h
    simp only [skipType] at h
    obtain ⟨⟨tag, rest'⟩, hr, h⟩ := bind_eq_ok h
    have h0 := uint32_lt hr
    simp only at h
    split at h
    · cases h; omega
    · obtain ⟨rest'', hr'', h⟩ := bind_eq_ok h
      have h1 := ih1 _ _ hr''
      have h2 := ih2 _ h
      omega
  | case6 fuel b => intro rest h; exact skip_le (by simpa [skipType] using h)
  | case7 fuel wireType b => intro rest h; simp_all [skipType]

end Protobuf
end Js
end JsWaku
