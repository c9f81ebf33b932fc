import JsWaku.Js.Protobuf

/-!
# JsWaku.Js.Read

Reading from a `protobufjs` reader by its position. A `Read` is given the buffer and `reader.pos`,
and gives what it read and the position after it.

* `reading`   — the readers of `JsWaku.Js.Protobuf`, which work on the bytes left, as `Read`s.
* `uint64`    — the 64-bit varint. With at most four bytes left it does not look at the
  continuation bit of the fourth, nor whether there is a fourth, so it may step past the end.
* `Reads`     — a read of a chunk of bytes gives a value and ends after the chunk, whatever comes
  before and after it.
* `Advances`, `Inside` — a read goes forward, and how far past the end of the buffer it may go.
-/

namespace JsWaku
namespace Js
namespace Protobuf

abbrev Read (α : Type) := Bytes → Nat → Except Thrown (α × Nat)

def reading {α : Type} (f : Bytes → Except Thrown (α × Bytes)) : Read α := fun buf pos => do
  let (v, rest) ← f (buf.drop pos)
  return (v, buf.length - rest.length)

namespace Read

def map {α β : Type} (read : Read α) (f : α → β) : Read β := fun buf pos => do
  let (v, pos) ← read buf pos
  return (f v, pos)

/-- A read whose value is checked. -/
def check {α β : Type} (read : Read α) (f : α → Except Thrown β) : Read β := fun buf pos => do
  let (v, pos) ← read buf pos
  let w ← f v
  return (w, pos)

def uint32 : Read Nat := reading Protobuf.uint32

def bytes : Read Bytes := reading Protobuf.bytes

def double : Read UInt64 := reading Protobuf.double

/-- `reader.int32()`: a `uint32`, as a signed number. -/
def int32 : Read Int := map uint32 fun n => if n < 2 ^ 31 then (n : Int) else (n : Int) - 2 ^ 32

def bool : Read Bool := map uint32 fun n => n ≠ 0

def skipType (wireType : Nat) : Read Unit := reading fun b => do
  let rest ← Protobuf.skipType b.length wireType b
  return ((), rest)

/-- Up to `k` bytes of a varint and then `last`: the value and how many bytes were stepped over. -/
def longLoop (last : Bytes → Except Thrown (Nat × Nat)) : Nat → Bytes → Except Thrown (Nat × Nat)
  | 0, b => last b
  | _ + 1, [] => .error .rangeError
  | k + 1, x :: rest =>
    if x.toNat < 128 then .ok (x.toNat, 1)
    else do
      let (v, steps) ← longLoop last k rest
      return (x.toNat % 128 + 128 * v, steps + 1)

def tooLong (_ : Bytes) : Except Thrown (Nat × Nat) := .error (.error "invalid varint encoding")

/-- The fourth byte of the last four: read without a look at whether it is there. -/
def unchecked (b : Bytes) : Except Thrown (Nat × Nat) := .ok ((b.headD 0).toNat % 128, 1)

def readLongVarint (left : Bytes) : Except Thrown (Nat × Nat) :=
  if 4 < left.length then longLoop tooLong 10 left else longLoop unchecked 3 left

def uint64 : Read Nat := fun buf pos => do
  let (v, steps) ← readLongVarint (buf.drop pos)
  return (v % 2 ^ 64, pos + steps)

end Read

/-- `writer.uint64(n)` -/
def uint64Bytes (n : Nat) : Bytes := varint (n % 2 ^ 64)

/-- `writer.int32(v)`: ten bytes for a negative number. -/
def int32Bytes (v : Int) : Bytes :=
  if v < 0 then varint (v + 2 ^ 64).toNat else varint (v % 2 ^ 32).toNat

/-- `writer.bool(b)` -/
def boolBytes (b : Bool) : Bytes := [if b then 1 else 0]

section

variable {α β : Type}

def Reads (read : Read α) (c : Bytes) (v : α) : Prop :=
  ∀ before after, read (before ++ c ++ after) before.length = .ok (v, before.length + c.length)

def Advances (read : Read α) : Prop :=
  ∀ ⦃buf pos v pos'⦄, read buf pos = .ok (v, pos') → pos ≤ pos'

/-- A read steps at most `past` bytes past the end. -/
def Inside (past : Nat) (read : Read α) : Prop :=
  ∀ ⦃buf pos v pos'⦄, read buf pos = .ok (v, pos') → pos' ≤ buf.length + past

theorem Reads.map {read : Read α} {c : Bytes} {v : α} (h : Reads read c v) (f : α → β) :
    Reads (read.map f) c (f v) := by
  intro before after
  rw [Read.map, h before after]
  rfl

theorem Reads.check {read : Read α} {c : Bytes} {v : α} {w : β} {f : α → Except Thrown β}
    (h : Reads read c v) (hf : f v = .ok w) : Reads (read.check f) c w := by
  intro before after
  rw [Read.check, h before after, ok_bind]
  simp only [hf, ok_bind]
  rfl

theorem Advances.map {read : Read α} (h : Advances read) (f : α → β) : Advances (read.map f) := by
  intro buf pos v pos' hr
  obtain ⟨⟨v', p⟩, hp, hr⟩ := bind_eq_ok hr
  cases hr
  exact h hp

theorem Advances.check {read : Read α} (h : Advances read) (f : α → Except Thrown β) :
    Advances (read.check f) := by
  intro buf pos v pos' hr
  obtain ⟨⟨v', p⟩, hp, hr⟩ := bind_eq_ok hr
  obtain ⟨w, hw, hr⟩ := bind_eq_ok hr
  cases hr
  exact h hp

variable {past : Nat}

theorem Inside.map {read : Read α} (h : Inside past read) (f : α → β) :
    Inside past (read.map f) := by
  intro buf pos v pos' hr
  obtain ⟨⟨v', p⟩, hp, hr⟩ := bind_eq_ok hr
  cases hr
  exact h hp

theorem Inside.check {read : Read α} (h : Inside past read) (f : α → Except Thrown β) :
    Inside past (read.check f) := by
  intro buf pos v pos' hr
  obtain ⟨⟨v', p⟩, hp, hr⟩ := bind_eq_ok hr
  obtain ⟨w, hw, hr⟩ := bind_eq_ok hr
  cases hr
  exact h hp

theorem Inside.mono {read : Read α} (h : Inside past read) {past' : Nat} (hle : past ≤ past') :
    Inside past' read := by
  intro buf pos v pos' hr
  have hpos := h hr
  omega

/-! ## Readers of the bytes left -/

variable {f : Bytes → Except Thrown (α × Bytes)}

theorem reads_reading {c : Bytes} {v : α} (h : ∀ rest, f (c ++ rest) = .ok (v, rest)) :
    Reads (reading f) c v := by
  intro before after
  rw [reading, List.append_assoc, List.drop_left, h after, ok_bind]
  simp only [pure, Except.pure, List.length_append]
  congr 2
  omega

theorem inside_reading : Inside past (reading f) := by
  intro buf pos v pos' h
  obtain ⟨⟨v', rest⟩, hr, h⟩ := bind_eq_ok h
  cases h
  omega

/-- A reader that takes something has something to take. -/
theorem lt_of_reading (hf : ∀ {b v rest}, f b = .ok (v, rest) → rest.length < b.length)
    {buf : Bytes} {pos : Nat} {v : α} {pos' : Nat} (h : reading f buf pos = .ok (v, pos')) :
    pos < pos' := by
  obtain ⟨⟨v', rest⟩, hr, h⟩ := bind_eq_ok h
  cases h
  have hlt := hf hr
  rw [List.length_drop] at hlt
  omega

theorem advances_reading (hf : ∀ {b v rest}, f b = .ok (v, rest) → rest.length < b.length) :
    Advances (reading f) :=
  fun _ _ _ _ h => Nat.le_of_lt (lt_of_reading hf h)

end

theorem reads_uint32 {n : Nat} (h : n < 2 ^ 32) : Reads Read.uint32 (varint n) n :=
  reads_reading fun rest => uint32_varint h rest

theorem reads_bytes {b : Bytes} (h : b.length < 2 ^ 32) : Reads Read.bytes (lenPrefixed b) b :=
  reads_reading fun rest => bytes_lenPrefixed h rest

theorem reads_double (x : UInt64) : Reads Read.double (leBytes 8 x.toNat) x :=
  reads_reading fun rest => double_leBytes x rest

theorem reads_bool (b : Bool) : Reads Read.bool (boolBytes b) b := by
  have hb : boolBytes b = varint (if b then 1 else 0) := by
    cases b <;> rw [varint] <;> rfl
  rw [hb]
  have h := (reads_uint32 (n := if b then 1 else 0) (by cases b <;> decide)).map fun n =>
    decide (n ≠ 0)
  cases b <;> exact h

theorem double_lt {b : Bytes} {v : UInt64} {rest : Bytes} (h : double b = .ok (v, rest)) :
    rest.length < b.length := by
  unfold double at h
  split at h
  · cases h
  · cases h; simp only [List.length_drop]; omega

theorem skip_lt {n : Nat} {b rest : Bytes} (hn : 0 < n) (h : skip n b = .ok rest) :
    rest.length < b.length := by
  unfold skip at h
  split at h
  · cases h
  · cases h; simp only [List.length_drop]; omega

theorem skipVarint_lt : ∀ {b rest : Bytes}, skipVarint b = .ok rest → rest.length < b.length := by
  intro b
  induction b with
  | nil => intro rest h; cases h
  | cons x b ih =>
    intro rest h
    simp only [skipVarint] at h
    split at h
    · cases h; simp
    · have := ih h; simp only [List.length_cons]; omega

theorem skipType_lt {fuel wireType : Nat} {b rest : Bytes}
    (h : skipType fuel wireType b = .ok rest) : rest.length < b.length := by
  fun_cases skipType fuel wireType b with
  | case1 => exact skipVarint_lt (by simpa [skipType] using h)
  | case2 => exact skip_lt (n := 8) (by omega) (by simpa [skipType] using h)
  | case3 =>
    simp only [skipType] at h
    obtain ⟨⟨len, rest'⟩, hr, h⟩ := bind_eq_ok h
    have h0 := uint32_lt hr
    have h1 : rest.length ≤ rest'.length := skip_le h
    omega
  | case4 => simp [skipType] at h
  | case5 fuel =>
    simp only [skipType] at h
    obtain ⟨⟨tag, rest'⟩, hr, h⟩ := bind_eq_ok h
    have h0 := uint32_lt hr
    simp only at h
    split at h
    · cases h; omega
    · obtain ⟨rest'', hr'', h⟩ := bind_eq_ok h
      have h1 := skipType_le hr''
      have h2 := skipType_le h
      omega
  | case6 => exact skip_lt (n := 4) (by omega) (by simpa [skipType] using h)
  | case7 => simp_all [skipType]

theorem lt_of_uint32 {buf : Bytes} {pos v pos' : Nat} (h : Read.uint32 buf pos = .ok (v, pos')) :
    pos < pos' := lt_of_reading uint32_lt h

theorem advances_uint32 : Advances Read.uint32 := advances_reading uint32_lt

theorem advances_bytes : Advances Read.bytes := advances_reading bytes_lt

theorem advances_double : Advances Read.double := advances_reading double_lt

theorem advances_skipType (wireType : Nat) : Advances (Read.skipType wireType) := by
  refine advances_reading fun {b v rest} h => ?_
  obtain ⟨rest', hr, h⟩ := bind_eq_ok h
  cases h
  exact skipType_lt hr

/-! ## Chunks cut short -/

/-- A start of two chunks is cut in the first, or in the second. -/
theorem cut_append {a b cut : Bytes} (h : cut <+: a ++ b) :
    (cut <+: a ∧ cut ≠ a) ∨ ∃ cut', cut = a ++ cut' ∧ cut' <+: b := by
  rcases List.prefix_or_prefix_of_prefix h ( List.prefix_append a b) with h' | h'
  · by_cases heq : cut = a
    · exact .inr ⟨[], by rw [heq, List.append_nil], List.nil_prefix⟩
    · exact .inl ⟨h', heq⟩
  · obtain ⟨cut', rfl⟩ := h'
    exact .inr ⟨cut', rfl, (List.prefix_append_right_inj a).mp h⟩

theorem uint32Loop_cut : ∀ {k n : Nat} {cut : Bytes}, n < 128 ^ k * 16 → cut <+: varint n →
    cut ≠ varint n → uint32Loop k cut = .error .rangeError := by
  intro k
  induction k with
  | zero =>
    intro n cut h hcut hne
    rw [varint, if_pos (by omega)] at hcut hne
    rcases List.prefix_cons_iff.mp hcut with rfl | ⟨t, rfl, ht⟩
    · rfl
    · exact absurd (by rw [List.prefix_nil.mp ht]) hne
  | succ k ih =>
    intro n cut h hcut hne
    rw [varint] at hcut hne
    split at hcut
    · rename_i hn
      rw [if_pos hn] at hne
      rcases List.prefix_cons_iff.mp hcut with rfl | ⟨t, rfl, ht⟩
      · rfl
      · exact absurd (by rw [List.prefix_nil.mp ht]) hne
    · rename_i hn
      rw [if_neg hn] at hne
      rcases List.prefix_cons_iff.mp hcut with rfl | ⟨t, rfl, ht⟩
      · rfl
      · have hx : (UInt8.ofNat (n % 128 + 128)).toNat = n % 128 + 128 := by simp; omega
        have hlt : n / 128 < 128 ^ k * 16 := by
          rw [Nat.div_lt_iff_lt_mul (by omega)]
          calc n < 128 ^ (k + 1) * 16 := h
            _ = 128 ^ k * 16 * 128 := by rw [Nat.pow_succ]; ring
        simp only [uint32Loop, hx, ih hlt ht (by rintro rfl; exact hne rfl), error_bind]
        rw [if_neg (by omega)]

theorem uint32_cut {n : Nat} {cut : Bytes} (h : n < 2 ^ 32) (hcut : cut <+: varint n)
    (hne : cut ≠ varint n) (before : Bytes) :
    Throws (Read.uint32 (before ++ cut) before.length) := by
  refine ⟨.rangeError, ?_⟩
  rw [Read.uint32, reading, List.drop_left, Protobuf.uint32,
    uint32Loop_cut (by simpa using h) hcut hne, error_bind]

theorem uint32Loop_suffix : ∀ {k : Nat} {b : Bytes} {v : Nat} {rest : Bytes},
    uint32Loop k b = .ok (v, rest) → rest <:+ b := by
  intro k
  induction k with
  | zero =>
    intro b v rest h
    cases b with
    | nil => cases h
    | cons x b =>
      simp only [uint32Loop] at h
      split at h
      · cases h; exact List.suffix_cons _ _
      · split at h
        · cases h
        · cases h; exact (List.drop_suffix 5 b).trans (List.suffix_cons _ _)
  | succ k ih =>
    intro b v rest h
    cases b with
    | nil => cases h
    | cons x b =>
      simp only [uint32Loop] at h
      split at h
      · cases h; exact List.suffix_cons _ _
      · obtain ⟨⟨v', rest'⟩, hr, h⟩ := bind_eq_ok h
        cases h
        exact (ih hr).trans (List.suffix_cons _ _)

theorem skip_suffix {n : Nat} {b rest : Bytes} (h : skip n b = .ok rest) : rest <:+ b := by
  unfold skip at h
  split at h
  · cases h
  · cases h; exact List.drop_suffix n b

theorem bytes_suffix {b v rest : Bytes} (h : bytes b = .ok (v, rest)) : rest <:+ b := by
  obtain ⟨⟨len, rest'⟩, hr, h⟩ := bind_eq_ok h
  simp only at h
  split at h
  · cases h
  · cases h; exact (List.drop_suffix len rest').trans (uint32Loop_suffix hr)

theorem double_suffix {b : Bytes} {v : UInt64} {rest : Bytes} (h : double b = .ok (v, rest)) :
    rest <:+ b := by
  unfold double at h
  split at h
  · cases h
  · cases h; exact List.drop_suffix 8 b

theorem skipVarint_suffix : ∀ {b rest : Bytes}, skipVarint b = .ok rest → rest <:+ b := by
  intro b
  induction b with
  | nil => intro rest h; cases h
  | cons x b ih =>
    intro rest h
    simp only [skipVarint] at h
    split at h
    · cases h; exact List.suffix_cons _ _
    · exact (ih h).trans (List.suffix_cons _ _)

theorem skipType_suffix : ∀ {fuel wireType : Nat} {b rest : Bytes},
    skipType fuel wireType b = .ok rest → rest <:+ b := by
  intro fuel wireType b
  induction fuel, wireType, b using skipType.induct with
  | case1 fuel b => intro rest h; exact skipVarint_suffix (by simpa [skipType] using h)
  | case2 fuel b => intro rest h; exact skip_suffix (n := 8) (by simpa [skipType] using h)
  | case3 fuel b =>
    intro rest h
    simp only [skipType] at h
    obtain ⟨⟨len, rest'⟩, hr, h⟩ := bind_eq_ok h
    exact (skip_suffix h).trans (uint32Loop_suffix hr)
  | case4 b => intro rest h; simp [skipType] at h
  | case5 fuel b ih1 ih2 =>
    intro rest h
    simp only [skipType] at h
    obtain ⟨⟨tag, rest'⟩, hr, h⟩ := bind_eq_ok h
    simp only at h
    split at h
    · cases h; exact uint32Loop_suffix hr
    · obtain ⟨rest'', hr'', h⟩ := bind_eq_ok h
      exact ((ih2 _ h).trans (ih1 _ _ hr'')).trans (uint32Loop_suffix hr)
  | case6 fuel b => intro rest h; exact skip_suffix (n := 4) (by simpa [skipType] using h)
  | case7 fuel wireType b => intro rest h; simp_all [skipType]

theorem varint_length {n : Nat} : ∀ {k : Nat}, (k = 0 ∨ 128 ^ k ≤ n) → n < 128 ^ (k + 1) →
    (varint n).length = k + 1 := by
  intro k
  induction k generalizing n with
  | zero => intro _ h; rw [varint, if_pos (by omega)]; rfl
  | succ k ih =>
    intro hle hlt
    have hle : 128 ^ k * 128 ≤ n := by
      rw [← Nat.pow_succ]
      exact hle.resolve_left (by omega)
    have hone : 1 ≤ 128 ^ k := Nat.one_le_pow _ _ (by omega)
    have hquot : n / 128 < 128 ^ (k + 1) := by
      rw [Nat.div_lt_iff_lt_mul (by omega), ← Nat.pow_succ]
      exact hlt
    have hlow : 128 ^ k ≤ n / 128 := (Nat.le_div_iff_mul_le (by omega)).mpr hle
    rw [varint, if_neg (by omega), List.length_cons, ih (.inr hlow) hquot]

/-- A varint of five bytes more than the reader takes: it takes the low bits and steps over the
rest. -/
theorem uint32Loop_long (rest : Bytes) : ∀ (k n : Nat), 128 ^ (k + 5) ≤ n → n < 128 ^ (k + 6) →
    uint32Loop k (varint n ++ rest) = .ok (n % (128 ^ k * 16), rest) := by
  intro k
  induction k with
  | zero =>
    intro n hle hlt
    have hx : (UInt8.ofNat (n % 128 + 128)).toNat = n % 128 + 128 := by simp; omega
    have hlen : (varint (n / 128)).length = 5 := varint_length (.inr (by omega)) (by omega)
    rw [varint, if_neg (by omega)]
    simp only [List.cons_append, uint32Loop, hx]
    rw [if_neg (by omega), if_neg (by simp [hlen]), List.drop_left' hlen]
    congr 2
    omega
  | succ k ih =>
    intro n hle hlt
    have hx : (UInt8.ofNat (n % 128 + 128)).toNat = n % 128 + 128 := by simp; omega
    have hpow : 128 ≤ 128 ^ (k + 1 + 5) := Nat.le_self_pow (by omega) 128
    have hlow : 128 ^ (k + 5) ≤ n / 128 := by
      rw [Nat.le_div_iff_mul_le (by omega), ← Nat.pow_succ]
      exact hle
    have hquot : n / 128 < 128 ^ (k + 6) := by
      rw [Nat.div_lt_iff_lt_mul (by omega), ← Nat.pow_succ]
      exact hlt
    rw [varint, if_neg (by omega)]
    simp only [List.cons_append, uint32Loop, hx, ih _ hlow hquot, ok_bind]
    rw [if_neg (by omega)]
    have hmod : n % (128 ^ (k + 1) * 16) = n % 128 + 128 * (n / 128 % (128 ^ k * 16)) := by
      rw [show 128 ^ (k + 1) * 16 = 128 * (128 ^ k * 16) by ring, Nat.mod_mul]
    simp only [pure, Except.pure, hmod]
    congr 2
    omega

theorem reads_int32 {v : Int} (hlo : -2 ^ 31 ≤ v) (hhi : v < 2 ^ 31) :
    Reads Read.int32 (int32Bytes v) v := by
  unfold int32Bytes
  split
  · rename_i hneg
    have hlong : Reads Read.uint32 (varint (v + 2 ^ 64).toNat) ((v + 2 ^ 64).toNat % 2 ^ 32) :=
      reads_reading fun rest => uint32Loop_long rest 4 _ (by omega) (by omega)
    have hval : (if (v + 2 ^ 64).toNat % 2 ^ 32 < 2 ^ 31 then
        (((v + 2 ^ 64).toNat % 2 ^ 32 : Nat) : Int)
        else (((v + 2 ^ 64).toNat % 2 ^ 32 : Nat) : Int) - 2 ^ 32) = v := by
      rw [if_neg (by omega)]
      omega
    have hread := hlong.map fun n => if n < 2 ^ 31 then (n : Int) else (n : Int) - 2 ^ 32
    rw [hval] at hread
    exact hread
  · rename_i hpos
    have hshort : Reads Read.uint32 (varint (v % 2 ^ 32).toNat) (v % 2 ^ 32).toNat :=
      reads_uint32 (by omega)
    have hval : (if (v % 2 ^ 32).toNat < 2 ^ 31 then (((v % 2 ^ 32).toNat : Nat) : Int)
        else (((v % 2 ^ 32).toNat : Nat) : Int) - 2 ^ 32) = v := by
      rw [if_pos (by omega)]
      omega
    have hread := hshort.map fun n => if n < 2 ^ 31 then (n : Int) else (n : Int) - 2 ^ 32
    rw [hval] at hread
    exact hread

/-- `last` has to read what is left of the number after `k` bytes. -/
theorem longLoop_varint {last : Bytes → Except Thrown (Nat × Nat)} {c : Nat} {rest : Bytes}
    (hlast : ∀ m, 0 < m → m < c → last (varint m ++ rest) = .ok (m, (varint m).length)) :
    ∀ {k n : Nat}, (0 < k ∨ 0 < n) → n < c * 128 ^ k →
      Read.longLoop last k (varint n ++ rest) = .ok (n, (varint n).length) := by
  intro k
  induction k with
  | zero => intro n hn h; exact hlast n (by omega) (by simpa using h)
  | succ k ih =>
    intro n _ h
    rw [varint]
    split
    · rename_i hn
      have hx : (UInt8.ofNat n).toNat = n := by simp; omega
      simp only [List.cons_append, List.nil_append, Read.longLoop, hx, if_pos hn, List.length_cons,
        List.length_nil]
    · rename_i hn
      have hx : (UInt8.ofNat (n % 128 + 128)).toNat = n % 128 + 128 := by simp; omega
      have hlt : n / 128 < c * 128 ^ k := by
        rw [Nat.div_lt_iff_lt_mul (by omega)]
        calc n < c * 128 ^ (k + 1) := h
          _ = c * 128 ^ k * 128 := by rw [Nat.pow_succ]; ring
      simp only [List.cons_append, Read.longLoop, hx, ih (.inr (by omega)) hlt, ok_bind]
      rw [if_neg (by omega)]
      simp only [pure, Except.pure, List.length_cons]
      congr 2
      omega

theorem readLongVarint_varint {n : Nat} (h : n < 2 ^ 64) (rest : Bytes) :
    Read.readLongVarint (varint n ++ rest) = .ok (n, (varint n).length) := by
  unfold Read.readLongVarint
  split
  · exact longLoop_varint (c := 1) (fun m h0 h1 => by omega) (.inl (by omega)) (by omega)
  · rename_i hshort
    -- A number of five bytes or more would not fit into what is left.
    have hbound : n < 128 * 128 ^ 3 := by
      by_contra hbig
      have hlo : 128 ^ Nat.log 128 n ≤ n := Nat.pow_log_le_self _ (by omega)
      have hhi : n < 128 ^ (Nat.log 128 n + 1) := Nat.lt_pow_succ_log_self (by omega) n
      have hlog : 4 ≤ Nat.log 128 n := Nat.le_log_of_pow_le (by omega) (by omega)
      have hlen := varint_length (.inr hlo) hhi
      simp only [List.length_append, hlen] at hshort
      omega
    refine longLoop_varint (c := 128) (fun m h0 h1 => ?_) (.inl (by omega)) hbound
    have hx : (UInt8.ofNat m).toNat % 128 = m := by simp; omega
    rw [varint, if_pos h1]
    simp only [Read.unchecked, List.cons_append, List.headD_cons, hx]
    rfl

theorem reads_uint64 {n : Nat} (h : n < 2 ^ 64) : Reads Read.uint64 (uint64Bytes n) n := by
  intro before after
  have hbytes : uint64Bytes n = varint n := by rw [uint64Bytes, Nat.mod_eq_of_lt h]
  rw [hbytes, Read.uint64, List.append_assoc, List.drop_left, readLongVarint_varint h, ok_bind]
  simp only [pure, Except.pure, Nat.mod_eq_of_lt h]

theorem longLoop_steps {last : Bytes → Except Thrown (Nat × Nat)} {past : Nat}
    (hlast : ∀ {b v n}, last b = .ok (v, n) → 1 ≤ n ∧ n ≤ b.length + past) :
    ∀ {k : Nat} {b : Bytes} {v n : Nat}, Read.longLoop last k b = .ok (v, n) →
      1 ≤ n ∧ n ≤ b.length + past := by
  intro k
  induction k with
  | zero => intro b v n h; exact hlast h
  | succ k ih =>
    intro b v n h
    cases b with
    | nil => cases h
    | cons x b =>
      simp only [Read.longLoop] at h
      split at h
      · cases h; simp only [List.length_cons]; omega
      · obtain ⟨⟨v', n'⟩, hr, h⟩ := bind_eq_ok h
        cases h
        have hn := ih hr
        simp only [List.length_cons]
        omega

theorem readLongVarint_steps {left : Bytes} {v n : Nat}
    (h : Read.readLongVarint left = .ok (v, n)) : 0 < left.length ∧ 1 ≤ n ∧ n ≤ left.length + 1 := by
  unfold Read.readLongVarint at h
  split at h
  · exact ⟨by omega, longLoop_steps (fun h => by cases h) h⟩
  · have hsteps : 1 ≤ n ∧ n ≤ left.length + 1 :=
      longLoop_steps (fun h => by cases h; omega) h
    cases left with
    | nil => cases h
    | cons x left => exact ⟨by simp, hsteps⟩

theorem uint64_steps {buf : Bytes} {pos v pos' : Nat} (h : Read.uint64 buf pos = .ok (v, pos')) :
    pos < pos' ∧ pos' ≤ buf.length + 1 := by
  obtain ⟨⟨v', n⟩, hr, h⟩ := bind_eq_ok h
  cases h
  have hn := readLongVarint_steps hr
  rw [List.length_drop] at hn
  omega

theorem advances_uint64 : Advances Read.uint64 := fun _ _ _ _ h => Nat.le_of_lt (uint64_steps h).1

theorem inside_uint64 : Inside 1 Read.uint64 := fun _ _ _ _ h => (uint64_steps h).2

end Protobuf
end Js
end JsWaku
