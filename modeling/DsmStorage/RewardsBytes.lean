import Mathlib.Data.List.Basic
import Mathlib.Algebra.Group.Nat.Basic

/-! Byte strings as the rewards module hashes and seals them: `u64::to_le_bytes`, `as_bytes`,
and the bincode 1.x wire format (fixed-width little-endian integers, `u64` length prefixes). -/
namespace DsmStorage.Rewards

/-- A byte string, Rust's `Vec<u8>` and `&[u8]`. -/
abbrev Bytes := List UInt8

/-- The `w` little-endian bytes of `n`, so `n` modulo `256 ^ w`. -/
def leBytes : ℕ → ℕ → Bytes
  | 0, _ => []
  | w+1, n => UInt8.ofNat (n%256) :: leBytes w (n/256)

/-- The number whose little-endian bytes are `bs`. -/
def leValue : Bytes → ℕ
  | [] => 0
  | b :: bs => b.toNat+256*leValue bs

@[simp] theorem leBytes_zero (n : ℕ) : leBytes 0 n = [] := rfl

@[simp] theorem leBytes_succ (w n : ℕ) :
    leBytes (w+1) n = UInt8.ofNat (n%256) :: leBytes w (n/256) := rfl

@[simp] theorem leValue_nil : leValue [] = 0 := rfl

@[simp] theorem leValue_cons (b : UInt8) (bs : Bytes) : leValue (b :: bs) = b.toNat+256*leValue bs :=
  rfl

@[simp] theorem leBytes_length (w n : ℕ) : (leBytes w n).length = w := by
  induction w generalizing n <;> simp [*]

theorem uint8_toNat_ofNat (n : ℕ) : (UInt8.ofNat n).toNat = n%256 := by
  simp [UInt8.toNat, UInt8.ofNat, BitVec.toNat_ofNat]

theorem leValue_leBytes (w n : ℕ) : leValue (leBytes w n) = n%256^w := by
  induction w generalizing n with
  | zero => simp [Nat.mod_one]
  | succ w ih => rw [leBytes_succ, leValue_cons, ih, uint8_toNat_ofNat, Nat.pow_succ', Nat.mod_mul, Nat.mod_mod]

/-- `n.to_le_bytes()` for `n : u64`. -/
def u64LeBytes (n : UInt64) : Bytes := leBytes 8 n.toNat

@[simp] theorem u64LeBytes_length (n : UInt64) : (u64LeBytes n).length = 8 := leBytes_length 8 _

theorem leValue_u64LeBytes (n : UInt64) : leValue (u64LeBytes n) = n.toNat :=
  (leValue_leBytes 8 n.toNat).trans (Nat.mod_eq_of_lt n.toNat_lt_size)

/-- `s.as_bytes()`: the UTF-8 bytes of a Rust `String`. -/
def asBytes (s : String) : Bytes := s.toUTF8.data.toList

/-- A 32-byte digest, `[u8; 32]`. -/
structure Hash32 where
  bytes : Bytes
  length_eq : bytes.length = 32
  deriving DecidableEq, Repr

/-! The bincode encoding of `bincode::serialize`: integers in fixed width, little-endian, and
every string, sequence and map behind its length as a `u64`. -/

/-- A `u64` or `usize` length prefix. -/
def serializeLen (n : ℕ) : Bytes := leBytes 8 n

def serializeU64 (n : UInt64) : Bytes := u64LeBytes n

def serializeU8 (n : UInt8) : Bytes := [n]

def serializeStr (s : String) : Bytes := serializeLen (asBytes s).length++asBytes s

/-- A sequence, a set or a map, in its iteration order. -/
def serializeSeq {α : Type} (f : α → Bytes) (xs : List α) : Bytes :=
  serializeLen xs.length++xs.flatMap f

/-- A decoder: the value read from the front of the input and the rest, or an error. -/
abbrev Reader (α : Type) := Bytes → Option (α × Bytes)

def readBytes (n : ℕ) : Reader Bytes := fun bs =>
  if n ≤ bs.length then some (bs.take n, bs.drop n) else none

def deserializeU64 : Reader UInt64 := fun bs =>
  (readBytes 8 bs).map fun r => (UInt64.ofNat (leValue r.1), r.2)

/-- A string is its length, that many bytes, and a UTF-8 check (`String::from_utf8`). -/
def deserializeStr : Reader String := fun bs => do
  let (n, rest) ← deserializeU64 bs
  let (v, rest) ← readBytes n.toNat rest
  let s ← String.fromUTF8? ⟨v.toArray⟩
  pure (s, rest)

def deserializeMany {α : Type} (f : Reader α) : ℕ → Reader (List α)
  | 0, bs => some ([], bs)
  | n+1, bs => do
    let (x, rest) ← f bs
    let (xs, rest) ← deserializeMany f n rest
    pure (x :: xs, rest)

def deserializeSeq {α : Type} (f : Reader α) : Reader (List α) := fun bs => do
  let (n, rest) ← deserializeU64 bs
  deserializeMany f n.toNat rest

theorem readBytes_append (xs rest : Bytes) : readBytes xs.length (xs++rest) = some (xs, rest) := by
  simp [readBytes]

theorem deserializeU64_append (n : UInt64) (rest : Bytes) :
    deserializeU64 (serializeU64 n++rest) = some (n, rest) := by
  have h := readBytes_append (u64LeBytes n) rest
  rw [u64LeBytes_length] at h
  have hv : UInt64.ofNat (leValue (u64LeBytes n)) = n :=
    UInt64.toNat.inj (by rw [leValue_u64LeBytes, UInt64.toNat_ofNat_of_lt n.toNat_lt_size])
  simp [deserializeU64, serializeU64, h, hv]

theorem deserializeStr_empty (rest : Bytes) : deserializeStr (serializeStr ""++rest) = some ("", rest) := by
  have hv : String.validateUTF8 ⟨#[]⟩ = true := by
    unfold String.validateUTF8 String.validateUTF8.loop; rfl
  have hs : String.fromUTF8? ⟨#[]⟩ = some "" := by
    rw [String.fromUTF8?, dif_pos hv]
    unfold String.fromUTF8 String.fromUTF8.loop
    rfl
  have he : asBytes "" = [] := rfl
  have h : deserializeU64 (serializeLen 0++rest) = some (0, rest) := deserializeU64_append 0 rest
  simp [deserializeStr, serializeStr, he, h, readBytes, hs]

theorem deserializeMany_append {α β : Type} (f : Reader β) (enc : α → Bytes) (g : α → β)
    (xs : List α) (hf : ∀ x ∈ xs, ∀ rest, f (enc x++rest) = some (g x, rest)) (rest : Bytes) :
    deserializeMany f xs.length (xs.flatMap enc++rest) = some (xs.map g, rest) := by
  induction xs with
  | nil => rfl
  | cons x xs ih =>
    simp only [List.mem_cons, forall_eq_or_imp] at hf
    simp [deserializeMany, List.append_assoc, hf.1, ih hf.2]

/-- Decoding what was encoded, element by element, gives back the sequence, each element read
as `g` of what was written. -/
theorem deserializeSeq_append {α β : Type} (f : Reader β) (enc : α → Bytes) (g : α → β)
    (xs : List α) (hf : ∀ x ∈ xs, ∀ rest, f (enc x++rest) = some (g x, rest))
    (hlen : xs.length < 2^64) (rest : Bytes) :
    deserializeSeq f (serializeSeq enc xs++rest) = some (xs.map g, rest) := by
  have h := deserializeU64_append (UInt64.ofNat xs.length) (xs.flatMap enc++rest)
  have hn : (UInt64.ofNat xs.length).toNat = xs.length := UInt64.toNat_ofNat_of_lt hlen
  have hs : serializeU64 (UInt64.ofNat xs.length) = serializeLen xs.length := by
    simp only [serializeU64, u64LeBytes, hn, serializeLen]
  rw [hs] at h
  simp [deserializeSeq, serializeSeq, List.append_assoc, h, hn, deserializeMany_append f enc g xs hf]

end DsmStorage.Rewards
