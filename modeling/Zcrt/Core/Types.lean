/-
  Shared types and constants: `zcrt/ztype.h`, `zcrt/zmacro.h`, `zcrt/zerrcode.h`, and the byte
  order helpers the message header needs.
-/
import Zcrt.Lib.Mem
import Zcrt.Lib.Word

namespace Zcrt

open Lib

/-- Error codes. A C enum is an `int`, and handlers of other modules return their own values
    through the same type, so a code is any 32-bit integer. -/
abbrev EZCRTErr := Int32

namespace EZCRTErr

def success : EZCRTErr := 0
def paramErr : EZCRTErr := -100
def invalidCrtModule : EZCRTErr := -99
def full : EZCRTErr := -98
def noMem : EZCRTErr := -97
def timeout : EZCRTErr := -96
def badObject : EZCRTErr := -95
def sockInitErr : EZCRTErr := -94
def existed : EZCRTErr := -93
def ipcCommonHdrErr : EZCRTErr := -79
def ipcBodyErr : EZCRTErr := -78
def ipcNotSupport : EZCRTErr := -77
def ipcNoModule : EZCRTErr := -76
def ipcNoAct : EZCRTErr := -75
def ipcTLVErr : EZCRTErr := -74
def ipcArgsErr : EZCRTErr := -73

end EZCRTErr

/-- `ZCRT_MAX_EVT`: event ids are below it. -/
def ZCRT_MAX_EVT : UInt32 := 256

/-- `ZCRT_NAME_LEN`: size of a name array, terminating NUL included. -/
def ZCRT_NAME_LEN : UInt32 := 64

/-- `ZCRT_CB_MAX_ARGS`: arguments a queued callback may carry. -/
def ZCRT_CB_MAX_ARGS : Nat := 6

/-- `zstr_t`: a counted string. `ptr` is the memory its pointer sees. -/
structure ZStr where
  len : UInt32
  ptr : Mem

/-- The bytes a counted string stands for. -/
def ZStr.bytes (s : ZStr) : List UInt8 := s.ptr.slice 0 s.len.toNat

/-- A C `char` assigned to an unsigned 32-bit variable: sign-extended. -/
def charToUInt32 (c : UInt8) : UInt32 := c.toInt8.toInt32.toUInt32

theorem charToUInt32_mod (c : UInt8) : (charToUInt32 c).toNat % 256 = c.toNat := by
  have h : ∀ c : Fin 256, (charToUInt32 (UInt8.ofNat c)).toNat % 256 = c.val := by decide +kernel
  have := h ⟨c.toNat, c.toNat_lt⟩
  simpa using this

/-! ## Network byte order -/

/-- The two bytes of `htons(x)` in memory. -/
def htons (x : UInt16) : List UInt8 := [(x >>> 8).toUInt8, x.toUInt8]

/-- The four bytes of `htonl(x)` in memory. -/
def htonl (x : UInt32) : List UInt8 :=
  [(x >>> 24).toUInt8, (x >>> 16).toUInt8, (x >>> 8).toUInt8, x.toUInt8]

/-- `ntohs` of the two bytes at `m`. -/
def ntohs (m : Mem) : UInt16 := (m 0).toUInt16 <<< 8 ||| (m 1).toUInt16

/-- `ntohl` of the four bytes at `m`. -/
def ntohl (m : Mem) : UInt32 :=
  (m 0).toUInt32 <<< 24 ||| (m 1).toUInt32 <<< 16 ||| (m 2).toUInt32 <<< 8 ||| (m 3).toUInt32

@[simp] theorem htons_length (x : UInt16) : (htons x).length = 2 := rfl

@[simp] theorem htonl_length (x : UInt32) : (htonl x).length = 4 := rfl

theorem ntohs_of_slice {m : Mem} {x : UInt16} (h : m.slice 0 2 = htons x) : ntohs m = x := by
  have h0 : m 0 = (x >>> 8).toUInt8 := Mem.apply_of_slice h (j := 0) (by simp)
  have h1 : m 1 = x.toUInt8 := Mem.apply_of_slice h (j := 1) (by simp)
  unfold ntohs
  rw [h0, h1, UInt16.or_comm]
  apply UInt16.toNat_inj.mp
  have hx := x.toNat_lt
  rw [UInt16.toNat_or, UInt16.toNat_shiftLeft, UInt8.toNat_toUInt16, UInt8.toNat_toUInt16,
    UInt16.toNat_toUInt8, UInt16.toNat_toUInt8, UInt16.toNat_shiftRight]
  change x.toNat % 2 ^ 8 ||| ((x.toNat >>> 8 % 2 ^ 8) <<< 8 % 2 ^ 16) = x.toNat
  rw [Word.nat_or_shift (by decide) (Nat.mod_lt _ (by decide)), Nat.shiftRight_eq_div_pow]
  omega

theorem ntohl_of_slice {m : Mem} {x : UInt32} (h : m.slice 0 4 = htonl x) : ntohl m = x := by
  have h0 : m 0 = (x >>> 24).toUInt8 := Mem.apply_of_slice h (j := 0) (by simp)
  have h1 : m 1 = (x >>> 16).toUInt8 := Mem.apply_of_slice h (j := 1) (by simp)
  have h2 : m 2 = (x >>> 8).toUInt8 := Mem.apply_of_slice h (j := 2) (by simp)
  have h3 : m 3 = x.toUInt8 := Mem.apply_of_slice h (j := 3) (by simp)
  have hx := x.toNat_lt
  have byte : ∀ k : UInt32, k.toNat < 32 →
      ((x >>> k).toUInt8.toUInt32).toNat = x.toNat / 2 ^ k.toNat % 256 := by
    intro k hk
    rw [UInt8.toNat_toUInt32, UInt32.toNat_toUInt8, Word.u32_shr _ _ hk]
  have hb0 : x.toUInt8.toUInt32.toNat = x.toNat % 256 := by
    rw [UInt8.toNat_toUInt32, UInt32.toNat_toUInt8]
  have hb1 := byte 8 (by decide)
  have hb2 := byte 16 (by decide)
  have hb3 := byte 24 (by decide)
  simp only [show (8 : UInt32).toNat = 8 from rfl, show (16 : UInt32).toNat = 16 from rfl,
    show (24 : UInt32).toNat = 24 from rfl] at hb1 hb2 hb3
  unfold ntohl
  rw [h0, h1, h2, h3]
  -- the same word, lowest byte first: each or then adds one byte
  rw [UInt32.or_comm _ (x.toUInt8.toUInt32), UInt32.or_assoc,
    UInt32.or_comm ((x >>> 24).toUInt8.toUInt32 <<< 24),
    ← UInt32.or_assoc, UInt32.or_comm ((x >>> 16).toUInt8.toUInt32 <<< 16), ← UInt32.or_assoc]
  apply UInt32.toNat_inj.mp
  have e1 : (x.toUInt8.toUInt32 ||| (x >>> 8).toUInt8.toUInt32 <<< 8).toNat = x.toNat % 2 ^ 16 := by
    rw [Word.u32_or_shift (by decide) (by rw [hb0]; exact Nat.mod_lt _ (by decide)), hb0, hb1,
      show (8 : UInt32).toNat = 8 from rfl]
    omega
  have e2 : ((x.toUInt8.toUInt32 ||| (x >>> 8).toUInt8.toUInt32 <<< 8) |||
      (x >>> 16).toUInt8.toUInt32 <<< 16).toNat = x.toNat % 2 ^ 24 := by
    rw [Word.u32_or_shift (by decide) (by rw [e1]; exact Nat.mod_lt _ (by decide)), e1, hb2,
      show (16 : UInt32).toNat = 16 from rfl]
    omega
  rw [Word.u32_or_shift (by decide) (by rw [e2]; exact Nat.mod_lt _ (by decide)), e2, hb3,
    show (24 : UInt32).toNat = 24 from rfl]
  omega

/-! ## Results that may be faults -/

section Except

variable {ε α β : Type}

@[simp] theorem except_ok_bind (x : α) (f : α → Except ε β) : (Except.ok x >>= f) = f x := rfl

@[simp] theorem except_error_bind (e : ε) (f : α → Except ε β) :
    ((Except.error e : Except ε α) >>= f) = .error e := rfl

@[simp] theorem except_pure (x : α) : (pure x : Except ε α) = .ok x := rfl

theorem except_bind_eq_ok {x : Except ε α} {f : α → Except ε β} {r : β}
    (h : (x >>= f) = .ok r) : ∃ a, x = .ok a ∧ f a = .ok r := by
  cases x with
  | error e => exact nomatch h
  | ok a => exact ⟨a, rfl, h⟩

theorem except_map_eq_ok {x : Except ε α} {f : α → β} {r : β} (h : x.map f = .ok r) :
    ∃ a, x = .ok a ∧ f a = r := by
  cases x with
  | error e => exact nomatch h
  | ok a => exact ⟨a, rfl, Except.ok.inj h⟩

/-- Two sequences that go along part by part. -/
theorem except_bind_along {α' β' : Type} {x : Except ε α} {x' : Except ε α'} {k : α → Except ε β}
    {k' : α' → Except ε β'} {f : α → α'} {g : β → β'} (hx : x' = x.map f)
    (hk : ∀ a, x = .ok a → k' (f a) = (k a).map g) : (x' >>= k') = (x >>= k).map g := by
  rw [hx]
  cases x with
  | error e => rfl
  | ok a => exact hk a rfl

end Except

end Zcrt
