import Schedulers.CCallback

/- The elided strategy (`part_005:169-212`) `memcpy`s the callable's bytes into a pointer-sized
`converter` and back. A pointer is a natural below `256 ^ ptrSize`; the bytes of `converter`
past `sizeof(F)` stay as they were, and are an argument. -/

namespace Schedulers

namespace CCallback

inductive ByteOrder
  | little
  | big
  deriving DecidableEq, Repr

def ofBytesLE : List UInt8 → Nat
  | [] => 0
  | b :: bs => b.toNat + 256 * ofBytesLE bs

def toBytesLE : Nat → Nat → List UInt8
  | 0, _ => []
  | w + 1, n => UInt8.ofNat (n % 256) :: toBytesLE w (n / 256)

/-- `*reinterpret_cast<void**>(converter)`. -/
def loadPointer : ByteOrder → List UInt8 → Nat
  | .little, bs => ofBytesLE bs
  | .big, bs => ofBytesLE bs.reverse

/-- `memcpy(converter, &data, sizeof(data))`. -/
def storePointer : ByteOrder → Nat → Nat → List UInt8
  | .little, w, p => toBytesLE w p
  | .big, w, p => (toBytesLE w p).reverse

/-- The `void*` of the bit copy (`part_005:209-211`). -/
def encode (order : ByteOrder) (bytes rest : List UInt8) : Nat :=
  loadPointer order (bytes ++ rest)

/-- The bytes of the `function_t` the generated callback calls (`part_005:199-207`). -/
def decode (order : ByteOrder) (ptrSize size : Nat) (data : Nat) : List UInt8 :=
  (storePointer order ptrSize data).take size

/-! ### Loading and storing a pointer -/

@[simp] theorem ofBytesLE_cons (b : UInt8) (bs : List UInt8) :
    ofBytesLE (b :: bs) = b.toNat + 256 * ofBytesLE bs := rfl

@[simp] theorem toBytesLE_succ (w n : Nat) :
    toBytesLE (w + 1) n = UInt8.ofNat (n % 256) :: toBytesLE w (n / 256) := rfl

theorem ofNat_toNat_byte (b : UInt8) : UInt8.ofNat b.toNat = b :=
  UInt8.toNat.inj (UInt8.toNat_ofNat_of_lt b.toNat_lt_size)

theorem toBytesLE_ofBytesLE (bs : List UInt8) : toBytesLE bs.length (ofBytesLE bs) = bs := by
  induction bs with
  | nil => rfl
  | cons b bs ih =>
    have hb : b.toNat < 256 := b.toNat_lt_size
    rw [List.length_cons, toBytesLE_succ, ofBytesLE_cons, Nat.add_mul_mod_self_left,
      Nat.mod_eq_of_lt hb, ofNat_toNat_byte, Nat.add_mul_div_left _ _ (by decide),
      Nat.div_eq_of_lt hb, Nat.zero_add, ih]

theorem storePointer_loadPointer (order : ByteOrder) (bs : List UInt8) :
    storePointer order bs.length (loadPointer order bs) = bs := by
  cases order with
  | little => exact toBytesLE_ofBytesLE bs
  | big =>
    simp only [storePointer, loadPointer]
    rw [← List.length_reverse bs, toBytesLE_ofBytesLE, List.reverse_reverse]

theorem elided_callback_restores_bytes (order : ByteOrder) {ptrSize : Nat} (bytes rest : List UInt8)
    (hsize : bytes.length ≤ ptrSize) (hrest : rest.length = ptrSize - bytes.length) :
    selectStrategy bytes.length ptrSize true = .elided ∧
      (∀ ops s, (State.package (selectStrategy bytes.length ptrSize true)).run ops = some s →
        s.allocations = 0) ∧
      decode order ptrSize bytes.length (encode order bytes rest) = bytes := by
  have hsel : selectStrategy bytes.length ptrSize true = .elided := by
    simp [selectStrategy, hsize]
  refine ⟨hsel, fun ops s h => ?_, ?_⟩
  · rw [hsel] at h
    exact ((State.package_plainInv (by decide)).run h).allocations
  · have hlen : (bytes ++ rest).length = ptrSize := by
      rw [List.length_append, hrest]; omega
    rw [decode, encode, ← hlen, storePointer_loadPointer, List.take_left' rfl]

theorem elided_callback_restores_bytes_three :
    [0xAB, 0xCD, 0xEF].length ≤ 8 ∧ [0x77, 0x77, 0x77, 0x77, 0x77].length = 8 - 3 ∧
      (selectStrategy [0xAB, 0xCD, 0xEF].length 8 true = .elided ∧
        (∀ ops s, (State.package (selectStrategy [0xAB, 0xCD, 0xEF].length 8 true)).run ops =
          some s → s.allocations = 0) ∧
        decode .little 8 [0xAB, 0xCD, 0xEF].length
          (encode .little [0xAB, 0xCD, 0xEF] [0x77, 0x77, 0x77, 0x77, 0x77]) =
          [0xAB, 0xCD, 0xEF]) :=
  ⟨by decide, by decide, elided_callback_restores_bytes .little [0xAB, 0xCD, 0xEF]
    [0x77, 0x77, 0x77, 0x77, 0x77] (by decide) (by decide)⟩

end CCallback

end Schedulers
