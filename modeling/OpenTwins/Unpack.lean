import OpenTwins.MessagePack
import Mathlib.Data.UInt

/-!
The decoding half of the vendored `cwpack`. An item is a tag and an untagged union that each
call overwrites only in part. The union is modelled as it lies in memory on a little-endian
machine with 8-byte pointers: bytes 0 to 7 are one word, which holds the integers, the
doubles and the blob pointers whole and the floats, container sizes and booleans in its low
end; bytes 8 to 11 hold a blob's length.
-/

namespace OpenTwins

open MessagePack

inductive ItemType
  | ext (code : ℤ)
  | nil
  | boolean
  | positiveInteger
  | negativeInteger
  | float
  | double
  | str
  | bin
  | array
  | map
  | extension
  | notAnItem
deriving DecidableEq

inductive ReturnCode
  | ok
  | endOfInput
  | bufferOverflow
  | bufferUnderflow
  | malformedInput
  | wrongTimestampLength
deriving DecidableEq

structure Pointer where
  address : UInt64
  bytes : List UInt8

/-- The union `as`; `pointee` is what lies behind the pointer stored in `word`. -/
structure ItemAs where
  word : UInt64
  length : UInt32
  pointee : List UInt8

/-- `avail` is the distance from `current` to `end`, which the caller's length decides. -/
structure UnpackContext where
  type : ItemType
  as : ItemAs
  current : Pointer
  avail : ℕ
  returnCode : ReturnCode

def Pointer.advance (p : Pointer) (n : ℕ) : Pointer := ⟨p.address + UInt64.ofNat n, p.bytes.drop n⟩

/-- The big-endian number in the `k` bytes at `p`; reading past the received bytes is a fault. -/
def Pointer.load (p : Pointer) (k : ℕ) : Option ℕ := (field k p.bytes).map Prod.fst

def withLow32 (w : UInt64) (x : UInt32) : UInt64 := UInt64.ofNat (w.toNat / 2 ^ 32 * 2 ^ 32 + x.toNat)
def withLow8 (w : UInt64) (x : UInt8) : UInt64 := UInt64.ofNat (w.toNat / 2 ^ 8 * 2 ^ 8 + x.toNat)

namespace ItemAs

def setWord (w : UInt64) (a : ItemAs) : ItemAs := { a with word := w }
def setLow32 (x : UInt32) (a : ItemAs) : ItemAs := { a with word := withLow32 a.word x }
def setBoolean (b : Bool) (a : ItemAs) : ItemAs :=
  { a with word := withLow8 a.word (if b then 1 else 0) }
def setLength (n : UInt32) (a : ItemAs) : ItemAs := { a with length := n }

end ItemAs

def cwUnpackContextInit (type : ItemType) (as : ItemAs) (data : Pointer) (length : ℕ) : UnpackContext :=
  ⟨type, as, data, length, .ok⟩

namespace UnpackContext

def unpackError (u : UnpackContext) (rc : ReturnCode) : UnpackContext :=
  { u with type := .notAnItem, returnCode := rc }

def assertSpace (u : UnpackContext) (rc : ReturnCode) (more : ℕ)
    (k : Pointer → UnpackContext → Option UnpackContext) : Option UnpackContext :=
  if u.avail < more then some (u.unpackError rc)
  else k u.current { u with current := u.current.advance more, avail := u.avail - more }

def assertBlob (u : UnpackContext) : Option UnpackContext :=
  u.assertSpace .bufferUnderflow u.as.length.toNat fun p u =>
    some { u with as := { u.as with word := p.address, pointee := p.bytes } }

def loadSpace (u : UnpackContext) (k : ℕ) (next : ℕ → UnpackContext → Option UnpackContext) :
    Option UnpackContext :=
  u.assertSpace .bufferUnderflow k fun p u => (p.load k).bind fun v => next v u

def getDDItem (u : UnpackContext) (typ : ItemType) (set : ItemAs → ItemAs) : UnpackContext :=
  { u with type := typ, as := set u.as }

def getDDItemN (u : UnpackContext) (typ : ItemType) (k : ℕ) (set : ℕ → ItemAs → ItemAs)
    (next : UnpackContext → Option UnpackContext) : Option UnpackContext :=
  loadSpace { u with type := typ } k fun v u => next { u with as := set v u.as }

def fixSign (u : UnpackContext) : Option UnpackContext :=
  some (if u.as.word.toNat < 2 ^ 63 then { u with type := .positiveInteger } else u)

def getExt (u : UnpackContext) (k : ℕ) : Option UnpackContext :=
  u.getDDItemN .extension k (fun v => .setLength (UInt32.ofNat v)) fun u =>
    u.loadSpace 1 fun t u => assertBlob { u with type := .ext (signed 1 t) }

def getExt8 (u : UnpackContext) : Option UnpackContext :=
  u.getDDItemN .extension 1 (fun v => .setLength (UInt32.ofNat v)) fun u =>
    u.loadSpace 1 fun t u =>
      let u := { u with type := .ext (signed 1 t) }
      if u.type = .ext (-1) then
        if u.as.length = 12 then
          u.loadSpace 4 fun v u =>
            loadSpace { u with as := u.as.setLength (UInt32.ofNat v) } 8 fun v u =>
              some { u with as := u.as.setWord (UInt64.ofNat v) }
        else some (u.unpackError .wrongTimestampLength)
      else u.assertBlob

/-- The whole extension is asserted at once, and its type is read before its length is judged. -/
def getDDItemFix (u : UnpackContext) (len : ℕ) : Option UnpackContext :=
  u.assertSpace .bufferUnderflow (len + 1) fun p u => do
    let t ← p.load 1
    let p := p.advance 1
    let u := { u with type := .ext (signed 1 t) }
    if u.type = .ext (-1) then
      if len = 4 then
        let v ← p.load 4
        return { u with as := (u.as.setWord (UInt64.ofNat v)).setLength 0 }
      else if len = 8 then
        let v ← p.load 8
        return { u with as :=
          (u.as.setWord (UInt64.ofNat (v % 2 ^ 34))).setLength (UInt32.ofNat (v / 2 ^ 34)) }
      else return u.unpackError .wrongTimestampLength
    else return { u with as := { word := p.address, length := UInt32.ofNat len, pointee := p.bytes } }

def unpackItem (u : UnpackContext) (c : ℕ) : Option UnpackContext :=
  if c < 0x80 then some (u.getDDItem .positiveInteger (.setWord (UInt64.ofNat c)))
  else if c < 0x90 then some (u.getDDItem .map (.setLow32 (UInt32.ofNat (c &&& 0x0f))))
  else if c < 0xa0 then some (u.getDDItem .array (.setLow32 (UInt32.ofNat (c &&& 0x0f))))
  else if c < 0xc0 then (u.getDDItem .str (.setLength (UInt32.ofNat (c &&& 0x1f)))).assertBlob
  else if 0xe0 ≤ c then some (u.getDDItem .negativeInteger (.setWord (UInt64.ofInt (signed 1 c))))
  else match c with
    | 0xc0 => some { u with type := .nil }
    | 0xc2 => some (u.getDDItem .boolean (.setBoolean false))
    | 0xc3 => some (u.getDDItem .boolean (.setBoolean true))
    | 0xc4 => u.getDDItemN .bin 1 (fun v => .setLength (UInt32.ofNat v)) assertBlob
    | 0xc5 => u.getDDItemN .bin 2 (fun v => .setLength (UInt32.ofNat v)) assertBlob
    | 0xc6 => u.getDDItemN .bin 4 (fun v => .setLength (UInt32.ofNat v)) assertBlob
    | 0xc7 => u.getExt8
    | 0xc8 => u.getExt 2
    | 0xc9 => u.getExt 4
    | 0xca => u.getDDItemN .float 4 (fun v => .setLow32 (UInt32.ofNat v)) some
    | 0xcb => u.getDDItemN .double 8 (fun v => .setWord (UInt64.ofNat v)) some
    | 0xcc => u.getDDItemN .positiveInteger 1 (fun v => .setWord (UInt64.ofNat v)) some
    | 0xcd => u.getDDItemN .positiveInteger 2 (fun v => .setWord (UInt64.ofNat v)) some
    | 0xce => u.getDDItemN .positiveInteger 4 (fun v => .setWord (UInt64.ofNat v)) some
    | 0xcf => u.getDDItemN .positiveInteger 8 (fun v => .setWord (UInt64.ofNat v)) some
    | 0xd0 => u.getDDItemN .negativeInteger 1 (fun v => .setWord (UInt64.ofInt (signed 1 v))) fixSign
    | 0xd1 => u.getDDItemN .negativeInteger 2 (fun v => .setWord (UInt64.ofInt (signed 2 v))) fixSign
    | 0xd2 => u.getDDItemN .negativeInteger 4 (fun v => .setWord (UInt64.ofInt (signed 4 v))) fixSign
    | 0xd3 => u.getDDItemN .negativeInteger 8 (fun v => .setWord (UInt64.ofNat v)) fixSign
    | 0xd4 => u.getDDItemFix 1
    | 0xd5 => u.getDDItemFix 2
    | 0xd6 => u.getDDItemFix 4
    | 0xd7 => u.getDDItemFix 8
    | 0xd8 => u.getDDItemFix 16
    | 0xd9 => u.getDDItemN .str 1 (fun v => .setLength (UInt32.ofNat v)) assertBlob
    | 0xda => u.getDDItemN .str 2 (fun v => .setLength (UInt32.ofNat v)) assertBlob
    | 0xdb => u.getDDItemN .str 4 (fun v => .setLength (UInt32.ofNat v)) assertBlob
    | 0xdc => u.getDDItemN .array 2 (fun v => .setLow32 (UInt32.ofNat v)) some
    | 0xdd => u.getDDItemN .array 4 (fun v => .setLow32 (UInt32.ofNat v)) some
    | 0xde => u.getDDItemN .map 2 (fun v => .setLow32 (UInt32.ofNat v)) some
    | 0xdf => u.getDDItemN .map 4 (fun v => .setLow32 (UInt32.ofNat v)) some
    | _ => some (u.unpackError .malformedInput)

end UnpackContext

def cwUnpackNext (u : UnpackContext) : Option UnpackContext :=
  if u.returnCode ≠ .ok then some u
  else u.assertSpace .endOfInput 1 fun p u => (p.load 1).bind u.unpackItem

def itemType : Item → ItemType
  | .nil => .nil
  | .bool _ => .boolean
  | .int z => if 0 ≤ z then .positiveInteger else .negativeInteger
  | .float _ => .float
  | .double _ => .double
  | .str _ => .str
  | .bin _ => .bin
  | .ext t _ => .ext t
  | .timestamp .. => .ext (-1)
  | .array _ => .array
  | .map _ => .map

end OpenTwins
