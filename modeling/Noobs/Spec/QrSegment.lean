import Mathlib.Data.Nat.Bitwise

/-!
# The segments of a QR code

`BitBuffer` and `QrSegment` of the library that `BootManager::run` shows its address with
(`recovery/libs/QRCode/BitBuffer.cpp`, `QrSegment.cpp`).

Lengths are natural numbers: an `int` of the library overflows from 2³¹ bits on. What the
library throws is the text of an `Except`.
-/

namespace Noobs.Qrcodegen

/-- `uint8_t`. -/
abbrev Byte := BitVec 8

/-- What a C string has in front of its NUL. -/
def cBytes (text : List Byte) : List Byte := text.takeWhile (· ≠ 0)

/-! ## `BitBuffer` -/

structure BitBuffer where
  data : List Byte := []
  bitLength : ℕ := 0
  deriving DecidableEq, Repr

def BitBuffer.getBitLength (bb : BitBuffer) : ℕ := bb.bitLength

def BitBuffer.getBytes (bb : BitBuffer) : List Byte := bb.data

/-- `while (data.size() * 8 < newBitLen) data.push_back(0)` -/
def extend (data : List Byte) (newBitLen : ℕ) : List Byte :=
  if data.length * 8 < newBitLen then extend (data ++ [0]) newBitLen else data
termination_by newBitLen - data.length * 8
decreasing_by
  rw [List.length_append, List.length_singleton]
  omega

/-- `data.at(bitLength >> 3) |= bit << (7 - (bitLength & 7))`, and one bit more. -/
def BitBuffer.append (bb : BitBuffer) (bit : Bool) : BitBuffer :=
  { data := bb.data.modify (bb.bitLength >>> 3)
      (· ||| BitVec.ofNat 8 bit.toNat <<< (7 - (bb.bitLength &&& 7)))
    bitLength := bb.bitLength + 1 }

/-- `val` is a `uint32_t`. -/
def BitBuffer.appendBits (bb : BitBuffer) (val : ℕ) (len : ℤ) : Except String BitBuffer :=
  if len < 0 ∨ 32 < len ∨ (len < 32 ∧ val >>> len.toNat ≠ 0) then .error "Value out of range"
  else
    let bb := { bb with data := extend bb.data (bb.bitLength + len.toNat) }
    .ok ((List.range len.toNat).reverse.foldl (fun bb i => bb.append (val.testBit i)) bb)

/-! ## Segments -/

/-- `QrSegment::Mode`. -/
structure Mode where
  modeBits : ℕ
  numBitsCharCount : ℕ × ℕ × ℕ
  deriving DecidableEq, Repr

def Mode.numCharCountBits (md : Mode) (ver : ℕ) : Except String ℕ :=
  if 1 ≤ ver ∧ ver ≤ 9 then .ok md.numBitsCharCount.1
  else if 10 ≤ ver ∧ ver ≤ 26 then .ok md.numBitsCharCount.2.1
  else if 27 ≤ ver ∧ ver ≤ 40 then .ok md.numBitsCharCount.2.2
  else .error "Version number out of range"

def Mode.NUMERIC : Mode := ⟨0x1, 10, 12, 14⟩
def Mode.ALPHANUMERIC : Mode := ⟨0x2, 9, 11, 13⟩
def Mode.BYTE : Mode := ⟨0x4, 8, 16, 16⟩
def Mode.KANJI : Mode := ⟨0x8, 8, 10, 12⟩

/-- A segment: its data has as many bytes as its bits need. -/
structure QrSegment where
  mode : Mode
  numChars : ℕ
  data : List Byte
  bitLength : ℕ
  size : data.length = (bitLength + 7) / 8
  deriving DecidableEq, Repr

/-- `QrSegment::QrSegment`. -/
def QrSegment.new (md : Mode) (numCh : ℕ) (b : List Byte) (bitLen : ℕ) : Except String QrSegment :=
  if h : b.length = (bitLen + 7) / 8 then .ok ⟨md, numCh, b, bitLen, h⟩ else .error "Invalid value"

/-- `(seg.data.at(i >> 3) >> (7 - (i & 7))) & 1` -/
def QrSegment.bit (seg : QrSegment) (i : ℕ) : Bool :=
  (seg.data.getD (i >>> 3) 0).getLsbD (7 - (i &&& 7))

def BitBuffer.appendData (bb : BitBuffer) (seg : QrSegment) : BitBuffer :=
  let bb := { bb with data := extend bb.data (bb.bitLength + seg.bitLength) }
  (List.range seg.bitLength).foldl (fun bb i => bb.append (seg.bit i)) bb

/-! ### Making segments -/

def makeBytes (data : List Byte) : Except String QrSegment :=
  QrSegment.new .BYTE data.length data (data.length * 8)

/-- How characters are packed: so many of them make a number to this base, of so many bits;
fewer at the end take fewer. -/
structure Packing where
  mode : Mode
  base : ℕ
  group : ℕ
  width : ℤ
  rest : ℕ → ℤ
  value : Byte → Except String ℤ

/-- The variables of the two loops. -/
structure Packed where
  bb : BitBuffer := {}
  accumData : ℤ := 0
  accumCount : ℕ := 0
  charCount : ℕ := 0

/-- The conversion of an `int` to `uint32_t`. -/
def toUint32 (x : ℤ) : ℕ := (x % 2 ^ 32).toNat

/-- The body of the loop. -/
def Packed.step (k : Packing) (s : Packed) (c : Byte) : Except String Packed := do
  let v ← k.value c
  let accumData := s.accumData * k.base + v
  let accumCount := s.accumCount + 1
  if accumCount = k.group then
    let bb ← s.bb.appendBits (toUint32 accumData) k.width
    return { bb := bb, charCount := s.charCount + 1 }
  else return { s with accumData := accumData, accumCount := accumCount, charCount := s.charCount + 1 }

/-- The characters that remain. -/
def Packed.flush (k : Packing) (s : Packed) : Except String BitBuffer :=
  if 0 < s.accumCount then s.bb.appendBits (toUint32 s.accumData) (k.rest s.accumCount) else .ok s.bb

def Packing.make (k : Packing) (text : List Byte) : Except String QrSegment := do
  let s ← (cBytes text).foldlM (Packed.step k) {}
  let bb ← s.flush k
  QrSegment.new k.mode s.charCount bb.getBytes bb.getBitLength

/-- Three digits make ten bits. -/
def digits : Packing where
  mode := .NUMERIC
  base := 10
  group := 3
  width := 10
  rest := fun accumCount => accumCount * 3 + 1
  value := fun c =>
    if c.toNat < '0'.toNat ∨ '9'.toNat < c.toNat then .error "String contains non-numeric characters"
    else .ok (c.toNat - '0'.toNat)

def makeNumeric (digits' : List Byte) : Except String QrSegment := digits.make digits'

/-- `ALPHANUMERIC_ENCODING_TABLE`, from the blank on. -/
def ALPHANUMERIC_ENCODING_TABLE : List ℤ :=
  [36, -1, -1, -1, 37, 38, -1, -1, -1, -1, 39, 40, -1, 41, 42, 43, 0, 1, 2, 3, 4, 5, 6, 7, 8, 9, 44,
    -1, -1, -1, -1, -1, -1,
    10, 11, 12, 13, 14, 15, 16, 17, 18, 19, 20, 21, 22, 23, 24, 25, 26, 27, 28, 29, 30, 31, 32, 33, 34, 35]

/-- `ALPHANUMERIC_ENCODING_TABLE[c - ' ']` -/
def alphanumericCode (c : Byte) : ℤ := ALPHANUMERIC_ENCODING_TABLE.getD (c.toNat - ' '.toNat) (-1)

/-- Two characters make eleven bits. -/
def characters : Packing where
  mode := .ALPHANUMERIC
  base := 45
  group := 2
  width := 11
  rest := fun _ => 6
  value := fun c =>
    if c.toNat < ' '.toNat ∨ 'Z'.toNat < c.toNat then
      .error "String contains unencodable characters in alphanumeric mode"
    else .ok (alphanumericCode c)

def makeAlphanumeric (text : List Byte) : Except String QrSegment := characters.make text

def isAlphanumeric (text : List Byte) : Bool :=
  (cBytes text).all fun c => !(c.toNat < ' '.toNat || 'Z'.toNat < c.toNat || alphanumericCode c = -1)

def isNumeric (text : List Byte) : Bool :=
  (cBytes text).all fun c => !(c.toNat < '0'.toNat || '9'.toNat < c.toNat)

def makeSegments (text : List Byte) : Except String (List QrSegment) :=
  if (cBytes text).isEmpty then .ok []
  else if isNumeric text then do return [← makeNumeric text]
  else if isAlphanumeric text then do return [← makeAlphanumeric text]
  else do return [← makeBytes (cBytes text)]

/-- The bits that the segments need, or -1 if one is too long for its length field. -/
def getTotalBits (segs : List QrSegment) (version : ℕ) : Except String ℤ :=
  if version < 1 ∨ 40 < version then .error "Version number out of range"
  else go segs 0
where
  go : List QrSegment → ℤ → Except String ℤ
    | [], result => .ok result
    | seg :: segs, result => do
      let ccbits ← seg.mode.numCharCountBits version
      if 1 <<< ccbits ≤ seg.numChars then return -1
      else go segs (result + 4 + ccbits + seg.bitLength)

end Noobs.Qrcodegen
