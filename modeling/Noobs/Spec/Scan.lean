import Noobs.Lib.Bits
import Noobs.Spec.QrCode

/-!
# Reading a QR code

What a scanner does with the modules of a symbol, as the standard has it: the format, the
data modules in their order, the mask, the blocks, the segments. None of it is in the
repository; it says what a symbol means.

Error correction is left out: what damage a scanner can undo is told of the format and the
codewords.
-/

namespace Noobs.Qrcodegen

open Bits

/-! ## Segments -/

/-- The number in the next `n` bits, and what is behind it. -/
def readField (n : ℕ) (bits : List Bool) : Option (ℕ × List Bool) :=
  if n ≤ bits.length then some (value (bits.take n), bits.drop n) else none

/-- How characters are packed: `group` of them make a number to this base, of `width` bits;
fewer at the end take fewer. -/
structure Alphabet where
  base : ℕ
  group : ℕ
  width : ℕ
  rest : ℕ → ℕ
  char : ℕ → Byte

/-- The `n` characters of a number, the first of them in its highest place. -/
def Alphabet.spell (a : Alphabet) (n v : ℕ) : List Byte :=
  (List.range n).reverse.map fun i => a.char (v / a.base ^ i % a.base)

def Alphabet.readGroups (a : Alphabet) : ℕ → List Bool → Option (List Byte × List Bool)
  | 0, bits => some ([], bits)
  | k + 1, bits => do
    let (v, bits) ← readField a.width bits
    let (text, bits) ← a.readGroups k bits
    return (a.spell a.group v ++ text, bits)

/-- The next `n` characters. -/
def Alphabet.read (a : Alphabet) (n : ℕ) (bits : List Bool) : Option (List Byte × List Bool) := do
  let (text, bits) ← a.readGroups (n / a.group) bits
  if n % a.group = 0 then return (text, bits)
  let (v, bits) ← readField (a.rest (n % a.group)) bits
  return (text ++ a.spell (n % a.group) v, bits)

def numericAlphabet : Alphabet where
  base := 10
  group := 3
  width := 10
  rest := fun n => if n = 1 then 4 else 7
  char := fun v => BitVec.ofNat 8 (v + 48)

/-- The characters of the alphanumeric mode, by their numbers. -/
def alphanumericCharacters : List Char := "0123456789ABCDEFGHIJKLMNOPQRSTUVWXYZ $%*+-./:".toList

def alphanumericAlphabet : Alphabet where
  base := 45
  group := 2
  width := 11
  rest := fun _ => 6
  char := fun v => BitVec.ofNat 8 (alphanumericCharacters.getD v ' ').toNat

def byteAlphabet : Alphabet where
  base := 256
  group := 1
  width := 8
  rest := fun _ => 0
  char := BitVec.ofNat 8

/-- The mode that some mode bits announce. -/
def announced (modeBits : ℕ) : Option (Mode × Alphabet) :=
  if modeBits = 1 then some (.NUMERIC, numericAlphabet)
  else if modeBits = 2 then some (.ALPHANUMERIC, alphanumericAlphabet)
  else if modeBits = 4 then some (.BYTE, byteAlphabet)
  else none

/-- The text of the segments, up to the terminator or to where there is no room for it. The
fuel is how many segments are read at most. -/
def readSegments (version : ℕ) : ℕ → List Bool → Option (List Byte)
  | 0, _ => some []
  | fuel + 1, bits =>
    match readField 4 bits with
    | none => some []
    | some (0, _) => some []
    | some (modeBits, bits) => do
      let (md, a) ← announced modeBits
      let ccbits ← (md.numCharCountBits version).toOption
      let (n, bits) ← readField ccbits bits
      let (text, bits) ← a.read n bits
      return text ++ (← readSegments version fuel bits)

/-! ## Codewords -/

/-- How the codewords of a symbol are dealt to its blocks. -/
def blocksOf (version : ℕ) (ecl : Ecc) : Blocks :=
  let numBlocks := numErrorCorrectionBlocks version ecl
  let raw := (getNumRawDataModules version).toOption.getD 0
  { numBlocks := numBlocks
    blockEccLen := numErrorCorrectionCodewords version ecl / numBlocks
    numShortBlocks := numBlocks - raw / 8 % numBlocks
    shortBlockLen := raw / 8 / numBlocks }

/-- How many data codewords each block has at least. -/
def Blocks.shortDataLen (b : Blocks) : ℕ := b.shortBlockLen - b.blockEccLen

/-- Where data codeword `i` of block `j` stands. -/
def Blocks.dataIndex (b : Blocks) (j i : ℕ) : ℕ :=
  if i < b.shortDataLen then i * b.numBlocks + j else b.shortDataLen * b.numBlocks + (j - b.numShortBlocks)

/-- Where error correction codeword `i` of block `j` stands. -/
def Blocks.eccIndex (b : Blocks) (j i : ℕ) : ℕ :=
  b.shortDataLen * b.numBlocks + (b.numBlocks - b.numShortBlocks) + i * b.numBlocks + j

/-- The data of block `j`. -/
def Blocks.dataOf (b : Blocks) (codewords : List Byte) (j : ℕ) : List Byte :=
  (List.range (b.dataLen j)).map fun i => codewords.getD (b.dataIndex j i) 0

/-- The error correction codewords of block `j`. -/
def Blocks.eccOf (b : Blocks) (codewords : List Byte) (j : ℕ) : List Byte :=
  (List.range b.blockEccLen).map fun i => codewords.getD (b.eccIndex j i) 0

/-- The data of all blocks. -/
def Blocks.readData (b : Blocks) (codewords : List Byte) : List Byte :=
  (List.range b.numBlocks).flatMap (b.dataOf codewords)

/-! ## Modules -/

/-- Some alignment pattern has the module. -/
def onAlignmentPattern (positions : List ℕ) (c : ℤ × ℤ) : Bool :=
  (List.range positions.length).any fun i => (List.range positions.length).any fun j =>
    !((i = 0 ∧ j = 0) ∨ (i = 0 ∧ j = positions.length - 1) ∨ (i = positions.length - 1 ∧ j = 0) : Bool) &&
      decide (|c.1 - positions.getD i 0| ≤ 2 ∧ |c.2 - positions.getD j 0| ≤ 2)

/-- The modules that carry no data: the finders with their separators and the format, the
timing patterns, the alignment patterns, and the version from 7 on. -/
def isFunctionModule (version : ℕ) (c : ℤ × ℤ) : Bool :=
  let size : ℤ := (version * 4 + 17 : ℕ)
  decide (c.1 = 6 ∨ c.2 = 6 ∨ (c.1 ≤ 8 ∧ c.2 ≤ 8) ∨ (size - 8 ≤ c.1 ∧ c.2 ≤ 8) ∨ (c.1 ≤ 8 ∧ size - 8 ≤ c.2)) ||
  onAlignmentPattern ((getAlignmentPatternPositions version).toOption.getD []) c ||
  (decide (7 ≤ version) && decide ((size - 11 ≤ c.1 ∧ c.1 ≤ size - 9 ∧ c.2 ≤ 5) ∨
    (size - 11 ≤ c.2 ∧ c.2 ≤ size - 9 ∧ c.1 ≤ 5)))

/-- The pairs of columns from the right, without the one of the vertical timing pattern, by
their right columns. -/
def scanColumn (size k : ℕ) : ℕ :=
  let right := size - 1 - 2 * k
  if 6 < right then right else right - 1

/-- The modules of the pair `k`: every other pair is read upwards, beginning with the first. -/
def scanPair (size k : ℕ) : List (ℤ × ℤ) :=
  (List.range size).flatMap fun i : ℕ =>
    let y : ℤ := if k % 2 = 0 then (size : ℤ) - 1 - i else i
    [((scanColumn size k : ℤ), y), ((scanColumn size k : ℤ) - 1, y)]

/-- The data modules in their order. -/
def dataModules (version : ℕ) : List (ℤ × ℤ) :=
  let size := version * 4 + 17
  ((List.range ((size - 1) / 2)).flatMap (scanPair size)).filter fun c => !isFunctionModule version c

/-- The codewords that are read with a mask. -/
def readCodewords (version mask : ℕ) (modules : ℤ × ℤ → Bool) : List Byte :=
  toBytes ((dataModules version).map fun c => modules c ^^ invert mask c.1.toNat c.2.toNat)

/-! ## Symbols -/

/-- The modules of the first copy of the format, the lowest bit first. -/
def formatPlaces : List (ℤ × ℤ) :=
  [(8, 0), (8, 1), (8, 2), (8, 3), (8, 4), (8, 5), (8, 7), (8, 8), (7, 8), (5, 8), (4, 8), (3, 8), (2, 8), (1, 8),
    (0, 8)]

def formats : List (Ecc × ℕ) :=
  [Ecc.LOW, .MEDIUM, .QUARTILE, .HIGH].flatMap fun ecl => (List.range 8).map fun mask => (ecl, mask)

/-- In how many of their low `n` bits two numbers differ. -/
def bitDifferences (n a b : ℕ) : ℕ := (List.range n).countP fun i => a.testBit i != b.testBit i

/-- The format that differs in at most three bits. -/
def readFormat (data : ℕ) : Option (Ecc × ℕ) :=
  formats.find? fun f => bitDifferences 15 (formatData f.1 f.2) data ≤ 3

/-- The text that a symbol of this size shows. -/
def scan (size : ℕ) (modules : ℤ × ℤ → Bool) : Option (List Byte) := do
  let version := (size - 17) / 4
  let (ecl, mask) ← readFormat (value (formatPlaces.map modules).reverse)
  let data := (blocksOf version ecl).readData (readCodewords version mask modules)
  readSegments version data.length (bytesBits data)

/-! ## The console -/

end Noobs.Qrcodegen
