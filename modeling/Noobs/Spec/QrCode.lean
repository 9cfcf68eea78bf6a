import Noobs.Spec.QrSegment

/-!
# QR codes

`QrCode` of the library that `BootManager::run` shows its address with
(`recovery/libs/QRCode/QrCode.cpp`), and `Utility::printQrCode`.

A grid of modules is a function of the coordinates; `setFunctionModule` checks them, as
`std::vector::at` does. Everything else is at coordinates its loops keep in range.
-/

namespace Noobs.Qrcodegen

/-! ## Tables -/

/-- `QrCode::Ecc`. -/
inductive Ecc where
  | LOW | MEDIUM | QUARTILE | HIGH
  deriving DecidableEq, Repr

def Ecc.formatBits : Ecc → ℕ
  | LOW => 1
  | MEDIUM => 0
  | QUARTILE => 3
  | HIGH => 2

/-- `NUM_ERROR_CORRECTION_CODEWORDS`; the table's -1 for version 0 is never read. -/
def Ecc.codewords : Ecc → List ℕ
  | LOW => [0, 7, 10, 15, 20, 26, 36, 40, 48, 60, 72, 80, 96, 104, 120, 132, 144, 168, 180, 196, 224, 224, 252,
      270, 300, 312, 336, 360, 390, 420, 450, 480, 510, 540, 570, 570, 600, 630, 660, 720, 750]
  | MEDIUM => [0, 10, 16, 26, 36, 48, 64, 72, 88, 110, 130, 150, 176, 198, 216, 240, 280, 308, 338, 364, 416,
      442, 476, 504, 560, 588, 644, 700, 728, 784, 812, 868, 924, 980, 1036, 1064, 1120, 1204, 1260, 1316, 1372]
  | QUARTILE => [0, 13, 22, 36, 52, 72, 96, 108, 132, 160, 192, 224, 260, 288, 320, 360, 408, 448, 504, 546,
      600, 644, 690, 750, 810, 870, 952, 1020, 1050, 1140, 1200, 1290, 1350, 1440, 1530, 1590, 1680, 1770,
      1860, 1950, 2040]
  | HIGH => [0, 17, 28, 44, 64, 88, 112, 130, 156, 192, 224, 264, 308, 352, 384, 432, 480, 532, 588, 650, 700,
      750, 816, 900, 960, 1050, 1110, 1200, 1260, 1350, 1440, 1530, 1620, 1710, 1800, 1890, 1980, 2100, 2220,
      2310, 2430]

/-- `NUM_ERROR_CORRECTION_BLOCKS`. -/
def Ecc.blocks : Ecc → List ℕ
  | LOW => [0, 1, 1, 1, 1, 1, 2, 2, 2, 2, 4, 4, 4, 4, 4, 6, 6, 6, 6, 7, 8, 8, 9, 9, 10, 12, 12, 12, 13, 14, 15,
      16, 17, 18, 19, 19, 20, 21, 22, 24, 25]
  | MEDIUM => [0, 1, 1, 1, 2, 2, 4, 4, 4, 5, 5, 5, 8, 9, 9, 10, 10, 11, 13, 14, 16, 17, 17, 18, 20, 21, 23, 25,
      26, 28, 29, 31, 33, 35, 37, 38, 40, 43, 45, 47, 49]
  | QUARTILE => [0, 1, 1, 2, 2, 4, 4, 6, 6, 8, 8, 8, 10, 12, 16, 12, 17, 16, 18, 21, 20, 23, 23, 25, 27, 29, 34,
      34, 35, 38, 40, 43, 45, 48, 51, 53, 56, 59, 62, 65, 68]
  | HIGH => [0, 1, 1, 2, 4, 4, 4, 5, 6, 8, 8, 11, 11, 16, 16, 18, 16, 19, 21, 25, 25, 25, 34, 30, 32, 35, 37, 40,
      42, 45, 48, 51, 54, 57, 60, 63, 66, 70, 74, 77, 81]

/-- `NUM_ERROR_CORRECTION_CODEWORDS[ecl.ordinal][ver]` -/
def numErrorCorrectionCodewords (ver : ℕ) (ecl : Ecc) : ℕ := ecl.codewords.getD ver 0

/-- `NUM_ERROR_CORRECTION_BLOCKS[ecl.ordinal][ver]` -/
def numErrorCorrectionBlocks (ver : ℕ) (ecl : Ecc) : ℕ := ecl.blocks.getD ver 0

def getAlignmentPatternPositions (ver : ℕ) : Except String (List ℕ) :=
  if ver < 1 ∨ 40 < ver then .error "Version number out of range"
  else if ver = 1 then .ok []
  else
    let numAlign := ver / 7 + 2
    let step := if ver ≠ 32 then (ver * 4 + numAlign * 2 + 1) / (2 * numAlign - 2) * 2 else 26
    let size := ver * 4 + 17
    .ok (6 :: (List.range (numAlign - 1)).reverse.map fun i => size - 7 - i * step)

def getNumRawDataModules (ver : ℕ) : Except String ℕ :=
  if ver < 1 ∨ 40 < ver then .error "Version number out of range"
  else
    let result := (16 * ver + 128) * ver + 64
    if 2 ≤ ver then
      let numAlign := ver / 7 + 2
      let result := result - ((25 * numAlign - 10) * numAlign - 55)
      .ok (if 7 ≤ ver then result - 18 * 2 else result)
    else .ok result

def getNumDataCodewords (ver : ℕ) (ecl : Ecc) : Except String ℕ :=
  if ver < 1 ∨ 40 < ver then .error "Version number out of range"
  else do return (← getNumRawDataModules ver) / 8 - numErrorCorrectionCodewords ver ecl

/-! ## `ReedSolomonGenerator` -/

/-- `z = (z << 1) ^ ((z >> 7) * 0x11D); z ^= ((y >> i) & 1) * x` -/
def multiplyStep (x y : Byte) (z i : ℕ) : ℕ :=
  let z := z <<< 1 ^^^ (z >>> 7) * 0x11D
  z ^^^ ((y.toNat >>> i) &&& 1) * x.toNat

def multiply (x y : Byte) : Except String Byte :=
  let z := (List.range 8).reverse.foldl (multiplyStep x y) 0
  if z >>> 8 ≠ 0 then .error "Assertion error" else .ok (BitVec.ofNat 8 z)

/-- `root = (root << 1) ^ ((root >> 7) * 0x11D)` -/
def nextRoot (root : ℕ) : ℕ := root <<< 1 ^^^ (root >>> 7) * 0x11D

/-- The inner loop: each coefficient takes the one behind it, which is still the old one. -/
def multiplyRoot (root : Byte) : List Byte → Except String (List Byte)
  | [] => .ok []
  | [c] => do return [← multiply c root]
  | c :: c' :: coefficients => do
    let product ← multiply c root
    return (product ^^^ c') :: (← multiplyRoot root (c' :: coefficients))

/-- The outer loop's body: the next root comes in. -/
def rootStep (s : List Byte × ℕ) : Except String (List Byte × ℕ) := do
  return (← multiplyRoot (BitVec.ofNat 8 s.2) s.1, nextRoot s.2)

/-- `ReedSolomonGenerator::ReedSolomonGenerator`: its coefficients. -/
def reedSolomonGenerator (degree : ℕ) : Except String (List Byte) :=
  if degree < 1 ∨ 255 < degree then .error "Degree out of range"
  else do
    let s ← (List.range degree).foldlM (fun s _ => rootStep s) (List.replicate (degree - 1) 0 ++ [1], 1)
    return s.1

/-- The body of the loop of `getRemainder`. -/
def remainderStep (coefficients result : List Byte) (b : Byte) : Except String (List Byte) :=
  let factor := b ^^^ result.headD 0
  (coefficients.zip (result.tail ++ [0])).mapM fun p => do return p.2 ^^^ (← multiply p.1 factor)

def getRemainder (coefficients data : List Byte) : Except String (List Byte) :=
  data.foldlM (remainderStep coefficients) (List.replicate coefficients.length 0)

/-! ## Codewords -/

/-- The numbers that `appendErrorCorrection` works with. -/
structure Blocks where
  numBlocks : ℕ
  blockEccLen : ℕ
  numShortBlocks : ℕ
  shortBlockLen : ℕ
  deriving DecidableEq, Repr

/-- How long the data of block `i` is. -/
def Blocks.dataLen (b : Blocks) (i : ℕ) : ℕ :=
  b.shortBlockLen - b.blockEccLen + if i < b.numShortBlocks then 0 else 1

/-- The block numbers from `i` on, with the data that is left for them. -/
def splitBlocks (b : Blocks) (rs : List Byte) : ℕ → ℕ → List Byte → Except String (List (List Byte))
  | 0, _, _ => .ok []
  | n + 1, i, data => do
    let dat := data.take (b.dataLen i)
    let ecc ← getRemainder rs dat
    let block := dat ++ (if i < b.numShortBlocks then [0] else []) ++ ecc
    return block :: (← splitBlocks b rs n (i + 1) (data.drop (b.dataLen i)))

/-- Interleaves the blocks, without the padding of the short ones. -/
def interleave (b : Blocks) (blocks : List (List Byte)) : List Byte :=
  (List.range (blocks.headD []).length).flatMap fun i =>
    (List.range blocks.length).flatMap fun j =>
      if i ≠ b.shortBlockLen - b.blockEccLen ∨ b.numShortBlocks ≤ j then [(blocks.getD j []).getD i 0] else []

def appendErrorCorrection (version : ℕ) (ecl : Ecc) (data : List Byte) : Except String (List Byte) := do
  if data.length ≠ (← getNumDataCodewords version ecl) then throw "Invalid argument"
  let numBlocks := numErrorCorrectionBlocks version ecl
  let totalEcc := numErrorCorrectionCodewords version ecl
  if totalEcc % numBlocks ≠ 0 then throw "Assertion error"
  let blockEccLen := totalEcc / numBlocks
  let raw ← getNumRawDataModules version
  let b : Blocks :=
    { numBlocks := numBlocks
      blockEccLen := blockEccLen
      numShortBlocks := numBlocks - raw / 8 % numBlocks
      shortBlockLen := raw / 8 / numBlocks }
  let rs ← reedSolomonGenerator blockEccLen
  let blocks ← splitBlocks b rs numBlocks 0 data
  let result := interleave b blocks
  if result.length ≠ raw / 8 then throw "Assertion error"
  return result

/-! ## The grid -/

structure Grid where
  size : ℕ
  modules : ℤ × ℤ → Bool := fun _ => false
  isFunction : ℤ × ℤ → Bool := fun _ => false

/-- The coordinates are those of a module. -/
def Grid.Inside (g : Grid) (c : ℤ × ℤ) : Prop := 0 ≤ c.1 ∧ c.1 < g.size ∧ 0 ≤ c.2 ∧ c.2 < g.size

instance (g : Grid) (c : ℤ × ℤ) : Decidable (g.Inside c) := by unfold Grid.Inside; infer_instance

def Grid.setFunctionModule (g : Grid) (c : ℤ × ℤ) (isBlack : Bool) : Except String Grid :=
  if g.Inside c then
    .ok { g with
      modules := Function.update g.modules c isBlack
      isFunction := Function.update g.isFunction c true }
  else .error "out of range"

/-- Function modules, one after the other. -/
def Grid.draw (g : Grid) (writes : List ((ℤ × ℤ) × Bool)) : Except String Grid :=
  writes.foldlM (fun g w => g.setFunctionModule w.1 w.2) g

/-- `-n`, ..., `n`. -/
def around (n : ℕ) : List ℤ := (List.range (2 * n + 1)).map fun i : ℕ => (i : ℤ) - n

def timingPatterns (size : ℕ) : List ((ℤ × ℤ) × Bool) :=
  (List.range size).flatMap fun i : ℕ => [((6, (i : ℤ)), decide (i % 2 = 0)), (((i : ℤ), 6), decide (i % 2 = 0))]

/-- `drawFinderPattern`. -/
def finderPattern (size : ℕ) (x y : ℤ) : List ((ℤ × ℤ) × Bool) :=
  (around 4).flatMap fun i => (around 4).flatMap fun j =>
    let dist := max i.natAbs j.natAbs
    if 0 ≤ x + j ∧ x + j < size ∧ 0 ≤ y + i ∧ y + i < size then
      [((x + j, y + i), decide (dist ≠ 2 ∧ dist ≠ 4))]
    else []

/-- `drawAlignmentPattern`. -/
def alignmentPattern (x y : ℤ) : List ((ℤ × ℤ) × Bool) :=
  (around 2).flatMap fun i => (around 2).map fun j =>
    ((x + j, y + i), decide (max i.natAbs j.natAbs ≠ 1))

/-- All of them, without those in the corners of the finders. -/
def alignmentPatterns (alignPatPos : List ℕ) : List ((ℤ × ℤ) × Bool) :=
  let numAlign := alignPatPos.length
  (List.range numAlign).flatMap fun i => (List.range numAlign).flatMap fun j =>
    if (i = 0 ∧ j = 0) ∨ (i = 0 ∧ j = numAlign - 1) ∨ (i = numAlign - 1 ∧ j = 0) then []
    else alignmentPattern (alignPatPos.getD i 0) (alignPatPos.getD j 0)

/-- A remainder to `n` bits, bit by bit. -/
def bchRemainder (n generator : ℕ) (data : ℕ) : ℕ :=
  (List.range n).foldl (fun rem _ => rem <<< 1 ^^^ (rem >>> (n - 1)) * generator) data

/-- The 15 bits of the format. -/
def formatData (ecl : Ecc) (mask : ℕ) : ℕ :=
  let data := ecl.formatBits <<< 3 ||| mask
  (data <<< 10 ||| bchRemainder 10 0x537 data) ^^^ 0x5412

/-- Two copies of the format, and the dark module. -/
def formatModules (size : ℕ) (data : ℕ) : List ((ℤ × ℤ) × Bool) :=
  ((List.range 6).map fun i : ℕ => ((8, (i : ℤ)), data.testBit i)) ++
  [((8, 7), data.testBit 6), ((8, 8), data.testBit 7), ((7, 8), data.testBit 8)] ++
  ((List.range 6).map fun i : ℕ => ((14 - ((i : ℤ) + 9), 8), data.testBit (i + 9))) ++
  ((List.range 8).map fun i : ℕ => (((size : ℤ) - 1 - i, 8), data.testBit i)) ++
  ((List.range 7).map fun i : ℕ => ((8, (size : ℤ) - 15 + ((i : ℤ) + 8)), data.testBit (i + 8))) ++
  [((8, (size : ℤ) - 8), true)]

def Grid.drawFormatBits (g : Grid) (ecl : Ecc) (mask : ℕ) : Except String Grid :=
  let data := formatData ecl mask
  if data >>> 15 ≠ 0 then .error "Assertion error" else g.draw (formatModules g.size data)

/-- The 18 bits of the version. -/
def versionData (version : ℕ) : ℕ := version <<< 12 ||| bchRemainder 12 0x1F25 version

def versionModules (size : ℕ) (data : ℕ) : List ((ℤ × ℤ) × Bool) :=
  (List.range 18).flatMap fun i =>
    let a : ℤ := (size : ℤ) - 11 + (i % 3 : ℕ)
    let b : ℤ := (i / 3 : ℕ)
    [((a, b), data.testBit i), ((b, a), data.testBit i)]

def Grid.drawVersion (g : Grid) (version : ℕ) : Except String Grid :=
  if version < 7 then .ok g
  else
    let data := versionData version
    if data >>> 18 ≠ 0 then .error "Assertion error" else g.draw (versionModules g.size data)

def Grid.drawFunctionPatterns (g : Grid) (version : ℕ) (ecl : Ecc) : Except String Grid := do
  let g ← g.draw (timingPatterns g.size)
  let g ← g.draw (finderPattern g.size 3 3)
  let g ← g.draw (finderPattern g.size (g.size - 4) 3)
  let g ← g.draw (finderPattern g.size 3 (g.size - 4))
  let g ← g.draw (alignmentPatterns (← getAlignmentPatternPositions version))
  let g ← g.drawFormatBits ecl 0
  g.drawVersion version

/-! ## Data -/

/-- The right columns of the pairs, from `right` on: the one at the vertical timing pattern
is left out. -/
def rightColumns (right : ℕ) : List ℕ :=
  if right < 1 then []
  else
    let right := if right = 6 then 5 else right
    right :: rightColumns (right - 2)
termination_by right
decreasing_by split_ifs <;> omega

/-- The modules of a pair of columns, in the order of the scan. -/
def columnPair (size right : ℕ) : List (ℤ × ℤ) :=
  (List.range size).flatMap fun vert : ℕ => (List.range 2).map fun j : ℕ =>
    let x : ℤ := (right : ℤ) - j
    let upwards := ((right &&& 2) == 0) ^^ decide (x < 6)
    (x, if upwards then (size : ℤ) - 1 - vert else vert)

/-- The zigzag scan. -/
def zigzag (size : ℕ) : List (ℤ × ℤ) := (rightColumns (size - 1)).flatMap (columnPair size)

/-- The body of the loops of `drawCodewords`; `i` is the index of the next bit. -/
def drawBit (data : List Byte) (s : Grid × ℕ) (c : ℤ × ℤ) : Grid × ℕ :=
  if ¬s.1.isFunction c ∧ s.2 < data.length * 8 then
    let bit := (data.getD (s.2 >>> 3) 0).getLsbD (7 - (s.2 &&& 7))
    ({ s.1 with modules := Function.update s.1.modules c bit }, s.2 + 1)
  else s

def Grid.drawCodewords (g : Grid) (version : ℕ) (data : List Byte) : Except String Grid := do
  if data.length ≠ (← getNumRawDataModules version) / 8 then throw "Invalid argument"
  let s := (zigzag g.size).foldl (drawBit data) (g, 0)
  if s.2 ≠ data.length * 8 then throw "Assertion error"
  return s.1

/-! ## Masks -/

/-- The cases of `applyMask`; there are no others. -/
def invert (mask : ℕ) (x y : ℕ) : Bool :=
  match mask with
  | 0 => (x + y) % 2 = 0
  | 1 => y % 2 = 0
  | 2 => x % 3 = 0
  | 3 => (x + y) % 3 = 0
  | 4 => (x / 3 + y / 2) % 2 = 0
  | 5 => x * y % 2 + x * y % 3 = 0
  | 6 => (x * y % 2 + x * y % 3) % 2 = 0
  | 7 => ((x + y) % 2 + x * y % 3) % 2 = 0
  | _ => false

def Grid.applyMask (g : Grid) (mask : ℤ) : Except String Grid :=
  if mask < 0 ∨ 7 < mask then .error "Mask value out of range"
  else .ok { g with
    modules := fun c =>
      if g.Inside c then g.modules c ^^ (invert mask.toNat c.1.toNat c.2.toNat && !g.isFunction c)
      else g.modules c }

/-! ### Penalties -/

def PENALTY_N1 : ℕ := 3
def PENALTY_N2 : ℕ := 3
def PENALTY_N3 : ℕ := 40
def PENALTY_N4 : ℕ := 10

def Grid.row (g : Grid) (y : ℕ) : List Bool := (List.range g.size).map fun x : ℕ => g.modules (x, y)

def Grid.column (g : Grid) (x : ℕ) : List Bool := (List.range g.size).map fun y : ℕ => g.modules (x, y)

/-- Runs of one colour, behind `run` modules of it. -/
def runPenalty (color : Bool) (run : ℕ) : List Bool → ℕ
  | [] => 0
  | m :: line =>
    if m ≠ color then runPenalty m 1 line
    else (if run + 1 = 5 then PENALTY_N1 else if 5 < run + 1 then 1 else 0) + runPenalty color (run + 1) line

/-- Adjacent modules of one colour in a row or a column. -/
def linePenalty : List Bool → ℕ
  | [] => 0
  | m :: line => runPenalty m 1 line

/-- Patterns like those of a finder in a row or a column, from its module `x` on. -/
def finderPenalty (bits x : ℕ) : List Bool → ℕ
  | [] => 0
  | m :: line =>
    let bits := ((bits <<< 1) &&& 0x7FF) ||| m.toNat
    (if 10 ≤ x ∧ (bits = 0x05D ∨ bits = 0x5D0) then PENALTY_N3 else 0) + finderPenalty bits (x + 1) line

/-- 2*2 blocks of one colour. -/
def Grid.blockPenalty (g : Grid) : ℕ :=
  ((List.range (g.size - 1)).map fun y : ℕ => ((List.range (g.size - 1)).map fun x : ℕ =>
    let color := g.modules (x, y)
    if color = g.modules (x + 1, y) ∧ color = g.modules (x, y + 1) ∧ color = g.modules (x + 1, y + 1) then
      PENALTY_N2
    else 0).sum).sum

def Grid.black (g : Grid) : ℕ := ((List.range g.size).map fun y => (g.row y).count true).sum

/-- The loop over `k`, which ends at 9 at the latest: there are no more than `total` black
modules. -/
def balancePenalty (black total : ℤ) : ℕ → ℤ → ℕ
  | 0, _ => 0
  | fuel + 1, k =>
    if black * 20 < (9 - k) * total ∨ black * 20 > (11 + k) * total then
      PENALTY_N4 + balancePenalty black total fuel (k + 1)
    else 0

def Grid.getPenaltyScore (g : Grid) : ℕ :=
  ((List.range g.size).map fun y => linePenalty (g.row y)).sum +
  ((List.range g.size).map fun x => linePenalty (g.column x)).sum +
  g.blockPenalty +
  ((List.range g.size).map fun y => finderPenalty 0 0 (g.row y)).sum +
  ((List.range g.size).map fun x => finderPenalty 0 0 (g.column x)).sum +
  balancePenalty g.black (g.size * g.size) 10 0

/-! ### The choice of a mask -/

/-- The variables of the loop of `handleConstructorMasking`. -/
structure Masking where
  grid : Grid
  mask : ℤ
  minPenalty : ℕ := 2 ^ 31 - 1

/-- The body of the loop. -/
def Masking.step (ecl : Ecc) (s : Masking) (i : ℕ) : Except String Masking := do
  let g ← s.grid.drawFormatBits ecl i
  let g ← g.applyMask i
  let penalty := g.getPenaltyScore
  let undone ← g.applyMask i
  if penalty < s.minPenalty then return { grid := undone, mask := i, minPenalty := penalty }
  else return { s with grid := undone }

def Grid.handleConstructorMasking (g : Grid) (ecl : Ecc) (mask : ℤ) : Except String (Grid × ℕ) := do
  let s ← if mask = -1 then (List.range 8).foldlM (Masking.step ecl) { grid := g, mask := mask }
    else pure { grid := g, mask := mask }
  if s.mask < 0 ∨ 7 < s.mask then throw "Assertion error"
  let g ← s.grid.drawFormatBits ecl s.mask.toNat
  return (← g.applyMask s.mask, s.mask.toNat)

/-! ## Symbols -/

structure QrCode where
  version : ℕ
  errorCorrectionLevel : Ecc
  mask : ℕ
  grid : Grid

def QrCode.size (qr : QrCode) : ℕ := qr.grid.size

/-- `QrCode::QrCode`, from data. -/
def QrCode.new (ver : ℕ) (ecl : Ecc) (dataCodewords : List Byte) (mask : ℤ) : Except String QrCode := do
  if ver < 1 ∨ 40 < ver ∨ mask < -1 ∨ 7 < mask then throw "Value out of range"
  let g ← ({ size := ver * 4 + 17 } : Grid).drawFunctionPatterns ver ecl
  let allCodewords ← appendErrorCorrection ver ecl dataCodewords
  let g ← g.drawCodewords ver allCodewords
  let (g, mask) ← g.handleConstructorMasking ecl mask
  return { version := ver, errorCorrectionLevel := ecl, mask := mask, grid := g }

/-- `QrCode::QrCode`, from a symbol with another mask. -/
def QrCode.remask (qr : QrCode) (mask : ℤ) : Except String QrCode := do
  if mask < -1 ∨ 7 < mask then throw "Mask value out of range"
  let g ← qr.grid.applyMask qr.mask
  let (g, mask) ← g.handleConstructorMasking qr.errorCorrectionLevel mask
  return { qr with mask := mask, grid := g }

/-- The loop that looks for a version: the first that fits, and how many bits are used. -/
def chooseVersion (segs : List QrSegment) (ecl : Ecc) : ℕ → ℕ → Except String (ℕ × ℤ)
  | left, version => do
    let dataCapacityBits := (← getNumDataCodewords version ecl) * 8
    let dataUsedBits ← getTotalBits segs version
    if dataUsedBits ≠ -1 ∧ dataUsedBits ≤ dataCapacityBits then return (version, dataUsedBits)
    else match left with
      | 0 => throw "Data too long"
      | left + 1 => chooseVersion segs ecl left (version + 1)

/-- A higher level, if the data still fits with it. -/
def boost (version : ℕ) (dataUsedBits : ℤ) (ecl newEcl : Ecc) : Except String Ecc := do
  if dataUsedBits ≤ (← getNumDataCodewords version newEcl) * 8 then return newEcl else return ecl

/-- `newEcl`: the highest level, if it is to be boosted. -/
def chooseEcl (version : ℕ) (dataUsedBits : ℤ) (ecl : Ecc) (boostEcl : Bool) : Except String Ecc :=
  if boostEcl then do
    let newEcl ← boost version dataUsedBits ecl .MEDIUM
    let newEcl ← boost version dataUsedBits newEcl .QUARTILE
    boost version dataUsedBits newEcl .HIGH
  else .ok ecl

def BitBuffer.appendSegment (version : ℕ) (bb : BitBuffer) (seg : QrSegment) : Except String BitBuffer := do
  let bb ← bb.appendBits seg.mode.modeBits 4
  let bb ← bb.appendBits seg.numChars (← seg.mode.numCharCountBits version)
  return bb.appendData seg

/-- The padding bytes, as many as there can be. -/
def BitBuffer.pad (dataCapacityBits : ℕ) : ℕ → Byte → BitBuffer → Except String BitBuffer
  | 0, _, bb => .ok bb
  | fuel + 1, padByte, bb =>
    if bb.getBitLength < dataCapacityBits then do
      BitBuffer.pad dataCapacityBits fuel (padByte ^^^ (0xEC ^^^ 0x11)) (← bb.appendBits padByte.toNat 8)
    else .ok bb

/-- The terminator, the bits up to a byte and the padding bytes. -/
def BitBuffer.finish (bb : BitBuffer) (dataCapacityBits : ℕ) : Except String BitBuffer := do
  let bb ← bb.appendBits 0 (min 4 ((dataCapacityBits : ℤ) - bb.getBitLength))
  let bb ← bb.appendBits 0 (((8 - bb.getBitLength % 8) % 8 : ℕ) : ℤ)
  bb.pad dataCapacityBits dataCapacityBits 0xEC

def encodeSegments (segs : List QrSegment) (ecl : Ecc) (minVersion maxVersion : ℕ) (mask : ℤ) (boostEcl : Bool) :
    Except String QrCode := do
  if ¬(1 ≤ minVersion ∧ minVersion ≤ maxVersion ∧ maxVersion ≤ 40) ∨ mask < -1 ∨ 7 < mask then
    throw "Invalid value"
  let (version, dataUsedBits) ← chooseVersion segs ecl (maxVersion - minVersion) minVersion
  if dataUsedBits = -1 then throw "Assertion error"
  let newEcl ← chooseEcl version dataUsedBits ecl boostEcl
  let dataCapacityBits := (← getNumDataCodewords version newEcl) * 8
  let bb ← segs.foldlM (BitBuffer.appendSegment version) {}
  let bb ← bb.finish dataCapacityBits
  if bb.getBitLength % 8 ≠ 0 then throw "Assertion error"
  QrCode.new version newEcl bb.getBytes mask

def encodeText (text : List Byte) (ecl : Ecc) : Except String QrCode := do
  encodeSegments (← makeSegments text) ecl 1 40 (-1) true

def encodeBinary (data : List Byte) (ecl : Ecc) : Except String QrCode := do
  encodeSegments [← makeBytes data] ecl 1 40 (-1) true

/-! ## The console -/

end Noobs.Qrcodegen
