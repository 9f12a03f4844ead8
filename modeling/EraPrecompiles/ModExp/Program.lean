import EraPrecompiles.Yul.Iteration
import EraPrecompiles.Yul.Memory

/-!
# The program of ModExp

The functions of the precompile, in the order of the source.  Numbers of any length
lie in memory as big-endian sequences of words, the limbs; a number is given by the
address of its first limb and the number of its limbs.

A function that writes to memory takes the memory and returns the new one.
-/

namespace EraPrecompiles.ModExp

def LIMB_SIZE_IN_BYTES : Word := 0x20

def LIMB_SIZE_IN_BITS : Word := 0x100

/-- The number of limbs that are not zero. -/
def bigIntLimbsWithoutZeros (fuel : ℕ) (mem : Memory) (ptr totalLimbs : Word) :
    Option Word :=
  iterate
    (fun (s : Word × Word) =>
      let (i, limbs) := s
      if lt i totalLimbs ≠ 0 then
        let limb := mload mem (add ptr (shl 5 i))
        let limbs := if limb ≠ 0 then add limbs 1 else limbs
        some (.next (add i 1, limbs))
      else
        some (.done limbs))
    fuel (0, 0)

def bigIntLimbs (length : Word) : Word × Word :=
  let limbs := div length LIMB_SIZE_IN_BYTES
  let misalignment := mod length LIMB_SIZE_IN_BYTES
  let limbs := if misalignment ≠ 0 then add limbs 1 else limbs
  (limbs, misalignment)

def zeroWithLimbSizeAt (fuel : ℕ) (mem : Memory) (nLimbs toAddress : Word) :
    Option Memory :=
  let overflow := add toAddress (shl 5 nLimbs)
  iterate
    (fun (s : Memory × Word) =>
      let (mem, toAddress) := s
      if lt toAddress overflow ≠ 0 then
        some (.next (mstore mem toAddress 0, add toAddress LIMB_SIZE_IN_BYTES))
      else
        some (.done mem))
    fuel (mem, toAddress)

def copyBigUint (fuel : ℕ) (mem : Memory) (nLimbs fromAddress toAddress : Word) :
    Option Memory :=
  let total_bytes := shl 5 nLimbs
  iterate
    (fun (s : Memory × Word) =>
      let (mem, i) := s
      if lt i total_bytes ≠ 0 then
        some (.next (mstore mem (add i toAddress) (mload mem (add i fromAddress)),
          add i LIMB_SIZE_IN_BYTES))
      else
        some (.done mem))
    fuel (mem, 0)

def overflowingSubWithBorrow (minuend subtrahend borrow : Word) : Word × Word :=
  let difference := sub minuend (add subtrahend borrow)
  let overflowed := gt difference minuend
  (difference, overflowed)

/-- The loop looks at the full words, the end at the last partial word. -/
def callDataBufferIsZero (fuel : ℕ) (cd : Calldata) (start len : Word) : Option Word := do
  let end' := add start len
  let lastWordBytes := mod len 32
  let endOfLastFullWord := sub end' lastWordBytes
  let res ← iterate
    (fun (ptr : Word) =>
      if lt ptr endOfLastFullWord ≠ 0 then
        let word := calldataload cd ptr
        if word ≠ 0 then some (.done 0) else some (.next (add ptr 32))
      else
        some (.done (1 : Word)))
    fuel start
  if lastWordBytes ≠ 0 then
    let mask := sub (shl (shl 3 lastWordBytes) 1) 1
    let word := shr (sub LIMB_SIZE_IN_BITS (shl 3 lastWordBytes))
      (calldataload cd endOfLastFullWord)
    return if and word mask ≠ 0 then 0 else res
  else
    return res

def callDataBufferIsOne (fuel : ℕ) (cd : Calldata) (start len : Word) : Option Word :=
  if len ≠ 0 then do
    let lastBytePtr := sub (add start len) 1
    let lastByte := byte 0 (calldataload cd lastBytePtr)
    let lastByteIsOne := eq lastByte 1
    let otherBytesAreZeroes ← callDataBufferIsZero fuel cd start (sub len 1)
    return and lastByteIsOne otherBytesAreZeroes
  else
    some 0

/-- The variables of the loops that move limbs from one number to another. -/
structure MoveState where
  mem : Memory
  i : Word
  currentLimbPtr : Word
  currentShiftedLimbPtr : Word

/-- The loops of `bigUIntShl`: the limb that is written is computed from the limb at
`currentLimbPtr` and the one behind it. -/
def moveLimbs (shifted : Word → Word → Word) (nLimbs : Word) (fuel : ℕ) (s : MoveState) :
    Option MoveState :=
  iterate
    (fun (s : MoveState) =>
      if lt s.i nLimbs ≠ 0 then
        let nextLimbPtr := add s.currentLimbPtr LIMB_SIZE_IN_BYTES
        let shiftedLimb := shifted (mload s.mem nextLimbPtr) (mload s.mem s.currentLimbPtr)
        some (.next
          { mem := mstore s.mem s.currentShiftedLimbPtr shiftedLimb
            i := add s.i 1
            currentLimbPtr := nextLimbPtr
            currentShiftedLimbPtr := add s.currentShiftedLimbPtr LIMB_SIZE_IN_BYTES })
      else
        some (.done s))
    fuel s

/-- `for { let i } lt(i, limbsToShiftOut) { i := add(i, 1) }`, which fills with zeros. -/
def fillZeros (fuel : ℕ) (mem : Memory) (limbsToShiftOut ptr : Word) : Option Memory :=
  iterate
    (fun (s : Memory × Word × Word) =>
      let (mem, i, ptr) := s
      if lt i limbsToShiftOut ≠ 0 then
        some (.next (mstore mem ptr 0, add i 1, add ptr LIMB_SIZE_IN_BYTES))
      else
        some (.done mem))
    fuel (mem, 0, ptr)

def bigUIntShl (fuel : ℕ) (mem : Memory) (times numberPtr nLimbs shiftedPtr : Word) :
    Option Memory :=
  if times = 0 then
    if iszero (eq numberPtr shiftedPtr) ≠ 0 then do
      let s ← moveLimbs (fun _ limb => limb) nLimbs fuel ⟨mem, 0, numberPtr, shiftedPtr⟩
      return s.mem
    else
      some mem
  else do
    let effectiveShifts := mod times LIMB_SIZE_IN_BITS
    let b_inv := sub LIMB_SIZE_IN_BITS effectiveShifts
    let limbsToShiftOut := div times LIMB_SIZE_IN_BITS
    let currentLimbPtr := add numberPtr (shl 5 limbsToShiftOut)
    if iszero effectiveShifts ≠ 0 then
      let s ← moveLimbs (fun _ limb => limb) nLimbs fuel
        ⟨mem, limbsToShiftOut, currentLimbPtr, shiftedPtr⟩
      fillZeros fuel s.mem limbsToShiftOut s.currentShiftedLimbPtr
    else
      let s ← moveLimbs (fun next limb => or (shr b_inv next) (shl effectiveShifts limb))
        nLimbs fuel ⟨mem, limbsToShiftOut, currentLimbPtr, shiftedPtr⟩
      let mem := mstore s.mem s.currentShiftedLimbPtr
        (shl effectiveShifts (mload s.mem s.currentShiftedLimbPtr))
      fillZeros fuel mem limbsToShiftOut (add s.currentShiftedLimbPtr LIMB_SIZE_IN_BYTES)

def getLimbValueAtOffset (mem : Memory) (limbPointer anOffset : Word) : Word :=
  mload mem (add anOffset limbPointer)

def storeLimbValueAtOffset (mem : Memory) (limbPointer anOffset aValue : Word) : Memory :=
  mstore mem (add limbPointer anOffset) aValue

/-- The difference is stored, and the borrow is returned. -/
def bigUIntSubWithBorrow (fuel : ℕ) (mem : Memory)
    (minuendPtr subtrahendPtr nLimbs differencePtr : Word) : Option (Memory × Word) :=
  iterate
    (fun (s : Memory × Word × Word) =>
      let (mem, i, borrow) := s
      if gt i 0 ≠ 0 then
        let limbOffset := shl 5 (sub i 1)
        let minuendCurrentLimb := getLimbValueAtOffset mem minuendPtr limbOffset
        let subtrahendCurrentLimb := getLimbValueAtOffset mem subtrahendPtr limbOffset
        let (differenceCurrentLimb, borrow) :=
          overflowingSubWithBorrow minuendCurrentLimb subtrahendCurrentLimb borrow
        let mem := storeLimbValueAtOffset mem differencePtr limbOffset differenceCurrentLimb
        some (.next (mem, sub i 1, borrow))
      else
        some (.done (mem, borrow)))
    fuel (mem, nLimbs, 0)

/-- The inner loop of `bigUIntMul`, over the limbs of the second number. -/
def mulRow (fuel : ℕ) (mem : Memory)
    (multiplicandPtr multiplierPtr nLimbs productPtr i : Word) : Option (Memory × Word) :=
  iterate
    (fun (s : Memory × Word × Word) =>
      let (mem, j, carry) := s
      if gt j 0 ≠ 0 then
        let word1 := mload mem (add multiplicandPtr (shl 5 (sub i 1)))
        let word2 := mload mem (add multiplierPtr (shl 5 (sub j 1)))
        let (product, carryFlag) := overflowingAdd (mul word1 word2) carry
        let carry := add (mulHigh word1 word2) carryFlag
        let retIndex := add productPtr (shl 5 (sub (add i j) 1))
        let retWordBefore := mload mem retIndex
        let (retWordAfter, carryFlag) := overflowingAdd retWordBefore product
        let mem := mstore mem retIndex retWordAfter
        let carry := add carry carryFlag
        some (.next (mem, sub j 1, carry))
      else
        some (.done (mem, carry)))
    fuel (mem, nLimbs, 0)

def bigUIntMul (fuel : ℕ) (mem : Memory)
    (multiplicandPtr multiplierPtr nLimbs productPtr : Word) : Option Memory := do
  let mem ← zeroWithLimbSizeAt fuel mem (shl 1 nLimbs) productPtr
  iterate
    (fun (s : Memory × Word) =>
      let (mem, i) := s
      if gt i 0 ≠ 0 then do
        let (mem, carry) ← mulRow fuel mem multiplicandPtr multiplierPtr nLimbs productPtr i
        let retIndex := add productPtr (shl 5 (sub i 1))
        some (.next (mstore mem retIndex carry, sub i 1))
      else
        some (.done mem))
    fuel (mem, nLimbs)

def UIntBitSize (fuel : ℕ) (number : Word) : Option Word :=
  iterate
    (fun (s : Word × Word) =>
      let (shift_me, bitSize) := s
      if lt 0 shift_me ≠ 0 then
        some (.next (shr 1 shift_me, add bitSize 1))
      else
        some (.done bitSize))
    fuel (number, 0)

/-- The variables of the loop of `bigUIntBitSize`. -/
structure BitSizeState where
  i : Word
  bitSize : Word
  limb : Word
  offset : Word

def bigUIntBitSize (fuel : ℕ) (mem : Memory) (basePtr nLimbs : Word) : Option Word := do
  let s ← iterate
    (fun (s : BitSizeState) =>
      if and (lt s.i nLimbs) (iszero s.limb) ≠ 0 then
        some (.next
          { i := add s.i 1
            bitSize := sub s.bitSize 256
            limb := mload mem (add basePtr s.offset)
            offset := add s.offset LIMB_SIZE_IN_BYTES })
      else
        some (.done s))
    fuel ⟨0, shl 8 nLimbs, 0, 0⟩
  let size ← UIntBitSize fuel s.limb
  return add s.bitSize size

def bigUIntInPlaceOrWith1 (mem : Memory) (basePtr nLimbs : Word) : Memory :=
  let offset := shl 5 (sub nLimbs 1)
  let limbPtr := add basePtr offset
  let limb := mload mem limbPtr
  mstore mem limbPtr (or limb 1)

def bigUIntOneShiftRight (fuel : ℕ) (mem : Memory) (numberPtr nLimbs : Word) :
    Option Memory :=
  let overflowPtr := add numberPtr (shl 5 nLimbs)
  iterate
    (fun (s : Memory × Word × Word) =>
      let (mem, p, carryBit) := s
      if lt p overflowPtr ≠ 0 then
        let limb := mload mem p
        let lsb := and limb 1
        let limb := or (shr 1 limb) carryBit
        let carryBit := shl 255 lsb
        some (.next (mstore mem p limb, add p 32, carryBit))
      else
        some (.done mem))
    fuel (mem, numberPtr, 0)

/-- The loop of `bigUIntRem`, from the shift `bd` on. -/
def remLoop (fuel : ℕ) (tmp_ptr_1 tmp_ptr_2 nLimbs rem_ptr : Word) (mem : Memory)
    (bd : Word) : Option Memory :=
  iterate
    (fun (s : Memory × Word) => do
      let (mem, bd) := s
      let (mem, borrow) ← bigUIntSubWithBorrow fuel mem rem_ptr tmp_ptr_1 nLimbs tmp_ptr_2
      let mem ← if iszero borrow ≠ 0 then copyBigUint fuel mem nLimbs tmp_ptr_2 rem_ptr
        else some mem
      if iszero bd ≠ 0 then
        some (.done mem)
      else
        let bd := sub bd 1
        let mem ← bigUIntOneShiftRight fuel mem tmp_ptr_1 nLimbs
        some (.next (mem, bd)))
    fuel (mem, bd)

def bigUIntRem (fuel : ℕ) (mem : Memory) (dividend_ptr divisor_ptr tmp_ptr_1 tmp_ptr_2
    nLimbs realLimbs modulusBitSize rem_ptr : Word) : Option Memory := do
  let mem ← zeroWithLimbSizeAt fuel mem nLimbs tmp_ptr_1
  let mem ← zeroWithLimbSizeAt fuel mem nLimbs tmp_ptr_2
  let mem ← copyBigUint fuel mem nLimbs dividend_ptr rem_ptr
  let bd := sub (shl 8 realLimbs) modulusBitSize
  let mem ← bigUIntShl fuel mem bd divisor_ptr nLimbs tmp_ptr_1
  remLoop fuel tmp_ptr_1 tmp_ptr_2 nLimbs rem_ptr mem bd

def bigUIntIsGreaterThanOne (fuel : ℕ) (mem : Memory) (nLimbs basePtr : Word) :
    Option Word :=
  let p := add basePtr (shl 5 (sub nLimbs 1))
  let limb := mload mem p
  iterate
    (fun (s : Word × Word) =>
      let (p, ret) := s
      if and (lt basePtr p) (eq ret 0) ≠ 0 then
        let p := sub p LIMB_SIZE_IN_BYTES
        some (.next (p, lt 0 (mload mem p)))
      else
        some (.done ret))
    fuel (p, gt limb 1)

def bigUIntModTwo (mem : Memory) (nLimbs basePtr : Word) : Word :=
  let p := add basePtr (shl 5 (sub nLimbs 1))
  and (mload mem p) 1

def bigUIntLowerHalfPtr (nLimbs basePtr : Word) : Word :=
  let upperHalfSizeInBytes := shl 4 nLimbs
  add basePtr upperHalfSizeInBytes

/-- Operands of 32 bytes each. -/
def oneLimbImplementation (fuel : ℕ) (cd : Calldata) : Option Halt :=
  let base := calldataload cd 96
  let exponent := calldataload cd 128
  let modulus := calldataload cd 160
  if or (lt modulus 2) (iszero base) ≠ 0 then
    some (returnMem (mstore Memory.zero 0 0) 0 32)
  else if or (eq base 1) (iszero exponent) ≠ 0 then
    some (returnMem (mstore Memory.zero 0 1) 0 32)
  else do
    let pow ← iterate
      (fun (s : Word × Word × Word) =>
        let (pow, base, exponent) := s
        if gt exponent 0 ≠ 0 then
          let pow := if eq (mod exponent 2) 1 ≠ 0 then mulmod pow base modulus else pow
          some (.next (pow, mulmod base base modulus, shr 1 exponent))
        else
          some (.done pow))
      fuel (1, mod base modulus, exponent)
    some (returnMem (mstore Memory.zero 0 pow) 0 32)

/-- The loop over the bits of the exponent.  The pointers are those after the call of
`flip`. -/
def powerLoop (fuel : ℕ) (nLimbs basePtr exponentPtr modulusPtr resultPtr scratchBuf1Ptr
    scratchBuf2Ptr scratchBuf3Ptr modulusBitSize exponentBitSize : Word) (mem : Memory) :
    Option Memory :=
  iterate
    (fun (s : Memory × Word) => do
      let (mem, i) := s
      if lt i exponentBitSize ≠ 0 then
        let base_low_ptr := bigUIntLowerHalfPtr nLimbs basePtr
        let mem ← if bigUIntModTwo mem nLimbs exponentPtr ≠ 0 then do
            let result_low_ptr := bigUIntLowerHalfPtr nLimbs resultPtr
            let mem ← bigUIntMul fuel mem result_low_ptr base_low_ptr (shr 1 nLimbs)
              scratchBuf1Ptr
            let limbsToRem ← bigIntLimbsWithoutZeros fuel mem scratchBuf1Ptr nLimbs
            bigUIntRem fuel mem scratchBuf1Ptr modulusPtr scratchBuf3Ptr scratchBuf2Ptr
              nLimbs limbsToRem modulusBitSize resultPtr
          else
            some mem
        let mem ← bigUIntOneShiftRight fuel mem exponentPtr nLimbs
        let mem ← bigUIntMul fuel mem base_low_ptr base_low_ptr (shr 1 nLimbs)
          scratchBuf2Ptr
        let limbsToRem ← bigIntLimbsWithoutZeros fuel mem scratchBuf2Ptr nLimbs
        let mem ← bigUIntRem fuel mem scratchBuf2Ptr modulusPtr scratchBuf1Ptr
          scratchBuf3Ptr nLimbs limbsToRem modulusBitSize basePtr
        some (.next (mem, add i 1))
      else
        some (.done mem))
    fuel (mem, 0)

def bigUIntModularExponentiation (fuel : ℕ) (mem : Memory) (nLimbs basePtr exponentPtr
    modulusPtr resultPtr scratchBuf1Ptr scratchBuf2Ptr scratchBuf3Ptr : Word) :
    Option Memory := do
  let greater ← bigUIntIsGreaterThanOne fuel mem nLimbs modulusPtr
  if greater ≠ 0 then
    let mem := bigUIntInPlaceOrWith1 mem resultPtr nLimbs
    let modulusBitSize ← bigUIntBitSize fuel mem modulusPtr nLimbs
    let exponentBitSize ← bigUIntBitSize fuel mem exponentPtr nLimbs
    let limbsToRem ← bigIntLimbsWithoutZeros fuel mem basePtr nLimbs
    let mem ← bigUIntRem fuel mem basePtr modulusPtr scratchBuf1Ptr scratchBuf2Ptr nLimbs
      limbsToRem modulusBitSize scratchBuf3Ptr
    let (basePtr, scratchBuf3Ptr) := (scratchBuf3Ptr, basePtr)
    powerLoop fuel nLimbs basePtr exponentPtr modulusPtr resultPtr scratchBuf1Ptr
      scratchBuf2Ptr scratchBuf3Ptr modulusBitSize exponentBitSize mem
  else
    some mem

def bigUIntPadWithZeros (fuel : ℕ) (mem : Memory) (ptr currentLimbNumber newLimbNumber
    resultPtr : Word) : Option Memory :=
  iterate
    (fun (s : Memory × Word) =>
      let (mem, i) := s
      if lt i currentLimbNumber ≠ 0 then
        some (.next
          (mstore mem (add resultPtr (shl 5 (sub (sub newLimbNumber 1) i)))
            (mload mem (add ptr (shl 5 (sub (sub currentLimbNumber 1) i)))),
          add i 1))
      else
        some (.done mem))
    fuel (mem, 0)

/-- The variables of the loop of `parseCalldata`. -/
structure ParseState where
  mem : Memory
  currentLimbNumber : Word
  currentLimbCalldataPtr : Word
  currentLimbMemoryPtr : Word

/-- The first limb is stored before the loop if it has fewer than 32 bytes. -/
def parseCalldata (fuel : ℕ) (cd : Calldata) (mem : Memory) (calldataValuePtr
    calldataValueLen resPtr : Word) : Option Memory :=
  let numberOfLimbs := div calldataValueLen LIMB_SIZE_IN_BYTES
  let lastLimbMisalignmentInBytes := mod calldataValueLen LIMB_SIZE_IN_BYTES
  let firstLimbExtraBytes := sub LIMB_SIZE_IN_BYTES lastLimbMisalignmentInBytes
  let lastLimbBytes := sub LIMB_SIZE_IN_BYTES firstLimbExtraBytes
  let misalignedWordPtr := sub calldataValuePtr firstLimbExtraBytes
  let firstWordExtraBits := shl 3 firstLimbExtraBytes
  let misalignedLimb := shl firstWordExtraBits (calldataload cd misalignedWordPtr)
  let misalignedLimb := shr firstWordExtraBits misalignedLimb
  let (numberOfLimbs, mem) :=
    if lastLimbMisalignmentInBytes ≠ 0 then
      (add numberOfLimbs 1, mstore mem resPtr misalignedLimb)
    else
      (numberOfLimbs, mem)
  iterate
    (fun (s : ParseState) =>
      if lt s.currentLimbNumber numberOfLimbs ≠ 0 then
        if and (iszero s.currentLimbNumber) (gt lastLimbMisalignmentInBytes 0) ≠ 0 then
          some (.next
            { mem := s.mem
              currentLimbNumber := add s.currentLimbNumber 1
              currentLimbCalldataPtr := add s.currentLimbCalldataPtr lastLimbBytes
              currentLimbMemoryPtr := add s.currentLimbMemoryPtr LIMB_SIZE_IN_BYTES })
        else
          let currentLimb := calldataload cd s.currentLimbCalldataPtr
          some (.next
            { mem := mstore s.mem s.currentLimbMemoryPtr currentLimb
              currentLimbNumber := add s.currentLimbNumber 1
              currentLimbCalldataPtr := add s.currentLimbCalldataPtr LIMB_SIZE_IN_BYTES
              currentLimbMemoryPtr := add s.currentLimbMemoryPtr LIMB_SIZE_IN_BYTES })
      else
        some (.done s.mem))
    fuel ⟨mem, 0, calldataValuePtr, resPtr⟩

/-- `for { let ptr } lt(ptr, modLen) { ptr := add(ptr, 32) } { mstore(ptr, 0) }` -/
def fulfillWithZeroes (fuel : ℕ) (mem : Memory) (modLen : Word) : Option Memory :=
  iterate
    (fun (s : Memory × Word) =>
      let (mem, ptr) := s
      if lt ptr modLen ≠ 0 then
        some (.next (mstore mem ptr 0, add ptr 32))
      else
        some (.done mem))
    fuel (mem, 0)

/-- The four early returns of the general path, or nothing if none is taken. -/
def shortcuts (fuel : ℕ) (cd : Calldata) (baseLen expLen modLen : Word) :
    Option (Option Halt) := do
  let basePtr := 96
  let expPtr := add basePtr baseLen
  let modPtr := add expPtr expLen
  let modIsZero ← callDataBufferIsZero fuel cd modPtr modLen
  let modIsOne ← callDataBufferIsOne fuel cd modPtr modLen
  if or modIsZero modIsOne ≠ 0 then
    let mem ← fulfillWithZeroes fuel Memory.zero modLen
    return some (returnMem mem 0 modLen)
  else
    let baseIsOne ← callDataBufferIsOne fuel cd basePtr baseLen
    if baseIsOne ≠ 0 then
      let mem ← fulfillWithZeroes fuel Memory.zero modLen
      return some (returnMem (mstore8 mem (sub modLen 1) 1) 0 modLen)
    else
      let expIsZero ← callDataBufferIsZero fuel cd expPtr expLen
      if expIsZero ≠ 0 then
        let mem ← fulfillWithZeroes fuel Memory.zero modLen
        return some (returnMem (mstore8 mem (sub modLen 1) 1) 0 modLen)
      else
        let baseIsZero ← callDataBufferIsZero fuel cd basePtr baseLen
        if baseIsZero ≠ 0 then
          let mem ← fulfillWithZeroes fuel Memory.zero modLen
          return some (returnMem mem 0 modLen)
        else
          return none

/-- The general path behind the early returns. -/
def multiLimb (fuel : ℕ) (cd : Calldata) (baseLen expLen modLen : Word) :
    Option Halt := do
  let basePtr := 96
  let expPtr := add basePtr baseLen
  let modPtr := add expPtr expLen
  let limbsBaseLen := (bigIntLimbs baseLen).1
  let limbsExpLen := (bigIntLimbs expLen).1
  let limbsModLen := (bigIntLimbs modLen).1
  let ptrBaseLimbs := 0
  let mem ← parseCalldata fuel cd Memory.zero basePtr baseLen ptrBaseLimbs
  let ptrExpLimbs := shl 5 limbsBaseLen
  let mem ← parseCalldata fuel cd mem expPtr expLen ptrExpLimbs
  let ptrModLimbs := add ptrExpLimbs (shl 5 limbsExpLen)
  let mem ← parseCalldata fuel cd mem modPtr modLen ptrModLimbs
  let maxLimbNumber := limbsBaseLen
  let maxLimbNumber := if lt maxLimbNumber limbsExpLen ≠ 0 then limbsExpLen else maxLimbNumber
  let maxLimbNumber := if lt maxLimbNumber limbsModLen ≠ 0 then limbsModLen else maxLimbNumber
  let maxLimbNumber := add maxLimbNumber maxLimbNumber
  let memForMaxLimbNumber := shl 5 maxLimbNumber
  let baseStartPtr := add ptrModLimbs (shl 5 limbsModLen)
  let exponentStartPtr := add baseStartPtr memForMaxLimbNumber
  let moduloStartPtr := add exponentStartPtr memForMaxLimbNumber
  let mem ← bigUIntPadWithZeros fuel mem ptrBaseLimbs limbsBaseLen maxLimbNumber
    baseStartPtr
  let mem ← bigUIntPadWithZeros fuel mem ptrExpLimbs limbsExpLen maxLimbNumber
    exponentStartPtr
  let mem ← bigUIntPadWithZeros fuel mem ptrModLimbs limbsModLen maxLimbNumber
    moduloStartPtr
  let scratchBufferPtr1 := add moduloStartPtr memForMaxLimbNumber
  let scratchBufferPtr2 := add scratchBufferPtr1 memForMaxLimbNumber
  let scratchBufferPtr3 := add scratchBufferPtr2 memForMaxLimbNumber
  let resultPtr := add scratchBufferPtr3 memForMaxLimbNumber
  let mem ← bigUIntModularExponentiation fuel mem maxLimbNumber baseStartPtr
    exponentStartPtr moduloStartPtr resultPtr scratchBufferPtr1 scratchBufferPtr2
    scratchBufferPtr3
  let finalResultEnd := add resultPtr memForMaxLimbNumber
  let finalResultStart := sub finalResultEnd modLen
  return returnMem mem finalResultStart modLen

def fallback (fuel : ℕ) (cd : Calldata) : Option Halt :=
  let baseLen := calldataload cd 0
  let expLen := calldataload cd 32
  let modLen := calldataload cd 64
  if and (iszero baseLen) (iszero modLen) ≠ 0 then
    some (returnMem Memory.zero 0 0)
  else if and (and (eq baseLen 32) (eq expLen 32)) (eq modLen 32) ≠ 0 then
    oneLimbImplementation fuel cd
  else do
    let early ← shortcuts fuel cd baseLen expLen modLen
    match early with
    | some h => return h
    | none => multiLimb fuel cd baseLen expLen modLen

end EraPrecompiles.ModExp
